import Pinnokio.Matching.Transfers

/-!
# Transfers and the order of a statement

Of two transactions, the one that comes first in the list gives the date of the rate and the side that is converted.  The
score of a pair in two currencies depends on its order, and with it the gate of the amount, the threshold and the
winner; that of a pair in one currency does not, as long as the similarity of the texts does not.

* `counterpart_of_best` — the counterpart of a transaction, where no two pairs tie;
* `order_independent_iff` — **when the counterparts do not depend on the order of the list**;
* `settled_of_comm` — they do not where no score depends on the order of its pair.
-/

namespace Pinnokio.Matching.BulkMatchingEngine

open Pinnokio.Numbers Pinnokio.RoundedBest

variable (e : BulkMatchingEngine)

/-- The counterpart that the index has for a transaction. -/
def counterpart (transactions : List Tx) (id : String) : Option String :=
  ((e.buildTransferIndex transactions).get? id).map TransferMatch.counterpartTxId

/-- The score of two transactions in one of their two orders. -/
def ScoresAs (t o : Tx) (score : ℚ) : Prop := e.transferScore t o = some score ∨ e.transferScore o t = some score

/-- No two pairs have the same rounded score, in whatever order. -/
def Untied (transactions : List Tx) : Prop :=
  ∀ a ∈ transactions, ∀ b ∈ transactions, ∀ c ∈ transactions, ∀ d ∈ transactions, ∀ score score',
    e.transferScore a b = some score → e.transferScore c d = some score' → ¬(a = c ∧ b = d ∨ a = d ∧ b = c) →
      e.numbers.round 3 score ≠ e.numbers.round 3 score'

/-- A transaction that is accepted with another one has a counterpart that is accepted in both orders, and both of
their scores are above those of every other pair of it. -/
def Settled (transactions : List Tx) : Prop :=
  ∀ t ∈ transactions, (∃ o ∈ transactions, ∃ score, e.ScoresAs t o score) →
    ∃ o ∈ transactions, ∃ score score', e.transferScore t o = some score ∧ e.transferScore o t = some score' ∧
      ∀ o' ∈ transactions, o' ≠ o → ∀ other, e.ScoresAs t o' other → other < score ∧ other < score'

section

variable {e} {transactions transactions' : List Tx} {t o : Tx} {score : ℚ}

/-! ### The counterpart -/

theorem transferScore_self (t : Tx) : e.transferScore t t = none :=
  if_pos (.inr (.inr (.inl (e.numbers.square_nonneg t.amount))))

theorem ne_of_scoresAs (h : e.ScoresAs t o score) : o ≠ t := by
  rintro rfl
  rcases h with h | h <;> rw [transferScore_self] at h <;> cases h

theorem scoresAs_of_mem_offers (hids : (transactions.map Tx.id).Nodup) (ht : t ∈ transactions)
    (h : (o, score) ∈ offers e.transferScore transactions t.id) : e.ScoresAs t o score :=
  ((mem_offers_iff hids ht).mp h).imp And.right And.right

theorem counterpart_eq_none (h : Indexable transactions) (ht : t ∈ transactions)
    (hnone : offers e.transferScore transactions t.id = []) : e.counterpart transactions t.id = none := by
  rw [counterpart, get?_buildTransferIndex h ht, hnone]
  rfl

/-- The offer that a counterpart comes from has the highest rounded score. -/
theorem exists_offer_of_counterpart (h : Indexable transactions) (ht : t ∈ transactions) {id : String}
    (hid : e.counterpart transactions t.id = some id) :
    ∃ o score, (o, score) ∈ offers e.transferScore transactions t.id ∧ o.id = id ∧
      ∀ x ∈ offers e.transferScore transactions t.id, e.numbers.round 3 x.2 ≤ e.numbers.round 3 score := by
  rw [counterpart, Option.map_eq_some_iff] at hid
  obtain ⟨m, hm, rfl⟩ := hid
  obtain ⟨o, score, hprevails, rfl⟩ := (get?_eq_some_iff h ht).mp hm
  have hmax := hprevails.rounded_le (e.numbers.round_mono 3) (e.numbers.round_round)
  exact ⟨o, score, hprevails.mem, rfl, hmax⟩

theorem counterpart_ne_none (h : Indexable transactions) (ht : t ∈ transactions)
    (hmem : (o, score) ∈ offers e.transferScore transactions t.id) : e.counterpart transactions t.id ≠ none := by
  intro hnone
  rw [counterpart, get?_buildTransferIndex h ht, entryOf, Option.map_map, Option.map_eq_none_iff,
    keepAll_eq_none_iff] at hnone
  rw [hnone] at hmem
  cases hmem

/-- **The counterpart is the one that no other reaches.** -/
theorem counterpart_of_best (h : Indexable transactions) (ht : t ∈ transactions)
    (hmem : (o, score) ∈ offers e.transferScore transactions t.id)
    (hbest : ∀ x ∈ offers e.transferScore transactions t.id, x.1 ≠ o →
      e.numbers.round 3 x.2 < e.numbers.round 3 score) :
    e.counterpart transactions t.id = some o.id := by
  obtain ⟨id, hid⟩ := Option.ne_none_iff_exists'.mp (counterpart_ne_none h ht hmem)
  obtain ⟨o', score', hmem', rfl, hmax⟩ := exists_offer_of_counterpart h ht hid
  by_cases hne : o' = o
  · rw [hid, hne]
  · have hlt : e.numbers.round 3 score' < e.numbers.round 3 score := hbest (o', score') hmem' hne
    have hle : e.numbers.round 3 score ≤ e.numbers.round 3 score' := hmax (o, score) hmem
    exact absurd hlt (not_lt.mpr hle)

/-! ### Orders of a list -/

theorem Indexable.perm (h : Indexable transactions) (hperm : transactions'.Perm transactions) :
    Indexable transactions' where
  few := hperm.length_eq ▸ h.few
  distinct := (hperm.map Tx.id).nodup_iff.mpr h.distinct
  named := fun t ht => h.named t (hperm.subset ht)

/-- The list with a transaction behind some of the others. -/
def arranged (t : Tx) (isFirst : Tx → Bool) (transactions : List Tx) : List Tx :=
  (transactions.filter (· ≠ t)).filter isFirst ++ t :: (transactions.filter (· ≠ t)).filter fun x => !isFirst x

theorem arranged_perm (isFirst : Tx → Bool) (hnodup : transactions.Nodup) (ht : t ∈ transactions) :
    (arranged t isFirst transactions).Perm transactions := by
  have herase : transactions.erase t = transactions.filter (· ≠ t) := by
    rw [hnodup.erase_eq_filter t]
    exact List.filter_congr fun x _ => (decide_not.trans rfl).symm
  calc (arranged t isFirst transactions).Perm (t :: ((transactions.filter (· ≠ t)).filter isFirst ++
        (transactions.filter (· ≠ t)).filter fun x => !isFirst x)) := List.perm_middle
    _ |>.Perm (t :: transactions.filter (· ≠ t)) := (List.filter_append_perm isFirst _).cons t
    _ |>.Perm transactions := herase ▸ (List.perm_cons_erase ht).symm

theorem mem_allSides_middle {front back : List Tx} :
    (∀ o ∈ front, (o, t) ∈ allSides (front ++ t :: back)) ∧ ∀ o ∈ back, (t, o) ∈ allSides (front ++ t :: back) := by
  induction front with
  | nil => exact ⟨fun o ho => absurd ho List.not_mem_nil, fun o ho => mem_allSides_cons.mpr (.inl ⟨rfl, ho⟩)⟩
  | cons x front ih =>
      refine ⟨fun o ho => ?_, fun o ho => mem_allSides_cons.mpr (.inr (ih.2 o ho))⟩
      rcases List.mem_cons.mp ho with rfl | ho
      · exact mem_allSides_cons.mpr (.inl ⟨rfl, List.mem_append_right _ List.mem_cons_self⟩)
      · exact mem_allSides_cons.mpr (.inr (ih.1 o ho))

theorem allSides_total (ht : t ∈ transactions) (ho : o ∈ transactions) (hne : o ≠ t) :
    (t, o) ∈ allSides transactions ∨ (o, t) ∈ allSides transactions := by
  induction transactions with
  | nil => cases ht
  | cons x rest ih =>
      rcases List.mem_cons.mp ht with rfl | htrest
      · rcases List.mem_cons.mp ho with rfl | horest
        · exact absurd rfl hne
        · exact .inl (mem_allSides_cons.mpr (.inl ⟨rfl, horest⟩))
      · rcases List.mem_cons.mp ho with rfl | horest
        · exact .inr (mem_allSides_cons.mpr (.inl ⟨rfl, htrest⟩))
        · rcases ih htrest horest with hsides | hsides
          · exact .inl (mem_allSides_cons.mpr (.inr hsides))
          · exact .inr (mem_allSides_cons.mpr (.inr hsides))

/-- **The order decides the score that a transaction is offered.** -/
theorem mem_offers_arranged_iff {isFirst : Tx → Bool} (hids : (transactions.map Tx.id).Nodup)
    (ht : t ∈ transactions) (ho : o ∈ transactions) (hne : o ≠ t) :
    (o, score) ∈ offers e.transferScore (arranged t isFirst transactions) t.id ↔
      (if isFirst o then e.transferScore o t else e.transferScore t o) = some score := by
  have hperm := arranged_perm isFirst hids.of_map ht
  have hids' : ((arranged t isFirst transactions).map Tx.id).Nodup := (hperm.map Tx.id).nodup_iff.mpr hids
  have hothers : o ∈ transactions.filter (· ≠ t) := List.mem_filter.mpr ⟨ho, decide_eq_true hne⟩
  rw [mem_offers_iff hids' (hperm.mem_iff.mpr ht)]
  split
  · next hfirst =>
    have hsides : (o, t) ∈ allSides (arranged t isFirst transactions) :=
      mem_allSides_middle.1 o (List.mem_filter.mpr ⟨hothers, hfirst⟩)
    have hnot := not_mem_allSides hids'.of_map hsides
    exact ⟨fun h => (h.resolve_left fun hwrong => hnot hwrong.1).2, fun h => .inr ⟨hsides, h⟩⟩
  · next hlater =>
    have hback : (!isFirst o) = true := by
      rw [Bool.eq_false_of_not_eq_true hlater]
      rfl
    have hsides : (t, o) ∈ allSides (arranged t isFirst transactions) :=
      mem_allSides_middle.2 o (List.mem_filter.mpr ⟨hothers, hback⟩)
    have hnot := not_mem_allSides hids'.of_map hsides
    exact ⟨fun h => (h.resolve_right fun hwrong => hnot hwrong.1).2, fun h => .inl ⟨hsides, h⟩⟩

/-! ### Order independence -/

/-- The pairs of a transaction have different scores. -/
theorem Untied.ne (h : Untied e transactions) (ht : t ∈ transactions) {o' : Tx} (ho : o ∈ transactions)
    (ho' : o' ∈ transactions) (hne : o' ≠ o) {other : ℚ} (hscore : e.ScoresAs t o score)
    (hother : e.ScoresAs t o' other) : e.numbers.round 3 other ≠ e.numbers.round 3 score := by
  have hot : o ≠ t := ne_of_scoresAs hscore
  have hot' : o' ≠ t := ne_of_scoresAs hother
  rcases hscore with hscore | hscore <;> rcases hother with hother | hother
  · exact h t ht o' ho' t ht o ho _ _ hother hscore (by rintro (⟨-, h⟩ | ⟨h, -⟩) <;> simp_all)
  · exact h o' ho' t ht t ht o ho _ _ hother hscore (by rintro (⟨h, -⟩ | ⟨h, -⟩) <;> simp_all)
  · exact h t ht o' ho' o ho t ht _ _ hother hscore (by rintro (⟨h, -⟩ | ⟨-, h⟩) <;> simp_all)
  · exact h o' ho' t ht o ho t ht _ _ hother hscore (by rintro (⟨h, -⟩ | ⟨h, -⟩) <;> simp_all)

/-- Of scores that do not tie, the higher one has the higher rounded one. -/
theorem lt_iff_of_round_ne {x y : ℚ} (h : e.numbers.round 3 x ≠ e.numbers.round 3 y) :
    x < y ↔ e.numbers.round 3 x < e.numbers.round 3 y := by
  constructor
  · intro hlt
    exact lt_of_le_of_ne (e.numbers.round_mono 3 hlt.le) h
  · intro hlt
    by_contra hle
    exact absurd (e.numbers.round_mono 3 (not_lt.mp hle)) (not_le.mpr hlt)

/-- A settled transaction has its counterpart in every order. -/
theorem counterpart_of_settled (h : Indexable transactions) (huntied : Untied e transactions)
    (hperm : transactions'.Perm transactions) (ht : t ∈ transactions) (ho : o ∈ transactions) {score score' : ℚ}
    (hto : e.transferScore t o = some score) (hot : e.transferScore o t = some score')
    (hbest : ∀ o' ∈ transactions, o' ≠ o → ∀ other, e.ScoresAs t o' other → other < score ∧ other < score') :
    e.counterpart transactions' t.id = some o.id := by
  have h' := Indexable.perm h hperm
  have ht' : t ∈ transactions' := hperm.mem_iff.mpr ht
  have hoffer {offered : ℚ} (hmem : (o, offered) ∈ offers e.transferScore transactions' t.id)
      (hscores : e.ScoresAs t o offered) (hor : offered = score ∨ offered = score') :
      e.counterpart transactions' t.id = some o.id := by
    refine counterpart_of_best h' ht' hmem fun x hx hne => ?_
    have hother := scoresAs_of_mem_offers h'.distinct ht' hx
    have hxmem : x.1 ∈ transactions := hperm.mem_iff.mp (mem_of_mem_offers h'.distinct ht' hx)
    have hlt := hbest x.1 hxmem hne x.2 hother
    refine (lt_iff_of_round_ne (huntied.ne ht ho hxmem hne hscores hother)).mp ?_
    rcases hor with rfl | rfl
    · exact hlt.1
    · exact hlt.2
  have hne : o ≠ t := ne_of_scoresAs (.inl hto)
  rcases allSides_total ht' (hperm.mem_iff.mpr ho) hne with hsides | hsides
  · exact hoffer ((mem_offers_iff h'.distinct ht').mpr (.inl ⟨hsides, hto⟩)) (.inl hto) (.inl rfl)
  · exact hoffer ((mem_offers_iff h'.distinct ht').mpr (.inr ⟨hsides, hot⟩)) (.inr hot) (.inr rfl)

/-- A counterpart that a transaction has in every order is offered to it in every order, with the highest score. -/
theorem offered_of_counterpart (h : Indexable transactions) (ht : t ∈ transactions) (ho : o ∈ transactions)
    (hsame : ∀ transactions', transactions'.Perm transactions → e.counterpart transactions' t.id = some o.id)
    (isFirst : Tx → Bool) :
    ∃ score, (o, score) ∈ offers e.transferScore (arranged t isFirst transactions) t.id ∧
      ∀ x ∈ offers e.transferScore (arranged t isFirst transactions) t.id,
        e.numbers.round 3 x.2 ≤ e.numbers.round 3 score := by
  have hperm := arranged_perm isFirst h.distinct.of_map ht
  have h' := Indexable.perm h hperm
  have ht' := hperm.mem_iff.mpr ht
  obtain ⟨o', score, hmem, hid, hmax⟩ := exists_offer_of_counterpart h' ht' (hsame _ hperm)
  have ho' : o' ∈ transactions := hperm.mem_iff.mp (mem_of_mem_offers h'.distinct ht' hmem)
  have heq : o' = o := List.inj_on_of_nodup_map h.distinct ho' ho hid
  subst heq
  exact ⟨score, hmem, hmax⟩

theorem settled_of_same (h : Indexable transactions) (huntied : Untied e transactions)
    (hsame : ∀ transactions', transactions'.Perm transactions → ∀ t ∈ transactions,
      e.counterpart transactions' t.id = e.counterpart transactions t.id) : Settled e transactions := by
  rintro t ht ⟨first, hfirst, accepted, haccepted⟩
  -- An order in which the accepted pair is offered.
  let isFirst : Tx → Bool := fun _ => decide (e.transferScore first t = some accepted)
  have hperm := arranged_perm isFirst h.distinct.of_map ht
  have hoffered : (first, accepted) ∈ offers e.transferScore (arranged t isFirst transactions) t.id := by
    rw [mem_offers_arranged_iff h.distinct ht hfirst (ne_of_scoresAs haccepted)]
    by_cases hswap : e.transferScore first t = some accepted
    · rw [if_pos (decide_eq_true hswap)]
      exact hswap
    · rw [if_neg fun htrue => hswap (of_decide_eq_true htrue)]
      exact haccepted.resolve_right hswap
  have h' := Indexable.perm h hperm
  have hsome := counterpart_ne_none h' (hperm.mem_iff.mpr ht) hoffered
  obtain ⟨id, hid⟩ := Option.ne_none_iff_exists'.mp hsome
  obtain ⟨o, kept, hmem, rfl, -⟩ := exists_offer_of_counterpart h' (hperm.mem_iff.mpr ht) hid
  have ho : o ∈ transactions := hperm.mem_iff.mp (mem_of_mem_offers h'.distinct (hperm.mem_iff.mpr ht) hmem)
  have hne : o ≠ t := ne_of_scoresAs (scoresAs_of_mem_offers h'.distinct (hperm.mem_iff.mpr ht) hmem)
  have hall (transactions' : List Tx) (hperm' : transactions'.Perm transactions) :
      e.counterpart transactions' t.id = some o.id := by
    rw [hsame _ hperm' t ht, ← hsame _ hperm t ht, hid]
  -- What the counterpart is offered with, before and behind the transaction.
  obtain ⟨score, hscore, -⟩ := offered_of_counterpart h ht ho hall fun _ => false
  obtain ⟨score', hscore', -⟩ := offered_of_counterpart h ht ho hall fun _ => true
  rw [mem_offers_arranged_iff h.distinct ht ho hne] at hscore hscore'
  refine ⟨o, ho, score, score', hscore, hscore', fun o' ho' hne' other hother => ?_⟩
  have hbeats (swap : Bool) {offered : ℚ}
      (hoffer : (if swap then e.transferScore o t else e.transferScore t o) = some offered) : other < offered := by
    let arrangement : Tx → Bool := fun x => if x = o then swap else decide (e.transferScore o' t = some other)
    have hself : arrangement o = swap := if_pos rfl
    have hrest : arrangement o' = decide (e.transferScore o' t = some other) := if_neg hne'
    have hotherOffered : (o', other) ∈ offers e.transferScore (arranged t arrangement transactions) t.id := by
      rw [mem_offers_arranged_iff h.distinct ht ho' (ne_of_scoresAs hother), hrest]
      by_cases hswap : e.transferScore o' t = some other
      · rw [if_pos (decide_eq_true hswap)]
        exact hswap
      · rw [if_neg fun htrue => hswap (of_decide_eq_true htrue)]
        exact hother.resolve_right hswap
    obtain ⟨offered', hoffered', hmax⟩ := offered_of_counterpart h ht ho hall arrangement
    rw [mem_offers_arranged_iff h.distinct ht ho hne, hself, hoffer] at hoffered'
    cases hoffered'
    have hscores : e.ScoresAs t o offered := by
      cases swap with
      | false => exact .inl hoffer
      | true => exact .inr hoffer
    have hle : e.numbers.round 3 other ≤ e.numbers.round 3 offered := hmax (o', other) hotherOffered
    have hties := huntied.ne ht ho ho' hne' hscores hother
    exact (lt_iff_of_round_ne hties).mpr (lt_of_le_of_ne hle hties)
  exact ⟨hbeats false hscore, hbeats true hscore'⟩

/-- **When the counterparts do not depend on the order of the list.** -/
theorem order_independent_iff (e : BulkMatchingEngine) (transactions : List Tx) (h : Indexable transactions)
    (huntied : Untied e transactions) :
    (∀ transactions', transactions'.Perm transactions → ∀ t ∈ transactions,
      e.counterpart transactions' t.id = e.counterpart transactions t.id) ↔ Settled e transactions := by
  refine ⟨settled_of_same h huntied, fun hsettled transactions' hperm t ht => ?_⟩
  by_cases haccepted : ∃ o ∈ transactions, ∃ score, e.ScoresAs t o score
  · obtain ⟨o, ho, score, score', hto, hot, hbest⟩ := hsettled t ht haccepted
    rw [counterpart_of_settled h huntied hperm ht ho hto hot hbest,
      counterpart_of_settled h huntied (.refl _) ht ho hto hot hbest]
  · have hnone (list : List Tx) (hlist : list.Perm transactions) : e.counterpart list t.id = none := by
      have h' := Indexable.perm h hlist
      have ht' := hlist.mem_iff.mpr ht
      refine counterpart_eq_none h' ht' (List.eq_nil_iff_forall_not_mem.mpr fun x hx => haccepted ?_)
      exact ⟨x.1, hlist.mem_iff.mp (mem_of_mem_offers h'.distinct ht' hx), x.2,
        scoresAs_of_mem_offers h'.distinct ht' hx⟩
    rw [hnone _ hperm, hnone _ (.refl _)]

/-! ### One currency -/

/-- Where no score depends on the order of its pair, the counterparts do not depend on the order of the list. -/
theorem settled_of_comm (h : Indexable transactions) (huntied : Untied e transactions)
    (hcomm : ∀ a ∈ transactions, ∀ b ∈ transactions, e.transferScore a b = e.transferScore b a) :
    Settled e transactions := by
  rintro t ht ⟨first, hfirst, accepted, haccepted⟩
  have hoffers {o : Tx} {score : ℚ} (ho : o ∈ transactions) (hscore : e.ScoresAs t o score) :
      (o, score) ∈ offers e.transferScore transactions t.id := by
    have hto : e.transferScore t o = some score := hscore.elim id fun hot => (hcomm t ht o ho).trans hot
    rw [mem_offers_iff h.distinct ht]
    rcases allSides_total ht ho (ne_of_scoresAs hscore) with hsides | hsides
    · exact .inl ⟨hsides, hto⟩
    · exact .inr ⟨hsides, (hcomm o ho t ht).trans hto⟩
  have hsome := counterpart_ne_none h ht (hoffers hfirst haccepted)
  obtain ⟨id, hid⟩ := Option.ne_none_iff_exists'.mp hsome
  obtain ⟨o, score, hmem, -, hmax⟩ := exists_offer_of_counterpart h ht hid
  have ho := mem_of_mem_offers h.distinct ht hmem
  have hscores := scoresAs_of_mem_offers h.distinct ht hmem
  have hto : e.transferScore t o = some score := hscores.elim (fun hto => hto) fun hot => (hcomm t ht o ho).trans hot
  refine ⟨o, ho, score, score, hto, (hcomm o ho t ht).trans hto, fun o' ho' hne' other hother => ?_⟩
  have hle : e.numbers.round 3 other ≤ e.numbers.round 3 score := hmax (o', other) (hoffers ho' hother)
  have hties := huntied.ne ht ho ho' hne' hscores hother
  have hlt := (lt_iff_of_round_ne hties).mpr (lt_of_le_of_ne hle hties)
  exact ⟨hlt, hlt⟩

theorem transferDays_comm (a b : Tx) : e.transferDays a b = e.transferDays b a := by
  rw [transferDays_eq, transferDays_eq]
  cases parseDate a.date with
  | none => cases parseDate b.date <;> rfl
  | some dateA =>
      cases parseDate b.date with
      | none => rfl
      | some dateB =>
          have hdays : ((dateA : ℤ) - dateB).natAbs = ((dateB : ℤ) - dateA).natAbs := by omega
          simp only [hdays]

/-- The score of two transactions in one currency, with texts that are as similar either way, does not depend on their
order. -/
theorem transferScore_comm {a b : Tx} (hcurrency : normalizeCurrency a.currency = normalizeCurrency b.currency)
    (htext : textSimilarity e.python (buildTxText a) (buildTxText b) =
      textSimilarity e.python (buildTxText b) (buildTxText a)) :
    e.transferScore a b = e.transferScore b a := by
  have hamounts (x y : Tx) (hsame : normalizeCurrency x.currency = normalizeCurrency y.currency) :
      e.transferAmounts x y = some (|x.amount|, |y.amount|) := by
    simp only [transferAmounts]
    rw [if_neg fun hboth => hboth.1 hsame]
  have hgate : (a.amount = 0 ∨ b.amount = 0 ∨ 0 ≤ e.numbers.mul a.amount b.amount ∨ a.accountId = b.accountId) ↔
      (b.amount = 0 ∨ a.amount = 0 ∨ 0 ≤ e.numbers.mul b.amount a.amount ∨ b.accountId = a.accountId) := by
    rw [Rounding.mul_symm, eq_comm (a := a.accountId)]
    tauto
  have hdiff : transferDiff e.numbers |a.amount| |b.amount| = transferDiff e.numbers |b.amount| |a.amount| := by
    rw [transferDiff, transferDiff, Rounding.abs_sub_symm, max_comm]
  have htolerance : e.transferTolerance a b = e.transferTolerance b a := by
    rw [transferTolerance, transferTolerance, if_neg (not_not.mpr hcurrency), if_neg (not_not.mpr hcurrency.symm)]
  have hblend (dayDiff : ℕ) (diff : ℚ) : e.blend a b dayDiff diff = e.blend b a dayDiff diff := by
    rw [blend, blend, htext, if_neg (not_not.mpr hcurrency), if_neg (not_not.mpr hcurrency.symm)]
  have hcomposite : e.compositeScore a b = e.compositeScore b a := by
    apply Option.ext
    intro score
    rw [compositeScore_eq_some_iff, compositeScore_eq_some_iff, hgate, hamounts a b hcurrency,
      hamounts b a hcurrency.symm, transferDays_comm, htolerance]
    simp only [Option.some.injEq, Prod.mk.injEq, hblend]
    refine and_congr_right fun _ => exists_congr fun dayDiff => ?_
    constructor
    · rintro ⟨_, _, hdays, ⟨rfl, rfl⟩, hclose, hscore⟩
      exact ⟨_, _, hdays, ⟨rfl, rfl⟩, hdiff ▸ hclose, hdiff ▸ hscore⟩
    · rintro ⟨_, _, hdays, ⟨rfl, rfl⟩, hclose, hscore⟩
      exact ⟨_, _, hdays, ⟨rfl, rfl⟩, hdiff ▸ hclose, hdiff ▸ hscore⟩
  rw [transferScore_eq, transferScore_eq, hcomposite]

/-! ### Two transactions -/

theorem untied_of_two (e : BulkMatchingEngine) (x y : Tx) : Untied e [x, y] := by
  intro a ha b hb c hc d hd score score' hab hcd hdiff
  simp only [List.mem_cons, List.not_mem_nil, or_false] at ha hb hc hd
  have hne : a ≠ b := by
    rintro rfl
    rw [transferScore_self] at hab
    cases hab
  have hne' : c ≠ d := by
    rintro rfl
    rw [transferScore_self] at hcd
    cases hcd
  rcases ha with rfl | rfl <;> rcases hb with rfl | rfl <;> rcases hc with rfl | rfl <;> rcases hd with rfl | rfl <;>
    first
    | exact absurd rfl hne
    | exact absurd rfl hne'
    | exact absurd (.inl ⟨rfl, rfl⟩) hdiff
    | exact absurd (.inr ⟨rfl, rfl⟩) hdiff

theorem settled_of_two {x y : Tx} {score score' : ℚ} (hxy : e.transferScore x y = some score)
    (hyx : e.transferScore y x = some score') : Settled e [x, y] := by
  have hother (t o : Tx) (ht : t ∈ [x, y]) (ho : o ∈ [x, y]) (hne : o ≠ t) :
      ∀ o' ∈ [x, y], o' ≠ o → o' = t := by
    intro o' ho' hne'
    simp only [List.mem_cons, List.not_mem_nil, or_false] at ht ho ho'
    rcases ht with rfl | rfl <;> rcases ho with rfl | rfl <;> rcases ho' with rfl | rfl <;>
      first
      | rfl
      | exact absurd rfl hne
      | exact absurd rfl hne'
  have hdiff : y ≠ x := ne_of_scoresAs (.inl hxy)
  intro t ht _
  rcases List.mem_cons.mp ht with rfl | hty
  · refine ⟨y, by simp, score, score', hxy, hyx, fun o' ho' hne other hscores => ?_⟩
    exact absurd (hother t y ht (by simp) hdiff o' ho' hne) (ne_of_scoresAs hscores)
  · rw [List.mem_singleton] at hty
    subst hty
    refine ⟨x, by simp, score', score, hyx, hxy, fun o' ho' hne other hscores => ?_⟩
    exact absurd (hother t x ht (by simp) hdiff.symm o' ho' hne) (ne_of_scoresAs hscores)

/-- The euro at 0.94 on one day, and at another rate on the next. -/
def eurosFrom (next : ℚ) : FxRates :=
  Dict.ofList [("2026-03-05", Dict.ofList [("EUR", Binary64.nearest (94 / 100))]),
    ("2026-03-06", Dict.ofList [("EUR", Binary64.nearest next)])]

/-- At one rate on both days, 100 francs and 94 euros are a transfer in either order. -/
theorem order_independent_of_two :
    let e : BulkMatchingEngine := .withRates .binary64 (eurosFrom (94 / 100))
    let transactions :=
      [movement "1" (-100) 10 "2026-03-05", { movement "2" 94 20 "2026-03-06" with currency := "EUR" }]
    transactions.map (fun t => e.counterpart transactions t.id) = [some "2", some "1"] ∧
      ∀ transactions', transactions'.Perm transactions → ∀ t ∈ transactions,
        e.counterpart transactions' t.id = e.counterpart transactions t.id := by
  intro e transactions
  refine ⟨by decide +kernel, ?_⟩
  have hindexable : Indexable transactions := ⟨by decide, by decide, by decide⟩
  refine (order_independent_iff e transactions hindexable (untied_of_two e _ _)).mpr ?_
  have hthere : (e.transferScore transactions[0] transactions[1]).isSome = true := by decide +kernel
  have hback : (e.transferScore transactions[1] transactions[0]).isSome = true := by decide +kernel
  obtain ⟨score, hscore⟩ := Option.isSome_iff_exists.mp hthere
  obtain ⟨score', hscore'⟩ := Option.isSome_iff_exists.mp hback
  exact settled_of_two hscore hscore'

/-- **A transfer in one order, none in the other**: 94 euros are 100 francs at the rate of the first day and 94 at that
of the second one. -/
theorem counterparts_depend_on_order :
    ¬∀ (e : BulkMatchingEngine) (transactions transactions' : List Tx), Indexable transactions →
      Untied e transactions →
      (∀ a ∈ transactions, ∀ b ∈ transactions,
        textSimilarity e.python (buildTxText a) (buildTxText b) =
          textSimilarity e.python (buildTxText b) (buildTxText a)) →
      transactions'.Perm transactions →
      ∀ t ∈ transactions, e.counterpart transactions' t.id = e.counterpart transactions t.id := by
  intro h
  let francs := movement "1" (-100) 10 "2026-03-05"
  let euros := { movement "2" 94 20 "2026-03-06" with currency := "EUR" }
  have hsame := h (.withRates .binary64 (eurosFrom 1)) [francs, euros] [euros, francs] ⟨by decide, by decide, by decide⟩
    (untied_of_two _ _ _) (by decide +kernel) (.swap _ _ _) francs List.mem_cons_self
  exact absurd hsame (by decide +kernel)

end

end Pinnokio.Matching.BulkMatchingEngine
