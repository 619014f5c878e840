import Pinnokio.Lib.RoundedBest
import Pinnokio.Matching.BulkSuggestions

/-!
# Counterparts of transfers

The index of transfers compares every two transactions once and notes the pair on both sides.  A side keeps the
counterpart it has unless the new score is above the rounded one it remembers, whatever becomes of the other side.

* `get?_buildTransferIndex` — an entry is the running best of the pairs of its transaction, with the scores of the
  gates and of the threshold;
* `matching_iff` — **when the index is a matching**: a pair that prevails on one side prevails on the other;
* `best_counterparts_iff` — **when every counterpart is the best one**: a pair with the best score prevails.
-/

namespace Pinnokio.Matching.BulkMatchingEngine

open Pinnokio.Text Pinnokio.Numbers Pinnokio.RoundedBest

variable (e : BulkMatchingEngine)

/-! ### The composite score -/

/-- How far two amounts are apart, as a part of the larger one. -/
def transferDiff (A : Rounding) (compareA compareB : ℚ) : ℚ :=
  A.div |A.sub compareA compareB| (max compareA compareB)

/-- How far the amounts of two transactions may be apart. -/
def transferTolerance (a b : Tx) : ℚ :=
  if normalizeCurrency a.currency ≠ normalizeCurrency b.currency then e.numbers.lit (5 / 100)
  else e.config.transferAmountTolerance

/-- The weighted sum of amount, date and text. -/
def blend (a b : Tx) (dayDiff : ℕ) (diff : ℚ) : ℚ :=
  let A := e.numbers
  let amountScore :=
    if normalizeCurrency a.currency ≠ normalizeCurrency b.currency then A.mul (A.sub 1 diff) (A.lit (90 / 100))
    else A.sub 1 diff
  A.add (A.add (A.mul (A.lit (40 / 100)) amountScore) (A.mul (A.lit (30 / 100)) (transferDateScore A dayDiff)))
    (A.mul (A.lit (30 / 100)) (textSimilarity e.python (buildTxText a) (buildTxText b)))

/-- The composite score of two transactions; `none` if the gate of the sign, the journal, the date or the amount
stops them. -/
def compositeScore (a b : Tx) : Option ℚ :=
  if a.amount = 0 ∨ b.amount = 0 ∨ 0 ≤ e.numbers.mul a.amount b.amount ∨ a.accountId = b.accountId then none
  else
    match e.transferDays a b, e.transferAmounts a b with
    | some dayDiff, some (compareA, compareB) =>
        if e.transferTolerance a b < transferDiff e.numbers compareA compareB then none
        else some (e.blend a b dayDiff (transferDiff e.numbers compareA compareB))
    | _, _ => none

/-- The days between two transactions, by what their dates are read as. -/
theorem transferDays_eq (a b : Tx) :
    e.transferDays a b =
      match parseDate a.date, parseDate b.date with
      | some dateA, some dateB =>
          if e.config.transferDateToleranceDays < ((dateA : ℤ) - dateB).natAbs then none
          else some ((dateA : ℤ) - dateB).natAbs
      | _, _ => some 99 := by
  delta transferDays
  cases parseDate a.date with
  | none => cases parseDate b.date <;> rfl
  | some dateA => cases parseDate b.date <;> rfl

/-- What passes the gates. -/
theorem compositeScore_eq_some_iff {e : BulkMatchingEngine} {a b : Tx} {score : ℚ} :
    e.compositeScore a b = some score ↔
      ¬(a.amount = 0 ∨ b.amount = 0 ∨ 0 ≤ e.numbers.mul a.amount b.amount ∨ a.accountId = b.accountId) ∧
        ∃ dayDiff compareA compareB, e.transferDays a b = some dayDiff ∧
          e.transferAmounts a b = some (compareA, compareB) ∧
          transferDiff e.numbers compareA compareB ≤ e.transferTolerance a b ∧
          e.blend a b dayDiff (transferDiff e.numbers compareA compareB) = score := by
  unfold compositeScore
  split
  · next hgate => exact iff_of_false (Option.some_ne_none score).symm fun h => h.1 hgate
  · next hgate =>
    split
    · next dayDiff compareA compareB hdays hamounts =>
      split
      · next hfar =>
        refine iff_of_false (Option.some_ne_none score).symm ?_
        rintro ⟨-, _, _, _, -, hamounts', hclose, -⟩
        rw [hamounts] at hamounts'
        cases hamounts'
        exact not_le.mpr hfar hclose
      · next hclose =>
        constructor
        · intro h
          exact ⟨hgate, dayDiff, compareA, compareB, hdays, hamounts, not_lt.mp hclose, Option.some.inj h⟩
        · rintro ⟨-, _, _, _, hdays', hamounts', -, rfl⟩
          rw [hdays] at hdays'
          rw [hamounts] at hamounts'
          cases hdays'
          cases hamounts'
          rfl
    · next hnone =>
      refine iff_of_false (Option.some_ne_none score).symm ?_
      rintro ⟨-, dayDiff, compareA, compareB, hdays, hamounts, -, -⟩
      exact hnone dayDiff compareA compareB hdays hamounts

/-- The loop takes the composite score if it reaches the threshold. -/
theorem transferScore_eq (a b : Tx) :
    e.transferScore a b = (e.compositeScore a b).filter fun score => e.numbers.lit (70 / 100) ≤ score := by
  by_cases hgate : a.amount = 0 ∨ b.amount = 0 ∨ 0 ≤ e.numbers.mul a.amount b.amount ∨ a.accountId = b.accountId
  · rw [transferScore, compositeScore, if_pos hgate, if_pos hgate, Option.filter_none]
  · rw [transferScore, compositeScore, if_neg hgate, if_neg hgate]
    cases e.transferDays a b with
    | none => rw [Option.filter_none]
    | some dayDiff =>
        cases e.transferAmounts a b with
        | none => rw [Option.filter_none]
        | some amounts =>
            simp only [decide_eq_true_eq]
            change (if e.transferTolerance a b < transferDiff e.numbers amounts.1 amounts.2 then none
              else if e.blend a b dayDiff (transferDiff e.numbers amounts.1 amounts.2) < e.numbers.lit (70 / 100) then
                none
              else some (e.blend a b dayDiff (transferDiff e.numbers amounts.1 amounts.2))) = _
            split
            · rw [Option.filter_none]
            · split
              · next hlow => rw [Option.filter_some_neg (by simpa using hlow)]
              · next hhigh => rw [Option.filter_some_pos (by simpa using hhigh)]

theorem transferScore_eq_some_iff {e : BulkMatchingEngine} {a b : Tx} {score : ℚ} :
    e.transferScore a b = some score ↔ e.compositeScore a b = some score ∧ e.numbers.lit (70 / 100) ≤ score := by
  rw [transferScore_eq, Option.filter_eq_some_iff, decide_eq_true_eq]

/-! ### What a transaction is offered -/

/-- The offer of a pair to the transaction with an id: the other side and the score. -/
def offerTo (f : Tx → Tx → Option ℚ) (id : String) (sides : Tx × Tx) : Option (Tx × ℚ) :=
  if sides.1.id = id then (f sides.1 sides.2).map fun score => (sides.2, score)
  else if sides.2.id = id then (f sides.1 sides.2).map fun score => (sides.1, score)
  else none

/-- The offers to a transaction, in the order of the loops. -/
def offers (f : Tx → Tx → Option ℚ) (transactions : List Tx) (id : String) : List (Tx × ℚ) :=
  (allSides transactions).filterMap (offerTo f id)

section

variable {e} {f : Tx → Tx → Option ℚ} {transactions : List Tx} {a b t o : Tx} {score score' : ℚ}

theorem mem_allSides_cons {x : Tx} :
    (a, b) ∈ allSides (x :: transactions) ↔ a = x ∧ b ∈ transactions ∨ (a, b) ∈ allSides transactions := by
  rw [allSides, List.mem_append, List.mem_map]
  refine or_congr_left ⟨?_, ?_⟩
  · rintro ⟨y, hy, heq⟩
    cases heq
    exact ⟨rfl, hy⟩
  · rintro ⟨rfl, hb⟩
    exact ⟨b, hb, rfl⟩

theorem mem_of_mem_allSides (h : (a, b) ∈ allSides transactions) : a ∈ transactions ∧ b ∈ transactions := by
  induction transactions with
  | nil => cases h
  | cons x rest ih =>
      rcases mem_allSides_cons.mp h with ⟨rfl, hb⟩ | hrest
      · exact ⟨List.mem_cons_self, List.mem_cons_of_mem a hb⟩
      · exact ⟨List.mem_cons_of_mem x (ih hrest).1, List.mem_cons_of_mem x (ih hrest).2⟩

/-- Two transactions are compared once, in one order. -/
theorem not_mem_allSides (hnodup : transactions.Nodup) (h : (a, b) ∈ allSides transactions) :
    (b, a) ∉ allSides transactions := by
  induction transactions with
  | nil => cases h
  | cons x rest ih =>
      obtain ⟨hx, hrest⟩ := List.nodup_cons.mp hnodup
      intro hswap
      rcases mem_allSides_cons.mp h with ⟨rfl, hb⟩ | hlater
      · rcases mem_allSides_cons.mp hswap with ⟨rfl, -⟩ | hswap'
        · exact hx hb
        · exact hx (mem_of_mem_allSides hswap').2
      · rcases mem_allSides_cons.mp hswap with ⟨rfl, -⟩ | hswap'
        · exact hx (mem_of_mem_allSides hlater).2
        · exact ih hrest hlater hswap'

/-- No transaction is compared with itself. -/
theorem id_ne_of_mem_allSides (hids : (transactions.map Tx.id).Nodup) (h : (a, b) ∈ allSides transactions) :
    a.id ≠ b.id := by
  intro heq
  obtain ⟨ha, hb⟩ := mem_of_mem_allSides h
  have hab : a = b := List.inj_on_of_nodup_map hids ha hb heq
  subst hab
  exact not_mem_allSides hids.of_map h h

theorem mem_offers_iff (hids : (transactions.map Tx.id).Nodup) (ht : t ∈ transactions) :
    (o, score) ∈ offers f transactions t.id ↔
      (t, o) ∈ allSides transactions ∧ f t o = some score ∨
        (o, t) ∈ allSides transactions ∧ f o t = some score := by
  rw [offers, List.mem_filterMap]
  constructor
  · rintro ⟨⟨a, b⟩, hsides, hoffer⟩
    obtain ⟨ha, hb⟩ := mem_of_mem_allSides hsides
    rw [offerTo] at hoffer
    split at hoffer
    · next hid =>
      obtain ⟨score', hscore, heq⟩ := Option.map_eq_some_iff.mp hoffer
      cases heq
      rw [← List.inj_on_of_nodup_map hids ha ht hid]
      exact .inl ⟨hsides, hscore⟩
    · split at hoffer
      · next hid =>
        obtain ⟨score', hscore, heq⟩ := Option.map_eq_some_iff.mp hoffer
        cases heq
        rw [← List.inj_on_of_nodup_map hids hb ht hid]
        exact .inr ⟨hsides, hscore⟩
      · cases hoffer
  · rintro (⟨hsides, hscore⟩ | ⟨hsides, hscore⟩)
    · refine ⟨(t, o), hsides, ?_⟩
      rw [offerTo, if_pos rfl, hscore]
      rfl
    · refine ⟨(o, t), hsides, ?_⟩
      rw [offerTo, if_neg (id_ne_of_mem_allSides hids hsides), if_pos rfl, hscore]
      rfl

theorem mem_of_mem_offers (hids : (transactions.map Tx.id).Nodup) (ht : t ∈ transactions)
    (h : (o, score) ∈ offers f transactions t.id) : o ∈ transactions := by
  rcases (mem_offers_iff hids ht).mp h with ⟨hsides, -⟩ | ⟨hsides, -⟩
  · exact (mem_of_mem_allSides hsides).2
  · exact (mem_of_mem_allSides hsides).1

/-- A pair is offered to both sides. -/
theorem offers_symm (hids : (transactions.map Tx.id).Nodup) (ht : t ∈ transactions)
    (h : (o, score) ∈ offers f transactions t.id) : (t, score) ∈ offers f transactions o.id :=
  (mem_offers_iff hids (mem_of_mem_offers hids ht h)).mpr ((mem_offers_iff hids ht).mp h).symm

/-- A pair is offered with one score. -/
theorem score_unique (hids : (transactions.map Tx.id).Nodup) (ht : t ∈ transactions)
    (h : (o, score) ∈ offers f transactions t.id) (h' : (o, score') ∈ offers f transactions t.id) :
    score = score' := by
  rcases (mem_offers_iff hids ht).mp h with ⟨hsides, hscore⟩ | ⟨hsides, hscore⟩ <;>
    rcases (mem_offers_iff hids ht).mp h' with ⟨hsides', hscore'⟩ | ⟨hsides', hscore'⟩
  · rw [hscore] at hscore'
    exact Option.some.inj hscore'
  · exact absurd hsides' (not_mem_allSides hids.of_map hsides)
  · exact absurd hsides' (not_mem_allSides hids.of_map hsides)
  · rw [hscore] at hscore'
    exact Option.some.inj hscore'

/-- What the threshold leaves of the offers. -/
theorem mem_offers_transferScore (hids : (transactions.map Tx.id).Nodup) (ht : t ∈ transactions) :
    (o, score) ∈ offers e.transferScore transactions t.id ↔
      (o, score) ∈ offers e.compositeScore transactions t.id ∧ e.numbers.lit (70 / 100) ≤ score := by
  rw [mem_offers_iff hids ht, mem_offers_iff hids ht, transferScore_eq_some_iff, transferScore_eq_some_iff,
    ← and_assoc, ← and_assoc, or_and_right]

/-! ### The index -/

/-- The entry of the offer that is kept. -/
def entryOf (A : Rounding) (t : Tx) (kept : Option (Tx × ℚ)) : Option TransferMatch :=
  kept.map fun o => transferEntry A t o.1 o.2

theorem get?_noteTransfer_ne {A : Rounding} (index : Dict String TransferMatch) (other : Tx) (score : ℚ) {id : String}
    (h : id ≠ t.id) : (noteTransfer A index t other score).get? id = index.get? id := by
  rw [noteTransfer]
  split
  · exact Dict.get?_set_ne index _ h
  · split
    · exact Dict.get?_set_ne index _ h
    · rfl

/-- Noting a pair keeps the better of the two offers. -/
theorem get?_noteTransfer {A : Rounding} {index : Dict String TransferMatch} {kept : Option (Tx × ℚ)}
    (h : index.get? t.id = entryOf A t kept) (other : Tx) (score : ℚ) :
    (noteTransfer A index t other score).get? t.id = entryOf A t (keep (A.round 3) kept (other, score)) := by
  rw [noteTransfer, h]
  cases kept with
  | none => exact Dict.get?_set_self index t.id _
  | some best =>
      change Dict.get? (if A.round 3 best.2 < score then _ else _) t.id = entryOf A t (if _ then _ else _)
      split
      · exact Dict.get?_set_self index t.id _
      · exact h

/-- Comparing the sides of a pair keeps, for a transaction, the better of what it has and what the pair offers it. -/
theorem get?_compareSides {index : Dict String TransferMatch} {kept : Option (Tx × ℚ)}
    (hne : a.id ≠ "" ∧ b.id ≠ "") (hdiff : a.id ≠ b.id) (ha : a.id = t.id → a = t) (hb : b.id = t.id → b = t)
    (h : index.get? t.id = entryOf e.numbers t kept) :
    (e.compareSides index (a, b)).get? t.id =
      entryOf e.numbers t (((offerTo e.transferScore t.id (a, b)).toList).foldl (keep (e.numbers.round 3)) kept) := by
  dsimp only [compareSides, offerTo]
  by_cases hat : a.id = t.id
  · rw [if_pos hat]
    cases e.transferScore a b with
    | none => exact h
    | some score =>
        have hbt : t.id ≠ b.id := hat ▸ hdiff
        dsimp only
        rw [if_pos hne, get?_noteTransfer_ne _ a score hbt, ha hat]
        exact get?_noteTransfer h b score
  · rw [if_neg hat]
    by_cases hbt : b.id = t.id
    · rw [if_pos hbt, hb hbt]
      cases e.transferScore a t with
      | none => exact h
      | some score =>
          dsimp only
          rw [if_pos (hb hbt ▸ hne)]
          refine get?_noteTransfer ?_ a score
          rw [get?_noteTransfer_ne index t score (Ne.symm hat)]
          exact h
    · rw [if_neg hbt]
      cases e.transferScore a b with
      | none => exact h
      | some score =>
          dsimp only
          rw [if_pos hne, get?_noteTransfer_ne _ a score (Ne.symm hbt),
            get?_noteTransfer_ne index b score (Ne.symm hat)]
          exact h

/-- What the index needs of its transactions. -/
structure Indexable (transactions : List Tx) : Prop where
  few : transactions.length ≤ 500
  distinct : (transactions.map Tx.id).Nodup
  named : ∀ t ∈ transactions, t.id ≠ ""

/-- The loops keep, for a transaction, the running best of what the pairs so far offer it. -/
theorem get?_foldl_compareSides (h : Indexable transactions) (ht : t ∈ transactions) {pairs : List (Tx × Tx)}
    (hpairs : ∀ p ∈ pairs, p ∈ allSides transactions) :
    (pairs.foldl e.compareSides ∅).get? t.id =
      entryOf e.numbers t (keepAll (e.numbers.round 3) (pairs.filterMap (offerTo e.transferScore t.id))) := by
  induction pairs using List.reverseRecOn with
  | nil => rfl
  | append_singleton pairs p ih =>
      obtain ⟨a, b⟩ := p
      have hp : (a, b) ∈ allSides transactions := hpairs _ (List.mem_append_right pairs List.mem_cons_self)
      obtain ⟨ha, hb⟩ := mem_of_mem_allSides hp
      have hkept := ih fun q hq => hpairs q (List.mem_append_left _ hq)
      have hstep := get?_compareSides (e := e) ⟨h.named a ha, h.named b hb⟩ (id_ne_of_mem_allSides h.distinct hp)
        (List.inj_on_of_nodup_map h.distinct ha ht) (List.inj_on_of_nodup_map h.distinct hb ht) hkept
      rw [List.foldl_append, List.filterMap_append, keepAll, List.foldl_append, List.filterMap_cons]
      cases hoffer : offerTo e.transferScore t.id (a, b) with
      | none =>
          rw [hoffer] at hstep
          exact hstep
      | some o =>
          rw [hoffer] at hstep
          exact hstep

/-- **The index keeps, for every transaction, the running best of its offers.** -/
theorem get?_buildTransferIndex (h : Indexable transactions) (ht : t ∈ transactions) :
    (e.buildTransferIndex transactions).get? t.id =
      entryOf e.numbers t (keepAll (e.numbers.round 3) (offers e.transferScore transactions t.id)) := by
  rw [buildTransferIndex, if_neg (not_lt.mpr h.few)]
  exact get?_foldl_compareSides h ht fun p hp => hp

/-- No entry is made under another id. -/
theorem get?_foldl_compareSides_ne {id : String} {pairs : List (Tx × Tx)}
    (h : ∀ p ∈ pairs, id ≠ p.1.id ∧ id ≠ p.2.id) : (pairs.foldl e.compareSides ∅).get? id = none := by
  induction pairs using List.reverseRecOn with
  | nil => rfl
  | append_singleton pairs p ih =>
      obtain ⟨hne, hne'⟩ := h p (List.mem_append_right pairs List.mem_cons_self)
      have hbefore := ih fun q hq => h q (List.mem_append_left _ hq)
      rw [List.foldl_append]
      dsimp only [List.foldl_cons, List.foldl_nil, compareSides]
      split
      · exact hbefore
      · split
        · rw [get?_noteTransfer_ne _ _ _ hne', get?_noteTransfer_ne _ _ _ hne]
          exact hbefore
        · exact hbefore

/-- Every key of the index is the id of a transaction. -/
theorem mem_of_get?_buildTransferIndex {id : String} {m : TransferMatch}
    (hm : (e.buildTransferIndex transactions).get? id = some m) : ∃ t ∈ transactions, t.id = id := by
  by_contra hnone
  have hother : ∀ t ∈ transactions, id ≠ t.id := fun t ht hid => hnone ⟨t, ht, hid.symm⟩
  have hempty : (e.buildTransferIndex transactions).get? id = none := by
    rw [buildTransferIndex]
    split
    · rfl
    · exact get?_foldl_compareSides_ne fun p hp =>
        ⟨hother _ (mem_of_mem_allSides hp).1, hother _ (mem_of_mem_allSides hp).2⟩
  rw [hempty] at hm
  cases hm

/-- The pair of an entry prevails among the offers, and its score is the one before rounding. -/
theorem get?_eq_some_iff (h : Indexable transactions) (ht : t ∈ transactions) {m : TransferMatch} :
    (e.buildTransferIndex transactions).get? t.id = some m ↔
      ∃ o score, Prevails (e.numbers.round 3) (offers e.transferScore transactions t.id) (o, score) ∧
        m = transferEntry e.numbers t o score := by
  rw [get?_buildTransferIndex h ht, entryOf, Option.map_eq_some_iff]
  constructor
  · rintro ⟨⟨o, score⟩, hkept, rfl⟩
    exact ⟨o, score, (keepAll_eq_some_iff (e.numbers.round_mono 3) (e.numbers.round_round)).mp hkept, rfl⟩
  · rintro ⟨o, score, hprevails, rfl⟩
    exact ⟨(o, score), (keepAll_eq_some_iff (e.numbers.round_mono 3) (e.numbers.round_round)).mpr hprevails, rfl⟩

/-! ### Matchings -/

/-- If the index maps a transaction to a counterpart, it maps the counterpart to the transaction. -/
def IsMatching (index : Dict String TransferMatch) : Prop :=
  ∀ id m, index.get? id = some m → ∃ m', index.get? m.counterpartTxId = some m' ∧ m'.counterpartTxId = id

/-- A pair that is accepted prevails on both of its sides or on none: on a side, its score is above the rounded scores
of the earlier pairs, and no later pair has a score above its rounded one. -/
def MutuallyBest (e : BulkMatchingEngine) (transactions : List Tx) : Prop :=
  ∀ a ∈ transactions, ∀ b score, Prevails (e.numbers.round 3) (offers e.transferScore transactions a.id) (b, score) →
    Prevails (e.numbers.round 3) (offers e.transferScore transactions b.id) (a, score)

/-- **When the index is a matching.** -/
theorem matching_iff (e : BulkMatchingEngine) (transactions : List Tx) (h : Indexable transactions) :
    IsMatching (e.buildTransferIndex transactions) ↔ MutuallyBest e transactions := by
  constructor
  · intro hmatching a ha b score hprevails
    have hoffer := hprevails.mem
    have hb : b ∈ transactions := mem_of_mem_offers h.distinct ha hoffer
    obtain ⟨m, hm, hback⟩ := hmatching a.id _ ((get?_eq_some_iff h ha).mpr ⟨b, score, hprevails, rfl⟩)
    obtain ⟨o, score', hprevails', rfl⟩ := (get?_eq_some_iff h hb).mp hm
    have hoffer' := hprevails'.mem
    have ho : o = a := List.inj_on_of_nodup_map h.distinct (mem_of_mem_offers h.distinct hb hoffer') ha hback
    subst ho
    rw [score_unique h.distinct hb (offers_symm h.distinct ha hoffer) hoffer']
    exact hprevails'
  · intro hmutual id m hm
    obtain ⟨a, ha, rfl⟩ := mem_of_get?_buildTransferIndex hm
    obtain ⟨b, score, hprevails, rfl⟩ := (get?_eq_some_iff h ha).mp hm
    have hb : b ∈ transactions := mem_of_mem_offers h.distinct ha hprevails.mem
    exact ⟨_, (get?_eq_some_iff h hb).mpr ⟨a, score, hmutual a ha b score hprevails, rfl⟩, rfl⟩

/-- Two sides of a transfer find each other. -/
theorem matching_of_two :
    let transactions := [movement "701" (-5000) 10 "2026-03-05", movement "702" 5000 20 "2026-03-05"]
    IsMatching ((withRates .binary64 ∅).buildTransferIndex transactions) := by
  intro transactions
  have hindexable : Indexable transactions := ⟨by decide, by decide, by decide⟩
  refine (matching_iff _ _ hindexable).mpr ?_
  have hfirst : offers (withRates .binary64 ∅).transferScore transactions "701" =
      [(movement "702" 5000 20 "2026-03-05", 1)] := by decide +kernel
  have hsecond : offers (withRates .binary64 ∅).transferScore transactions "702" =
      [(movement "701" (-5000) 10 "2026-03-05", 1)] := by decide +kernel
  intro a ha b score hprevails
  rcases List.mem_cons.mp ha with rfl | ha
  · have hmem := hprevails.mem
    rw [show (movement "701" (-5000) 10 "2026-03-05").id = "701" from rfl, hfirst] at hmem
    cases List.mem_singleton.mp hmem
    rw [show (movement "702" 5000 20 "2026-03-05").id = "702" from rfl, hsecond]
    exact prevails_singleton _
  · rw [List.mem_singleton] at ha
    subst ha
    have hmem := hprevails.mem
    rw [show (movement "702" 5000 20 "2026-03-05").id = "702" from rfl, hsecond] at hmem
    cases List.mem_singleton.mp hmem
    rw [show (movement "701" (-5000) 10 "2026-03-05").id = "701" from rfl, hfirst]
    exact prevails_singleton _

/-- **Two outflows claim the same inflow**: the second one is attributed to it, while the inflow keeps the first. -/
theorem counterpart_claimed_twice :
    let transactions := [movement "1" (-100) 10 "2026-03-05", movement "2" 100 20 "2026-03-05",
      movement "3" (-99) 30 "2026-03-05"]
    Indexable transactions ∧ ¬IsMatching ((withRates .binary64 ∅).buildTransferIndex transactions) := by
  intro transactions
  refine ⟨⟨by decide, by decide, by decide⟩, fun hmatching => ?_⟩
  have hthird : ((((withRates .binary64 ∅).buildTransferIndex transactions).get? "3").map
      TransferMatch.counterpartTxId) = some "2" := by decide +kernel
  have hsecond : ((((withRates .binary64 ∅).buildTransferIndex transactions).get? "2").map
      TransferMatch.counterpartTxId) = some "1" := by decide +kernel
  obtain ⟨m, hm, hid⟩ := Option.map_eq_some_iff.mp hthird
  obtain ⟨m', hm', hback⟩ := hmatching "3" m hm
  rw [hid] at hm'
  rw [hm', Option.map_some, hback] at hsecond
  exact absurd hsecond (by decide)

/-! ### The best counterpart -/

/-- The counterpart of an entry has a composite score not smaller than that of any other transaction that passes the
gates. -/
def BestCounterparts (e : BulkMatchingEngine) (transactions : List Tx) (index : Dict String TransferMatch) : Prop :=
  ∀ t ∈ transactions, ∀ m, index.get? t.id = some m →
    ∃ best ∈ offers e.compositeScore transactions t.id, best.1.id = m.counterpartTxId ∧
      ∀ o ∈ offers e.compositeScore transactions t.id, o.2 ≤ best.2

/-- Rounding hides no best pair: of the pairs accepted for a transaction, one with the highest score has a score above
the rounded scores of the earlier ones, and no later one has a score above its rounded score. -/
def BestPrevails (e : BulkMatchingEngine) (transactions : List Tx) : Prop :=
  ∀ t ∈ transactions, offers e.transferScore transactions t.id ≠ [] →
    ∃ best, Prevails (e.numbers.round 3) (offers e.transferScore transactions t.id) best ∧
      ∀ o ∈ offers e.transferScore transactions t.id, o.2 ≤ best.2

/-- **When every counterpart is the best one.** -/
theorem best_counterparts_iff (e : BulkMatchingEngine) (transactions : List Tx) (h : Indexable transactions) :
    BestCounterparts e transactions (e.buildTransferIndex transactions) ↔ BestPrevails e transactions := by
  refine forall₂_congr fun t ht => ?_
  rw [← keepAll_best_iff (e.numbers.round_mono 3) (e.numbers.round_round)]
  constructor
  · rintro hbest ⟨b, score⟩ hkept ⟨o, score'⟩ ho
    have hprevails := (keepAll_eq_some_iff (e.numbers.round_mono 3) (e.numbers.round_round)).mp hkept
    obtain ⟨⟨b', best⟩, hb', hid, hhighest⟩ := hbest _ ((get?_eq_some_iff h ht).mpr ⟨b, score, hprevails, rfl⟩)
    have hb := ((mem_offers_transferScore h.distinct ht).mp hprevails.mem).1
    have heq : b' = b := List.inj_on_of_nodup_map h.distinct (mem_of_mem_offers h.distinct ht hb')
      (mem_of_mem_offers h.distinct ht hb) hid
    subst heq
    rw [score_unique h.distinct ht hb hb']
    exact hhighest (o, score') ((mem_offers_transferScore h.distinct ht).mp ho).1
  · rintro hbest m hm
    obtain ⟨b, score, hprevails, rfl⟩ := (get?_eq_some_iff h ht).mp hm
    have hkept := (keepAll_eq_some_iff (e.numbers.round_mono 3) (e.numbers.round_round)).mpr hprevails
    obtain ⟨hb, hthreshold⟩ := (mem_offers_transferScore h.distinct ht).mp hprevails.mem
    refine ⟨(b, score), hb, rfl, ?_⟩
    rintro ⟨o, score'⟩ ho
    -- A pair below the threshold is not better than one above it.
    rcases le_total (e.numbers.lit (70 / 100)) score' with hhigh | hlow
    · exact hbest (b, score) hkept (o, score') ((mem_offers_transferScore h.distinct ht).mpr ⟨ho, hhigh⟩)
    · exact le_trans hlow hthreshold

/-- Two inflows are offered to an outflow, and the nearer one is its counterpart. -/
theorem best_counterpart_of_two :
    let transactions := [movement "1" (-100) 10 "2026-03-05", movement "2" 100 20 "2026-03-05",
      movement "3" 99 30 "2026-03-05"]
    (offers (withRates .exact ∅).transferScore transactions "1").map (fun o => o.1.id) = ["2", "3"] ∧
      BestCounterparts (withRates .exact ∅) transactions ((withRates .exact ∅).buildTransferIndex transactions) := by
  intro transactions
  have hindexable : Indexable transactions := ⟨by decide, by decide, by decide⟩
  refine ⟨by decide +kernel, (best_counterparts_iff _ _ hindexable).mpr ?_⟩
  have hfirst : offers (withRates .exact ∅).transferScore transactions "1" =
      [(movement "2" 100 20 "2026-03-05", 1), (movement "3" 99 30 "2026-03-05", 996 / 1000)] := by decide +kernel
  have hother : ∀ t ∈ transactions.tail, ∃ o, offers (withRates .exact ∅).transferScore transactions t.id = [o] := by
    intro t ht
    rcases List.mem_cons.mp ht with rfl | ht
    · exact ⟨(movement "1" (-100) 10 "2026-03-05", 1), by decide +kernel⟩
    · rw [List.mem_singleton.mp ht]
      exact ⟨(movement "1" (-100) 10 "2026-03-05", 996 / 1000), by decide +kernel⟩
  intro t ht _
  rcases List.mem_cons.mp ht with rfl | ht
  · rw [show (movement "1" (-100) 10 "2026-03-05").id = "1" from rfl, hfirst]
    refine ⟨(movement "2" 100 20 "2026-03-05", 1), ⟨[], _, rfl, fun x hx => absurd hx List.not_mem_nil, ?_⟩, ?_⟩
    · intro x hx
      rw [List.mem_singleton.mp hx]
      decide +kernel
    · intro x hx
      rcases List.mem_cons.mp hx with rfl | hx
      · exact le_rfl
      · rw [List.mem_singleton.mp hx]
        decide +kernel
  · obtain ⟨o, ho⟩ := hother t ht
    rw [ho]
    refine ⟨o, prevails_singleton o, fun x hx => ?_⟩
    rw [List.mem_singleton.mp hx]

/-- **The better counterpart is replaced**: 0.9994 is remembered as 0.999, and 0.9992 is above that. -/
theorem better_counterpart_replaced :
    let transactions := [movement "1" (-100) 10 "2026-03-05", movement "2" (9985 / 100) 20 "2026-03-05",
      movement "3" (998 / 10) 30 "2026-03-05"]
    Indexable transactions ∧ ¬BestCounterparts (withRates .exact ∅) transactions
      ((withRates .exact ∅).buildTransferIndex transactions) := by
  intro transactions
  refine ⟨⟨by decide, by decide, by decide⟩, fun hbest => ?_⟩
  have hoffers : offers (withRates .exact ∅).compositeScore transactions "1" =
      [(movement "2" (9985 / 100) 20 "2026-03-05", 9994 / 10000),
        (movement "3" (998 / 10) 30 "2026-03-05", 9992 / 10000)] := by decide +kernel
  have hentry : ((((withRates .exact ∅).buildTransferIndex transactions).get? "1").map
      TransferMatch.counterpartTxId) = some "3" := by decide +kernel
  obtain ⟨m, hm, hid⟩ := Option.map_eq_some_iff.mp hentry
  obtain ⟨best, hmem, hcounterpart, hhighest⟩ := hbest _ List.mem_cons_self m hm
  rw [show (movement "1" (-100) 10 "2026-03-05").id = "1" from rfl, hoffers] at hmem hhighest
  rw [hid] at hcounterpart
  have hworse := hhighest _ List.mem_cons_self
  rcases List.mem_cons.mp hmem with rfl | hmem
  · exact absurd hcounterpart (by decide)
  · rw [List.mem_singleton.mp hmem] at hworse
    exact absurd hworse (by decide +kernel)

end

end Pinnokio.Matching.BulkMatchingEngine
