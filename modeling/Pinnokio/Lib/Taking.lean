import Pinnokio.Lib.Interleaving

/-!
# Items that calls take away

Items lie in a shared place.  A call that is to take one first looks whether it is there, then does its work with what
it found, and only at the end takes the item away; it may also give up on the way.  Two calls can be at work on one
item, since finding it does not reserve it.

* `there_iff` — in every interleaving, the items that are there are those of the start that no call has taken: none
  comes back, and none is lost;
* `was_there` — what a call has was there at the start;
* `once_iff` — at most one call has an item, at every point of an interleaving, exactly when no call finds an item that
  another one is at work on.
-/

namespace Pinnokio.Taking

open Interleaving

variable {S L I : Type*}

/-- What a call has: no item, one it has found and works on, or one it has taken away. -/
inductive Hold (I : Type*)
  | nothing
  | holding (i : I)
  | taken (i : I)
  deriving DecidableEq

/-- What one step does to the items that are there and to what the call has. -/
inductive Moves (here here' : I → Prop) : Hold I → Hold I → Prop
  | stays {h : Hold I} (hsame : ∀ i, here' i ↔ here i) : Moves here here' h h
  | finds {i : I} (hi : here i) (hsame : ∀ i, here' i ↔ here i) : Moves here here' .nothing (.holding i)
  | drops {i : I} (hsame : ∀ i, here' i ↔ here i) : Moves here here' (.holding i) .nothing
  | takes {i : I} (hgone : ∀ j, here' j ↔ here j ∧ j ≠ i) : Moves here here' (.holding i) (.taken i)

/-- No step brings an item. -/
theorem Moves.back {here here' : I → Prop} {h h' : Hold I} (hm : Moves here here' h h') {i : I} (hi : here' i) :
    here i := by
  cases hm with
  | stays hsame => exact (hsame i).mp hi
  | finds _ hsame => exact (hsame i).mp hi
  | drops hsame => exact (hsame i).mp hi
  | takes hgone => exact ((hgone i).mp hi).1

/-- A call that has taken an item had taken it before, or the item has just gone. -/
theorem Moves.gone {here here' : I → Prop} {h h' : Hold I} (hm : Moves here here' h h') {i : I} (ht : h' = .taken i) :
    h = .taken i ∨ ¬here' i := by
  cases hm with
  | stays _ => exact Or.inl ht
  | finds _ _ => cases ht
  | drops _ => cases ht
  | takes hgone =>
      cases ht
      exact Or.inr fun hi => ((hgone i).mp hi).2 rfl

/-- Every step of the calls is one of these. -/
def Sound (next : S → L → Option (S × L)) (here : S → I → Prop) (hold : L → Hold I) : Prop :=
  ∀ s l s' l', next s l = some (s', l') → Moves (here s) (here s') (hold l) (hold l')

variable {next : S → L → Option (S × L)} {here : S → I → Prop} {hold : L → Hold I}

/-- The calls that have not begun. -/
def Fresh (hold : L → Hold I) (p : Pool S L) : Prop := ∀ l ∈ p.threads, hold l = .nothing

/-- **No item comes back and none is lost.** -/
theorem there_iff (hsound : Sound next here hold) {p : Pool S L} (hfresh : Fresh hold p) {sched : List ℕ}
    {q : Pool S L} (hq : exec next p sched = some q) (i : I) :
    here q.shared i ↔ here p.shared i ∧ ∀ l ∈ q.threads, hold l ≠ .taken i := by
  refine exec_induction (fun q => here q.shared i ↔ here p.shared i ∧ ∀ l ∈ q.threads, hold l ≠ .taken i)
    (fun r k r' hr hstep => ?_) sched p q ?_ hq
  · obtain ⟨l, s', l', hl, hn, rfl⟩ := stepAt_eq_some hstep
    have hmem : l ∈ r.threads := List.mem_of_getElem? hl
    -- the calls that have taken the item, after one of them has moved
    have htaken : (∀ m ∈ r.threads.set k l', hold m ≠ .taken i) ↔
        hold l' ≠ .taken i ∧ ∀ j m, j ≠ k → r.threads[j]? = some m → hold m ≠ .taken i := by
      constructor
      · refine fun h => ⟨h l' ?_, fun j m hj hm => h m ?_⟩
        · exact List.mem_of_getElem? (i := k) (by rw [getElem?_set_of_some hl, if_pos rfl])
        · exact List.mem_of_getElem? (i := j) (by rw [getElem?_set_of_some hl, if_neg hj, hm])
      · rintro ⟨hl', hrest⟩ m hm
        rcases mem_set_cases hm with rfl | ⟨j, hj, hm⟩
        · exact hl'
        · exact hrest j m hj hm
    have hbefore : (∀ m ∈ r.threads, hold m ≠ .taken i) ↔
        hold l ≠ .taken i ∧ ∀ j m, j ≠ k → r.threads[j]? = some m → hold m ≠ .taken i := by
      constructor
      · exact fun h => ⟨h l hmem, fun j m _ hm => h m (List.mem_of_getElem? hm)⟩
      · rintro ⟨hl0, hrest⟩ m hm
        obtain ⟨j, hj⟩ := List.getElem?_of_mem hm
        by_cases hjk : j = k
        · rw [hjk, hl] at hj
          exact Option.some_inj.mp hj ▸ hl0
        · exact hrest j m hjk hj
    have hr : here r.shared i ↔ here p.shared i ∧ ∀ m ∈ r.threads, hold m ≠ .taken i := hr
    show here s' i ↔ here p.shared i ∧ ∀ m ∈ r.threads.set k l', hold m ≠ .taken i
    rw [hbefore] at hr
    rw [htaken]
    have hmoves := hsound _ _ _ _ hn
    generalize hold l = h at hmoves hr
    generalize hold l' = h' at hmoves
    cases hmoves with
    | stays hsame => rw [hsame, hr]
    | finds hi hsame =>
        rw [hsame, hr]
        exact and_congr_right fun _ => and_congr_left fun _ => iff_of_true nofun nofun
    | drops hsame =>
        rw [hsame, hr]
        exact and_congr_right fun _ => and_congr_left fun _ => iff_of_true nofun nofun
    | @takes j hgone =>
        rw [hgone, hr]
        constructor
        · rintro ⟨⟨hp, -, hrest⟩, hij⟩
          exact ⟨hp, fun he => hij (Hold.taken.inj he).symm, hrest⟩
        · rintro ⟨hp, hij, hrest⟩
          exact ⟨⟨hp, nofun, hrest⟩, fun he => hij (he ▸ rfl)⟩
  · refine ⟨fun h => ⟨h, fun l hl => ?_⟩, fun h => h.1⟩
    rw [hfresh l hl]
    exact nofun

/-- Who has an item found it, so it was there at the start. -/
theorem was_there (hsound : Sound next here hold) {p : Pool S L} (hfresh : Fresh hold p) {sched : List ℕ}
    {q : Pool S L} (hq : exec next p sched = some q) {l : L} (hl : l ∈ q.threads) {i : I}
    (hi : hold l = .holding i ∨ hold l = .taken i) : here p.shared i := by
  refine (exec_induction (fun q => (∀ i, here q.shared i → here p.shared i) ∧
      ∀ l ∈ q.threads, ∀ i, hold l = .holding i ∨ hold l = .taken i → here p.shared i)
    (fun r k r' hr hstep => ?_) sched p q ⟨fun _ h => h, fun l hl i hi => ?_⟩ hq).2 l hl i hi
  · obtain ⟨m, s', m', hm, hn, rfl⟩ := stepAt_eq_some hstep
    have hmoves := hsound _ _ _ _ hn
    refine ⟨fun i hi => hr.1 i (hmoves.back hi), fun x hx i hi => ?_⟩
    rcases mem_set_cases hx with rfl | ⟨j, -, hx⟩
    · have hbefore := hr.2 m (List.mem_of_getElem? hm) i
      generalize hold m = h at hmoves hbefore
      generalize hold x = h' at hmoves hi
      cases hmoves with
      | stays _ => exact hbefore hi
      | finds hthere _ =>
          rcases hi with hi | hi
          · cases hi
            exact hr.1 i hthere
          · cases hi
      | drops _ => rcases hi with hi | hi <;> cases hi
      | takes _ =>
          rcases hi with hi | hi
          · cases hi
          · cases hi
            exact hbefore (Or.inl rfl)
    · exact hr.2 x (List.mem_of_getElem? hx) i hi
  · rw [hfresh l hl] at hi
    rcases hi with hi | hi <;> cases hi

section Once

variable [DecidableEq I]

/-- A call has an item: it works on it, or it has taken it. -/
def has (hold : L → Hold I) (i : I) (l : L) : Bool := hold l = .holding i ∨ hold l = .taken i

/-- A call that finds an item finds nobody at work on it. -/
def Undisputed (next : S → L → Option (S × L)) (hold : L → Hold I) (p : Pool S L) (k : ℕ) : Prop :=
  ∀ l s' l' i, p.threads[k]? = some l → next p.shared l = some (s', l') → hold l = .nothing → hold l' = .holding i →
    ∀ m ∈ p.threads, hold m ≠ .holding i

/-- What is there has not been taken, and at most one call has each item. -/
def Apart (here : S → I → Prop) (hold : L → Hold I) (p : Pool S L) : Prop :=
  (∀ i, here p.shared i → ∀ l ∈ p.threads, hold l ≠ .taken i) ∧ ∀ i, p.threads.countP (has hold i) ≤ 1

theorem has_nothing {l : L} (h : hold l = .nothing) (i : I) : has hold i l = false := by
  rw [has, h]
  exact decide_eq_false (by rintro (h | h) <;> cases h)

theorem has_holding {l : L} {j : I} (h : hold l = .holding j) (i : I) : has hold i l = decide (j = i) := by
  rw [has, h]
  refine decide_eq_decide.mpr ⟨?_, fun he => Or.inl (he ▸ rfl)⟩
  rintro (h | h)
  · exact Hold.holding.inj h
  · cases h

theorem has_taken {l : L} {j : I} (h : hold l = .taken j) (i : I) : has hold i l = decide (j = i) := by
  rw [has, h]
  refine decide_eq_decide.mpr ⟨?_, fun he => Or.inr (he ▸ rfl)⟩
  rintro (h | h)
  · cases h
  · exact Hold.taken.inj h

omit [DecidableEq I] in
/-- What is there has not been taken: every step keeps it. -/
theorem taken_gone_step (hsound : Sound next here hold) {p q : Pool S L} {k : ℕ}
    (h : ∀ i, here p.shared i → ∀ l ∈ p.threads, hold l ≠ .taken i) (hstep : p.stepAt next k = some q) (i : I) :
    here q.shared i → ∀ l ∈ q.threads, hold l ≠ .taken i := by
  obtain ⟨l, s', l', hl, hn, rfl⟩ := stepAt_eq_some hstep
  have hmoves := hsound _ _ _ _ hn
  intro hi m hm
  have hi : here s' i := hi
  rcases mem_set_cases hm with rfl | ⟨j, -, hm⟩
  · intro ht
    rcases hmoves.gone ht with hl0 | hgone
    · exact h i (hmoves.back hi) l (List.mem_of_getElem? hl) hl0
    · exact hgone hi
  · exact h i (hmoves.back hi) m (List.mem_of_getElem? hm)

/-- One step keeps the calls apart exactly when it is undisputed. -/
theorem apart_step_iff (hsound : Sound next here hold) {p q : Pool S L} {k : ℕ} (h : Apart here hold p)
    (hstep : p.stepAt next k = some q) : Apart here hold q ↔ Undisputed next hold p k := by
  have hgone := taken_gone_step hsound h.1 hstep
  obtain ⟨l, s', l', hl, hn, rfl⟩ := stepAt_eq_some hstep
  have hmem : l ∈ p.threads := List.mem_of_getElem? hl
  have hcount : ∀ i, (p.threads.set k l').countP (has hold i) + (has hold i l).toNat =
      p.threads.countP (has hold i) + (has hold i l').toNat := fun i => countP_set_add (has hold i) l' hl
  have hmoves := hsound _ _ _ _ hn
  have hundisputed : Undisputed next hold p k ↔ (hold l = .nothing → ∀ i, hold l' = .holding i →
      ∀ m ∈ p.threads, hold m ≠ .holding i) := by
    constructor
    · exact fun hu hl0 i hi => hu l s' l' i hl hn hl0 hi
    · intro hu m t m' i hm hmn hm0 hmi
      rw [hl, Option.some_inj] at hm
      subst hm
      rw [hn, Option.some_inj, Prod.mk.injEq] at hmn
      obtain ⟨rfl, rfl⟩ := hmn
      exact hu hm0 i hmi
  have hapart : Apart here hold ⟨s', p.threads.set k l'⟩ ↔ ∀ i, (p.threads.set k l').countP (has hold i) ≤ 1 :=
    ⟨fun h => h.2, fun h => ⟨hgone, h⟩⟩
  rw [hundisputed, hapart]
  -- a step that finds nothing
  have hkeeps : (∀ i, (has hold i l').toNat ≤ (has hold i l).toNat) →
      ∀ i, (p.threads.set k l').countP (has hold i) ≤ 1 := by
    intro hle i
    have := hcount i
    have := hle i
    have := h.2 i
    omega
  cases hmove : hold l with
  | nothing =>
      cases hmove' : hold l' with
      | nothing =>
          refine iff_of_true (hkeeps fun i => Nat.le_of_eq (congrArg Bool.toNat ?_)) fun _ _ hi => nomatch hi
          rw [has_nothing hmove, has_nothing hmove']
      | taken j =>
          rw [hmove, hmove'] at hmoves
          cases hmoves
      | holding j =>
          rw [hmove, hmove'] at hmoves
          have hthere : here p.shared j := by
            cases hmoves with
            | finds hi _ => exact hi
          have hzero : (∀ i, (p.threads.set k l').countP (has hold i) ≤ 1) ↔ p.threads.countP (has hold j) = 0 := by
            constructor
            · intro hle
              have hj := hle j
              have hc := hcount j
              rw [has_nothing hmove, has_holding hmove', decide_eq_true rfl, Bool.toNat_true, Bool.toNat_false] at hc
              omega
            · intro hz i
              have hc := hcount i
              rw [has_nothing hmove, has_holding hmove', Bool.toNat_false] at hc
              by_cases hij : j = i
              · subst hij
                rw [decide_eq_true rfl, Bool.toNat_true] at hc
                omega
              · rw [decide_eq_false hij, Bool.toNat_false] at hc
                have := h.2 i
                omega
          rw [hzero, List.countP_eq_zero]
          constructor
          · intro hz _ i hi m hm hmi
            cases hi
            exact hz m hm (by rw [has_holding hmi, decide_eq_true rfl])
          · intro hu m hm hhas
            rcases of_decide_eq_true hhas with hm' | hm'
            · exact hu rfl j rfl m hm hm'
            · exact h.1 j hthere m hm hm'
  | holding j =>
      refine iff_of_true (hkeeps fun i => ?_) fun hl0 => nomatch hl0
      rw [hmove] at hmoves
      rw [has_holding hmove]
      cases hmove' : hold l' with
      | nothing =>
          rw [has_nothing hmove']
          exact Nat.zero_le _
      | holding j' =>
          rw [hmove'] at hmoves
          cases hmoves
          exact Nat.le_of_eq (congrArg Bool.toNat (has_holding hmove' i))
      | taken j' =>
          rw [hmove'] at hmoves
          cases hmoves
          exact Nat.le_of_eq (congrArg Bool.toNat (has_taken hmove' i))
  | taken j =>
      refine iff_of_true (hkeeps fun i => ?_) fun hl0 => nomatch hl0
      rw [hmove] at hmoves
      rw [has_taken hmove]
      cases hmove' : hold l' with
      | nothing =>
          rw [has_nothing hmove']
          exact Nat.zero_le _
      | holding j' =>
          rw [hmove'] at hmoves
          cases hmoves
      | taken j' =>
          rw [hmove'] at hmoves
          cases hmoves
          exact Nat.le_of_eq (congrArg Bool.toNat (has_taken hmove' i))

theorem apart_fresh {p : Pool S L} (hfresh : Fresh hold p) : Apart here hold p := by
  constructor
  · intro i _ l hl
    rw [hfresh l hl]
    exact nofun
  · intro i
    rw [List.countP_eq_zero.mpr fun l hl => by rw [has_nothing (hfresh l hl)]; exact Bool.false_ne_true]
    exact Nat.zero_le 1

/-- **At most one call has an item, exactly when no call finds one that another is at work on.** -/
theorem once_iff (hsound : Sound next here hold) {p : Pool S L} (hfresh : Fresh hold p) (sched : List ℕ) :
    (∀ pre q, pre <+: sched → exec next p pre = some q → ∀ i, q.threads.countP (has hold i) ≤ 1) ↔
      Guarded next (Undisputed next hold) p sched := by
  have hrule : (∀ pre q, pre <+: sched → exec next p pre = some q → Apart here hold q) ↔
      Apart here hold p ∧ Guarded next (Undisputed next hold) p sched := by
    refine forall_prefix_iff_guarded _ (fun q k hq l s' l' i hl hn => ?_)
      (fun q k r hq hstep => apart_step_iff hsound hq hstep) sched p
    rw [Pool.stepAt, hl] at hq
    have hq : (next q.shared l).map _ = none := hq
    rw [hn] at hq
    cases hq
  constructor
  · intro h
    refine (hrule.mp fun pre q hpre hq => ⟨fun i hi => ?_, h pre q hpre hq⟩).2
    exact ((there_iff hsound hfresh hq i).mp hi).2
  · intro hg pre q hpre hq
    exact (hrule.mpr ⟨apart_fresh hfresh, hg⟩ pre q hpre hq).2

end Once

end Pinnokio.Taking
