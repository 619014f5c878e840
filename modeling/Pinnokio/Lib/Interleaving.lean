import Mathlib.Algebra.BigOperators.Group.List.Basic
import Mathlib.Tactic.Common

/-!
# Interleaved execution of finitely many sequential calls

A pool is a shared state and a list of calls in progress, each with its own local state.  One step picks a
call by its index and lets it do its next atomic action; `next` is that action, `none` once the call has
returned.  A run is a schedule, that is a list of indices; the number of calls and the schedule are
arbitrary, so a statement about every schedule is a statement about every interleaving.

* `stepAt_eq_some` — the inversion rule every invariant proof starts from;
* `exec_invariant` — **the invariant rule**: what holds at the start and is kept by every step that meets
  `guard` holds after every schedule whose steps all meet it;
* `exec_induction` — the same without a guard;
* `guarded_of_exec` — its converse: a run that does not end in a trap has met `guard` at every step, if missing
  it once leads into the trap;
* `forall_prefix_iff_guarded` — the exact invariant rule: a property that a step keeps exactly when it meets the guard
  holds in every state of a run exactly when every step meets the guard;
* `sum_map_set`, `countP_set_add` — how a sum over the calls and the number of calls with a property change when one
  of them moves;
* `exists_split_of_countP_eq_one` — the calls before and after the only one with a property.
-/

namespace Pinnokio.Interleaving

variable {S L : Type*}

/-- A shared state together with the local states of the calls in progress. -/
structure Pool (S L : Type*) where
  shared : S
  threads : List L

/-- One atomic step of the call with index `i`. -/
def Pool.stepAt (next : S → L → Option (S × L)) (p : Pool S L) (i : ℕ) : Option (Pool S L) :=
  match p.threads[i]? with
  | none => none
  | some l => (next p.shared l).map fun r => ⟨r.1, p.threads.set i r.2⟩

/-- Run a schedule; `none` when it asks a call that has returned for another step. -/
def exec (next : S → L → Option (S × L)) : Pool S L → List ℕ → Option (Pool S L)
  | p, [] => some p
  | p, i :: is =>
      match p.stepAt next i with
      | none => none
      | some q => exec next q is

/-- Run one call alone, for at most `n` steps. -/
def solo (next : S → L → Option (S × L)) : ℕ → S → L → S × L
  | 0, s, l => (s, l)
  | n + 1, s, l =>
      match next s l with
      | none => (s, l)
      | some r => solo next n r.1 r.2

/-- The call, running alone from here, comes to `q`. -/
def Alone (next : S → L → Option (S × L)) (s : S) (l : L) (q : S × L) : Prop := ∃ n, solo next n s l = q

/-- Every step of the schedule meets `guard` in the state it is taken in. -/
def Guarded (next : S → L → Option (S × L)) (guard : Pool S L → ℕ → Prop) :
    Pool S L → List ℕ → Prop
  | _, [] => True
  | p, i :: is =>
      guard p i ∧
        match p.stepAt next i with
        | none => True
        | some q => Guarded next guard q is

instance Guarded.decidable (next : S → L → Option (S × L)) (guard : Pool S L → ℕ → Prop)
    [∀ p i, Decidable (guard p i)] : ∀ p is, Decidable (Guarded next guard p is)
  | _, [] => isTrue trivial
  | p, i :: is =>
      have : Decidable (match p.stepAt next i with
          | none => True
          | some q => Guarded next guard q is) :=
        match p.stepAt next i with
        | none => isTrue trivial
        | some q => Guarded.decidable next guard q is
      inferInstanceAs (Decidable (_ ∧ _))

variable {next : S → L → Option (S × L)} {guard : Pool S L → ℕ → Prop}

theorem Alone.refl (s : S) (l : L) : Alone next s l (s, l) := ⟨0, rfl⟩

theorem Alone.step {s s' : S} {l l' : L} {q : S × L} (h : next s l = some (s', l'))
    (hq : Alone next s' l' q) : Alone next s l q := by
  obtain ⟨n, hn⟩ := hq
  refine ⟨n + 1, ?_⟩
  simp only [solo, h]
  exact hn

/-- What one step does: call `i` moves by `next`, every other call keeps its local state. -/
theorem stepAt_eq_some {p q : Pool S L} {i : ℕ} (h : p.stepAt next i = some q) :
    ∃ l s' l', p.threads[i]? = some l ∧ next p.shared l = some (s', l') ∧
      q = ⟨s', p.threads.set i l'⟩ := by
  unfold Pool.stepAt at h
  split at h
  · cases h
  · rename_i l hl
    obtain ⟨⟨s', l'⟩, hr, rfl⟩ := Option.map_eq_some_iff.mp h
    exact ⟨l, s', l', hl, hr, rfl⟩

/-- **The invariant rule.** -/
theorem exec_invariant (Inv : Pool S L → Prop)
    (hstep : ∀ p i q, Inv p → guard p i → p.stepAt next i = some q → Inv q) :
    ∀ (sched : List ℕ) (p q : Pool S L), Inv p → Guarded next guard p sched →
      exec next p sched = some q → Inv q := by
  intro sched
  induction sched with
  | nil =>
      intro p q hp _ hq
      cases hq
      exact hp
  | cons i is ih =>
      intro p q hp hg hq
      unfold exec at hq
      unfold Guarded at hg
      cases hs : p.stepAt next i with
      | none => rw [hs] at hq; cases hq
      | some r =>
          rw [hs] at hq hg
          exact ih r q (hstep p i r hp hg.1 hs) hg.2 hq

/-- What every step keeps, a run keeps. -/
theorem exec_induction (Inv : Pool S L → Prop) (hstep : ∀ p i q, Inv p → p.stepAt next i = some q → Inv q) :
    ∀ (sched : List ℕ) (p q : Pool S L), Inv p → exec next p sched = some q → Inv q := by
  intro sched
  induction sched with
  | nil =>
      intro p q hp hq
      cases hq
      exact hp
  | cons i is ih =>
      intro p q hp hq
      unfold exec at hq
      cases hs : p.stepAt next i with
      | none => rw [hs] at hq; cases hq
      | some r =>
          rw [hs] at hq
          exact ih r q (hstep p i r hp hs) hq

/-- A run that ends outside `Bad` has met the guard throughout, when a step that misses the guard leads into
`Bad` and no step leads out of it. -/
theorem guarded_of_exec (Inv Bad : Pool S L → Prop)
    (hstep : ∀ p i q, Inv p → p.stepAt next i = some q → Inv q)
    (hmiss : ∀ p i q, Inv p → ¬guard p i → p.stepAt next i = some q → Bad q)
    (htrap : ∀ p i q, Bad p → p.stepAt next i = some q → Bad q) :
    ∀ (sched : List ℕ) (p q : Pool S L), Inv p → exec next p sched = some q → ¬Bad q →
      Guarded next guard p sched := by
  intro sched
  induction sched with
  | nil => exact fun _ _ _ _ _ => trivial
  | cons i is ih =>
      intro p q hp hq hgood
      unfold exec at hq
      unfold Guarded
      cases hs : p.stepAt next i with
      | none => rw [hs] at hq; cases hq
      | some r =>
          rw [hs] at hq
          refine ⟨?_, ih r q (hstep p i r hp hs) hq hgood⟩
          by_contra hg
          exact hgood (exec_induction Bad htrap is r q (hmiss p i r hp hg hs) hq)

/-- **The exact invariant rule.** -/
theorem forall_prefix_iff_guarded (good : Pool S L → Prop)
    (hnone : ∀ p i, p.stepAt next i = none → guard p i)
    (hstep : ∀ p i q, good p → p.stepAt next i = some q → (good q ↔ guard p i)) :
    ∀ (sched : List ℕ) (p : Pool S L),
      (∀ pre q, pre <+: sched → exec next p pre = some q → good q) ↔ good p ∧ Guarded next guard p sched := by
  intro sched
  induction sched with
  | nil =>
      intro p
      constructor
      · exact fun h => ⟨h [] p (List.prefix_refl _) rfl, trivial⟩
      · intro h pre q hpre hq
        rw [List.prefix_nil.mp hpre] at hq
        cases hq
        exact h.1
  | cons i is ih =>
      intro p
      unfold Guarded
      cases hs : p.stepAt next i with
      | none =>
          constructor
          · exact fun h => ⟨h [] p (List.nil_prefix) rfl, hnone p i hs, trivial⟩
          · intro h pre q hpre hq
            cases pre with
            | nil =>
                cases hq
                exact h.1
            | cons j pre =>
                obtain ⟨rfl, -⟩ := List.cons_prefix_cons.mp hpre
                unfold exec at hq
                rw [hs] at hq
                cases hq
      | some r =>
          constructor
          · intro h
            have hp : good p := h [] p List.nil_prefix rfl
            have hrest := (ih r).mp fun pre q hpre hq =>
              h (i :: pre) q (List.cons_prefix_cons.mpr ⟨rfl, hpre⟩) (by unfold exec; rw [hs]; exact hq)
            exact ⟨hp, (hstep p i r hp hs).mp hrest.1, hrest.2⟩
          · intro h pre q hpre hq
            obtain ⟨hp, hg, hrest⟩ := h
            cases pre with
            | nil =>
                cases hq
                exact hp
            | cons j pre =>
                obtain ⟨rfl, hrestPre⟩ := List.cons_prefix_cons.mp hpre
                unfold exec at hq
                rw [hs] at hq
                exact (ih r).mpr ⟨(hstep p j r hp hs).mpr hg, hrest⟩ pre q hrestPre hq

/-! ### The calls after one of them has moved -/

theorem getElem?_set_of_some {ts : List L} {i j : ℕ} {l l' : L} (hl : ts[i]? = some l) :
    (ts.set i l')[j]? = if j = i then some l' else ts[j]? := by
  have hi : i < ts.length := (List.getElem?_eq_some_iff.mp hl).1
  rw [List.getElem?_set]
  by_cases h : j = i
  · simp [h, hi]
  · simp [h, Ne.symm h]

theorem mem_set_cases {ts : List L} {i : ℕ} {x l' : L} (h : x ∈ ts.set i l') :
    x = l' ∨ ∃ j, j ≠ i ∧ ts[j]? = some x := by
  obtain ⟨j, hj, rfl⟩ := List.mem_iff_getElem.mp h
  rw [List.getElem_set]
  by_cases hij : i = j
  · exact Or.inl (by simp [hij])
  · refine Or.inr ⟨j, Ne.symm hij, ?_⟩
    simp only [List.length_set] at hj
    simp [hij, hj]

/-- A sum over the calls changes by what the moving call gives up and what it takes on. -/
theorem sum_map_set {M : Type*} [AddCommMonoid M] (f : L → M) {ts : List L} {i : ℕ} {l : L}
    (l' : L) (hl : ts[i]? = some l) :
    ((ts.set i l').map f).sum + f l = (ts.map f).sum + f l' := by
  induction ts generalizing i with
  | nil => simp at hl
  | cons t ts ih =>
      cases i with
      | zero =>
          simp only [List.getElem?_cons_zero, Option.some.injEq] at hl
          subst hl
          simp only [List.set_cons_zero, List.map_cons, List.sum_cons]
          rw [add_comm (f l') _, add_comm (f t) _, add_assoc, add_assoc, add_comm (f l')]
      | succ i =>
          simp only [List.getElem?_cons_succ] at hl
          simp only [List.set_cons_succ, List.map_cons, List.sum_cons]
          rw [add_assoc, ih hl, add_assoc]

/-- The number of calls with a property changes by that of the moving call. -/
theorem countP_set_add (f : L → Bool) {ts : List L} {i : ℕ} {l : L} (l' : L) (hl : ts[i]? = some l) :
    (ts.set i l').countP f + (f l).toNat = ts.countP f + (f l').toNat := by
  induction ts generalizing i with
  | nil => simp at hl
  | cons t ts ih =>
      cases i with
      | zero =>
          simp only [List.getElem?_cons_zero, Option.some.injEq] at hl
          subst hl
          cases hf : f t <;> cases hf' : f l' <;> simp [hf, hf']
      | succ i =>
          have hih := ih hl
          simp only [List.set_cons_succ, List.countP_cons]
          omega

/-- The one call with a property. -/
theorem exists_split_of_countP_eq_one {f : L → Bool} {ts : List L} (h : ts.countP f = 1) :
    ∃ before l after, ts = before ++ l :: after ∧ f l = true ∧ ∀ t ∈ before ++ after, f t = false := by
  obtain ⟨l, hmem, hl⟩ := List.countP_pos_iff.mp (h ▸ Nat.one_pos)
  obtain ⟨before, after, rfl⟩ := List.append_of_mem hmem
  have hrest : (before ++ after).countP f = 0 := by
    rw [List.countP_append, List.countP_cons_of_pos hl] at h
    rw [List.countP_append]
    omega
  refine ⟨before, l, after, rfl, hl, fun t ht => ?_⟩
  exact Bool.eq_false_iff.mpr (List.countP_eq_zero.mp hrest t ht)

end Pinnokio.Interleaving
