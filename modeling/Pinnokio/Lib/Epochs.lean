import Pinnokio.Lib.Interleaving

/-!
# Calls that supersede each other

Some calls of a pool have a number, and the shared state may name one of these numbers: its call is the current one.  A
step of a call keeps its number and the name, or takes the name away, or gives the call a number that is new and names
it.  So the numbers are distinct, and what the current call has arranged is safe from the others as long as they leave
it alone.

* `Superseding` — what the rule asks of the steps: the step of a call that has a number, and the step that gives one;
* `current_holds` — **the rule**: in every state, the current call exists and has what it arranged;
* `every_holds` — and every call has what does not depend on the shared state.
-/

namespace Pinnokio.Epochs

open Pinnokio.Interleaving

variable {S L : Type*}

/-- Calls with numbers: `numberOf` is the number of a call, `current` the number that the shared state names, and
`bound` is above all numbers given out. -/
structure Numbering (S L : Type*) where
  numberOf : L → Option ℕ
  current : S → Option ℕ
  bound : S → ℕ

/-- A call keeps its number, and the current number stays or is taken away. -/
structure Keeps (N : Numbering S L) (s s' : S) (l l' : L) : Prop where
  number : N.numberOf l' = N.numberOf l
  bound : N.bound s' = N.bound s
  current : N.current s' = N.current s ∨ N.current s' = none

/-- A call without a number gets a new one, and it is the current one. -/
structure Begins (N : Numbering S L) (s s' : S) (l l' : L) : Prop where
  none : N.numberOf l = none
  number : N.numberOf l' = some (N.bound s)
  bound : N.bound s' = N.bound s + 1
  current : N.current s' = some (N.bound s)

/-- Steps that supersede each other: `Own` is what the current call has arranged in the shared state, `Local` what holds
of every call by itself. -/
structure Superseding (N : Numbering S L) (next : S → L → Option (S × L)) (Own : S → L → Prop) (Local : L → Prop) :
    Prop where
  cases : ∀ s l s' l', next s l = some (s', l') → Keeps N s s' l l' ∨ Begins N s s' l l' ∧ Own s' l'
  /-- The current call arranges what it needs. -/
  own : ∀ s l s' l', next s l = some (s', l') → Keeps N s s' l l' → N.numberOf l ≠ none →
    N.current s = N.numberOf l → Own s l → Local l → Own s' l'
  /-- The other calls leave that alone. -/
  frame : ∀ s l s' l' m, next s l = some (s', l') → Keeps N s s' l l' → N.numberOf m ≠ none →
    N.current s = N.numberOf m → N.numberOf l ≠ N.numberOf m → Own s m → Own s' m
  /-- A call may use what it has arranged. -/
  here : ∀ s l s' l', next s l = some (s', l') → (N.numberOf l ≠ none → N.current s = N.numberOf l → Own s l) →
    Local l → Local l'

/-- The invariant of superseding calls. -/
structure Inv (N : Numbering S L) (Own : S → L → Prop) (Local : L → Prop) (p : Pool S L) : Prop where
  below : ∀ (i : ℕ) l n, p.threads[i]? = some l → N.numberOf l = some n → n < N.bound p.shared
  apart : ∀ (i j : ℕ) l m n, p.threads[i]? = some l → p.threads[j]? = some m → N.numberOf l = some n →
    N.numberOf m = some n → i = j
  exists_current : ∀ n, N.current p.shared = some n → ∃ (i : ℕ) (l : L), p.threads[i]? = some l ∧ N.numberOf l = some n
  own : ∀ (i : ℕ) l, p.threads[i]? = some l → N.numberOf l ≠ none → N.current p.shared = N.numberOf l → Own p.shared l
  local_ : ∀ (i : ℕ) l, p.threads[i]? = some l → Local l

variable {N : Numbering S L} {next : S → L → Option (S × L)} {Own : S → L → Prop} {Local : L → Prop}

theorem Inv.start {s : S} {ls : List L} (hnone : ∀ l ∈ ls, N.numberOf l = none) (hcurrent : N.current s = none)
    (hlocal : ∀ l ∈ ls, Local l) : Inv N Own Local ⟨s, ls⟩ where
  below := by
    intro i l n hl hn
    rw [hnone l (List.mem_of_getElem? hl)] at hn
    cases hn
  apart := by
    intro i j l m n hl _ hn _
    rw [hnone l (List.mem_of_getElem? hl)] at hn
    cases hn
  exists_current := by
    intro n hn
    rw [hcurrent] at hn
    cases hn
  own := by
    intro i l hl hne
    exact absurd (hnone l (List.mem_of_getElem? hl)) hne
  local_ := fun _ l hl => hlocal l (List.mem_of_getElem? hl)

/-- A call other than the one that moves is where it was. -/
theorem set_cases {ts : List L} {i j : ℕ} {l l' x : L} (hl : ts[i]? = some l) (hx : (ts.set i l')[j]? = some x) :
    (j = i ∧ x = l') ∨ (j ≠ i ∧ ts[j]? = some x) := by
  rw [getElem?_set_of_some hl] at hx
  by_cases hji : j = i
  · rw [if_pos hji] at hx
    exact .inl ⟨hji, (Option.some.inj hx).symm⟩
  · rw [if_neg hji] at hx
    exact .inr ⟨hji, hx⟩

theorem Inv.keeps (hs : Superseding N next Own Local) {s s' : S} {ls : List L} {i : ℕ} {l l' : L}
    (hp : Inv N Own Local ⟨s, ls⟩) (hl : ls[i]? = some l) (hnext : next s l = some (s', l'))
    (hk : Keeps N s s' l l') : Inv N Own Local ⟨s', ls.set i l'⟩ where
  below := by
    intro j x n hx hn
    show n < N.bound s'
    rw [hk.bound]
    obtain ⟨-, rfl⟩ | ⟨-, hx⟩ := set_cases hl hx
    · rw [hk.number] at hn
      exact hp.below i l n hl hn
    · exact hp.below j x n hx hn
  apart := by
    intro j k x y n hx hy hn hm
    obtain ⟨rfl, rfl⟩ | ⟨-, hx'⟩ := set_cases hl hx <;> obtain ⟨rfl, rfl⟩ | ⟨-, hy'⟩ := set_cases hl hy
    · rfl
    · rw [hk.number] at hn
      exact hp.apart _ k l y n hl hy' hn hm
    · rw [hk.number] at hm
      exact hp.apart j _ x l n hx' hl hn hm
    · exact hp.apart j k x y n hx' hy' hn hm
  exists_current := by
    intro n hn
    have hbefore : N.current s = some n := by
      rcases hk.current with h | h
      · exact h ▸ hn
      · rw [show N.current s' = some n from hn] at h
        cases h
    obtain ⟨j, x, hx, hnum⟩ := hp.exists_current n hbefore
    by_cases hji : j = i
    · subst hji
      obtain rfl : l = x := by
        rw [show ls[j]? = some x from hx] at hl
        exact (Option.some.inj hl).symm
      exact ⟨j, l', by rw [getElem?_set_of_some hl, if_pos rfl], by rw [hk.number]; exact hnum⟩
    · exact ⟨j, x, by rw [getElem?_set_of_some hl, if_neg hji]; exact hx, hnum⟩
  own := by
    intro j x hx hne hcur
    have hbefore : N.current s = N.numberOf x := by
      rcases hk.current with h | h
      · exact h ▸ hcur
      · rw [show N.current s' = N.numberOf x from hcur] at h
        exact absurd h hne
    obtain ⟨-, rfl⟩ | ⟨hji, hx⟩ := set_cases hl hx
    · rw [hk.number] at hne hbefore
      exact hs.own s l s' _ hnext hk hne hbefore (hp.own i l hl hne hbefore) (hp.local_ i l hl)
    · have hdiff : N.numberOf l ≠ N.numberOf x := by
        intro heq
        obtain ⟨n, hn⟩ := Option.ne_none_iff_exists'.mp hne
        exact hji (hp.apart i j l x n hl hx (heq.trans hn) hn).symm
      exact hs.frame s l s' l' x hnext hk hne hbefore hdiff (hp.own j x hx hne hbefore)
  local_ := by
    intro j x hx
    obtain ⟨-, rfl⟩ | ⟨-, hx⟩ := set_cases hl hx
    · exact hs.here s l s' _ hnext (hp.own i l hl) (hp.local_ i l hl)
    · exact hp.local_ j x hx

theorem Inv.begins (hs : Superseding N next Own Local) {s s' : S} {ls : List L} {i : ℕ} {l l' : L}
    (hp : Inv N Own Local ⟨s, ls⟩) (hl : ls[i]? = some l) (hnext : next s l = some (s', l'))
    (hb : Begins N s s' l l') (hown : Own s' l') : Inv N Own Local ⟨s', ls.set i l'⟩ where
  below := by
    intro j x n hx hn
    show n < N.bound s'
    rw [hb.bound]
    obtain ⟨-, rfl⟩ | ⟨-, hx⟩ := set_cases hl hx
    · rw [hb.number] at hn
      cases hn
      exact Nat.lt_succ_self _
    · exact Nat.lt_succ_of_lt (hp.below j x n hx hn)
  apart := by
    intro j k x y n hx hy hn hm
    obtain ⟨rfl, rfl⟩ | ⟨-, hx'⟩ := set_cases hl hx <;> obtain ⟨rfl, rfl⟩ | ⟨-, hy'⟩ := set_cases hl hy
    · rfl
    · rw [hb.number] at hn
      cases hn
      exact absurd (hp.below k y _ hy' hm) (Nat.lt_irrefl _)
    · rw [hb.number] at hm
      cases hm
      exact absurd (hp.below j x _ hx' hn) (Nat.lt_irrefl _)
    · exact hp.apart j k x y n hx' hy' hn hm
  exists_current := by
    intro n hn
    exact ⟨i, l', by rw [getElem?_set_of_some hl, if_pos rfl], hb.number.trans (hb.current.symm.trans hn)⟩
  own := by
    intro j x hx hne hcur
    obtain ⟨-, rfl⟩ | ⟨-, hx⟩ := set_cases hl hx
    · exact hown
    · have hnum : N.numberOf x = some (N.bound s) := hcur.symm.trans hb.current
      exact absurd (hp.below j x _ hx hnum) (Nat.lt_irrefl _)
  local_ := by
    intro j x hx
    obtain ⟨-, rfl⟩ | ⟨-, hx⟩ := set_cases hl hx
    · exact hs.here s l s' _ hnext (hp.own i l hl) (hp.local_ i l hl)
    · exact hp.local_ j x hx

/-- The invariant, along every schedule. -/
theorem Inv.exec (hs : Superseding N next Own Local) {p q : Pool S L} {sched : List ℕ} (hp : Inv N Own Local p)
    (hq : Interleaving.exec next p sched = some q) : Inv N Own Local q := by
  refine exec_induction (Inv N Own Local) ?_ sched p q hp hq
  intro p i q hp hstep
  obtain ⟨l, s', l', hl, hnext, rfl⟩ := stepAt_eq_some hstep
  rcases hs.cases _ _ _ _ hnext with hk | ⟨hb, hown⟩
  · exact hp.keeps hs hl hnext hk
  · exact hp.begins hs hl hnext hb hown

/-- **The current call** exists and has what it arranged. -/
theorem Inv.current_holds {p : Pool S L} (hp : Inv N Own Local p) {n : ℕ} (hn : N.current p.shared = some n) :
    ∃ l ∈ p.threads, N.numberOf l = some n ∧ Own p.shared l := by
  obtain ⟨i, l, hl, hnum⟩ := hp.exists_current n hn
  refine ⟨l, List.mem_of_getElem? hl, hnum, hp.own i l hl ?_ (hn.trans hnum.symm)⟩
  rw [hnum]
  exact Option.some_ne_none n

/-- Every call has what holds by itself. -/
theorem Inv.every_holds {p : Pool S L} (hp : Inv N Own Local p) {l : L} (hl : l ∈ p.threads) : Local l := by
  obtain ⟨i, hi⟩ := List.getElem?_of_mem hl
  exact hp.local_ i l hi

end Pinnokio.Epochs
