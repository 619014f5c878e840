import Pinnokio.Lib.Dict

/-!
# Tables with a unique key

`INSERT … ON CONFLICT (key) DO UPDATE … RETURNING` on a table that is a dictionary from its unique key to its rows: the
row of the key is changed if there is one, and a new row is stored if there is none.  The rows also have a generated
id, which no two of them share.

* `get?_upsert` — the table after the statement;
* `get?_upsertAll`, `get?_upsertAll_other` — the table after the statement for one new row after another;
* `IdsBelow` — the ids are distinct and were all drawn before a point; `IdsBelow.upsert` — a statement keeps that, if a
  change keeps the id and a new row has an id that was not drawn before.
-/

namespace Pinnokio.Dict

variable {K V : Type*} [DecidableEq K]

/-- The row that the statement returns. -/
def upserted (d : Dict K V) (k : K) (new : V) (change : V → V) : V :=
  match d.get? k with
  | none => new
  | some row => change row

/-- The table after the statement. -/
def upsert (d : Dict K V) (k : K) (new : V) (change : V → V) : Dict K V := d.set k (d.upserted k new change)

variable {d : Dict K V} {k : K} {new : V} {change : V → V}

theorem upserted_of_none (h : d.get? k = none) : d.upserted k new change = new := by
  rw [upserted, h]

theorem upserted_of_some {row : V} (h : d.get? k = some row) : d.upserted k new change = change row := by
  rw [upserted, h]

theorem get?_upsert (d : Dict K V) (k k' : K) (new : V) (change : V → V) :
    (d.upsert k new change).get? k' = if k' = k then some (d.upserted k new change) else d.get? k' :=
  get?_set d k k' _

@[simp] theorem get?_upsert_self (d : Dict K V) (k : K) (new : V) (change : V → V) :
    (d.upsert k new change).get? k = some (d.upserted k new change) :=
  get?_set_self d k _

section Batches

variable {A : Type*} {key : A → K} {new : A → V} {change : A → V → V}

/-- The statement for one element after another. -/
def upsertAll (key : A → K) (new : A → V) (change : A → V → V) (d : Dict K V) (as : List A) : Dict K V :=
  as.foldl (fun d a => d.upsert (key a) (new a) (change a)) d

/-- A key that is not among those of the elements. -/
theorem get?_upsertAll_other (d : Dict K V) {as : List A} {k : K} (h : k ∉ as.map key) :
    (upsertAll key new change d as).get? k = d.get? k := by
  induction as generalizing d with
  | nil => rfl
  | cons a as ih =>
      rw [List.map_cons, List.mem_cons, not_or] at h
      show (upsertAll key new change (d.upsert (key a) (new a) (change a)) as).get? k = _
      rw [ih _ h.2, get?_upsert, if_neg h.1]

/-- With distinct keys, the row of an element is the one the statement for it returns. -/
theorem get?_upsertAll (d : Dict K V) {as : List A} (hn : (as.map key).Nodup) {a : A} (ha : a ∈ as) :
    (upsertAll key new change d as).get? (key a) = some (d.upserted (key a) (new a) (change a)) := by
  induction as generalizing d with
  | nil => cases ha
  | cons x as ih =>
      rw [List.map_cons, List.nodup_cons] at hn
      show (upsertAll key new change (d.upsert (key x) (new x) (change x)) as).get? (key a) = _
      rcases List.mem_cons.mp ha with rfl | ha
      · rw [get?_upsertAll_other _ hn.1, get?_upsert_self]
      · have hne : key a ≠ key x := fun h => hn.1 (h ▸ List.mem_map_of_mem ha)
        have hread : (d.upsert (key x) (new x) (change x)).get? (key a) = d.get? (key a) := by
          rw [get?_upsert, if_neg hne]
        rw [ih _ hn.2 ha, upserted, hread, upserted]

end Batches

/-- The ids of the rows are distinct, and below `n`. -/
structure IdsBelow (id : V → ℕ) (n : ℕ) (d : Dict K V) : Prop where
  below : ∀ k row, d.get? k = some row → id row < n
  distinct : ∀ k k' row row', d.get? k = some row → d.get? k' = some row' → id row = id row' → k = k'

variable {id : V → ℕ} {n m : ℕ}

theorem IdsBelow.empty (id : V → ℕ) (n : ℕ) : IdsBelow id n (∅ : Dict K V) where
  below k row hk := by cases hk
  distinct k k' row row' hk := by cases hk

theorem IdsBelow.mono (h : IdsBelow id n d) (hnm : n ≤ m) : IdsBelow id m d :=
  ⟨fun k row hk => Nat.lt_of_lt_of_le (h.below k row hk) hnm, h.distinct⟩

/-- The returned row has the id of the row it changes, or a new one. -/
theorem id_upserted (d : Dict K V) (k : K) (hchange : ∀ row, id (change row) = id row) (hnew : id new = m) :
    (∃ row, d.get? k = some row ∧ id (d.upserted k new change) = id row) ∨
      (d.get? k = none ∧ id (d.upserted k new change) = m) := by
  cases h : d.get? k with
  | none => exact Or.inr ⟨rfl, by rw [upserted_of_none h, hnew]⟩
  | some row => exact Or.inl ⟨row, rfl, by rw [upserted_of_some h, hchange]⟩

/-- A statement keeps the ids distinct. -/
theorem IdsBelow.upsert (h : IdsBelow id n d) (hchange : ∀ row, id (change row) = id row) (hnew : id new = m)
    (hnm : n ≤ m) (k : K) : IdsBelow id (m + 1) (d.upsert k new change) := by
  -- another key does not have the id of the returned row
  have hother : ∀ k' row', k' ≠ k → d.get? k' = some row' → id row' ≠ id (d.upserted k new change) := by
    intro k' row' hne hk' heq
    rcases id_upserted d k hchange hnew with ⟨row, hk, hid⟩ | ⟨-, hid⟩
    · exact hne (h.distinct k' k row' row hk' hk (heq.trans hid))
    · have := h.below k' row' hk'
      omega
  constructor
  · intro k' row' hk'
    rw [get?_upsert] at hk'
    split at hk'
    · cases hk'
      rcases id_upserted d k hchange hnew with ⟨row, hk, hid⟩ | ⟨-, hid⟩
      · have := h.below k row hk
        omega
      · omega
    · have := h.below k' row' hk'
      omega
  · intro k₁ k₂ row₁ row₂ hk₁ hk₂ heq
    rw [get?_upsert] at hk₁ hk₂
    split at hk₁ <;> split at hk₂
    · next h₁ h₂ => rw [h₁, h₂]
    · next h₁ h₂ =>
      cases hk₁
      exact absurd heq.symm (hother k₂ row₂ h₂ hk₂)
    · next h₁ h₂ =>
      cases hk₂
      exact absurd heq (hother k₁ row₁ h₁ hk₁)
    · exact h.distinct k₁ k₂ row₁ row₂ hk₁ hk₂ heq

end Pinnokio.Dict
