import Pinnokio.Lib.Json

/-!
# Documents of a document store

The values a document holds, and the update of some of its fields.  An update names a field by its path, the list of
the names that lead to it; the client refuses an update one of whose paths has an empty name or lies below another
one.

* `Document.write` — one field, at its path; a value on the way that is not a map is replaced by one;
* `Document.update` — the fields of an update, one after another;
* `get?_update` — a field that an update names at the top has the value it gives.
-/

namespace Pinnokio

/-- A value of a document. -/
inductive Value where
  | scalar (v : Scalar)
  | list (items : List Value)
  | map (fields : List (String × Value))

/-- The fields of a document. -/
abbrev Document := List (String × Value)

/-- The names that lead to a field. -/
abbrev FieldPath := List String

/-- The fields of an update, each at its path. -/
abbrev Updates := Dict FieldPath Value

namespace Value

/-- A text. -/
def text (s : String) : Value := .scalar (.str s)

/-- The truth value the interpreter gives a value. -/
def truthy : Value → Bool
  | scalar v => v.truthy
  | list items => !items.isEmpty
  | map fields => !fields.isEmpty

/-- `isinstance(v, dict)`. -/
def asMap : Value → Option Document
  | map fields => some fields
  | _ => none

/-- `v in names`, for a list of texts. -/
def isOneOf (names : List String) : Value → Bool
  | scalar (.str s) => s ∈ names
  | _ => false

/-- `v == b`, as the store compares. -/
def isBool (b : Bool) : Value → Bool
  | scalar (.bool c) => c == b
  | _ => false

mutual

/-- The interpreter's `v == w`. -/
def same : Value → Value → Bool
  | scalar a, scalar b => a.same b
  | list xs, list ys => sameItems xs ys
  | map xs, map ys => decide (xs.length = ys.length) && sameFields xs ys
  | _, _ => false

/-- Lists are compared in order. -/
def sameItems : List Value → List Value → Bool
  | [], [] => true
  | x :: xs, y :: ys => same x y && sameItems xs ys
  | _, _ => false

/-- Maps are compared by key. -/
def sameFields : List (String × Value) → List (String × Value) → Bool
  | [], _ => true
  | (k, v) :: xs, ys =>
      (match Dict.getList k ys with
        | none => false
        | some w => same v w) && sameFields xs ys

end

/-- What iterating over a value gives; `none` is the `TypeError` of a value that has no elements. -/
def elements : Value → Option (List Value)
  | list items => some items
  | map fields => some (fields.map fun e => text e.1)
  | scalar (.str s) => some (s.toList.map fun c => text (String.singleton c))
  | scalar _ => none

/-- The interpreter's `v or w`. -/
def or (v w : Value) : Value := if v.truthy then v else w

/-- The fields below a value; there are none if it is not a map. -/
def fieldsOf : Option Value → Document
  | some (map fields) => fields
  | _ => []

/-- What is stored where `old` was when `v` is written at a path below it. -/
def place (v : Value) : FieldPath → Option Value → Value
  | [], _ => v
  | k :: ks, old => map (Dict.setList k (place v ks (Dict.getList k (fieldsOf old))) (fieldsOf old))

end Value

namespace Document

/-- `d.get(k)`. -/
def get? (d : Document) (k : String) : Option Value := Dict.getList k d

/-- Write a field at its path. -/
def write (d : Document) : FieldPath → Value → Document
  | [], _ => d
  | k :: ks, v => Dict.setList k (v.place ks (d.get? k)) d

/-- Remove the field at a path, if there is one. -/
def remove (d : Document) : FieldPath → Document
  | [] => d
  | [k] => d.filter fun e => e.1 ≠ k
  | k :: ks =>
      match d.get? k with
      | some (.map fields) => Dict.setList k (.map (remove fields ks)) d
      | _ => d

/-- The paths of an update that the client accepts. -/
def accepted (paths : List FieldPath) : Bool :=
  paths.all (fun p => decide (p ≠ [] ∧ "" ∉ p)) &&
    !paths.any fun p => paths.any fun q => decide (p ≠ q) && p.isPrefixOf q

/-- `update(updates)`; `none` when the client refuses the paths. -/
def update (d : Document) (updates : Updates) : Option Document :=
  if accepted updates.keys then some (updates.entries.foldl (fun d e => write d e.1 e.2) d) else none

theorem get?_write_cons (d : Document) (k k' : String) (ks : FieldPath) (v : Value) :
    get? (write d (k :: ks) v) k' = if k' = k then some (v.place ks (d.get? k)) else d.get? k' :=
  Dict.getList_setList k k' _ d

theorem get?_write_other (d : Document) {k : String} {p : FieldPath} (h : p.head? ≠ some k) (v : Value) :
    get? (write d p v) k = d.get? k := by
  cases p with
  | nil => rfl
  | cons k' ks =>
      rw [get?_write_cons, if_neg]
      exact fun hk => h (by rw [hk, List.head?_cons])

theorem get?_foldl_write_other {k : String} {es : List (FieldPath × Value)} (h : ∀ e ∈ es, e.1.head? ≠ some k)
    (d : Document) : get? (es.foldl (fun d e => write d e.1 e.2) d) k = d.get? k := by
  induction es generalizing d with
  | nil => rfl
  | cons e es ih =>
      rw [List.foldl_cons, ih (fun x hx => h x (List.mem_cons_of_mem _ hx)),
        get?_write_other d (h e (List.mem_cons_self ..))]

theorem get?_foldl_write {k : String} {v : Value} {es : List (FieldPath × Value)} (hmem : ([k], v) ∈ es)
    (hn : (es.map Prod.fst).Nodup) (h : ∀ e ∈ es, e.1 ≠ [k] → e.1.head? ≠ some k) (d : Document) :
    get? (es.foldl (fun d e => write d e.1 e.2) d) k = some v := by
  induction es generalizing d with
  | nil => cases hmem
  | cons e es ih =>
      rw [List.map_cons, List.nodup_cons] at hn
      have hrest : ∀ x ∈ es, x.1 ≠ [k] → x.1.head? ≠ some k := fun x hx => h x (List.mem_cons_of_mem _ hx)
      rw [List.foldl_cons]
      rcases List.mem_cons.mp hmem with rfl | hmem
      · -- the later paths start with another name
        have hlater : ∀ x ∈ es, x.1.head? ≠ some k := by
          intro x hx
          refine hrest x hx fun hk => hn.1 ?_
          exact List.mem_map.mpr ⟨x, hx, hk⟩
        rw [get?_foldl_write_other hlater]
        simp [get?_write_cons, Value.place]
      · exact ih hmem hn.2 hrest _

/-- An accepted path does not lie below a name that the update writes itself. -/
theorem head?_ne_of_accepted {paths : List FieldPath} (h : accepted paths = true) {k : String} (hk : [k] ∈ paths)
    {p : FieldPath} (hp : p ∈ paths) (hne : p ≠ [k]) : p.head? ≠ some k := by
  simp only [accepted, Bool.and_eq_true, Bool.not_eq_true', List.any_eq_false] at h
  intro hhead
  obtain ⟨ks, rfl⟩ : ∃ ks, p = k :: ks := by
    cases p with
    | nil => cases hhead
    | cons k' ks =>
        cases hhead
        exact ⟨ks, rfl⟩
  refine h.2 [k] hk (List.any_eq_true.mpr ⟨k :: ks, hp, ?_⟩)
  simp [Ne.symm hne]

/-- **A field that the update names at the top** has the value it gives. -/
theorem get?_update {d d' : Document} {updates : Updates} (h : d.update updates = some d') {k : String} {v : Value}
    (hk : updates.get? [k] = some v) : d'.get? k = some v := by
  unfold update at h
  split at h
  · next hacc =>
    cases h
    refine get?_foldl_write (Dict.mem_entries_iff.mpr hk) updates.nodup (fun e he hne => ?_) d
    exact head?_ne_of_accepted hacc (Dict.mem_keys_of_get? hk) (List.mem_map_of_mem he) hne
  · cases h

end Document

end Pinnokio
