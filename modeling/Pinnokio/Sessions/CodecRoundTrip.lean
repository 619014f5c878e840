import Pinnokio.Sessions.SessionState

/-!
# Saving and loading a state

A state of texts, numbers, dates, sets, lists and dictionaries, nested to any depth, is loaded as it was saved.

* `Built` — the values of such a state;
* `Built.settled` — each of them is read back as it was;
* `deserialize_serialize` — **so is the state**.
-/

namespace Pinnokio.Sessions.SessionState

open Pinnokio.PyJson

section RoundTrip

variable {F : Type} {I : Interpreter F}

/-- A value that is built from texts, integers, booleans, null, dates and sets with lists and with dictionaries whose
keys are texts other than `__type__`. -/
inductive Built : Val I → Prop where
  | none : Built .none
  | bool (b : Bool) : Built (.bool b)
  | int (n : Int) : Built (.int n)
  | str (s : String) : Built (.str s)
  | datetime (d : I.Datetime) : Built (.object (.datetime d))
  | set (s : I.PySet) : Built (.object (.set s))
  | list {items : List (Val I)} : (∀ v ∈ items, Built v) → Built (.list items)
  | dict {fields : List (String × Val I)} : (fields.map Prod.fst).Nodup → "__type__" ∉ fields.map Prod.fst →
      (∀ e ∈ fields, Built e.2) → Built (dictOf I fields)

/-- A dictionary without the key has no tag. -/
theorem untagged_of_not_mem {fields : List (String × Val I)} (h : "__type__" ∉ fields.map Prod.fst) :
    Untagged fields := by
  intro type htype
  rw [Dict.getList_eq_none_iff.mpr h] at htype
  cases htype

/-- **A value that is built so is read back as it was.** -/
theorem Built.settled {v : Val I} (h : Built v) : Settled I v := by
  induction h with
  | none => exact ⟨.null, rfl, rfl, rfl⟩
  | bool b => exact ⟨.bool b, rfl, rfl, rfl⟩
  | int n => exact ⟨.int n, rfl, rfl, rfl⟩
  | str s => exact ⟨.str s, rfl, rfl, rfl⟩
  | datetime d => exact settled_datetime d
  | set s => exact settled_set s
  | list _ ih => exact settled_list ih
  | dict hkeys htype _ ih => exact settled_dict hkeys ih (untagged_of_not_mem htype)

/-- **The state is loaded as it was saved.** -/
theorem deserialize_serialize {state : State I} (h : ∀ e ∈ state.entries, Built e.2) :
    ∃ data, serializeState I state = some data ∧ deserializeState I data = some state := by
  obtain ⟨js, hwritten, hloads, hread⟩ := settled_fields fun e he => (h e he).settled
  have hkeys : (js.map Prod.fst).Nodup := by
    rw [← keys_deserializeFields hread]
    exact state.nodup
  refine ⟨.object js, ?_, ?_⟩
  · rw [serializeState, dumps, hwritten, Option.map_some]
  · rw [deserializeState, loads_object hkeys hloads]
    dsimp only
    rw [hread, Option.map_some, Dict.ofList_entries]

end RoundTrip

/-! ### Sets of scalars -/

section Sets

variable {F : Type}

/-- A value that can be in a set. -/
def hashable : Json F → Bool
  | .array _ | .object _ => false
  | _ => true

/-- A set of values, no two of which the interpreter takes for equal. -/
structure JsonSet (same : Json F → Json F → Bool) where
  items : List (Json F)
  hashable : ∀ j ∈ items, hashable j
  distinct : items.Pairwise fun a b => same a b = false

variable {same : Json F → Json F → Bool}

namespace JsonSet

/-- `s.add(j)`. -/
def add (s : JsonSet same) (j : Json F) (hj : SessionState.hashable j) : JsonSet same :=
  if hnew : s.items.any (same · j) then s
  else
    { items := s.items ++ [j]
      hashable := by
        simp only [List.mem_append, List.mem_singleton]
        rintro k (hk | rfl)
        · exact s.hashable k hk
        · exact hj
      distinct := by
        rw [List.pairwise_append]
        refine ⟨s.distinct, List.pairwise_singleton .., fun a ha b hb => ?_⟩
        rw [List.mem_singleton.mp hb]
        simpa using fun hsame => hnew (List.any_eq_true.mpr ⟨a, ha, hsame⟩) }

/-- The elements are added one after another; `none` is the `TypeError` of a value that cannot be in a set. -/
def addAll (s : JsonSet same) : List (Json F) → Option (JsonSet same)
  | [] => some s
  | j :: js => if hj : SessionState.hashable j then (s.add j hj).addAll js else none

/-- `set(items)`. -/
def ofItems (items : List (Json F)) : Option (JsonSet same) := addAll ⟨[], nofun, .nil⟩ items

theorem addAll_distinct {s t : JsonSet same} {js : List (Json F)} (h : t.items = s.items ++ js) :
    s.addAll js = some t := by
  induction js generalizing s with
  | nil =>
      obtain ⟨items, _, _⟩ := t
      rw [List.append_nil] at h
      subst h
      rfl
  | cons j js ih =>
      have hj : SessionState.hashable j := t.hashable j (by rw [h]; simp)
      have hdistinct := t.distinct
      rw [h, List.pairwise_append] at hdistinct
      have hnew : ¬s.items.any (same · j) := by
        rw [List.any_eq_true]
        rintro ⟨a, ha, hsame⟩
        rw [hdistinct.2.2 a ha j List.mem_cons_self] at hsame
        cases hsame
      rw [addAll, dif_pos hj]
      apply ih
      rw [add, dif_neg hnew, h, List.append_assoc]
      rfl

/-- A set is the set of its elements. -/
theorem ofItems_items (s : JsonSet same) : ofItems s.items = some s := addAll_distinct rfl

theorem loads_items (s : JsonSet same) (j : Json F) (hj : j ∈ s.items) : loads j = j := by
  have h := s.hashable j hj
  cases j with
  | array items => cases h
  | object entries => cases h
  | null => rfl
  | bool b => rfl
  | int n => rfl
  | float x => rfl
  | str s => rfl

end JsonSet

/-- The number that a value compares as. -/
def numberOf : Json Empty → Option Int
  | .bool b => some b.toInt
  | .int n => some n
  | _ => none

/-- The interpreter's `a == b`, of values without floats. -/
def sameScalar : Json Empty → Json Empty → Bool
  | .null, .null => true
  | .str s, .str t => s = t
  | a, b => (numberOf a).isSome && numberOf a = numberOf b

/-- An interpreter with one date, and with sets. -/
def oneDateAndSets : Interpreter Empty :=
  { oneDate with
    PySet := JsonSet sameScalar
    ofItems := JsonSet.ofItems
    items := JsonSet.items
    strSet := fun _ => "{}"
    ofItems_items := JsonSet.ofItems_items
    loads_items := JsonSet.loads_items }

/-- A set of two texts and a number. -/
def threeItems : JsonSet sameScalar where
  items := [.str "t1", .int 2, .str "t2"]
  hashable := by simp [hashable]
  distinct := by simp [sameScalar, numberOf]

/-- A date, a set, and a set in a dictionary in a list. -/
def nestedFields : List (String × Val oneDateAndSets) :=
  [("since", .object (.datetime ())), ("threads", .object (.set threeItems)),
    ("log", .list [.none, .dict [(.str "seen", .object (.set threeItems)), (.str "read", .bool true)]])]

/-- The state with these fields is loaded as it was saved. -/
theorem deserialize_serialize_nested :
    ∃ data, serializeState oneDateAndSets (Dict.ofList nestedFields) = some data ∧
      deserializeState oneDateAndSets data = some (Dict.ofList nestedFields) := by
  refine deserialize_serialize ?_
  have hdict : Built (dictOf oneDateAndSets
      [("seen", .object (.set threeItems)), ("read", .bool true)]) := by
    refine .dict (by decide) (by decide) ?_
    simp only [List.forall_mem_cons, List.not_mem_nil, false_implies, implies_true, and_true]
    exact ⟨.set _, .bool _⟩
  have hlog : Built (I := oneDateAndSets)
      (.list [.none, .dict [(.str "seen", .object (.set threeItems)), (.str "read", .bool true)]]) := by
    refine .list ?_
    simp only [List.forall_mem_cons, List.not_mem_nil, false_implies, implies_true, and_true]
    exact ⟨.none, hdict⟩
  rw [Dict.entries_ofList (by decide), nestedFields]
  simp only [List.forall_mem_cons, List.not_mem_nil, false_implies, implies_true, and_true]
  exact ⟨.datetime _, .set _, hlog⟩

end Sets

end Pinnokio.Sessions.SessionState
