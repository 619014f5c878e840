import Pinnokio.Lib.PyJson

/-!
# The text of a session

The state of a session is stored as a JSON text, in which dates and sets are objects with a tag.  Every other object is
written as its `str`, and a tuple as a list.

* `Settled` — a value that is read back as it was;
* `settled_of_deserialize` — **what was read once is settled**;
* `settled_dict` — a dictionary of settled values under texts is, unless it looks like a tagged object.
-/

namespace Pinnokio.Sessions.SessionState

open Pinnokio.PyJson

/-! ### Values -/

/-- Floats, dates and sets of the interpreter.  A set here is one of values that JSON has and that can be in a set. -/
structure Interpreter (F : Type) where
  repr : F → String
  Datetime : Type
  isoformat : Datetime → String
  fromisoformat : String → Option Datetime
  strDatetime : Datetime → String
  fromisoformat_isoformat : ∀ d, fromisoformat (isoformat d) = some d
  PySet : Type
  ofItems : List (Json F) → Option PySet
  items : PySet → List (Json F)
  strSet : PySet → String
  ofItems_items : ∀ s, ofItems (items s) = some s
  loads_items : ∀ s, ∀ j ∈ items s, loads j = j

variable {F : Type} (I : Interpreter F)

/-- The other objects of a state: a set with other elements is given by what the list of them is written as and by its
`str`, and an object without a case by its `str`. -/
inductive Special where
  | datetime (d : I.Datetime)
  | set (s : I.PySet)
  | mixedSet (items : List (Json F)) (str : String)
  | other (str : String)

/-- A value of a state. -/
abbrev Val := PyValue F (Special I)

/-- A state. -/
abbrev State := Dict String (Val I)

/-- `default=str`; dates and sets are left to it in a tuple only. -/
def strDefault : Special I → Option (Json F)
  | .datetime d => some (.str (I.strDatetime d))
  | .set s => some (.str (I.strSet s))
  | .mixedSet _ str => some (.str str)
  | .other str => some (.str str)

/-- An object with a tag. -/
def tagged (type : String) (value : Val I) : Val I := .dict [(.str "__type__", .str type), (.str "value", value)]

mutual

/-- `_serialize_value`. -/
def serializeValue : Val I → Val I
  | .object (.datetime d) => tagged I "datetime" (.str (I.isoformat d))
  | .object (.set s) => tagged I "set" (.list (ofJsonItems (I.items s)))
  | .object (.mixedSet items _) => tagged I "set" (.list (ofJsonItems items))
  | .dict entries => .dict (serializeEntries entries)
  | .list items => .list (serializeItems items)
  | v => v

/-- The entries of a dictionary. -/
def serializeEntries : List (Key F × Val I) → List (Key F × Val I)
  | [] => []
  | (k, v) :: es => (k, serializeValue v) :: serializeEntries es

/-- The items of a list. -/
def serializeItems : List (Val I) → List (Val I)
  | [] => []
  | v :: vs => serializeValue v :: serializeItems vs

end

/-- A dictionary with texts as keys. -/
def dictOf (fields : List (String × Val I)) : Val I := .dict (fields.map fun e => (.str e.1, e.2))

/-- `_serialize_state`; `none` is an error. -/
def serializeState (state : State I) : Option (Json F) :=
  dumps I.repr (strDefault I) (.dict (serializeEntries I (state.entries.map fun e => (.str e.1, e.2))))

/-- `v.get("__type__")`, if it is a text. -/
def tagOf (entries : List (String × Json F)) : Option String :=
  match Dict.getList "__type__" entries with
  | some (.str type) => some type
  | _ => none

/-- What iterating over a value gives; `none` is a `TypeError`. -/
def iterate : Json F → Option (List (Json F))
  | .array items => some items
  | .str s => some (s.toList.map fun c => .str (String.singleton c))
  | .object entries => some (entries.map fun e => .str e.1)
  | _ => none

mutual

/-- `_deserialize_value`, of a value that `json.loads` has read; `none` is an error. -/
def deserializeValue : Json F → Option (Val I)
  | .object entries =>
      if tagOf entries = some "datetime" then
        match Dict.getList "value" entries with
        | some (.str value) => (I.fromisoformat value).map fun d => .object (.datetime d)
        | _ => none
      else if tagOf entries = some "set" then
        (((Dict.getList "value" entries).bind iterate).bind I.ofItems).map fun s => .object (.set s)
      else (deserializeFields entries).map (dictOf I)
  | .array items => (deserializeItems items).map .list
  | .null => some .none
  | .bool b => some (.bool b)
  | .int n => some (.int n)
  | .float x => some (.float x)
  | .str s => some (.str s)

/-- The entries of an object. -/
def deserializeFields : List (String × Json F) → Option (List (String × Val I))
  | [] => some []
  | (k, j) :: es =>
      match deserializeValue j, deserializeFields es with
      | some v, some vs => some ((k, v) :: vs)
      | _, _ => none

/-- The items of an array. -/
def deserializeItems : List (Json F) → Option (List (Val I))
  | [] => some []
  | j :: js =>
      match deserializeValue j, deserializeItems js with
      | some v, some vs => some (v :: vs)
      | _, _ => none

end

/-- `_deserialize_state`; `none` is an error. -/
def deserializeState (data : Json F) : Option (State I) :=
  match loads data with
  | .object entries => (deserializeFields I entries).map Dict.ofList
  | _ => none

/-- What a value is written as. -/
def written (v : Val I) : Option (Json F) := dumps I.repr (strDefault I) (serializeValue I v)

/-- What a value is read back as. -/
def reread (v : Val I) : Option (Val I) := (written I v).bind fun j => deserializeValue I (loads j)

/-- **A value that is read back as it was.** -/
def Settled (v : Val I) : Prop := ∃ j, written I v = some j ∧ loads j = j ∧ deserializeValue I j = some v

section

variable {I}

theorem deserializeFields_cons {k : String} {j : Json F} {es : List (String × Json F)} {fs : List (String × Val I)} :
    deserializeFields I ((k, j) :: es) = some fs ↔
      ∃ v fs', deserializeValue I j = some v ∧ deserializeFields I es = some fs' ∧ fs = (k, v) :: fs' := by
  rw [deserializeFields]
  cases deserializeValue I j with
  | none => simp
  | some v =>
      cases deserializeFields I es with
      | none => simp
      | some fs' => simp [eq_comm]

theorem deserializeItems_cons {j : Json F} {js : List (Json F)} {vs : List (Val I)} :
    deserializeItems I (j :: js) = some vs ↔
      ∃ v vs', deserializeValue I j = some v ∧ deserializeItems I js = some vs' ∧ vs = v :: vs' := by
  rw [deserializeItems]
  cases deserializeValue I j with
  | none => simp
  | some v =>
      cases deserializeItems I js with
      | none => simp
      | some vs' => simp [eq_comm]

theorem Settled.reread {v : Val I} (h : Settled I v) : reread I v = some v := by
  obtain ⟨j, hj, hloads, hread⟩ := h
  rw [SessionState.reread, hj, Option.bind_some, hloads, hread]

/-- Only a text is read as a text. -/
theorem eq_str_of_deserialize {j : Json F} {s : String} (h : deserializeValue I j = some (.str s)) : j = .str s := by
  cases j with
  | str t =>
      cases h
      rfl
  | null => cases h
  | bool b => cases h
  | int n => cases h
  | float x => cases h
  | array items =>
      obtain ⟨vs, -, hv⟩ := Option.map_eq_some_iff.mp h
      cases hv
  | object entries =>
      unfold deserializeValue at h
      split at h
      · split at h
        · obtain ⟨d, -, hv⟩ := Option.map_eq_some_iff.mp h
          cases hv
        · cases h
      · split at h
        · obtain ⟨set, -, hv⟩ := Option.map_eq_some_iff.mp h
          cases hv
        · obtain ⟨fs, -, hv⟩ := Option.map_eq_some_iff.mp h
          cases hv

/-! ### Settled values -/

theorem getList_deserializeFields {es : List (String × Json F)} {fs : List (String × Val I)}
    (h : deserializeFields I es = some fs) (k : String) :
    Dict.getList k fs = (Dict.getList k es).bind (deserializeValue I) := by
  induction es generalizing fs with
  | nil =>
      cases h
      rfl
  | cons e es ih =>
      obtain ⟨key, j⟩ := e
      obtain ⟨v, fs', hv, hfs, rfl⟩ := deserializeFields_cons.mp h
      rw [Dict.getList, Dict.getList]
      by_cases hk : key = k
      · rw [if_pos hk, if_pos hk, Option.bind_some, hv]
      · rw [if_neg hk, if_neg hk, ih hfs]

theorem keys_deserializeFields {es : List (String × Json F)} {fs : List (String × Val I)}
    (h : deserializeFields I es = some fs) : fs.map Prod.fst = es.map Prod.fst := by
  induction es generalizing fs with
  | nil =>
      cases h
      rfl
  | cons e es ih =>
      obtain ⟨k, j⟩ := e
      obtain ⟨v, fs', -, hfs, rfl⟩ := deserializeFields_cons.mp h
      rw [List.map_cons, List.map_cons, ih hfs]

theorem mem_deserializeFields {es : List (String × Json F)} {fs : List (String × Val I)}
    (h : deserializeFields I es = some fs) {e : String × Val I} (he : e ∈ fs) :
    ∃ j, (e.1, j) ∈ es ∧ deserializeValue I j = some e.2 := by
  induction es generalizing fs with
  | nil =>
      cases h
      cases he
  | cons e' es ih =>
      obtain ⟨k, j⟩ := e'
      obtain ⟨v, fs', hv, hfs, rfl⟩ := deserializeFields_cons.mp h
      rcases List.mem_cons.mp he with rfl | he
      · exact ⟨j, List.mem_cons_self, hv⟩
      · obtain ⟨j', hmem, hread⟩ := ih hfs he
        exact ⟨j', List.mem_cons_of_mem _ hmem, hread⟩

/-- An object with distinct keys whose values are read already. -/
theorem loads_object {es : List (String × Json F)} (hn : (es.map Prod.fst).Nodup) (hes : loadsEntries es = es) :
    loads (.object es) = .object es := by
  rw [loads, hes, Dict.entries_ofList hn]

/-- The keys of a tagged object are distinct. -/
theorem nodup_tagged (j j' : Json F) : ([("__type__", j), ("value", j')].map Prod.fst).Nodup := by
  show ["__type__", "value"].Nodup
  decide

theorem settled_datetime (d : I.Datetime) : Settled I (.object (.datetime d)) := by
  refine ⟨.object [("__type__", .str "datetime"), ("value", .str (I.isoformat d))], rfl, ?_, ?_⟩
  · exact loads_object (nodup_tagged _ _) rfl
  · show (I.fromisoformat (I.isoformat d)).map _ = _
    rw [I.fromisoformat_isoformat]
    rfl

theorem settled_set (s : I.PySet) : Settled I (.object (.set s)) := by
  have hitems : loadsItems (I.items s) = I.items s := by
    rw [loadsItems_eq_map]
    conv_rhs => rw [← List.map_id (I.items s)]
    exact List.map_congr_left fun j hj => I.loads_items s j hj
  refine ⟨.object [("__type__", .str "set"), ("value", .array (I.items s))], ?_, ?_, ?_⟩
  · have hvalue : dumps I.repr (strDefault I) (.list (ofJsonItems (I.items s))) = some (.array (I.items s)) := by
      rw [dumps, dumpsItems_ofJson, Option.map_some]
    have hentries : dumpsEntries I.repr (strDefault I) [(.str "__type__", .str "set"),
        (.str "value", .list (ofJsonItems (I.items s)))] =
          some [("__type__", .str "set"), ("value", .array (I.items s))] :=
      dumpsEntries_cons.mpr ⟨_, _, _, rfl, rfl, dumpsEntries_cons.mpr ⟨_, _, _, rfl, hvalue, rfl, rfl⟩, rfl⟩
    rw [written, serializeValue, tagged, dumps, hentries, Option.map_some]
  · refine loads_object (nodup_tagged _ _) ?_
    rw [loadsEntries, loadsEntries, loads, loads, hitems]
    · rfl
    · exact fun _ h => by cases h
    · exact fun _ h => by cases h
  · show (I.ofItems (I.items s)).map _ = _
    rw [I.ofItems_items]
    rfl

theorem settled_list {vs : List (Val I)} (h : ∀ v ∈ vs, Settled I v) : Settled I (.list vs) := by
  have hitems : ∃ js, dumpsItems I.repr (strDefault I) (serializeItems I vs) = some js ∧ loadsItems js = js ∧
      deserializeItems I js = some vs := by
    induction vs with
    | nil => exact ⟨[], rfl, rfl, rfl⟩
    | cons v vs ih =>
        obtain ⟨j, hj, hloads, hread⟩ := h v List.mem_cons_self
        obtain ⟨js, hjs, hloads', hread'⟩ := ih fun w hw => h w (List.mem_cons_of_mem _ hw)
        refine ⟨j :: js, dumpsItems_cons.mpr ⟨j, js, hj, hjs, rfl⟩, ?_, ?_⟩
        · rw [loadsItems, hloads, hloads']
        · exact deserializeItems_cons.mpr ⟨v, vs, hread, hread', rfl⟩
  obtain ⟨js, hjs, hloads, hread⟩ := hitems
  refine ⟨.array js, ?_, ?_, ?_⟩
  · rw [written, serializeValue, dumps, hjs, Option.map_some]
  · rw [loads, hloads]
  · rw [deserializeValue, hread, Option.map_some]

/-- The entries of settled values. -/
theorem settled_fields {fs : List (String × Val I)} (h : ∀ e ∈ fs, Settled I e.2) :
    ∃ js, dumpsEntries I.repr (strDefault I) (serializeEntries I (fs.map fun e => (.str e.1, e.2))) = some js ∧
      loadsEntries js = js ∧ deserializeFields I js = some fs := by
  induction fs with
  | nil => exact ⟨[], rfl, rfl, rfl⟩
  | cons e fs ih =>
      obtain ⟨k, v⟩ := e
      obtain ⟨j, hj, hloads, hread⟩ := h (k, v) List.mem_cons_self
      obtain ⟨js, hjs, hloads', hread'⟩ := ih fun e' he' => h e' (List.mem_cons_of_mem _ he')
      refine ⟨(k, j) :: js, dumpsEntries_cons.mpr ⟨k, j, js, rfl, hj, hjs, rfl⟩, ?_, ?_⟩
      · rw [loadsEntries, hloads, hloads']
      · exact deserializeFields_cons.mpr ⟨v, fs, hread, hread', rfl⟩

/-- The dictionary does not look like a date or a set. -/
def Untagged (fs : List (String × Val I)) : Prop :=
  ∀ type, Dict.getList "__type__" fs = some (.str type) → type ≠ "datetime" ∧ type ≠ "set"

/-- **A dictionary of settled values** that does not look like a tagged object is settled. -/
theorem settled_dict {fs : List (String × Val I)} (hn : (fs.map Prod.fst).Nodup) (h : ∀ e ∈ fs, Settled I e.2)
    (htag : Untagged fs) : Settled I (dictOf I fs) := by
  obtain ⟨js, hjs, hloads, hread⟩ := settled_fields h
  have hkeys := keys_deserializeFields hread
  have hnot : ∀ type, tagOf js = some type → type ≠ "datetime" ∧ type ≠ "set" := by
    intro type htype
    refine htag type ?_
    unfold tagOf at htype
    split at htype
    · next t hget =>
      cases htype
      rw [getList_deserializeFields hread, hget]
      rfl
    · cases htype
  refine ⟨.object js, ?_, loads_object (hkeys ▸ hn) hloads, ?_⟩
  · show dumps I.repr (strDefault I) (.dict _) = _
    rw [dumps, hjs, Option.map_some]
  · rw [deserializeValue, if_neg fun h => (hnot _ h).1 rfl, if_neg fun h => (hnot _ h).2 rfl, hread, Option.map_some]

/-- A dictionary that was read has distinct keys, and does not look like a tagged object. -/
theorem dictOf_of_deserialize {es : List (String × Json F)} {v : Val I} (hn : (es.map Prod.fst).Nodup)
    (h : deserializeValue I (.object es) = some v) :
    (∃ d, v = .object (.datetime d)) ∨ (∃ s, v = .object (.set s)) ∨
    ∃ fs, deserializeFields I es = some fs ∧ v = dictOf I fs ∧ (fs.map Prod.fst).Nodup ∧ Untagged fs := by
  unfold deserializeValue at h
  split at h
  · split at h
    · obtain ⟨d, -, rfl⟩ := Option.map_eq_some_iff.mp h
      exact Or.inl ⟨d, rfl⟩
    · cases h
  · next hdate =>
    split at h
    · obtain ⟨s, -, rfl⟩ := Option.map_eq_some_iff.mp h
      exact Or.inr (Or.inl ⟨s, rfl⟩)
    · next hset =>
      obtain ⟨fs, hfs, rfl⟩ := Option.map_eq_some_iff.mp h
      refine Or.inr (Or.inr ⟨fs, hfs, rfl, (keys_deserializeFields hfs).symm ▸ hn, fun type htype => ?_⟩)
      have htag : tagOf es = some type := by
        rw [getList_deserializeFields hfs] at htype
        obtain ⟨j, hj, hread⟩ := Option.bind_eq_some_iff.mp htype
        rw [tagOf, hj, eq_str_of_deserialize hread]
      constructor
      · rintro rfl
        exact hdate htag
      · rintro rfl
        exact hset htag

mutual

/-- **What was read once is settled.** -/
theorem settled_of_deserialize : ∀ {j : Json F} {v : Val I}, deserializeValue I (loads j) = some v → Settled I v
  | .null, _, h => by
      cases h
      exact ⟨.null, rfl, rfl, rfl⟩
  | .bool b, _, h => by
      cases h
      exact ⟨.bool b, rfl, rfl, rfl⟩
  | .int n, _, h => by
      cases h
      exact ⟨.int n, rfl, rfl, rfl⟩
  | .float x, _, h => by
      cases h
      exact ⟨.float x, rfl, rfl, rfl⟩
  | .str s, _, h => by
      cases h
      exact ⟨.str s, rfl, rfl, rfl⟩
  | .array items, _, h => by
      rw [loads, deserializeValue] at h
      obtain ⟨vs, hvs, rfl⟩ := Option.map_eq_some_iff.mp h
      exact settled_list (settled_of_deserializeItems hvs)
  | .object entries, v, h => by
      rw [loads] at h
      rcases dictOf_of_deserialize (Dict.ofList (loadsEntries entries)).nodup h with ⟨d, rfl⟩ | ⟨s, rfl⟩ |
        ⟨fs, hfs, rfl, hn, htag⟩
      · exact settled_datetime d
      · exact settled_set s
      · refine settled_dict hn (fun e he => ?_) htag
        obtain ⟨j, hmem, hread⟩ := mem_deserializeFields hfs he
        exact settled_of_deserializeEntries (Dict.mem_of_mem_ofList hmem) hread

theorem settled_of_deserializeItems : ∀ {js : List (Json F)} {vs : List (Val I)},
    deserializeItems I (loadsItems js) = some vs → ∀ v ∈ vs, Settled I v
  | [], _, h => by
      cases h
      exact fun v hv => absurd hv List.not_mem_nil
  | j :: js, _, h => by
      obtain ⟨v, vs', hv, hvs, rfl⟩ := deserializeItems_cons.mp h
      intro w hw
      rcases List.mem_cons.mp hw with rfl | hw
      · exact settled_of_deserialize hv
      · exact settled_of_deserializeItems hvs w hw

theorem settled_of_deserializeEntries : ∀ {es : List (String × Json F)} {k : String} {j : Json F} {v : Val I},
    (k, j) ∈ loadsEntries es → deserializeValue I j = some v → Settled I v
  | [], _, _, _, hmem, _ => absurd hmem List.not_mem_nil
  | (k', j') :: es, k, j, v, hmem, h => by
      rcases List.mem_cons.mp hmem with heq | hmem
      · cases heq
        exact settled_of_deserialize h
      · exact settled_of_deserializeEntries hmem h

end

end

end Pinnokio.Sessions.SessionState
