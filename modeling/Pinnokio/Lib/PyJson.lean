import Pinnokio.Lib.Dict

/-!
# Values of the interpreter and their JSON texts

`json.dumps` writes the values it knows, gives every other object to a hook (`default`), and raises a `TypeError` where
there is none.  It writes floats that are not numbers as tokens of their own, and the keys of a dictionary as texts, so
that two keys may become one; `json.loads` then keeps the last value.  A text is taken as its syntax tree.

The finite floats are any type `F` with the texts that `repr` gives for them, and the other objects any type `O`.

* `dumps`, `loads` — writing and reading;
* `loads_object_eq_iff` — two objects with the same keys read as the same value exactly when the last values under each
  key do.
-/

namespace Pinnokio.PyJson

/-- A float. -/
inductive PyFloat (F : Type) where
  | finite (x : F)
  | nan
  | inf (negative : Bool)
  deriving DecidableEq

/-- A key of a dictionary. -/
inductive Key (F : Type) where
  | none
  | bool (b : Bool)
  | int (n : Int)
  | float (x : PyFloat F)
  | str (s : String)
  | other
  deriving DecidableEq

/-- A value of the interpreter. -/
inductive PyValue (F O : Type) where
  | none
  | bool (b : Bool)
  | int (n : Int)
  | float (x : PyFloat F)
  | str (s : String)
  | list (items : List (PyValue F O))
  | tuple (items : List (PyValue F O))
  | dict (entries : List (Key F × PyValue F O))
  | object (o : O)

/-- The syntax of a JSON text, with the tokens `NaN` and `Infinity`. -/
inductive Json (F : Type) where
  | null
  | bool (b : Bool)
  | int (n : Int)
  | float (x : PyFloat F)
  | str (s : String)
  | array (items : List (Json F))
  | object (entries : List (String × Json F))

variable {F O : Type}

/-- The float is a number. -/
def PyFloat.isFinite : PyFloat F → Bool
  | finite _ => true
  | nan => false
  | inf _ => false

/-- The text of a float. -/
def PyFloat.text (repr : F → String) : PyFloat F → String
  | finite x => repr x
  | nan => "NaN"
  | inf false => "Infinity"
  | inf true => "-Infinity"

/-- The text of a key; `none` is the `TypeError` of another one. -/
def Key.text (repr : F → String) : Key F → Option String
  | none => some "null"
  | bool true => some "true"
  | bool false => some "false"
  | int n => some (toString n)
  | float x => some (x.text repr)
  | str s => some s
  | other => Option.none

/-- The value under a text. -/
def getStr (k : String) : List (Key F × PyValue F O) → Option (PyValue F O)
  | [] => Option.none
  | (.str s, v) :: es => if s = k then some v else getStr k es
  | _ :: es => getStr k es

/-- Replace the value under a text, or append one. -/
def setStr (k : String) (v : PyValue F O) : List (Key F × PyValue F O) → List (Key F × PyValue F O)
  | [] => [(.str k, v)]
  | (.str s, w) :: es => if s = k then (.str k, v) :: es else (.str s, w) :: setStr k v es
  | e :: es => e :: setStr k v es

/-- The key is a text. -/
def Key.isStr (k : String) : Key F → Bool
  | str s => s = k
  | _ => false

/-- Remove the value under a text. -/
def eraseStr (k : String) (es : List (Key F × PyValue F O)) : List (Key F × PyValue F O) :=
  es.filter fun e => !e.1.isStr k

/-! ### Writing -/

section Dumps

variable (repr : F → String) (default : O → Option (Json F))

mutual

/-- `json.dumps`; the hook says what the value it returns for an object is written as. -/
def dumps : PyValue F O → Option (Json F)
  | .none => some .null
  | .bool b => some (.bool b)
  | .int n => some (.int n)
  | .float x => some (.float x)
  | .str s => some (.str s)
  | .list items => (dumpsItems items).map .array
  | .tuple items => (dumpsItems items).map .array
  | .dict entries => (dumpsEntries entries).map .object
  | .object o => default o

/-- The items of a list. -/
def dumpsItems : List (PyValue F O) → Option (List (Json F))
  | [] => some []
  | v :: vs =>
      match dumps v, dumpsItems vs with
      | some j, some js => some (j :: js)
      | _, _ => none

/-- The entries of a dictionary. -/
def dumpsEntries : List (Key F × PyValue F O) → Option (List (String × Json F))
  | [] => some []
  | (k, v) :: es =>
      match k.text repr, dumps v, dumpsEntries es with
      | some t, some j, some js => some ((t, j) :: js)
      | _, _, _ => none

end

variable {repr default}

theorem dumpsItems_cons {v : PyValue F O} {vs : List (PyValue F O)} {js : List (Json F)} :
    dumpsItems repr default (v :: vs) = some js ↔
      ∃ j js', dumps repr default v = some j ∧ dumpsItems repr default vs = some js' ∧ js = j :: js' := by
  rw [dumpsItems]
  cases dumps repr default v with
  | none => simp
  | some j =>
      cases dumpsItems repr default vs with
      | none => simp
      | some js' => simp [eq_comm]

theorem dumpsEntries_cons {k : Key F} {v : PyValue F O} {es : List (Key F × PyValue F O)}
    {js : List (String × Json F)} : dumpsEntries repr default ((k, v) :: es) = some js ↔
      ∃ t j js', k.text repr = some t ∧ dumps repr default v = some j ∧ dumpsEntries repr default es = some js' ∧
        js = (t, j) :: js' := by
  rw [dumpsEntries]
  cases k.text repr with
  | none => simp
  | some t =>
      cases dumps repr default v with
      | none => simp
      | some j =>
          cases dumpsEntries repr default es with
          | none => simp
          | some js' => simp [eq_comm]

/-- The keys that are written. -/
theorem keys_dumpsEntries {es : List (Key F × PyValue F O)} {js : List (String × Json F)}
    (h : dumpsEntries repr default es = some js) :
    es.map (fun e => e.1.text repr) = js.map fun e => some e.1 := by
  induction es generalizing js with
  | nil =>
      cases h
      rfl
  | cons e es ih =>
      obtain ⟨k, v⟩ := e
      obtain ⟨t, j, js', hk, -, hes, rfl⟩ := dumpsEntries_cons.mp h
      rw [List.map_cons, List.map_cons, hk, ih hes]

end Dumps

/-! ### Reading -/

mutual

/-- `json.loads`: of the values under one key the last is kept. -/
def loads : Json F → Json F
  | .array items => .array (loadsItems items)
  | .object entries => .object (Dict.ofList (loadsEntries entries)).entries
  | j => j

/-- The items of an array. -/
def loadsItems : List (Json F) → List (Json F)
  | [] => []
  | j :: js => loads j :: loadsItems js

/-- The entries of an object. -/
def loadsEntries : List (String × Json F) → List (String × Json F)
  | [] => []
  | (k, j) :: es => (k, loads j) :: loadsEntries es

end

mutual

/-- The value of the interpreter that a text stands for, once it is read. -/
def ofJson : Json F → PyValue F O
  | .null => .none
  | .bool b => .bool b
  | .int n => .int n
  | .float x => .float x
  | .str s => .str s
  | .array items => .list (ofJsonItems items)
  | .object entries => .dict (ofJsonEntries entries)

/-- The items of an array. -/
def ofJsonItems : List (Json F) → List (PyValue F O)
  | [] => []
  | j :: js => ofJson j :: ofJsonItems js

/-- The entries of an object. -/
def ofJsonEntries : List (String × Json F) → List (Key F × PyValue F O)
  | [] => []
  | (k, j) :: es => (.str k, ofJson j) :: ofJsonEntries es

end

section OfJson

variable (repr : F → String) (default : O → Option (Json F))

mutual

/-- A value that was read is written as it was. -/
theorem dumps_ofJson : ∀ j : Json F, dumps repr default (ofJson j) = some j
  | .null => rfl
  | .bool _ => rfl
  | .int _ => rfl
  | .float _ => rfl
  | .str _ => rfl
  | .array items => by rw [ofJson, dumps, dumpsItems_ofJson items, Option.map_some]
  | .object entries => by rw [ofJson, dumps, dumpsEntries_ofJson entries, Option.map_some]

theorem dumpsItems_ofJson : ∀ js : List (Json F), dumpsItems repr default (ofJsonItems js) = some js
  | [] => rfl
  | j :: js => dumpsItems_cons.mpr ⟨j, js, dumps_ofJson j, dumpsItems_ofJson js, rfl⟩

theorem dumpsEntries_ofJson : ∀ es : List (String × Json F), dumpsEntries repr default (ofJsonEntries es) = some es
  | [] => rfl
  | (k, j) :: es => dumpsEntries_cons.mpr ⟨k, j, es, rfl, dumps_ofJson j, dumpsEntries_ofJson es, rfl⟩

end

end OfJson

theorem loadsEntries_eq_map (es : List (String × Json F)) : loadsEntries es = es.map fun e => (e.1, loads e.2) := by
  induction es with
  | nil => rfl
  | cons e es ih =>
      obtain ⟨k, j⟩ := e
      rw [loadsEntries, ih, List.map_cons]

theorem loadsItems_eq_map (js : List (Json F)) : loadsItems js = js.map loads := by
  induction js with
  | nil => rfl
  | cons j js ih => rw [loadsItems, ih, List.map_cons]

theorem keys_loadsEntries (es : List (String × Json F)) : (loadsEntries es).map Prod.fst = es.map Prod.fst := by
  induction es with
  | nil => rfl
  | cons e es ih =>
      obtain ⟨k, j⟩ := e
      rw [loadsEntries, List.map_cons, List.map_cons, ih]

/-- **Objects with the same keys** read as the same value exactly when the last values under each key do. -/
theorem loads_object_eq_iff {es es' : List (String × Json F)} (h : es.map Prod.fst = es'.map Prod.fst) :
    loads (.object es) = loads (.object es') ↔
      ∀ k, Dict.lastOf k (loadsEntries es) = Dict.lastOf k (loadsEntries es') := by
  rw [loads, loads, Json.object.injEq]
  exact Dict.ofList_eq_iff (by rw [keys_loadsEntries, keys_loadsEntries, h])

end Pinnokio.PyJson
