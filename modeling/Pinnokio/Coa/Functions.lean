import Pinnokio.Lib.Filing
import Pinnokio.Lib.Fresh
import Pinnokio.Lib.Interleaving
import Pinnokio.Lib.Numbers
import Pinnokio.Lib.Text

/-!
# The accounting functions of a company

The functions an account can have are kept in one document, a list for each nature.  A company gets its document as a
copy of a seed, the first time it is read; from then on functions are switched on and off, and custom ones are made,
edited, moved to another nature and deleted.  Every call reads the document, changes its copy and writes the whole
document back, so calls that overlap overwrite each other.

* `toggleFunction`, `createFunction`, `updateFunction`, `deleteFunction` — the changes, on the document that was read;
* `loadExisting`, `loadSeed` — the two ways the functions are loaded;
* `next` — the next read or write of a call, or its answer from the cache;
* `slugifyToCustomName_new` — the name of a new custom function is new;
* `toggleFunction_ok`, … — what a change that is not refused makes of the document.
-/

namespace Pinnokio.Coa

open Pinnokio.Filing Pinnokio.Fresh Pinnokio.Interleaving Pinnokio.Text

/-! ### The document -/

/-- An accounting function, as a document has it. -/
structure KlkFunction where
  name : Option String
  displayName : Option String
  definition : Option String
  active : Option Bool
  mandatory : Option Bool
  deriving DecidableEq

/-- The name a function is found under. -/
def KlkFunction.key (f : KlkFunction) : Option String :=
  match f.name with
  | none => none
  | some n => if n = "" then none else some n

/-- `function_name.startswith("custom_")`. -/
def isCustomName (s : String) : Bool := startsWith s "custom_"

def KlkFunction.isCustom (f : KlkFunction) : Bool := f.key.elim false isCustomName

/-- A nature with its display name and its functions. -/
abbrev Nature := Drawer (Option String) KlkFunction

/-- The map `natures` of the document `klk_function_name_definition`. -/
abbrev Doc := Dict String Nature

/-- `VALID_NATURES`. -/
def validNatures : List String := ["ASSET", "LIABILITY", "PROFIT_AND_LOSS"]

/-- `NATURE_DISPLAY_NAMES_FALLBACK`. -/
def natureDisplayNamesFallback : List (String × String) :=
  [("ASSET", "Assets"), ("LIABILITY", "Liabilities"), ("PROFIT_AND_LOSS", "Profit and Loss"),
    ("OFF_BALANCE_SHEET", "Off-Balance Sheet")]

/-- The display name of a nature that is made. -/
def fallbackName (nature : String) : String := (Dict.getList nature natureDisplayNamesFallback).getD nature

/-! ### Replies -/

/-- An account, as the page has it. -/
structure Account where
  accountId : String
  accountNumber : String
  accountName : String
  accountNature : String
  accountFunction : String
  isactive : Bool
  deriving DecidableEq

/-- What a load keeps in the cache: the functions and the accounts have one key. -/
inductive Result where
  | accounts (accounts : List Account)
  | functions (functions : List (KlkFunction × String)) (natureDisplayNames : List (String × String))
  deriving DecidableEq

/-- `{"code": …, "message": …}`. -/
structure Failure where
  code : String
  message : String
  deriving DecidableEq

/-- The fields of an update; `none` is a field that is not given. -/
structure Changes where
  displayName : Option String
  definition : Option String
  nature : Option String
  active : Option Bool
  deriving DecidableEq

inductive Request where
  | toggle (functionName : String) (active : Bool)
  | create (displayName nature definition : String) (active : Bool)
  | update (functionName : String) (changes : Changes)
  | delete (functionName : String)
  | load
  deriving DecidableEq

inductive Reply where
  | toggled (functionName : String) (active : Bool)
  | saved (function : KlkFunction) (nature : String)
  | deleted (functionName : String)
  | loaded (functions : List (KlkFunction × String)) (natureDisplayNames : List (String × String)) (fromSeed : Bool)
  /-- What is kept is answered as it is, with the result under `data` once more. -/
  | cached (kept : Result)
  deriving DecidableEq

/-! ### Reading a document -/

/-- The functions of a nature of the seed: a list, or a dictionary by name. -/
inductive Functions where
  | list (fs : List KlkFunction)
  | dict (fs : List (String × KlkFunction))

structure SeedNature where
  displayName : Option String
  functions : Functions

abbrev Seed := List (String × SeedNature)

/-- A function of a list: `func_copy`. -/
def ofListEntry (f : KlkFunction) : KlkFunction :=
  { f with
    displayName := some (match f.displayName with
      | some s => if s = "" then f.name.getD "Unknown" else s
      | none => f.name.getD "Unknown")
    active := some (f.active.getD true) }

/-- A function of a dictionary. -/
def ofDictEntry (e : String × KlkFunction) : KlkFunction where
  name := some e.1
  displayName := some (e.2.displayName.getD e.1)
  definition := some (e.2.definition.getD "")
  active := some (e.2.active.getD true)
  mandatory := some (e.2.mandatory.getD false)

def Functions.extracted : Functions → List KlkFunction
  | .list fs => fs.map ofListEntry
  | .dict fs => fs.map ofDictEntry

/-- `_extract_functions_and_natures`. -/
def extractFunctionsAndNatures (natures : Seed) : List (KlkFunction × String) × List (String × String) :=
  (natures.flatMap fun e => e.2.functions.extracted.map fun f => (f, e.1),
    natures.map fun e => (e.1, e.2.displayName.getD e.1))

/-- The natures of a document. -/
def Doc.natures (d : Doc) : Seed := d.entries.map fun e => (e.1, ⟨e.2.label, .list e.2.items⟩)

/-- The nature a function is copied to. -/
def homeNature (nature : String) : String :=
  let nk := orElse (strip (orElse nature "PROFIT_AND_LOSS")) "PROFIT_AND_LOSS"
  if nk ∈ natureDisplayNamesFallback.map Prod.fst then nk else "PROFIT_AND_LOSS"

/-- `_build_minimal_natures_structure`. -/
def buildMinimalNaturesStructure (functions : List (KlkFunction × String)) (natureNames : List (String × String)) :
    Doc :=
  functions.foldl (fun d f => put d (homeNature f.2) none { f.1 with active := some (f.1.active.getD true) })
    (Dict.ofList (natureDisplayNamesFallback.map fun e =>
      (e.1, ⟨some ((Dict.getList e.1 natureNames).getD e.2), []⟩)))

/-- The document that is made from the seed. -/
def seedCopy (seed : Seed) : Doc :=
  buildMinimalNaturesStructure (extractFunctionsAndNatures seed).1 (extractFunctionsAndNatures seed).2

/-! ### Changing a document -/

/-- `doc and doc.get("natures")`. -/
def existing : Option Doc → Except Failure Doc
  | none => .error ⟨"NO_FUNCTIONS", "Functions document not found"⟩
  | some d => if d.isEmpty then .error ⟨"NO_FUNCTIONS", "Functions document not found"⟩ else .ok d

def notFound (functionName : String) : Failure := ⟨"NOT_FOUND", "Function " ++ functionName ++ " not found"⟩

/-- `toggle_function`, on the document it has read. -/
def toggleFunction (doc : Option Doc) (functionName : String) (active : Bool) : Except Failure (Doc × Reply) :=
  if functionName = "" then .error ⟨"INVALID_NAME", "Function name required"⟩
  else do
    let d ← existing doc
    match locate KlkFunction.key d functionName with
    | none => .error (notFound functionName)
    | some _ =>
        .ok (change KlkFunction.key d functionName fun f => { f with active := some active },
          .toggled functionName active)

section Names

/- `unicodedata.normalize("NFKD", s)`. -/
variable (nfkd : String → String)

/-- The letters and digits of a text, `_` for every run of others: what `re.sub` makes of it. -/
def slug (s : String) : String :=
  let ascii := (nfkd s).toList.filter fun c => c.toNat < 128
  let marked := (ascii.map Char.toLower).map fun c => if c.isDigit ∨ ('a' ≤ c ∧ c ≤ 'z') then c else '_'
  String.ofList (((collapseChars '_' marked).dropWhile (· = '_')).reverse.dropWhile (· = '_')).reverse

/-- The names that are tried: `base`, `base_2`, `base_3`, … -/
def candidate (base : String) (i : ℕ) : String := if i = 0 then base else base ++ ("_" ++ toString (i + 1))

/-- The first name that is tried. -/
def baseName (displayName : String) : String :=
  let raw := strip displayName
  let base := if raw = "" then "custom_function" else orElse (slug nfkd raw) "custom_function"
  if isCustomName base then base else "custom_" ++ base

/-- `_slugify_to_custom_name`. -/
def slugifyToCustomName (displayName : String) (existingNames : List String) : String :=
  fresh (candidate (baseName nfkd displayName)) existingNames

/-- `create_function`, on the document it has read. -/
def createFunction (doc : Option Doc) (displayName nature definition : String) (active : Bool) :
    Except Failure (Doc × Reply) :=
  let displayName := strip displayName
  let nature := strip (orElse nature "PROFIT_AND_LOSS")
  if displayName = "" then .error ⟨"INVALID_NAME", "Display name required"⟩
  else if nature ∉ validNatures then .error ⟨"INVALID_NATURE", "Invalid nature: " ++ nature⟩
  else do
    let d ← existing doc
    let newName := slugifyToCustomName nfkd displayName (names KlkFunction.key d)
    let newFunction : KlkFunction := ⟨some newName, some displayName, some definition, some active, none⟩
    .ok (put d nature (some (fallbackName nature)) newFunction, .saved newFunction nature)

end Names

/-- The function after an update of its fields. -/
def Changes.apply (c : Changes) (f : KlkFunction) : KlkFunction where
  name := f.name
  displayName := c.displayName.or f.displayName
  definition := c.definition.or f.definition
  active := c.active.or f.active
  mandatory := f.mandatory

/-- `nature or old_nature`. -/
def Changes.natureOr (c : Changes) (old : String) : String := orElse (c.nature.getD "") old

/-- `update_function`, on the document it has read. -/
def updateFunction (doc : Option Doc) (functionName : String) (changes : Changes) : Except Failure (Doc × Reply) :=
  let functionName := strip functionName
  if functionName = "" then .error ⟨"INVALID_NAME", "Function name required"⟩
  else if !isCustomName functionName then .error ⟨"NOT_CUSTOM", "Only custom functions can be edited"⟩
  else if changes.nature.getD "" ≠ "" ∧ changes.nature.getD "" ∉ validNatures then
    .error ⟨"INVALID_NATURE", "Invalid nature: " ++ changes.nature.getD ""⟩
  else do
    let d ← existing doc
    match locate KlkFunction.key d functionName with
    | none => .error (notFound functionName)
    | some (oldNature, f) =>
        let nature := changes.natureOr oldNature
        let d' :=
          if nature = oldNature then change KlkFunction.key d functionName changes.apply
          else put (take KlkFunction.key d functionName) nature (some (fallbackName nature)) (changes.apply f)
        .ok (d', .saved (changes.apply f) nature)

/-- `delete_function`, on the document it has read. -/
def deleteFunction (doc : Option Doc) (functionName : String) : Except Failure (Doc × Reply) :=
  let functionName := strip functionName
  if functionName = "" then .error ⟨"INVALID_NAME", "Function name required"⟩
  else if !isCustomName functionName then .error ⟨"NOT_CUSTOM", "Only custom functions can be deleted"⟩
  else do
    let d ← existing doc
    match locate KlkFunction.key d functionName with
    | none => .error (notFound functionName)
    | some _ => .ok (take KlkFunction.key d functionName, .deleted functionName)

/-- What `load_functions` answers from a document that has functions. -/
def loadExisting (doc : Option Doc) : Option Reply :=
  match doc with
  | none => none
  | some d =>
      match extractFunctionsAndNatures d.natures with
      | ([], _) => none
      | (fs, natureNames) => some (.loaded fs natureNames false)

def seedPath : String := "settings_param/coa_mapping_settings/coa_model/english"

/-- What `load_functions` makes of the seed. -/
def loadSeed (seed : Option Seed) : Except Failure (Doc × Reply) :=
  match seed with
  | none => .error ⟨"SEED_NOT_FOUND", "Seed document not found: " ++ seedPath⟩
  | some s =>
      match extractFunctionsAndNatures s with
      | ([], _) => .error ⟨"NO_FUNCTIONS", "No functions found in seed"⟩
      | (fs, natureNames) => .ok (buildMinimalNaturesStructure fs natureNames, .loaded fs natureNames true)

/-! ### Calls side by side -/

/-- A call, with what goes wrong in it: a read that raises is a document that is not there; a write that raises ends
the call with the text of the exception.  A load that is not forced may find something in the cache. -/
structure Call where
  request : Request
  readFails : Bool
  seedFails : Bool
  writeFails : Option String
  found : Option Result

/-- Where a call is.  `writing` remembers what the call has read. -/
inductive Pc where
  | start (c : Call)
  | seeding (c : Call) (read : Option Doc)
  | writing (c : Call) (read : Option Doc) (doc : Doc) (reply : Reply)
  | done (reply : Except Failure Reply)

/-- The document, and the requests it has answered, with the replies: a load when it reads, a change when it writes. -/
structure Store where
  doc : Option Doc
  answered : List (Request × Reply)

/-- The code of the reply when an exception ends the call. -/
def Request.errorCode : Request → String
  | .toggle .. => "TOGGLE_ERROR"
  | .create .. => "CREATE_ERROR"
  | .update .. => "UPDATE_ERROR"
  | .delete .. => "DELETE_ERROR"
  | .load => "FUNCTIONS_LOAD_ERROR"

section Calls

variable (nfkd : String → String) (seed : Option Seed)

/-- What a call that changes the document makes of the one it has read. -/
def answer (doc : Option Doc) : Request → Except Failure (Doc × Reply)
  | .toggle functionName active => toggleFunction doc functionName active
  | .create displayName nature definition active => createFunction nfkd doc displayName nature definition active
  | .update functionName changes => updateFunction doc functionName changes
  | .delete functionName => deleteFunction doc functionName
  | .load => loadSeed seed

/-- The next read or write of a call; what is in the cache is answered without a read. -/
def next (s : Store) : Pc → Option (Store × Pc)
  | .start c =>
      let read := if c.readFails then none else s.doc
      match c.request, (c.found.map Reply.cached).or (loadExisting read) with
      | .load, some reply => some ({ s with answered := s.answered ++ [(.load, reply)] }, .done (.ok reply))
      | .load, none => some (s, .seeding c read)
      | r, _ =>
          match answer nfkd seed read r with
          | .error e => some (s, .done (.error e))
          | .ok (d, reply) => some (s, .writing c read d reply)
  | .seeding c read =>
      match loadSeed (if c.seedFails then none else seed) with
      | .error e => some (s, .done (.error e))
      | .ok (d, reply) => some (s, .writing c read d reply)
  | .writing c _ d reply =>
      match c.writeFails with
      | some e => some (s, .done (.error ⟨c.request.errorCode, e⟩))
      | none => some (⟨some d, s.answered ++ [(c.request, reply)]⟩, .done (.ok reply))
  | .done _ => none

/-- The calls at the start. -/
def opening (doc : Option Doc) (calls : List Call) : Pool Store Pc := ⟨⟨doc, []⟩, calls.map .start⟩

end Calls

/-! ### Names -/

theorem isCustomName_append {s : String} (h : isCustomName s = true) (t : String) : isCustomName (s ++ t) = true := by
  rw [isCustomName, startsWith, List.isPrefixOf_iff_prefix] at h ⊢
  rw [String.toList_append]
  exact h.trans (List.prefix_append _ _)

theorem isCustomName_prefix (t : String) : isCustomName ("custom_" ++ t) = true :=
  isCustomName_append (by decide) t

theorem ne_empty_of_isCustomName {s : String} (h : isCustomName s = true) : s ≠ "" := by
  rintro rfl
  exact absurd h (by decide)

theorem isCustomName_baseName (nfkd : String → String) (displayName : String) :
    isCustomName (baseName nfkd displayName) = true := by
  unfold baseName
  dsimp only
  split_ifs with h
  all_goals first
    | assumption
    | exact isCustomName_prefix _

theorem candidate_injective (base : String) : Function.Injective (candidate base) := by
  have hlonger : ∀ i, base ≠ base ++ ("_" ++ toString (i + 1)) := by
    intro i h
    have hlen := congrArg (fun s => s.toList.length) h
    simp only [String.toList_append, List.length_append] at hlen
    have hone : ("_" : String).toList.length = 1 := rfl
    omega
  intro i j h
  unfold candidate at h
  by_cases hi : i = 0 <;> by_cases hj : j = 0
  · rw [hi, hj]
  · rw [if_pos hi, if_neg hj] at h
    exact absurd h (hlonger j)
  · rw [if_neg hi, if_pos hj] at h
    exact absurd h.symm (hlonger i)
  · rw [if_neg hi, if_neg hj] at h
    have hnum := append_left_cancel (append_left_cancel h)
    have hint := congrArg Numbers.int? hnum
    rw [Numbers.int?_toString, Numbers.int?_toString] at hint
    have heq := Int.ofNat.inj (Option.some.inj hint)
    omega

theorem slugifyToCustomName_new (nfkd : String → String) (displayName : String) (existingNames : List String) :
    slugifyToCustomName nfkd displayName existingNames ∉ existingNames :=
  not_mem_fresh (candidate_injective _) existingNames

theorem isCustomName_slugify (nfkd : String → String) (displayName : String) (existingNames : List String) :
    isCustomName (slugifyToCustomName nfkd displayName existingNames) = true := by
  obtain ⟨i, hi⟩ := fresh_eq (candidate (baseName nfkd displayName)) existingNames
  rw [slugifyToCustomName, hi, candidate]
  split
  · exact isCustomName_baseName nfkd displayName
  · exact isCustomName_append (isCustomName_baseName nfkd displayName) _

theorem key_eq_some_iff {f : KlkFunction} {n : String} : f.key = some n ↔ f.name = some n ∧ n ≠ "" := by
  unfold KlkFunction.key
  cases f.name with
  | none => simp
  | some m =>
      show (if m = "" then none else some m) = some n ↔ _
      by_cases hm : m = ""
      · rw [hm, if_pos rfl]
        constructor
        · intro h
          cases h
        · rintro ⟨h, hne⟩
          exact absurd (Option.some.inj h).symm hne
      · rw [if_neg hm]
        constructor
        · rintro h
          cases h
          exact ⟨rfl, hm⟩
        · exact fun h => h.1

theorem isCustom_of_key {f : KlkFunction} {n : String} (h : f.key = some n) : f.isCustom = isCustomName n := by
  rw [KlkFunction.isCustom, h]
  rfl

theorem key_congr {f g : KlkFunction} (h : f.name = g.name) : f.key = g.key := by
  rw [KlkFunction.key, KlkFunction.key, h]

/-! ### What a call does -/

theorem existing_eq_ok {doc : Option Doc} {d : Doc} (h : existing doc = .ok d) : doc = some d := by
  unfold existing at h
  split at h
  · cases h
  · split at h
    · cases h
    · cases h
      rfl

theorem bind_existing {A : Type} {doc : Option Doc} {f : Doc → Except Failure A} {r : A}
    (h : existing doc >>= f = .ok r) : ∃ d, doc = some d ∧ f d = .ok r := by
  cases he : existing doc with
  | error e =>
      rw [he] at h
      cases h
  | ok d =>
      rw [he] at h
      exact ⟨d, existing_eq_ok he, h⟩

theorem toggleFunction_ok {doc : Option Doc} {n : String} {active : Bool} {d' : Doc} {reply : Reply}
    (h : toggleFunction doc n active = .ok (d', reply)) :
    ∃ d q, doc = some d ∧ locate KlkFunction.key d n = some q ∧
      d' = change KlkFunction.key d n (fun f => { f with active := some active }) ∧ reply = .toggled n active := by
  unfold toggleFunction at h
  split at h
  · cases h
  · obtain ⟨d, hd, h⟩ := bind_existing h
    split at h
    · cases h
    · rename_i q hq
      cases h
      exact ⟨d, q, hd, hq, rfl, rfl⟩

theorem createFunction_ok {nfkd : String → String} {doc : Option Doc} {displayName nature definition : String}
    {active : Bool} {d' : Doc} {reply : Reply}
    (h : createFunction nfkd doc displayName nature definition active = .ok (d', reply)) :
    ∃ d n, doc = some d ∧ isCustomName n = true ∧ n ∉ names KlkFunction.key d ∧
      d' = put d (strip (orElse nature "PROFIT_AND_LOSS"))
        (some (fallbackName (strip (orElse nature "PROFIT_AND_LOSS"))))
        ⟨some n, some (strip displayName), some definition, some active, none⟩ ∧
      reply = .saved ⟨some n, some (strip displayName), some definition, some active, none⟩
        (strip (orElse nature "PROFIT_AND_LOSS")) := by
  unfold createFunction at h
  dsimp only at h
  split at h
  · cases h
  · split at h
    · cases h
    · obtain ⟨d, hd, h⟩ := bind_existing h
      cases h
      exact ⟨d, _, hd, isCustomName_slugify _ _ _, slugifyToCustomName_new _ _ _, rfl, rfl⟩

theorem updateFunction_ok {doc : Option Doc} {name : String} {c : Changes} {d' : Doc} {reply : Reply}
    (h : updateFunction doc name c = .ok (d', reply)) :
    ∃ d k f, doc = some d ∧ isCustomName (strip name) = true ∧
      locate KlkFunction.key d (strip name) = some (k, f) ∧
      d' = (if c.natureOr k = k then change KlkFunction.key d (strip name) c.apply
        else put (take KlkFunction.key d (strip name)) (c.natureOr k) (some (fallbackName (c.natureOr k)))
          (c.apply f)) ∧
      reply = .saved (c.apply f) (c.natureOr k) := by
  unfold updateFunction at h
  dsimp only at h
  split at h
  · cases h
  · split at h
    · cases h
    · rename_i hcustom
      split at h
      · cases h
      · obtain ⟨d, hd, h⟩ := bind_existing h
        split at h
        · cases h
        · rename_i k f hq
          cases h
          exact ⟨d, k, f, hd, by simpa using hcustom, hq, rfl, rfl⟩

theorem deleteFunction_ok {doc : Option Doc} {name : String} {d' : Doc} {reply : Reply}
    (h : deleteFunction doc name = .ok (d', reply)) :
    ∃ d q, doc = some d ∧ isCustomName (strip name) = true ∧ locate KlkFunction.key d (strip name) = some q ∧
      d' = take KlkFunction.key d (strip name) ∧ reply = .deleted (strip name) := by
  unfold deleteFunction at h
  dsimp only at h
  split at h
  · cases h
  · split at h
    · cases h
    · rename_i hcustom
      obtain ⟨d, hd, h⟩ := bind_existing h
      split at h
      · cases h
      · rename_i q hq
        cases h
        exact ⟨d, q, hd, by simpa using hcustom, hq, rfl, rfl⟩

theorem loadSeed_ok {seed : Option Seed} {d : Doc} {reply : Reply} (h : loadSeed seed = .ok (d, reply)) :
    ∃ s, seed = some s ∧ d = seedCopy s ∧
      reply = .loaded (extractFunctionsAndNatures s).1 (extractFunctionsAndNatures s).2 true := by
  unfold loadSeed at h
  split at h
  · cases h
  · rename_i s
    split at h
    · cases h
    · rename_i fs natureNames hs
      cases h
      refine ⟨s, rfl, ?_, ?_⟩
      · rw [seedCopy, hs]
      · rw [hs]

end Pinnokio.Coa
