import Mathlib.Data.List.Sort
import Pinnokio.Cache.UnifiedCache
import Pinnokio.Coa.Functions
import Pinnokio.Lib.OwnWrites

/-!
# The page of the chart of accounts

A user's page is kept under a key of its own for an hour.  Without it, the accounts and the functions are loaded side
by side; each of the two loads keeps its result for a minute or five, both under one key of the user, and what it
finds there is wrapped once more than the page expects, so that a page that is put together from it is empty.  A
change by the user deletes both keys.

* `accounts_functions_key` — the two loads share their key;
* `fullData_reply` — what a page is made of;
* `page_shows_own_changes` — a page shows the documents as they were at some point since the user's own last change,
  or it is empty, and this only after one of the loads was called alone.
-/

namespace Pinnokio.Coa

open Pinnokio.Runs Pinnokio.OwnWrites Pinnokio.Text

/-! ### Accounts -/

/-- What `isactive` can hold. -/
inductive IsActive where
  | text (s : String)
  | flag (b : Bool)
  | number (n : ℤ)
  | other

/-- An account, as the document `coa` has it. -/
structure AccountData where
  accountNumber : Option String
  accountName : Option String
  klkAccountNature : Option String
  klkAccountFunction : Option String
  accountType : Option String
  isactive : Option IsActive

def IsActive.holds : IsActive → Bool
  | .text s => lower s ∈ ["true", "1", "yes", "oui"]
  | .flag b => b
  | .number n => n ≠ 0
  | .other => true

def AccountData.account (accountId : String) (data : AccountData) : Account where
  accountId := accountId
  accountNumber := data.accountNumber.getD ""
  accountName := data.accountName.getD ""
  accountNature := data.klkAccountNature.getD ""
  accountFunction := data.klkAccountFunction.getD (data.accountType.getD "")
  isactive := (data.isactive.map IsActive.holds).getD true

/-- The order of the accounts: numbers first, by their value; then the other texts; active before inactive. -/
def accountLe (a b : Account) : Prop :=
  match Numbers.int? a.accountNumber, Numbers.int? b.accountNumber with
  | some m, some n => m < n ∨ m = n ∧ (b.isactive = true → a.isactive = true)
  | some _, none => True
  | none, some _ => False
  | none, none => a.accountNumber < b.accountNumber ∨
      a.accountNumber = b.accountNumber ∧ (b.isactive = true → a.isactive = true)

instance : DecidableRel accountLe := fun a b => by
  unfold accountLe
  cases Numbers.int? a.accountNumber <;> cases Numbers.int? b.accountNumber <;>
    exact inferInstance

/-- The accounts of the document by their ids. -/
abbrev Chart := List (String × AccountData)

/-- The accounts of the page: `_sort_accounts`. -/
def loadedAccounts (chart : Option Chart) : List Account :=
  ((chart.getD []).map fun e => e.2.account e.1).insertionSort accountLe

/-! ### The page -/

structure Page where
  accounts : List Account
  totalAccounts : ℕ
  functions : List (KlkFunction × String)
  natureDisplayNames : List (String × String)
  deriving DecidableEq

/-- What a load answers under `data`: its result, or what is kept, which has the result under `data` once more. -/
inductive Data where
  | plain (r : Result)
  | wrapped (r : Result)
  deriving DecidableEq

/-- The page from the answers of the two loads; the one for the functions may have none. -/
def pageOf (accounts : Data) (functions : Option Data) : Page where
  accounts :=
    match accounts with
    | .plain (.accounts as) => as
    | _ => []
  totalAccounts :=
    match accounts with
    | .plain (.accounts as) => as.length
    | _ => 0
  functions :=
    match functions with
    | some (.plain (.functions fs _)) => fs
    | _ => []
  natureDisplayNames :=
    match functions with
    | some (.plain (.functions _ natureNames)) => natureNames
    | _ => natureDisplayNamesFallback

/-- A page without accounts and functions. -/
def emptyPage : Page := ⟨[], 0, [], natureDisplayNamesFallback⟩

/-! ### The caches -/

/-- A value under a key, and when the key expires. -/
structure Entry (V : Type) where
  value : V
  expiresAt : ℕ

/-- The documents of the company and the keys of its users, at a time in seconds. -/
structure World where
  now : ℕ
  chart : Option Chart
  functions : Option Doc
  /-- `business:{uid}:{company_id}:coa`. -/
  shared : Dict String (Entry Result)
  /-- `company:{uid}:{company_id}:coa`. -/
  pages : Dict String (Entry Page)

/-- The value of a key that has not expired. -/
def live {V : Type} (d : Dict String (Entry V)) (uid : String) (now : ℕ) : Option V :=
  (d.get? uid).bind fun e => if now < e.expiresAt then some e.value else none

/-- `TTL_COA_ACCOUNTS`, `TTL_COA_FUNCTIONS`, `RedisTTL.COMPANY_CONTEXT`. -/
def ttlCoaAccounts : ℕ := 60
def ttlCoaFunctions : ℕ := 300
def ttlCompanyContext : ℕ := 3600

/-- The functions that are loaded, with the document that is made if there is none. -/
def functionsLoaded (seed : Option Seed) (doc : Option Doc) : Option Doc × Option Result :=
  match loadExisting doc with
  | some (.loaded fs natureNames _) => (doc, some (.functions fs natureNames))
  | _ =>
      match loadSeed seed with
      | .ok (d, .loaded fs natureNames _) => (some d, some (.functions fs natureNames))
      | _ => (doc, none)

section Handlers

variable (nfkd : String → String) (seed : Option Seed)

/-- What a load finds in the cache. -/
def cached (w : World) (uid : String) (forceRefresh : Bool) : Option Result :=
  if forceRefresh then none else live w.shared uid w.now

/-- `load_accounts`, from what it has found in the cache. -/
def loadAccounts (w : World) (uid : String) : Option Result → World × Data
  | some r => (w, .wrapped r)
  | none =>
      match w.chart with
      | none => (w, .plain (.accounts []))
      | some chart =>
          let result := Result.accounts (loadedAccounts (some chart))
          ({ w with shared := w.shared.set uid ⟨result, w.now + ttlCoaAccounts⟩ }, .plain result)

/-- `load_functions`, from what it has found in the cache. -/
def loadFunctions (w : World) (uid : String) : Option Result → World × Option Data
  | some r => (w, some (.wrapped r))
  | none =>
      match functionsLoaded seed w.functions with
      | (doc, none) => ({ w with functions := doc }, none)
      | (doc, some result) =>
          ({ w with functions := doc, shared := w.shared.set uid ⟨result, w.now + ttlCoaFunctions⟩ },
            some (.plain result))

/-- The two loads side by side.  They start together, and it is assumed that both have asked the cache before one of
them has read its document and writes there; `accountsLast` says which of them writes last. -/
def loadBoth (w : World) (uid : String) (found : Option Result) (accountsLast : Bool) : World × Page :=
  if accountsLast then
    let (w, fs) := loadFunctions seed w uid found
    let (w, as) := loadAccounts w uid found
    (w, pageOf as fs)
  else
    let (w, as) := loadAccounts w uid found
    let (w, fs) := loadFunctions seed w uid found
    (w, pageOf as fs)

/-- `full_data`. -/
def fullData (w : World) (uid : String) (forceRefresh accountsLast : Bool) : World × Page :=
  match if forceRefresh then none else live w.pages uid w.now with
  | some page => (w, page)
  | none =>
      let (w, page) := loadBoth seed w uid (cached w uid forceRefresh) accountsLast
      ({ w with pages := w.pages.set uid ⟨page, w.now + ttlCompanyContext⟩ }, page)

/-- `_populate_coa_cache`, when the user opens the dashboard. -/
def populateCoaCache (w : World) (uid : String) (accountsLast : Bool) : World :=
  let (w, page) := fullData seed w uid false accountsLast
  { w with pages := w.pages.set uid ⟨page, w.now + ttlCompanyContext⟩ }

/-- `invalidate_cache` for `coa`, then `_invalidate_level2_cache`. -/
def invalidate (w : World) (uid : String) : World :=
  { w with shared := w.shared.erase uid, pages := w.pages.erase uid }

/-- The calls.  A change of the accounts (`save_changes`, `sync_from_erp`, `create_account`, `update_account`) is given
by what it makes of their document. -/
inductive Op where
  | fullData (uid : String) (forceRefresh accountsLast : Bool)
  | populate (uid : String) (accountsLast : Bool)
  | loadAccounts (uid : String) (forceRefresh : Bool)
  | loadFunctions (uid : String) (forceRefresh : Bool)
  | changeFunctions (uid : String) (r : Request) (hr : r ≠ .load)
  | changeAccounts (uid : String) (f : Option Chart → Chart)
  | dropShared (uid : String)
  | wait (seconds : ℕ)

def step (w : World) : Op → World
  | .fullData uid forceRefresh accountsLast => (fullData seed w uid forceRefresh accountsLast).1
  | .populate uid accountsLast => populateCoaCache seed w uid accountsLast
  | .loadAccounts uid forceRefresh => (loadAccounts w uid (cached w uid forceRefresh)).1
  | .loadFunctions uid forceRefresh => (loadFunctions seed w uid (cached w uid forceRefresh)).1
  | .changeFunctions uid r _ =>
      match answer nfkd seed w.functions r with
      | .error _ => w
      | .ok (d, _) => invalidate { w with functions := some d } uid
  | .changeAccounts uid f => invalidate { w with chart := some (f w.chart) } uid
  | .dropShared uid => { w with shared := w.shared.erase uid }
  | .wait seconds => { w with now := w.now + seconds }

/-- A change by the user that is not refused. -/
def changes (uid : String) (w : World) : Op → Bool
  | .changeFunctions u r _ =>
      u = uid && match answer nfkd seed w.functions r with
        | .error _ => false
        | .ok _ => true
  | .changeAccounts u _ => u = uid
  | _ => false

/-- One of the two loads, called alone by the user. -/
def Op.loadsAlone (uid : String) : Op → Bool
  | .loadAccounts u _ => u = uid
  | .loadFunctions u _ => u = uid
  | _ => false

/-- The page of the documents as they are. -/
def currentPage (w : World) : Page :=
  pageOf (.plain (.accounts (loadedAccounts w.chart))) ((functionsLoaded seed w.functions).2.map .plain)

/-- The page shows the documents as they were at some point since the user's own last change. -/
abbrev ShowsOwnChanges (w₀ : World) (uid : String) (ops : List Op) (page : Page) : Prop :=
  SeenSince (step nfkd seed) (changes nfkd seed uid) (currentPage seed) w₀ ops page

end Handlers

/-- Both loads keep their result under one key, which the deletion of `coa` deletes. -/
theorem accounts_functions_key {lower : String → String} (hcoa : lower "coa" = "coa")
    (haccounts : lower "accounts" = "accounts") (hfunctions : lower "functions" = "functions")
    (uid companyId : String) :
    ∀ subType ∈ [some "accounts", some "functions", none],
      Cache.buildCacheKey lower ⟨uid, companyId, "coa", subType⟩ = Cache.buildBusinessKey uid companyId "coa" none := by
  intro subType hs
  have hitem : ∀ s, Cache.itemOf lower ⟨uid, companyId, "coa", s⟩ = none := by
    intro s
    show (if lower "coa" ∈ Cache.itemLevelCacheTypes then Cache.given s else none) = none
    rw [hcoa]
    rfl
  have hlevel : Cache.resolveCacheLevel lower "coa" subType = (.business, "coa") := by
    unfold Cache.resolveCacheLevel
    rw [hcoa]
    simp only [List.mem_cons, List.not_mem_nil, or_false] at hs
    rcases hs with rfl | rfl | rfl
    · rw [show (Cache.given (some "accounts")).map lower = some "accounts" from congrArg some haccounts]
      rfl
    · rw [show (Cache.given (some "functions")).map lower = some "functions" from congrArg some hfunctions]
      rfl
    · rfl
  unfold Cache.buildCacheKey
  dsimp only
  rw [hlevel]
  dsimp only
  rw [hitem]

/-! ### Serving a page -/

section

variable {nfkd : String → String} {seed : Option Seed} {w w' w'' : World} {uid : String} {page : Page}

theorem live_eq_some {V : Type} {d : Dict String (Entry V)} {now : ℕ} {v : V} (h : live d uid now = some v) :
    ∃ e, d.get? uid = some e ∧ now < e.expiresAt ∧ e.value = v := by
  obtain ⟨e, he, hv⟩ := Option.bind_eq_some_iff.mp h
  split at hv
  · next hlt => exact ⟨e, he, hlt, Option.some.inj hv⟩
  · cases hv

theorem le_of_live_eq_none {V : Type} {d : Dict String (Entry V)} {now : ℕ} (h : live d uid now = none) {e : Entry V}
    (he : d.get? uid = some e) : e.expiresAt ≤ now := by
  rw [live, he] at h
  by_contra hlt
  rw [Option.bind_some, if_pos (by omega)] at h
  cases h

/-- What a load may change: the documents of the functions, and the user's key, for an hour at most. -/
structure Loaded (w w' : World) (uid : String) : Prop where
  now_eq : w'.now = w.now
  pages_eq : w'.pages = w.pages
  other : ∀ u, u ≠ uid → w'.shared.get? u = w.shared.get? u
  own : ∀ e, w'.shared.get? uid = some e → w.shared.get? uid = some e ∨ e.expiresAt ≤ w.now + ttlCompanyContext

theorem Loaded.refl (w : World) (uid : String) : Loaded w w uid := ⟨rfl, rfl, fun _ _ => rfl, fun _ h => Or.inl h⟩

theorem Loaded.trans (h : Loaded w w' uid) (h' : Loaded w' w'' uid) : Loaded w w'' uid where
  now_eq := h'.now_eq.trans h.now_eq
  pages_eq := h'.pages_eq.trans h.pages_eq
  other := fun u hu => (h'.other u hu).trans (h.other u hu)
  own := fun e he => by
    rcases h'.own e he with he | hle
    · exact h.own e he
    · rw [h.now_eq] at hle
      exact Or.inr hle

/-- A result is kept. -/
theorem loaded_set (w : World) (uid : String) (functions : Option Doc) (r : Result) {ttl : ℕ}
    (h : ttl ≤ ttlCompanyContext) :
    Loaded w { w with functions := functions, shared := w.shared.set uid ⟨r, w.now + ttl⟩ } uid := by
  refine ⟨rfl, rfl, fun u hu => ?_, fun e he => ?_⟩
  · show (w.shared.set uid _).get? u = _
    rw [Dict.get?_set, if_neg hu]
  · rw [show (w.shared.set uid _).get? uid = some _ from (Dict.get?_set _ _ _ _).trans (if_pos rfl)] at he
    cases he
    exact Or.inr (Nat.add_le_add_left h w.now)

theorem loaded_accounts (w : World) (uid : String) (found : Option Result) :
    Loaded w (loadAccounts w uid found).1 uid := by
  cases found with
  | some r => exact Loaded.refl w uid
  | none =>
      unfold loadAccounts
      dsimp only
      split
      · exact Loaded.refl w uid
      · exact loaded_set w uid w.functions _ (by decide)

theorem loaded_functions (seed : Option Seed) (w : World) (uid : String) (found : Option Result) :
    Loaded w (loadFunctions seed w uid found).1 uid := by
  cases found with
  | some r => exact Loaded.refl w uid
  | none =>
      unfold loadFunctions
      dsimp only
      split
      · exact ⟨rfl, rfl, fun _ _ => rfl, fun _ h => Or.inl h⟩
      · exact loaded_set w uid _ _ (by decide)

/-- The accounts that are answered when nothing is found in the cache. -/
theorem loadAccounts_none (w : World) (uid : String) :
    (loadAccounts w uid none).2 = .plain (.accounts (loadedAccounts w.chart)) := by
  unfold loadAccounts
  dsimp only
  split
  · next hc =>
    rw [hc]
    rfl
  · next hc => rw [hc]

theorem loadFunctions_none (seed : Option Seed) (w : World) (uid : String) :
    (loadFunctions seed w uid none).2 = (functionsLoaded seed w.functions).2.map .plain := by
  unfold loadFunctions
  dsimp only
  split
  · next hf =>
    rw [hf]
    rfl
  · next hf =>
    rw [hf]
    rfl

/-- What the two loads make of what is found in the cache. -/
def loadedPage (seed : Option Seed) (w : World) : Option Result → Page
  | some _ => emptyPage
  | none => currentPage seed w

/-- The two loads, in either order. -/
theorem both_loads (seed : Option Seed) (w : World) (uid : String) (found : Option Result) (accountsLast : Bool) :
    ∃ w', Loaded w w' uid ∧ loadBoth seed w uid found accountsLast = (w', loadedPage seed w found) := by
  cases accountsLast with
  | true =>
      refine ⟨_, (loaded_functions seed w uid found).trans (loaded_accounts _ uid found), ?_⟩
      show (_, pageOf (loadAccounts (loadFunctions seed w uid found).1 uid found).2
        (loadFunctions seed w uid found).2) = _
      congr 1
      cases found with
      | some r => rfl
      | none =>
          have hchart : (loadFunctions seed w uid none).1.chart = w.chart := by
            unfold loadFunctions
            dsimp only
            split <;> rfl
          rw [loadAccounts_none, loadFunctions_none, hchart]
          rfl
  | false =>
      refine ⟨_, (loaded_accounts w uid found).trans (loaded_functions seed _ uid found), ?_⟩
      show (_, pageOf (loadAccounts w uid found).2 (loadFunctions seed (loadAccounts w uid found).1 uid found).2) = _
      congr 1
      cases found with
      | some r => rfl
      | none =>
          have hfunctions : (loadAccounts w uid none).1.functions = w.functions := by
            unfold loadAccounts
            dsimp only
            split <;> rfl
          rw [loadAccounts_none, loadFunctions_none, hfunctions]
          rfl

/-- What serving a page does to the keys. -/
structure Served (w w' : World) (uid : String) (page : Page) : Prop where
  now_eq : w'.now = w.now
  otherPages : ∀ u, u ≠ uid → w'.pages.get? u = w.pages.get? u
  otherShared : ∀ u, u ≠ uid → w'.shared.get? u = w.shared.get? u
  ownPage : ∃ e, w'.pages.get? uid = some e ∧ e.value = page ∧
    (w.pages.get? uid = some e ∨ e.expiresAt = w.now + ttlCompanyContext)
  ownShared : ∀ e, w'.shared.get? uid = some e → w.shared.get? uid = some e ∨
    (e.expiresAt ≤ w.now + ttlCompanyContext ∧
      ∃ e', w'.pages.get? uid = some e' ∧ e'.expiresAt = w.now + ttlCompanyContext)

theorem Loaded.served (h : Loaded w w' uid) (page : Page) :
    Served w { w' with pages := w'.pages.set uid ⟨page, w'.now + ttlCompanyContext⟩ } uid page := by
  have hown : (w'.pages.set uid ⟨page, w'.now + ttlCompanyContext⟩).get? uid =
      some ⟨page, w.now + ttlCompanyContext⟩ := by
    rw [Dict.get?_set, if_pos rfl, h.now_eq]
  refine ⟨h.now_eq, fun u hu => ?_, h.other, ⟨_, hown, rfl, Or.inr rfl⟩, fun e he => ?_⟩
  · show (w'.pages.set uid _).get? u = _
    rw [Dict.get?_set, if_neg hu, h.pages_eq]
  · rcases h.own e he with he | hle
    · exact Or.inl he
    · exact Or.inr ⟨hle, _, hown, rfl⟩

/-- **What a page is made of**: the page that is kept; the documents; or, when a result of one of the loads has been
found, nothing. -/
theorem fullData_reply (seed : Option Seed) (w : World) (uid : String) (forceRefresh accountsLast : Bool) :
    ∃ w' page, fullData seed w uid forceRefresh accountsLast = (w', page) ∧ Served w w' uid page ∧
      ((∃ e, w.pages.get? uid = some e ∧ page = e.value) ∨ page = currentPage seed w ∨
        (page = emptyPage ∧ (∀ e, w.pages.get? uid = some e → e.expiresAt ≤ w.now) ∧
          ∃ e, w.shared.get? uid = some e ∧ w.now < e.expiresAt)) := by
  cases hp : (if forceRefresh then none else live w.pages uid w.now) with
  | some page =>
      have hlive : live w.pages uid w.now = some page := by
        cases forceRefresh
        · exact hp
        · cases hp
      obtain ⟨e, he, -, rfl⟩ := live_eq_some hlive
      refine ⟨w, e.value, ?_, ⟨rfl, fun _ _ => rfl, fun _ _ => rfl, ⟨e, he, rfl, Or.inl he⟩, fun _ h => Or.inl h⟩,
        Or.inl ⟨e, he, rfl⟩⟩
      unfold fullData
      rw [hp]
  | none =>
      obtain ⟨w', hw', hboth⟩ := both_loads seed w uid (cached w uid forceRefresh) accountsLast
      refine ⟨{ w' with pages := w'.pages.set uid ⟨loadedPage seed w (cached w uid forceRefresh),
        w'.now + ttlCompanyContext⟩ }, loadedPage seed w (cached w uid forceRefresh), ?_, hw'.served _, Or.inr ?_⟩
      · unfold fullData
        rw [hp]
        dsimp only
        rw [hboth]
      · cases hf : cached w uid forceRefresh with
        | none => exact Or.inl rfl
        | some r =>
            refine Or.inr ⟨rfl, ?_, ?_⟩
            · intro e he
              cases forceRefresh
              · exact le_of_live_eq_none hp he
              · cases hf
            · cases forceRefresh
              · obtain ⟨e, he, hlt, -⟩ := live_eq_some hf
                exact ⟨e, he, hlt⟩
              · cases hf

end

/-! ### Every sequence of calls -/

section

variable {nfkd : String → String} {seed : Option Seed} {w₀ w w' : World} {ops : List Op}

/-- The user has called one of the loads alone. -/
def LoadedAlone (uid : String) (ops : List Op) : Prop := ∃ op ∈ ops, op.loadsAlone uid = true

/-- A page that may be shown. -/
def Fair (nfkd : String → String) (seed : Option Seed) (w₀ : World) (uid : String) (ops : List Op) (page : Page) :
    Prop :=
  ShowsOwnChanges nfkd seed w₀ uid ops page ∨ (page = emptyPage ∧ LoadedAlone uid ops)

/-- The keys of a user after a sequence of calls: the page that is kept is fair and expires within the hour; a result
of a load is kept no longer than the page, unless a load was called alone. -/
structure Kept (nfkd : String → String) (seed : Option Seed) (w₀ : World) (uid : String) (ops : List Op) (w : World) :
    Prop where
  fair : ∀ e, w.pages.get? uid = some e → Fair nfkd seed w₀ uid ops e.value
  page_le : ∀ e, w.pages.get? uid = some e → e.expiresAt ≤ w.now + ttlCompanyContext
  shared_le : ∀ e, w.shared.get? uid = some e →
    (∃ e', w.pages.get? uid = some e' ∧ e.expiresAt ≤ e'.expiresAt) ∨ LoadedAlone uid ops

theorem LoadedAlone.concat {uid : String} (h : LoadedAlone uid ops) (op : Op) : LoadedAlone uid (ops ++ [op]) := by
  obtain ⟨o, ho, hl⟩ := h
  exact ⟨o, List.mem_append_left _ ho, hl⟩

theorem Fair.concat {uid : String} {page : Page} (h : Fair nfkd seed w₀ uid ops page) {op : Op}
    (hop : changes nfkd seed uid (run (step nfkd seed) w₀ ops) op = false) :
    Fair nfkd seed w₀ uid (ops ++ [op]) page := by
  rcases h with h | ⟨he, hl⟩
  · exact Or.inl (h.concat hop)
  · exact Or.inr ⟨he, hl.concat op⟩

/-- A call that leaves the keys of a user alone, and is no change by the user. -/
theorem Kept.of_same {uid : String} (h : Kept nfkd seed w₀ uid ops (run (step nfkd seed) w₀ ops)) {op : Op}
    (hop : changes nfkd seed uid (run (step nfkd seed) w₀ ops) op = false)
    (hnow : (run (step nfkd seed) w₀ ops).now ≤ w'.now)
    (hpages : w'.pages.get? uid = (run (step nfkd seed) w₀ ops).pages.get? uid)
    (hshared : ∀ e, w'.shared.get? uid = some e → (run (step nfkd seed) w₀ ops).shared.get? uid = some e) :
    Kept nfkd seed w₀ uid (ops ++ [op]) w' := by
  refine ⟨fun e he => ?_, fun e he => ?_, fun e he => ?_⟩
  · rw [hpages] at he
    exact (h.fair e he).concat hop
  · rw [hpages] at he
    exact (h.page_le e he).trans (Nat.add_le_add_right hnow _)
  · rcases h.shared_le e (hshared e he) with hc | hl
    · rw [hpages]
      exact Or.inl hc
    · exact Or.inr (hl.concat op)

/-- What a user is served is fair. -/
theorem fullData_fair {uid : String} (h : Kept nfkd seed w₀ uid ops (run (step nfkd seed) w₀ ops))
    (forceRefresh accountsLast : Bool) :
    ∃ w' page, fullData seed (run (step nfkd seed) w₀ ops) uid forceRefresh accountsLast = (w', page) ∧
      Served (run (step nfkd seed) w₀ ops) w' uid page ∧ Fair nfkd seed w₀ uid ops page := by
  obtain ⟨w', page, heq, hserved, hpage⟩ :=
    fullData_reply seed (run (step nfkd seed) w₀ ops) uid forceRefresh accountsLast
  refine ⟨w', page, heq, hserved, ?_⟩
  rcases hpage with ⟨e, he, rfl⟩ | rfl | ⟨rfl, hold, e, he, hlt⟩
  · exact h.fair e he
  · exact Or.inl seenSince_now
  · -- a result outlives the page only if a load was called alone
    refine Or.inr ⟨rfl, ?_⟩
    rcases h.shared_le e he with ⟨e', he', hle⟩ | hl
    · have hexp := hold e' he'
      omega
    · exact hl

/-- After a page has been served. -/
theorem Kept.served {u uid : String} {page : Page} (h : ∀ v, Kept nfkd seed w₀ v ops (run (step nfkd seed) w₀ ops))
    (hs : Served (run (step nfkd seed) w₀ ops) w' u page) (hfair : Fair nfkd seed w₀ u ops page) {op : Op}
    (hop : ∀ v, changes nfkd seed v (run (step nfkd seed) w₀ ops) op = false) :
    Kept nfkd seed w₀ uid (ops ++ [op]) w' := by
  by_cases hu : uid = u
  · subst hu
    obtain ⟨e₁, he₁, rfl, hexp⟩ := hs.ownPage
    have hbound : e₁.expiresAt ≤ (run (step nfkd seed) w₀ ops).now + ttlCompanyContext := by
      rcases hexp with hold | hnew
      · exact (h uid).page_le e₁ hold
      · exact hnew.le
    refine ⟨fun e he => ?_, fun e he => ?_, fun e he => ?_⟩
    · rw [he₁] at he
      cases he
      exact hfair.concat (hop uid)
    · rw [he₁] at he
      cases he
      rw [hs.now_eq]
      exact hbound
    · rcases hs.ownShared e he with hold | ⟨hle, e', he', hexp'⟩
      · rcases (h uid).shared_le e hold with ⟨e₀, he₀, hle₀⟩ | hl
        · refine Or.inl ⟨e₁, he₁, ?_⟩
          rcases hexp with hsame | hnew
          · rw [he₀] at hsame
            cases hsame
            exact hle₀
          · have hb := (h uid).page_le e₀ he₀
            omega
        · exact Or.inr (hl.concat op)
      · exact Or.inl ⟨e', he', hexp' ▸ hle⟩
  · refine (h uid).of_same (hop uid) hs.now_eq.ge (hs.otherPages uid hu) fun e he => ?_
    rw [hs.otherShared uid hu] at he
    exact he

/-- After a change by a user. -/
theorem Kept.invalidated {u uid : String} (h : ∀ v, Kept nfkd seed w₀ v ops (run (step nfkd seed) w₀ ops)) {op : Op}
    (hop : ∀ v, v ≠ u → changes nfkd seed v (run (step nfkd seed) w₀ ops) op = false)
    (hnow : w.now = (run (step nfkd seed) w₀ ops).now) (hpages : w.pages = (run (step nfkd seed) w₀ ops).pages)
    (hshared : w.shared = (run (step nfkd seed) w₀ ops).shared) :
    Kept nfkd seed w₀ uid (ops ++ [op]) (invalidate w u) := by
  have hp : ∀ v, (invalidate w u).pages.get? v = if v = u then none else w.pages.get? v := fun v =>
    Dict.get?_erase _ u v
  have hs : ∀ v, (invalidate w u).shared.get? v = if v = u then none else w.shared.get? v := fun v =>
    Dict.get?_erase _ u v
  by_cases hu : uid = u
  · refine ⟨fun e he => ?_, fun e he => ?_, fun e he => ?_⟩
    · rw [hp, if_pos hu] at he
      cases he
    · rw [hp, if_pos hu] at he
      cases he
    · rw [hs, if_pos hu] at he
      cases he
  · refine (h uid).of_same (hop uid hu) hnow.ge ?_ fun e he => ?_
    · rw [hp, if_neg hu, hpages]
    · rw [hs, if_neg hu, hshared] at he
      exact he

/-- One of the loads, called alone. -/
theorem Kept.loaded {u uid : String} (h : ∀ v, Kept nfkd seed w₀ v ops (run (step nfkd seed) w₀ ops))
    (hl : Loaded (run (step nfkd seed) w₀ ops) w' u) {op : Op} (halone : op.loadsAlone u = true)
    (hop : changes nfkd seed uid (run (step nfkd seed) w₀ ops) op = false) :
    Kept nfkd seed w₀ uid (ops ++ [op]) w' := by
  by_cases hu : uid = u
  · have hbefore := h uid
    refine ⟨fun e he => ?_, fun e he => ?_, fun e _ => Or.inr ⟨op, ?_, hu ▸ halone⟩⟩
    · rw [hl.pages_eq] at he
      exact (hbefore.fair e he).concat hop
    · rw [hl.pages_eq] at he
      rw [hl.now_eq]
      exact hbefore.page_le e he
    · exact List.mem_append_right _ (List.mem_singleton_self op)
  · refine (h uid).of_same hop hl.now_eq.ge (by rw [hl.pages_eq]) fun e he => ?_
    rw [hl.other uid hu] at he
    exact he

/-- **One call.** -/
theorem kept_step (h : ∀ v, Kept nfkd seed w₀ v ops (run (step nfkd seed) w₀ ops)) (op : Op) (uid : String) :
    Kept nfkd seed w₀ uid (ops ++ [op]) (run (step nfkd seed) w₀ (ops ++ [op])) := by
  rw [run_concat]
  cases op with
  | fullData u forceRefresh accountsLast =>
      obtain ⟨w', page, heq, hserved, hfair⟩ := fullData_fair (h u) forceRefresh accountsLast
      show Kept nfkd seed w₀ uid _ (fullData seed _ u forceRefresh accountsLast).1
      rw [heq]
      exact Kept.served h hserved hfair fun v => rfl
  | populate u accountsLast =>
      obtain ⟨w', page, heq, hserved, hfair⟩ := fullData_fair (h u) false accountsLast
      have hpopulate : step nfkd seed (run (step nfkd seed) w₀ ops) (.populate u accountsLast) =
          { w' with pages := w'.pages.set u ⟨page, w'.now + ttlCompanyContext⟩ } := by
        show populateCoaCache seed _ u accountsLast = _
        unfold populateCoaCache
        rw [heq]
      have hown : (w'.pages.set u ⟨page, w'.now + ttlCompanyContext⟩).get? u =
          some ⟨page, w'.now + ttlCompanyContext⟩ := by rw [Dict.get?_set, if_pos rfl]
      have hserved' : Served (run (step nfkd seed) w₀ ops)
          { w' with pages := w'.pages.set u ⟨page, w'.now + ttlCompanyContext⟩ } u page := by
        refine ⟨hserved.now_eq, fun v hv => ?_, hserved.otherShared, ⟨_, hown, rfl, Or.inr ?_⟩, fun e he => ?_⟩
        · show (w'.pages.set u _).get? v = _
          rw [Dict.get?_set, if_neg hv]
          exact hserved.otherPages v hv
        · show w'.now + ttlCompanyContext = _
          rw [hserved.now_eq]
        · rcases hserved.ownShared e he with hold | ⟨hle, -⟩
          · exact Or.inl hold
          · refine Or.inr ⟨hle, _, hown, ?_⟩
            show w'.now + ttlCompanyContext = _
            rw [hserved.now_eq]
      rw [hpopulate]
      exact Kept.served h hserved' hfair fun v => rfl
  | loadAccounts u forceRefresh =>
      exact Kept.loaded h (loaded_accounts _ u _) (decide_eq_true rfl) rfl
  | loadFunctions u forceRefresh =>
      exact Kept.loaded h (loaded_functions seed _ u _) (decide_eq_true rfl) rfl
  | changeFunctions u r hr =>
      cases ha : answer nfkd seed (run (step nfkd seed) w₀ ops).functions r with
      | error e =>
          have hsame : step nfkd seed (run (step nfkd seed) w₀ ops) (.changeFunctions u r hr) =
              run (step nfkd seed) w₀ ops := by simp only [step, ha]
          rw [hsame]
          refine (h uid).of_same ?_ le_rfl rfl fun e he => he
          simp only [changes, ha, Bool.and_false]
      | ok p =>
          have hnext : step nfkd seed (run (step nfkd seed) w₀ ops) (.changeFunctions u r hr) =
              invalidate { run (step nfkd seed) w₀ ops with functions := some p.1 } u := by simp only [step, ha]
          rw [hnext]
          refine Kept.invalidated h (fun v hv => ?_) rfl rfl rfl
          simp only [changes, Ne.symm hv, decide_false, Bool.false_and]
  | changeAccounts u f =>
      refine Kept.invalidated h (fun v hv => ?_) rfl rfl rfl
      exact decide_eq_false (Ne.symm hv)
  | dropShared u =>
      refine (h uid).of_same rfl le_rfl rfl fun e he => ?_
      rw [show (step nfkd seed (run (step nfkd seed) w₀ ops) (.dropShared u)).shared.get? uid = _ from
        Dict.get?_erase _ u uid] at he
      split at he
      · cases he
      · exact he
  | wait seconds =>
      exact (h uid).of_same rfl (Nat.le_add_right _ seconds) rfl fun e he => he

theorem kept_run (hpages : w₀.pages = ∅) (hshared : w₀.shared = ∅) (ops : List Op) (uid : String) :
    Kept nfkd seed w₀ uid ops (run (step nfkd seed) w₀ ops) := by
  induction ops using List.reverseRecOn generalizing uid with
  | nil =>
      refine ⟨fun e he => ?_, fun e he => ?_, fun e he => ?_⟩
      · rw [run_nil, hpages] at he
        cases he
      · rw [run_nil, hpages] at he
        cases he
      · rw [run_nil, hshared] at he
        cases he
  | append_singleton ops op ih => exact kept_step ih op uid

/-- **A user sees the own changes**: in every sequence of calls of any users, with time passing, the page a user is
served shows the documents as they were at some point since the last change by that user; or it is empty, and then the
user has called one of the two loads alone before. -/
theorem page_shows_own_changes (hpages : w₀.pages = ∅) (hshared : w₀.shared = ∅) (ops : List Op) (uid : String)
    (forceRefresh accountsLast : Bool) :
    let page := (fullData seed (run (step nfkd seed) w₀ ops) uid forceRefresh accountsLast).2
    ShowsOwnChanges nfkd seed w₀ uid ops page ∨ (page = emptyPage ∧ LoadedAlone uid ops) := by
  have hkept : Kept nfkd seed w₀ uid ops (run (step nfkd seed) w₀ ops) := kept_run hpages hshared ops uid
  obtain ⟨w', page, heq, -, hfair⟩ := fullData_fair hkept forceRefresh accountsLast
  rw [heq]
  exact hfair

end

/-- The company has one account and no functions. -/
def smallWorld : World := ⟨0, some [("a1", ⟨some "1000", some "Cash", none, none, none, none⟩)], none, ∅, ∅⟩

/-- A page, an account added by another user, and an hour later one by the user. -/
def twoUsers : List Op :=
  [.fullData "u" false true,
    .changeAccounts "v" fun c => c.getD [] ++ [("a2", ⟨some "2000", none, none, none, none, none⟩)],
    .wait 1800, .fullData "u" false true,
    .changeAccounts "u" fun c => c.getD [] ++ [("a3", ⟨some "900", none, none, none, none, none⟩)]]

theorem page_shows_own_changes_two_users :
    let page := (fullData none (run (step id none) smallWorld twoUsers) "u" false true).2
    ShowsOwnChanges id none smallWorld "u" twoUsers page ∨ (page = emptyPage ∧ LoadedAlone "u" twoUsers) :=
  page_shows_own_changes rfl rfl twoUsers "u" false true

/-- The accounts loaded alone, then the page within the minute. -/
example : (fullData none (run (step id none) smallWorld [.loadAccounts "u" false, .wait 30]) "u" false true).2 =
    emptyPage := by decide +kernel

end Pinnokio.Coa
