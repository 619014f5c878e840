import Pinnokio.Lib.Runs
import Pinnokio.Lib.Tables
import Pinnokio.Lib.Text

/-!
# The account context of a user and a company

`ensure_account_context` is the one entry point of the multi-tenant tables.  In one transaction it upserts the user and
the account of a Firebase uid, the access of the one to the other, and the company of a mandate path, and puts their
ids into a context.  `get_account_context` reads a context back through the joins, and answers nothing when the user
has no access to the company's account.

The company is found by its mandate path alone, whoever's account it belongs to; the account of the context is the
caller's.

* `ensureAccountContext`, `getAccountContext` — the two functions;
* `Sound` — the invariant of the four tables, with the uid that created each company; `sound_run` — every reachable
  state has it;
* `isolated_iff` — **the context is one of the caller's own company** exactly when the mandate path is new, or was
  first used with the same uid.
-/

namespace Pinnokio.Tenancy

open Pinnokio.Runs Pinnokio.Text

/-! ### The tables -/

/-- `AccessType`. -/
inductive AccessType where
  | owner
  | shared
  deriving DecidableEq

/-- `UserProfile`. -/
inductive UserProfile where
  | admin
  | manager
  | user
  | viewer
  deriving DecidableEq

/-- A row of `core.users`. -/
structure User where
  id : ℕ
  firebaseUid : String
  email : String
  displayName : String
  deriving DecidableEq

/-- A row of `core.accounts`. -/
structure Account where
  id : ℕ
  firebaseUid : String
  email : String
  displayName : String
  deriving DecidableEq

/-- A row of `core.account_access`. -/
structure Access where
  userId : ℕ
  accountId : ℕ
  accessType : AccessType
  userProfile : UserProfile
  isActive : Bool
  deriving DecidableEq

/-- A row of `core.companies`.  An empty text stands for a missing value. -/
structure Company where
  id : ℕ
  accountId : ℕ
  mandatePath : String
  mandateId : Option String
  parentId : Option String
  name : String
  country : String
  countryCode : String
  regionCode : String
  baseCurrency : String
  isActive : Bool
  deriving DecidableEq

/-- The four tables by their unique keys, and the number of ids drawn so far. -/
structure Database where
  users : Dict String User
  accounts : Dict String Account
  access : Dict (ℕ × ℕ) Access
  companies : Dict String Company
  drawn : ℕ

/-- No row yet. -/
def Database.empty : Database := ⟨∅, ∅, ∅, ∅, 0⟩

/-- `AccountContext`. -/
structure AccountContext where
  userId : ℕ
  accountId : ℕ
  companyId : ℕ
  firebaseUid : String
  mandatePath : String
  accessType : AccessType
  profile : UserProfile
  countryCode : String
  email : String
  displayName : String
  clusterCode : Option String
  deriving DecidableEq

/-! ### Establishing a context -/

/-- The arguments of `ensure_account_context`.  An empty text stands for a missing value. -/
structure ContextRequest where
  firebaseUid : String
  mandatePath : String
  companyName : String
  country : String
  email : String := ""
  displayName : String := ""
  countryCode : String := ""
  regionCode : String := ""
  baseCurrency : String := "CHF"

/-- `COUNTRY_CODES`. -/
def countryCodes : Dict String String :=
  Dict.ofList [("Switzerland", "CH"), ("France", "FR"), ("Belgium", "BE"), ("Germany", "DE"), ("Italy", "IT"),
    ("Netherlands", "NL"), ("Spain", "ES"), ("Portugal", "PT"), ("United Kingdom", "GB"), ("Canada", "CA"),
    ("United States", "US"), ("Luxembourg", "LU"), ("Austria", "AT"), ("Monaco", "MC")]

namespace ContextRequest

/-- `country_code or COUNTRY_CODES.get(country, "CH")`. -/
def code (q : ContextRequest) : String := orElse q.countryCode ((countryCodes.get? q.country).getD "CH")

/-- `email or f"{firebase_uid}@pinnokio.local"`. -/
def mail (q : ContextRequest) : String := orElse q.email (q.firebaseUid ++ "@pinnokio.local")

/-- `display_name or "Auto-created User"`. -/
def shownName (q : ContextRequest) : String := orElse q.displayName "Auto-created User"

/-- The cluster of the country and the region. -/
def cluster (q : ContextRequest) : Option String :=
  if q.regionCode = "" then none else some (q.code ++ "-" ++ q.regionCode)

end ContextRequest

/- The value that `account_access.is_active` gets when an insert does not name it. -/
variable (activeByDefault : Bool)

/-- Step 1: the user. -/
def upsertUser (q : ContextRequest) (id : ℕ) (users : Dict String User) : Dict String User × User :=
  let new : User := ⟨id, q.firebaseUid, q.mail, q.shownName⟩
  let change (u : User) : User := { u with email := orElse q.mail u.email, displayName := orElse q.shownName u.displayName }
  (users.upsert q.firebaseUid new change, users.upserted q.firebaseUid new change)

/-- Step 2: the account. -/
def upsertAccount (q : ContextRequest) (id : ℕ) (accounts : Dict String Account) : Dict String Account × Account :=
  let new : Account := ⟨id, q.firebaseUid, q.mail, q.shownName⟩
  (accounts.upsert q.firebaseUid new fun a => a, accounts.upserted q.firebaseUid new fun a => a)

/-- Step 3: the access; the owner's for a new account. -/
def upsertAccess (userId accountId : ℕ) (isNewAccount : Bool) (access : Dict (ℕ × ℕ) Access) :
    Dict (ℕ × ℕ) Access × Access :=
  let new : Access :=
    { userId := userId
      accountId := accountId
      accessType := if isNewAccount then .owner else .shared
      userProfile := if isNewAccount then .admin else .user
      isActive := activeByDefault }
  (access.upsert (userId, accountId) new fun a => a, access.upserted (userId, accountId) new fun a => a)

/-- Step 4: the company. -/
def upsertCompany (q : ContextRequest) (id accountId : ℕ) (companies : Dict String Company) :
    Dict String Company × Company :=
  let parts := split q.mandatePath '/'
  let new : Company :=
    { id := id
      accountId := accountId
      mandatePath := q.mandatePath
      mandateId := parts[5]?
      parentId := parts[3]?
      name := q.companyName
      country := q.country
      countryCode := q.code
      regionCode := q.regionCode
      baseCurrency := q.baseCurrency
      isActive := true }
  let change (c : Company) : Company := { c with name := orElse q.companyName c.name }
  (companies.upsert q.mandatePath new change, companies.upserted q.mandatePath new change)

/-- The company of the request does not exist yet. -/
def isNewCompany (db : Database) (q : ContextRequest) : Bool := (db.companies.get? q.mandatePath).isNone

/-- `ensure_account_context`: its four statements, and the context. -/
def ensureAccountContext (db : Database) (q : ContextRequest) : Database × AccountContext :=
  let (users, user) := upsertUser q db.drawn db.users
  let (accounts, account) := upsertAccount q (db.drawn + 1) db.accounts
  let isNewAccount := (db.accounts.get? q.firebaseUid).isNone
  let (access, granted) := upsertAccess activeByDefault user.id account.id isNewAccount db.access
  let (companies, company) := upsertCompany q (db.drawn + 2) account.id db.companies
  (⟨users, accounts, access, companies, db.drawn + 3⟩,
    { userId := user.id
      accountId := account.id
      companyId := company.id
      firebaseUid := q.firebaseUid
      mandatePath := q.mandatePath
      accessType := granted.accessType
      profile := granted.userProfile
      countryCode := orElse company.countryCode q.code
      email := user.email
      displayName := user.displayName
      clusterCode := q.cluster })

/-! ### Reading a context -/

/-- The rows of the join in `get_account_context`. -/
def contextRows (db : Database) (firebaseUid : String) (companyId : ℕ) : List (User × Access × Account × Company) :=
  db.users.entries.flatMap fun u =>
    db.access.entries.flatMap fun aa =>
      db.accounts.entries.flatMap fun a =>
        db.companies.entries.filterMap fun c =>
          if aa.2.userId = u.2.id ∧ a.2.id = aa.2.accountId ∧ c.2.accountId = a.2.id ∧
              u.2.firebaseUid = firebaseUid ∧ c.2.id = companyId ∧ c.2.isActive ∧ aa.2.isActive then
            some (u.2, aa.2, a.2, c.2)
          else none

/-- `get_account_context`. -/
def getAccountContext (db : Database) (firebaseUid : String) (companyId : ℕ) : Option AccountContext :=
  (contextRows db firebaseUid companyId).head?.map fun (u, aa, a, c) =>
    { userId := u.id
      accountId := a.id
      companyId := c.id
      firebaseUid := firebaseUid
      mandatePath := c.mandatePath
      accessType := aa.accessType
      profile := aa.userProfile
      countryCode := c.countryCode
      email := u.email
      displayName := u.displayName
      clusterCode :=
        if c.regionCode = "" ∨ c.countryCode = "" then none else some (c.countryCode ++ "-" ++ c.regionCode) }

/-- The rows of the join, by the keys of the tables. -/
theorem mem_contextRows {db : Database} {firebaseUid : String} {companyId : ℕ} {u : User} {aa : Access} {a : Account}
    {c : Company} :
    (u, aa, a, c) ∈ contextRows db firebaseUid companyId ↔
      (∃ k, db.users.get? k = some u) ∧ (∃ k, db.access.get? k = some aa) ∧ (∃ k, db.accounts.get? k = some a) ∧
        (∃ k, db.companies.get? k = some c) ∧ aa.userId = u.id ∧ a.id = aa.accountId ∧ c.accountId = a.id ∧
          u.firebaseUid = firebaseUid ∧ c.id = companyId ∧ c.isActive = true ∧ aa.isActive = true := by
  simp only [contextRows, List.mem_flatMap, List.mem_filterMap, ← Dict.mem_entries_iff]
  constructor
  · intro h'
    obtain ⟨⟨ku, u'⟩, hu, ⟨kaa, aa'⟩, haa, ⟨ka, a'⟩, ha, ⟨kc, c'⟩, hc, hrow⟩ := h'
    split at hrow
    · next hcond =>
      cases hrow
      exact ⟨⟨ku, hu⟩, ⟨kaa, haa⟩, ⟨ka, ha⟩, ⟨kc, hc⟩, hcond⟩
    · cases hrow
  · intro h'
    obtain ⟨⟨ku, hu⟩, ⟨kaa, haa⟩, ⟨ka, ha⟩, ⟨kc, hc⟩, hcond⟩ := h'
    exact ⟨(ku, u), hu, (kaa, aa), haa, (ka, a), ha, (kc, c), hc, if_pos hcond⟩

/-! ### The invariant -/

/-- The uid of the first call for a mandate path. -/
def creator (calls : List ContextRequest) (mandatePath : String) : Option String :=
  (calls.find? fun q => q.mandatePath = mandatePath).map ContextRequest.firebaseUid

theorem creator_concat (calls : List ContextRequest) (q : ContextRequest) (mandatePath : String) :
    creator (calls ++ [q]) mandatePath =
      (creator calls mandatePath).or (if q.mandatePath = mandatePath then some q.firebaseUid else none) := by
  unfold creator
  rw [List.find?_append]
  cases calls.find? fun q => q.mandatePath = mandatePath with
  | some q' => rfl
  | none =>
      by_cases h : q.mandatePath = mandatePath
      · simp [h]
      · simp [h]

/-- The tables after a sequence of calls: the rows stand under their keys, their ids are distinct, and the company of a
path belongs to the account that used the path first. -/
structure Sound (calls : List ContextRequest) (db : Database) : Prop where
  userIds : db.users.IdsBelow User.id db.drawn
  accountIds : db.accounts.IdsBelow Account.id db.drawn
  companyIds : db.companies.IdsBelow Company.id db.drawn
  users : ∀ uid u, db.users.get? uid = some u → u.firebaseUid = uid
  access : ∀ k aa, db.access.get? k = some aa → k = (aa.userId, aa.accountId) ∧ aa.isActive = activeByDefault
  companies : ∀ p c, db.companies.get? p = some c → c.isActive = true ∧
    ∃ uid a, creator calls p = some uid ∧ db.accounts.get? uid = some a ∧ a.id = c.accountId
  created : ∀ p, db.companies.get? p = none → creator calls p = none

theorem sound_empty : Sound activeByDefault [] .empty where
  userIds := .empty _ _
  accountIds := .empty _ _
  companyIds := .empty _ _
  users := nofun
  access := nofun
  companies := nofun
  created _ _ := rfl

section

variable {activeByDefault} {calls : List ContextRequest} {db : Database} {q : ContextRequest}

/-! The row that a statement returns is the one that is stored. -/

theorem get?_upsertUser (q : ContextRequest) (id : ℕ) (users : Dict String User) :
    (upsertUser q id users).1.get? q.firebaseUid = some (upsertUser q id users).2 :=
  Dict.get?_upsert_self _ _ _ _

theorem get?_upsertAccount (q : ContextRequest) (id : ℕ) (accounts : Dict String Account) :
    (upsertAccount q id accounts).1.get? q.firebaseUid = some (upsertAccount q id accounts).2 :=
  Dict.get?_upsert_self _ _ _ _

theorem get?_upsertAccess (active : Bool) (userId accountId : ℕ) (isNewAccount : Bool)
    (access : Dict (ℕ × ℕ) Access) :
    (upsertAccess active userId accountId isNewAccount access).1.get? (userId, accountId) =
      some (upsertAccess active userId accountId isNewAccount access).2 :=
  Dict.get?_upsert_self _ _ _ _

theorem get?_upsertCompany (q : ContextRequest) (id accountId : ℕ) (companies : Dict String Company) :
    (upsertCompany q id accountId companies).1.get? q.mandatePath = some (upsertCompany q id accountId companies).2 :=
  Dict.get?_upsert_self _ _ _ _

/-- The account of a uid stays as it is. -/
theorem get?_upsertAccount_of_some {accounts : Dict String Account} {uid : String} {a : Account} (id : ℕ)
    (h : accounts.get? uid = some a) : (upsertAccount q id accounts).1.get? uid = some a := by
  simp only [upsertAccount, Dict.get?_upsert]
  split
  · next huid => rw [← huid, Dict.upserted_of_some h]
  · exact h

theorem userIds_upsertUser {users : Dict String User} {n m : ℕ} (h : users.IdsBelow User.id n) (hnm : n ≤ m) :
    ((upsertUser q m users).1).IdsBelow User.id (m + 1) := by
  unfold upsertUser
  refine h.upsert ?_ ?_ hnm _
  · exact fun _ => rfl
  · rfl

theorem accountIds_upsertAccount {accounts : Dict String Account} {n m : ℕ} (h : accounts.IdsBelow Account.id n)
    (hnm : n ≤ m) : ((upsertAccount q m accounts).1).IdsBelow Account.id (m + 1) := by
  unfold upsertAccount
  refine h.upsert ?_ ?_ hnm _
  · exact fun _ => rfl
  · rfl

theorem companyIds_upsertCompany {companies : Dict String Company} {n m : ℕ} (accountId : ℕ)
    (h : companies.IdsBelow Company.id n) (hnm : n ≤ m) :
    ((upsertCompany q m accountId companies).1).IdsBelow Company.id (m + 1) := by
  unfold upsertCompany
  refine h.upsert ?_ ?_ hnm _
  · exact fun _ => rfl
  · rfl

/-- **One call** keeps the tables sound. -/
theorem sound_ensureAccountContext (h : Sound activeByDefault calls db) (q : ContextRequest) :
    Sound activeByDefault (calls ++ [q]) (ensureAccountContext activeByDefault db q).1 where
  userIds := (userIds_upsertUser h.userIds (Nat.le_refl _)).mono (Nat.le_add_right _ 2)
  accountIds := (accountIds_upsertAccount h.accountIds (Nat.le_add_right _ 1)).mono (Nat.le_add_right _ 1)
  companyIds := companyIds_upsertCompany _ h.companyIds (Nat.le_add_right _ 2)
  users := by
    intro uid u hu
    simp only [ensureAccountContext, upsertUser, Dict.get?_upsert] at hu
    split at hu
    · next huid =>
      cases hu
      cases hold : db.users.get? q.firebaseUid with
      | none => rw [Dict.upserted_of_none hold, huid]
      | some u =>
          rw [Dict.upserted_of_some hold, huid]
          exact h.users q.firebaseUid u hold
    · exact h.users uid u hu
  access := by
    intro k aa haa
    simp only [ensureAccountContext, upsertAccess, Dict.get?_upsert] at haa
    split at haa
    · next hk =>
      cases haa
      rw [hk]
      cases hold : db.access.get? ((upsertUser q db.drawn db.users).2.id,
          (upsertAccount q (db.drawn + 1) db.accounts).2.id) with
      | none => rw [Dict.upserted_of_none hold]; exact ⟨rfl, rfl⟩
      | some aa =>
          rw [Dict.upserted_of_some hold]
          exact h.access _ _ hold
    · exact h.access k aa haa
  companies := by
    intro p c hc
    simp only [ensureAccountContext, upsertCompany, Dict.get?_upsert] at hc
    rw [creator_concat]
    -- a company that was there belongs to the account it belonged to
    have hold : ∀ c', db.companies.get? p = some c' → c'.isActive = true ∧
        ∃ uid a, (creator calls p).or (if q.mandatePath = p then some q.firebaseUid else none) = some uid ∧
          (upsertAccount q (db.drawn + 1) db.accounts).1.get? uid = some a ∧ a.id = c'.accountId := by
      intro c' hc'
      obtain ⟨hactive, uid, a, hcreator, ha, hid⟩ := h.companies p c' hc'
      exact ⟨hactive, uid, a, by rw [hcreator]; rfl, get?_upsertAccount_of_some _ ha, hid⟩
    split at hc
    · next hp =>
      cases hc
      subst hp
      cases hget : db.companies.get? q.mandatePath with
      | none =>
          rw [Dict.upserted_of_none hget, h.created _ hget, if_pos rfl]
          exact ⟨rfl, q.firebaseUid, _, rfl, Dict.get?_upsert_self _ _ _ _, rfl⟩
      | some c' =>
          rw [Dict.upserted_of_some hget]
          exact hold c' hget
    · exact hold c hc
  created := by
    intro p hp
    simp only [ensureAccountContext, upsertCompany, Dict.get?_upsert] at hp
    split at hp
    · cases hp
    · next hne => rw [creator_concat, h.created p hp, if_neg (Ne.symm hne)]; rfl

end

/-- **Every reachable state is sound.** -/
theorem sound_run (calls : List ContextRequest) :
    Sound activeByDefault calls
      (run (fun db q => (ensureAccountContext activeByDefault db q).1) .empty calls) := by
  induction calls using List.reverseRecOn with
  | nil => exact sound_empty activeByDefault
  | append_singleton calls q ih =>
      rw [run_concat]
      exact sound_ensureAccountContext ih q

/-! ### Isolation -/

/-- The context of the call names a company of its own account, and reads back the same. -/
def Isolated (db : Database) (q : ContextRequest) : Prop :=
  let (db', context) := ensureAccountContext activeByDefault db q
  (∃ k c, db'.companies.get? k = some c ∧ c.id = context.companyId ∧ c.accountId = context.accountId) ∧
    ∃ context', getAccountContext db' q.firebaseUid context.companyId = some context' ∧
      context'.accountId = context.accountId ∧ context'.accessType = context.accessType ∧
        context'.profile = context.profile

theorem head?_eq_some_of_forall {α : Type*} {l : List α} {x : α} (hx : x ∈ l) (h : ∀ y ∈ l, y = x) :
    l.head? = some x := by
  cases l with
  | nil => cases hx
  | cons y l => rw [List.head?_cons, h y (List.mem_cons_self ..)]

section

variable {activeByDefault} {calls : List ContextRequest} {db : Database} {u : User} {a : Account} {aa : Access}
  {c : Company} {uid mandatePath : String}

/-- The join finds the one row of a user, its account and a company of it. -/
theorem contextRows_eq (hactive : activeByDefault = true) (h : Sound activeByDefault calls db)
    (hu : db.users.get? uid = some u) (ha : db.accounts.get? uid = some a)
    (haa : db.access.get? (u.id, a.id) = some aa) (hc : db.companies.get? mandatePath = some c)
    (hown : c.accountId = a.id) : (contextRows db uid c.id).head? = some (u, aa, a, c) := by
  obtain ⟨hkey, hisActive⟩ := h.access _ _ haa
  refine head?_eq_some_of_forall ?_ ?_
  · refine mem_contextRows.mpr ⟨⟨_, hu⟩, ⟨_, haa⟩, ⟨_, ha⟩, ⟨_, hc⟩, ?_, ?_, hown, h.users uid u hu, rfl,
      (h.companies _ _ hc).1, hisActive.trans hactive⟩
    · exact (congrArg Prod.fst hkey).symm
    · exact congrArg Prod.snd hkey
  · intro row hrow
    obtain ⟨u', aa', a', c'⟩ := row
    obtain ⟨⟨ku, hu'⟩, ⟨kaa, haa'⟩, ⟨ka, ha'⟩, ⟨kc, hc'⟩, huser, haccount, howner, huid, hcid, -, -⟩ :=
      mem_contextRows.mp hrow
    -- each of the four rows is the one its key or its id stands for
    have hu'' : u' = u := by
      rw [← h.users ku u' hu', huid, hu] at hu'
      exact (Option.some.inj hu').symm
    have hc'' : c' = c := by
      rw [h.companyIds.distinct _ _ _ _ hc' hc hcid, hc] at hc'
      exact (Option.some.inj hc').symm
    subst hu'' hc''
    have ha'' : a' = a := by
      rw [h.accountIds.distinct _ _ _ _ ha' ha (howner.symm.trans hown), ha] at ha'
      exact (Option.some.inj ha').symm
    subst ha''
    have haa'' : aa' = aa := by
      rw [(h.access kaa aa' haa').1, huser, ← haccount, haa] at haa'
      exact (Option.some.inj haa').symm
    rw [haa'']

/-- The context belongs to the caller exactly when the caller's account used the path first. -/
theorem accountId_company_iff (h : Sound activeByDefault calls db) (ha : db.accounts.get? uid = some a)
    (hc : db.companies.get? mandatePath = some c) : c.accountId = a.id ↔ creator calls mandatePath = some uid := by
  obtain ⟨-, uid', a', hcreator, ha', hid⟩ := h.companies mandatePath c hc
  rw [hcreator, Option.some.injEq, ← hid]
  constructor
  · intro heq
    exact h.accountIds.distinct _ _ _ _ ha' ha heq
  · rintro rfl
    rw [ha] at ha'
    rw [Option.some.inj ha']

end

/-- **Tenants are isolated** exactly when the mandate path of the call is new, or was first used with the same uid. -/
theorem isolated_iff (hactive : activeByDefault = true) (calls : List ContextRequest) (q : ContextRequest) :
    Isolated activeByDefault (run (fun db q => (ensureAccountContext activeByDefault db q).1) .empty calls) q ↔
      ∀ uid, creator calls q.mandatePath = some uid → uid = q.firebaseUid := by
  generalize hdb : run (fun db q => (ensureAccountContext activeByDefault db q).1) .empty calls = db
  have hsound : Sound activeByDefault (calls ++ [q]) (ensureAccountContext activeByDefault db q).1 :=
    sound_ensureAccountContext (hdb ▸ sound_run activeByDefault calls) q
  have hu := get?_upsertUser q db.drawn db.users
  have ha := get?_upsertAccount q (db.drawn + 1) db.accounts
  have haa := get?_upsertAccess activeByDefault (upsertUser q db.drawn db.users).2.id
    (upsertAccount q (db.drawn + 1) db.accounts).2.id (db.accounts.get? q.firebaseUid).isNone db.access
  have hc := get?_upsertCompany q (db.drawn + 2) (upsertAccount q (db.drawn + 1) db.accounts).2.id db.companies
  have howner := accountId_company_iff hsound ha hc
  have hfirst : creator (calls ++ [q]) q.mandatePath = some q.firebaseUid ↔
      ∀ uid, creator calls q.mandatePath = some uid → uid = q.firebaseUid := by
    rw [creator_concat, if_pos rfl]
    cases creator calls q.mandatePath <;> simp
  rw [← hfirst, ← howner]
  constructor
  · intro h
    obtain ⟨⟨k, c, hk, hid, hown⟩, -⟩ := h
    rw [hsound.companyIds.distinct _ _ _ _ hk hc hid] at hk
    cases Option.some.inj (hk.symm.trans hc)
    exact hown
  · intro hown
    refine ⟨⟨q.mandatePath, _, hc, rfl, hown⟩, ?_⟩
    have hrow := contextRows_eq hactive hsound hu ha haa hc hown
    refine ⟨_, congrArg (Option.map _) hrow, rfl, rfl, rfl⟩

/-- A request for the mandate of a company. -/
def companyRequest (firebaseUid : String) : ContextRequest where
  firebaseUid := firebaseUid
  mandatePath := "clients/a/bo_clients/b/mandates/m"
  companyName := "ETERNITI SA"
  country := "Switzerland"

/-- The second call of a user. -/
theorem isolated_same_user :
    Isolated true (run (fun db q => (ensureAccountContext true db q).1) .empty [companyRequest "a"])
      (companyRequest "a") :=
  (isolated_iff true rfl [companyRequest "a"] (companyRequest "a")).mpr (by
    intro uid huid
    exact (Option.some.inj huid).symm)

/-- Another user asks for the same mandate: the company belongs to the first one's account. -/
theorem not_isolated_other_user : ¬∀ (calls : List ContextRequest) (q : ContextRequest),
    Isolated true (run (fun db q => (ensureAccountContext true db q).1) .empty calls) q := by
  intro h
  obtain ⟨-, context, hget, -⟩ := h [companyRequest "a"] (companyRequest "b")
  have hnone : (none : Option AccountContext) = some context := hget
  cases hnone

end Pinnokio.Tenancy
