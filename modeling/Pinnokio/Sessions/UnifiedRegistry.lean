import Pinnokio.Lib.Dict
import Pinnokio.Lib.Runs
import Pinnokio.Lib.Text

/-!
# The registry of users and companies

A session is registered under its user, with the company that the user works for, and under that company, which lists
its active users.  A user has one record, that of the last session registered; a company keeps a user until a session
of the user is unregistered from it.

* `activeUsers_register`, `activeUsers_unregister` — what the two operations do to the users of a company;
* `tracks_register` — registering keeps both sides equal unless it moves the user from another company;
* `registry_tracks_iff` — **the companies list exactly the users whose current company they are** at every point of a
  sequence exactly when no user is moved.
-/

namespace Pinnokio.Sessions.UnifiedRegistry

open Pinnokio.Runs Pinnokio.Text

/-! ### The records -/

/-- The `user_info` of a user. -/
structure UserInfo where
  userId : String
  sessionId : String
  backendRoute : String
  lastSeenAt : String
  status : String

/-- The `companies` of a user. -/
structure Companies where
  currentCompanyId : String
  authorizedCompaniesIds : List String
  companyRoles : Dict String String

/-- The record of a user. -/
structure RegistryData where
  userInfo : UserInfo
  companies : Companies

/-- An active user of a company. -/
structure ActiveUser where
  sessionId : String
  lastActivity : String
  role : String

/-- The record of a company. -/
structure CompanyData where
  companyId : String
  createdAt : String
  activeUsers : Dict String ActiveUser

/-- `registry:unified:{user_id}`. -/
def unifiedKey (userId : String) : String := "registry:unified:" ++ userId

/-- `registry:company:{company_id}`. -/
def companyKey (companyId : String) : String := "registry:company:" ++ companyId

/-- The records of the users and of the companies, by key. -/
structure Redis where
  unified : Dict String RegistryData
  companies : Dict String CompanyData

/-- `get_user_registry`. -/
def getUserRegistry (r : Redis) (userId : String) : Option RegistryData := r.unified.get? (unifiedKey userId)

/-- `get_company_active_users`. -/
def getCompanyActiveUsers (r : Redis) (companyId : String) : List String :=
  match r.companies.get? (companyKey companyId) with
  | none => []
  | some company => company.activeUsers.keys

/-! ### Sessions -/

/-- `_get_user_company_roles`. -/
def getUserCompanyRoles (companies : List String) : Dict String String :=
  Dict.ofList (companies.map fun company => (company, "user"))

/-- `_get_user_role_in_company`. -/
def getUserRoleInCompany (_userId _companyId : String) : String := "user"

/-- `_get_or_create_company_registry`. -/
def getOrCreateCompanyRegistry (r : Redis) (companyId now : String) : CompanyData :=
  match r.companies.get? (companyKey companyId) with
  | some company => company
  | none => ⟨companyId, now, ∅⟩

/-- `_register_user_to_company`. -/
def registerUserToCompany (r : Redis) (userId companyId sessionId now : String) : Redis :=
  let company := getOrCreateCompanyRegistry r companyId now
  { r with
    companies := r.companies.set (companyKey companyId)
      { company with
        activeUsers := company.activeUsers.set userId ⟨sessionId, now, getUserRoleInCompany userId companyId⟩ } }

/-- `_unregister_user_from_company`. -/
def unregisterUserFromCompany (r : Redis) (userId companyId : String) : Redis :=
  match r.companies.get? (companyKey companyId) with
  | none => r
  | some company =>
      if userId ∈ company.activeUsers.keys then
        { r with
          companies := r.companies.set (companyKey companyId)
            { company with activeUsers := company.activeUsers.erase userId } }
      else r

/-- `register_user_session`, with the record that it returns. -/
def registerUserSession (r : Redis) (userId sessionId companyId : String) (authorizedCompanies : List String)
    (backendRoute : Option String) (now : String) : Redis × RegistryData :=
  let data : RegistryData :=
    { userInfo := ⟨userId, sessionId, backendRoute.getD "", now, "online"⟩
      companies := ⟨companyId, authorizedCompanies, getUserCompanyRoles authorizedCompanies⟩ }
  (registerUserToCompany { r with unified := r.unified.set (unifiedKey userId) data } userId companyId sessionId now,
    data)

/-- The keys of the users as `scan` returns them: all of them, in any order, possibly more than once. -/
def scan (r : Redis) (order : List String) : List String :=
  order.filter (fun key => key ∈ r.unified.keys) ++ r.unified.keys.filter fun key => key ∉ order

/-- The first record of a session, with its key. -/
def findSession (r : Redis) (sessionId : String) (order : List String) : Option (String × RegistryData) :=
  (scan r order).findSome? fun key =>
    match r.unified.get? key with
    | none => none
    | some data => if data.userInfo.sessionId = sessionId then some (key, data) else none

/-- `unregister_user_session`, with whether a session was removed. -/
def unregisterUserSession (r : Redis) (sessionId : String) (order : List String) : Redis × Bool :=
  match findSession r sessionId order with
  | none => (r, false)
  | some (key, data) =>
      (unregisterUserFromCompany { r with unified := r.unified.erase key } data.userInfo.userId
        data.companies.currentCompanyId, true)

/-- A call, with the time of a registration and the order of a scan. -/
inductive Op where
  | register (userId sessionId companyId : String) (authorizedCompanies : List String) (backendRoute : Option String)
      (now : String)
  | unregister (sessionId : String) (order : List String)

/-- One call. -/
def step (r : Redis) : Op → Redis
  | .register userId sessionId companyId authorizedCompanies backendRoute now =>
      (registerUserSession r userId sessionId companyId authorizedCompanies backendRoute now).1
  | .unregister sessionId order => (unregisterUserSession r sessionId order).1

/-- **The companies list exactly the users whose current company they are.** -/
def Tracks (r : Redis) : Prop :=
  ∀ userId companyId, userId ∈ getCompanyActiveUsers r companyId ↔
    ∃ data, getUserRegistry r userId = some data ∧ data.companies.currentCompanyId = companyId

/-- A registration leaves a user who has a record at the company of that record. -/
def Stays (r : Redis) : Op → Prop
  | .register userId _ companyId _ _ _ =>
      ∀ data, getUserRegistry r userId = some data → data.companies.currentCompanyId = companyId
  | .unregister _ _ => True

/-- The key of a record is that of its user. -/
def Keyed (r : Redis) : Prop :=
  ∀ key data, r.unified.get? key = some data → key = unifiedKey data.userInfo.userId

/-! ### The users of a company -/

section Users

variable {r : Redis} {userId companyId : String}

theorem unifiedKey_inj {u v : String} : unifiedKey u = unifiedKey v ↔ u = v :=
  ⟨append_left_cancel, congrArg unifiedKey⟩

theorem companyKey_inj {c d : String} : companyKey c = companyKey d ↔ c = d :=
  ⟨append_left_cancel, congrArg companyKey⟩

/-- The users of a company that is there or would be made. -/
theorem keys_getOrCreate (now : String) :
    (getOrCreateCompanyRegistry r companyId now).activeUsers.keys = getCompanyActiveUsers r companyId := by
  unfold getOrCreateCompanyRegistry getCompanyActiveUsers
  split <;> simp [*]

/-- The users of the companies, after one company is written. -/
theorem activeUsers_set (company : CompanyData) (c : String) :
    getCompanyActiveUsers { r with companies := r.companies.set (companyKey companyId) company } c =
      if c = companyId then company.activeUsers.keys else getCompanyActiveUsers r c := by
  unfold getCompanyActiveUsers
  rw [Dict.get?_set]
  by_cases h : c = companyId
  · subst h
    rw [if_pos rfl, if_pos rfl]
  · rw [if_neg fun heq => h (companyKey_inj.mp heq), if_neg h]

/-- **Registering adds the user to the company.** -/
theorem activeUsers_register (sessionId now u c : String) :
    u ∈ getCompanyActiveUsers (registerUserToCompany r userId companyId sessionId now) c ↔
      u = userId ∧ c = companyId ∨ u ∈ getCompanyActiveUsers r c := by
  unfold registerUserToCompany
  rw [activeUsers_set]
  split
  · next h =>
    subst h
    rw [Dict.mem_keys_set, keys_getOrCreate]
    simp only [and_true]
  · next h => simp only [h, and_false, false_or]

/-- **Unregistering takes the user from the company.** -/
theorem activeUsers_unregister (u c : String) :
    u ∈ getCompanyActiveUsers (unregisterUserFromCompany r userId companyId) c ↔
      u ∈ getCompanyActiveUsers r c ∧ ¬(u = userId ∧ c = companyId) := by
  unfold unregisterUserFromCompany
  cases hget : r.companies.get? (companyKey companyId) with
  | none =>
      refine ⟨fun hmem => ⟨hmem, ?_⟩, fun h => h.1⟩
      rintro ⟨-, rfl⟩
      rw [getCompanyActiveUsers, hget] at hmem
      cases hmem
  | some company =>
      have hkeys : getCompanyActiveUsers r companyId = company.activeUsers.keys := by
        rw [getCompanyActiveUsers, hget]
      dsimp only
      split
      · rw [activeUsers_set]
        split
        · next h =>
          subst h
          rw [Dict.mem_keys_erase, hkeys, and_comm, and_iff_left rfl]
        · next h => simp only [h, and_false, not_false_eq_true, and_true]
      · next hnot =>
        refine ⟨fun hmem => ⟨hmem, ?_⟩, fun h => h.1⟩
        rintro ⟨rfl, rfl⟩
        rw [hkeys] at hmem
        exact hnot hmem

end Users

/-! ### One call -/

section Step

variable {r : Redis}

/-- The record of a user after a registration. -/
theorem unified_register (userId sessionId companyId : String) (authorizedCompanies : List String)
    (backendRoute : Option String) (now : String) :
    (registerUserSession r userId sessionId companyId authorizedCompanies backendRoute now).1.unified =
      r.unified.set (unifiedKey userId)
        (registerUserSession r userId sessionId companyId authorizedCompanies backendRoute now).2 := rfl

/-- Taking a user from a company leaves the records of the users. -/
theorem unified_unregister (userId companyId : String) :
    (unregisterUserFromCompany r userId companyId).unified = r.unified := by
  unfold unregisterUserFromCompany
  split
  · rfl
  · split <;> rfl

/-- A session that is found has a record of its own. -/
theorem get?_of_findSession {sessionId key : String} {order : List String} {data : RegistryData}
    (h : findSession r sessionId order = some (key, data)) : r.unified.get? key = some data := by
  obtain ⟨key', -, hfound⟩ := List.exists_of_findSome?_eq_some h
  split at hfound
  · cases hfound
  · next data' hdata =>
    split at hfound
    · cases hfound
      exact hdata
    · cases hfound

theorem keyed_step (h : Keyed r) (op : Op) : Keyed (step r op) := by
  intro key data hdata
  cases op with
  | register userId sessionId companyId authorizedCompanies backendRoute now =>
      rw [step, unified_register, Dict.get?_set] at hdata
      split at hdata
      · next heq =>
        cases hdata
        exact heq
      · exact h key data hdata
  | unregister sessionId order =>
      rw [step, unregisterUserSession] at hdata
      split at hdata
      · exact h key data hdata
      · dsimp only at hdata
        rw [unified_unregister, Dict.get?_erase] at hdata
        split at hdata
        · cases hdata
        · exact h key data hdata

/-- **A registration** keeps both sides equal exactly when it does not move the user. -/
theorem tracks_register (h : Tracks r) (userId sessionId companyId : String) (authorizedCompanies : List String)
    (backendRoute : Option String) (now : String) :
    Tracks (step r (.register userId sessionId companyId authorizedCompanies backendRoute now)) ↔
      ∀ data, getUserRegistry r userId = some data → data.companies.currentCompanyId = companyId := by
  have hactive (u c : String) :
      u ∈ getCompanyActiveUsers (step r (.register userId sessionId companyId authorizedCompanies backendRoute now)) c ↔
        u = userId ∧ c = companyId ∨ u ∈ getCompanyActiveUsers r c := activeUsers_register ..
  have hrecord (u : String) :
      getUserRegistry (step r (.register userId sessionId companyId authorizedCompanies backendRoute now)) u =
        if u = userId then
          some (registerUserSession r userId sessionId companyId authorizedCompanies backendRoute now).2
        else getUserRegistry r u := by
    rw [getUserRegistry, step, unified_register, Dict.get?_set]
    simp only [unifiedKey_inj]
    rfl
  constructor
  · intro htracks data hdata
    -- the user is still listed by the company of the old record
    have hold : userId ∈ getCompanyActiveUsers r data.companies.currentCompanyId :=
      (h userId _).mpr ⟨data, hdata, rfl⟩
    obtain ⟨new, hnew, hcompany⟩ := (htracks userId _).mp ((hactive userId _).mpr (.inr hold))
    rw [hrecord, if_pos rfl] at hnew
    cases hnew
    exact hcompany.symm
  · intro hstays u c
    rw [hactive, hrecord]
    by_cases hu : u = userId
    · subst hu
      rw [if_pos rfl]
      constructor
      · rintro (⟨-, rfl⟩ | hmem)
        · exact ⟨_, rfl, rfl⟩
        · obtain ⟨data, hdata, rfl⟩ := (h u c).mp hmem
          exact ⟨_, rfl, (hstays data hdata).symm⟩
      · rintro ⟨data, hdata, rfl⟩
        cases hdata
        exact .inl ⟨rfl, rfl⟩
    · rw [if_neg hu, ← h u c]
      simp only [hu, false_and, false_or]

/-- **Unregistering a session** keeps both sides equal. -/
theorem tracks_unregister (hkeyed : Keyed r) (h : Tracks r) (sessionId : String) (order : List String) :
    Tracks (step r (.unregister sessionId order)) := by
  intro u c
  rw [step, unregisterUserSession]
  split
  · exact h u c
  · next key data hfound =>
    have hget : r.unified.get? key = some data := get?_of_findSession hfound
    obtain rfl : key = unifiedKey data.userInfo.userId := hkeyed key data hget
    have hrecord : getUserRegistry (unregisterUserFromCompany
        { r with unified := r.unified.erase (unifiedKey data.userInfo.userId) } data.userInfo.userId
          data.companies.currentCompanyId) u =
        if u = data.userInfo.userId then none else getUserRegistry r u := by
      rw [getUserRegistry, unified_unregister, Dict.get?_erase]
      simp only [unifiedKey_inj]
      rfl
    have hactive : u ∈ getCompanyActiveUsers (unregisterUserFromCompany
        { r with unified := r.unified.erase (unifiedKey data.userInfo.userId) } data.userInfo.userId
          data.companies.currentCompanyId) c ↔
        u ∈ getCompanyActiveUsers r c ∧ ¬(u = data.userInfo.userId ∧ c = data.companies.currentCompanyId) :=
      activeUsers_unregister u c
    dsimp only
    rw [hactive, hrecord, h u c]
    by_cases hu : u = data.userInfo.userId
    · subst hu
      rw [if_pos rfl]
      constructor
      · rintro ⟨⟨data', hdata', rfl⟩, hnot⟩
        obtain rfl := Option.some.inj (hget.symm.trans hdata')
        exact absurd ⟨rfl, rfl⟩ hnot
      · rintro ⟨data', hdata', -⟩
        cases hdata'
    · rw [if_neg hu]
      simp only [hu, false_and, not_false_eq_true, and_true]

/-- **One call.** -/
theorem tracks_step (hkeyed : Keyed r) (h : Tracks r) (op : Op) : Tracks (step r op) ↔ Stays r op := by
  cases op with
  | register userId sessionId companyId authorizedCompanies backendRoute now => exact tracks_register h ..
  | unregister sessionId order => exact iff_of_true (tracks_unregister hkeyed h sessionId order) trivial

end Step

/-- **The companies list exactly the users whose current company they are**, at every point of a sequence, exactly when
no registration finds its user at another company. -/
theorem registry_tracks_iff (ops : List Op) :
    (∀ pre, pre <+: ops → Tracks (run step ⟨∅, ∅⟩ pre)) ↔ Guarded step Stays ⟨∅, ∅⟩ ops := by
  apply forall_prefix_iff_guarded_of_invariant fun r => Keyed r ∧ Tracks r
  · refine ⟨fun key data hdata => absurd hdata (Option.some_ne_none data).symm, fun userId companyId => ?_⟩
    constructor
    · intro hmem
      cases hmem
    · rintro ⟨data, hdata, -⟩
      cases hdata
  · exact fun r h => h.2
  · exact fun r op h hstays => ⟨keyed_step h.1 op, (tracks_step h.1 h.2 op).mpr hstays⟩
  · exact fun r op h htracks => (tracks_step h.1 h.2 op).mp htracks

/-- A user who switches company is still listed by the first one, and remains there after the session is
unregistered. -/
theorem switched_user_stays_listed :
    ¬Tracks (run step ⟨∅, ∅⟩
      [.register "u" "s" "c1" ["c1", "c2"] none "t1", .register "u" "s" "c2" ["c1", "c2"] none "t2",
        .unregister "s" []]) := by
  intro htracks
  obtain ⟨data, hdata, -⟩ := (htracks "u" "c1").mp (by decide)
  cases hdata

end Pinnokio.Sessions.UnifiedRegistry
