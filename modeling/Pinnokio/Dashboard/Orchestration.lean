import Pinnokio.Lib.Epochs

/-!
# The orchestration of the dashboard

Opening the dashboard and changing the company start an orchestration: a run that sets the user up, selects a company,
prepares the chat and loads the widgets.  The state of a session's orchestration is one record in Redis.  A new
orchestration cancels the old one by a flag and by its own id; the old run notices that at its next check, so for a
while several runs work on one record.  Some writes come right after a check, others do not.

* `next` — the handlers and the runs, from one wait to the next; any wait of a run may raise;
* `Agrees` — what the current run has arranged in the record; the others only spoil the phase, with an error;
* `selects_own` — **a run that has selected a company has selected the one it would have selected alone**, from the
  companies its own user setup has found;
* `completed_of_state` — the record says `completed` only when its run is through, and shows the company of that run;
* `refused_iff` — a change of the company is refused exactly when the current run has been started by opening the
  dashboard, has finished its user setup, and has found other companies; so never after a change.
-/

namespace Pinnokio.Dashboard.Orchestration

open Pinnokio.Interleaving Pinnokio.Epochs

/-! ### The record in Redis -/

/-- `"phase"`. -/
inductive Phase where
  | userSetup
  | company
  | data
  | completed
  | error
  deriving DecidableEq

/-- The status of the nine widgets, which change together. -/
inductive WidgetsStatus where
  | pending
  | loading
  | completed
  | error
  deriving DecidableEq

/-- The state of an orchestration; ids are the numbers of the orchestrations. -/
structure Record where
  orchestrationId : ℕ
  phase : Phase
  cancellationRequested : Bool
  selectedCompanyId : Option String
  isFirstConnect : Bool
  isInvitedUser : Bool
  authorizedCompaniesIds : List String
  widgetsStatus : WidgetsStatus
  errors : List String
  deriving DecidableEq

/-- What the runs of a session share. -/
structure Session where
  /-- `orchestration:{uid}:{session_id}:state`. -/
  state : Option Record
  /-- The company that `set_selected_company` has stored for the user. -/
  selected : Option String
  /-- The document of the user has a `first_connect`. -/
  firstConnect : Bool
  /-- Welcome credits given. -/
  credits : ℕ
  /-- Orchestrations created. -/
  created : ℕ

/-- `create_orchestration`. -/
def Session.create (s : Session) (company : Option String) : Session :=
  { s with
    state := some ⟨s.created, .userSetup, false, company, false, false, [], .pending, []⟩
    created := s.created + 1 }

/-- `update_orchestration`. -/
def Session.update (s : Session) (f : Record → Record) : Session := { s with state := s.state.map f }

/-- `request_cancellation`. -/
def Session.requestCancellation (s : Session) : Session :=
  s.update fun st => { st with cancellationRequested := true }

/-- `is_cancelled`. -/
def Session.isCancelled (s : Session) (id : ℕ) : Bool :=
  match s.state with
  | none => true
  | some st => st.cancellationRequested || decide (st.orchestrationId ≠ id)

/-! ### Companies -/

/-- A mandate of `fetch_all_mandates_light`, with the fields that select. -/
structure Mandate where
  id : Option String
  contactSpaceId : Option String
  deriving DecidableEq

/-- `m.get("contact_space_id", m.get("id", ""))`. -/
def companyOf (m : Mandate) : String := m.contactSpaceId.getD (m.id.getD "")

/-- The mandates of the authorized companies; all of them when there is no list. -/
def filterAuthorized (authorized : List String) (mandates : List Mandate) : List Mandate :=
  if authorized = [] then mandates
  else mandates.filter fun m =>
    match m.contactSpaceId with
    | none => false
    | some c => c ∈ authorized

/-- The target, or the first mandate. -/
def selectMandate (target : Option String) : List Mandate → Option Mandate
  | [] => none
  | m :: ms =>
      match target with
      | none => some m
      | some t =>
          if t = "" then some m
          else some (((m :: ms).find? fun m => m.contactSpaceId = some t || m.id = some t).getD m)

/-- An account that is shared with the user; `companies` is `none` when it is no list. -/
structure SharedAccount where
  companies : Option (List String)
  isActive : Bool

/-- `authorized_companies_ids` of the user setup. -/
def authorizedCompanies (accounts : List SharedAccount) : List String :=
  accounts.flatMap fun a => if a.isActive then a.companies.getD [] else []

/-! ### Runs -/

/-- Where a run stands: after which wait, with what it has in its variables. -/
inductive Stage where
  | started
  | checkingDocument
  | readingDocument
  | documentRead (first : Bool)
  | toppingUp
  | flagging
  | credited
  | sendingProfile (first : Bool)
  | setupFailed
  | setupNotified
  | companyStarted
  | fetching (authorized : List String)
  | listing (mandates : List Mandate)
  | loading (company : String)
  | companyFailed
  | failing (setUp : Bool)
  | companyNotified (company : String)
  | llmStarted (company : String)
  | llmNotified (company : String)
  | populating (company : String)
  | fetchingData (company : String)
  | broadcasting (company : String)
  | dataErred (company : String)
  | completedNotified (company : String)
  | done (company : String)

/-- Opening the dashboard, or changing the company. -/
inductive Kind where
  | init
  | change (company : String)
  deriving DecidableEq

/-- A request with what the world answers to its run. -/
structure Plan where
  kind : Kind
  /-- `target_company_id` of the payload, when the dashboard opens. -/
  payloadTarget : Option String
  /-- The document of the user can be read, and it has these accounts. -/
  readable : Bool
  accounts : List SharedAccount
  /-- `none` when it is no list. -/
  mandates : Option (List Mandate)
  /-- The error of the wait before a stage. -/
  fault : Stage → Option String

/-- `target_company_id` of the run. -/
def Plan.target (plan : Plan) : Option String :=
  match plan.kind with
  | .init => plan.payloadTarget
  | .change company => some company

/-- The company that the record is created with. -/
def Plan.preselected (plan : Plan) : Option String :=
  match plan.kind with
  | .init => none
  | .change company => some company

/-- The accounts that the user setup sees. -/
def Plan.authorized (plan : Plan) : List String :=
  if plan.readable then authorizedCompanies plan.accounts else []

/-- The exception of a wait is caught in the user setup, in the company phase, in the data phase, or around it all. -/
inductive Catcher where
  | setup
  | company
  | data (company : String)
  | outer

/-- Where the wait before a stage stands; some stages follow another without a wait. -/
def Stage.catcher : Stage → Option Catcher
  | started | setupNotified | companyStarted | failing _ | companyNotified _ | llmStarted _ | llmNotified _ | dataErred _
  | completedNotified _ => some .outer
  | checkingDocument | readingDocument | toppingUp | flagging | credited | sendingProfile _ => some .setup
  | fetching _ | listing _ | loading _ => some .company
  | populating c | fetchingData c | broadcasting c => some (.data c)
  | documentRead _ | setupFailed | companyFailed | done _ => none

/-- A run that goes on at a stage, or has ended there. -/
structure Progress where
  session : Session
  stage : Stage
  ended : Bool

/-- The handlers of exceptions. -/
def raised (s : Session) (stage : Stage) (message : String) : Catcher → Progress
  | .setup => ⟨s, .setupFailed, false⟩
  | .company => ⟨s, .companyFailed, false⟩
  | .data c => ⟨s.update fun st => { st with widgetsStatus := .error }, .dataErred c, false⟩
  | .outer => ⟨s.update fun st => { st with phase := .error, errors := [message] }, stage, true⟩

/-- Go on unless the run is cancelled; a cancelled run is at `other`. -/
def unlessCancelled (s : Session) (id : ℕ) (other : Progress) (k : Progress) : Progress :=
  if s.isCancelled id then other else k

/-- `_run_orchestration` from one wait to the next. -/
def proceed (plan : Plan) (id : ℕ) (s : Session) : Stage → Progress
  -- `_run_user_setup_phase`
  | .started => ⟨s, .checkingDocument, false⟩
  | .checkingDocument => unlessCancelled s id ⟨s, .setupFailed, false⟩ ⟨s, .readingDocument, false⟩
  | .readingDocument => ⟨s, .documentRead (plan.readable && !s.firstConnect), false⟩
  | .documentRead first =>
      if first then ⟨s, .toppingUp, false⟩
      else unlessCancelled s id ⟨s, .setupFailed, false⟩ ⟨s, .sendingProfile false, false⟩
  | .toppingUp => ⟨{ s with credits := s.credits + 1 }, .flagging, false⟩
  | .flagging => ⟨{ s with firstConnect := true }, .credited, false⟩
  | .credited => unlessCancelled s id ⟨s, .setupFailed, false⟩ ⟨s, .sendingProfile true, false⟩
  | .sendingProfile first =>
      unlessCancelled s id ⟨s, .sendingProfile first, true⟩
        ⟨s.update fun st => { st with
            isFirstConnect := first
            isInvitedUser := decide (plan.authorized ≠ [])
            authorizedCompaniesIds := plan.authorized
            phase := .company }, .setupNotified, false⟩
  | .setupFailed => unlessCancelled s id ⟨s, .setupFailed, true⟩ ⟨s, .failing false, false⟩
  | .setupNotified => ⟨s, .companyStarted, false⟩
  -- `_run_company_phase`
  | .companyStarted =>
      ⟨s, .fetching (match s.state with | none => [] | some st => st.authorizedCompaniesIds), false⟩
  | .fetching authorized =>
      match plan.mandates.map (filterAuthorized authorized) with
      | none | some [] => ⟨s, .companyFailed, false⟩
      | some mandates => ⟨s, .listing mandates, false⟩
  | .listing mandates =>
      unlessCancelled s id ⟨s, .companyFailed, false⟩
        (match selectMandate plan.target mandates with
        | none => ⟨s, .companyFailed, false⟩
        | some m => ⟨s, .loading (companyOf m), false⟩)
  | .loading c =>
      let s := { s with selected := some c }
      unlessCancelled s id ⟨s, .loading c, true⟩
        (if c = "" then ⟨s, .failing true, false⟩
        else ⟨s.update fun st => { st with selectedCompanyId := some c, phase := .data }, .companyNotified c, false⟩)
  | .companyFailed => unlessCancelled s id ⟨s, .companyFailed, true⟩ ⟨s, .failing true, false⟩
  | .failing setUp => ⟨s, .failing setUp, true⟩
  -- the chat
  | .companyNotified c => ⟨s, .llmStarted c, false⟩
  | .llmStarted c =>
      unlessCancelled s id ⟨s, .llmStarted c, true⟩ ⟨s.update fun st => { st with phase := .data }, .llmNotified c, false⟩
  -- `_run_data_phase`
  | .llmNotified c => ⟨s.update fun st => { st with widgetsStatus := .loading }, .populating c, false⟩
  | .populating c => unlessCancelled s id ⟨s, .populating c, true⟩ ⟨s, .fetchingData c, false⟩
  | .fetchingData c =>
      unlessCancelled s id ⟨s, .fetchingData c, true⟩
        ⟨s.update fun st => { st with widgetsStatus := .completed }, .broadcasting c, false⟩
  | .broadcasting c =>
      unlessCancelled s id ⟨s, .broadcasting c, true⟩
        ⟨s.update fun st => { st with phase := .completed }, .completedNotified c, false⟩
  | .dataErred c =>
      unlessCancelled s id ⟨s, .dataErred c, true⟩
        ⟨s.update fun st => { st with phase := .completed }, .completedNotified c, false⟩
  | .completedNotified c => ⟨s, .done c, true⟩
  | .done c => ⟨s, .done c, true⟩

/-- A wait of the run may raise. -/
def runStep (plan : Plan) (id : ℕ) (s : Session) (stage : Stage) : Progress :=
  match stage.catcher, plan.fault stage with
  | some catcher, some message => raised s stage message catcher
  | _, _ => proceed plan id s stage

/-- A step is an exception that is handled, or goes on. -/
theorem runStep_cases (P : Progress → Prop) {plan : Plan} {id : ℕ} {s : Session} {stage : Stage}
    (hraised : ∀ catcher message, stage.catcher = some catcher → P (raised s stage message catcher))
    (hproceed : P (proceed plan id s stage)) : P (runStep plan id s stage) := by
  unfold runStep
  split
  · next catcher message hcatcher _ => exact hraised catcher message hcatcher
  · exact hproceed

/-! ### Handlers -/

/-- A request on its way, its run, or the expiry of the record. -/
inductive Pc where
  | request (plan : Plan)
  /-- `asyncio.sleep(0.1)` after the cancellation. -/
  | cancelling (plan : Plan)
  | refused (plan : Plan)
  | run (plan : Plan) (id : ℕ) (stage : Stage) (ended : Bool)
  | expiry
  | expired

/-- The first stage of a run: a change of the company skips the user setup. -/
def Plan.firstStage (plan : Plan) : Stage :=
  match plan.kind with
  | .init => .started
  | .change _ => .companyStarted

/-- `create_orchestration` and the start of the run. -/
def begin_ (s : Session) (plan : Plan) : Session × Pc :=
  (s.create plan.preselected, .run plan s.created plan.firstStage false)

/-- The companies of the record admit the company of a change. -/
def Session.admits (s : Session) (company : String) : Bool :=
  match s.state with
  | none => true
  | some st => decide (st.authorizedCompaniesIds = []) || decide (company ∈ st.authorizedCompaniesIds)

/-- `handle_orchestrate_init`, `handle_company_change`, `_run_orchestration`. -/
def next (s : Session) : Pc → Option (Session × Pc)
  | .request plan =>
      match plan.kind with
      | .init => some (if s.state.isSome then (s.requestCancellation, .cancelling plan) else begin_ s plan)
      | .change company =>
          some (if company = "" then (s, .refused plan)
            else if s.admits company then (s.requestCancellation, .cancelling plan)
            else (s, .refused plan))
  | .cancelling plan => some (begin_ s plan)
  | .run plan id stage false =>
      let p := runStep plan id s stage
      some (p.session, .run plan id p.stage p.ended)
  | .expiry => some ({ s with state := none }, .expired)
  | .refused _ | .run _ _ _ true | .expired => none

/-! ### What the current run has arranged -/

/-- The companies that the company phase of the run filters by, when it runs alone: a change of the company starts with
an empty record and skips the user setup. -/
def Plan.filter (plan : Plan) : List String :=
  match plan.kind with
  | .init => plan.authorized
  | .change _ => []

/-- What the run selects alone. -/
def Plan.selection (plan : Plan) : Option String :=
  match plan.mandates with
  | none => none
  | some mandates => (selectMandate plan.target (filterAuthorized plan.filter mandates)).map companyOf

/-- The user setup is done. -/
def Stage.setUp : Stage → Bool
  | started | checkingDocument | readingDocument | documentRead _ | toppingUp | flagging | credited | sendingProfile _
  | setupFailed => false
  | failing setUp => setUp
  | _ => true

/-- The company that the run has written into the record. -/
def Stage.company : Stage → Option String
  | companyNotified c | llmStarted c | llmNotified c | populating c | fetchingData c | broadcasting c | dataErred c
  | completedNotified c | done c => some c
  | _ => none

/-- The company that the run has selected. -/
def Stage.chosen : Stage → Option String
  | loading c => some c
  | stage => stage.company

/-- The run is through. -/
def Stage.through : Stage → Bool
  | completedNotified _ | done _ => true
  | _ => false

/-- The phase that the run has written last. -/
def Stage.phase (plan : Plan) (stage : Stage) : Phase :=
  if stage.through then .completed
  else if stage.company.isSome then .data
  else if stage.setUp && decide (plan.kind = .init) then .company
  else .userSetup

/-- What a run that is not cancelled has in its variables. -/
def Stage.ReadsOwn (plan : Plan) : Stage → Prop
  | fetching authorized => authorized = plan.filter
  | listing mandates => plan.mandates.map (filterAuthorized plan.filter) = some mandates
  | _ => True

/-- The record agrees with its run. -/
structure Agrees (plan : Plan) (stage : Stage) (st : Record) : Prop where
  phase : st.phase = stage.phase plan ∨ st.phase = .error
  authorized : st.authorizedCompaniesIds = if stage.setUp then plan.filter else []
  selected : st.selectedCompanyId = stage.company.or plan.preselected
  reads : st.cancellationRequested = false → stage.ReadsOwn plan

/-- A write that may hit the record of another run: it changes the widgets, or says that there was an error. -/
structure Spoils (st st' : Record) : Prop where
  id : st'.orchestrationId = st.orchestrationId
  flag : st'.cancellationRequested = st.cancellationRequested
  authorized : st'.authorizedCompaniesIds = st.authorizedCompaniesIds
  selected : st'.selectedCompanyId = st.selectedCompanyId
  phase : st'.phase = st.phase ∨ st'.phase = .error

theorem Spoils.refl (st : Record) : Spoils st st := ⟨rfl, rfl, rfl, rfl, .inl rfl⟩

theorem Agrees.spoiled {plan : Plan} {stage : Stage} {st st' : Record} (h : Agrees plan stage st) (hs : Spoils st st') :
    Agrees plan stage st' where
  phase := by
    rcases hs.phase with hp | hp
    · rw [hp]
      exact h.phase
    · exact .inr hp
  authorized := hs.authorized.trans h.authorized
  selected := hs.selected.trans h.selected
  reads := fun hf => h.reads (hs.flag ▸ hf)

/-- A run that moves on without a write. -/
theorem Agrees.move {plan : Plan} {stage stage' : Stage} {st : Record} (h : Agrees plan stage st)
    (hphase : stage'.phase plan = stage.phase plan) (hsetUp : stage'.setUp = stage.setUp)
    (hcompany : stage'.company = stage.company)
    (hreads : st.cancellationRequested = false → stage'.ReadsOwn plan) : Agrees plan stage' st where
  phase := by
    rw [hphase]
    exact h.phase
  authorized := by
    rw [hsetUp]
    exact h.authorized
  selected := by
    rw [hcompany]
    exact h.selected
  reads := hreads

/-! ### One step of a run -/

theorem isCancelled_eq_false {s : Session} {id : ℕ} (h : s.isCancelled id = false) :
    ∃ st, s.state = some st ∧ st.cancellationRequested = false ∧ st.orchestrationId = id := by
  unfold Session.isCancelled at h
  cases hst : s.state with
  | none =>
      rw [hst] at h
      cases h
  | some st =>
      rw [hst] at h
      simp only [Bool.or_eq_false_iff, decide_eq_false_iff_not, ne_eq, not_not] at h
      exact ⟨st, rfl, h.1, h.2⟩

/-- A write that spoils the record at worst. -/
def SpoilsAtWorst (s s' : Session) : Prop := ∃ f : Record → Record, (∀ st, Spoils st (f st)) ∧ s'.state = s.state.map f

theorem SpoilsAtWorst.of_eq {s s' : Session} (h : s'.state = s.state) : SpoilsAtWorst s s' :=
  ⟨fun st => st, Spoils.refl, by rw [h, Option.map_id']⟩

theorem spoilsAtWorst_widgets (s : Session) (w : WidgetsStatus) :
    SpoilsAtWorst s (s.update fun st => { st with widgetsStatus := w }) :=
  ⟨fun st => { st with widgetsStatus := w }, fun _ => ⟨rfl, rfl, rfl, rfl, .inl rfl⟩, rfl⟩

theorem spoilsAtWorst_raised (s : Session) (stage : Stage) (message : String) (catcher : Catcher) :
    SpoilsAtWorst s (raised s stage message catcher).session := by
  cases catcher with
  | setup => exact .of_eq rfl
  | company => exact .of_eq rfl
  | data c => exact spoilsAtWorst_widgets s .error
  | outer =>
      exact ⟨fun st => { st with phase := .error, errors := [message] }, fun _ => ⟨rfl, rfl, rfl, rfl, .inr rfl⟩, rfl⟩

theorem proceed_cancelled (plan : Plan) {id : ℕ} {s : Session} (stage : Stage) (hc : s.isCancelled id = true) :
    SpoilsAtWorst s (proceed plan id s stage).session := by
  cases stage with
  | llmNotified c => exact spoilsAtWorst_widgets s .loading
  | documentRead first =>
      apply SpoilsAtWorst.of_eq
      cases first with
      | true => rfl
      | false => simp [proceed, unlessCancelled, hc]
  | fetching authorized =>
      apply SpoilsAtWorst.of_eq
      simp only [proceed]
      split <;> rfl
  | loading c =>
      apply SpoilsAtWorst.of_eq
      have hc' : ({ s with selected := some c } : Session).isCancelled id = true := hc
      simp only [proceed, unlessCancelled, hc', if_true]
  | _ =>
      apply SpoilsAtWorst.of_eq
      first
      | rfl
      | simp only [proceed, unlessCancelled, hc, if_true]

/-- **A run that is cancelled** spoils the record at worst. -/
theorem runStep_cancelled (plan : Plan) {id : ℕ} {s : Session} (stage : Stage) (hc : s.isCancelled id = true) :
    SpoilsAtWorst s (runStep plan id s stage).session :=
  runStep_cases (fun p => SpoilsAtWorst s p.session)
    (fun catcher message _ => spoilsAtWorst_raised s stage message catcher) (proceed_cancelled plan stage hc)

/-- After the step, the record is still that of the run, and agrees with it. -/
def Progress.Good (plan : Plan) (id : ℕ) (p : Progress) : Prop :=
  ∀ st, p.session.state = some st → st.orchestrationId = id ∧ Agrees plan p.stage st

section Own

variable {plan : Plan} {id : ℕ} {s : Session} {stage : Stage} {st : Record}

theorem good_move (hst : s.state = some st) (hid : st.orchestrationId = id) (h : Agrees plan stage st) {s' : Session}
    {stage' : Stage} (ended : Bool) (hs' : s'.state = s.state) (hphase : stage'.phase plan = stage.phase plan)
    (hsetUp : stage'.setUp = stage.setUp) (hcompany : stage'.company = stage.company)
    (hreads : st.cancellationRequested = false → stage'.ReadsOwn plan) :
    Progress.Good plan id ⟨s', stage', ended⟩ := by
  intro st' hst'
  obtain rfl : st = st' := by
    rw [show s'.state = some st' from hst', hst] at hs'
    exact (Option.some.inj hs').symm
  exact ⟨hid, h.move hphase hsetUp hcompany hreads⟩

theorem good_write (hst : s.state = some st) (hid : st.orchestrationId = id) {f : Record → Record} {stage' : Stage}
    (ended : Bool) (hf : (f st).orchestrationId = st.orchestrationId) (h : Agrees plan stage' (f st)) :
    Progress.Good plan id ⟨s.update f, stage', ended⟩ := by
  intro st' hst'
  obtain rfl : f st = st' := by
    rw [show (s.update f).state = some (f st) from by simp [Session.update, hst]] at hst'
    exact Option.some.inj hst'
  exact ⟨hf.trans hid, h⟩

theorem good_unlessCancelled {other k : Progress} (hother : other.Good plan id)
    (hk : s.isCancelled id = false → k.Good plan id) : (unlessCancelled s id other k).Good plan id := by
  unfold unlessCancelled
  cases hc : s.isCancelled id with
  | true => exact hother
  | false => exact hk hc

/-- **An exception** in the current run leaves a record that agrees with the handler's stage. -/
theorem raised_good (hst : s.state = some st) (hid : st.orchestrationId = id) (h : Agrees plan stage st)
    {catcher : Catcher} (hcatcher : stage.catcher = some catcher) (message : String) :
    (raised s stage message catcher).Good plan id := by
  cases catcher with
  | setup =>
      apply good_move hst hid h _ rfl <;> cases stage <;> first | rfl | exact fun _ => trivial | cases hcatcher
  | company =>
      apply good_move hst hid h _ rfl <;> cases stage <;> first | rfl | exact fun _ => trivial | cases hcatcher
  | data c =>
      apply good_write hst hid false rfl
      have hspoiled : Agrees plan stage { st with widgetsStatus := .error } :=
        h.spoiled ⟨rfl, rfl, rfl, rfl, .inl rfl⟩
      cases stage <;> cases hcatcher <;> exact hspoiled.move rfl rfl rfl fun _ => trivial
  | outer =>
      apply good_write hst hid true rfl
      exact h.spoiled ⟨rfl, rfl, rfl, rfl, .inr rfl⟩

/-- **A step of the current run** leaves a record that agrees with its new stage. -/
theorem proceed_good (hst : s.state = some st) (hid : st.orchestrationId = id) (h : Agrees plan stage st)
    (hkind : stage.setUp = false → plan.kind = .init) : (proceed plan id s stage).Good plan id := by
  cases stage with
  | started => exact good_move hst hid h _ rfl rfl rfl rfl fun _ => trivial
  | checkingDocument =>
      exact good_unlessCancelled (good_move hst hid h _ rfl rfl rfl rfl fun _ => trivial)
        fun _ => good_move hst hid h _ rfl rfl rfl rfl fun _ => trivial
  | readingDocument => exact good_move hst hid h _ rfl rfl rfl rfl fun _ => trivial
  | documentRead first =>
      cases first with
      | true => exact good_move hst hid h _ rfl rfl rfl rfl fun _ => trivial
      | false =>
          exact good_unlessCancelled (good_move hst hid h _ rfl rfl rfl rfl fun _ => trivial)
            fun _ => good_move hst hid h _ rfl rfl rfl rfl fun _ => trivial
  | toppingUp => exact good_move hst hid h _ rfl rfl rfl rfl fun _ => trivial
  | flagging => exact good_move hst hid h _ rfl rfl rfl rfl fun _ => trivial
  | credited =>
      exact good_unlessCancelled (good_move hst hid h _ rfl rfl rfl rfl fun _ => trivial)
        fun _ => good_move hst hid h _ rfl rfl rfl rfl fun _ => trivial
  | sendingProfile first =>
      refine good_unlessCancelled (good_move hst hid h _ rfl rfl rfl rfl fun _ => trivial) fun _ => ?_
      -- the list of the user setup enters the record
      have hinit : plan.kind = .init := hkind rfl
      refine good_write hst hid _ rfl ⟨.inl ?_, ?_, h.selected, fun _ => trivial⟩
      · show Phase.company = _
        simp [Stage.phase, Stage.through, Stage.company, Stage.setUp, hinit]
      · show plan.authorized = plan.filter
        simp [Plan.filter, hinit]
  | setupFailed =>
      exact good_unlessCancelled (good_move hst hid h _ rfl rfl rfl rfl fun _ => trivial)
        fun _ => good_move hst hid h _ rfl rfl rfl rfl fun _ => trivial
  | setupNotified => exact good_move hst hid h _ rfl rfl rfl rfl fun _ => trivial
  | companyStarted =>
      refine good_move hst hid h _ rfl rfl rfl rfl fun _ => ?_
      show (match s.state with | none => [] | some st => st.authorizedCompaniesIds) = plan.filter
      rw [hst]
      exact h.authorized
  | fetching authorized =>
      simp only [proceed]
      split
      · exact good_move hst hid h _ rfl rfl rfl rfl fun _ => trivial
      · exact good_move hst hid h _ rfl rfl rfl rfl fun _ => trivial
      · next mandates _ hm =>
        refine good_move hst hid h _ rfl rfl rfl rfl fun hf => ?_
        obtain rfl : authorized = plan.filter := h.reads hf
        exact hm
  | listing mandates =>
      refine good_unlessCancelled (good_move hst hid h _ rfl rfl rfl rfl fun _ => trivial) fun _ => ?_
      split
      · exact good_move hst hid h _ rfl rfl rfl rfl fun _ => trivial
      · exact good_move hst hid h _ rfl rfl rfl rfl fun _ => trivial
  | loading c =>
      refine good_unlessCancelled (good_move hst hid h _ rfl rfl rfl rfl fun _ => trivial) fun _ => ?_
      by_cases hc : c = ""
      · rw [if_pos hc]
        exact good_move hst hid h _ rfl rfl rfl rfl fun _ => trivial
      · rw [if_neg hc]
        exact good_write (s := { s with selected := some c }) hst hid _ rfl
          ⟨.inl rfl, h.authorized, rfl, fun _ => trivial⟩
  | companyFailed =>
      exact good_unlessCancelled (good_move hst hid h _ rfl rfl rfl rfl fun _ => trivial)
        fun _ => good_move hst hid h _ rfl rfl rfl rfl fun _ => trivial
  | failing setUp => exact good_move hst hid h _ rfl rfl rfl rfl fun _ => trivial
  | companyNotified c => exact good_move hst hid h _ rfl rfl rfl rfl fun _ => trivial
  | llmStarted c =>
      refine good_unlessCancelled (good_move hst hid h _ rfl rfl rfl rfl fun _ => trivial) fun _ => ?_
      exact good_write hst hid _ rfl ⟨.inl rfl, h.authorized, h.selected, fun _ => trivial⟩
  | llmNotified c =>
      apply good_write hst hid _ rfl
      have hspoiled : Agrees plan (.llmNotified c) { st with widgetsStatus := .loading } :=
        h.spoiled ⟨rfl, rfl, rfl, rfl, .inl rfl⟩
      exact hspoiled.move rfl rfl rfl fun _ => trivial
  | populating c =>
      exact good_unlessCancelled (good_move hst hid h _ rfl rfl rfl rfl fun _ => trivial)
        fun _ => good_move hst hid h _ rfl rfl rfl rfl fun _ => trivial
  | fetchingData c =>
      refine good_unlessCancelled (good_move hst hid h _ rfl rfl rfl rfl fun _ => trivial) fun _ => ?_
      apply good_write hst hid _ rfl
      have hspoiled : Agrees plan (.fetchingData c) { st with widgetsStatus := .completed } :=
        h.spoiled ⟨rfl, rfl, rfl, rfl, .inl rfl⟩
      exact hspoiled.move rfl rfl rfl fun _ => trivial
  | broadcasting c =>
      refine good_unlessCancelled (good_move hst hid h _ rfl rfl rfl rfl fun _ => trivial) fun _ => ?_
      exact good_write hst hid _ rfl ⟨.inl rfl, h.authorized, h.selected, fun _ => trivial⟩
  | dataErred c =>
      refine good_unlessCancelled (good_move hst hid h _ rfl rfl rfl rfl fun _ => trivial) fun _ => ?_
      exact good_write hst hid _ rfl ⟨.inl rfl, h.authorized, h.selected, fun _ => trivial⟩
  | completedNotified c => exact good_move hst hid h _ rfl rfl rfl rfl fun _ => trivial
  | done c => exact good_move hst hid h _ rfl rfl rfl rfl fun _ => trivial

theorem runStep_good (hst : s.state = some st) (hid : st.orchestrationId = id) (h : Agrees plan stage st)
    (hkind : stage.setUp = false → plan.kind = .init) : (runStep plan id s stage).Good plan id :=
  runStep_cases (Progress.Good plan id) (fun _ message hcatcher => raised_good hst hid h hcatcher message)
    (proceed_good hst hid h hkind)

end Own

/-- The id of the record, if there is one. -/
def Session.current (s : Session) : Option ℕ := s.state.map Record.orchestrationId

/-- A step that creates no orchestration. -/
structure SameRecord (s s' : Session) : Prop where
  created : s'.created = s.created
  current : s'.current = s.current

theorem SameRecord.refl (s : Session) : SameRecord s s := ⟨rfl, rfl⟩

theorem sameRecord_update (s : Session) {f : Record → Record}
    (hf : ∀ st, (f st).orchestrationId = st.orchestrationId) : SameRecord s (s.update f) where
  created := rfl
  current := by
    show (s.state.map f).map Record.orchestrationId = s.state.map Record.orchestrationId
    rw [Option.map_map]
    congr 1
    funext st
    exact hf st

theorem sameRecord_unlessCancelled {s s₀ : Session} {id : ℕ} {other k : Progress} (hother : SameRecord s other.session)
    (hk : SameRecord s k.session) : SameRecord s (unlessCancelled s₀ id other k).session := by
  unfold unlessCancelled
  split
  · exact hother
  · exact hk

theorem sameRecord_proceed (plan : Plan) (id : ℕ) (s : Session) (stage : Stage) :
    SameRecord s (proceed plan id s stage).session := by
  cases stage with
  | documentRead first =>
      cases first with
      | true => exact .refl s
      | false => exact sameRecord_unlessCancelled (.refl s) (.refl s)
  | fetching authorized =>
      simp only [proceed]
      split <;> exact .refl s
  | listing mandates =>
      refine sameRecord_unlessCancelled (.refl s) ?_
      split <;> exact .refl s
  | loading c =>
      refine sameRecord_unlessCancelled ⟨rfl, rfl⟩ ?_
      split
      · exact ⟨rfl, rfl⟩
      · have hupdate := sameRecord_update { s with selected := some c }
          (f := fun st => { st with selectedCompanyId := some c, phase := .data }) fun _ => rfl
        exact ⟨hupdate.created, hupdate.current⟩
  | _ =>
      first
      | exact .refl s
      | exact ⟨rfl, rfl⟩
      | exact sameRecord_update s fun _ => rfl
      | exact sameRecord_unlessCancelled (.refl s) (.refl s)
      | exact sameRecord_unlessCancelled (.refl s) (sameRecord_update s fun _ => rfl)

theorem sameRecord_runStep (plan : Plan) (id : ℕ) (s : Session) (stage : Stage) :
    SameRecord s (runStep plan id s stage).session := by
  refine runStep_cases (fun p => SameRecord s p.session) ?_ (sameRecord_proceed plan id s stage)
  intro catcher message _
  cases catcher with
  | setup => exact .refl s
  | company => exact .refl s
  | data c => exact sameRecord_update s fun _ => rfl
  | outer => exact sameRecord_update s fun _ => rfl

theorem proceed_setUp (plan : Plan) (id : ℕ) (s : Session) {stage : Stage} (h : stage.setUp = true) :
    (proceed plan id s stage).stage.setUp = true := by
  cases stage with
  | fetching authorized =>
      simp only [proceed]
      split <;> rfl
  | listing mandates =>
      simp only [proceed, unlessCancelled]
      split
      · rfl
      · split <;> rfl
  | loading c =>
      simp only [proceed, unlessCancelled]
      split
      · rfl
      · split <;> rfl
  | _ =>
      first
      | exact h
      | (simp only [proceed, unlessCancelled]; split <;> rfl)
      | cases h

/-- The user setup stays done. -/
theorem runStep_setUp (plan : Plan) (id : ℕ) (s : Session) {stage : Stage} (h : stage.setUp = true) :
    (runStep plan id s stage).stage.setUp = true := by
  refine runStep_cases (fun p => p.stage.setUp = true) ?_ (proceed_setUp plan id s h)
  intro catcher message hcatcher
  cases catcher with
  | setup => cases stage <;> cases hcatcher <;> cases h
  | company => rfl
  | data c => rfl
  | outer => exact h

/-- `c` has been selected before the step, or right after the run has found that it is not cancelled. -/
def Selects (plan : Plan) (id : ℕ) (s : Session) (stage : Stage) (c : String) : Prop :=
  stage.chosen = some c ∨ ∃ mandates, stage = .listing mandates ∧ s.isCancelled id = false ∧
    (selectMandate plan.target mandates).map companyOf = some c

theorem proceed_chosen {plan : Plan} {id : ℕ} {s : Session} {stage : Stage} {c : String}
    (h : (proceed plan id s stage).stage.chosen = some c) : Selects plan id s stage c := by
  cases stage with
  | fetching authorized =>
      simp only [proceed] at h
      split at h <;> cases h
  | listing mandates =>
      simp only [proceed, unlessCancelled] at h
      split at h
      · cases h
      · next hc =>
        refine .inr ⟨mandates, rfl, by simpa using hc, ?_⟩
        cases hm : selectMandate plan.target mandates with
        | none =>
            rw [hm] at h
            cases h
        | some m =>
            rw [hm] at h
            exact h
  | loading c' =>
      simp only [proceed, unlessCancelled] at h
      split at h
      · exact .inl h
      · split at h
        · cases h
        · exact .inl h
  | documentRead first =>
      simp only [proceed, unlessCancelled] at h
      split at h
      · cases h
      · split at h <;> cases h
  | _ =>
      simp only [proceed, unlessCancelled] at h
      first
      | exact .inl h
      | cases h
      | (split at h <;> exact .inl h)

theorem runStep_chosen {plan : Plan} {id : ℕ} {s : Session} {stage : Stage} {c : String} :
    (runStep plan id s stage).stage.chosen = some c → Selects plan id s stage c := by
  refine runStep_cases (fun p => p.stage.chosen = some c → Selects plan id s stage c) ?_ proceed_chosen
  intro catcher message hcatcher h
  cases catcher with
  | setup => cases h
  | company => cases h
  | data c' =>
      left
      cases stage <;> cases hcatcher <;> exact h
  | outer => exact .inl h

/-! ### All interleavings -/

/-- The runs have the ids of their orchestrations. -/
def Pc.numberOf : Pc → Option ℕ
  | run _ id _ _ => some id
  | _ => none

/-- The run of the record is the current one. -/
def numbering : Numbering Session Pc := ⟨Pc.numberOf, Session.current, Session.created⟩

/-- The record agrees with the run. -/
def Own (s : Session) : Pc → Prop
  | .run plan _ stage _ => ∀ st, s.state = some st → Agrees plan stage st
  | _ => True

/-- Only opening the dashboard sets up the user, and the company that a run has selected is its own. -/
def Local : Pc → Prop
  | .run plan _ stage _ =>
      (stage.setUp = false → plan.kind = .init) ∧ ∀ c, stage.chosen = some c → plan.selection = some c
  | _ => True

theorem begin_begins {s : Session} {l : Pc} (plan : Plan) (hl : l.numberOf = none) :
    Begins numbering s (begin_ s plan).1 l (begin_ s plan).2 ∧ Own (begin_ s plan).1 (begin_ s plan).2 := by
  refine ⟨⟨hl, rfl, rfl, rfl⟩, ?_⟩
  intro st hst
  obtain rfl := (Option.some.inj (show some _ = some st from hst)).symm
  cases hkind : plan.kind with
  | init =>
      have hfirst : plan.firstStage = .started := by simp [Plan.firstStage, hkind]
      rw [hfirst]
      exact ⟨.inl rfl, rfl, rfl, fun _ => trivial⟩
  | change company =>
      have hfirst : plan.firstStage = .companyStarted := by simp [Plan.firstStage, hkind]
      have hfilter : plan.filter = [] := by simp [Plan.filter, hkind]
      rw [hfirst]
      refine ⟨.inl ?_, hfilter.symm, rfl, fun _ => trivial⟩
      show Phase.userSetup = _
      simp [Stage.phase, Stage.through, Stage.company, Stage.setUp, hkind]

theorem local_begin (s : Session) (plan : Plan) : Local (begin_ s plan).2 := by
  show (plan.firstStage.setUp = false → plan.kind = .init) ∧
    ∀ c, plan.firstStage.chosen = some c → plan.selection = some c
  cases hkind : plan.kind with
  | init =>
      have hfirst : plan.firstStage = .started := by simp [Plan.firstStage, hkind]
      rw [hfirst]
      exact ⟨fun _ => rfl, fun _ hc => by cases hc⟩
  | change company =>
      have hfirst : plan.firstStage = .companyStarted := by simp [Plan.firstStage, hkind]
      rw [hfirst]
      exact ⟨fun hs => (by cases hs), fun _ hc => (by cases hc)⟩

/-- A step of a run keeps the numbers. -/
theorem keeps_run (plan : Plan) (id : ℕ) (s : Session) (stage : Stage) {ended ended' : Bool} :
    Keeps numbering s (runStep plan id s stage).session (.run plan id stage ended)
      (.run plan id (runStep plan id s stage).stage ended') :=
  ⟨rfl, (sameRecord_runStep plan id s stage).created, .inl (sameRecord_runStep plan id s stage).current⟩

/-- What a step can be: the start of an orchestration, a cancellation or a refusal, a step of a run, or an expiry. -/
inductive Move (s : Session) : Pc → Session → Pc → Prop where
  | begins (l : Pc) (plan : Plan) (hl : l.numberOf = none) : Move s l (begin_ s plan).1 (begin_ s plan).2
  | cancels (plan : Plan) : Move s (.request plan) s.requestCancellation (.cancelling plan)
  | refuses (plan : Plan) : Move s (.request plan) s (.refused plan)
  | runs (plan : Plan) (id : ℕ) (stage : Stage) :
      Move s (.run plan id stage false) (runStep plan id s stage).session
        (.run plan id (runStep plan id s stage).stage (runStep plan id s stage).ended)
  | expires : Move s .expiry { s with state := none } .expired

theorem move_of_next {s s' : Session} {l l' : Pc} (h : next s l = some (s', l')) : Move s l s' l' := by
  cases l with
  | request plan =>
      simp only [next] at h
      split at h
      · split at h
        · cases h
          exact .cancels plan
        · cases h
          exact .begins _ plan rfl
      · split at h
        · cases h
          exact .refuses plan
        · split at h
          · cases h
            exact .cancels plan
          · cases h
            exact .refuses plan
  | cancelling plan =>
      cases h
      exact .begins _ plan rfl
  | run plan id stage ended =>
      cases ended with
      | false =>
          cases h
          exact .runs plan id stage
      | true => cases h
  | expiry =>
      cases h
      exact .expires
  | refused plan => cases h
  | expired => cases h

/-- The flag of a cancellation spoils nothing. -/
theorem Agrees.flagged {plan : Plan} {stage : Stage} {st : Record} (h : Agrees plan stage st) :
    Agrees plan stage { st with cancellationRequested := true } :=
  ⟨h.phase, h.authorized, h.selected, fun hf => by cases hf⟩

theorem current_eq_some {s : Session} {st : Record} (h : s.state = some st) : s.current = some st.orchestrationId := by
  simp [Session.current, h]

/-- **The runs supersede each other.** -/
theorem superseding : Superseding numbering next Own Local where
  cases := by
    intro s l s' l' h
    cases move_of_next h with
    | begins _ plan hl => exact .inr (begin_begins plan hl)
    | cancels plan =>
        exact .inl ⟨rfl, rfl, .inl (sameRecord_update s (f := fun st => { st with cancellationRequested := true })
          fun _ => rfl).current⟩
    | refuses plan => exact .inl ⟨rfl, rfl, .inl rfl⟩
    | runs plan id stage => exact .inl (keeps_run plan id s stage)
    | expires => exact .inl ⟨rfl, rfl, .inr rfl⟩
  own := by
    intro s l s' l' h _ hne hcur hown hlocal
    cases move_of_next h with
    | begins _ plan hl => exact absurd hl hne
    | cancels plan => trivial
    | refuses plan => trivial
    | expires => trivial
    | runs plan id stage =>
        intro st' hst'
        cases hst : s.state with
        | none =>
            rw [show numbering.current s = none from by simp [numbering, Session.current, hst]] at hcur
            cases hcur
        | some st =>
            have hid : st.orchestrationId = id := by
              rw [show numbering.current s = some st.orchestrationId from current_eq_some hst] at hcur
              exact Option.some.inj hcur
            exact (runStep_good hst hid (hown st hst) hlocal.1 st' hst').2
  frame := by
    intro s l s' l' m h hk hne hcur hdiff hown
    cases m with
    | run plan' id' stage' ended' =>
        intro st' hst'
        cases move_of_next h with
        | begins _ plan hl => cases hk.number.trans hl
        | cancels plan =>
            obtain ⟨st, hst, rfl⟩ := Option.map_eq_some_iff.mp hst'
            exact (hown st hst).flagged
        | refuses plan => exact hown st' hst'
        | expires => cases hst'
        | runs plan id stage =>
            have hc : s.isCancelled id = true := by
              cases hf : s.isCancelled id with
              | true => rfl
              | false =>
                  obtain ⟨st, hst, -, hid⟩ := isCancelled_eq_false hf
                  rw [show numbering.current s = some st.orchestrationId from current_eq_some hst, hid] at hcur
                  exact absurd hcur hdiff
            obtain ⟨f, hf, hstate⟩ := runStep_cancelled plan stage hc
            rw [hstate] at hst'
            obtain ⟨st, hst, rfl⟩ := Option.map_eq_some_iff.mp hst'
            exact (hown st hst).spoiled (hf st)
    | _ => trivial
  here := by
    intro s l s' l' h hown hlocal
    cases move_of_next h with
    | begins _ plan hl => exact local_begin s plan
    | cancels plan => trivial
    | refuses plan => trivial
    | expires => trivial
    | runs plan id stage =>
        refine ⟨fun hs => hlocal.1 ?_, fun c hc => ?_⟩
        · by_contra hne
          rw [runStep_setUp plan id s (by simpa using hne)] at hs
          cases hs
        · rcases runStep_chosen hc with hc | ⟨mandates, rfl, hlive, hm⟩
          · exact hlocal.2 c hc
          · -- not cancelled, so the list is its own
            obtain ⟨st, hst, hflag, hid⟩ := isCancelled_eq_false hlive
            have hagrees := hown (Option.some_ne_none id) ((current_eq_some hst).trans (congrArg some hid)) st hst
            obtain ⟨all, hall, rfl⟩ := Option.map_eq_some_iff.mp (hagrees.reads hflag)
            show (match plan.mandates with | none => none | some ms => _) = some c
            rw [hall]
            exact hm

/-- A request that has not been looked at yet, or an expiry to come. -/
def Pc.fresh : Pc → Bool
  | request _ | expiry => true
  | _ => false

/-- Any requests and expiries, in a session without an orchestration. -/
def start (s : Session) (arrivals : List Pc) : Pool Session Pc := ⟨{ s with state := none }, arrivals⟩

theorem inv_exec {s : Session} {arrivals : List Pc} (hfresh : ∀ l ∈ arrivals, l.fresh = true) {sched : List ℕ}
    {q : Pool Session Pc} (hq : exec next (start s arrivals) sched = some q) : Inv numbering Own Local q := by
  refine Inv.exec superseding (Inv.start ?_ rfl ?_) hq
  · intro l hl
    have hthis := hfresh l hl
    cases l <;> first | rfl | cases hthis
  · intro l hl
    have hthis := hfresh l hl
    cases l <;> trivial

/-- The run of the record. -/
theorem run_of_state {q : Pool Session Pc} (hq : Inv numbering Own Local q) {st : Record}
    (hst : q.shared.state = some st) :
    ∃ plan stage ended, .run plan st.orchestrationId stage ended ∈ q.threads ∧ Agrees plan stage st ∧
      ∀ c, stage.chosen = some c → plan.selection = some c := by
  obtain ⟨l, hl, hnum, hown⟩ := hq.current_holds (current_eq_some hst)
  have hlocal := hq.every_holds hl
  cases l with
  | run plan id stage ended =>
      obtain rfl : id = st.orchestrationId := Option.some.inj hnum
      exact ⟨plan, stage, ended, hl, hown st hst, hlocal.2⟩
  | request plan => cases hnum
  | cancelling plan => cases hnum
  | refused plan => cases hnum
  | expiry => cases hnum
  | expired => cases hnum

/-- **A run selects its own company**, whatever runs beside it: from the mandates it has fetched, by the companies that
its user setup has found, or by none after a change. -/
theorem selects_own {s : Session} {arrivals : List Pc} (hfresh : ∀ l ∈ arrivals, l.fresh = true) {sched : List ℕ}
    {q : Pool Session Pc} (hq : exec next (start s arrivals) sched = some q) {plan : Plan} {id : ℕ} {stage : Stage}
    {ended : Bool} (hrun : .run plan id stage ended ∈ q.threads) {c : String} (hc : stage.chosen = some c) :
    plan.selection = some c :=
  ((inv_exec hfresh hq).every_holds hrun).2 c hc

/-- **The record says `completed`** only when its run has got through all its phases, and shows the company of that
run. -/
theorem completed_of_state {s : Session} {arrivals : List Pc} (hfresh : ∀ l ∈ arrivals, l.fresh = true) {sched : List ℕ}
    {q : Pool Session Pc} (hq : exec next (start s arrivals) sched = some q) {st : Record}
    (hst : q.shared.state = some st) (hphase : st.phase = .completed) :
    ∃ plan stage ended c, .run plan st.orchestrationId stage ended ∈ q.threads ∧ stage.through = true ∧
      plan.selection = some c ∧ st.selectedCompanyId = some c ∧ st.authorizedCompaniesIds = plan.filter := by
  obtain ⟨plan, stage, ended, hrun, hagrees, hchosen⟩ := run_of_state (inv_exec hfresh hq) hst
  have hthrough : stage.through = true := by
    rcases hagrees.phase with hp | hp
    · rw [hphase] at hp
      by_contra hne
      simp only [Stage.phase, hne, if_false] at hp
      split at hp
      · cases hp
      · split at hp <;> cases hp
    · rw [hphase] at hp
      cases hp
  obtain ⟨c, hc⟩ : ∃ c, stage = .completedNotified c ∨ stage = .done c := by
    cases stage with
    | completedNotified c => exact ⟨c, .inl rfl⟩
    | done c => exact ⟨c, .inr rfl⟩
    | _ => cases hthrough
  refine ⟨plan, stage, ended, c, hrun, hthrough, hchosen c ?_, ?_, ?_⟩
  · rcases hc with rfl | rfl <;> rfl
  · rw [hagrees.selected]
    rcases hc with rfl | rfl <;> rfl
  · rw [hagrees.authorized]
    rcases hc with rfl | rfl <;> rfl

/-- **A change of the company is refused** exactly when the run of the record has been started by opening the
dashboard, has set up the user, and has found companies without that one. -/
theorem refused_iff {s : Session} {arrivals : List Pc} (hfresh : ∀ l ∈ arrivals, l.fresh = true) {sched : List ℕ}
    {q : Pool Session Pc} (hq : exec next (start s arrivals) sched = some q) {plan : Plan} {company : String}
    (hkind : plan.kind = .change company) (hne : company ≠ "") :
    next q.shared (.request plan) = some (q.shared, .refused plan) ↔
      ∃ st own stage ended, q.shared.state = some st ∧ .run own st.orchestrationId stage ended ∈ q.threads ∧
        own.kind = .init ∧ stage.setUp = true ∧ own.authorized ≠ [] ∧ company ∉ own.authorized := by
  have hinv := inv_exec hfresh hq
  have hnext : next q.shared (.request plan) = some (q.shared, .refused plan) ↔ q.shared.admits company = false := by
    simp only [next, hkind, if_neg hne]
    cases q.shared.admits company <;> simp
  rw [hnext]
  constructor
  · intro hadmits
    unfold Session.admits at hadmits
    cases hst : q.shared.state with
    | none =>
        rw [hst] at hadmits
        cases hadmits
    | some st =>
        rw [hst] at hadmits
        simp only [Bool.or_eq_false_iff, decide_eq_false_iff_not] at hadmits
        obtain ⟨own, stage, ended, hrun, hagrees, -⟩ := run_of_state hinv hst
        have hauth := hagrees.authorized
        cases hsetUp : stage.setUp with
        | false =>
            rw [hsetUp] at hauth
            exact absurd hauth hadmits.1
        | true =>
            rw [hsetUp, if_pos rfl] at hauth
            cases hown : own.kind with
            | init =>
                have hfilter : own.filter = own.authorized := by simp [Plan.filter, hown]
                rw [hauth, hfilter] at hadmits
                exact ⟨st, own, stage, ended, rfl, hrun, hown, hsetUp, hadmits⟩
            | change other =>
                have hfilter : own.filter = [] := by simp [Plan.filter, hown]
                exact absurd (hauth.trans hfilter) hadmits.1
  · rintro ⟨st, own, stage, ended, hst, hrun, hown, hsetUp, hlist, hnot⟩
    obtain ⟨i, hi⟩ := List.getElem?_of_mem hrun
    have hagrees := hinv.own i _ hi (Option.some_ne_none _) (current_eq_some hst) st hst
    have hauth : st.authorizedCompaniesIds = own.authorized := by
      rw [hagrees.authorized, hsetUp, if_pos rfl]
      simp [Plan.filter, hown]
    simp [Session.admits, hst, hauth, hlist, hnot]

/-- The dashboard is opened by a user to whom the company `b` is shared. -/
def opening : Plan :=
  ⟨.init, none, true, [⟨some ["b"], true⟩], some [⟨some "1", some "a"⟩, ⟨some "2", some "b"⟩], fun _ => none⟩

/-- The user changes to the company `c`. -/
def changing (c : String) : Plan :=
  ⟨.change c, none, true, [⟨some ["b"], true⟩], some [⟨some "1", some "a"⟩, ⟨some "2", some "b"⟩], fun _ => none⟩

/-- A user who has never been here. -/
def newcomer : Session := ⟨none, none, false, 0, 0⟩

/-- The opening has got to its company when the user changes to `b`, and the run of the change gets through. -/
def openThenChange : List ℕ := List.replicate 13 0 ++ List.replicate 13 1

/-- The requests of `openThenChange`. -/
def twoRequests : Pool Session Pc := start newcomer [.request opening, .request (changing "b")]

theorem selects_own_opening :
    ∃ q, exec next twoRequests openThenChange = some q ∧
      .run opening 0 (.loading "b") false ∈ q.threads ∧ opening.selection = some "b" := by
  have hrun : (exec next twoRequests openThenChange).isSome = true := by decide +kernel
  have hmem : .run opening 0 (.loading "b") false ∈ (Option.get _ hrun).threads :=
    List.mem_of_getElem? (show (Option.get _ hrun).threads[0]? = _ from rfl)
  exact ⟨_, (Option.some_get hrun).symm, hmem, selects_own (by simp [Pc.fresh]) (Option.some_get hrun).symm hmem rfl⟩

theorem completed_of_state_change :
    ∃ q st, exec next twoRequests openThenChange = some q ∧ q.shared.state = some st ∧ st.phase = .completed ∧
      ∃ plan stage ended c, .run plan st.orchestrationId stage ended ∈ q.threads ∧ stage.through = true ∧
        plan.selection = some c ∧ st.selectedCompanyId = some c ∧ st.authorizedCompaniesIds = plan.filter := by
  have hrun : (exec next twoRequests openThenChange).isSome = true := by decide +kernel
  have hstate : ((Option.get _ hrun).shared.state).isSome = true := by decide +kernel +revert
  have hphase : (Option.get _ hstate).phase = .completed := by decide +kernel +revert
  exact ⟨_, _, (Option.some_get hrun).symm, (Option.some_get hstate).symm, hphase,
    completed_of_state (by simp [Pc.fresh]) (Option.some_get hrun).symm (Option.some_get hstate).symm hphase⟩

/-- A change to a company that is not shared with the user is refused once the opening has set up the user. -/
theorem refused_iff_opening :
    ∃ q, exec next twoRequests (List.replicate 13 0) = some q ∧
      next q.shared (.request (changing "a")) = some (q.shared, .refused (changing "a")) ∧
        ∃ st own stage ended, q.shared.state = some st ∧ .run own st.orchestrationId stage ended ∈ q.threads ∧
          own.kind = .init ∧ stage.setUp = true ∧ own.authorized ≠ [] ∧ "a" ∉ own.authorized := by
  have hrun : (exec next twoRequests (List.replicate 13 0)).isSome = true := by decide +kernel
  have hrefused : next (Option.get _ hrun).shared (.request (changing "a")) =
      some ((Option.get _ hrun).shared, .refused (changing "a")) := rfl
  exact ⟨_, (Option.some_get hrun).symm, hrefused,
    (refused_iff (by simp [Pc.fresh]) (Option.some_get hrun).symm rfl (by decide)).mp hrefused⟩

end Pinnokio.Dashboard.Orchestration
