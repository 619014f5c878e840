import Pinnokio.Lib.Documents
import Pinnokio.Lib.Taking
import Pinnokio.Lib.Text

/-!
# The list of pending approvals

Workers leave what they want approved as documents of `approval_pendinglist`.  The users of a company decide from the
dashboard: an approval tells the worker by a notification (and, for invoices, through the dispatch queue) and deletes
the document, a rejection that closes the item only deletes it, one that does not marks it, and the dashboard saves
what a user has selected so far.  Each call reads the document first and runs in a thread of its own, one access to the
stores after another, so two users can be at work on one item.

* `next` — one access of a `process_…_approval`, `process_…_rejection` or `save_approval_item_changes` call;
* `sound` — what such an access does to the items of the list;
* `sourced_step` — a call that has handed its item to the worker has written the notification, and put it in the queue.
-/

namespace Pinnokio.PendingApprovals

open Interleaving Taking
open Value (text)

/-! ### Calls -/

/-- The department whose worker asks. -/
inductive Department
  | router
  | banker
  | apbookeeper
  deriving DecidableEq

/-- `function_name` of the worker. -/
def Department.functionName : Department → String
  | .router => "Router"
  | .banker => "Bankbookeeper"
  | .apbookeeper => "APbookeeper"

/-- The department under which a change of the list is published. -/
def Department.channel : Department → String
  | .router => "routing"
  | .banker => "bank"
  | .apbookeeper => "invoices"

/-- What a user decides; an approval of the banker uses the instructions only, one of the router also the selections,
one of invoices also the edits and the type. -/
inductive Verdict
  | approve (selectedService selectedFiscalYear : String) (instructions : Option String) (updatedData : Document)
      (approvalType : String)
  | reject (rejectionReason : String) (instructions : Option String) (close : Bool)
  | save (changes : Document)

/-- The accesses that raise. -/
structure Faults where
  read : Bool := false
  write : Bool := false
  dispatch : Bool := false
  delete : Bool := false
  cleanup : Bool := false
  publish : Bool := false

/-- A call, with the time and the batch id it would generate. -/
structure Call where
  department : Department
  mandatePath : String
  itemId : String
  userId : String
  verdict : Verdict
  now : String
  generatedBatch : String
  faults : Faults

/-- The document of the list that a call is about. -/
def Call.key (c : Call) : String × String := (c.mandatePath, c.itemId)

/-- The call approves. -/
def Call.approves (c : Call) : Bool :=
  match c.verdict with
  | .approve .. => true
  | _ => false

/-- The call takes the item off the list. -/
def Call.decides (c : Call) : Bool :=
  match c.verdict with
  | .approve .. => true
  | .reject _ _ close => close
  | .save _ => false

/-- The last part of a mandate path of at least four parts. -/
def companyId (mandatePath : String) : String :=
  let parts := Text.split mandatePath '/'
  if parts.length ≥ 4 then parts.getLast?.getD "" else ""

/-- The second part of a mandate path. -/
def clientUuid (mandatePath : String) : String := (Text.split mandatePath '/')[1]?.getD ""

/-! ### What a call writes -/

/-- `d.get(k, v)`. -/
def getOr (d : Document) (k : String) (v : Value) : Value := (d.get? k).getD v

/-- `d[k] = v`, one field after another. -/
def withFields (d : Document) (fields : Document) : Document := fields.foldl (fun d e => Dict.setList e.1 e.2 d) d

/-- A notification with `approval_response_mode`, with the fields that only some workers get. -/
def notification (c : Call) (fileId fileName batchId : Value) (extra : Document) (instructions : Option String) :
    Document :=
  [("job_id", text c.itemId), ("file_id", fileId), ("file_name", fileName),
    ("function_name", text c.department.functionName), ("status", text "in_queue"), ("read", .scalar (.bool false)),
    ("timestamp", text c.now), ("collection_id", text (companyId c.mandatePath)),
    ("collection_name", text (companyId c.mandatePath)), ("batch_id", batchId),
    ("approval_response_mode", .scalar (.bool true)), ("approval_status", text "approved")] ++ extra ++
  [("instructions", text (instructions.getD "")), ("user_id", text c.userId),
    ("client_uuid", text (clientUuid c.mandatePath)), ("mandates_path", text c.mandatePath)]

/-- The `context_payload` after the edits of the user: those of the invoice go to its details, the accounting lines
replace the old ones.  `none`: it has no such fields and raises. -/
def mergedContext (item updatedData : Document) : Option Value :=
  let context := getOr item "context_payload" (.map [])
  if updatedData.isEmpty then some context
  else
    match context with
    | .map ctx =>
        let edits := updatedData.filter fun e => e.1 ≠ "accounting_lines"
        let detailed : Option Document :=
          match Document.get? ctx "invoice_details" with
          | none => some ctx
          | some details =>
              if edits.isEmpty then some ctx
              else details.asMap.map fun d => Dict.setList "invoice_details" (.map (withFields d edits)) ctx
        detailed.map fun ctx =>
          match updatedData.get? "accounting_lines" with
          | none => .map ctx
          | some lines => .map (Dict.setList "accounting_lines" lines ctx)
    | _ => none

/-- The notification of `process_router_approval`. -/
def routerNotification (c : Call) (item : Document) (service fiscalYear : String) (instructions : Option String) :
    Option Document :=
  (getOr item "context_payload" (.map [])).asMap.map fun ctx =>
    notification c (getOr ctx "drive_file_id" (text ""))
      ((getOr ctx "file_name" (text "")).or (getOr item "file_name" (text ""))) (text c.generatedBatch)
      [("selected_service", text service), ("selected_fiscal_year", text fiscalYear)] instructions

/-- The notification of `process_banker_approval`. -/
def bankerNotification (c : Call) (item : Document) (instructions : Option String) : Document :=
  notification c (getOr item "transaction_id" (text c.itemId))
    (getOr item "file_name" (getOr item "transaction_name" (text ""))) (getOr item "batch_id" (text c.generatedBatch))
    [] instructions

/-- The notification of `process_apbookeeper_approval`, which carries the merged payload when there were edits. -/
def apbookeeperNotification (c : Call) (item updatedData : Document) (context : Value) (approvalType : String)
    (instructions : Option String) : Document :=
  notification c (getOr item "file_id" (getOr item "drive_file_id" (text c.itemId)))
    (getOr item "file_name" (text "")) (getOr item "batch_id" (text c.generatedBatch))
    [("approval_type", text approvalType)] instructions ++
  if updatedData.isEmpty then [] else [("context_payload", context)]

/-- The payload of `queue:agentic_dispatch`. -/
def dispatchPayload (c : Call) (item : Document) (context : Value) (approvalType : String)
    (instructions : Option String) : Document :=
  [("job_id", text c.itemId), ("function_name", text c.department.functionName), ("mandate_path", text c.mandatePath),
    ("collection_id", text (companyId c.mandatePath)), ("user_id", text c.userId),
    ("client_uuid", text (clientUuid c.mandatePath)), ("approval_response_mode", .scalar (.bool true)),
    ("approval_type", text approvalType), ("file_id", getOr item "file_id" (text "")),
    ("file_name", getOr item "file_name" (text "")), ("batch_id", getOr item "batch_id" (text c.generatedBatch)),
    ("context_payload", context), ("instructions", text (instructions.getD ""))]

/-- What a rejection that does not close writes to the item. -/
def rejectedFields (c : Call) (rejectionReason : String) (instructions : Option String) : Document :=
  [("status", text "rejected"), ("rejection_reason", text rejectionReason), ("instructions", text (instructions.getD "")),
    ("rejected_by", text c.userId), ("rejected_at", text c.now)]

/-- What a save writes to the item: the selections that are among the changes. -/
def savedFields (c : Call) (changes : Document) : Document :=
  (["selected_service", "selected_fiscal_year", "instructions"].filterMap fun k => (changes.get? k).map fun v => (k, v)) ++
    [("last_modified_by", text c.userId), ("last_modified_at", text c.now)]

/-- What an approval writes: the notification, and for invoices what goes to the queue.  `none`: reading the item
raises. -/
def approval (c : Call) (item : Document) (service fiscalYear : String) (instructions : Option String)
    (updatedData : Document) (approvalType : String) : Option (Document × Option Document) :=
  match c.department with
  | .router => (routerNotification c item service fiscalYear instructions).map fun n => (n, none)
  | .banker => some (bankerNotification c item instructions, none)
  | .apbookeeper => (mergedContext item updatedData).map fun context =>
      (apbookeeperNotification c item updatedData context approvalType instructions,
        some (dispatchPayload c item context approvalType instructions))

/-! ### The stores and the accesses -/

/-- The documents, the queue and what has been published: channel user and message. -/
structure Store where
  pendinglist : Dict (String × String) Document
  context : Dict (String × String) Document
  notifications : Dict (String × String) Document
  queue : List Document
  published : List (String × Document)

/-- A change of the list, as the frontend is told of it. -/
def message (c : Call) (action kind : String) (data : Document) : Document :=
  [("type", text ("pending_approval_" ++ kind)), ("action", text action), ("department", text c.department.channel),
    ("job_id", text c.itemId), ("company_id", text (companyId c.mandatePath)), ("data", .map data),
    ("timestamp", text c.now)]

/-- The item is gone. -/
def removed (c : Call) : Document := message c "remove" "deleted" [("id", text c.itemId)]

/-- The item was rejected and can be opened again. -/
def updated (c : Call) (rejectionReason : String) : Document :=
  message c "update" "updated" [("status", text "rejected"), ("rejection_reason", text rejectionReason)]

/-- What a call has done to its item: nothing (it returns `False`), changed it, or removed it from the list. -/
inductive Outcome
  | failed
  | changed
  | removed
  deriving DecidableEq

/-- Where a call is. -/
inductive Pc
  | start (c : Call)
  | loaded (c : Call) (item : Document)
  | notified (c : Call) (dispatch : Document)
  | ready (c : Call)
  | deleted (c : Call)
  | announcing (c : Call) (outcome : Outcome) (message : Document)
  | done (c : Call) (outcome : Outcome)

/-- The next access of a call; the cleanup and the publication swallow what they raise. -/
def next (s : Store) : Pc → Option (Store × Pc)
  | .start c =>
      if c.faults.read then some (s, .done c .failed)
      else
        match s.pendinglist.get? c.key with
        | none => some (s, .done c .failed)
        | some item => some (s, .loaded c item)
  | .loaded c item =>
      match c.verdict with
      | .approve service fiscalYear instructions updatedData approvalType =>
          match approval c item service fiscalYear instructions updatedData approvalType with
          | none => some (s, .done c .failed)
          | some (n, dispatch) =>
              if c.faults.write then some (s, .done c .failed)
              else
                let s := { s with notifications := s.notifications.set (c.userId, c.itemId) n }
                match dispatch with
                | none => some (s, .ready c)
                | some d => some (s, .notified c d)
      | .reject _ _ true =>
          if c.faults.delete then some (s, .done c .failed)
          else some ({ s with pendinglist := s.pendinglist.erase c.key }, .deleted c)
      | .reject reason instructions false =>
          match s.pendinglist.get? c.key with
          | none => some (s, .done c .failed)
          | some d =>
              if c.faults.write then some (s, .done c .failed)
              else some ({ s with pendinglist :=
                  s.pendinglist.set c.key (withFields d (rejectedFields c reason instructions)) },
                .announcing c .changed (updated c reason))
      | .save changes =>
          match s.pendinglist.get? c.key with
          | none => some (s, .done c .failed)
          | some d =>
              if c.faults.write then some (s, .done c .failed)
              else some ({ s with pendinglist := s.pendinglist.set c.key (withFields d (savedFields c changes)) },
                .done c .changed)
  | .notified c d => some (if c.faults.dispatch then s else { s with queue := d :: s.queue }, .ready c)
  | .ready c =>
      if c.faults.delete then some (s, .done c .failed)
      else some ({ s with pendinglist := s.pendinglist.erase c.key }, .deleted c)
  | .deleted c =>
      some (if c.faults.cleanup then s else { s with context := s.context.erase c.key },
        .announcing c .removed (removed c))
  | .announcing c outcome m =>
      some (if c.faults.publish then s else { s with published := s.published ++ [(c.userId, m)] }, .done c outcome)
  | .done _ _ => none

/-- Calls that come in on a list. -/
def opening (s : Store) (calls : List Call) : Pool Store Pc := ⟨s, calls.map .start⟩

/-! ### What the worker is told -/

section Told

/-- A notification that tells the worker of the approval of an item. -/
def Approves (n : Document) (c : Call) : Prop :=
  n.get? "job_id" = some (text c.itemId) ∧ n.get? "approval_response_mode" = some (.scalar (.bool true)) ∧
    n.get? "approval_status" = some (text "approved")

/-- What is put in the queue names the item, the mandate and the user. -/
def Names (d : Document) (c : Call) : Prop :=
  d.get? "job_id" = some (text c.itemId) ∧ d.get? "mandate_path" = some (text c.mandatePath) ∧
    d.get? "user_id" = some (text c.userId)

/-- The worker has been told of an approval: by a notification of the user, and for invoices through the queue unless
the queue was out of reach. -/
def Told (s : Store) (c : Call) : Prop :=
  (∃ n, s.notifications.get? (c.userId, c.itemId) = some n ∧ Approves n c) ∧
    (c.department = .apbookeeper → c.faults.dispatch = false → ∃ d ∈ s.queue, Names d c)

variable {c : Call}

theorem approves_notification (c : Call) (fileId fileName batchId : Value) (extra : Document)
    (instructions : Option String) : Approves (notification c fileId fileName batchId extra instructions) c :=
  ⟨rfl, rfl, rfl⟩

/-- Every approval writes such a notification; one of invoices comes with an entry of the queue, the others do not. -/
theorem approval_spec {item : Document} {service fiscalYear : String} {instructions : Option String}
    {updatedData : Document} {approvalType : String} {n : Document} {dispatch : Option Document}
    (h : approval c item service fiscalYear instructions updatedData approvalType = some (n, dispatch)) :
    Approves n c ∧ (∀ d, dispatch = some d → Names d c) ∧ (dispatch = none → c.department ≠ .apbookeeper) := by
  rw [approval] at h
  split at h
  next hdep =>
    obtain ⟨m, hm, he⟩ := Option.map_eq_some_iff.mp h
    cases he
    obtain ⟨ctx, -, rfl⟩ := Option.map_eq_some_iff.mp hm
    exact ⟨approves_notification .., fun _ hd => (nomatch hd), fun _ => by rw [hdep]; exact nofun⟩
  next hdep =>
    cases h
    exact ⟨approves_notification .., fun _ hd => (nomatch hd), fun _ => by rw [hdep]; exact nofun⟩
  next hdep =>
    obtain ⟨ctx, -, he⟩ := Option.map_eq_some_iff.mp h
    cases he
    refine ⟨⟨rfl, rfl, rfl⟩, fun d hd => ?_, fun hd => nomatch hd⟩
    cases hd
    exact ⟨rfl, rfl, rfl⟩

theorem decides_of_approves (h : c.approves = true) : c.decides = true := by
  rw [Call.approves] at h
  rw [Call.decides]
  split at h
  next hv => rw [hv]
  next => cases h

end Told

/-! ### What an access does to the items of the list -/

/-- The item is on the list. -/
def Listed (s : Store) (key : String × String) : Prop := (s.pendinglist.get? key).isSome = true

/-- What a call has: an item that it will take off the list, or has taken off. -/
def hold : Pc → Hold (String × String)
  | .start _ => .nothing
  | .loaded c _ => if c.decides then .holding c.key else .nothing
  | .notified c _ => .holding c.key
  | .ready c => .holding c.key
  | .deleted c => .taken c.key
  | .announcing c outcome _ => if outcome = .removed then .taken c.key else .nothing
  | .done c outcome => if outcome = .removed then .taken c.key else .nothing

section Accesses

variable {s s' : Store} {pc pc' : Pc}

theorem listed_erase (s : Store) (key i : String × String) :
    Listed { s with pendinglist := s.pendinglist.erase key } i ↔ Listed s i ∧ i ≠ key := by
  show ((s.pendinglist.erase key).get? i).isSome = true ↔ (s.pendinglist.get? i).isSome = true ∧ i ≠ key
  rw [Dict.get?_erase]
  by_cases h : i = key
  · rw [if_pos h]
    exact ⟨fun he => absurd he Bool.false_ne_true, fun he => absurd h he.2⟩
  · rw [if_neg h]
    exact ⟨fun he => ⟨he, h⟩, fun he => he.1⟩

/-- An update of an item that is on the list leaves the list as it is. -/
theorem listed_set {key : String × String} {d : Document} (hd : s.pendinglist.get? key = some d) (e : Document)
    (i : String × String) : Listed { s with pendinglist := s.pendinglist.set key e } i ↔ Listed s i := by
  show ((s.pendinglist.set key e).get? i).isSome = true ↔ (s.pendinglist.get? i).isSome = true
  rw [Dict.get?_set]
  by_cases h : i = key
  · rw [if_pos h, h, hd]
    exact Iff.rfl
  · rw [if_neg h]

/-- The accesses one by one. -/
inductive Access : Store → Pc → Store → Pc → Prop
  | refused {s : Store} {c : Call} : Access s (.start c) s (.done c .failed)
  | fails {s : Store} {c : Call} {item : Document} : Access s (.loaded c item) s (.done c .failed)
  | leaves {s : Store} {c : Call} : Access s (.ready c) s (.done c .failed)
  | finds {s : Store} {c : Call} {item : Document} (hitem : s.pendinglist.get? c.key = some item) :
      Access s (.start c) s (.loaded c item)
  | tells {s : Store} {c : Call} {item n : Document} (hc : c.approves = true) (hn : Approves n c)
      (hd : c.department ≠ .apbookeeper) :
      Access s (.loaded c item) { s with notifications := s.notifications.set (c.userId, c.itemId) n } (.ready c)
  | notifies {s : Store} {c : Call} {item n d : Document} (hc : c.approves = true) (hn : Approves n c) (hd : Names d c) :
      Access s (.loaded c item) { s with notifications := s.notifications.set (c.userId, c.itemId) n } (.notified c d)
  | closes {s : Store} {c : Call} {item : Document} (hc : c.decides = true) (ha : c.approves = false) :
      Access s (.loaded c item) { s with pendinglist := s.pendinglist.erase c.key } (.deleted c)
  | marks {s : Store} {c : Call} {item d e m : Document} (hc : c.decides = false) (ha : c.approves = false)
      (hd : s.pendinglist.get? c.key = some d) :
      Access s (.loaded c item) { s with pendinglist := s.pendinglist.set c.key e } (.announcing c .changed m)
  | saves {s : Store} {c : Call} {item d e : Document} (hc : c.decides = false) (ha : c.approves = false)
      (hd : s.pendinglist.get? c.key = some d) :
      Access s (.loaded c item) { s with pendinglist := s.pendinglist.set c.key e } (.done c .changed)
  | misses {s : Store} {c : Call} {d : Document} (hf : c.faults.dispatch = true) : Access s (.notified c d) s (.ready c)
  | queues {s : Store} {c : Call} {d : Document} :
      Access s (.notified c d) { s with queue := d :: s.queue } (.ready c)
  | removes {s : Store} {c : Call} :
      Access s (.ready c) { s with pendinglist := s.pendinglist.erase c.key } (.deleted c)
  | cleans {s : Store} {c : Call} {m : Document} (context : Dict (String × String) Document) :
      Access s (.deleted c) { s with context := context } (.announcing c .removed m)
  | announces {s : Store} {c : Call} {outcome : Outcome} {m : Document} (published : List (String × Document)) :
      Access s (.announcing c outcome m) { s with published := published } (.done c outcome)

theorem access_of_loaded {c : Call} {item : Document} (h : next s (.loaded c item) = some (s', pc')) :
    Access s (.loaded c item) s' pc' := by
  cases hv : c.verdict with
  | approve service fiscalYear instructions updatedData approvalType =>
      have hc : c.approves = true := by rw [Call.approves, hv]
      simp only [next, hv] at h
      split at h
      · cases h
        exact .fails
      next n dispatch ha =>
        obtain ⟨hn, hd, hnone⟩ := approval_spec ha
        split at h
        · cases h
          exact .fails
        · cases dispatch with
          | none =>
              cases h
              exact .tells hc hn (hnone rfl)
          | some d =>
              cases h
              exact .notifies hc hn (hd d rfl)
  | reject reason instructions close =>
      have ha : c.approves = false := by rw [Call.approves, hv]
      have hc : c.decides = close := by rw [Call.decides, hv]
      cases close with
      | true =>
          simp only [next, hv] at h
          split at h
          · cases h
            exact .fails
          · cases h
            exact .closes hc ha
      | false =>
          simp only [next, hv] at h
          split at h
          · cases h
            exact .fails
          next d hd =>
            split at h
            · cases h
              exact .fails
            · cases h
              exact .marks hc ha hd
  | save changes =>
      have ha : c.approves = false := by rw [Call.approves, hv]
      have hc : c.decides = false := by rw [Call.decides, hv]
      simp only [next, hv] at h
      split at h
      · cases h
        exact .fails
      next d hd =>
        split at h
        · cases h
          exact .fails
        · cases h
          exact .saves hc ha hd

theorem access_of_next (h : next s pc = some (s', pc')) : Access s pc s' pc' := by
  cases pc with
  | start c =>
      rw [next] at h
      split at h
      · cases h
        exact .refused
      · split at h
        · cases h
          exact .refused
        next item hitem =>
          cases h
          exact .finds hitem
  | loaded c item => exact access_of_loaded h
  | notified c d =>
      rw [next] at h
      cases hf : c.faults.dispatch with
      | true =>
          rw [hf, if_pos rfl] at h
          cases h
          exact .misses hf
      | false =>
          rw [hf, if_neg Bool.false_ne_true] at h
          cases h
          exact .queues
  | ready c =>
      rw [next] at h
      split at h
      · cases h
        exact .leaves
      · cases h
        exact .removes
  | deleted c =>
      rw [next] at h
      split at h
      · cases h
        exact .cleans s.context
      · cases h
        exact .cleans _
  | announcing c outcome m =>
      rw [next] at h
      split at h
      · cases h
        exact .announces s.published
      · cases h
        exact .announces _
  | done c outcome => cases h

/-- **The items of the list**: an access finds an item, gives it up, takes it off the list, or leaves the list as it
is. -/
theorem sound : Sound next Listed hold := by
  intro s pc s' pc' h
  cases access_of_next h with
  | refused => exact .stays fun _ => Iff.rfl
  | @fails c item =>
      show Moves (Listed s) (Listed s) (if c.decides = true then .holding c.key else .nothing) .nothing
      split
      · exact .drops fun _ => Iff.rfl
      · exact .stays fun _ => Iff.rfl
  | leaves => exact .drops fun _ => Iff.rfl
  | @finds c item hitem =>
      show Moves (Listed s) (Listed s) .nothing (if c.decides = true then .holding c.key else .nothing)
      split
      · refine .finds ?_ fun _ => Iff.rfl
        show (s.pendinglist.get? c.key).isSome = true
        rw [hitem]
        rfl
      · exact .stays fun _ => Iff.rfl
  | @tells c item n hc hn hd =>
      show Moves (Listed s) (Listed s) (if c.decides = true then .holding c.key else .nothing) (.holding c.key)
      rw [if_pos (decides_of_approves hc)]
      exact .stays fun _ => Iff.rfl
  | @notifies c item n d hc hn hd =>
      show Moves (Listed s) (Listed s) (if c.decides = true then .holding c.key else .nothing) (.holding c.key)
      rw [if_pos (decides_of_approves hc)]
      exact .stays fun _ => Iff.rfl
  | @closes c item hc ha =>
      show Moves _ _ (if c.decides = true then .holding c.key else .nothing) (.taken c.key)
      rw [if_pos hc]
      exact .takes (listed_erase s c.key)
  | @marks c item d e m hc ha hd =>
      show Moves _ _ (if c.decides = true then .holding c.key else .nothing) .nothing
      rw [hc, if_neg Bool.false_ne_true]
      exact .stays (listed_set hd e)
  | @saves c item d e hc ha hd =>
      show Moves _ _ (if c.decides = true then .holding c.key else .nothing) .nothing
      rw [hc, if_neg Bool.false_ne_true]
      exact .stays (listed_set hd e)
  | misses hf => exact .stays fun _ => Iff.rfl
  | queues => exact .stays fun _ => Iff.rfl
  | @removes c => exact .takes (listed_erase s c.key)
  | cleans context => exact .stays fun _ => Iff.rfl
  | announces published => exact .stays fun _ => Iff.rfl

end Accesses

/-! ### What every call can say -/

section Sources

variable {s s' : Store} {pc pc' : Pc}

/-- What a call says of the worker when it has come this far. -/
def Sourced (s : Store) : Pc → Prop
  | .notified c d => (∃ n, s.notifications.get? (c.userId, c.itemId) = some n ∧ Approves n c) ∧ Names d c
  | .ready c => Told s c
  | .deleted c => c.approves = true → Told s c
  | .announcing c outcome _ => (c.decides = true → outcome = .removed) ∧ (c.approves = true → Told s c)
  | .done c outcome =>
      (c.decides = true → outcome = .failed ∨ outcome = .removed) ∧
        (c.approves = true → outcome = .removed → Told s c)
  | _ => True

/-- A notification is only replaced by another approval of the item. -/
theorem notified_step (h : next s pc = some (s', pc')) {c : Call}
    (hn : ∃ n, s.notifications.get? (c.userId, c.itemId) = some n ∧ Approves n c) :
    ∃ n, s'.notifications.get? (c.userId, c.itemId) = some n ∧ Approves n c := by
  have hset : ∀ (c' : Call) (n' : Document), Approves n' c' →
      ∃ n, (s.notifications.set (c'.userId, c'.itemId) n').get? (c.userId, c.itemId) = some n ∧ Approves n c := by
    intro c' n' hn'
    rw [Dict.get?_set]
    by_cases hkey : (c.userId, c.itemId) = (c'.userId, c'.itemId)
    · rw [if_pos hkey]
      have hitem : c.itemId = c'.itemId := congrArg Prod.snd hkey
      exact ⟨n', rfl, hn'.1.trans (by rw [hitem]), hn'.2⟩
    · rw [if_neg hkey]
      exact hn
  cases access_of_next h with
  | tells _ hn' _ => exact hset _ _ hn'
  | notifies _ hn' _ => exact hset _ _ hn'
  | _ => exact hn

/-- The queue only grows here. -/
theorem queue_step (h : next s pc = some (s', pc')) {d : Document} (hd : d ∈ s.queue) : d ∈ s'.queue := by
  cases access_of_next h with
  | queues => exact List.mem_cons_of_mem _ hd
  | _ => exact hd

/-- What has been told stays told. -/
theorem told_step (h : next s pc = some (s', pc')) {c : Call} (ht : Told s c) : Told s' c := by
  refine ⟨notified_step h ht.1, fun hdep hf => ?_⟩
  obtain ⟨d, hd, hn⟩ := ht.2 hdep hf
  exact ⟨d, queue_step h hd, hn⟩

/-- What the other calls can say, they can still say. -/
theorem sourced_other (h : next s pc = some (s', pc')) {x : Pc} (hx : Sourced s x) : Sourced s' x := by
  cases x with
  | start c => exact trivial
  | loaded c item => exact trivial
  | notified c d => exact ⟨notified_step h hx.1, hx.2⟩
  | ready c => exact told_step h hx
  | deleted c => exact fun hc => told_step h (hx hc)
  | announcing c outcome m => exact ⟨hx.1, fun hc => told_step h (hx.2 hc)⟩
  | done c outcome => exact ⟨hx.1, fun hc ho => told_step h (hx.2 hc ho)⟩

/-- **What a call can say after its access.** -/
theorem sourced_self (h : next s pc = some (s', pc')) (hx : Sourced s pc) : Sourced s' pc' := by
  have hget : ∀ (c : Call) (n : Document), Approves n c →
      ∃ m, (s.notifications.set (c.userId, c.itemId) n).get? (c.userId, c.itemId) = some m ∧ Approves m c := by
    intro c n hn
    refine ⟨n, ?_, hn⟩
    rw [Dict.get?_set, if_pos rfl]
  cases access_of_next h with
  | refused => exact ⟨fun _ => Or.inl rfl, nofun⟩
  | fails => exact ⟨fun _ => Or.inl rfl, nofun⟩
  | leaves => exact ⟨fun _ => Or.inl rfl, nofun⟩
  | finds _ => exact trivial
  | tells _ hn hd => exact ⟨hget _ _ hn, fun hdep => absurd hdep hd⟩
  | notifies _ hn hd => exact ⟨hget _ _ hn, hd⟩
  | closes _ ha => exact fun hc => absurd (ha.symm.trans hc) Bool.false_ne_true
  | marks hc ha _ =>
      exact ⟨fun hd => absurd (hc.symm.trans hd) Bool.false_ne_true,
        fun hd => absurd (ha.symm.trans hd) Bool.false_ne_true⟩
  | saves hc ha _ =>
      exact ⟨fun hd => absurd (hc.symm.trans hd) Bool.false_ne_true,
        fun hd => absurd (ha.symm.trans hd) Bool.false_ne_true⟩
  | misses hf => exact ⟨hx.1, fun _ hd => absurd (hd.symm.trans hf) Bool.false_ne_true⟩
  | queues => exact ⟨hx.1, fun _ _ => ⟨_, List.mem_cons_self .., hx.2⟩⟩
  | removes => exact fun _ => hx
  | cleans _ => exact ⟨fun _ => rfl, hx⟩
  | announces _ => exact ⟨fun hd => Or.inr (hx.1 hd), fun hc _ => hx.2 hc⟩

end Sources

/-! ### Every interleaving -/

section Runs

variable {s : Store} {calls : List Call} {sched : List ℕ} {q : Pool Store Pc}

theorem fresh_opening (s : Store) (calls : List Call) : Fresh hold (opening s calls) := by
  intro l hl
  obtain ⟨c, -, rfl⟩ := List.mem_map.mp hl
  rfl

/-- Every call can say what belongs to the place it has come to. -/
theorem sourced_of_exec (hrun : exec next (opening s calls) sched = some q) : ∀ l ∈ q.threads, Sourced q.shared l := by
  refine exec_induction (fun q => ∀ l ∈ q.threads, Sourced q.shared l) (fun r k r' hr hstep => ?_) sched _ q ?_ hrun
  · obtain ⟨l, s', l', hl, hn, rfl⟩ := stepAt_eq_some hstep
    intro x hx
    rcases mem_set_cases hx with rfl | ⟨j, -, hx⟩
    · exact sourced_self hn (hr l (List.mem_of_getElem? hl))
    · exact sourced_other hn (hr x (List.mem_of_getElem? hx))
  · intro l hl
    obtain ⟨c, -, rfl⟩ := List.mem_map.mp hl
    exact trivial

/-- A router item is approved by one user. -/
def annApproves : Call :=
  ⟨.router, "clients/u/mandates/m", "router_1", "ann", .approve "invoices" "2025" none [] "", "t1", "b1", {}⟩

/-- Another one closes it. -/
def bobCloses : Call :=
  ⟨.router, "clients/u/mandates/m", "router_1", "bob", .reject "late" none true, "t2", "b2", {}⟩

/-- The item, before anybody has decided. -/
def oneItem : Store :=
  ⟨(∅ : Dict (String × String) Document).set ("clients/u/mandates/m", "router_1") [("file_name", text "a.pdf")], ∅, ∅, [],
    []⟩

/-- **Decisions are carried out**: an item is on the list exactly if it was at the start and no call has removed it, so
none comes back and none is lost; a decision that reports success has removed an item that was there, and the worker
has been told of an approval. -/
theorem decisions_carried_out (hrun : exec next (opening s calls) sched = some q) :
    (∀ key, Listed q.shared key ↔ Listed s key ∧ ∀ l ∈ q.threads, hold l ≠ .taken key) ∧
      ∀ c outcome, .done c outcome ∈ q.threads → outcome ≠ .failed → c.decides = true →
        Listed s c.key ∧ ¬Listed q.shared c.key ∧ (c.approves = true → Told q.shared c) := by
  have hthere := there_iff sound (fresh_opening s calls) hrun
  refine ⟨hthere, fun c outcome hl hne hdecides => ?_⟩
  have hsourced := sourced_of_exec hrun _ hl
  have hremoved : outcome = .removed := (hsourced.1 hdecides).resolve_left hne
  have htaken : hold (.done c outcome) = .taken c.key := if_pos hremoved
  refine ⟨was_there sound (fresh_opening s calls) hrun hl (Or.inr htaken), fun hlisted => ?_, fun hc => ?_⟩
  · exact ((hthere c.key).mp hlisted).2 _ hl htaken
  · exact hsourced.2 hc hremoved

/-- Both users find the item; the approval goes through with its notification, and then the item is gone. -/
theorem decisions_carried_out_two_users :
    ∃ q, exec next (opening oneItem [annApproves, bobCloses]) [0, 1, 0, 0, 0, 0, 1, 1, 1] = some q ∧
      (∀ key, Listed q.shared key ↔ Listed oneItem key ∧ ∀ l ∈ q.threads, hold l ≠ .taken key) ∧
      .done annApproves .removed ∈ q.threads ∧ Listed oneItem annApproves.key ∧ ¬Listed q.shared annApproves.key ∧
      ∃ n, q.shared.notifications.get? ("ann", "router_1") = some n ∧ Approves n annApproves := by
  have hrun : (exec next (opening oneItem [annApproves, bobCloses]) [0, 1, 0, 0, 0, 0, 1, 1, 1]).isSome = true := by
    decide +kernel
  obtain ⟨hlist, hdecided⟩ := decisions_carried_out (Option.some_get hrun).symm
  have hdone : .done annApproves .removed ∈ ((exec next (opening oneItem [annApproves, bobCloses])
      [0, 1, 0, 0, 0, 0, 1, 1, 1]).get hrun).threads := List.mem_of_getElem? (i := 0) rfl
  obtain ⟨hthere, hgone, htold⟩ := hdecided annApproves .removed hdone nofun rfl
  exact ⟨_, (Option.some_get hrun).symm, hlist, hdone, hthere, hgone, (htold rfl).1⟩

/-- A decision that has succeeded. -/
def succeeded (key : String × String) : Pc → Bool
  | .done c .removed => c.key = key
  | _ => false

/-- **No item is decided twice**: at every point of an interleaving at most one decision is at work on an item or has
removed it, exactly when no decision finds an item that another one is still at work on; and then at most one decision
on an item succeeds. -/
theorem decided_once_iff (s : Store) (calls : List Call) (sched : List ℕ) :
    ((∀ pre q, pre <+: sched → exec next (opening s calls) pre = some q →
        ∀ key, q.threads.countP (has hold key) ≤ 1) ↔
      Guarded next (Undisputed next hold) (opening s calls) sched) ∧
    (Guarded next (Undisputed next hold) (opening s calls) sched →
      ∀ q, exec next (opening s calls) sched = some q → ∀ key, q.threads.countP (succeeded key) ≤ 1) := by
  have honce := once_iff sound (fresh_opening s calls) sched
  refine ⟨honce, fun hg q hq key => ?_⟩
  refine Nat.le_trans (List.countP_mono_left fun l _ hl => ?_) (honce.mpr hg sched q (List.prefix_refl _) hq key)
  cases l with
  | done c outcome =>
      cases outcome with
      | removed => exact decide_eq_true (Or.inr (congrArg Hold.taken (of_decide_eq_true hl)))
      | failed => cases hl
      | changed => cases hl
  | _ => cases hl

end Runs

end Pinnokio.PendingApprovals
