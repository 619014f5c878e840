import Pinnokio.ActiveJobs.Absorbing
import Pinnokio.ActiveJobs.Dispatch

/-!
# What the message handler and the queue call a terminal status

The handler of task_manager messages normalises the status of a message for the interface (`StatusNormalizer`) and
passes the status on to the queue as it came.  The queue compares it with its own list.

* `normalizeForFunction` — the normaliser, with its table and the overrides of single functions;
* `normalizeForFunction_terminal_iff` — the texts it takes to a terminal status are eleven words, in any case and
  with blanks around them, for every function;
* `handled_status_agrees_iff` — when the queue agrees with it on a message.
-/

namespace Pinnokio.ActiveJobs

open Pinnokio.Text

/-! ### The normaliser -/

/-- The statuses sent to the interface. -/
inductive NormalizedStatus where
  | toProcess
  | inQueue
  | onProcess
  | stopping
  | pending
  | completed
  | error
  | stopped
  | skipped
  | routed
  deriving DecidableEq

/-- The text of a status. -/
def NormalizedStatus.value : NormalizedStatus → String
  | .toProcess => "to_process"
  | .inQueue => "in_queue"
  | .onProcess => "on_process"
  | .stopping => "stopping"
  | .pending => "pending"
  | .completed => "completed"
  | .error => "error"
  | .stopped => "stopped"
  | .skipped => "skipped"
  | .routed => "routed"

/-- `RAW_TO_NORMALIZED`. -/
def rawToNormalized : Dict String NormalizedStatus :=
  Dict.ofList [("running", .onProcess), ("processing", .onProcess),
    ("in queue", .inQueue), ("in_queue", .inQueue), ("queued", .inQueue),
    ("success", .completed), ("close", .completed), ("closed", .completed), ("done", .completed),
    ("finished", .completed), ("completed", .completed),
    ("to_process", .toProcess), ("on_process", .onProcess), ("stopping", .stopping), ("pending", .pending),
    ("error", .error), ("stopped", .stopped), ("skipped", .skipped), ("routed", .routed)]

/-- `FUNCTION_SPECIFIC_OVERRIDES`. -/
def functionSpecificOverrides : Dict String (Dict String NormalizedStatus) :=
  Dict.ofList [("router", Dict.ofList [("success", .routed), ("completed", .routed)]), ("banker", ∅),
    ("apbookeeper", ∅)]

section Normalizer

/- The case mapping `str.lower` of the interpreter, for all of Unicode. -/
variable (lower : String → String)

/-- `raw_status.lower().strip()`. -/
def normalizedKey (rawStatus : String) : String := strip (lower rawStatus)

/-- `StatusNormalizer.normalize`; an empty text stands for a missing status. -/
def normalize (rawStatus default : String) : String :=
  if rawStatus = "" then default
  else
    match rawToNormalized.get? (normalizedKey lower rawStatus) with
    | some status => status.value
    | none => normalizedKey lower rawStatus

/-- The override of a function for a status, if it has one. -/
def overrideFor (functionName rawStatus : String) : Option NormalizedStatus :=
  if functionName = "" then none
  else
    match functionSpecificOverrides.get? (normalizedKey lower functionName) with
    | none => none
    | some overrides => overrides.get? (normalizedKey lower rawStatus)

/-- `StatusNormalizer.normalize_for_function`. -/
def normalizeForFunction (functionName rawStatus default : String) : String :=
  if rawStatus = "" then default
  else
    match overrideFor lower functionName rawStatus with
    | some status => status.value
    | none => normalize lower rawStatus default

/-- The words that the normaliser takes to a terminal status. -/
def terminalWords : List String :=
  ["completed", "success", "close", "closed", "done", "finished", "error", "stopped", "skipped", "pending", "routed"]

theorem rawToNormalized_terminal :
    ∀ e ∈ rawToNormalized.entries, e.2.value ∈ terminalStatuses ↔ e.1 ∈ terminalWords := by decide

theorem functionSpecificOverrides_terminal :
    ∀ f ∈ functionSpecificOverrides.entries, ∀ e ∈ f.2.entries,
      e.2.value ∈ terminalStatuses ∧ e.1 ∈ terminalWords := by decide

/-- A text outside the table is passed through, and is not terminal. -/
theorem terminal_mem_table : ∀ w ∈ terminalStatuses ++ terminalWords, w ∈ rawToNormalized.keys := by decide

variable {lower}

theorem normalize_terminal_iff {rawStatus : String} (h : rawStatus ≠ "") (default : String) :
    normalize lower rawStatus default ∈ terminalStatuses ↔ normalizedKey lower rawStatus ∈ terminalWords := by
  rw [normalize, if_neg h]
  cases hget : rawToNormalized.get? (normalizedKey lower rawStatus) with
  | some status => exact rawToNormalized_terminal _ (Dict.mem_entries_iff.mpr hget)
  | none =>
      have hout := Dict.get?_eq_none_iff.mp hget
      constructor
      · exact fun hw => absurd (terminal_mem_table _ (List.mem_append_left _ hw)) hout
      · exact fun hw => absurd (terminal_mem_table _ (List.mem_append_right _ hw)) hout

/-- An override is an entry of the table of a function. -/
theorem overrideFor_eq_some {functionName rawStatus : String} {status : NormalizedStatus}
    (h : overrideFor lower functionName rawStatus = some status) :
    ∃ f ∈ functionSpecificOverrides.entries, (normalizedKey lower rawStatus, status) ∈ f.2.entries := by
  unfold overrideFor at h
  split at h
  · cases h
  split at h
  · cases h
  · next overrides hf =>
    exact ⟨_, Dict.mem_entries_iff.mpr hf, Dict.mem_entries_iff.mpr h⟩

/-- **The normaliser**: which texts become a terminal status does not depend on the function. -/
theorem normalizeForFunction_terminal_iff {rawStatus : String} (h : rawStatus ≠ "") (functionName default : String) :
    normalizeForFunction lower functionName rawStatus default ∈ terminalStatuses ↔
      normalizedKey lower rawStatus ∈ terminalWords := by
  rw [normalizeForFunction, if_neg h]
  cases hover : overrideFor lower functionName rawStatus with
  | none => exact normalize_terminal_iff h default
  | some status =>
      obtain ⟨f, hf, hentry⟩ := overrideFor_eq_some hover
      obtain ⟨hs, hw⟩ := functionSpecificOverrides_terminal f hf _ hentry
      exact ⟨fun _ => hw, fun _ => hs⟩

end Normalizer

/-! ### From a message to the queue -/

/-- The status update a message leads to. -/
def Delivery.updateCall (d : Delivery) (jobType : String) : UpdateCall where
  jobType := jobType
  mandatePath := d.clean Message.mandatePath
  jobId := d.message.jobId
  newStatus := if jobType = "hr" then orElse (d.clean Message.status) "unknown" else d.clean Message.status
  batchId := some d.batch
  now := d.now
  promoteNow := d.promoteNow

/-- A department with an active job type has a domain, and that of HR only when the type is. -/
theorem domain_of_activeJobType {department t : String} (h : extractActiveJobType department = some t) :
    extractDepartmentToDomain department ≠ "" ∧ extractDepartmentToDomain department ≠ "coa" ∧
      (extractDepartmentToDomain department = "hr" ↔ t = "hr") := by
  unfold extractActiveJobType at h
  unfold extractDepartmentToDomain
  have hkey : lower department ∈ ["router", "routing", "apbookeeper", "accounting", "banker", "bankbookeeper",
      "banking", "exbookeeper", "onboarding", "hr"] := Dict.mem_keys_of_get? h
  generalize lower department = k at h hkey ⊢
  simp only [List.mem_cons, List.not_mem_nil, or_false] at hkey
  rcases hkey with rfl | rfl | rfl | rfl | rfl | rfl | rfl | rfl | rfl | rfl <;> (cases h; decide)

/-- **A message about a job of the queue** is a status update, unless it has no status. -/
theorem handleTaskManagerMessage_update (s : Store) {d : Delivery} {t : String}
    (ht : extractActiveJobType d.message.department = some t) (hc : d.company ≠ "") :
    handleTaskManagerMessage s d =
      if d.clean Message.status = "" ∧ t ≠ "hr" then s else applyCall s (.update (d.updateCall t)) := by
  obtain ⟨hdom, hcoa, hhr⟩ := domain_of_activeJobType ht
  unfold handleTaskManagerMessage
  dsimp only
  rw [if_neg (not_or.mpr ⟨hc, hdom⟩), if_neg fun h => hcoa h.1]
  by_cases hr : t = "hr"
  · subst hr
    rw [if_pos (hhr.mpr rfl), if_neg fun h => h.2 rfl]
    simp [applyCall, runCall, Delivery.updateCall]
  · rw [if_neg fun h => hr (hhr.mp h), ht]
    by_cases hs : d.clean Message.status = ""
    · simp [hs, hr]
    · simp [hs, hr, applyCall, runCall, Delivery.updateCall]

/-- The status that reaches the queue is terminal when that of the message is. -/
theorem updateCall_terminal_iff (d : Delivery) (t : String) :
    (d.updateCall t).newStatus ∈ terminalStatuses ↔ d.clean Message.status ∈ terminalStatuses := by
  unfold Delivery.updateCall
  dsimp only
  split
  · unfold orElse
    split
    · next h =>
      rw [h]
      decide
    · rfl
  · rfl

/-- Whether the document an update has found lists the job afterwards. -/
theorem mem_runningJobs_found {s : Store} {c : UpdateCall} {id : String} {doc : JobDoc}
    (hf : c.found s = some (id, doc)) :
    c.jobId ∈ runningJobs (applyCall s (.update c)) c.jobType id ↔
      c.newStatus ∈ terminalStatuses → c.BringsBack s id c.jobId := by
  by_cases hterm : c.newStatus ∈ terminalStatuses
  · rw [not_iff_not.mp (not_mem_runningJobs_terminal hterm hf)]
    simp [Reopens, hterm]
  · have hset : c.jobId ∈ (c.newMap doc).keys := by
      rw [UpdateCall.newMap, mem_keys_applyStatus, if_neg hterm]
      exact Or.inl rfl
    rw [runUpdate_eq, hf]
    simp only [UpdateCall.finishes, Dict.isEmpty_eq_false_of_mem hset, Bool.false_eq_true, if_false]
    rw [runningJobs_modify s c.jobType id _ (UpdateCall.found_get? hf).1]
    simp [setStatus, hset, hterm]

/-- **When the two agree on a message**: for a job of a running batch, the status takes the job out of the batch exactly
when its normalised form is terminal, if and only if a status that reads as one of the eleven words is spelled as the
queue spells it, and the job is not listed by a pending batch that takes the place of its own. -/
theorem handled_status_agrees_iff (lower : String → String) (hlower : ∀ w ∈ terminalStatuses, lower w = w)
    (s : Store) (d : Delivery) (t id : String) (doc : JobDoc)
    (ht : extractActiveJobType d.message.department = some t) (hc : d.company ≠ "")
    (hf : (d.updateCall t).found s = some (id, doc)) (hj : d.message.jobId ∈ doc.jobsStatus.keys) :
    ((normalizeForFunction lower d.message.department (d.clean Message.status) "to_process" ∈ terminalStatuses →
          d.message.jobId ∉ runningJobs (handleTaskManagerMessage s d) t id) ∧
        (normalizeForFunction lower d.message.department (d.clean Message.status) "to_process" ∉ terminalStatuses →
          d.message.jobId ∈ runningJobs (handleTaskManagerMessage s d) t id)) ↔
      (d.clean Message.status ≠ "" → normalizedKey lower (d.clean Message.status) ∈ terminalWords →
        d.clean Message.status ∈ terminalStatuses ∧ ¬(d.updateCall t).BringsBack s id d.message.jobId) := by
  have hget : (s t .onProcess).get? id = some doc := (UpdateCall.found_get? hf).1
  have hupd : d.message.jobId ∈ runningJobs (applyCall s (.update (d.updateCall t))) t id ↔
      (d.updateCall t).newStatus ∈ terminalStatuses → (d.updateCall t).BringsBack s id d.message.jobId :=
    mem_runningJobs_found hf
  rw [updateCall_terminal_iff] at hupd
  rw [handleTaskManagerMessage_update s ht hc]
  by_cases hs : d.clean Message.status = ""
  · -- without a status the normaliser answers its default, and the job stays
    have hterm : normalizeForFunction lower d.message.department (d.clean Message.status) "to_process" ∉
        terminalStatuses := by
      rw [hs, normalizeForFunction, if_pos rfl]
      decide
    have hstays : d.message.jobId ∈ runningJobs (if d.clean Message.status = "" ∧ t ≠ "hr" then s
        else applyCall s (.update (d.updateCall t))) t id := by
      split
      · rwa [runningJobs_of_get? hget]
      · rw [hupd, hs]
        intro habs
        exact absurd habs (by decide)
    exact ⟨fun _ h => absurd hs h, fun _ => ⟨fun h => absurd h hterm, fun _ => hstays⟩⟩
  · rw [if_neg fun h => hs h.1, normalizeForFunction_terminal_iff hs, hupd]
    -- a status of the queue's list is one of the words
    have hword : d.clean Message.status ∈ terminalStatuses →
        normalizedKey lower (d.clean Message.status) ∈ terminalWords := by
      intro hmem
      rw [normalizedKey, hlower _ hmem]
      revert hmem
      generalize d.clean Message.status = w
      revert w
      decide
    by_cases hw : normalizedKey lower (d.clean Message.status) ∈ terminalWords
    · simp [hs, hw]
    · have hnot : d.clean Message.status ∉ terminalStatuses := fun h => hw (hword h)
      simp [hw, hnot]

/-- A message of the router about a file of the batch `k`. -/
def fileMessage (status : String) : Delivery where
  message :=
    { type := "task_manager_update"
      jobId := "a"
      department := "Router"
      collectionId := "c"
      companyId := ""
      mandatePath := "clients/u/mandates/m"
      status := status
      batchId := "k"
      dataBatchId := none }
  sanitizedAt := "2024-01-01T00:00:00+00:00"
  now := 2
  promoteNow := 2

/-- `routed` is spelled as the queue spells it. -/
theorem handled_status_agrees_routed :
    normalizeForFunction lower "Router" "routed" "to_process" ∈ terminalStatuses ∧
      "a" ∉ runningJobs (handleTaskManagerMessage (applyCall Store.empty (.register (routerFiles "k" ["a", "b"] 1)))
        (fileMessage "routed")) "router" "clients_u_mandates_m_k" := by
  have hterm : normalizeForFunction lower "Router" "routed" "to_process" ∈ terminalStatuses := by decide
  refine ⟨hterm, ((handled_status_agrees_iff lower (by decide)
    (applyCall Store.empty (.register (routerFiles "k" ["a", "b"] 1))) (fileMessage "routed") "router"
    "clients_u_mandates_m_k" (jobDocument "clients/u/mandates/m" (routerFiles "k" ["a", "b"] 1).jobData "k" "router"
      true 1) (by decide) (by decide) rfl (by decide)).mpr ?_).1 hterm⟩
  intro _ _
  refine ⟨by decide, ?_⟩
  intro h'
  obtain ⟨e, he, -⟩ := h'
  cases he

/-- `success` is a status of the normaliser's table that the queue does not know: the job stays in the batch. -/
theorem handled_status_disagrees :
    ¬∀ (calls : List Call) (d : Delivery) (t id : String) (doc : JobDoc),
      extractActiveJobType d.message.department = some t → d.company ≠ "" →
      (d.updateCall t).found (Runs.run applyCall Store.empty calls) = some (id, doc) →
      d.message.jobId ∈ doc.jobsStatus.keys →
      normalizeForFunction lower d.message.department (d.clean Message.status) "to_process" ∈ terminalStatuses →
      d.message.jobId ∉
        runningJobs (handleTaskManagerMessage (Runs.run applyCall Store.empty calls) d) t id := by
  intro h
  exact h [.register (routerFiles "k" ["a", "b"] 1)] (fileMessage "success") "router" "clients_u_mandates_m_k"
    (jobDocument "clients/u/mandates/m" (routerFiles "k" ["a", "b"] 1).jobData "k" "router" true 1)
    (by decide) (by decide) rfl (by decide) (by decide) (by decide)

end Pinnokio.ActiveJobs
