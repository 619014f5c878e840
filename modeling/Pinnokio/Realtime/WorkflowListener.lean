import Pinnokio.Lib.Json
import Pinnokio.Lib.Mirror
import Pinnokio.Lib.Runs
import Pinnokio.Lib.Text

/-!
# The workflow listeners

While the form of a job is open, the backend watches two documents of the store, that of the job and that of its
invoice, and sends the web client the invoice fields and the steps that differ from the last ones it has sent something
of.  A client that writes what it receives is a mirror of the documents in the sense of `Pinnokio.Mirror`.

* `Manager`, `step` — the listeners, their cache and what has been broadcast;
* `tracks_run` — between a start and the next stop of a job, the cache and the messages of the job are those of one
  publisher, whatever the other jobs and users do;
* `processChanges_again` — a snapshot that is reported twice is broadcast once;
* `listener_shows_last` — **so the client shows the last invoice and the last steps**, up to the fields that the
  documents drop and bring back with the value of an absent one.
-/

namespace Pinnokio.Realtime.WorkflowListener

open Pinnokio.Mirror Pinnokio.Runs

/-! ### The data -/

/-- The values of a document, and how the listener handles them. -/
structure FieldValues (V : Type) where
  /-- `None`. -/
  none : V
  /-- `0`. -/
  zero : V
  /-- A text. -/
  text : String → V
  /-- A value as it is sent: a point in time becomes its ISO text. -/
  serializable : V → V

/-- What is sent of a job. -/
inductive Kind where
  | invoice
  | steps
  deriving DecidableEq

/-- The word for it in a cache key. -/
def Kind.word : Kind → String
  | .invoice => "invoice"
  | .steps => "steps"

/-- The type of its messages. -/
def Kind.type : Kind → String
  | .invoice => "workflow.invoice_update"
  | .steps => "workflow.step_update"

variable {V : Type}

/-- The value of a field that the cache lacks: `previous_data.get(field)`, `previous_steps.get(step_name, 0)`. -/
def Kind.absent (vals : FieldValues V) : Kind → V
  | .invoice => vals.none
  | .steps => vals.zero

/-- What is sent of a value. -/
def Kind.send (vals : FieldValues V) : Kind → V → V
  | .invoice => vals.serializable
  | .steps => id

/-- The value of a key of a document that should be a map. -/
inductive Nested (V : Type) where
  | absent
  | fields (d : Dict String V)
  | text (s : String)
  | other

/-- The document of a job. -/
structure JobDoc (V : Type) where
  collectionId : Option String
  spaceCode : Option String
  /-- `document.initial_data`. -/
  initialData : Nested V
  /-- `APBookeeper_step_status`. -/
  stepStatus : Nested V

/-- `doc_data.get("collection_id") or doc_data.get("space_code")`. -/
def JobDoc.space (doc : JobDoc V) : Option String :=
  match doc.collectionId with
  | some s => if s = "" then doc.spaceCode else some s
  | none => doc.spaceCode

/-- The invoice data, if there are any: what is not a map ends in the handler of `items()`. -/
def JobDoc.invoice (doc : JobDoc V) : Dict String V :=
  match doc.initialData with
  | .fields d => d
  | _ => ∅

/-- The steps, if there are any: a text is the label of a status. -/
def JobDoc.steps (vals : FieldValues V) (doc : JobDoc V) : Dict String V :=
  match doc.stepStatus with
  | .fields d => d
  | .text s => Dict.ofList [("status_label", vals.text s)]
  | _ => ∅

/-- A message to the web clients of a user. -/
structure Broadcast (V : Type) where
  type : String
  uid : String
  jobId : String
  spaceCode : Option String
  changes : List (String × V)

/-! ### The listeners -/

/-- The listeners by their keys, the cache, and what has been broadcast. -/
structure Manager (V : Type) where
  workflowUnsubs : List String
  workflowCache : Dict String (Dict String V)
  sent : List (Broadcast V)

/-- The listeners at the start. -/
def Manager.empty : Manager V := ⟨[], ∅, []⟩

/-- The key of a listener. -/
def listenerKey (uid jobId : String) : String := uid ++ ("_" ++ jobId)

/-- The key of what is cached of a job. -/
def cacheKey (kind : Kind) (uid jobId : String) : String := uid ++ ("_" ++ (kind.word ++ ("_" ++ jobId)))

/-- What is cached of a job. -/
def Manager.cached (m : Manager V) (kind : Kind) (uid jobId : String) : Dict String V :=
  (m.workflowCache.get? (cacheKey kind uid jobId)).getD ∅

section Step

variable [BEq V] (vals : FieldValues V)

/-- `_process_invoice_changes` and `_process_step_changes`. -/
def processChanges (kind : Kind) (m : Manager V) (uid jobId : String) (space : Option String)
    (data : Dict String V) : Manager V :=
  if data.isEmpty then m
  else
    let cs := changes (kind.absent vals) (m.cached kind uid jobId) data
    if cs = [] then m
    else
      { m with
        workflowCache := m.workflowCache.set (cacheKey kind uid jobId) data
        sent := m.sent ++ [⟨kind.type, uid, jobId, space, cs.map fun e => (e.1, kind.send vals e.2)⟩] }

/-- `start_workflow_listener_for_job`. -/
def startWorkflowListenerForJob (m : Manager V) (uid jobId : String) : Manager V :=
  if listenerKey uid jobId ∈ m.workflowUnsubs then m
  else
    { m with
      workflowUnsubs := listenerKey uid jobId :: m.workflowUnsubs
      workflowCache := [Kind.invoice, Kind.steps].foldl
        (fun c kind => if cacheKey kind uid jobId ∈ c.keys then c else c.set (cacheKey kind uid jobId) ∅)
        m.workflowCache }

/-- `stop_workflow_listener_for_job`. -/
def stopWorkflowListenerForJob (m : Manager V) (uid jobId : String) : Manager V :=
  if listenerKey uid jobId ∈ m.workflowUnsubs then
    { m with
      workflowUnsubs := m.workflowUnsubs.filter fun k => k ≠ listenerKey uid jobId
      workflowCache := (m.workflowCache.erase (cacheKey .invoice uid jobId)).erase (cacheKey .steps uid jobId) }
  else m

/-- What happens: a form opens or closes, or the store reports a document, which may not exist. -/
inductive Op (V : Type) where
  | start (uid jobId : String)
  | stop (uid jobId : String)
  | jobSnapshot (uid jobId : String) (doc : Option (JobDoc V))
  | invoiceSnapshot (uid jobId : String) (data : Option (Dict String V))

/-- The user it is about. -/
def Op.uid : Op V → String
  | start uid _ | stop uid _ | jobSnapshot uid _ _ | invoiceSnapshot uid _ _ => uid

/-- The job it is about. -/
def Op.jobId : Op V → String
  | start _ jobId | stop _ jobId | jobSnapshot _ jobId _ | invoiceSnapshot _ jobId _ => jobId

/-- The store reports only to listeners that are attached. -/
def step (m : Manager V) : Op V → Manager V
  | .start uid jobId => startWorkflowListenerForJob m uid jobId
  | .stop uid jobId => stopWorkflowListenerForJob m uid jobId
  | .jobSnapshot uid jobId doc =>
      if listenerKey uid jobId ∈ m.workflowUnsubs then
        match doc with
        | none => m
        | some doc =>
            processChanges vals .steps (processChanges vals .invoice m uid jobId doc.space doc.invoice) uid jobId
              doc.space (doc.steps vals)
      else m
  | .invoiceSnapshot uid jobId data =>
      if listenerKey uid jobId ∈ m.workflowUnsubs then
        match data with
        | none => m
        | some data => processChanges vals .invoice m uid jobId none data
      else m

/-- The data of one kind that a report of the store holds. -/
def Op.data (kind : Kind) : Op V → Dict String V
  | jobSnapshot _ _ (some doc) =>
      match kind with
      | .invoice => doc.invoice
      | .steps => doc.steps vals
  | invoiceSnapshot _ _ (some data) =>
      match kind with
      | .invoice => data
      | .steps => ∅
  | _ => ∅

/-- The snapshots of one kind of a job: the data that are not empty. -/
def snapshots (kind : Kind) (uid jobId : String) (ops : List (Op V)) : List (Dict String V) :=
  ((ops.filter fun op => op.uid = uid ∧ op.jobId = jobId).map (Op.data vals kind)).filter fun d => !d.isEmpty

end Step

/-- What a client shows that writes the messages of one kind for a job. -/
def view (kind : Kind) (uid jobId : String) (sent : List (Broadcast V)) : Dict String V :=
  sent.foldl (fun shown b =>
    if b.type = kind.type ∧ b.uid = uid ∧ b.jobId = jobId then shown.setAll b.changes else shown) ∅

theorem workflowUnsubs_processChanges [BEq V] (vals : FieldValues V) (kind : Kind) (m : Manager V)
    (uid jobId : String) (space : Option String) (data : Dict String V) :
    (processChanges vals kind m uid jobId space data).workflowUnsubs = m.workflowUnsubs := by
  unfold processChanges
  dsimp only
  split_ifs <;> rfl

/-! ### Keys -/

theorem Kind.word_free (kind : Kind) : '_' ∉ kind.word.toList := by
  cases kind <;> decide

theorem Kind.word_injective : Function.Injective Kind.word := by
  intro a b h
  cases a <;> cases b <;> first | rfl | exact absurd h (by decide)

theorem Kind.type_injective : Function.Injective Kind.type := by
  intro a b h
  cases a <;> cases b <;> first | rfl | exact absurd h (by decide)

theorem listenerKey_inj {uid uid' jobId jobId' : String} (hu : '_' ∉ uid.toList) (hu' : '_' ∉ uid'.toList)
    (h : listenerKey uid jobId = listenerKey uid' jobId') : uid = uid' ∧ jobId = jobId' :=
  Text.cut rfl hu hu' h

theorem cacheKey_inj {kind kind' : Kind} {uid uid' jobId jobId' : String} (hu : '_' ∉ uid.toList)
    (hu' : '_' ∉ uid'.toList) (h : cacheKey kind uid jobId = cacheKey kind' uid' jobId') :
    kind = kind' ∧ uid = uid' ∧ jobId = jobId' := by
  obtain ⟨huid, hrest⟩ := Text.cut rfl hu hu' h
  obtain ⟨hword, hjob⟩ := Text.cut rfl kind.word_free kind'.word_free hrest
  exact ⟨Kind.word_injective hword, huid, hjob⟩

/-! ### What is cached and what is shown -/

theorem view_concat (kind : Kind) (uid jobId : String) (sent : List (Broadcast V)) (b : Broadcast V) :
    view kind uid jobId (sent ++ [b]) =
    if b.type = kind.type ∧ b.uid = uid ∧ b.jobId = jobId then (view kind uid jobId sent).setAll b.changes
    else view kind uid jobId sent := by
  simp [view]

theorem cached_set (m : Manager V) (sent : List (Broadcast V)) (kind' : Kind) (uid' jobId' : String)
    (data : Dict String V) (kind : Kind) (uid jobId : String) :
    ({ m with workflowCache := m.workflowCache.set (cacheKey kind' uid' jobId') data, sent := sent } :
      Manager V).cached kind uid jobId =
      if cacheKey kind uid jobId = cacheKey kind' uid' jobId' then data else m.cached kind uid jobId := by
  unfold Manager.cached
  rw [Dict.get?_set]
  split <;> rfl

/-- A start leaves what is cached. -/
theorem cached_start (m : Manager V) (uid' jobId' : String) (kind : Kind) (uid jobId : String) :
    (startWorkflowListenerForJob m uid' jobId').cached kind uid jobId = m.cached kind uid jobId := by
  have hone : ∀ (c : Dict String (Dict String V)) (key k : String),
      ((if key ∈ c.keys then c else c.set key ∅).get? k).getD ∅ = (c.get? k).getD ∅ := by
    intro c key k
    split
    · rfl
    · next hkey =>
      rw [Dict.get?_set]
      split
      · next hk => rw [hk, Dict.get?_eq_none_iff.mpr hkey]; rfl
      · rfl
  unfold startWorkflowListenerForJob
  split
  · rfl
  · simp only [Manager.cached, List.foldl_cons, List.foldl_nil, hone]

/-- **A snapshot that is reported twice is broadcast once.** -/
theorem processChanges_again [BEq V] [ReflBEq V] (vals : FieldValues V) (kind : Kind) (m : Manager V)
    (uid jobId : String) (space : Option String) (data : Dict String V) :
    processChanges vals kind (processChanges vals kind m uid jobId space data) uid jobId space data =
      processChanges vals kind m uid jobId space data := by
  have hagain := changes_again (kind.absent vals) (m.cached kind uid jobId) data
  unfold processChanges
  dsimp only
  by_cases hempty : data.isEmpty = true
  · simp [hempty]
  · by_cases hcs : changes (kind.absent vals) (m.cached kind uid jobId) data = []
    · simp [hempty, hcs]
    · rw [publish, if_neg hcs] at hagain
      simp only [if_neg hempty, if_neg hcs, cached_set, if_pos, hagain]

/-! ### What does not concern a job -/

section Frame

variable [BEq V] {vals : FieldValues V} {kind : Kind} {uid jobId : String} {m m' : Manager V}

/-- From `m` to `m'` the job keeps its listener and its cache, and its client has been sent nothing. -/
structure Undisturbed (kind : Kind) (uid jobId : String) (m m' : Manager V) : Prop where
  attached : listenerKey uid jobId ∈ m'.workflowUnsubs ↔ listenerKey uid jobId ∈ m.workflowUnsubs
  cached : m'.cached kind uid jobId = m.cached kind uid jobId
  sent : ∃ new, m'.sent = m.sent ++ new ∧ ∀ b ∈ new, ¬(b.type = kind.type ∧ b.uid = uid ∧ b.jobId = jobId)

omit [BEq V] in
theorem Undisturbed.refl (m : Manager V) : Undisturbed kind uid jobId m m :=
  ⟨Iff.rfl, rfl, [], by simp, by simp⟩

omit [BEq V] in
theorem Undisturbed.trans {m'' : Manager V} (h : Undisturbed kind uid jobId m m')
    (h' : Undisturbed kind uid jobId m' m'') : Undisturbed kind uid jobId m m'' := by
  obtain ⟨new, hnew, hothers⟩ := h.sent
  obtain ⟨new', hnew', hothers'⟩ := h'.sent
  refine ⟨h'.attached.trans h.attached, h'.cached.trans h.cached, new ++ new', ?_, ?_⟩
  · rw [hnew', hnew, List.append_assoc]
  · intro b hb
    rcases List.mem_append.mp hb with hb | hb
    · exact hothers b hb
    · exact hothers' b hb

omit [BEq V] in
theorem view_append_others (sent : List (Broadcast V)) {new : List (Broadcast V)}
    (h : ∀ b ∈ new, ¬(b.type = kind.type ∧ b.uid = uid ∧ b.jobId = jobId)) :
    view kind uid jobId (sent ++ new) = view kind uid jobId sent := by
  induction new using List.reverseRecOn with
  | nil => simp
  | append_singleton new b ih =>
      rw [← List.append_assoc, view_concat, if_neg (h b (by simp))]
      exact ih fun b' hb' => h b' (List.mem_append_left _ hb')

theorem undisturbed_processChanges (m : Manager V) {kind' : Kind} {uid' jobId' : String} (hu : '_' ∉ uid.toList)
    (hu' : '_' ∉ uid'.toList) (hne : ¬(kind' = kind ∧ uid' = uid ∧ jobId' = jobId)) (space : Option String)
    (data : Dict String V) :
    Undisturbed kind uid jobId m (processChanges vals kind' m uid' jobId' space data) := by
  unfold processChanges
  dsimp only
  split
  · exact .refl m
  · split
    · exact .refl m
    · have hkey : cacheKey kind uid jobId ≠ cacheKey kind' uid' jobId' := by
        intro hk
        obtain ⟨hkind, huid, hjob⟩ := cacheKey_inj hu hu' hk
        exact hne ⟨hkind.symm, huid.symm, hjob.symm⟩
      refine ⟨Iff.rfl, by rw [cached_set, if_neg hkey], _, rfl, ?_⟩
      intro b hb
      rw [List.mem_singleton.mp hb]
      exact fun hself => hne ⟨Kind.type_injective hself.1, hself.2⟩

omit [BEq V] in
theorem undisturbed_start (m : Manager V) {uid' jobId' : String} (hu : '_' ∉ uid.toList) (hu' : '_' ∉ uid'.toList)
    (hne : ¬(uid' = uid ∧ jobId' = jobId)) :
    Undisturbed kind uid jobId m (startWorkflowListenerForJob m uid' jobId') := by
  refine ⟨?_, cached_start m uid' jobId' kind uid jobId, [], ?_, by simp⟩
  · have hkey : listenerKey uid jobId ≠ listenerKey uid' jobId' := fun hk =>
      hne ⟨(listenerKey_inj hu hu' hk).1.symm, (listenerKey_inj hu hu' hk).2.symm⟩
    unfold startWorkflowListenerForJob
    split
    · exact Iff.rfl
    · simp [hkey]
  · unfold startWorkflowListenerForJob
    split <;> simp

omit [BEq V] in
theorem undisturbed_stop (m : Manager V) {uid' jobId' : String} (hu : '_' ∉ uid.toList) (hu' : '_' ∉ uid'.toList)
    (hne : ¬(uid' = uid ∧ jobId' = jobId)) :
    Undisturbed kind uid jobId m (stopWorkflowListenerForJob m uid' jobId') := by
  unfold stopWorkflowListenerForJob
  split
  · have hkey : ∀ kind', cacheKey kind uid jobId ≠ cacheKey kind' uid' jobId' := fun kind' hk =>
      hne ⟨(cacheKey_inj hu hu' hk).2.1.symm, (cacheKey_inj hu hu' hk).2.2.symm⟩
    have hlistener : listenerKey uid jobId ≠ listenerKey uid' jobId' := fun hk =>
      hne ⟨(listenerKey_inj hu hu' hk).1.symm, (listenerKey_inj hu hu' hk).2.symm⟩
    refine ⟨?_, ?_, [], by simp, by simp⟩
    · simp [hlistener]
    · simp [Manager.cached, Dict.get?_erase, hkey]
  · exact .refl m

/-- What is about another job or another user. -/
theorem undisturbed_step (vals : FieldValues V) (kind : Kind) (m : Manager V) {op : Op V} (hu : '_' ∉ uid.toList)
    (hu' : '_' ∉ op.uid.toList) (hne : ¬(op.uid = uid ∧ op.jobId = jobId)) :
    Undisturbed kind uid jobId m (step vals m op) := by
  cases op with
  | start uid' jobId' => exact undisturbed_start m hu hu' hne
  | stop uid' jobId' => exact undisturbed_stop m hu hu' hne
  | jobSnapshot uid' jobId' doc =>
      simp only [step]
      split
      · cases doc with
        | none => exact .refl m
        | some doc =>
            exact (undisturbed_processChanges m hu hu' (fun hk => hne hk.2) _ _).trans
              (undisturbed_processChanges _ hu hu' (fun hk => hne hk.2) _ _)
      · exact .refl m
  | invoiceSnapshot uid' jobId' data =>
      simp only [step]
      split
      · cases data with
        | none => exact .refl m
        | some data => exact undisturbed_processChanges m hu hu' (fun hk => hne hk.2) _ _
      · exact .refl m

/-- Nothing is cached of a job whose listener is not attached. -/
theorem cached_of_detached (kind : Kind) (hu : '_' ∉ uid.toList) (ops : List (Op V))
    (hops : ∀ op ∈ ops, '_' ∉ op.uid.toList) :
    listenerKey uid jobId ∉ (run (step vals) Manager.empty ops).workflowUnsubs →
      (run (step vals) Manager.empty ops).cached kind uid jobId = ∅ := by
  induction ops using List.reverseRecOn with
  | nil => exact fun _ => rfl
  | append_singleton ops op ih =>
      intro hdet
      have hold := ih fun o ho => hops o (List.mem_append_left _ ho)
      have hu' := hops op (by simp)
      rw [run_concat] at hdet ⊢
      generalize run (step vals) Manager.empty ops = m at hdet hold ⊢
      by_cases hself : op.uid = uid ∧ op.jobId = jobId
      · obtain ⟨huid, hjob⟩ := hself
        cases op with
        | start uid' jobId' =>
            obtain rfl : uid' = uid := huid
            obtain rfl : jobId' = jobId := hjob
            simp only [step, startWorkflowListenerForJob] at hdet
            split at hdet
            · next hatt => exact absurd hatt hdet
            · exact absurd (List.mem_cons_self ..) hdet
        | stop uid' jobId' =>
            obtain rfl : uid' = uid := huid
            obtain rfl : jobId' = jobId := hjob
            simp only [step, stopWorkflowListenerForJob] at hdet ⊢
            split at hdet
            · next hatt =>
              rw [if_pos hatt]
              cases kind <;> simp [Manager.cached, Dict.get?_erase]
            · next hatt =>
              rw [if_neg hatt]
              exact hold hatt
        | jobSnapshot uid' jobId' doc =>
            obtain rfl : uid' = uid := huid
            obtain rfl : jobId' = jobId := hjob
            by_cases hatt : listenerKey uid' jobId' ∈ m.workflowUnsubs
            · refine absurd ?_ hdet
              simp only [step, if_pos hatt]
              cases doc with
              | none => exact hatt
              | some doc => simpa only [workflowUnsubs_processChanges] using hatt
            · simpa only [step, if_neg hatt] using hold hatt
        | invoiceSnapshot uid' jobId' data =>
            obtain rfl : uid' = uid := huid
            obtain rfl : jobId' = jobId := hjob
            by_cases hatt : listenerKey uid' jobId' ∈ m.workflowUnsubs
            · refine absurd ?_ hdet
              simp only [step, if_pos hatt]
              cases data with
              | none => exact hatt
              | some data => simpa only [workflowUnsubs_processChanges] using hatt
            · simpa only [step, if_neg hatt] using hold hatt
      · have hframe := undisturbed_step vals kind m hu hu' hself
        rw [hframe.cached]
        exact hold fun hatt => hdet (hframe.attached.mpr hatt)

end Frame

/-! ### One kind of one job -/

section Tracking

variable [BEq V] {vals : FieldValues V} {kind : Kind} {uid jobId : String}

/-- What the client has been sent since `base`, next to what the listener has cached. -/
structure Tracks (vals : FieldValues V) (kind : Kind) (uid jobId : String) (base : List (Broadcast V))
    (snaps : List (Dict String V)) (m : Manager V) : Prop where
  attached : listenerKey uid jobId ∈ m.workflowUnsubs
  link : ∃ new, m.sent = base ++ new ∧
    (⟨m.cached kind uid jobId, view kind uid jobId new⟩ : Link String V V) =
      snaps.foldl (Link.step (kind.absent vals) (kind.send vals)) Link.empty

variable {base : List (Broadcast V)} {snaps : List (Dict String V)} {m m' : Manager V}

theorem Tracks.undisturbed (h : Tracks vals kind uid jobId base snaps m) (hm : Undisturbed kind uid jobId m m') :
    Tracks vals kind uid jobId base snaps m' := by
  obtain ⟨hatt, new, hsent, hlink⟩ := h
  obtain ⟨new', hsent', hothers⟩ := hm.sent
  refine ⟨hm.attached.mpr hatt, new ++ new', by rw [hsent', hsent, List.append_assoc], ?_⟩
  rw [hm.cached, view_append_others new hothers, hlink]

/-- The data of the job itself. -/
theorem Tracks.processChanges (h : Tracks vals kind uid jobId base snaps m) (space : Option String)
    (data : Dict String V) : Tracks vals kind uid jobId base (snaps ++ [data].filter fun d => !d.isEmpty)
      (processChanges vals kind m uid jobId space data) := by
  obtain ⟨hatt, new, hsent, hlink⟩ := h
  unfold WorkflowListener.processChanges
  by_cases hempty : data.isEmpty = true
  · rw [if_pos hempty]
    exact ⟨hatt, new, hsent, by simpa [hempty] using hlink⟩
  · rw [if_neg hempty]
    have hfilter : ([data].filter fun d => !d.isEmpty) = [data] := by simp [hempty]
    dsimp only
    by_cases hcs : changes (kind.absent vals) (m.cached kind uid jobId) data = []
    · rw [if_pos hcs]
      refine ⟨hatt, new, hsent, ?_⟩
      rw [hfilter, List.foldl_append, ← hlink]
      simp [Link.step, publish, hcs, receive, Dict.setAll]
    · rw [if_neg hcs]
      refine ⟨hatt, new ++ [_], by rw [hsent, List.append_assoc], ?_⟩
      rw [hfilter, List.foldl_append, ← hlink, view_concat, if_pos ⟨rfl, rfl, rfl⟩, cached_set, if_pos rfl]
      simp only [List.foldl_cons, List.foldl_nil, Link.step, publish, if_neg hcs, receive]

/-- **One step**, as long as the listener of the job is not stopped. -/
theorem Tracks.step (h : Tracks vals kind uid jobId base snaps m) (hu : '_' ∉ uid.toList) (op : Op V)
    (hu' : '_' ∉ op.uid.toList) (hstop : op ≠ .stop uid jobId) :
    Tracks vals kind uid jobId base (snaps ++ snapshots vals kind uid jobId [op])
      (WorkflowListener.step vals m op) := by
  by_cases hself : op.uid = uid ∧ op.jobId = jobId
  · obtain ⟨huid, hjob⟩ := hself
    have hsnaps : snapshots vals kind uid jobId [op] = [op.data vals kind].filter fun d => !d.isEmpty := by
      simp [snapshots, huid, hjob]
    rw [hsnaps]
    cases op with
    | start uid' jobId' =>
        obtain rfl : uid' = uid := huid
        obtain rfl : jobId' = jobId := hjob
        have hstart : startWorkflowListenerForJob m uid' jobId' = m := if_pos h.attached
        simpa [Op.data, Dict.isEmpty, WorkflowListener.step, hstart] using h
    | stop uid' jobId' =>
        obtain rfl : uid' = uid := huid
        obtain rfl : jobId' = jobId := hjob
        exact absurd rfl hstop
    | jobSnapshot uid' jobId' doc =>
        obtain rfl : uid' = uid := huid
        obtain rfl : jobId' = jobId := hjob
        simp only [WorkflowListener.step, if_pos h.attached]
        cases doc with
        | none => simpa [Op.data, Dict.isEmpty] using h
        | some doc =>
            -- the invoice first, then the steps
            cases kind with
            | invoice =>
                exact (h.processChanges doc.space doc.invoice).undisturbed
                  (undisturbed_processChanges _ hu hu (fun hk => by cases hk.1) _ _)
            | steps =>
                exact (h.undisturbed (undisturbed_processChanges m hu hu (fun hk => by cases hk.1) _ _)).processChanges
                  _ _
    | invoiceSnapshot uid' jobId' data =>
        obtain rfl : uid' = uid := huid
        obtain rfl : jobId' = jobId := hjob
        simp only [WorkflowListener.step, if_pos h.attached]
        cases data with
        | none => simpa [Op.data, Dict.isEmpty] using h
        | some data =>
            cases kind with
            | invoice => exact h.processChanges none data
            | steps =>
                have hother : Undisturbed .steps uid' jobId' m
                    (WorkflowListener.processChanges vals .invoice m uid' jobId' none data) :=
                  undisturbed_processChanges m hu hu (fun hk => by cases hk.1) none data
                simpa [Op.data, Dict.isEmpty] using h.undisturbed hother
  · have hsnaps : snapshots vals kind uid jobId [op] = [] := by
      simp only [snapshots, List.filter_cons, decide_eq_true_eq, if_neg hself, List.filter_nil, List.map_nil]
    rw [hsnaps, List.append_nil]
    exact h.undisturbed (undisturbed_step vals kind m hu hu' hself)

/-- **A run without a stop of the job.** -/
theorem tracks_run (h : Tracks vals kind uid jobId base snaps m) (hu : '_' ∉ uid.toList) (ops : List (Op V))
    (hops : ∀ op ∈ ops, '_' ∉ op.uid.toList ∧ op ≠ .stop uid jobId) :
    Tracks vals kind uid jobId base (snaps ++ snapshots vals kind uid jobId ops) (run (step vals) m ops) := by
  induction ops generalizing snaps m with
  | nil => simpa [snapshots] using h
  | cons op ops ih =>
      obtain ⟨hop, hstop⟩ := hops op (List.mem_cons_self ..)
      have hone := ih (h.step hu op hop hstop) fun o ho => hops o (List.mem_cons_of_mem _ ho)
      have hsplit : snapshots vals kind uid jobId (op :: ops) =
          snapshots vals kind uid jobId [op] ++ snapshots vals kind uid jobId ops := by
        unfold snapshots
        rw [← List.filter_append, ← List.map_append, ← List.filter_append, List.singleton_append]
      rw [hsplit, ← List.append_assoc]
      exact hone

/-- A listener that starts. -/
theorem tracks_start (kind : Kind) (hu : '_' ∉ uid.toList) (before : List (Op V))
    (hbefore : ∀ op ∈ before, '_' ∉ op.uid.toList)
    (hdet : listenerKey uid jobId ∉ (run (step vals) Manager.empty before).workflowUnsubs) :
    Tracks vals kind uid jobId (run (step vals) Manager.empty before).sent []
      (step vals (run (step vals) Manager.empty before) (.start uid jobId)) := by
  refine ⟨?_, [], ?_, ?_⟩
  · simp [step, startWorkflowListenerForJob, hdet]
  · simp [step, startWorkflowListenerForJob, hdet]
  · simp only [step, cached_start, cached_of_detached kind hu before hbefore hdet, List.foldl_nil]
    rfl

/-- **From the start of a listener to the last snapshot**: with user ids free of `_`, the client that writes the
messages of the job shows every field of the last invoice, or every step, except one that an earlier snapshot had, a
later one dropped, and that has come back with the value of an absent one. -/
theorem listener_shows_last [PartialEquivBEq V] (vals : FieldValues V) (kind : Kind) (uid jobId : String)
    (before after : List (Op V)) (hu : '_' ∉ uid.toList) (hbefore : ∀ op ∈ before, '_' ∉ op.uid.toList)
    (hafter : ∀ op ∈ after, '_' ∉ op.uid.toList)
    (hdet : listenerKey uid jobId ∉ (run (step vals) Manager.empty before).workflowUnsubs)
    (hstop : Op.stop uid jobId ∉ after) (snaps : List (Dict String V)) (cur : Dict String V)
    (hsnaps : snapshots vals kind uid jobId after = snaps ++ [cur]) :
    ∃ new, (run (step vals) Manager.empty (before ++ .start uid jobId :: after)).sent =
        (run (step vals) Manager.empty before).sent ++ new ∧
      ∀ field v, cur.get? field = some v →
        Shows (kind.absent vals) (kind.send vals) (view kind uid jobId new) field v ∨
          ((v == kind.absent vals) = true ∧ Dropped field snaps) := by
  have hrun : run (step vals) Manager.empty (before ++ .start uid jobId :: after) =
      run (step vals) (step vals (run (step vals) Manager.empty before) (.start uid jobId)) after := by
    rw [run_append]
    rfl
  have htracks := tracks_run (tracks_start kind hu before hbefore hdet) hu after fun op hop =>
    ⟨hafter op hop, fun hs => hstop (hs ▸ hop)⟩
  rw [List.nil_append, hsnaps, ← hrun] at htracks
  obtain ⟨-, new, hsent, hlink⟩ := htracks
  refine ⟨new, hsent, fun field v hv => ?_⟩
  have hshows := shows_or_dropped (kind.absent vals) (kind.send vals) snaps hv
  rwa [← hlink] at hshows

/-- The values of documents without points in time. -/
def scalarValues : FieldValues Scalar := ⟨.none, .int 0, .str, id⟩

/-- The document of a job with these steps. -/
def jobWith (stepStatus : Nested Scalar) : JobDoc Scalar := ⟨some "", some "space", .absent, stepStatus⟩

/-- The form has been open before, and another user has opened that of another job. -/
def openedBefore : List (Op Scalar) :=
  [.start "uid" "job", .jobSnapshot "uid" "job" (some (jobWith (.fields (Dict.ofList [("extract", .int 9)])))),
    .start "other" "job2", .stop "uid" "job"]

/-- A job whose steps the store reports twice, with the label of a step that failed in between.  Meanwhile it reports
the jobs of another user and another job of the same one. -/
def reportedSteps : List (Op Scalar) :=
  [.jobSnapshot "uid" "job" (some (jobWith (.fields (Dict.ofList [("extract", .int 1)])))),
    .jobSnapshot "other" "job2" (some (jobWith (.fields (Dict.ofList [("extract", .int 7)])))),
    .jobSnapshot "uid" "job" (some (jobWith (.text "failed"))),
    .start "uid" "job2",
    .jobSnapshot "uid" "job2" (some (jobWith (.fields (Dict.ofList [("post", .int 5)])))),
    .stop "other" "job2",
    .jobSnapshot "uid" "job" (some (jobWith (.fields (Dict.ofList [("extract", .int 2), ("post", .int 0)]))))]

/-- The form of the job is opened once more. -/
theorem listener_shows_last_steps :
    ∃ new, (run (step scalarValues) Manager.empty (openedBefore ++ .start "uid" "job" :: reportedSteps)).sent =
        (run (step scalarValues) Manager.empty openedBefore).sent ++ new ∧
      ∀ field v, (Dict.ofList [("extract", Scalar.int 2), ("post", .int 0)]).get? field = some v →
        Shows (Kind.steps.absent scalarValues) (Kind.steps.send scalarValues) (view .steps "uid" "job" new) field v ∨
          ((v == Kind.steps.absent scalarValues) = true ∧
            Dropped field [Dict.ofList [("extract", Scalar.int 1)], Dict.ofList [("status_label", .str "failed")]]) :=
  listener_shows_last scalarValues .steps "uid" "job" openedBefore reportedSteps (by decide)
    (by simp [openedBefore, Op.uid]) (by simp [reportedSteps, Op.uid]) (by decide) (by simp [reportedSteps]) _ _ rfl

end Tracking

end Pinnokio.Realtime.WorkflowListener
