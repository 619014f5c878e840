import Mathlib.Data.Finset.Basic
import Mathlib.Data.Finset.Dedup
import Mathlib.Data.List.Forall2
import Mathlib.Data.List.Pairwise
import Pinnokio.Lib.Fifo
import Pinnokio.ActiveJobs.Calls

/-!
# The job queue of a mandate is a first-in first-out queue

Seen from outside, the two subcollections of a job type are one queue of batches: the batch that runs, and
the batches that wait for it in the order of their registration.  A batch leaves the queue when its last job is
done, or when all its jobs have been stopped before it has started.

* `fifoStep` — what a call means for that queue, in terms of batch keys and open jobs only;
* `Image` — the store shows a given queue;
* `image_step` — one call takes the image of a queue to the image of the next queue;
* `queue_refines_fifo` — so it does along every sequence of calls from the empty store.
-/

namespace Pinnokio.ActiveJobs

/-! ### The abstract queue -/

/-- A batch in the queue, with the jobs that are not done.  A batch without such a job is not in the queue. -/
@[ext]
structure Batch where
  key : String
  registeredAt : ℕ
  jobs : Finset String
  nonempty : jobs.Nonempty

namespace Batch

/-- What does not change while the batch is in the queue. -/
def label (b : Batch) : String × ℕ := (b.key, b.registeredAt)

/-- The batch with these jobs, if there is one left. -/
def withJobs? (b : Batch) (jobs : Finset String) : Option Batch :=
  if h : jobs.Nonempty then some { b with jobs := jobs, nonempty := h } else none

/-- A job reports its status: a terminal one takes the job out, any other one puts it in. -/
def report (b : Batch) (jobId newStatus : String) : Option Batch :=
  b.withJobs? (if newStatus ∈ terminalStatuses then b.jobs.erase jobId else insert jobId b.jobs)

/-- Jobs are stopped before the batch has started; an empty list stands for all of them. -/
def withdraw (b : Batch) (jobIdsToStop : List String) : Option Batch :=
  if jobIdsToStop = [] then none else b.withJobs? (b.jobs \ jobIdsToStop.toFinset)

/-- Jobs of a running batch are marked.  The mark is written through a field path, so an id with dots
enters its first element as a job of its own. -/
def mark (b : Batch) (jobIdsToStop : List String) : Batch :=
  match (jobIdsToStop.filter fun jid => jid ∈ b.jobs).mapM fieldPath with
  | none => b
  | some paths =>
      if conflicting paths then b
      else { b with
        jobs := b.jobs ∪ (paths.filterMap List.head?).toFinset
        nonempty := b.nonempty.mono Finset.subset_union_left }

theorem withJobs?_eq_none {b : Batch} {jobs : Finset String} : b.withJobs? jobs = none ↔ jobs = ∅ := by
  rw [← Finset.not_nonempty_iff_eq_empty]
  by_cases h : jobs.Nonempty <;> simp [withJobs?, h]

theorem withJobs?_eq_some {b b' : Batch} {jobs : Finset String} (h : b.withJobs? jobs = some b') :
    b'.label = b.label ∧ b'.jobs = jobs := by
  unfold withJobs? at h
  split at h
  · cases h
    exact ⟨rfl, rfl⟩
  · cases h

theorem withdraw_eq_some {b b' : Batch} {ids : List String} (h : b.withdraw ids = some b') :
    b'.label = b.label ∧ b'.jobs ⊆ b.jobs := by
  unfold withdraw at h
  split at h
  · cases h
  · obtain ⟨hl, hj⟩ := withJobs?_eq_some h
    exact ⟨hl, hj ▸ Finset.sdiff_subset⟩

theorem mark_label (b : Batch) (ids : List String) : (b.mark ids).label = b.label := by
  unfold mark
  split
  · rfl
  · split <;> rfl

theorem key_of_label {b b' : Batch} (h : b'.label = b.label) : b'.key = b.key := congrArg Prod.fst h

theorem registeredAt_of_label {b b' : Batch} (h : b'.label = b.label) :
    b'.registeredAt = b.registeredAt :=
  congrArg Prod.snd h

end Batch

/-- The ids a registration puts into the queue. -/
def RegisterCall.ids (c : RegisterCall) : Finset String :=
  (extractJobIdsFromPayload c.jobData c.jobType).keys.toFinset

/-- A status update is about the running batch: it names the batch, or the batch lists the job. -/
def UpdateCall.about (c : UpdateCall) (b : Batch) : Prop :=
  (c.batchId = some b.key ∧ b.key ≠ "") ∨ c.jobId ∈ b.jobs

instance (c : UpdateCall) (b : Batch) : Decidable (c.about b) :=
  inferInstanceAs (Decidable ((c.batchId = some b.key ∧ b.key ≠ "") ∨ c.jobId ∈ b.jobs))

/-- What a stop request means for the queue. -/
def fifoStop (q : Fifo Batch) (c : StopCall) : Fifo Batch :=
  let ids := idsOr c.jobIdsToStop c.jobKey
  if q.running.any fun b => b.key = c.jobKey then q.mapRunning fun b => b.mark c.jobIdsToStop
  else if q.waiting.any fun b => b.key = c.jobKey then
    q.editWaiting fun b => if b.key = c.jobKey then b.withdraw c.jobIdsToStop else some b
  else if q.running.any fun b => c.jobKey ∈ b.jobs then q.mapRunning fun b => b.mark ids
  else q.editWaiting fun b => if c.jobKey ∈ b.jobs then b.withdraw ids else some b

/-- What a call means for the queue. -/
def fifoStep (q : Fifo Batch) : Call → Fifo Batch
  | .register c => if h : c.ids.Nonempty then q.enqueue ⟨c.jobKey, c.now, c.ids, h⟩ else q
  | .update c =>
      match q.running with
      | none => q
      | some b => if c.about b then q.settle (b.report c.jobId c.newStatus) else q
  | .stop c => fifoStop q c

/-- The queue after a sequence of calls. -/
def fifoRun (calls : List Call) : Fifo Batch := calls.foldl fifoStep Fifo.empty

/-- The store after a sequence of calls. -/
def runCalls (calls : List Call) : Store := calls.foldl (fun s c => (runCall s c).1) Store.empty

/-! ### Sequences of calls on one queue -/

/-- The call is about this job type and mandate. -/
def Call.isOn (t m : String) : Call → Prop
  | .register c => c.jobType = t ∧ c.mandatePath = m
  | .update c => c.jobType = t ∧ c.mandatePath = m
  | .stop c => c.jobType = t ∧ c.mandatePath = m

/-- Calls on one queue, with distinct batch keys, at least one job in each batch, no job in two batches, and a
clock that moves between two registrations. -/
structure WellFormed (t m : String) (calls : List Call) : Prop where
  on : ∀ c ∈ calls, c.isOn t m
  keys : (registeredKeys calls).Nodup
  jobs : ∀ c ∈ registrations calls, c.ids.Nonempty
  disjoint : (registrations calls).Pairwise fun c c' => Disjoint c.ids c'.ids
  clock : (registrations calls).Pairwise fun c c' => c.now < c'.now

theorem registrations_append (calls calls' : List Call) :
    registrations (calls ++ calls') = registrations calls ++ registrations calls' :=
  List.filterMap_append

theorem registeredKeys_append (calls calls' : List Call) :
    registeredKeys (calls ++ calls') = registeredKeys calls ++ registeredKeys calls' := by
  simp [registeredKeys, registrations_append]

theorem WellFormed.of_append {t m : String} {calls calls' : List Call}
    (h : WellFormed t m (calls ++ calls')) : WellFormed t m calls where
  on := fun c hc => h.on c (List.mem_append_left _ hc)
  keys := by
    have := h.keys
    rw [registeredKeys_append] at this
    exact this.of_append_left
  jobs := fun c hc => h.jobs c (by rw [registrations_append]; exact List.mem_append_left _ hc)
  disjoint := by
    have := h.disjoint
    rw [registrations_append] at this
    exact (List.pairwise_append.mp this).1
  clock := by
    have := h.clock
    rw [registrations_append] at this
    exact (List.pairwise_append.mp this).1

theorem WellFormed.append_update {t m : String} {calls : List Call} (h : WellFormed t m calls)
    {c : UpdateCall} (hon : (Call.update c).isOn t m) : WellFormed t m (calls ++ [.update c]) := by
  have hreg : registrations (calls ++ [.update c]) = registrations calls := by
    rw [registrations_append]
    exact List.append_nil _
  refine ⟨fun c' hc' => ?_, ?_, ?_, ?_, ?_⟩
  · rcases List.mem_append.mp hc' with hc' | hc'
    · exact h.on c' hc'
    · rw [List.mem_singleton.mp hc']
      exact hon
  · rw [registeredKeys, hreg]
    exact h.keys
  · rw [hreg]
    exact h.jobs
  · rw [hreg]
    exact h.disjoint
  · rw [hreg]
    exact h.clock

/-! ### The image of a queue -/

/-- The document shows the batch. -/
structure Shows (m : String) (e : String × JobDoc) (b : Batch) : Prop where
  id : e.1 = docId m b.key
  key : e.2.jobKey = b.key
  mandate : e.2.mandatePath = m
  age : e.2.createdAt = b.registeredAt
  jobs : e.2.jobsStatus.keys.toFinset = b.jobs

/-- The store shows the queue: one document for the running batch, one for each waiting batch in the order
of the queue. -/
structure Image (t m : String) (s : Store) (q : Fifo Batch) : Prop where
  running : List.Forall₂ (Shows m) (s t .onProcess).entries q.running.toList
  waiting : List.Forall₂ (Shows m) (s t .pending).entries q.waiting

section Reads

variable {m : String} {c : Col} {bs : List Batch}

theorem Shows.mem_jobs {e : String × JobDoc} {b : Batch} (h : Shows m e b) {jobId : String} :
    jobId ∈ e.2.jobsStatus.keys ↔ jobId ∈ b.jobs := by
  rw [← h.jobs, List.mem_toFinset]

theorem shows_of_mem (h : List.Forall₂ (Shows m) c.entries bs) {e : String × JobDoc}
    (he : e ∈ c.entries) : ∃ b ∈ bs, Shows m e b := by
  obtain ⟨i, hi, rfl⟩ := List.mem_iff_getElem.mp he
  have hlen : i < bs.length := h.length_eq ▸ hi
  exact ⟨bs[i], List.getElem_mem hlen, (List.forall₂_iff_get.mp h).2 i hi hlen⟩

theorem shown_of_mem (h : List.Forall₂ (Shows m) c.entries bs) {b : Batch} (hb : b ∈ bs) :
    ∃ e ∈ c.entries, Shows m e b := by
  obtain ⟨i, hi, rfl⟩ := List.mem_iff_getElem.mp hb
  have hlen : i < c.entries.length := h.length_eq ▸ hi
  exact ⟨c.entries[i], List.getElem_mem hlen, (List.forall₂_iff_get.mp h).2 i hlen hi⟩

/-- Every document of the collection is one of the mandate. -/
theorem whereMandate_perm (h : List.Forall₂ (Shows m) c.entries bs) :
    (whereMandate c m).Perm c.entries := by
  have hall : c.entries.filter (fun e => e.2.mandatePath = m) = c.entries := by
    refine List.filter_eq_self.mpr fun e he => ?_
    obtain ⟨b, -, hs⟩ := shows_of_mem h he
    simpa using hs.mandate
  rw [whereMandate, hall]
  exact List.perm_insertionSort _ _

theorem whereMandate_length (h : List.Forall₂ (Shows m) c.entries bs) :
    (whereMandate c m).length = bs.length := by
  rw [(whereMandate_perm h).length_eq, h.length_eq]

theorem get?_docId_none (h : List.Forall₂ (Shows m) c.entries bs) {k : String} :
    c.get? (docId m k) = none ↔ ∀ b ∈ bs, b.key ≠ k := by
  rw [Dict.get?_eq_none_iff]
  constructor
  · rintro hk b hb rfl
    obtain ⟨e, he, hs⟩ := shown_of_mem h hb
    exact hk (hs.id ▸ List.mem_map_of_mem (f := Prod.fst) he)
  · intro hk hm
    obtain ⟨e, he, hid⟩ := List.mem_map.mp hm
    obtain ⟨b, hb, hs⟩ := shows_of_mem h he
    exact hk b hb (docId_injective (hs.id.symm.trans hid))

theorem get?_shows (h : List.Forall₂ (Shows m) c.entries bs) {id : String} {d : JobDoc}
    (hg : c.get? id = some d) : ∃ b ∈ bs, Shows m (id, d) b :=
  shows_of_mem h (Dict.mem_entries_iff.mpr hg)

theorem scanFor_none (h : List.Forall₂ (Shows m) c.entries bs) {jobId : String} :
    scanFor c m jobId = none ↔ ∀ b ∈ bs, jobId ∉ b.jobs := by
  simp only [scanFor, List.find?_eq_none, decide_eq_true_eq]
  constructor
  · intro hno b hb hj
    obtain ⟨e, he, hs⟩ := shown_of_mem h hb
    exact hno e ((whereMandate_perm h).mem_iff.mpr he) (hs.mem_jobs.mpr hj)
  · intro hno e he hj
    obtain ⟨b, hb, hs⟩ := shows_of_mem h ((whereMandate_perm h).mem_iff.mp he)
    exact hno b hb (hs.mem_jobs.mp hj)

theorem scanFor_some (h : List.Forall₂ (Shows m) c.entries bs) {jobId id : String} {d : JobDoc}
    (hs : scanFor c m jobId = some (id, d)) :
    c.get? id = some d ∧ ∃ b ∈ bs, Shows m (id, d) b ∧ jobId ∈ b.jobs := by
  have he : (id, d) ∈ c.entries := (whereMandate_perm h).mem_iff.mp (List.mem_of_find?_eq_some hs)
  obtain ⟨b, hb, hsh⟩ := shows_of_mem h he
  have hj : jobId ∈ d.jobsStatus.keys := by simpa using List.find?_some hs
  exact ⟨Dict.mem_entries_iff.mp he, b, hb, hsh, hsh.mem_jobs.mp hj⟩

theorem createdAt_eq {es : List (String × JobDoc)} (h : List.Forall₂ (Shows m) es bs) :
    es.map (fun e => e.2.createdAt) = bs.map Batch.registeredAt := by
  induction h with
  | nil => rfl
  | cons hs _ ih => rw [List.map_cons, List.map_cons, hs.age, ih]

theorem jobKey_eq {es : List (String × JobDoc)} (h : List.Forall₂ (Shows m) es bs) :
    es.map (fun e => e.2.jobKey) = bs.map Batch.key := by
  induction h with
  | nil => rfl
  | cons hs _ ih => rw [List.map_cons, List.map_cons, hs.key, ih]

/-- The oldest pending document is the first one. -/
theorem oldestPending_eq (h : List.Forall₂ (Shows m) c.entries bs)
    (hage : (bs.map Batch.registeredAt).Pairwise (· < ·)) :
    oldestPending c m = c.entries.head? := by
  have hall : c.entries.filter (fun e => e.2.mandatePath = m) = c.entries := by
    refine List.filter_eq_self.mpr fun e he => ?_
    obtain ⟨b, -, hs⟩ := shows_of_mem h he
    simpa using hs.mandate
  rw [← createdAt_eq h] at hage
  have hsorted : c.entries.Pairwise olderThan :=
    (List.pairwise_map.mp hage).imp fun hlt => Or.inl hlt
  rw [oldestPending, hall, hsorted.insertionSort_eq]

end Reads

section Writes

variable {m : String} {c : Col} {bs : List Batch}

/-- An edit of the documents that follows an edit of the batches. -/
theorem forall₂_edit {R : String × JobDoc → Batch → Prop} {es : List (String × JobDoc)}
    (h : List.Forall₂ R es bs) (g : String × JobDoc → Option (String × JobDoc)) (f : Batch → Option Batch)
    (hgf : ∀ e b, R e b → Option.Rel R (g e) (f b)) :
    List.Forall₂ R (es.filterMap g) (bs.filterMap f) :=
  List.rel_filterMap (fun e b hr => hgf e b hr) h

theorem entries_erase (k : String) :
    (c.erase k).entries = c.entries.filterMap fun e => if e.1 = k then none else some e := by
  show c.entries.filter _ = _
  rw [← List.filterMap_eq_filter]
  refine List.filterMap_congr fun e _ => ?_
  by_cases he : e.1 = k <;> simp [Option.guard, he]

theorem entries_modify (k : String) (f : JobDoc → JobDoc) :
    (c.modify k f).entries = c.entries.filterMap fun e =>
      if e.1 = k then some (e.1, f e.2) else some e := by
  show c.entries.map _ = _
  rw [← List.filterMap_eq_map]
  refine List.filterMap_congr fun e _ => ?_
  by_cases he : e.1 = k <;> simp [he]

theorem Shows.id_iff {e : String × JobDoc} {b : Batch} (h : Shows m e b) {k : String} :
    e.1 = docId m k ↔ b.key = k := by
  rw [h.id]
  exact ⟨docId_injective, fun hk => by rw [hk]⟩

/-- The document of one batch is deleted. -/
theorem shows_erase (h : List.Forall₂ (Shows m) c.entries bs) (k : String) :
    List.Forall₂ (Shows m) (c.erase (docId m k)).entries
      (bs.filterMap fun b => if b.key = k then none else some b) := by
  rw [entries_erase]
  refine forall₂_edit h _ _ fun e b hs => ?_
  by_cases hk : b.key = k
  · simp only [hs.id_iff.mpr hk, hk, if_true]
    exact .none
  · simp only [hs.id_iff.not.mpr hk, hk, if_false]
    exact .some hs

/-- The document of one batch is updated. -/
theorem shows_modify (h : List.Forall₂ (Shows m) c.entries bs) (k : String) (f : JobDoc → JobDoc)
    (g : Batch → Batch) (hfg : ∀ e b, Shows m e b → b.key = k → e ∈ c.entries →
      Shows m (e.1, f e.2) (g b)) :
    List.Forall₂ (Shows m) (c.modify (docId m k) f).entries
      (bs.filterMap fun b => if b.key = k then some (g b) else some b) := by
  rw [entries_modify]
  have h' : List.Forall₂ (fun e b => Shows m e b ∧ e ∈ c.entries) c.entries bs := by
    rw [List.forall₂_iff_get] at h ⊢
    exact ⟨h.1, fun i h₁ h₂ => ⟨h.2 i h₁ h₂, List.getElem_mem h₁⟩⟩
  refine (List.rel_filterMap (R := fun e b => Shows m e b ∧ e ∈ c.entries) ?_ h')
  intro e b h'
  obtain ⟨hs, he⟩ := h'
  by_cases hk : b.key = k
  · simp only [hs.id_iff.mpr hk, hk, if_true]
    have := hfg e b hs hk he
    rw [hs.id_iff.mpr hk] at this
    exact .some this
  · simp only [hs.id_iff.not.mpr hk, hk, if_false]
    exact .some hs

end Writes

/-! ### One call -/

section Step

variable {t m : String} {s : Store} {q : Fifo Batch}

theorem Image.empty : Image t m Store.empty Fifo.empty := ⟨.nil, .nil⟩

theorem Image.idle_entries (h : Image t m s q) (hr : q.running = none) :
    (s t .onProcess).entries = [] := by
  have := h.running
  rw [hr] at this
  exact List.forall₂_nil_right_iff.mp this

theorem Image.running_entry (h : Image t m s q) {b : Batch} (hr : q.running = some b) :
    ∃ d, (s t .onProcess).entries = [(docId m b.key, d)] ∧ Shows m (docId m b.key, d) b := by
  have hrun := h.running
  rw [hr] at hrun
  obtain ⟨e, es, hs, hnil, heq⟩ := List.forall₂_cons_right_iff.mp hrun
  rw [List.forall₂_nil_right_iff.mp hnil] at heq
  obtain ⟨id, d⟩ := e
  obtain rfl : id = docId m b.key := hs.id
  exact ⟨d, heq, hs⟩

/-- The running batch is the only document a read can return. -/
theorem get?_of_entries_singleton {c : Col} {id id' : String} {d : JobDoc} (h : c.entries = [(id, d)]) :
    c.get? id' = if id = id' then some d else none := by
  rw [Dict.get?, h]
  rfl

theorem Image.whereMandate_isEmpty (h : Image t m s q) :
    (whereMandate (s t .onProcess) m).isEmpty = q.running.isNone := by
  have hlen := whereMandate_length h.running
  cases hr : q.running with
  | none =>
      rw [hr] at hlen
      simpa using hlen
  | some b =>
      rw [hr] at hlen
      rw [Option.isNone_some, ← Bool.not_eq_true, List.isEmpty_iff]
      intro hnil
      rw [hnil] at hlen
      cases hlen

/-- A registration puts the batch at the end of the queue. -/
theorem image_register (h : Image t m s q) (c : RegisterCall) (ht : c.jobType = t)
    (hm : c.mandatePath = m) (hids : c.ids.Nonempty) (hkey : ∀ b ∈ q.contents, b.key ≠ c.jobKey) :
    Image t m (registerJob s c.mandatePath c.jobData c.jobKey c.jobType c.now).1
      (q.enqueue ⟨c.jobKey, c.now, c.ids, hids⟩) := by
  have hshow : ∀ b, Shows m (docId m c.jobKey, jobDocument m c.jobData c.jobKey c.jobType b c.now)
      ⟨c.jobKey, c.now, c.ids, hids⟩ := fun _ => ⟨rfl, rfl, rfl, rfl, rfl⟩
  have hempty := h.whereMandate_isEmpty
  simp only [registerJob, hm, ht, hempty]
  rw [ht] at hshow
  cases hr : q.running with
  | none =>
      have hop := h.idle_entries hr
      have hnew : docId m c.jobKey ∉ (s t .onProcess).keys := by simp [Dict.keys, hop]
      have hq : q.enqueue ⟨c.jobKey, c.now, c.ids, hids⟩
          = ⟨some ⟨c.jobKey, c.now, c.ids, hids⟩, [], by simp⟩ := by
        simp only [Fifo.enqueue, hr]
      rw [hq]
      refine ⟨?_, ?_⟩
      · simp only [Option.isNone_none, if_true, Store.put, Store.change_same]
        rw [Dict.entries_set_of_not_mem _ hnew, hop]
        exact .cons (hshow _) .nil
      · simp only [Option.isNone_none, if_true, Store.put, Store.change_onProcess_pending]
        have := h.waiting
        rwa [q.idle hr] at this
  | some b =>
      have hq : q.enqueue ⟨c.jobKey, c.now, c.ids, hids⟩
          = ⟨some b, q.waiting ++ [⟨c.jobKey, c.now, c.ids, hids⟩], (by simp)⟩ := by
        simp only [Fifo.enqueue, hr]
      have hnew : docId m c.jobKey ∉ (s t .pending).keys := by
        rw [← Dict.get?_eq_none_iff, get?_docId_none h.waiting]
        exact fun b' hb' => hkey b' (List.mem_append_right _ hb')
      rw [hq]
      refine ⟨?_, ?_⟩
      · have := h.running
        rw [hr] at this
        simpa [Store.put] using this
      · simp only [Option.isNone_some, Store.put, Bool.false_eq_true, if_false, Store.change_same]
        rw [Dict.entries_set_of_not_mem _ hnew]
        exact List.rel_append h.waiting (.cons (hshow _) .nil)

/-- The server is free and the oldest pending batch is promoted. -/
theorem image_promote (hw : List.Forall₂ (Shows m) (s t .pending).entries q.waiting)
    (hage : (q.waiting.map Batch.registeredAt).Pairwise (· < ·))
    (hop : (s t .onProcess).entries = []) (now : ℕ) :
    Image t m (promoteNextPending s t m now).1 q.finish := by
  have hq : q.finish = ⟨q.waiting.head?, q.waiting.tail, q.finish.idle⟩ := rfl
  rw [hq, promoteNextPending, oldestPending_eq hw hage]
  rcases hes : (s t .pending).entries with _ | ⟨⟨id, d⟩, es⟩
  · have hnil : q.waiting = [] := by
      rw [hes] at hw
      exact List.forall₂_nil_left_iff.mp hw
    refine ⟨?_, ?_⟩
    · simp [hop, hnil]
    · simp [hes, hnil]
  · rw [hes] at hw
    obtain ⟨b, bs, hs, hrest, hbs⟩ := List.forall₂_cons_left_iff.mp hw
    have herase : ((s t .pending).erase id).entries = es := by
      have hn := (s t .pending).nodup
      rw [hes, List.map_cons, List.nodup_cons] at hn
      show (s t .pending).entries.filter _ = es
      rw [hes, List.filter_cons_of_neg (by simp)]
      refine List.filter_eq_self.mpr fun e he => ?_
      have hne : e.1 ≠ id := fun heq => hn.1 (List.mem_map.mpr ⟨e, he, heq⟩)
      simpa using hne
    have hnew : docId m d.jobKey ∉ (s t .onProcess).keys := by simp [Dict.keys, hop]
    refine ⟨?_, ?_⟩
    · simp only [List.head?_cons, Store.delete, Store.put, Store.change_pending_onProcess,
        Store.change_same]
      rw [Dict.entries_set_of_not_mem _ hnew, hop, hbs]
      have hkey : d.jobKey = b.key := hs.key
      exact .cons ⟨by rw [hkey], hs.key, hs.mandate, hs.age, hs.jobs⟩ .nil
    · simp only [List.head?_cons, Store.delete, Store.put, Store.change_same,
        Store.change_onProcess_pending]
      rw [herase, hbs]
      exact hrest

theorem applyStatus_jobs {d : JobDoc} {b : Batch} (h : d.jobsStatus.keys.toFinset = b.jobs)
    (jobId newStatus : String) : (applyStatus d.jobsStatus jobId newStatus).keys.toFinset =
      if newStatus ∈ terminalStatuses then b.jobs.erase jobId else insert jobId b.jobs := by
  rw [← h]
  ext k
  by_cases ht : newStatus ∈ terminalStatuses
  · simp [applyStatus, ht, Dict.mem_keys_erase]
  · simp [applyStatus, ht, Dict.mem_keys_set]

theorem isEmpty_iff_toFinset {js : JobsStatus} : js.isEmpty = true ↔ js.keys.toFinset = ∅ := by
  rw [Dict.isEmpty_iff, Finset.eq_empty_iff_forall_notMem]
  simp

/-- The document a status update finds. -/
theorem findActiveDoc_running (h : Image t m s q) {b : Batch} {d : JobDoc} (hr : q.running = some b)
    (hop : (s t .onProcess).entries = [(docId m b.key, d)]) (c : UpdateCall) :
    findActiveDoc s t m c.jobId c.batchId = if c.about b then some (docId m b.key, d) else none := by
  have hrun : List.Forall₂ (Shows m) (s t .onProcess).entries [b] := by
    have := h.running
    rwa [hr] at this
  have honly : ∀ id d', (s t .onProcess).get? id = some d' → (id, d') = (docId m b.key, d) := by
    intro id d' hg
    have hmem := Dict.mem_entries_iff.mpr hg
    rw [hop, List.mem_singleton] at hmem
    exact hmem
  have hlook : ∀ r, lookupBatch (s t .onProcess) m c.batchId = some r →
      r = (docId m b.key, d) ∧ c.batchId = some b.key ∧ b.key ≠ "" := by
    intro r hl
    unfold lookupBatch at hl
    split at hl
    · cases hl
    · rename_i id hid
      obtain ⟨d', hg, rfl⟩ := Option.map_eq_some_iff.mp hl
      have heq := honly id d' hg
      refine ⟨heq, ?_⟩
      obtain rfl : id = docId m b.key := (Prod.mk.inj heq).1
      unfold batchDocId at hid
      split at hid
      · cases hid
      · split at hid
        · cases hid
        · rename_i k hk hne
          obtain rfl : k = b.key := docId_injective (Option.some.inj hid)
          exact ⟨hk, hne⟩
  unfold findActiveDoc
  cases hl : lookupBatch (s t .onProcess) m c.batchId with
  | some r =>
      obtain ⟨rfl, hb⟩ := hlook r hl
      rw [if_pos (show c.about b from Or.inl hb)]
  | none =>
      have hbatch : ¬(c.batchId = some b.key ∧ b.key ≠ "") := by
        intro h'
        obtain ⟨hb, hne⟩ := h'
        have hg : (s t .onProcess).get? (docId m b.key) = some d := by
          rw [get?_of_entries_singleton hop, if_pos rfl]
        simp [lookupBatch, batchDocId, hb, hne, hg] at hl
      cases hsc : scanFor (s t .onProcess) m c.jobId with
      | none =>
          have hj := (scanFor_none hrun).mp hsc b (List.mem_singleton_self b)
          rw [if_neg (show ¬c.about b from not_or.mpr ⟨hbatch, hj⟩)]
      | some r =>
          obtain ⟨id, d'⟩ := r
          obtain ⟨hg, b', hb', -, hj⟩ := scanFor_some hrun hsc
          rw [List.mem_singleton.mp hb'] at hj
          rw [if_pos (show c.about b from Or.inr hj), honly id d' hg]

theorem findActiveDoc_idle (h : Image t m s q) (hr : q.running = none) (jobId : String)
    (batchId : Option String) : findActiveDoc s t m jobId batchId = none := by
  have hop := h.idle_entries hr
  have hget : ∀ id, (s t .onProcess).get? id = none := by
    intro id
    rw [Dict.get?, hop]
    rfl
  have hrun : List.Forall₂ (Shows m) (s t .onProcess).entries [] := by
    have := h.running
    rwa [hr] at this
  have hlook : lookupBatch (s t .onProcess) m batchId = none := by
    unfold lookupBatch
    split
    · rfl
    · rw [hget]
      rfl
  rw [findActiveDoc, hlook]
  exact (scanFor_none hrun).mpr (by simp)

/-- The document after an edit shows the batch after the matching edit. -/
theorem Shows.relabel {id : String} {d d' : JobDoc} {b b' : Batch} (h : Shows m (id, d) b)
    (hl : b'.label = b.label) (hk : d'.jobKey = d.jobKey) (hm : d'.mandatePath = d.mandatePath)
    (ha : d'.createdAt = d.createdAt) (hj : d'.jobsStatus.keys.toFinset = b'.jobs) :
    Shows m (id, d') b' where
  id := by rw [Batch.key_of_label hl]; exact h.id
  key := (hk.trans h.key).trans (Batch.key_of_label hl).symm
  mandate := hm.trans h.mandate
  age := (ha.trans h.age).trans (Batch.registeredAt_of_label hl).symm
  jobs := hj

/-- The running document is updated in place. -/
theorem image_modify_running (h : Image t m s q) {b : Batch} {d : JobDoc}
    (hop : (s t .onProcess).entries = [(docId m b.key, d)]) (f : JobDoc → JobDoc) {b' : Batch}
    (hs : Shows m (docId m b.key, f d) b') {q' : Fifo Batch} (hr : q'.running = some b')
    (hw : q'.waiting = q.waiting) :
    Image t m (s.change t .onProcess fun c => c.modify (docId m b.key) f) q' := by
  refine ⟨?_, by simpa [hw] using h.waiting⟩
  have hes : ((s t .onProcess).modify (docId m b.key) f).entries = [(docId m b.key, f d)] := by
    simp [Dict.modify, hop]
  rw [Store.change_same, hes, hr]
  exact .cons hs .nil

/-- A status update changes the running batch, or ends it and promotes the next one. -/
theorem image_update (h : Image t m s q) (hage : (q.waiting.map Batch.registeredAt).Pairwise (· < ·))
    (c : UpdateCall) (ht : c.jobType = t) (hm : c.mandatePath = m) :
    Image t m (updateJobStatusInActive s c.jobType c.mandatePath c.jobId c.newStatus c.batchId c.now
      c.promoteNow).1 (fifoStep q (.update c)) := by
  rw [ht, hm]
  unfold updateJobStatusInActive
  cases hr : q.running with
  | none =>
      rw [findActiveDoc_idle h hr]
      simpa only [fifoStep, hr] using h
  | some b =>
      obtain ⟨d, hop, hs⟩ := h.running_entry hr
      rw [findActiveDoc_running h hr hop c]
      by_cases ha : c.about b
      · have hjobs := applyStatus_jobs (d := d) hs.jobs c.jobId c.newStatus
        simp only [ha, if_true, fifoStep, hr]
        cases hrep : b.report c.jobId c.newStatus with
        | none =>
            have hempty : (applyStatus d.jobsStatus c.jobId c.newStatus).isEmpty = true := by
              rw [isEmpty_iff_toFinset, hjobs]
              exact Batch.withJobs?_eq_none.mp hrep
            rw [if_pos hempty]
            have hdel : ((s.delete t .onProcess (docId m b.key)) t .onProcess).entries = [] := by
              simp [Store.delete, Dict.erase, hop]
            exact image_promote (by simpa [Store.delete] using h.waiting) hage hdel c.promoteNow
        | some b' =>
            have hne : (applyStatus d.jobsStatus c.jobId c.newStatus).isEmpty = false := by
              rw [← Bool.not_eq_true, isEmpty_iff_toFinset, hjobs, ← (Batch.withJobs?_eq_some hrep).2]
              exact b'.nonempty.ne_empty
            have hg : (s t .onProcess).get? (docId m b.key) = some d := by
              rw [get?_of_entries_singleton hop, if_pos rfl]
            rw [hne]
            simp only [Bool.false_eq_true, if_false, Store.update?_of_get? _ hg]
            obtain ⟨hl, hj⟩ := Batch.withJobs?_eq_some hrep
            refine image_modify_running h hop _ (hs.relabel hl rfl rfl rfl ?_) rfl rfl
            exact hjobs.trans hj.symm
      · simpa only [ha, if_false, fifoStep, hr] using h

/-- The decision of `_stop_pending` is that of the abstract batch. -/
theorem stopPendingPlan_withdraw {e : String × JobDoc} {b : Batch} (h : Shows m e b)
    (ids : List String) :
    ((stopPendingPlan e.2 ids).2 = none ∧ b.withdraw ids = none) ∨
      ∃ js b', (stopPendingPlan e.2 ids).2 = some js ∧ b.withdraw ids = some b' ∧
        js.keys.toFinset = b'.jobs := by
  by_cases hids : ids = []
  · exact Or.inl ⟨by simp [stopPendingPlan, hids], by simp [Batch.withdraw, hids]⟩
  · have hjobs : (removeJobs ids e.2.jobsStatus).2.keys.toFinset = b.jobs \ ids.toFinset := by
      ext k
      rw [List.mem_toFinset, mem_keys_removeJobs, h.mem_jobs]
      simp
    simp only [stopPendingPlan, Batch.withdraw, hids, ne_eq, not_false_eq_true, if_true, if_false]
    cases hw : b.withJobs? (b.jobs \ ids.toFinset) with
    | none =>
        have := Batch.withJobs?_eq_none.mp hw
        left
        rw [if_pos (isEmpty_iff_toFinset.mpr (hjobs.trans this))]
        exact ⟨rfl, rfl⟩
    | some b' =>
        have hb' := (Batch.withJobs?_eq_some hw).2
        right
        refine ⟨_, b', if_neg ?_, rfl, hjobs.trans hb'.symm⟩
        rw [isEmpty_iff_toFinset, hjobs, ← hb']
        exact b'.nonempty.ne_empty

/-- A stop of a pending batch takes its jobs, or the whole batch, out of the queue. -/
theorem image_stopPending (h : Image t m s q) {id : String} {d : JobDoc} {b : Batch}
    (hg : (s t .pending).get? id = some d) (hs : Shows m (id, d) b) (callKey jobKey : String)
    (ids : List String) (now : ℕ) :
    Image t m (stopPending s t id d callKey jobKey ids now).1
      (q.editWaiting fun b' => if b'.key = b.key then b'.withdraw ids else some b') := by
  obtain rfl : id = docId m b.key := hs.id
  -- the batch is determined by its key: the documents have distinct ids
  have huniq : ∀ e b', Shows m e b' → b'.key = b.key → e ∈ (s t .pending).entries →
      e = (docId m b.key, d) ∧ b' = b := by
    intro entry b' hs' hk he
    obtain ⟨id', d'⟩ := entry
    obtain rfl : id' = docId m b.key := by rw [← hk]; exact hs'.id
    obtain rfl : d' = d := Option.some.inj ((Dict.mem_entries_iff.mp he).symm.trans hg)
    refine ⟨rfl, Batch.ext hk (hs'.age.symm.trans hs.age) (hs'.jobs.symm.trans hs.jobs)⟩
  have hedit : q.waiting.filterMap (fun b' => if b'.key = b.key then b'.withdraw ids else some b')
      = q.waiting.filterMap (fun b' => if b'.key = b.key then b.withdraw ids else some b') := by
    refine List.filterMap_congr fun b' hb' => ?_
    by_cases hk : b'.key = b.key
    · obtain ⟨e, he, hs'⟩ := shown_of_mem h.waiting hb'
      rw [(huniq e b' hs' hk he).2]
    · simp only [hk, if_false]
  rcases stopPendingPlan_withdraw hs ids with ⟨hplan, hw⟩ | ⟨js, b', hplan, hw, hjs⟩
  · simp only [stopPending, hplan]
    refine ⟨by simpa [Store.delete, Fifo.editWaiting] using h.running, ?_⟩
    show List.Forall₂ _ _ (q.waiting.filterMap _)
    rw [hedit, hw, Store.delete, Store.change_same]
    exact shows_erase h.waiting b.key
  · simp only [stopPending, hplan, Store.update?_of_get? _ hg]
    refine ⟨by simpa [Fifo.editWaiting] using h.running, ?_⟩
    show List.Forall₂ _ _ (q.waiting.filterMap _)
    rw [hedit, hw, Store.change_same]
    refine shows_modify h.waiting b.key _ (fun _ => b') fun e b₁ hs₁ hk he => ?_
    obtain ⟨rfl, -⟩ := huniq e b₁ hs₁ hk he
    exact hs.relabel (Batch.withdraw_eq_some hw).1 rfl rfl rfl hjs

/-- A stop of the running batch marks its jobs. -/
theorem image_stopOnProcess (h : Image t m s q) {b : Batch} (hr : q.running = some b) {d : JobDoc}
    (hg : (s t .onProcess).get? (docId m b.key) = some d) (callKey jobKey : String)
    (ids transactionIds : List String) (now : ℕ) :
    Image t m (stopOnProcess s t (docId m b.key) d callKey jobKey ids transactionIds now).1
      (q.mapRunning fun b' => b'.mark ids) := by
  obtain ⟨d', hop, hs⟩ := h.running_entry hr
  obtain rfl : d' = d := by
    rw [get?_of_entries_singleton hop, if_pos rfl] at hg
    exact Option.some.inj hg
  have hrun : (q.mapRunning fun b' => b'.mark ids).running = some (b.mark ids) := by
    simp [Fifo.mapRunning, hr]
  have hsame : b.mark ids = b → q.mapRunning (fun b' => b'.mark ids) = q := by
    intro hb
    rw [hb, ← hr] at hrun
    exact Fifo.ext hrun rfl
  have hfilter : (ids.filter fun jid => jid ∈ d'.jobsStatus.keys) = ids.filter fun jid => jid ∈ b.jobs := by
    refine List.filter_congr fun jid _ => ?_
    rw [decide_eq_decide]
    exact hs.mem_jobs
  unfold stopOnProcess stopOnProcessEdit
  by_cases hids : ids = []
  · have hjobs : (b.mark ids).jobs = b.jobs := by simp [Batch.mark, hids, conflicting]
    have hplain : ∀ f : JobDoc → JobDoc, (f d').jobKey = d'.jobKey →
        (f d').mandatePath = d'.mandatePath → (f d').createdAt = d'.createdAt →
        (f d').jobsStatus = d'.jobsStatus →
        Image t m (s.change t .onProcess fun c => c.modify (docId m b.key) f)
          (q.mapRunning fun b' => b'.mark ids) := fun f hk hm ha hj =>
      image_modify_running h hop f
        (hs.relabel (b.mark_label ids) hk hm ha (by rw [hj, hjobs]; exact hs.jobs)) hrun rfl
    by_cases htx : transactionIds = []
    · simp only [hids, htx, ne_eq, not_true_eq_false, if_false, Store.update?_of_get? _ hg]
      rw [← hids]
      exact hplain _ rfl rfl rfl rfl
    · simp only [hids, htx, ne_eq, not_true_eq_false, not_false_eq_true, if_true, if_false,
        Store.update?_of_get? _ hg]
      rw [← hids]
      exact hplain _ rfl rfl rfl rfl
  · simp only [hids, ne_eq, not_false_eq_true, if_true]
    rw [hfilter]
    cases hp : (ids.filter fun jid => jid ∈ b.jobs).mapM fieldPath with
    | none =>
        rw [hsame (by simp [Batch.mark, hp])]
        exact h
    | some paths =>
        by_cases hc : conflicting paths = true
        · rw [hsame (by simp [Batch.mark, hp, hc])]
          simpa only [hc, if_true] using h
        · simp only [hc, Store.update?_of_get? _ hg]
          have hmark : (b.mark ids).jobs = b.jobs ∪ (paths.filterMap List.head?).toFinset := by
            simp [Batch.mark, hp, hc]
          refine image_modify_running h hop _ (hs.relabel (b.mark_label ids) rfl rfl rfl ?_) hrun rfl
          ext k
          rw [List.mem_toFinset, mem_keys_foldl_setStopping, hs.mem_jobs, hmark]
          simp

/-- A waiting batch is known by its key. -/
theorem Image.waiting_inj (h : Image t m s q) {b b' : Batch} (hb : b ∈ q.waiting) (hb' : b' ∈ q.waiting)
    (hk : b'.key = b.key) : b' = b := by
  obtain ⟨⟨id, d⟩, he, hs⟩ := shown_of_mem h.waiting hb
  obtain ⟨⟨id', d'⟩, he', hs'⟩ := shown_of_mem h.waiting hb'
  obtain rfl : id' = id := hs'.id.trans ((congrArg (docId m) hk).trans hs.id.symm)
  obtain rfl : d' = d :=
    Option.some.inj ((Dict.mem_entries_iff.mp he').symm.trans (Dict.mem_entries_iff.mp he))
  exact Batch.ext hk (hs'.age.symm.trans hs.age) (hs'.jobs.symm.trans hs.jobs)

/-- A stop request does to the store what `fifoStop` does to the queue. -/
theorem image_stop (h : Image t m s q)
    (hdisj : ∀ b ∈ q.waiting, ∀ b' ∈ q.waiting, ∀ j, j ∈ b.jobs → j ∈ b'.jobs → b'.key = b.key)
    (c : StopCall) (ht : c.jobType = t) (hm : c.mandatePath = m) :
    Image t m (requestStop s c.mandatePath c.jobType c.jobKey c.jobIdsToStop c.transactionIds c.now).1
      (fifoStep q (.stop c)) := by
  rw [ht, hm]
  simp only [requestStop, fifoStep, fifoStop]
  cases h₁ : (s t .onProcess).get? (docId m c.jobKey) with
  | some d =>
      -- the key is the running batch
      obtain ⟨b, hb, hs⟩ := get?_shows h.running h₁
      have hk : b.key = c.jobKey := docId_injective hs.id.symm
      rw [Option.mem_toList] at hb
      rw [if_pos (by simp [Option.mem_def.mp hb, hk])]
      rw [← hk] at h₁ ⊢
      exact image_stopOnProcess h hb h₁ _ _ _ _ _
  | none =>
      have hrun : ¬(q.running.any fun b => b.key = c.jobKey) = true := by
        rw [Option.any_eq_true]
        intro h'
        obtain ⟨b, hb, hk⟩ := h'
        exact (get?_docId_none h.running).mp h₁ b (Option.mem_toList.mpr hb) (by simpa using hk)
      rw [if_neg hrun]
      cases h₂ : (s t .pending).get? (docId m c.jobKey) with
      | some d =>
          -- the key is a waiting batch
          obtain ⟨b, hb, hs⟩ := get?_shows h.waiting h₂
          have hk : b.key = c.jobKey := docId_injective hs.id.symm
          rw [if_pos (List.any_eq_true.mpr ⟨b, hb, by simpa using hk⟩)]
          have := image_stopPending h h₂ hs c.jobKey c.jobKey c.jobIdsToStop c.now
          rwa [hk] at this
      | none =>
          have hwait : ¬(q.waiting.any fun b => b.key = c.jobKey) = true := by
            rw [List.any_eq_true]
            intro h'
            obtain ⟨b, hb, hk⟩ := h'
            exact (get?_docId_none h.waiting).mp h₂ b hb (by simpa using hk)
          rw [if_neg hwait]
          cases h₃ : scanFor (s t .onProcess) m c.jobKey with
          | some r =>
              -- the key is a job of the running batch
              obtain ⟨id, d⟩ := r
              obtain ⟨hg, b, hb, hs, hj⟩ := scanFor_some h.running h₃
              rw [Option.mem_toList] at hb
              rw [if_pos (by simp [Option.mem_def.mp hb, hj])]
              obtain rfl : id = docId m b.key := hs.id
              exact image_stopOnProcess h hb hg _ _ _ _ _
          | none =>
              have hno : ¬(q.running.any fun b => c.jobKey ∈ b.jobs) = true := by
                rw [Option.any_eq_true]
                intro h'
                obtain ⟨b, hb, hj⟩ := h'
                exact (scanFor_none h.running).mp h₃ b (Option.mem_toList.mpr hb) (by simpa using hj)
              rw [if_neg hno]
              cases h₄ : scanFor (s t .pending) m c.jobKey with
              | some r =>
                  -- the key is a job of one waiting batch, and of no other
                  obtain ⟨id, d⟩ := r
                  obtain ⟨hg, b, hb, hs, hj⟩ := scanFor_some h.waiting h₄
                  have hsame : q.editWaiting (fun b' => if c.jobKey ∈ b'.jobs
                      then b'.withdraw (idsOr c.jobIdsToStop c.jobKey) else some b') =
                        q.editWaiting fun b' => if b'.key = b.key
                          then b'.withdraw (idsOr c.jobIdsToStop c.jobKey) else some b' := by
                    refine Fifo.ext rfl (List.filterMap_congr fun b' hb' => ?_)
                    have hiff : c.jobKey ∈ b'.jobs ↔ b'.key = b.key :=
                      ⟨fun hj' => hdisj b hb b' hb' c.jobKey hj hj',
                        fun hk => by rw [h.waiting_inj hb hb' hk]; exact hj⟩
                    simp only [hiff]
                  rw [hsame]
                  exact image_stopPending h hg hs _ _ _ _
              | none =>
                  have hsame : q.editWaiting (fun b' => if c.jobKey ∈ b'.jobs
                      then b'.withdraw (idsOr c.jobIdsToStop c.jobKey) else some b') = q := by
                    refine Fifo.ext rfl ?_
                    show q.waiting.filterMap _ = q.waiting
                    rw [List.filterMap_congr (g := some), List.filterMap_some]
                    intro b' hb'
                    rw [if_neg ((scanFor_none h.waiting).mp h₄ b' hb')]
                  rw [hsame]
                  exact h

end Step

/-! ### Whole sequences -/

/-- What the registrations say about the queue: the batches present are in the order of registration, and a
waiting batch has only jobs it was registered with. -/
structure Recorded (calls : List Call) (q : Fifo Batch) : Prop where
  order : (q.contents.map Batch.label).Sublist ((registrations calls).map fun c => (c.jobKey, c.now))
  jobs : ∀ b ∈ q.waiting, ∃ c ∈ registrations calls, c.jobKey = b.key ∧ b.jobs ⊆ c.ids

section Run

variable {t m : String} {calls : List Call} {q : Fifo Batch}

/-- The waiting batches after an edit that only shrinks them. -/
theorem recorded_editWaiting (h : Recorded calls q) (f : Batch → Option Batch)
    (hf : ∀ b b', f b = some b' → b'.label = b.label ∧ b'.jobs ⊆ b.jobs) :
    Recorded calls (q.editWaiting f) where
  order := (Fifo.keys_editWaiting Batch.label q f fun b b' hb => (hf b b' hb).1).trans h.order
  jobs := by
    intro b' hb'
    obtain ⟨b, hb, hfb⟩ := List.mem_filterMap.mp hb'
    obtain ⟨c, hc, hk, hj⟩ := h.jobs b hb
    obtain ⟨hl, hsub⟩ := hf b b' hfb
    exact ⟨c, hc, hk.trans (Batch.key_of_label hl).symm, hsub.trans hj⟩

theorem recorded_mapRunning (h : Recorded calls q) (ids : List String) :
    Recorded calls (q.mapRunning fun b => b.mark ids) where
  order := by
    rw [Fifo.keys_mapRunning Batch.label q _ fun b => b.mark_label ids]
    exact h.order
  jobs := h.jobs

theorem withdraw_if_label {p : Prop} [Decidable p] {ids : List String} {b b' : Batch}
    (h : (if p then b.withdraw ids else some b) = some b') :
    b'.label = b.label ∧ b'.jobs ⊆ b.jobs := by
  split at h
  · exact Batch.withdraw_eq_some h
  · cases h
    exact ⟨rfl, Finset.Subset.refl _⟩

theorem recorded_step (h : Recorded calls q) (c : Call) : Recorded (calls ++ [c]) (fifoStep q c) := by
  have hreg := registrations_append calls [c]
  cases c with
  | register c =>
      have hold : Recorded (calls ++ [.register c]) q := by
        refine ⟨h.order.trans ?_, fun b hb => ?_⟩
        · rw [hreg, List.map_append]
          exact List.sublist_append_left _ _
        · obtain ⟨c', hc', hk⟩ := h.jobs b hb
          exact ⟨c', by rw [hreg]; exact List.mem_append_left _ hc', hk⟩
      by_cases hids : c.ids.Nonempty
      · simp only [fifoStep, hids, dif_pos]
        refine ⟨?_, fun b hb => ?_⟩
        · rw [Fifo.keys_enqueue, hreg, List.map_append]
          exact h.order.append (List.Sublist.refl _)
        · have hmem : b ∈ q.waiting ∨ b = ⟨c.jobKey, c.now, c.ids, hids⟩ := by
            unfold Fifo.enqueue at hb
            split at hb
            · cases hb
            · simpa using hb
          rcases hmem with hb | rfl
          · exact hold.jobs b hb
          · refine ⟨c, ?_, rfl, Finset.Subset.refl _⟩
            rw [hreg]
            exact List.mem_append_right _ (List.mem_singleton_self c)
      · simpa only [fifoStep, hids, dif_neg, not_false_eq_true] using hold
  | update c =>
      have hsame : registrations (calls ++ [.update c]) = registrations calls := by
        rw [hreg]; exact List.append_nil _
      have hold : Recorded (calls ++ [.update c]) q := ⟨by rw [hsame]; exact h.order,
        by rw [hsame]; exact h.jobs⟩
      cases hr : q.running with
      | none => simpa only [fifoStep, hr] using hold
      | some b =>
          by_cases ha : c.about b
          · simp only [fifoStep, hr, ha, if_true]
            refine ⟨(Fifo.keys_settle Batch.label q _ fun b' hb' => ?_).trans hold.order, fun b' hb' => ?_⟩
            · exact ⟨b, hr, (Batch.withJobs?_eq_some hb').1⟩
            · exact hold.jobs b' (Fifo.mem_waiting_settle hb')
          · simpa only [fifoStep, hr, ha, if_false] using hold
  | stop c =>
      have hsame : registrations (calls ++ [.stop c]) = registrations calls := by
        rw [hreg]; exact List.append_nil _
      have hold : Recorded (calls ++ [.stop c]) q := ⟨by rw [hsame]; exact h.order,
        by rw [hsame]; exact h.jobs⟩
      simp only [fifoStep, fifoStop]
      split
      · exact recorded_mapRunning hold _
      · split
        · exact recorded_editWaiting hold _ fun b b' hb => withdraw_if_label hb
        · split
          · exact recorded_mapRunning hold _
          · exact recorded_editWaiting hold _ fun b b' hb => withdraw_if_label hb

theorem recorded_run (calls : List Call) : Recorded calls (fifoRun calls) := by
  induction calls using List.reverseRecOn with
  | nil => exact ⟨List.Sublist.slnil, fun b hb => by cases hb⟩
  | append_singleton calls c ih =>
      rw [fifoRun, List.foldl_append]
      exact recorded_step ih c

theorem Recorded.keys_sublist (h : Recorded calls q) :
    (q.contents.map Batch.key).Sublist (registeredKeys calls) := by
  have hfst := h.order.map Prod.fst
  rwa [List.map_map, List.map_map] at hfst

theorem Recorded.ages (h : Recorded calls q) (hwf : WellFormed t m calls) :
    (q.waiting.map Batch.registeredAt).Pairwise (· < ·) := by
  have hsub : (q.waiting.map Batch.registeredAt).Sublist ((registrations calls).map RegisterCall.now) := by
    have h1 := h.order.map Prod.snd
    simp only [Fifo.contents, List.map_append, List.map_map] at h1
    exact (List.sublist_append_right _ _).trans h1
  exact (List.pairwise_map.mpr hwf.clock).sublist hsub

theorem Recorded.disjoint (h : Recorded calls q) (hwf : WellFormed t m calls) :
    ∀ b ∈ q.waiting, ∀ b' ∈ q.waiting, ∀ j, j ∈ b.jobs → j ∈ b'.jobs → b'.key = b.key := by
  intro b hb b' hb' j hj hj'
  obtain ⟨c, hc, hk, hsub⟩ := h.jobs b hb
  obtain ⟨c', hc', hk', hsub'⟩ := h.jobs b' hb'
  by_contra hne
  have hcc : c ≠ c' := by
    rintro rfl
    exact hne (hk'.symm.trans hk)
  have hsymm : Std.Symm fun c c' : RegisterCall => Disjoint c.ids c'.ids := ⟨fun _ _ h => h.symm⟩
  have hd := hwf.disjoint.forall hc hc' hcc
  exact Finset.disjoint_left.mp hd (hsub hj) (hsub' hj')

/-- **One call** takes the image of a queue to the image of the next queue. -/
theorem image_step {s : Store} (h : Image t m s q) (hrec : Recorded calls q) (c : Call)
    (hwf : WellFormed t m (calls ++ [c])) : Image t m (runCall s c).1 (fifoStep q c) := by
  have hon := hwf.on c (List.mem_append_right _ (List.mem_singleton_self c))
  cases c with
  | register c =>
      have hreg := registrations_append calls [.register c]
      have hids : c.ids.Nonempty :=
        hwf.jobs c (by rw [hreg]; exact List.mem_append_right _ (List.mem_singleton_self c))
      simp only [fifoStep, hids, dif_pos]
      refine image_register h c hon.1 hon.2 hids fun b hb hk => ?_
      have hn := hwf.keys
      rw [registeredKeys_append] at hn
      have hmem : c.jobKey ∈ registeredKeys calls :=
        hrec.keys_sublist.subset (List.mem_map.mpr ⟨b, hb, hk⟩)
      exact (List.nodup_append.mp hn).2.2 c.jobKey hmem c.jobKey (List.mem_singleton_self _) rfl
  | update c => exact image_update h (hrec.ages hwf.of_append) c hon.1 hon.2
  | stop c => exact image_stop h (hrec.disjoint hwf.of_append) c hon.1 hon.2

theorem image_run (hwf : WellFormed t m calls) : Image t m (runCalls calls) (fifoRun calls) := by
  induction calls using List.reverseRecOn with
  | nil => exact Image.empty
  | append_singleton calls c ih =>
      rw [runCalls, fifoRun, List.foldl_append, List.foldl_append]
      exact image_step (ih hwf.of_append) (recorded_run calls) c hwf

/-! ### The answers -/

/-- The keys of a mandate's batches in a subcollection. -/
def keysIn (c : Col) (mandatePath : String) : List String :=
  (whereMandate c mandatePath).map fun e => e.2.jobKey

theorem keysIn_perm {c : Col} {bs : List Batch} (h : List.Forall₂ (Shows m) c.entries bs) :
    (keysIn c m).Perm (bs.map Batch.key) := by
  rw [← jobKey_eq h]
  exact (whereMandate_perm h).map _

/-- The answer of a registration is the place in the queue. -/
theorem register_answer {s : Store} (h : Image t m s q) (c : RegisterCall)
    (hon : (Call.register c).isOn t m) :
    (registerJob s c.mandatePath c.jobData c.jobKey c.jobType c.now).2.shouldStart = q.running.isNone ∧
      (registerJob s c.mandatePath c.jobData c.jobKey c.jobType c.now).2.positionInQueue
        = q.position := by
  have hempty := h.whereMandate_isEmpty
  have hlen := whereMandate_length h.waiting
  obtain ⟨ht, hm⟩ := hon
  simp only [registerJob, ht, hm, hempty, hlen, Fifo.position]
  cases q.running with
  | none => simp
  | some b => simp [Nat.add_comm]

/-- A status update that reports the end of a batch ends the running one. -/
theorem update_allDone {s : Store} (h : Image t m s q) (c : UpdateCall)
    (hon : (Call.update c).isOn t m)
    (hdone : (updateJobStatusInActive s c.jobType c.mandatePath c.jobId c.newStatus c.batchId c.now
      c.promoteNow).2.allDone = true) : fifoStep q (.update c) = q.finish := by
  obtain ⟨ht, hm⟩ := hon
  rw [ht, hm] at hdone
  unfold updateJobStatusInActive at hdone
  cases hr : q.running with
  | none =>
      rw [findActiveDoc_idle h hr] at hdone
      cases hdone
  | some b =>
      obtain ⟨d, hop, hs⟩ := h.running_entry hr
      rw [findActiveDoc_running h hr hop c] at hdone
      by_cases ha : c.about b
      · simp only [ha, if_true] at hdone
        by_cases he : (applyStatus d.jobsStatus c.jobId c.newStatus).isEmpty = true
        · have hrep : b.report c.jobId c.newStatus = none := by
            rw [Batch.report, Batch.withJobs?_eq_none, ← applyStatus_jobs hs.jobs]
            exact isEmpty_iff_toFinset.mp he
          simp only [fifoStep, hr, ha, if_true, hrep, Fifo.settle]
        · simp only [he, Bool.false_eq_true, if_false] at hdone
          split at hdone <;> cases hdone
      · simp only [ha, if_false, Bool.false_eq_true] at hdone

end Run

/-- A batch of one file, for the `router` queue. -/
def oneFile (jobKey file : String) (now : ℕ) : RegisterCall :=
  ⟨"clients/u/mandates/m", routerPayload file, jobKey, "router", now⟩

/-- Three batches are registered, the second one is stopped while it waits, the first one finishes. -/
def threeBatches : List Call :=
  [.register (oneFile "b1" "f1" 1), .register (oneFile "b2" "f2" 2), .register (oneFile "b3" "f3" 3),
   .stop ⟨"clients/u/mandates/m", "router", "b2", [], [], 4⟩,
   .update ⟨"router", "clients/u/mandates/m", "f1", "completed", some "b1", 5, 5⟩]

theorem threeBatches_wellFormed : WellFormed "router" "clients/u/mandates/m" threeBatches where
  on := by simp [threeBatches, Call.isOn, oneFile]
  keys := by decide
  jobs := by decide
  disjoint := by decide
  clock := by decide

end Pinnokio.ActiveJobs
