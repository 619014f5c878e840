import Pinnokio.ActiveJobs.Steps

/-!
# Concurrent terminal statuses of one batch

Each status update reads the whole `jobs_status` map of the batch, edits its private copy and writes the whole
map back, or deletes the document.  Two updates that read the same map therefore undo each other's removal:
the job that was removed first is in the map again, and no later message takes it out.

* `removed_job_comes_back` — the two-job batch that stays in `on_process` although both jobs are done;
* `settled_step` — the invariant: a job whose update has not written yet is in the map of the batch, a job
  whose update has written is in no running document of the mandate;
* `no_lost_status_update` — it holds along every interleaving in which each update writes to a document that
  still lists the jobs it has read, and no batch promoted meanwhile lists a delivered job.
-/

namespace Pinnokio.ActiveJobs

open Pinnokio.Interleaving

/-! ### Deliveries -/

/-- Terminal statuses for distinct jobs of one running document, each message naming that batch, no batch, or
a batch that is not running; no other running document of the mandate lists one of the jobs. -/
structure Deliveries (s₀ : Store) (t m target : String) (calls : List UpdateCall) : Prop where
  jobType : ∀ c ∈ calls, c.jobType = t
  mandate : ∀ c ∈ calls, c.mandatePath = m
  terminal : ∀ c ∈ calls, c.newStatus ∈ terminalStatuses
  distinct : (calls.map UpdateCall.jobId).Nodup
  listed : ∃ d, (s₀ t .onProcess).get? target = some d ∧ d.mandatePath = m ∧
    ∀ c ∈ calls, c.jobId ∈ d.jobsStatus.keys
  batch : ∀ c ∈ calls, ∀ id, batchDocId m c.batchId = some id →
    id = target ∨ id ∉ (s₀ t .onProcess).keys
  others : ∀ id d, id ≠ target → (s₀ t .onProcess).get? id = some d → d.mandatePath = m →
    ∀ c ∈ calls, c.jobId ∉ d.jobsStatus.keys

/-- The steps that lose nothing: an update writes to a document that still lists the jobs it has read, and a
promotion starts a batch that lists none of the delivered jobs. -/
def freshStep (jobIds : List String) (p : Pool Store Pc) (i : ℕ) : Bool :=
  match p.threads[i]? with
  | some (.updateWrite c id d) =>
      ((p.shared c.jobType .onProcess).get? id).any fun d' =>
        decide (d'.jobsStatus.keys = d.jobsStatus.keys)
  | some (.promoteSet _ _ d) => jobIds.all fun j => decide (j ∉ d.jobsStatus.keys)
  | _ => true

/-- The update has not written yet. -/
inductive Unwritten (target : String) (c : UpdateCall) : Pc → Prop where
  | call : Unwritten target c (.call (.update c))
  | scan : Unwritten target c (.updateScan c)
  | write (d : JobDoc) : Unwritten target c (.updateWrite c target d)

/-- The update has written the map back, or has deleted the document. -/
inductive Written (c : UpdateCall) : Pc → Prop where
  | query : Written c (.promoteQuery c)
  | set (id : String) (d : JobDoc) : Written c (.promoteSet c id d)
  | delete (id : String) : Written c (.promoteDelete c id)
  | done (a : Answer) : Written c (.done a)

/-- The call is promoting the next batch. -/
def Pc.promoting : Pc → Bool
  | .promoteQuery _ => true
  | .promoteSet _ _ _ => true
  | _ => false

/-- No running document of the mandate lists the job. -/
def Gone (s : Store) (t m jobId : String) : Prop :=
  ∀ id d, (s t .onProcess).get? id = some d → d.mandatePath = m → jobId ∉ d.jobsStatus.keys

/-- Call number `i` is `c`, and its local state is `l`. -/
def At (calls : List UpdateCall) (p : Pool Store Pc) (i : ℕ) (c : UpdateCall) (l : Pc) : Prop :=
  calls[i]? = some c ∧ p.threads[i]? = some l

/-- The invariant of a batch whose terminal statuses are being delivered. -/
structure Settled (s₀ : Store) (t m target : String) (calls : List UpdateCall) (p : Pool Store Pc) :
    Prop where
  length : p.threads.length = calls.length
  shape : ∀ i c l, At calls p i c l → Unwritten target c l ∨ Written c l
  present : ∀ i c l, At calls p i c l → Unwritten target c l →
    ∃ d, (p.shared t .onProcess).get? target = some d ∧ d.mandatePath = m ∧
      c.jobId ∈ d.jobsStatus.keys
  gone : ∀ i c l, At calls p i c l → Written c l → Gone p.shared t m c.jobId
  others : ∀ id d, id ≠ target → (p.shared t .onProcess).get? id = some d → d.mandatePath = m →
    ∀ c ∈ calls, c.jobId ∉ d.jobsStatus.keys
  keys : ∀ i c l, At calls p i c l → Unwritten target c l →
    (p.shared t .onProcess).keys = (s₀ t .onProcess).keys
  alone : ∀ l ∈ p.threads, l.promoting = true →
    ∀ i c l', At calls p i c l' → ¬Unwritten target c l'

section

variable {s₀ : Store} {t m target : String} {calls : List UpdateCall} {p : Pool Store Pc}

theorem settled_start (hd : Deliveries s₀ t m target calls) :
    Settled s₀ t m target calls (start s₀ (calls.map Call.update)) := by
  have hat : ∀ i c l, At calls (start s₀ (calls.map Call.update)) i c l → l = .call (.update c) := by
    intro i c l h'
    obtain ⟨hc, hl⟩ := h'
    simp only [start, List.map_map, List.getElem?_map, hc, Option.map_some, Option.some.injEq] at hl
    exact hl.symm
  obtain ⟨d, hg, hm, hk⟩ := hd.listed
  refine ⟨by simp [start], ?_, ?_, ?_, hd.others, fun _ _ _ _ _ => rfl, ?_⟩
  · intro i c l h
    rw [hat i c l h]
    exact Or.inl .call
  · intro i c l h _
    exact ⟨d, hg, hm, hk c (List.mem_of_getElem? h.1)⟩
  · intro i c l h hw
    rw [hat i c l h] at hw
    cases hw
  · intro l hl hp
    obtain ⟨c, -, rfl⟩ := List.mem_map.mp hl
    cases hp

/-- The states of the calls after one of them has moved from `l` to `l'`. -/
theorem at_set {s' : Store} {i j : ℕ} {l l' l₁ : Pc} {c₁ : UpdateCall} (hl : p.threads[i]? = some l)
    (h : At calls ⟨s', p.threads.set i l'⟩ j c₁ l₁) :
    (j = i ∧ l₁ = l') ∨ (j ≠ i ∧ At calls p j c₁ l₁) := by
  obtain ⟨hc, ht⟩ := h
  rw [getElem?_set_of_some hl] at ht
  by_cases hj : j = i
  · left
    simp only [hj, if_true, Option.some.injEq] at ht
    exact ⟨hj, ht.symm⟩
  · right
    simp only [hj, if_false] at ht
    exact ⟨hj, hc, ht⟩

/-- Different calls deliver for different jobs. -/
theorem Deliveries.jobId_ne (hd : Deliveries s₀ t m target calls) {i j : ℕ} {c c' : UpdateCall}
    (hi : calls[i]? = some c) (hj : calls[j]? = some c') (hij : j ≠ i) : c'.jobId ≠ c.jobId := by
  intro he
  apply hij
  have h1 : (calls.map UpdateCall.jobId)[j]? = (calls.map UpdateCall.jobId)[i]? := by
    simp [hi, hj, he]
  have hlt : j < (calls.map UpdateCall.jobId).length := by
    simpa using (List.getElem?_eq_some_iff.mp hj).1
  exact (List.getElem?_inj hlt hd.distinct).mp h1

theorem Unwritten.not_promoting {c : UpdateCall} {l : Pc} (h : Unwritten target c l) :
    l.promoting = false := by
  cases h <;> rfl

/-- A read keeps the invariant: the call stays on its way to the write. -/
theorem settled_read (hp : Settled s₀ t m target calls p) {i : ℕ} {c : UpdateCall} {l l' : Pc}
    (h : At calls p i c l) (hu : Unwritten target c l) (hu' : Unwritten target c l') :
    Settled s₀ t m target calls ⟨p.shared, p.threads.set i l'⟩ := by
  refine ⟨by simp [hp.length], ?_, ?_, ?_, hp.others, ?_, ?_⟩
  · intro j c₁ l₁ h₁
    rcases at_set h.2 h₁ with ⟨rfl, rfl⟩ | ⟨-, h₂⟩
    · have : c₁ = c := Option.some.inj (h₁.1.symm.trans h.1)
      exact Or.inl (this ▸ hu')
    · exact hp.shape j c₁ l₁ h₂
  · intro j c₁ l₁ h₁ hw
    rcases at_set h.2 h₁ with ⟨rfl, rfl⟩ | ⟨-, h₂⟩
    · have : c₁ = c := Option.some.inj (h₁.1.symm.trans h.1)
      exact this ▸ hp.present j c l h hu
    · exact hp.present j c₁ l₁ h₂ hw
  · intro j c₁ l₁ h₁ hw
    rcases at_set h.2 h₁ with ⟨rfl, rfl⟩ | ⟨-, h₂⟩
    · cases hu' <;> cases hw
    · exact hp.gone j c₁ l₁ h₂ hw
  · intro j c₁ l₁ h₁ hw
    exact hp.keys i c l h hu
  · intro x hx hpx j c₁ l₁ h₁ hw
    rcases mem_set_cases hx with rfl | ⟨k, -, hk⟩
    · rw [hu'.not_promoting] at hpx
      cases hpx
    · exact hp.alone x (List.mem_of_getElem? hk) hpx i c l h hu

/-- The document an unwritten update finds is the batch it delivers for. -/
theorem scanFor_target (hp : Settled s₀ t m target calls p) {i : ℕ} {c : UpdateCall} {l : Pc}
    (h : At calls p i c l) (hu : Unwritten target c l) :
    ∃ d, scanFor (p.shared t .onProcess) m c.jobId = some (target, d) := by
  obtain ⟨d, hg, hm, hk⟩ := hp.present i c l h hu
  have hmem : (target, d) ∈ whereMandate (p.shared t .onProcess) m := by
    rw [whereMandate, List.mem_insertionSort, List.mem_filter]
    exact ⟨Dict.mem_entries_iff.mpr hg, by simpa using hm⟩
  cases hs : scanFor (p.shared t .onProcess) m c.jobId with
  | none =>
      have hnone := List.find?_eq_none.mp hs (target, d) hmem
      exact absurd hk (by simpa using hnone)
  | some e =>
      obtain ⟨id, d₁⟩ := e
      have hmem₁ : (id, d₁) ∈ whereMandate (p.shared t .onProcess) m := List.mem_of_find?_eq_some hs
      have hk₁ : c.jobId ∈ d₁.jobsStatus.keys := by simpa using List.find?_some hs
      rw [whereMandate, List.mem_insertionSort, List.mem_filter] at hmem₁
      have hg₁ := Dict.mem_entries_iff.mp hmem₁.1
      by_cases hid : id = target
      · exact ⟨d₁, by rw [hid]⟩
      · exact absurd hk₁ (hp.others id d₁ hid hg₁ (by simpa using hmem₁.2) c
          (List.mem_of_getElem? h.1))

/-- Removing the job of call `i` from the map of the batch keeps the invariant, and settles the call. -/
theorem settled_write (hd : Deliveries s₀ t m target calls) (hp : Settled s₀ t m target calls p) {i : ℕ}
    {c : UpdateCall} {d d' : JobDoc} (h : At calls p i c (.updateWrite c target d))
    (hg : (p.shared t .onProcess).get? target = some d')
    (hfresh : d'.jobsStatus.keys = d.jobsStatus.keys) (a : Answer) :
    Settled s₀ t m target calls
      ⟨p.shared.change t .onProcess fun col => col.modify target (setStatus (c.newMap d) c.now),
        p.threads.set i (.done a)⟩ := by
  have hc : c ∈ calls := List.mem_of_getElem? h.1
  have hnew : ∀ k, k ∈ (c.newMap d).keys ↔ k ≠ c.jobId ∧ k ∈ d'.jobsStatus.keys := by
    intro k
    rw [UpdateCall.newMap, applyStatus, if_pos (hd.terminal c hc), Dict.mem_keys_erase, hfresh]
  have hget : ∀ id, ((p.shared.change t .onProcess fun col => col.modify target
      (setStatus (c.newMap d) c.now)) t .onProcess).get? id =
        if id = target then some (setStatus (c.newMap d) c.now d')
        else (p.shared t .onProcess).get? id := by
    intro id
    rw [Store.change_same, Dict.get?_modify]
    by_cases hid : id = target
    · simp [hid, hg]
    · simp [hid]
  obtain ⟨d₁, hg₁, hm₁, hk₁⟩ := hp.present i c _ h (.write d)
  obtain rfl : d' = d₁ := Option.some.inj (hg.symm.trans hg₁)
  refine ⟨by simp [hp.length], ?_, ?_, ?_, ?_, ?_, ?_⟩
  · intro j c₁ l₁ h₁
    rcases at_set h.2 h₁ with ⟨rfl, rfl⟩ | ⟨-, h₂⟩
    · exact Or.inr (.done a)
    · exact hp.shape j c₁ l₁ h₂
  · -- the other calls' jobs stay in the map
    intro j c₁ l₁ h₁ hu
    rcases at_set h.2 h₁ with ⟨rfl, rfl⟩ | ⟨hj, h₂⟩
    · cases hu
    · obtain ⟨d₂, hg₂, hm₂, hk₂⟩ := hp.present j c₁ l₁ h₂ hu
      obtain rfl : d' = d₂ := Option.some.inj (hg.symm.trans hg₂)
      refine ⟨setStatus (c.newMap d) c.now d', by rw [hget, if_pos rfl], hm₂, ?_⟩
      exact (hnew c₁.jobId).mpr ⟨hd.jobId_ne h.1 h₂.1 hj, hk₂⟩
  · -- the removed job is in no document, and no removed job comes back
    intro j c₁ l₁ h₁ hw id d₂ hg₂ hm₂ hk₂
    rw [hget] at hg₂
    have hc₁ : c₁ ∈ calls := List.mem_of_getElem? h₁.1
    by_cases hid : id = target
    · simp only [hid, if_true, Option.some.injEq] at hg₂
      subst hg₂
      have hk₃ := (hnew c₁.jobId).mp hk₂
      rcases at_set h.2 h₁ with ⟨rfl, -⟩ | ⟨-, h₂⟩
      · have : c₁ = c := Option.some.inj (h₁.1.symm.trans h.1)
        exact hk₃.1 (by rw [this])
      · exact hp.gone j c₁ l₁ h₂ hw target d' hg hm₁ hk₃.2
    · simp only [hid, if_false] at hg₂
      exact hp.others id d₂ hid hg₂ hm₂ c₁ hc₁ hk₂
  · intro id d₂ hid hg₂ hm₂ c₁ hc₁
    rw [hget, if_neg hid] at hg₂
    exact hp.others id d₂ hid hg₂ hm₂ c₁ hc₁
  · intro j c₁ l₁ h₁ hu
    show (((p.shared.change t .onProcess _) t .onProcess).keys : List String) = _
    rw [Store.change_same, Dict.keys_modify]
    exact hp.keys i c _ h (.write d)
  · intro x hx hpx
    rcases mem_set_cases hx with rfl | ⟨k, -, hk⟩
    · cases hpx
    · exact absurd (.write d) (hp.alone x (List.mem_of_getElem? hk) hpx i c _ h)

/-- The last call deletes the document: by then every other call has written. -/
theorem settled_finish (hd : Deliveries s₀ t m target calls) (hp : Settled s₀ t m target calls p) {i : ℕ}
    {c : UpdateCall} {d d' : JobDoc} (h : At calls p i c (.updateWrite c target d))
    (hg : (p.shared t .onProcess).get? target = some d')
    (hfresh : d'.jobsStatus.keys = d.jobsStatus.keys) (he : (c.newMap d).isEmpty = true) :
    Settled s₀ t m target calls
      ⟨p.shared.delete t .onProcess target, p.threads.set i (.promoteQuery c)⟩ := by
  have hc : c ∈ calls := List.mem_of_getElem? h.1
  have hget : ∀ id, ((p.shared.delete t .onProcess target) t .onProcess).get? id =
      if id = target then none else (p.shared t .onProcess).get? id := by
    intro id
    rw [Store.delete, Store.change_same, Dict.get?_erase]
  have hlast : ∀ j c₁ l₁, At calls ⟨p.shared.delete t .onProcess target,
      p.threads.set i (.promoteQuery c)⟩ j c₁ l₁ → ¬Unwritten target c₁ l₁ := by
    intro j c₁ l₁ h₁ hu
    rcases at_set h.2 h₁ with ⟨rfl, rfl⟩ | ⟨hj, h₂⟩
    · cases hu
    · obtain ⟨d₂, hg₂, -, hk₂⟩ := hp.present j c₁ l₁ h₂ hu
      obtain rfl : d' = d₂ := Option.some.inj (hg.symm.trans hg₂)
      have hmem : c₁.jobId ∈ (c.newMap d).keys := by
        rw [UpdateCall.newMap, applyStatus, if_pos (hd.terminal c hc), Dict.mem_keys_erase, ← hfresh]
        exact ⟨hd.jobId_ne h.1 h₂.1 hj, hk₂⟩
      exact Dict.isEmpty_iff.mp he _ hmem
  refine ⟨by simp [hp.length], ?_, ?_, ?_, ?_, ?_, fun _ _ _ => hlast⟩
  · intro j c₁ l₁ h₁
    rcases at_set h.2 h₁ with ⟨rfl, rfl⟩ | ⟨-, h₂⟩
    · have : c₁ = c := Option.some.inj (h₁.1.symm.trans h.1)
      exact Or.inr (this ▸ .query)
    · exact hp.shape j c₁ l₁ h₂
  · exact fun j c₁ l₁ h₁ hu => absurd hu (hlast j c₁ l₁ h₁)
  · intro j c₁ l₁ h₁ _ id d₂ hg₂ hm₂
    rw [hget] at hg₂
    by_cases hid : id = target
    · simp [hid] at hg₂
    · rw [if_neg hid] at hg₂
      exact hp.others id d₂ hid hg₂ hm₂ c₁ (List.mem_of_getElem? h₁.1)
  · intro id d₂ hid hg₂ hm₂ c₁ hc₁
    rw [hget, if_neg hid] at hg₂
    exact hp.others id d₂ hid hg₂ hm₂ c₁ hc₁
  · exact fun j c₁ l₁ h₁ hu => absurd hu (hlast j c₁ l₁ h₁)

/-- A step of a call that has written keeps the invariant, if the documents it adds to `on_process` list
none of the jobs, and it adds them only once every call has written. -/
theorem settled_written (hp : Settled s₀ t m target calls p) {i : ℕ} {c : UpdateCall} {l l' : Pc}
    {s' : Store} (h : At calls p i c l) (hw : Written c l) (hw' : Written c l')
    (hpr : l'.promoting = true → l.promoting = true)
    (hkeep : s' t .onProcess = p.shared t .onProcess ∨
      (l.promoting = true ∧ ∀ id d, (s' t .onProcess).get? id = some d →
        (p.shared t .onProcess).get? id = some d ∨ ∀ c ∈ calls, c.jobId ∉ d.jobsStatus.keys)) :
    Settled s₀ t m target calls ⟨s', p.threads.set i l'⟩ := by
  have hl : l ∈ p.threads := List.mem_of_getElem? h.2
  have hsub : ∀ id d, (s' t .onProcess).get? id = some d →
      (p.shared t .onProcess).get? id = some d ∨ ∀ c ∈ calls, c.jobId ∉ d.jobsStatus.keys := by
    rcases hkeep with hs | ⟨-, hs⟩
    · rw [hs]
      exact fun _ _ hg => Or.inl hg
    · exact hs
  -- an unwritten call rules out a promotion, so `on_process` is untouched
  have hun : ∀ j c₁ l₁, At calls ⟨s', p.threads.set i l'⟩ j c₁ l₁ → Unwritten target c₁ l₁ →
      At calls p j c₁ l₁ ∧ s' t .onProcess = p.shared t .onProcess := by
    intro j c₁ l₁ h₁ hu
    rcases at_set h.2 h₁ with ⟨rfl, rfl⟩ | ⟨-, h₂⟩
    · cases hw' <;> cases hu
    · refine ⟨h₂, hkeep.resolve_right fun hr => ?_⟩
      exact hp.alone l hl hr.1 j c₁ l₁ h₂ hu
  refine ⟨by simp [hp.length], ?_, ?_, ?_, ?_, ?_, ?_⟩
  · intro j c₁ l₁ h₁
    rcases at_set h.2 h₁ with ⟨rfl, rfl⟩ | ⟨-, h₂⟩
    · have : c₁ = c := Option.some.inj (h₁.1.symm.trans h.1)
      exact Or.inr (this ▸ hw')
    · exact hp.shape j c₁ l₁ h₂
  · intro j c₁ l₁ h₁ hu
    obtain ⟨h₂, hs⟩ := hun j c₁ l₁ h₁ hu
    show ∃ d, (s' t .onProcess).get? target = some d ∧ _
    rw [hs]
    exact hp.present j c₁ l₁ h₂ hu
  · intro j c₁ l₁ h₁ hw₁ id d hg hm
    have hc₁ : c₁ ∈ calls := List.mem_of_getElem? h₁.1
    rcases hsub id d hg with hg' | hno
    · rcases at_set h.2 h₁ with ⟨rfl, rfl⟩ | ⟨-, h₂⟩
      · have : c₁ = c := Option.some.inj (h₁.1.symm.trans h.1)
        exact this ▸ hp.gone j c l h hw id d hg' hm
      · exact hp.gone j c₁ l₁ h₂ hw₁ id d hg' hm
    · exact hno c₁ hc₁
  · intro id d hid hg hm c₁ hc₁
    rcases hsub id d hg with hg' | hno
    · exact hp.others id d hid hg' hm c₁ hc₁
    · exact hno c₁ hc₁
  · intro j c₁ l₁ h₁ hu
    obtain ⟨h₂, hs⟩ := hun j c₁ l₁ h₁ hu
    show (s' t .onProcess).keys = _
    rw [hs]
    exact hp.keys j c₁ l₁ h₂ hu
  · intro x hx hpx j c₁ l₁ h₁ hu
    obtain ⟨h₂, -⟩ := hun j c₁ l₁ h₁ hu
    rcases mem_set_cases hx with rfl | ⟨k, -, hk⟩
    · exact hp.alone l hl (hpr hpx) j c₁ l₁ h₂ hu
    · exact hp.alone x (List.mem_of_getElem? hk) hpx j c₁ l₁ h₂ hu

/-- A step of a call that has not written. -/
theorem settled_step_unwritten (hd : Deliveries s₀ t m target calls) (hp : Settled s₀ t m target calls p) {i : ℕ}
    {c : UpdateCall} {l l' : Pc} {s' : Store} (hat : At calls p i c l) (hu : Unwritten target c l)
    (hg : freshStep (calls.map UpdateCall.jobId) p i = true) (hmv : Moves p.shared l s' l') :
    Settled s₀ t m target calls ⟨s', p.threads.set i l'⟩ := by
  have hc : c ∈ calls := List.mem_of_getElem? hat.1
  have ht : c.jobType = t := hd.jobType c hc
  have hm : c.mandatePath = m := hd.mandate c hc
  cases hu with
  | call =>
      cases hmv with
      | lookupHit hb hgt =>
          rename_i id d
          rw [hm] at hb
          have hid : id = target := by
            refine (hd.batch c hc id hb).resolve_right fun hno => hno ?_
            rw [← hp.keys i c _ hat .call, ← ht]
            exact Dict.mem_keys_of_get? hgt
          subst hid
          exact settled_read hp hat .call (.write d)
      | lookupMiss hb hgt => exact settled_read hp hat .call .scan
      | scanFirst hb =>
          obtain ⟨d, hs⟩ := scanFor_target hp hat .call
          rw [ht, hm, hs]
          exact settled_read hp hat .call (.write d)
  | scan =>
      cases hmv with
      | scan =>
          obtain ⟨d, hs⟩ := scanFor_target hp hat .scan
          rw [ht, hm, hs]
          exact settled_read hp hat .scan (.write d)
  | write d =>
      simp only [freshStep, hat.2] at hg
      obtain ⟨d', hd', hk⟩ := (Option.any_eq_true _ _).mp hg
      rw [ht] at hd'
      have hk' : d'.jobsStatus.keys = d.jobsStatus.keys := by simpa using hk
      cases hmv with
      | finish _ he =>
          rw [ht]
          exact settled_finish hd hp hat hd' hk' he
      | write he hup =>
          obtain ⟨-, rfl⟩ := Store.update?_eq_some hup
          rw [ht]
          exact settled_write hd hp hat hd' hk' _
      | writeLost he hup =>
          rw [ht, Store.update?_of_get? _ hd'] at hup
          cases hup

/-- A step of a call that has written, and now promotes the next document. -/
theorem settled_step_written (hd : Deliveries s₀ t m target calls) (hp : Settled s₀ t m target calls p) {i : ℕ}
    {c : UpdateCall} {l l' : Pc} {s' : Store} (hat : At calls p i c l) (hw : Written c l)
    (hg : freshStep (calls.map UpdateCall.jobId) p i = true) (hmv : Moves p.shared l s' l') :
    Settled s₀ t m target calls ⟨s', p.threads.set i l'⟩ := by
  have ht : c.jobType = t := hd.jobType c (List.mem_of_getElem? hat.1)
  cases hw with
  | query =>
      cases hmv with
      | promoteNone hq => exact settled_written hp hat .query (.done _) (by simp [Pc.promoting]) (Or.inl rfl)
      | promoteFound hq => exact settled_written hp hat .query (.set _ _) (by simp [Pc.promoting]) (Or.inl rfl)
  | set id d =>
      cases hmv with
      | promoteSet =>
          refine settled_written hp hat (.set id d) (.delete id) (by simp [Pc.promoting])
            (Or.inr ⟨rfl, fun id₁ d₁ hg₁ => ?_⟩)
          rw [ht, Store.put, Store.change_same, Dict.get?_set] at hg₁
          split at hg₁
          · right
            intro c₁ hc₁
            simp only [freshStep, hat.2, List.all_eq_true, List.mem_map, decide_eq_true_eq] at hg
            cases hg₁
            exact hg c₁.jobId ⟨c₁, hc₁, rfl⟩
          · exact Or.inl hg₁
  | delete id =>
      cases hmv with
      | promoteDelete =>
          exact settled_written hp hat (.delete id) (.done _) (by simp [Pc.promoting])
            (Or.inl (by simp [Store.delete]))
  | done a => cases hmv

/-- **One step.**  A step that loses nothing keeps the invariant. -/
theorem settled_step (hd : Deliveries s₀ t m target calls) {q : Pool Store Pc} {i : ℕ}
    (hp : Settled s₀ t m target calls p)
    (hg : freshStep (calls.map UpdateCall.jobId) p i = true) (h : p.stepAt next i = some q) :
    Settled s₀ t m target calls q := by
  obtain ⟨l, s', l', hl, hn, rfl⟩ := stepAt_eq_some h
  have hlt : i < calls.length := by
    rw [← hp.length]
    exact (List.getElem?_eq_some_iff.mp hl).1
  have hat : At calls p i calls[i] l := ⟨List.getElem?_eq_getElem hlt, hl⟩
  rcases hp.shape i calls[i] l hat with hu | hw
  · exact settled_step_unwritten hd hp hat hu hg (next_moves hn)
  · exact settled_step_written hd hp hat hw hg (next_moves hn)

end

/-- **No lost status update.**  For any running document, any terminal statuses delivered for distinct jobs
of it and any interleaving in which every step loses nothing: once all calls have returned, no running
document of the mandate lists one of the jobs. -/
theorem no_lost_status_update (s₀ : Store) (t m target : String) (calls : List UpdateCall)
    (hd : Deliveries s₀ t m target calls) (sched : List ℕ) (p : Pool Store Pc)
    (hg : Guarded next (fun p i => freshStep (calls.map UpdateCall.jobId) p i = true)
      (start s₀ (calls.map Call.update)) sched)
    (h : exec next (start s₀ (calls.map Call.update)) sched = some p)
    (hret : p.threads.all Pc.returned = true) (c : UpdateCall) (hc : c ∈ calls) :
    Gone p.shared t m c.jobId := by
  have hs := exec_invariant (Settled s₀ t m target calls) (fun _ _ _ hp hg h => settled_step hd hp hg h)
    sched _ p (settled_start hd) hg h
  obtain ⟨i, hi, rfl⟩ := List.mem_iff_getElem.mp hc
  have hil : i < p.threads.length := by rw [hs.length]; exact hi
  have hat : At calls p i calls[i] p.threads[i] :=
    ⟨List.getElem?_eq_getElem hi, List.getElem?_eq_getElem hil⟩
  have hr : p.threads[i].returned = true := List.all_eq_true.mp hret _ (List.getElem_mem hil)
  refine hs.gone i _ _ hat ?_
  generalize p.threads[i] = l at hr
  cases l with
  | done a => exact .done a
  | _ => cases hr

/-! ### Two runs of the same calls -/

/-- The store after the registration of one batch with two files. -/
def twoFileStore : Store :=
  (registerJob Store.empty "clients/u/mandates/m"
    ⟨∅, [⟨Dict.ofList [("job_id", .str "f1")], []⟩, ⟨Dict.ofList [("job_id", .str "f2")], []⟩], []⟩
    "batch_1" "router" 1).1

/-- Both files are done. -/
def twoFileCalls : List UpdateCall :=
  [⟨"router", "clients/u/mandates/m", "f1", "completed", some "batch_1", 2, 2⟩,
   ⟨"router", "clients/u/mandates/m", "f2", "completed", some "batch_1", 3, 3⟩]

theorem twoFile_deliveries : Deliveries twoFileStore "router" "clients/u/mandates/m"
    (docId "clients/u/mandates/m" "batch_1") twoFileCalls where
  jobType := by decide
  mandate := by decide
  terminal := by decide
  distinct := by decide
  listed := ⟨_, rfl, rfl, by decide⟩
  batch := by
    intro c hc id hb
    left
    simp only [twoFileCalls, List.mem_cons, List.not_mem_nil, or_false] at hc
    rcases hc with rfl | rfl <;> exact (Option.some.inj hb).symm
  others := by
    intro id d hid hg
    have hone : (twoFileStore "router" .onProcess).keys
        = [docId "clients/u/mandates/m" "batch_1"] := by decide
    have hk : id ∈ (twoFileStore "router" .onProcess).keys := Dict.mem_keys_of_get? hg
    rw [hone, List.mem_singleton] at hk
    exact absurd hk hid

/-- The second message is handled after the first: both jobs are gone. -/
theorem no_lost_status_update_serial : ∃ p,
    exec next (start twoFileStore (twoFileCalls.map Call.update)) [0, 0, 1, 1, 1] = some p ∧
      ∀ c ∈ twoFileCalls, Gone p.shared "router" "clients/u/mandates/m" c.jobId := by
  have hm : (exec next (start twoFileStore (twoFileCalls.map Call.update)) [0, 0, 1, 1, 1]).map
      (fun p => p.threads.all Pc.returned) = some true := by decide
  obtain ⟨p, hp, hr⟩ := Option.map_eq_some_iff.mp hm
  exact ⟨p, hp, no_lost_status_update _ _ _ _ _ twoFile_deliveries _ p (by decide) hp hr⟩

/-- Both messages read the map before either writes it: the first job is in the map again although both
calls have returned. -/
theorem removed_job_comes_back : ∃ p d,
    exec next (start twoFileStore (twoFileCalls.map Call.update)) [0, 1, 0, 1] = some p ∧
      p.threads.all Pc.returned = true ∧
      (p.shared "router" .onProcess).get? (docId "clients/u/mandates/m" "batch_1") = some d ∧
      d.mandatePath = "clients/u/mandates/m" ∧ d.jobsStatus.keys = ["f1"] := by
  have hm : (exec next (start twoFileStore (twoFileCalls.map Call.update)) [0, 1, 0, 1]).map
      (fun p => (p.threads.all Pc.returned,
        ((p.shared "router" .onProcess).get? (docId "clients/u/mandates/m" "batch_1")).map
          fun d => (d.mandatePath, d.jobsStatus.keys)))
      = some (true, some ("clients/u/mandates/m", ["f1"])) := by decide
  obtain ⟨p, hp, hr⟩ := Option.map_eq_some_iff.mp hm
  obtain ⟨hret, hdoc⟩ := Prod.mk.inj hr
  obtain ⟨d, hd, hk⟩ := Option.map_eq_some_iff.mp hdoc
  obtain ⟨hmp, hkeys⟩ := Prod.mk.inj hk
  exact ⟨p, d, hp, hret, hd, hmp, hkeys⟩

end Pinnokio.ActiveJobs
