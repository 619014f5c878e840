import Pinnokio.ActiveJobs.Calls

/-!
# The payload of a promoted batch

A stop of a pending batch takes jobs out of its `jobs_status` map and answers with their ids; the payload that a
worker will execute is not touched.  `History` follows the calls on a mandate with two records beside the store:
the ids the stops have answered with, and whether a stop has taken some of the jobs and left the batch in the queue.

* `Queued` — what holds of every pending document, in terms of these records;
* `queued_record` — one call keeps it;
* `promoted_payload_agrees_iff` — the payload of a promoted batch is free of stopped jobs, and has the jobs of its
  `jobs_status` map, exactly when no stop has taken a part of the batch.
-/

namespace Pinnokio.ActiveJobs

open Pinnokio.Runs

/-! ### The record of the stops -/

/-- The store, and what the stops have answered for each job type and batch key. -/
structure History where
  store : Store
  stops : String × String → List String
  partly : String × String → Bool

/-- Before the first call. -/
def History.start : History := ⟨Store.empty, fun _ => [], fun _ => false⟩

/-- The stop takes jobs out of a pending batch that stays in the queue. -/
def StopTarget.partly (x : StopTarget) : Bool :=
  x.sub = .pending && !(stopPendingPlan x.doc x.ids).1.isEmpty && (stopPendingPlan x.doc x.ids).2.isSome

/-- One call.  A batch that is queued has a new record; a stop adds what it answers. -/
def record (h : History) : Call → History
  | .register c =>
      let r := registerJob h.store c.mandatePath c.jobData c.jobKey c.jobType c.now
      if r.2.shouldStart then { h with store := r.1 }
      else
        { store := r.1
          stops := Function.update h.stops (c.jobType, c.jobKey) []
          partly := Function.update h.partly (c.jobType, c.jobKey) false }
  | .update c => { h with store := applyCall h.store (.update c) }
  | .stop c =>
      let r := requestStop h.store c.mandatePath c.jobType c.jobKey c.jobIdsToStop c.transactionIds c.now
      let batch := (c.jobType, r.2.jobKey)
      { store := r.1
        stops := Function.update h.stops batch (h.stops batch ++ r.2.syntheticStops)
        partly := Function.update h.partly batch (h.partly batch || (c.target h.store).any StopTarget.partly) }

@[simp] theorem record_store (h : History) (c : Call) : (record h c).store = applyCall h.store c := by
  cases c with
  | register c =>
      simp only [record]
      split <;> rfl
  | update c => rfl
  | stop c => rfl

/-- The mandate a call is about. -/
def Call.mandate : Call → String
  | .register c => c.mandatePath
  | .update c => c.mandatePath
  | .stop c => c.mandatePath

/-- The job ids of a payload. -/
def payloadIds (d : JobDoc) (t : String) : List String := (extractJobIdsFromPayload d.payload t).keys

/-- What the record says about a pending document of the mandate. -/
structure Queued (m : String) (h : History) (t id : String) (d : JobDoc) : Prop where
  mandate : d.mandatePath = m
  id_eq : id = docId m d.jobKey
  sub : ∀ j ∈ d.jobsStatus.keys, j ∈ payloadIds d t
  whole : h.partly (t, d.jobKey) = false → h.stops (t, d.jobKey) = [] ∧ d.jobsStatus.keys = payloadIds d t
  part : h.partly (t, d.jobKey) = true →
    ∃ j ∈ h.stops (t, d.jobKey), j ∈ payloadIds d t ∧ j ∉ d.jobsStatus.keys

/-- Every pending document agrees with the record. -/
def AllQueued (m : String) (h : History) : Prop :=
  ∀ t id d, (h.store t .pending).get? id = some d → Queued m h t id d

/-! ### The loop of a stop -/

theorem mem_removeJobs (ids : List String) (js : JobsStatus) (k : String) :
    k ∈ (removeJobs ids js).1 ↔ k ∈ js.keys ∧ k ∈ ids := by
  suffices h : ∀ acc : List String, k ∈ (ids.foldl (fun (acc : List String × JobsStatus) jid =>
      if jid ∈ acc.2.keys then (acc.1 ++ [jid], acc.2.erase jid) else acc) (acc, js)).1 ↔
        k ∈ acc ∨ k ∈ js.keys ∧ k ∈ ids by
    simpa [removeJobs] using h []
  induction ids generalizing js with
  | nil => simp
  | cons jid ids ih =>
      intro acc
      rw [List.foldl_cons]
      by_cases hj : jid ∈ js.keys
      · rw [if_pos hj, ih, Dict.mem_keys_erase, List.mem_append, List.mem_singleton, List.mem_cons]
        by_cases hk : k = jid
        · simp [hk, hj]
        · simp [hk]
      · rw [if_neg hj, ih, List.mem_cons]
        have hne : k ∈ js.keys → k ≠ jid := fun hk he => hj (he ▸ hk)
        tauto

/-- A stop that finds none of its ids leaves the map as it is. -/
theorem removeJobs_of_nil {ids : List String} {js : JobsStatus} (h : (removeJobs ids js).1 = []) :
    (removeJobs ids js).2 = js := by
  have hnone : ∀ jid ∈ ids, jid ∉ js.keys := by
    intro jid hid hk
    have hmem := (mem_removeJobs ids js jid).mpr ⟨hk, hid⟩
    rw [h] at hmem
    cases hmem
  clear h
  unfold removeJobs
  induction ids with
  | nil => rfl
  | cons jid ids ih =>
      rw [List.foldl_cons, if_neg (hnone jid (List.mem_cons_self ..))]
      exact ih fun j hj => hnone j (List.mem_cons_of_mem _ hj)

/-- A pending batch that stays in the queue has lost exactly the jobs the stop answers with. -/
theorem stopPendingPlan_some {d : JobDoc} {ids : List String} {js : JobsStatus}
    (h : (stopPendingPlan d ids).2 = some js) :
    (∀ k, k ∈ js.keys ↔ k ∈ d.jobsStatus.keys ∧ k ∉ (stopPendingPlan d ids).1) ∧
      (∀ k ∈ (stopPendingPlan d ids).1, k ∈ d.jobsStatus.keys) ∧
      ((stopPendingPlan d ids).1 = [] → js = d.jobsStatus) := by
  unfold stopPendingPlan at h ⊢
  split
  · next hids =>
    rw [if_pos hids] at h
    dsimp only at h ⊢
    split at h
    · cases h
    · cases h
      refine ⟨fun k => ?_, fun k hk => ((mem_removeJobs ..).mp hk).1, removeJobs_of_nil⟩
      rw [mem_keys_removeJobs, mem_removeJobs]
      tauto
  · next hids =>
    rw [if_neg hids] at h
    cases h

/-! ### One call -/

/-- The batch a stop answers for is that of the document it has found, or has the id it was called with. -/
theorem StopCall.target_key {c : StopCall} {s : Store} {x : StopTarget} (h : c.target s = some x) :
    x.jobKey = x.doc.jobKey ∨ x.id = docId c.mandatePath x.jobKey := by
  unfold StopCall.target at h
  dsimp only at h
  split at h
  · cases h
    exact Or.inr rfl
  split at h
  · cases h
    exact Or.inr rfl
  split at h
  · cases h
    exact Or.inl rfl
  split at h
  · cases h
    exact Or.inl rfl
  · cases h

/-- A stop that finds no pending batch leaves the record and the pending batches as they are. -/
theorem record_stop_other {h : History} {c : StopCall} (ht : ∀ x, c.target h.store = some x → x.sub = .onProcess) :
    (record h (.stop c)).stops = h.stops ∧ (record h (.stop c)).partly = h.partly ∧
      ∀ t, (record h (.stop c)).store t .pending = h.store t .pending := by
  rw [record_store, runStop_eq]
  simp only [record, requestStop_eq]
  cases htarget : c.target h.store with
  | none => simp [stopNotFound]
  | some x =>
      obtain ⟨sub, id, d, k, ids⟩ := x
      have hsub : sub = .onProcess := ht _ htarget
      subst hsub
      have hget := StopCall.target_get? htarget
      simp only [stopOnProcess, StopTarget.partly, Option.any_some]
      cases stopOnProcessEdit d ids c.transactionIds c.now with
      | error e => simp [stopFailed]
      | ok edit => simp [Store.update?_of_get? edit hget, stoppedOnProcess]

/-- A stop that finds a pending batch adds what it answers to the record of the batch. -/
theorem record_stop_pending {h : History} {c : StopCall} {x : StopTarget} (ht : c.target h.store = some x)
    (hsub : x.sub = .pending) :
    (record h (.stop c)).stops = Function.update h.stops (c.jobType, x.jobKey)
        (h.stops (c.jobType, x.jobKey) ++ (stopPendingPlan x.doc x.ids).1) ∧
      (record h (.stop c)).partly = Function.update h.partly (c.jobType, x.jobKey)
        (h.partly (c.jobType, x.jobKey) || x.partly) ∧
      (record h (.stop c)).store = h.store.change c.jobType .pending fun col =>
        match (stopPendingPlan x.doc x.ids).2 with
        | none => col.erase x.id
        | some js => col.modify x.id (setStatus js c.now) := by
  have hget := StopCall.target_get? ht
  rw [record_store, runStop_eq]
  simp only [record, requestStop_eq, ht, Option.any_some]
  obtain ⟨sub, id, d, k, ids⟩ := x
  subst hsub
  dsimp only at hget
  simp only [stopPending]
  cases (stopPendingPlan d ids).2 with
  | none => exact ⟨rfl, rfl, rfl⟩
  | some js =>
      dsimp only
      rw [Store.update?_of_get? (setStatus js c.now) hget]
      exact ⟨rfl, rfl, rfl⟩

section Step

variable {m : String} {h : History}

/-- A document whose record has not changed. -/
theorem Queued.congr {h' : History} {t id : String} {d : JobDoc} (hq : Queued m h t id d)
    (hs : h'.stops (t, d.jobKey) = h.stops (t, d.jobKey))
    (hp : h'.partly (t, d.jobKey) = h.partly (t, d.jobKey)) : Queued m h' t id d where
  mandate := hq.mandate
  id_eq := hq.id_eq
  sub := hq.sub
  whole := by rw [hs, hp]; exact hq.whole
  part := by rw [hs, hp]; exact hq.part

/-- A batch that starts right away leaves the record and the pending batches as they are. -/
theorem record_register_starts {c : RegisterCall}
    (hstart : (whereMandate (h.store c.jobType .onProcess) c.mandatePath).isEmpty = true) :
    (record h (.register c)).stops = h.stops ∧ (record h (.register c)).partly = h.partly ∧
      ∀ t, (record h (.register c)).store t .pending = h.store t .pending := by
  simp [record, registerJob, hstart, Store.put]

/-- A batch that is queued has an empty record. -/
theorem record_register_queues {c : RegisterCall}
    (hstart : ¬(whereMandate (h.store c.jobType .onProcess) c.mandatePath).isEmpty = true) :
    (record h (.register c)).stops = Function.update h.stops (c.jobType, c.jobKey) [] ∧
      (record h (.register c)).partly = Function.update h.partly (c.jobType, c.jobKey) false ∧
      (record h (.register c)).store = h.store.put c.jobType .pending (docId c.mandatePath c.jobKey)
        (jobDocument c.mandatePath c.jobData c.jobKey c.jobType false c.now) := by
  simp [record, registerJob, hstart]

theorem queued_register (hq : AllQueued m h) (c : RegisterCall) (hm : c.mandatePath = m) :
    AllQueued m (record h (.register c)) := by
  intro t id d hd
  by_cases hstart : (whereMandate (h.store c.jobType .onProcess) c.mandatePath).isEmpty = true
  · obtain ⟨hs, hp, hpend⟩ := record_register_starts hstart
    rw [hpend] at hd
    exact (hq t id d hd).congr (by rw [hs]) (by rw [hp])
  · obtain ⟨hs, hp, hstore⟩ := record_register_queues hstart
    rw [hstore, Store.put] at hd
    subst hm
    by_cases ht : t = c.jobType
    · subst ht
      rw [Store.change_same, Dict.get?_set] at hd
      split at hd
      · next hid =>
        -- the batch that has just been queued
        cases hd
        subst hid
        refine ⟨rfl, rfl, fun j hj => hj, ?_, ?_⟩
        · simp [jobDocument, payloadIds, hs]
        · simp [jobDocument, hp]
      · next hid =>
        have hold := hq _ id d hd
        have hkey : (c.jobType, d.jobKey) ≠ (c.jobType, c.jobKey) := by
          intro heq
          exact hid (hold.id_eq.trans (congrArg _ (Prod.mk.inj heq).2))
        exact hold.congr (by rw [hs, Function.update_of_ne hkey]) (by rw [hp, Function.update_of_ne hkey])
    · rw [Store.change_other _ _ fun hn => ht hn.1] at hd
      have hkey : (t, d.jobKey) ≠ (c.jobType, c.jobKey) := fun heq => ht (Prod.mk.inj heq).1
      exact (hq t id d hd).congr (by rw [hs, Function.update_of_ne hkey]) (by rw [hp, Function.update_of_ne hkey])

/-- A status update only takes documents out of the pending subcollections. -/
theorem pending_of_update {s : Store} {c : UpdateCall} {t id : String} {d : JobDoc}
    (hd : ((applyCall s (.update c)) t .pending).get? id = some d) : (s t .pending).get? id = some d := by
  rw [runUpdate_eq] at hd
  cases hf : c.found s with
  | none => rwa [hf] at hd
  | some e =>
      rw [hf] at hd
      dsimp only at hd
      split at hd
      · cases hp : oldestPending (s c.jobType .pending) c.mandatePath with
        | none =>
            rw [hp] at hd
            simpa [Store.delete] using hd
        | some e =>
            rw [hp] at hd
            dsimp only [promotion, Store.put, Store.delete] at hd
            by_cases ht : t = c.jobType
            · subst ht
              rw [Store.change_same, Dict.get?_erase] at hd
              split at hd
              · cases hd
              · simpa using hd
            · rw [Store.change_other _ _ fun hn => ht hn.1] at hd
              simpa using hd
      · simpa using hd

/-- A document that a stop leaves in the queue, with the jobs it answers for added to the record. -/
theorem Queued.stopped {h' : History} {t id : String} {d : JobDoc} (hq : Queued m h t id d) {ids : List String}
    {js : JobsStatus} (hplan : (stopPendingPlan d ids).2 = some js) (now : ℕ)
    (hs : h'.stops (t, d.jobKey) = h.stops (t, d.jobKey) ++ (stopPendingPlan d ids).1)
    (hp : h'.partly (t, d.jobKey) = (h.partly (t, d.jobKey) || !(stopPendingPlan d ids).1.isEmpty)) :
    Queued m h' t id (setStatus js now d) := by
  obtain ⟨hkeys, hstops, hsame⟩ := stopPendingPlan_some hplan
  refine ⟨hq.mandate, hq.id_eq, fun j hj => hq.sub j ((hkeys j).mp hj).1, ?_, ?_⟩
  · intro hfalse
    simp only [setStatus, hp, Bool.or_eq_false_iff, Bool.not_eq_false', List.isEmpty_iff] at hfalse
    obtain ⟨hw, hagree⟩ := hq.whole hfalse.1
    rw [hsame hfalse.2]
    simpa [setStatus, payloadIds, hs, hw, hfalse.2] using hagree
  · intro htrue
    simp only [setStatus, hp, Bool.or_eq_true] at htrue
    simp only [setStatus, hs, List.mem_append]
    rcases htrue with hbefore | hnow
    · obtain ⟨j, hj, hids, hnot⟩ := hq.part hbefore
      exact ⟨j, Or.inl hj, hids, fun hk => hnot ((hkeys j).mp hk).1⟩
    · obtain ⟨j, hj⟩ := List.exists_mem_of_ne_nil _ (by simpa using hnow)
      exact ⟨j, Or.inr hj, hq.sub j (hstops j hj), fun hk => ((hkeys j).mp hk).2 hj⟩

theorem queued_stop (hq : AllQueued m h) (c : StopCall) (hm : c.mandatePath = m) :
    AllQueued m (record h (.stop c)) := by
  by_cases hx : ∀ x, c.target h.store = some x → x.sub = .onProcess
  · obtain ⟨hs, hp, hpend⟩ := record_stop_other hx
    intro t id d hd
    rw [hpend] at hd
    exact (hq t id d hd).congr (by rw [hs]) (by rw [hp])
  · push Not at hx
    obtain ⟨x, htarget, hsub⟩ := hx
    have hsub : x.sub = .pending := by
      cases hc : x.sub with
      | onProcess => exact absurd hc hsub
      | pending => rfl
    have hget := StopCall.target_get? htarget
    rw [hsub] at hget
    have hfound := hq _ _ _ hget
    -- on one mandate the id names the batch, so the answer is for the document found
    have hkey : x.jobKey = x.doc.jobKey := by
      rcases StopCall.target_key htarget with hk | hk
      · exact hk
      · rw [hm] at hk
        exact docId_injective (hk.symm.trans hfound.id_eq)
    obtain ⟨hs, hp, hstore⟩ := record_stop_pending htarget hsub
    rw [hkey] at hs hp
    intro t id d hd
    rw [hstore] at hd
    by_cases ht : t = c.jobType
    · subst ht
      rw [Store.change_same] at hd
      by_cases hid : id = x.id
      · subst hid
        cases hplan : (stopPendingPlan x.doc x.ids).2 with
        | none =>
            rw [hplan] at hd
            simp at hd
        | some js =>
            rw [hplan] at hd
            simp only [Dict.get?_modify, if_true, hget, Option.map_some, Option.some.injEq] at hd
            subst hd
            refine hfound.stopped hplan c.now ?_ ?_
            · rw [hs, Function.update_self]
            · rw [hp, Function.update_self]
              simp [StopTarget.partly, hsub, hplan]
      · have hold : (h.store c.jobType .pending).get? id = some d := by
          cases hplan : (stopPendingPlan x.doc x.ids).2 with
          | none =>
              rw [hplan] at hd
              simpa [Dict.get?_erase, hid] using hd
          | some js =>
              rw [hplan] at hd
              simpa [Dict.get?_modify, hid] using hd
        have hqd := hq _ _ _ hold
        have hne : (c.jobType, d.jobKey) ≠ (c.jobType, x.doc.jobKey) := by
          intro heq
          exact hid (hqd.id_eq.trans ((congrArg _ (Prod.mk.inj heq).2).trans hfound.id_eq.symm))
        exact hqd.congr (by rw [hs, Function.update_of_ne hne]) (by rw [hp, Function.update_of_ne hne])
    · rw [Store.change_other _ _ fun hn => ht hn.1] at hd
      have hne : (t, d.jobKey) ≠ (c.jobType, x.doc.jobKey) := fun heq => ht (Prod.mk.inj heq).1
      exact (hq t id d hd).congr (by rw [hs, Function.update_of_ne hne]) (by rw [hp, Function.update_of_ne hne])

/-- **One call** keeps the pending documents in agreement with the record. -/
theorem queued_record (hq : AllQueued m h) (c : Call) (hm : c.mandate = m) : AllQueued m (record h c) := by
  cases c with
  | register c => exact queued_register hq c hm
  | update c =>
      intro t id d hd
      rw [record_store] at hd
      exact (hq t id d (pending_of_update hd)).congr rfl rfl
  | stop c => exact queued_stop hq c hm

end Step

/-! ### Promotions -/

/-- The document that a promotion writes. -/
theorem promoted_written {s : Store} {c : UpdateCall} {e : String × JobDoc} (h : c.promotes s = some e) :
    ((applyCall s (.update c)) c.jobType .onProcess).get? (docId c.mandatePath e.2.jobKey) =
      some (promotedDoc e.2 c.promoteNow) := by
  unfold UpdateCall.promotes at h
  rw [runUpdate_eq]
  cases hf : c.found s with
  | none =>
      rw [hf] at h
      cases h
  | some x =>
      rw [hf] at h
      dsimp only at h ⊢
      split at h
      · next he =>
        rw [if_pos he, h]
        simp [promotion, Store.put, Store.delete]
      · cases h

theorem promotes_oldest {s : Store} {c : UpdateCall} {e : String × JobDoc} (h : c.promotes s = some e) :
    oldestPending (s c.jobType .pending) c.mandatePath = some e := by
  unfold UpdateCall.promotes at h
  split at h
  · cases h
  · split at h
    · exact h
    · cases h

/-- **Along any calls** on a mandate the pending documents agree with the record. -/
theorem queued_run (m : String) (calls : List Call) (hm : ∀ c ∈ calls, c.mandate = m) :
    AllQueued m (run record History.start calls) := by
  refine run_invariant (fun _ h => AllQueued m h) ?_ calls ?_ (guarded_of_forall hm)
  · intro t id d hd
    cases hd
  · intro pre c _ hq hc
    exact queued_record hq c hc

/-- **The payload of a promoted batch.**  After any calls on a mandate: the document that a promotion writes to
`on_process` has a payload without stopped jobs, and a payload with the jobs of its `jobs_status` map, exactly when no
stop since the batch was queued has taken some of its jobs and left others. -/
theorem promoted_payload_agrees_iff (m : String) (calls : List Call) (hm : ∀ c ∈ calls, c.mandate = m)
    (c : UpdateCall) (hc : c.mandatePath = m) (e : String × JobDoc)
    (hp : c.promotes (run record History.start calls).store = some e) :
    ∃ doc, ((applyCall (run record History.start calls).store (.update c)) c.jobType .onProcess).get?
        (docId m e.2.jobKey) = some doc ∧
      ((∀ j ∈ (run record History.start calls).stops (c.jobType, e.2.jobKey), j ∉ payloadIds doc c.jobType) ↔
        (run record History.start calls).partly (c.jobType, e.2.jobKey) = false) ∧
      (payloadIds doc c.jobType = doc.jobsStatus.keys ↔
        (run record History.start calls).partly (c.jobType, e.2.jobKey) = false) := by
  have hq : Queued m (run record History.start calls) c.jobType e.1 e.2 := by
    refine queued_run m calls hm _ _ _ (Dict.mem_entries_iff.mp ?_)
    exact (oldestPending_mem (promotes_oldest hp)).1
  refine ⟨promotedDoc e.2 c.promoteNow, by rw [← hc]; exact promoted_written hp, ?_, ?_⟩
  · constructor
    · intro hfree
      by_contra hpart
      obtain ⟨j, hj, hids, -⟩ := hq.part (by simpa using hpart)
      exact hfree j hj hids
    · intro hwhole j hj
      rw [(hq.whole hwhole).1] at hj
      cases hj
  · constructor
    · intro hagree
      by_contra hpart
      obtain ⟨j, -, hids, hnot⟩ := hq.part (by simpa using hpart)
      exact hnot (hagree ▸ hids)
    · intro hwhole
      exact (hq.whole hwhole).2.symm

/-- A batch of two files waits behind another one. -/
def twoFilesQueued : List Call :=
  [.register (routerFiles "k" ["x"] 1), .register (routerFiles "k'" ["a", "b"] 2)]

/-- The batch that has just been queued. -/
def twoFilesPending : JobDoc :=
  jobDocument "clients/u/mandates/m" (routerFiles "k'" ["a", "b"] 2).jobData "k'" "router" false 2

/-- The batch is promoted as it was queued. -/
theorem promoted_payload_agrees_whole :
    ∃ doc, ((applyCall (run record History.start twoFilesQueued).store
        (.update (fileStatus "k" "x" "completed"))) "router" .onProcess).get?
          (docId "clients/u/mandates/m" "k'") = some doc ∧ payloadIds doc "router" = doc.jobsStatus.keys := by
  obtain ⟨doc, hdoc, -, hagree⟩ := promoted_payload_agrees_iff "clients/u/mandates/m" twoFilesQueued (by decide)
    (fileStatus "k" "x" "completed") rfl (docId "clients/u/mandates/m" "k'", twoFilesPending) rfl
  exact ⟨doc, hdoc, hagree.mpr (by decide)⟩

/-- One of the two files is stopped while the batch waits: it is in the payload of the promoted batch. -/
theorem promoted_payload_stopped :
    ¬∀ (m : String) (calls : List Call) (c : UpdateCall) (e : String × JobDoc),
      (∀ c ∈ calls, c.mandate = m) → c.mandatePath = m →
      c.promotes (run record History.start calls).store = some e →
      ∀ doc, ((applyCall (run record History.start calls).store (.update c)) c.jobType .onProcess).get?
          (docId m e.2.jobKey) = some doc →
        ∀ j ∈ (run record History.start calls).stops (c.jobType, e.2.jobKey), j ∉ payloadIds doc c.jobType := by
  intro h
  let left : JobDoc := setStatus (twoFilesPending.jobsStatus.erase "a") 2 twoFilesPending
  exact h "clients/u/mandates/m" (twoFilesQueued ++ [.stop (fileStop "k'" ["a"])])
    (fileStatus "k" "x" "completed") (docId "clients/u/mandates/m" "k'", left) (by decide) rfl rfl
    (promotedDoc left 2) rfl "a" (by decide) (by decide)

end Pinnokio.ActiveJobs
