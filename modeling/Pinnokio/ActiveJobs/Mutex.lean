import Mathlib.Algebra.GroupWithZero.Nat
import Pinnokio.ActiveJobs.Steps

/-!
# At most one running batch per mandate, under interleaving

A registration decides in one transaction whether its batch starts.  A completion does not: it deletes the
finished document, looks for the oldest pending batch and writes that one to `on_process` in separate
operations.  Between the first and the last of them the mandate looks idle; the call is *handing over*.

* `two_batches_running` — a registration that commits during a hand-over starts a second batch;
* `next_running` — what one operation does to the number of running batches plus the number of calls that
  are handing over;
* `at_most_one_running` — if no registration commits during a hand-over of its mandate and every completion
  deletes a document that is still there, every state reached has at most one running batch per mandate.
-/

namespace Pinnokio.ActiveJobs

open Pinnokio.Interleaving

/-- Number of documents of a mandate in `active_jobs/{t}/on_process`. -/
def running (s : Store) (t m : String) : ℕ := (s t .onProcess).countV (ofMandate m)

/-- The call has deleted the finished document of `(t, m)` and has not yet written the next one. -/
def Pc.handingOver (t m : String) : Pc → Bool
  | .promoteQuery c => c.jobType = t ∧ c.mandatePath = m
  | .promoteSet c _ _ => c.jobType = t ∧ c.mandatePath = m
  | _ => false

/-- One for a call that is handing over, zero for any other. -/
def Pc.hand (t m : String) (l : Pc) : ℕ := if l.handingOver t m then 1 else 0

/-- The steps that keep the hand-over alone: a registration commits while no call of its mandate is handing
over, and a completion deletes a document that is still there and is its mandate's. -/
def handoverSafe (p : Pool Store Pc) (i : ℕ) : Bool :=
  match p.threads[i]? with
  | some (.call (.register c)) => p.threads.all fun l => !l.handingOver c.jobType c.mandatePath
  | some (.updateWrite c id d) =>
      !(c.newMap d).isEmpty ||
        ((p.shared c.jobType .onProcess).get? id).any (ofMandate c.mandatePath)
  | _ => true

/-- A batch about to be promoted belongs to the mandate of the call that promotes it. -/
def Pc.Ok : Pc → Prop
  | .promoteSet c _ d => d.mandatePath = c.mandatePath
  | _ => True

/-! ### Running batches after one store operation -/

theorem running_change_other (s : Store) {t t' m : String} {sub : Sub} (f : Col → Col)
    (h : ¬(t' = t ∧ Sub.onProcess = sub)) : running (s.change t sub f) t' m = running s t' m := by
  rw [running, running, Store.change_other s f h]

theorem running_put_le (s : Store) (t id t' m : String) (d : JobDoc) :
    running (s.put t .onProcess id d) t' m ≤
      running s t' m + if t' = t ∧ d.mandatePath = m then 1 else 0 := by
  by_cases ht : t' = t
  · subst ht
    have h := Dict.countV_set_le (s t' .onProcess) (ofMandate m) id d
    simpa [running, Store.put, ofMandate] using h
  · simp [Store.put, running_change_other s _ (fun h => ht h.1), ht]

theorem running_delete_le (s : Store) (t id t' m : String) :
    running (s.delete t .onProcess id) t' m ≤ running s t' m := by
  by_cases ht : t' = t
  · subst ht
    simpa [running, Store.delete] using
      Dict.countV_erase_le (s t' .onProcess) (ofMandate m) id
  · simp [Store.delete, running_change_other s _ (fun h => ht h.1)]

theorem running_delete_add {s : Store} {t id m : String} {d : JobDoc}
    (hd : (s t .onProcess).get? id = some d) (hm : d.mandatePath = m) :
    running (s.delete t .onProcess id) t m + 1 ≤ running s t m := by
  have h := Dict.countV_erase_add (p := ofMandate m) hd (by simp [ofMandate, hm])
  simpa [running, Store.delete] using h

theorem running_pending (s : Store) (t t' m : String) (f : Col → Col) :
    running (s.change t .pending f) t' m = running s t' m :=
  running_change_other s f (by simp)

theorem running_update {s s' : Store} {t id : String} {sub : Sub} {f : JobDoc → JobDoc}
    (hf : ∀ d, (f d).mandatePath = d.mandatePath) (h : s.update? t sub id f = some s') (t' m : String) :
    running s' t' m = running s t' m := by
  obtain ⟨-, rfl⟩ := Store.update?_eq_some h
  by_cases ht : t' = t ∧ Sub.onProcess = sub
  · obtain ⟨rfl, rfl⟩ := ht
    have hc := Dict.countV_modify (s t' .onProcess) (ofMandate m) id f (fun d => by simp [ofMandate, hf])
    simpa [running] using hc
  · exact running_change_other s _ ht

theorem running_eq_zero_of_whereMandate {s : Store} {t m : String}
    (h : (whereMandate (s t .onProcess) m).isEmpty = true) : running s t m = 0 := by
  rw [running, Dict.countV_eq_zero_iff]
  intro id d hd
  by_contra hm
  have hmem : (id, d) ∈ whereMandate (s t .onProcess) m := by
    rw [whereMandate, List.mem_insertionSort]
    simpa [Dict.mem_entries_iff, hd, ofMandate] using hm
  rw [List.isEmpty_iff.mp h] at hmem
  cases hmem

/-! ### The edits of a stop request keep the mandate -/

theorem stopOnProcessEdit_mandatePath {snapshot : JobDoc} {ids txs : List String} {now : ℕ}
    {edit : JobDoc → JobDoc} (h : stopOnProcessEdit snapshot ids txs now = .ok edit) (d : JobDoc) :
    (edit d).mandatePath = d.mandatePath := by
  unfold stopOnProcessEdit at h
  split at h
  · split at h
    · cases h
    · split at h
      · cases h
      · cases h; rfl
  · split at h <;> (cases h; rfl)

theorem running_stopOnProcess (s : Store) (t id : String) (d : JobDoc) (callKey jobKey : String)
    (ids txs : List String) (now : ℕ) (t' m : String) :
    running (stopOnProcess s t id d callKey jobKey ids txs now).1 t' m = running s t' m := by
  unfold stopOnProcess
  split
  · rfl
  · rename_i edit he
    split
    · rfl
    · rename_i s' hs
      exact running_update (stopOnProcessEdit_mandatePath he) hs t' m

theorem running_stopPending (s : Store) (t id : String) (d : JobDoc) (callKey jobKey : String)
    (ids : List String) (now : ℕ) (t' m : String) :
    running (stopPending s t id d callKey jobKey ids now).1 t' m = running s t' m := by
  unfold stopPending
  dsimp only
  split
  · exact running_pending s t t' m _
  · split
    · rfl
    · rename_i s' hs
      exact running_update (fun d => rfl : ∀ d, (setStatus _ now d).mandatePath = d.mandatePath) hs t' m

/-! ### One step -/

theorem next_ok {s s' : Store} {l l' : Pc} (h : next s l = some (s', l')) : l'.Ok := by
  cases next_moves h with
  | promoteFound hq => exact (oldestPending_mem hq).2
  | scanFirst hb =>
      rename_i c
      cases scanFor (s c.jobType .onProcess) c.mandatePath c.jobId <;> trivial
  | scan c => cases scanFor (s c.jobType .onProcess) c.mandatePath c.jobId <;> trivial
  | _ => trivial

theorem hand_afterScan (t m : String) (c : UpdateCall) (r : Option (String × JobDoc)) :
    (afterScan c r).hand t m = 0 := by
  cases r <;> rfl

/-- A registration starts its batch only when the mandate has none running. -/
theorem running_registerJob (s : Store) (c : RegisterCall) (t m : String) :
    running (registerJob s c.mandatePath c.jobData c.jobKey c.jobType c.now).1 t m ≤ running s t m ∨
      c.jobType = t ∧ c.mandatePath = m ∧ running s t m = 0 ∧
        running (registerJob s c.mandatePath c.jobData c.jobKey c.jobType c.now).1 t m ≤ 1 := by
  simp only [registerJob]
  by_cases he : (whereMandate (s c.jobType .onProcess) c.mandatePath).isEmpty = true
  · simp only [he, if_true]
    have hput := running_put_le s c.jobType (docId c.mandatePath c.jobKey) t m
      (jobDocument c.mandatePath c.jobData c.jobKey c.jobType true c.now)
    by_cases htm : c.jobType = t ∧ c.mandatePath = m
    · obtain ⟨rfl, rfl⟩ := htm
      have hz := running_eq_zero_of_whereMandate he
      refine Or.inr ⟨rfl, rfl, hz, ?_⟩
      simpa [hz, jobDocument] using hput
    · left
      have hne : ¬(t = c.jobType ∧ c.mandatePath = m) := fun h => htm ⟨h.1.symm, h.2⟩
      simpa [jobDocument, hne] using hput
  · simp only [he, Bool.false_eq_true, if_false]
    exact Or.inl (le_of_eq (running_pending s c.jobType t m _))

/-- **One operation.**  Apart from a registration that starts a batch on an idle mandate, no operation
raises the number of running batches plus hand-overs, provided a completion deletes a document that is
there. -/
theorem next_running {s s' : Store} {l l' : Pc} (h : next s l = some (s', l')) (hok : l.Ok)
    (hdel : ∀ c id d, l = .updateWrite c id d → (c.newMap d).isEmpty = true →
      ∃ d', (s c.jobType .onProcess).get? id = some d' ∧ d'.mandatePath = c.mandatePath)
    (t m : String) :
    running s' t m + l'.hand t m ≤ running s t m + l.hand t m ∨
      ∃ c, l = .call (.register c) ∧ c.jobType = t ∧ c.mandatePath = m ∧ running s t m = 0 ∧
        running s' t m ≤ 1 ∧ l'.hand t m = 0 := by
  cases next_moves h with
  | register c =>
      rcases running_registerJob s c t m with hle | ⟨ht, hm, hz, h1⟩
      · exact Or.inl (by simpa [Pc.hand, Pc.handingOver] using hle)
      · exact Or.inr ⟨c, rfl, ht, hm, hz, h1, rfl⟩
  | scanFirst hb => exact Or.inl (by rw [hand_afterScan]; omega)
  | scan c => exact Or.inl (by rw [hand_afterScan]; omega)
  | finish id he =>
      rename_i c d
      obtain ⟨d', hd', hm'⟩ := hdel c id d rfl he
      left
      by_cases htm : c.jobType = t ∧ c.mandatePath = m
      · obtain ⟨rfl, rfl⟩ := htm
        have hrun := running_delete_add hd' hm'
        simpa [Pc.hand, Pc.handingOver] using hrun
      · have hrun := running_delete_le s c.jobType id t m
        simpa [Pc.hand, Pc.handingOver, htm] using hrun
  | write he hu =>
      rename_i c id d
      exact Or.inl (by
        rw [running_update (fun _ => rfl : ∀ d', (setStatus (c.newMap d) c.now d').mandatePath
          = d'.mandatePath) hu]
        simp [Pc.hand, Pc.handingOver])
  | promoteSet c id d =>
      left
      have hput := running_put_le s c.jobType (docId c.mandatePath d.jobKey) t m
        (promotedDoc d c.promoteNow)
      have hd : (promotedDoc d c.promoteNow).mandatePath = c.mandatePath := hok
      by_cases htm : c.jobType = t ∧ c.mandatePath = m
      · obtain ⟨rfl, rfl⟩ := htm
        simpa [hd, Pc.hand, Pc.handingOver] using hput
      · have hne : ¬(t = c.jobType ∧ c.mandatePath = m) := fun h => htm ⟨h.1.symm, h.2⟩
        simpa [hd, hne, htm, Pc.hand, Pc.handingOver] using hput
  | promoteDelete c id =>
      exact Or.inl (le_of_eq (by simp [Store.delete, running_pending, Pc.hand, Pc.handingOver]))
  | stopWriteOnProcess c id d k ids =>
      exact Or.inl (le_of_eq (by rw [running_stopOnProcess]; simp [Pc.hand, Pc.handingOver]))
  | stopWritePending c id d k ids =>
      exact Or.inl (le_of_eq (by rw [running_stopPending]; simp [Pc.hand, Pc.handingOver]))
  | _ => exact Or.inl (by simp [Pc.hand, Pc.handingOver])

/-! ### Whole runs -/

/-- Running batches and hand-overs of every mandate add up to at most one. -/
structure Exclusive (p : Pool Store Pc) : Prop where
  ok : ∀ l ∈ p.threads, l.Ok
  single : ∀ t m, running p.shared t m + (p.threads.map (Pc.hand t m)).sum ≤ 1

theorem exclusive_start (calls : List Call) : Exclusive (start Store.empty calls) where
  ok := by
    intro l hl
    obtain ⟨c, -, rfl⟩ := List.mem_map.mp hl
    trivial
  single := by
    intro t m
    have hsum : ((calls.map Pc.call).map (Pc.hand t m)).sum = 0 := by
      rw [List.map_map]
      refine List.sum_eq_zero fun n hn => ?_
      obtain ⟨c, -, rfl⟩ := List.mem_map.mp hn
      rfl
    have hrun : running Store.empty t m = 0 := rfl
    show running Store.empty t m + ((calls.map Pc.call).map (Pc.hand t m)).sum ≤ 1
    omega

theorem exclusive_step {p q : Pool Store Pc} {i : ℕ} (hp : Exclusive p)
    (hg : handoverSafe p i = true) (h : p.stepAt next i = some q) : Exclusive q := by
  obtain ⟨l, s', l', hl, hn, rfl⟩ := stepAt_eq_some h
  have hlm : l ∈ p.threads := List.mem_of_getElem? hl
  refine ⟨fun x hx => ?_, fun t m => ?_⟩
  · rcases mem_set_cases hx with rfl | ⟨j, -, hj⟩
    · exact next_ok hn
    · exact hp.ok x (List.mem_of_getElem? hj)
  · have hsum := sum_map_set (Pc.hand t m) l' hl
    have hone := hp.single t m
    have hdel : ∀ c id d, l = .updateWrite c id d → (c.newMap d).isEmpty = true →
        ∃ d', (p.shared c.jobType .onProcess).get? id = some d' ∧
          d'.mandatePath = c.mandatePath := by
      rintro c id d rfl he
      simp only [handoverSafe, hl, he, Bool.not_true, Bool.false_or] at hg
      obtain ⟨d', hd', hm'⟩ := (Option.any_eq_true _ _).mp hg
      exact ⟨d', hd', by simpa [ofMandate] using hm'⟩
    rcases next_running hn (hp.ok l hlm) hdel t m with hle | ⟨c, rfl, rfl, rfl, hz, h1, h0⟩
    · show running s' t m + ((p.threads.set i l').map (Pc.hand t m)).sum ≤ 1
      omega
    · -- a registration on an idle mandate: by the guard no hand-over is under way
      have hnone : (p.threads.map (Pc.hand c.jobType c.mandatePath)).sum = 0 := by
        refine List.sum_eq_zero fun n hn' => ?_
        obtain ⟨x, hx, rfl⟩ := List.mem_map.mp hn'
        simp only [handoverSafe, hl, List.all_eq_true, Bool.not_eq_true'] at hg
        simp [Pc.hand, hg x hx]
      have hcall : (Pc.call (.register c)).hand c.jobType c.mandatePath = 0 := rfl
      show running s' c.jobType c.mandatePath
        + ((p.threads.set i l').map (Pc.hand c.jobType c.mandatePath)).sum ≤ 1
      omega

/-- **Mutual exclusion of the running batches.**  For any calls and any interleaving of their operations
from the empty store, if every step is hand-over safe then at most one batch of each mandate is running. -/
theorem at_most_one_running (calls : List Call) (sched : List ℕ) (p : Pool Store Pc)
    (hg : Guarded next (fun p i => handoverSafe p i = true) (start Store.empty calls) sched)
    (h : exec next (start Store.empty calls) sched = some p) (t m : String) :
    running p.shared t m ≤ 1 := by
  have hex := exec_invariant Exclusive (fun _ _ _ => exclusive_step) sched _ p
    (exclusive_start calls) hg h
  have hone := hex.single t m
  omega

/-! ### Two runs of the same calls -/

/-- Three registrations of one mandate, and the completion of the first batch. -/
def handoverCalls : List Call :=
  [.register ⟨"clients/u/mandates/m", routerPayload "f1", "batch_1", "router", 1⟩,
   .register ⟨"clients/u/mandates/m", routerPayload "f2", "batch_2", "router", 2⟩,
   .update ⟨"router", "clients/u/mandates/m", "f1", "completed", some "batch_1", 3, 4⟩,
   .register ⟨"clients/u/mandates/m", routerPayload "f3", "batch_3", "router", 5⟩]

/-- The third registration waits for the hand-over to end, and its batch is queued. -/
theorem at_most_one_running_handover : ∃ p,
    exec next (start Store.empty handoverCalls) [0, 1, 2, 2, 2, 2, 2, 3] = some p ∧
      running p.shared "router" "clients/u/mandates/m" ≤ 1 := by
  obtain ⟨p, hp⟩ := Option.isSome_iff_exists.mp
    (by decide : (exec next (start Store.empty handoverCalls) [0, 1, 2, 2, 2, 2, 2, 3]).isSome = true)
  exact ⟨p, hp, at_most_one_running handoverCalls _ p (by decide) hp _ _⟩

/-- The third registration commits between the deletion of the first batch and the promotion of the second:
the mandate then has two running batches. -/
theorem two_batches_running : ∃ p, (registeredKeys handoverCalls).Nodup ∧
    exec next (start Store.empty handoverCalls) [0, 1, 2, 2, 3, 2, 2, 2] = some p ∧
      running p.shared "router" "clients/u/mandates/m" = 2 := by
  obtain ⟨p, hp, hr⟩ : ∃ p,
      exec next (start Store.empty handoverCalls) [0, 1, 2, 2, 3, 2, 2, 2] = some p ∧
        running p.shared "router" "clients/u/mandates/m" = 2 := by
    have hm : (exec next (start Store.empty handoverCalls) [0, 1, 2, 2, 3, 2, 2, 2]).map
        (fun p => running p.shared "router" "clients/u/mandates/m") = some 2 := by decide
    obtain ⟨p, hp, hr⟩ := Option.map_eq_some_iff.mp hm
    exact ⟨p, hp, hr⟩
  exact ⟨p, by decide, hp, hr⟩

end Pinnokio.ActiveJobs
