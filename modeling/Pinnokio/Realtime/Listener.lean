import Pinnokio.Lib.Runs

/-!
# The listener of the realtime channels

The listener asks for messages in a loop.  An iteration that fails counts as an attempt to reconnect, and the tenth one
ends the loop.  The count is reset after a reconnection, which is only tried when there is no connection object; the
loop itself never drops the one it has, and a message that is received resets nothing.

* `attempts_mono` — while there is a connection object the count never falls;
* `gives_up_rightly_iff` — **the listener gives up only after ten consecutive failing iterations**, whatever errors
  follow, exactly when no `get_message` succeeds while attempts are counted.
-/

namespace Pinnokio.Realtime.Listener

open Pinnokio.Runs

/-! ### The loop -/

/-- How an awaited call ends. -/
inductive Outcome (α : Type) where
  | done (a : α)
  | error
  | cancelled

/-- What `get_message` returns. -/
inductive Received where
  | nothing
  /-- A message of another type. -/
  | control
  /-- The number of a subscription. -/
  | acknowledgement
  | message

/-- How the calls of one iteration end; the errors of `_route_message` are those it catches. -/
structure Iteration where
  reconnect : Outcome Unit
  getMessage : Outcome Received
  route : Outcome Unit
  sleepCancelled : Bool

/-- Why the loop has ended. -/
inductive Ending where
  | cancelled
  | gaveUp
  deriving DecidableEq

/-- The fields the loop uses; `pubsub` is whether there is a connection object. -/
structure Loop where
  running : Bool
  pubsub : Bool
  reconnectAttempts : ℕ
  messageCount : ℕ
  errorCount : ℕ
  ending : Option Ending

/-- `_max_reconnect_attempts`. -/
def maxReconnectAttempts : ℕ := 10

/-- `while self._running`, and no `break`. -/
def Loop.listening (l : Loop) : Bool := l.running && l.ending.isNone

/-- The branch of an exception. -/
def fail (l : Loop) (sleepCancelled : Bool) : Loop :=
  let l := { l with errorCount := l.errorCount + 1, reconnectAttempts := l.reconnectAttempts + 1 }
  if maxReconnectAttempts ≤ l.reconnectAttempts then { l with running := false, ending := some .gaveUp }
  else if sleepCancelled then { l with ending := some .cancelled }
  else l

/-- `get_message`, and what is done with the message. -/
def receive (l : Loop) (it : Iteration) : Loop :=
  match it.getMessage with
  | .cancelled => { l with ending := some .cancelled }
  | .error => fail l it.sleepCancelled
  | .done .nothing => l
  | .done .control => l
  | .done .acknowledgement => { l with messageCount := l.messageCount + 1 }
  | .done .message =>
      let l := { l with messageCount := l.messageCount + 1 }
      match it.route with
      | .done _ => l
      | .error => { l with errorCount := l.errorCount + 1 }
      | .cancelled => { l with ending := some .cancelled }

/-- One iteration of `_listener_loop`. -/
def iterate (l : Loop) (it : Iteration) : Loop :=
  if l.listening then
    if l.pubsub then receive l it
    else
      match it.reconnect with
      | .cancelled => { l with ending := some .cancelled }
      | .error => fail l it.sleepCancelled
      | .done _ => receive { l with pubsub := true, reconnectAttempts := 0 } it
  else l

/-! ### Consecutive failures -/

/-- The failing iterations at the end, after a `get_message`. -/
def failuresAfterGet (failures : ℕ) (it : Iteration) : ℕ :=
  match it.getMessage with
  | .cancelled => failures
  | .error => failures + 1
  | .done _ => 0

/-- The failing iterations at the end, with no successful `get_message` or reconnection among them. -/
def failuresAfter (l : Loop) (failures : ℕ) (it : Iteration) : ℕ :=
  if l.listening then
    if l.pubsub then failuresAfterGet failures it
    else
      match it.reconnect with
      | .cancelled => failures
      | .error => failures + 1
      | .done _ => failuresAfterGet 0 it
  else failures

/-- The loop, and the failing iterations at the end. -/
structure State where
  loop : Loop
  failures : ℕ

/-- One iteration. -/
def step (s : State) (it : Iteration) : State := ⟨iterate s.loop it, failuresAfter s.loop s.failures it⟩

/-- The listener gives up only after consecutive failures. -/
def GivesUpRightly (s : State) : Prop := s.loop.ending = some .gaveUp → maxReconnectAttempts ≤ s.failures

/-- An iteration without a connection. -/
def disconnected : Iteration := ⟨.error, .error, .error, false⟩

/-- However many errors follow. -/
def Robust (s : State) : Prop := ∀ n, GivesUpRightly (run step s (List.replicate n disconnected))

/-- A `get_message` succeeds, and its message is handled. -/
def Iteration.receives (it : Iteration) : Bool :=
  match it.getMessage, it.route with
  | .done .message, .cancelled => false
  | .done _, _ => true
  | _, _ => false

/-- No `get_message` succeeds while attempts are counted. -/
def NoneCounted (s : State) (it : Iteration) : Prop :=
  s.loop.listening = true → s.loop.pubsub = true → it.receives = true → s.loop.reconnectAttempts = 0

/-- A loop that has just been started. -/
def started (pubsub : Bool) (messageCount errorCount : ℕ) : State where
  loop := ⟨true, pubsub, 0, messageCount, errorCount, none⟩
  failures := 0

section Steps

variable {l : Loop} {s : State} {it : Iteration}

/-- A failing iteration counts, and ends the loop if it is the last attempt. -/
theorem fail_spec (l : Loop) (sleepCancelled : Bool) :
    (fail l sleepCancelled).reconnectAttempts = l.reconnectAttempts + 1 ∧
    (fail l sleepCancelled).pubsub = l.pubsub ∧
    ((fail l sleepCancelled).ending = some .gaveUp →
      maxReconnectAttempts ≤ l.reconnectAttempts + 1 ∨ l.ending = some .gaveUp) ∧
    ((fail l sleepCancelled).listening = true → l.reconnectAttempts + 1 < maxReconnectAttempts) := by
  unfold fail
  dsimp only
  by_cases hmax : maxReconnectAttempts ≤ l.reconnectAttempts + 1
  · rw [if_pos hmax]
    refine ⟨rfl, rfl, fun _ => Or.inl hmax, ?_⟩
    simp [Loop.listening]
  · rw [if_neg hmax]
    cases sleepCancelled with
    | true =>
        refine ⟨rfl, rfl, fun h => ?_, fun _ => by omega⟩
        cases h
    | false => exact ⟨rfl, rfl, Or.inr, fun _ => by omega⟩

/-- **While there is a connection object**, it stays and the count never falls. -/
theorem attempts_mono (h : l.pubsub = true) (it : Iteration) :
    (iterate l it).pubsub = true ∧ l.reconnectAttempts ≤ (iterate l it).reconnectAttempts := by
  unfold iterate
  by_cases hlistening : l.listening = true
  · rw [if_pos hlistening, if_pos h]
    unfold receive
    split
    · exact ⟨h, Nat.le_refl _⟩
    · obtain ⟨hattempts, hpubsub, -, -⟩ := fail_spec l it.sleepCancelled
      exact ⟨hpubsub.trans h, by omega⟩
    · exact ⟨h, Nat.le_refl _⟩
    · exact ⟨h, Nat.le_refl _⟩
    · exact ⟨h, Nat.le_refl _⟩
    · dsimp only
      split <;> exact ⟨h, Nat.le_refl _⟩
  · rw [if_neg hlistening]
    exact ⟨h, Nat.le_refl _⟩

/-- The count is that of the failing iterations at the end. -/
structure Counted (s : State) : Prop where
  attempts : s.loop.listening = true → s.loop.reconnectAttempts = s.failures
  remaining : s.loop.listening = true → s.loop.reconnectAttempts < maxReconnectAttempts
  ending : GivesUpRightly s

theorem counted_started (pubsub : Bool) (messageCount errorCount : ℕ) :
    Counted (started pubsub messageCount errorCount) := by
  refine ⟨fun _ => rfl, fun _ => ?_, fun h => ?_⟩
  · show 0 < maxReconnectAttempts
    decide
  · cases h

theorem ending_of_listening (h : l.listening = true) : l.ending = none := by
  unfold Loop.listening at h
  rw [Bool.and_eq_true, Option.isNone_iff_eq_none] at h
  exact h.2

/-- A loop that is cancelled does not give up. -/
theorem counted_cancelled (l : Loop) (failures : ℕ) : Counted ⟨{ l with ending := some .cancelled }, failures⟩ := by
  have hover : ({ l with ending := some .cancelled } : Loop).listening = false := Bool.and_false _
  refine ⟨fun h => ?_, fun h => ?_, fun h => ?_⟩
  · rw [hover] at h
    cases h
  · rw [hover] at h
    cases h
  · cases h

/-- A failing iteration keeps the count. -/
theorem Counted.fail (h : Counted s) (hlistening : s.loop.listening = true) (sleepCancelled : Bool) :
    Counted ⟨Listener.fail s.loop sleepCancelled, s.failures + 1⟩ := by
  obtain ⟨hattempts, -, hending, hgoes⟩ := fail_spec s.loop sleepCancelled
  have hcount := h.attempts hlistening
  refine ⟨fun _ => ?_, fun hgoing => ?_, fun hgave => ?_⟩
  · show (Listener.fail s.loop sleepCancelled).reconnectAttempts = s.failures + 1
    rw [hattempts, hcount]
  · show (Listener.fail s.loop sleepCancelled).reconnectAttempts < maxReconnectAttempts
    rw [hattempts]
    exact hgoes hgoing
  · show maxReconnectAttempts ≤ s.failures + 1
    rcases hending hgave with hmax | hover
    · rwa [hcount] at hmax
    · rw [ending_of_listening hlistening] at hover
      cases hover

/-- A message keeps it, if none is counted. -/
theorem Counted.receive (h : Counted s) (hlistening : s.loop.listening = true) (it : Iteration)
    (hnone : it.receives = true → s.loop.reconnectAttempts = 0) :
    Counted ⟨Listener.receive s.loop it, failuresAfterGet s.failures it⟩ := by
  have hover : s.loop.ending ≠ some .gaveUp := by
    rw [ending_of_listening hlistening]
    exact fun h => by cases h
  have hremaining := h.remaining hlistening
  obtain ⟨reconnect, getMessage, route, sleepCancelled⟩ := it
  cases getMessage with
  | cancelled => exact counted_cancelled _ _
  | error => exact h.fail hlistening sleepCancelled
  | done received =>
      cases received with
      | nothing => exact ⟨fun _ => hnone rfl, fun _ => hremaining, fun hgave => absurd hgave hover⟩
      | control => exact ⟨fun _ => hnone rfl, fun _ => hremaining, fun hgave => absurd hgave hover⟩
      | acknowledgement => exact ⟨fun _ => hnone rfl, fun _ => hremaining, fun hgave => absurd hgave hover⟩
      | message =>
          cases route with
          | done u => exact ⟨fun _ => hnone rfl, fun _ => hremaining, fun hgave => absurd hgave hover⟩
          | error => exact ⟨fun _ => hnone rfl, fun _ => hremaining, fun hgave => absurd hgave hover⟩
          | cancelled => exact counted_cancelled _ _

/-- **One iteration.** -/
theorem counted_step (h : Counted s) (it : Iteration) (hit : NoneCounted s it) : Counted (step s it) := by
  unfold step iterate failuresAfter
  by_cases hlistening : s.loop.listening = true
  · rw [if_pos hlistening, if_pos hlistening]
    by_cases hpubsub : s.loop.pubsub = true
    · rw [if_pos hpubsub, if_pos hpubsub]
      exact h.receive hlistening it (hit hlistening hpubsub)
    · rw [if_neg hpubsub, if_neg hpubsub]
      cases it.reconnect with
      | cancelled => exact counted_cancelled _ _
      | error => exact h.fail hlistening it.sleepCancelled
      | done u =>
          -- the count starts again
          have hagain : Counted ⟨{ s.loop with pubsub := true, reconnectAttempts := 0 }, 0⟩ := by
            refine ⟨fun _ => rfl, fun _ => ?_, fun hgave => ?_⟩
            · show 0 < maxReconnectAttempts
              decide
            · have hnone := ending_of_listening hlistening
              exact absurd (hnone.symm.trans hgave) (by simp)
          exact hagain.receive hlistening it fun _ => rfl
  · rw [if_neg hlistening, if_neg hlistening]
    exact h

/-- Errors alone keep the count. -/
theorem Counted.robust (h : Counted s) : Robust s := by
  have hrun : ∀ n, Counted (run step s (List.replicate n disconnected)) := by
    intro n
    induction n with
    | zero => exact h
    | succ n ih =>
        rw [List.replicate_succ', run_concat]
        exact counted_step ih disconnected fun _ _ hreceives => by cases hreceives
  exact fun n => (hrun n).ending

/-! ### A success that resets nothing -/

/-- An error, while the connection object is there and attempts remain. -/
theorem step_disconnected (hlistening : s.loop.listening = true) (hpubsub : s.loop.pubsub = true) :
    step s disconnected = ⟨fail s.loop false, s.failures + 1⟩ := by
  unfold step iterate failuresAfter
  rw [if_pos hlistening, if_pos hlistening, if_pos hpubsub, if_pos hpubsub]
  rfl

/-- **With fewer failures than attempts the listener gives up too early**, if only errors follow. -/
theorem not_robust (hlistening : s.loop.listening = true) (hpubsub : s.loop.pubsub = true)
    (hfewer : s.failures < s.loop.reconnectAttempts) (hremaining : s.loop.reconnectAttempts < maxReconnectAttempts) :
    ¬Robust s := by
  induction hleft : maxReconnectAttempts - s.loop.reconnectAttempts generalizing s with
  | zero => omega
  | succ left ih =>
      intro hrobust
      have hstep := step_disconnected hlistening hpubsub
      obtain ⟨hattempts, hkept, -, -⟩ := fail_spec s.loop false
      by_cases hlast : maxReconnectAttempts ≤ s.loop.reconnectAttempts + 1
      · -- the next error is the last attempt
        have hgave : (step s disconnected).loop.ending = some .gaveUp := by
          rw [hstep]
          show (fail s.loop false).ending = some .gaveUp
          unfold fail
          dsimp only
          rw [if_pos hlast]
        have henough : maxReconnectAttempts ≤ (step s disconnected).failures := hrobust 1 hgave
        rw [hstep] at henough
        have hfailures : maxReconnectAttempts ≤ s.failures + 1 := henough
        omega
      · have hgoes : (fail s.loop false).listening = true := by
          unfold fail
          dsimp only
          rw [if_neg hlast]
          exact hlistening
        refine ih (s := step s disconnected) ?_ ?_ ?_ ?_ ?_ fun n => ?_
        · rw [hstep]
          exact hgoes
        · rw [hstep]
          exact hkept.trans hpubsub
        · rw [hstep]
          show s.failures + 1 < (fail s.loop false).reconnectAttempts
          omega
        · rw [hstep]
          show (fail s.loop false).reconnectAttempts < maxReconnectAttempts
          omega
        · rw [hstep]
          show maxReconnectAttempts - (fail s.loop false).reconnectAttempts = left
          omega
        · exact hrobust (n + 1)

/-- A message that is received resets no count, but ends the row of failures. -/
theorem step_receives (hlistening : s.loop.listening = true) (hpubsub : s.loop.pubsub = true)
    (hreceives : it.receives = true) :
    (step s it).loop.listening = true ∧ (step s it).loop.pubsub = true ∧
    (step s it).loop.reconnectAttempts = s.loop.reconnectAttempts ∧ (step s it).failures = 0 := by
  have hstep : step s it = ⟨receive s.loop it, failuresAfterGet s.failures it⟩ := by
    unfold step iterate failuresAfter
    rw [if_pos hlistening, if_pos hlistening, if_pos hpubsub, if_pos hpubsub]
  rw [hstep]
  obtain ⟨reconnect, getMessage, route, sleepCancelled⟩ := it
  cases getMessage with
  | cancelled => cases hreceives
  | error => cases hreceives
  | done received =>
      cases received with
      | nothing => exact ⟨hlistening, hpubsub, rfl, rfl⟩
      | control => exact ⟨hlistening, hpubsub, rfl, rfl⟩
      | acknowledgement => exact ⟨hlistening, hpubsub, rfl, rfl⟩
      | message =>
          cases route with
          | done u => exact ⟨hlistening, hpubsub, rfl, rfl⟩
          | error => exact ⟨hlistening, hpubsub, rfl, rfl⟩
          | cancelled => cases hreceives

/-- After an iteration that misses the condition the listener may give up too early. -/
theorem noneCounted_of_robust (h : Counted s) (it : Iteration) (hrobust : Robust (step s it)) : NoneCounted s it := by
  intro hlistening hpubsub hreceives
  obtain ⟨hgoes, hkept, hattempts, hfailures⟩ := step_receives hlistening hpubsub hreceives
  by_contra hcounted
  refine not_robust hgoes hkept ?_ ?_ hrobust
  · rw [hattempts, hfailures]
    exact Nat.pos_of_ne_zero hcounted
  · rw [hattempts]
    exact h.remaining hlistening

end Steps

/-- **The listener gives up only after consecutive failures**, at every point of a run and whatever errors follow,
exactly when no `get_message` succeeds while attempts are counted. -/
theorem gives_up_rightly_iff (pubsub : Bool) (messageCount errorCount : ℕ) (its : List Iteration) :
    (∀ pre, pre <+: its → ∀ n,
      GivesUpRightly (run step (started pubsub messageCount errorCount) (pre ++ List.replicate n disconnected))) ↔
      Guarded step NoneCounted (started pubsub messageCount errorCount) its := by
  have happend : ∀ pre n, run step (started pubsub messageCount errorCount) (pre ++ List.replicate n disconnected) =
      run step (run step (started pubsub messageCount errorCount) pre) (List.replicate n disconnected) :=
    fun pre n => List.foldl_append
  simp only [happend]
  exact forall_prefix_iff_guarded_of_invariant Counted Robust (counted_started pubsub messageCount errorCount) its
    (fun s h => h.robust) (fun s it h hit => counted_step h it hit) (fun s it h => noneCounted_of_robust h it)

/-- An iteration without a message. -/
def quiet : Iteration := ⟨.done (), .done .nothing, .done (), false⟩

/-- **Ten errors, each after a success**, end the listener. -/
theorem gives_up_after_one_failure :
    let s := run step (started true 0 0) (List.replicate 10 [quiet, disconnected]).flatten
    (s.loop.ending = some .gaveUp ∧ s.failures = 1) ∧ ¬∀ its, GivesUpRightly (run step (started true 0 0) its) := by
  have hends : (run step (started true 0 0) (List.replicate 10 [quiet, disconnected]).flatten).loop.ending =
      some .gaveUp := by decide
  have hone : (run step (started true 0 0) (List.replicate 10 [quiet, disconnected]).flatten).failures = 1 := by
    decide
  refine ⟨⟨hends, hone⟩, fun h => ?_⟩
  have henough := h _ hends
  rw [hone] at henough
  exact absurd henough (by decide)

end Pinnokio.Realtime.Listener
