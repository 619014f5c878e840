import Mathlib.Algebra.Order.Field.Rat
import Mathlib.Order.WithBot
import Mathlib.Tactic.NormNum
import Pinnokio.Sessions.SessionState

/-!
# The time to live of a session

The key of a session is written with `setex`, which gives it a time to live, and by an update that is not to extend the
time to live with `set`, which takes the time to live away.

* `ends_iff` — what one call does to the time at which the key expires;
* `session_expires_iff` — **the key always expires** exactly when no update that is not to extend its time is written.
-/

namespace Pinnokio.Sessions.SessionState

open Pinnokio.PyJson Pinnokio.Runs

/-! ### A key with a time to live -/

/-- What the key holds, and the time at which it expires, if it has one. -/
structure Entry (F : Type) where
  value : Json F
  expires : Option ℚ

/-- The key of the session. -/
abbrev Keyed (F : Type) := Option (Entry F)

namespace Keyed

variable {F : Type}

/-- `redis.get(key)`. -/
def get (k : Keyed F) (now : ℚ) : Redis F :=
  match k with
  | none => none
  | some ⟨value, none⟩ => some value
  | some ⟨value, some expires⟩ => if now ≤ expires then some value else none

/-- `redis.setex(key, ttl, value)`; a time to live that is not positive is an error. -/
def setex (k : Keyed F) (now : ℚ) (ttl : ℤ) (value : Json F) : Keyed F :=
  if 0 < ttl then some ⟨value, some (now + ttl)⟩ else k

/-- `redis.set(key, value)`. -/
def set (value : Json F) : Keyed F := some ⟨value, none⟩

/-- The key has a time at which it expires, if it is there. -/
def Expires (k : Keyed F) : Prop := ∀ e, k = some e → e.expires.isSome

/-- Until when the key is there. -/
def deadline (k : Keyed F) : WithBot (WithTop ℚ) :=
  match k with
  | none => ⊥
  | some ⟨_, none⟩ => ((⊤ : WithTop ℚ) : WithBot (WithTop ℚ))
  | some ⟨_, some expires⟩ => ((expires : WithTop ℚ) : WithBot (WithTop ℚ))

end Keyed

/-! ### Calls -/

/-- `DEFAULT_TTL`. -/
def defaultTtl : ℤ := 7200

/-- `ttl or self.DEFAULT_TTL`. -/
def ttlSeconds (ttl : Option ℤ) : ℤ :=
  match ttl with
  | none => defaultTtl
  | some ttl => if ttl = 0 then defaultTtl else ttl

/-- The times at which a call reads and writes the key, and the time that it stores. -/
structure Clock where
  loaded : ℚ
  reloaded : ℚ
  stored : ℚ
  now : String

section Calls

variable {F : Type} (I : Interpreter F)

/-- The calls on a session. -/
inductive TimedCall where
  | save (args : SaveArgs I) (ttl : Option ℤ)
  | update (updates : State I) (extendTtl : Bool)
  /-- `update_thread_activity`, `update_presence_multi_tab`, `remove_tab_presence`. -/
  | change (u : Update I)

/-- `save_session_state`. -/
def saveTimed (k : Keyed F) (args : SaveArgs I) (ttl : Option ℤ) (t : Clock) : Keyed F :=
  match serializeState I (savedState I args t.now) with
  | none => k
  | some serialized => k.setex t.stored (ttlSeconds ttl) serialized

/-- `update_session_state`. -/
def updateTimed (k : Keyed F) (updates : State I) (t : Clock) (extendTtl : Bool := true) : Keyed F :=
  match loadSessionState I (k.get t.reloaded) with
  | none => k
  | some state =>
      match serializeState I (merged I state updates t.now) with
      | none => k
      | some serialized => if extendTtl then k.setex t.stored defaultTtl serialized else .set serialized

/-- The fields of `update_presence`. -/
def presenceFields (isOnChatPage : Bool) (currentActiveThread : Option String) : State I :=
  Dict.ofList [("is_on_chat_page", .bool isOnChatPage), ("current_active_thread", textOrNone I currentActiveThread)]

/-- `update_presence`. -/
def TimedCall.presence (isOnChatPage : Bool) (currentActiveThread : Option String) : TimedCall I :=
  .update (presenceFields I isOnChatPage currentActiveThread) true

/-- One call. -/
def timedStep (k : Keyed F) (call : TimedCall I × Clock) : Keyed F :=
  match call.1 with
  | .save args ttl => saveTimed I k args ttl call.2
  | .update updates extendTtl => updateTimed I k updates call.2 extendTtl
  | .change u =>
      match loadSessionState I (k.get call.2.loaded) with
      | none => k
      | some state =>
          match u.fieldsFor I state with
          | none => k
          | some updates => updateTimed I k updates call.2

/-- The call is no update that is not to extend the time to live. -/
def TimedCall.Extends (call : TimedCall I) : Prop := ∀ updates, call ≠ .update updates false

/-- After a call the key expires, and not later than before if the call is not to extend its time. -/
def Ends (k : Keyed F) (call : TimedCall I × Clock) : Prop :=
  (timedStep I k call).Expires ∧ (¬call.1.Extends → (timedStep I k call).deadline ≤ k.deadline)

/-- An update that is not to extend the time to live finds no session, or new values that cannot be written. -/
def WritesNothing (k : Keyed F) (call : TimedCall I × Clock) : Prop :=
  ∀ updates, call.1 = .update updates false →
    loadSessionState I (k.get call.2.reloaded) = none ∨ ¬Writable I updates

variable {I} {k : Keyed F}

theorem expires_none : Keyed.Expires (none : Keyed F) := by
  intro e he
  cases he

theorem expires_setex (h : k.Expires) (now : ℚ) (ttl : ℤ) (value : Json F) : (k.setex now ttl value).Expires := by
  rw [Keyed.setex]
  split_ifs
  · intro e he
    cases he
    rfl
  · exact h

/-- A key that was just written with a time to live. -/
theorem get_setex {now t : ℚ} {ttl : ℤ} (hpos : 0 < ttl) (hin : t ≤ now + ttl) (value : Json F) :
    (k.setex now ttl value).get t = some value := by
  rw [Keyed.setex, if_pos hpos]
  exact if_pos hin

theorem not_expires_set (value : Json F) : ¬(Keyed.set value).Expires := fun h => nomatch h _ rfl

/-- An update that extends the time to live. -/
theorem expires_updateTimed (h : k.Expires) (updates : State I) (t : Clock) : (updateTimed I k updates t).Expires := by
  rw [updateTimed]
  split
  · exact h
  · split
    · exact h
    · rw [if_pos rfl]
      exact expires_setex h _ _ _

/-- Every call but one that is not to extend the time to live keeps one. -/
theorem expires_timedStep (h : k.Expires) {call : TimedCall I × Clock} (hextends : call.1.Extends) :
    (timedStep I k call).Expires := by
  obtain ⟨call, t⟩ := call
  cases call with
  | save args ttl =>
      show (saveTimed I k args ttl t).Expires
      rw [saveTimed]
      split
      · exact h
      · exact expires_setex h _ _ _
  | update updates extendTtl =>
      cases extendTtl with
      | true => exact expires_updateTimed h updates t
      | false => exact absurd rfl (hextends updates)
  | change u =>
      rw [timedStep]
      dsimp only
      split
      · exact h
      · split
        · exact h
        · exact expires_updateTimed h _ t

/-- **What one call does**: the time to live is only lost when something is written that is not to extend it. -/
theorem ends_iff (h : k.Expires) (call : TimedCall I × Clock) : Ends I k call ↔ WritesNothing I k call := by
  by_cases hextends : call.1.Extends
  · exact iff_of_true ⟨expires_timedStep h hextends, fun hnot => absurd hextends hnot⟩
      fun updates hupdates => absurd hupdates (hextends updates)
  · obtain ⟨updates, hupdates⟩ : ∃ updates, call.1 = .update updates false := by
      simpa [TimedCall.Extends] using hextends
    obtain ⟨call, t⟩ := call
    cases hupdates
    have hstep : timedStep I k (.update updates false, t) = updateTimed I k updates t false := rfl
    constructor
    · intro hends updates' hupdates'
      cases hupdates'
      rw [or_iff_not_imp_left, ← ne_eq, Option.ne_none_iff_exists']
      rintro ⟨state, hload⟩ hwritable
      obtain ⟨data, hdata⟩ := (serialize_merged hload updates t.now).mpr hwritable
      have hset : timedStep I k (.update updates false, t) = .set data := by
        rw [hstep, updateTimed, hload]
        dsimp only
        rw [hdata]
        rfl
      exact not_expires_set data (hset ▸ hends.1)
    · intro hnothing
      have hsame : timedStep I k (.update updates false, t) = k := by
        rw [hstep, updateTimed]
        cases hload : loadSessionState I (k.get t.reloaded) with
        | none => rfl
        | some state =>
            dsimp only
            cases hdata : serializeState I (merged I state updates t.now) with
            | none => rfl
            | some data =>
                rcases hnothing updates rfl with hnone | hnot
                · rw [hload] at hnone
                  cases hnone
                · exact absurd ((serialize_merged hload updates t.now).mp ⟨data, hdata⟩) hnot
      rw [Ends, hsame]
      exact ⟨h, fun _ => le_rfl⟩

/-- **The key always expires**, and no later for an update that is not to extend its time, exactly when no such update
is written. -/
theorem session_expires_iff (h : k.Expires) (calls : List (TimedCall I × Clock)) :
    (∀ pre call, pre ++ [call] <+: calls → Ends I (run (timedStep I) k pre) call) ↔
      Guarded (timedStep I) (WritesNothing I) k calls := by
  rw [← guarded_iff_at_prefixes]
  exact guarded_congr Keyed.Expires (fun _ call hk => ends_iff hk call) (fun _ _ _ hends => hends.1) h calls

end Calls

/-! ### A key that never expires -/

/-- A call at a time. -/
def atTime (call : TimedCall oneDate) (t : ℚ) : TimedCall oneDate × Clock := (call, ⟨t, t, t, ""⟩)

/-- The page is left. -/
def leftPage : State oneDate := Dict.ofList [("is_on_chat_page", .bool false)]

/-- A dictionary whose key is no text, number or `None`. -/
def unwritable : State oneDate := Dict.ofList [("jobs_metrics", .dict [(.other, .int 1)])]

theorem not_writable_unwritable : ¬Writable oneDate unwritable := by
  intro hwritable
  have hone := hwritable ("jobs_metrics", .dict [(.other, .int 1)]) (by
    rw [unwritable, Dict.entries_ofList (by decide)]
    exact List.mem_singleton_self _) (by decide)
  cases hone

/-- The page is left before there is a session, then one is saved and its presence updated; new values that are not to
extend its time cannot be written, and a tab comes. -/
def sessionInTurn : List (TimedCall oneDate × Clock) :=
  [atTime (.update leftPage false) 0, atTime (.save oneThread none) 5, atTime (.update leftPage true) 10,
    atTime (.update unwritable false) 15, atTime (.change (.presence "a" "t")) 20]

theorem session_expires_in_turn :
    Keyed.Expires (none : Keyed Empty) ∧
      ∀ pre call, pre ++ [call] <+: sessionInTurn → Ends oneDate (run (timedStep oneDate) none pre) call := by
  refine ⟨expires_none, (session_expires_iff expires_none _).mpr ⟨?absent, ?_, ?_, ?unwritten, ?_, trivial⟩⟩
  case absent =>
    intro updates _
    exact Or.inl rfl
  case unwritten =>
    intro updates h
    cases h
    exact Or.inr not_writable_unwritable
  all_goals
    intro updates h
    cases h

/-- **An update that is not to extend the time to live takes it away.** -/
theorem session_never_expires : ¬∀ calls : List (TimedCall oneDate × Clock), ∀ pre call, pre ++ [call] <+: calls →
    Ends oneDate (run (timedStep oneDate) none pre) call := by
  intro hall
  have hends := hall [atTime (.save oneThread none) 0, atTime (.update leftPage false) 60]
    [atTime (.save oneThread none) 0] (atTime (.update leftPage false) 60) (List.prefix_refl _)
  obtain ⟨data, hsaved, hload⟩ : ∃ data, run (timedStep oneDate) none [atTime (.save oneThread none) 0] =
      Keyed.setex none 0 7200 data ∧ (loadSessionState oneDate (some data)).isSome := ⟨_, rfl, rfl⟩
  have hexpires : (Keyed.setex none 0 7200 data).Expires := expires_setex expires_none 0 7200 data
  rw [hsaved, ends_iff hexpires] at hends
  rcases hends leftPage rfl with hnone | hnot
  · have hget : (Keyed.setex none 0 7200 data).get 60 = some data := get_setex (by decide) (by norm_num) data
    have hnone' : loadSessionState oneDate ((Keyed.setex none 0 7200 data).get 60) = none := hnone
    rw [hget] at hnone'
    rw [hnone'] at hload
    cases hload
  · refine hnot fun e he _ => ?_
    rw [leftPage, Dict.entries_ofList (by decide)] at he
    rw [List.mem_singleton.mp he]
    rfl

end Pinnokio.Sessions.SessionState
