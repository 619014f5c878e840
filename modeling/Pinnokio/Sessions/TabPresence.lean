import Pinnokio.Sessions.Presence
import Pinnokio.Sessions.SessionTtl

/-!
# The tabs of a session, one call after another

`update_presence_multi_tab` and `remove_tab_presence` keep a map from the tabs to their threads, and set the older
fields `is_on_chat_page` and `current_active_thread` along with it; `is_user_on_thread_multi_tab` reads the map, or the
older fields when it is empty.  Every call gives the session another two hours.

* `present_step`, `present_run` — the map has the last thread of every open tab, and the older fields go with it;
* `presence_exact` — **the answers are those of the calls**, as long as the session has not expired.
-/

namespace Pinnokio.Sessions.SessionState

open Pinnokio.PyJson Pinnokio.Runs

/-! ### The answer -/

section Query

variable {F : Type} (I : Interpreter F)

/- The test of the interpreter whether a float is zero. -/
variable (isZero : F → Bool)

/-- The truth value the interpreter gives a value. -/
def truthy : Val I → Bool
  | .none => false
  | .bool b => b
  | .int n => n ≠ 0
  | .float (.finite x) => !isZero x
  | .float _ => true
  | .str s => s ≠ ""
  | .list items => !items.isEmpty
  | .tuple items => !items.isEmpty
  | .dict entries => !entries.isEmpty
  | .object (.set s) => !(I.items s).isEmpty
  | .object (.mixedSet items _) => !items.isEmpty
  | .object _ => true

/-- `is_user_on_thread_multi_tab`. -/
def isUserOnThreadMultiTab (k : Keyed F) (now : ℚ) (threadKey : String) : Bool :=
  match loadSessionState I (k.get now) with
  | none => false
  | some state =>
      if state.entries.isEmpty then false
      else
        let activeThreadsBySession := (state.get? "active_threads_by_session").getD (.dict [])
        if truthy I isZero activeThreadsBySession then
          match activeThreadsBySession with
          | .dict entries => entries.any fun e => isText threadKey e.2
          | _ => false
        else
          truthy I isZero ((state.get? "is_on_chat_page").getD (.bool false)) &&
            isText threadKey ((state.get? "current_active_thread").getD .none)

end Query

/-! ### The calls -/

/-- A call for a tab, and the times at which it reads and writes the session. -/
structure TabCall where
  edit : Edit
  loaded : ℚ
  reloaded : ℚ
  stored : ℚ

/-- As a call on the session. -/
def TabCall.call {F : Type} (I : Interpreter F) (c : TabCall) : TimedCall I × Clock :=
  (.change (c.edit.update I), ⟨c.loaded, c.reloaded, c.stored, c.edit.now⟩)

/-- The thread of a tab that was updated and has not been removed since. -/
def lastThread (calls : List TabCall) (sessionId : String) : Option String :=
  calls.foldl (fun thread c => if c.edit.sessionId = sessionId then c.edit.threadKey else thread) none

/-- A call that finds the session gives it two hours. -/
def renewed (_ : ℚ) (c : TabCall) : ℚ := c.stored + defaultTtl

/-- Until when the session is there, after calls that all find it. -/
def expiry (expires : ℚ) (calls : List TabCall) : ℚ := run renewed expires calls

/-- Every call finds the session, which expires two hours after the call before. -/
def InTime (expires : ℚ) (calls : List TabCall) : Prop :=
  Guarded renewed (fun expires c => c.loaded ≤ expires ∧ c.reloaded ≤ expires) expires calls

section Exact

variable {F : Type} (I : Interpreter F) (isZero : F → Bool)

/-- **The answers are those of the calls**: the user is on the threads of the open tabs, and on the page if one is
open. -/
def PresenceExact (k : Keyed F) (now : ℚ) (calls : List TabCall) : Prop :=
  (∀ threadKey, isUserOnThreadMultiTab I isZero k now threadKey = true ↔
    ∃ sessionId, lastThread calls sessionId = some threadKey) ∧
  ∃ state onPage, loadSessionState I (k.get now) = some state ∧
    state.get? "is_on_chat_page" = some (.bool onPage) ∧
      (onPage = true ↔ ∃ sessionId threadKey, lastThread calls sessionId = some threadKey)

/-- What the session is after calls that all found it. -/
structure Present (k : Keyed F) (expires : ℚ) (calls : List TabCall) (data : Json F) (state : State I)
    (fs : List (String × Val I)) : Prop where
  stored : k = some ⟨data, some expires⟩
  load : loadSessionState I (some data) = some state
  tabs : Tabs fs
  entries : entriesOf I state "active_threads_by_session" = some (fs.map fun e => (.str e.1, e.2))
  threads : ∀ sessionId, Dict.getList sessionId fs = (lastThread calls sessionId).map .str
  flag : state.get? "is_on_chat_page" = some (.bool !fs.isEmpty)

end Exact

section Run

variable {F : Type} {I : Interpreter F} {isZero : F → Bool} {k : Keyed F} {expires now : ℚ} {calls : List TabCall}
  {c : TabCall} {fs : List (String × Val I)} {data : Json F} {state : State I}

theorem lastThread_concat (sessionId : String) : lastThread (calls ++ [c]) sessionId =
    if c.edit.sessionId = sessionId then c.edit.threadKey else lastThread calls sessionId :=
  List.foldl_concat ..

theorem Present.get (h : Present I k expires calls data state fs) (hin : now ≤ expires) :
    loadSessionState I (k.get now) = some state := by
  have hget : k.get now = some data := by
    rw [h.stored]
    exact if_pos hin
  rw [hget]
  exact h.load

/-- The page is left when the last tab is. -/
theorem get?_fields_flag (e : Edit) (fs : List (String × Val I)) :
    (e.fields fs).get? "is_on_chat_page" = some (.bool !(e.on fs).isEmpty) := by
  unfold Edit.fields
  cases hthread : e.threadKey with
  | some threadKey =>
      have hon : (e.on fs).isEmpty = false := by
        rw [Edit.on, hthread]
        cases fs with
        | nil => rfl
        | cons f fs =>
            dsimp only
            rw [Dict.setList]
            split <;> rfl
      rw [hon]
      rfl
  | none =>
      dsimp only
      split_ifs with hempty
      · rw [hempty]
        rfl
      · rw [Bool.eq_false_of_not_eq_true hempty]
        rfl

/-- What a call that finds the session stores. -/
theorem timedStep_call (h : Present I k expires calls data state fs) (hload : c.loaded ≤ expires)
    (hreload : c.reloaded ≤ expires) {data' : Json F}
    (hdata : serializeState I (merged I state (c.edit.fields fs) c.edit.now) = some data') :
    timedStep I k (c.call I) = some ⟨data', some (c.stored + defaultTtl)⟩ := by
  have hfields : (c.edit.update I).fieldsFor I state = some (c.edit.fields fs) := fieldsFor_update h.entries c.edit
  rw [timedStep, TabCall.call]
  dsimp only
  rw [h.get hload]
  dsimp only
  rw [hfields]
  dsimp only
  rw [updateTimed, h.get hreload]
  dsimp only
  rw [hdata]
  rfl

/-- **One call.** -/
theorem present_step (h : Present I k expires calls data state fs) (hplain : c.edit.Plain)
    (hload : c.loaded ≤ expires) (hreload : c.reloaded ≤ expires) :
    ∃ data' state', Present I (timedStep I k (c.call I)) (c.stored + defaultTtl) (calls ++ [c]) data' state'
      (c.edit.on fs) := by
  obtain ⟨data', hdata, htabs⟩ := serialize_fields h.load c.edit h.tabs
  obtain ⟨htabs', state', hload', hentries'⟩ := htabs hplain
  refine ⟨data', state', timedStep_call h hload hreload hdata, hload', htabs', hentries', fun sessionId => ?_, ?_⟩
  · rw [getList_on, lastThread_concat, h.threads]
    by_cases hid : sessionId = c.edit.sessionId
    · rw [if_pos hid, if_pos hid.symm]
    · rw [if_neg hid, if_neg (Ne.symm hid)]
  · rw [((load_stored hdata).2 state' hload').1 _ (by decide), get?_merged, if_neg (by decide), get?_fields_flag]
    rfl

/-- **All calls.** -/
theorem present_run (h : Present I k expires [] data state fs) (hplain : ∀ c ∈ calls, c.edit.Plain)
    (htime : InTime expires calls) : ∃ data' state' fs',
      Present I (run (timedStep I) k (calls.map (TabCall.call I))) (expiry expires calls) calls data' state' fs' := by
  induction calls using List.reverseRecOn with
  | nil => exact ⟨data, state, fs, h⟩
  | append_singleton calls c ih =>
      obtain ⟨htime, hloaded, hreloaded⟩ := (guarded_concat expires calls c).mp htime
      obtain ⟨data', state', fs', hpresent⟩ := ih (fun c hc => hplain c (List.mem_append_left _ hc)) htime
      obtain ⟨data'', state'', hstep⟩ := present_step hpresent (hplain c (by simp)) hloaded hreloaded
      refine ⟨data'', state'', c.edit.on fs', ?_⟩
      rw [List.map_append, List.map_singleton, run_concat, expiry, run_concat]
      exact hstep

/-- The answers are read off the map, or off the older fields when no tab is open. -/
theorem Present.exact (h : Present I k expires calls data state fs) (hin : now ≤ expires) :
    PresenceExact I isZero k now calls := by
  have hload := h.get hin
  have hopen : ∀ sessionId threadKey, lastThread calls sessionId = some threadKey ↔
      Dict.getList sessionId fs = some (.str threadKey) := by
    intro sessionId threadKey
    rw [h.threads, Option.map_eq_some_iff]
    simp
  have hstate : state.entries.isEmpty = false := by
    cases hentries : state.entries with
    | nil =>
        have hflag := h.flag
        rw [Dict.get?, hentries] at hflag
        cases hflag
    | cons e es => rfl
  have htabs : (state.get? "active_threads_by_session").getD (.dict []) = .dict (fs.map fun e => (.str e.1, e.2)) := by
    have hentries := h.entries
    unfold entriesOf at hentries
    split at hentries
    · next hnone =>
      rw [hnone, ← Option.some.inj hentries]
      rfl
    · next entries hsome =>
      rw [hsome, ← Option.some.inj hentries]
      rfl
    · cases hentries
  refine ⟨fun threadKey => ?_, state, _, hload, h.flag, ?_⟩
  · rw [isUserOnThreadMultiTab, hload]
    simp only [hstate, Bool.false_eq_true, if_false, htabs, hopen]
    rw [truthy, List.isEmpty_map, h.flag]
    cases hfs : fs.isEmpty with
    | true =>
        rw [List.isEmpty_iff.mp hfs]
        refine iff_of_false (by simp [truthy]) ?_
        rintro ⟨sessionId, hget⟩
        cases hget
    | false =>
        rw [Bool.not_false, if_pos rfl, List.any_map, List.any_eq_true]
        constructor
        · rintro ⟨⟨sessionId, v⟩, hmem, htext⟩
          have hv : v = .str threadKey := isText_iff.mp htext
          rw [hv] at hmem
          exact ⟨sessionId, (Dict.getList_eq_some_iff h.tabs.nodup).mpr hmem⟩
        · rintro ⟨sessionId, hget⟩
          exact ⟨_, (Dict.getList_eq_some_iff h.tabs.nodup).mp hget, (isText_iff (I := I)).mpr rfl⟩
  · rw [Bool.not_eq_true', List.isEmpty_eq_false_iff_exists_mem]
    constructor
    · rintro ⟨⟨sessionId, v⟩, hmem⟩
      have hget := (Dict.getList_eq_some_iff h.tabs.nodup).mpr hmem
      rw [h.threads, Option.map_eq_some_iff] at hget
      obtain ⟨threadKey, hthread, -⟩ := hget
      exact ⟨sessionId, threadKey, hthread⟩
    · rintro ⟨sessionId, threadKey, hthread⟩
      exact ⟨_, Dict.mem_of_getList ((hopen sessionId threadKey).mp hthread)⟩

/-- A session that is saved without the page and without a thread. -/
theorem present_saved {args : SaveArgs I} {ttl : Option ℤ} {t : Clock} (hpage : args.isOnChatPage = false)
    (hsaved : serializeState I (savedState I args t.now) = some data)
    (hload : loadSessionState I (some data) = some state) (httl : 0 < ttlSeconds ttl) :
    Present I (timedStep I k (.save args ttl, t)) (t.stored + ttlSeconds ttl) [] data state [] where
  stored := by
    show saveTimed I k args ttl t = _
    rw [saveTimed, hsaved]
    exact if_pos httl
  load := hload
  tabs := tabs_nil
  entries := by
    rw [entriesOf, ((load_stored hsaved).2 state hload).1 _ (by decide), savedState, Dict.get?_ofList]
    rfl
  threads := fun sessionId => rfl
  flag := by
    rw [((load_stored hsaved).2 state hload).1 _ (by decide), savedState, Dict.get?_ofList]
    show (some (.bool args.isOnChatPage)).bind (reread I) = _
    rw [hpage]
    rfl

/-- **The answers are those of the calls**, after any calls that find the session: the user is on a thread exactly if
it is the last one of an open tab, and on the page exactly if a tab is open. -/
theorem presence_exact {args : SaveArgs I} {ttl : Option ℤ} {t : Clock} (hpage : args.isOnChatPage = false)
    (hsaved : serializeState I (savedState I args t.now) = some data)
    (hload : loadSessionState I (some data) = some state) (httl : 0 < ttlSeconds ttl)
    (hplain : ∀ c ∈ calls, c.edit.Plain) (htime : InTime (t.stored + ttlSeconds ttl) calls)
    (hnow : now ≤ expiry (t.stored + ttlSeconds ttl) calls) :
    PresenceExact I isZero (run (timedStep I) (timedStep I k (.save args ttl, t)) (calls.map (TabCall.call I))) now
      calls := by
  obtain ⟨data', state', fs', hpresent⟩ := present_run (present_saved hpage hsaved hload httl) hplain htime
  exact hpresent.exact hnow

end Run

/-! ### Sessions that are lost -/

section Lost

/-- A session that is saved away from the page. -/
def awayFromPage (userContext : Option (List (Key Empty × Val oneDate))) : SaveArgs oneDate :=
  { oneThread with isOnChatPage := false, currentActiveThread := none, userContext := userContext }

/-- A session that is saved at time 0. -/
def savedAway (userContext : Option (List (Key Empty × Val oneDate))) : Keyed Empty :=
  timedStep oneDate none (.save (awayFromPage userContext) none, ⟨0, 0, 0, ""⟩)

/-- The session after calls. -/
def afterCalls (userContext : Option (List (Key Empty × Val oneDate))) (calls : List TabCall) : Keyed Empty :=
  run (timedStep oneDate) (savedAway userContext) (calls.map (TabCall.call oneDate))

/-- A tab comes, at a time. -/
def opened (sessionId threadKey : String) (t : ℚ) : TabCall := ⟨⟨sessionId, some threadKey, ""⟩, t, t, t⟩

/-- A tab goes, at a time. -/
def closed (sessionId : String) (t : ℚ) : TabCall := ⟨⟨sessionId, none, ""⟩, t, t, t⟩

/-- Two tabs come, and one goes. -/
theorem presence_exact_two :
    PresenceExact oneDate Empty.elim
      (afterCalls none [opened "a" "t" 10, opened "b" "u" 7200, closed "a" 7300]) 7400
      [opened "a" "t" 10, opened "b" "u" 7200, closed "a" 7300] := by
  obtain ⟨data, state, hsaved, hload⟩ : ∃ data state,
      serializeState oneDate (savedState oneDate (awayFromPage none) "") = some data ∧
        loadSessionState oneDate (some data) = some state := ⟨_, _, rfl, rfl⟩
  have hplain : ∀ c ∈ [opened "a" "t" 10, opened "b" "u" 7200, closed "a" 7300], c.edit.Plain := by
    simp [opened, closed, Edit.Plain]
  have htime : InTime ((0 : ℚ) + ttlSeconds none) [opened "a" "t" 10, opened "b" "u" 7200, closed "a" 7300] := by
    simp [InTime, Guarded, renewed, opened, closed, ttlSeconds, defaultTtl]
    norm_num
  have hnow : (7400 : ℚ) ≤ expiry ((0 : ℚ) + ttlSeconds none)
      [opened "a" "t" 10, opened "b" "u" 7200, closed "a" 7300] := by
    simp [expiry, run, renewed, closed, defaultTtl]
    norm_num
  exact presence_exact rfl hsaved hload (by decide) hplain htime hnow

/-- Where no session can be loaded, no answer is that of the calls. -/
theorem not_presenceExact {F : Type} {I : Interpreter F} {isZero : F → Bool} {k : Keyed F} {now : ℚ}
    {calls : List TabCall} (h : loadSessionState I (k.get now) = none) : ¬PresenceExact I isZero k now calls := by
  rintro ⟨-, state, onPage, hload, -⟩
  rw [h] at hload
  cases hload

/-- A value that cannot be loaded cannot be loaded at any time. -/
theorem load_get_none {F : Type} {I : Interpreter F} {data : Json F} (h : loadSessionState I (some data) = none)
    (expires now : ℚ) : loadSessionState I (Keyed.get (some ⟨data, some expires⟩) now) = none := by
  rw [Keyed.get]
  split_ifs
  · exact h
  · rfl

/-- **The answers are wrong** two hours after the last call, for a tab that makes the map look like a set, and for a
session whose context looks like one. -/
theorem presence_lost :
    ¬PresenceExact oneDate Empty.elim (afterCalls none [opened "a" "t" 10]) 10000 [opened "a" "t" 10] ∧
      ¬PresenceExact oneDate Empty.elim (afterCalls none [opened "__type__" "set" 10]) 20
        [opened "__type__" "set" 10] ∧
      ¬PresenceExact oneDate Empty.elim (afterCalls (some [(.str "__type__", .str "set")]) [opened "a" "t" 10]) 20
        [opened "a" "t" 10] := by
  obtain ⟨data, state, tagged, hsaved, hload, htagged, hlost⟩ : ∃ data state tagged,
      serializeState oneDate (savedState oneDate (awayFromPage none) "") = some data ∧
        loadSessionState oneDate (some data) = some state ∧
        serializeState oneDate (merged oneDate state ((opened "__type__" "set" 10).edit.fields []) "") = some tagged ∧
        loadSessionState oneDate (some tagged) = none := ⟨_, _, _, rfl, rfl, rfl, rfl⟩
  have hpresent : Present oneDate (savedAway none) ((0 : ℚ) + ttlSeconds none) [] data state [] :=
    present_saved rfl hsaved hload (by decide)
  have hin : (10 : ℚ) ≤ (0 : ℚ) + ttlSeconds none := by
    rw [ttlSeconds, defaultTtl]
    norm_num
  refine ⟨not_presenceExact ?_, not_presenceExact ?_, not_presenceExact ?_⟩
  · obtain ⟨data', hdata, -⟩ := serialize_fields hload (opened "a" "t" 10).edit tabs_nil
    have hstored : afterCalls none [opened "a" "t" 10] = some ⟨data', some ((10 : ℚ) + defaultTtl)⟩ :=
      timedStep_call hpresent hin hin hdata
    have hexpired : ¬(10000 : ℚ) ≤ 10 + defaultTtl := by
      rw [defaultTtl]
      norm_num
    rw [hstored, Keyed.get, if_neg hexpired]
    rfl
  · have hstored : afterCalls none [opened "__type__" "set" 10] = some ⟨tagged, some ((10 : ℚ) + defaultTtl)⟩ :=
      timedStep_call hpresent hin hin htagged
    rw [hstored]
    exact load_get_none hlost _ _
  · obtain ⟨data', hsaved', hlost'⟩ : ∃ data',
        savedAway (some [(.str "__type__", .str "set")]) = some ⟨data', some ((0 : ℚ) + ttlSeconds none)⟩ ∧
          loadSessionState oneDate (some data') = none := ⟨_, rfl, rfl⟩
    have hstored : afterCalls (some [(.str "__type__", .str "set")]) [opened "a" "t" 10] =
        some ⟨data', some ((0 : ℚ) + ttlSeconds none)⟩ := by
      have hone : afterCalls (some [(.str "__type__", .str "set")]) [opened "a" "t" 10] = timedStep oneDate
          (savedAway (some [(.str "__type__", .str "set")])) ((opened "a" "t" 10).call oneDate) := rfl
      rw [hone, hsaved', timedStep, TabCall.call]
      dsimp only
      rw [load_get_none hlost']
    rw [hstored]
    exact load_get_none hlost' _ _

end Lost

end Pinnokio.Sessions.SessionState
