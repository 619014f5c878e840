import Pinnokio.Lib.Runs
import Pinnokio.Sessions.SessionCodec

/-!
# The state of a session

`SessionStateManager` keeps the state of a session under one key.  A partial update loads the state, merges the new
fields into it and stores it again.  `last_activity` is saved with its dates as texts, and loading makes dates of them;
an update stores them as tagged dates, which loading has made dates of already when it converts the texts, and whatever
is no text it drops.

* `loaded_settled` — what is loaded is read back as it was;
* `load_stored` — what is loaded after a store;
* `kept_iff`, `updates_keep_iff` — **a partial update keeps the fields it does not name** exactly when there is no
  `last_activity` to lose and the new values can be read back;
* `activity_forgotten` — after an update of the activity of a thread, there is none.
-/

namespace Pinnokio.Sessions.SessionState

open Pinnokio.PyJson Pinnokio.Runs

variable {F : Type} (I : Interpreter F)

/-! ### Loading and storing -/

/-- What is stored under the key of the session. -/
abbrev Redis (F : Type) := Option (Json F)

/-- `_deserialize_datetime`. -/
def deserializeDatetime : Val I → Option I.Datetime
  | .str s => if s = "" then none else I.fromisoformat s
  | _ => none

/-- The entries of `last_activity` that have a date. -/
def activities (entries : List (Key F × Val I)) : List (Key F × Val I) :=
  entries.filterMap fun e => (deserializeDatetime I e.2).map fun d => (e.1, .object (.datetime d))

/-- The conversion of `last_activity`; `none` is the `AttributeError` of a value that is not a dictionary. -/
def withActivity (state : State I) : Option (State I) :=
  match state.get? "last_activity" with
  | none => some state
  | some (.dict entries) => some (state.set "last_activity" (.dict (activities I entries)))
  | some _ => none

/-- `load_session_state`; an error counts as no state. -/
def loadSessionState (r : Redis F) : Option (State I) := (r.bind (deserializeState I)).bind (withActivity I)

/-- The state with the updates merged in. -/
def merged (state updates : State I) (now : String) : State I :=
  (state.setAll updates.entries).set "updated_at" (.str now)

/-- `update_session_state`. -/
def updateSessionState (r : Redis F) (updates : State I) (now : String) : Redis F × Bool :=
  match loadSessionState I r with
  | none => (r, false)
  | some state =>
      match serializeState I (merged I state updates now) with
      | none => (r, false)
      | some serialized => (some serialized, true)

/-- The arguments of `save_session_state`; a value of `last_activity` that is not a date is given by its `str`. -/
structure SaveArgs where
  userContext : Option (List (Key F × Val I))
  jobsData : Option (List (Key F × Val I))
  jobsMetrics : Option (List (Key F × Val I))
  isOnChatPage : Bool
  currentActiveThread : Option String
  threadStates : Option (List (Key F × Val I))
  activeTasks : Option (List (Key F × Val I))
  lastActivity : List (String × (I.Datetime ⊕ String))
  threadContexts : Option (List (Key F × Val I))
  activeThreads : Option (List (Val I))

/-- `_serialize_datetime`. -/
def serializeDatetime : I.Datetime ⊕ String → String
  | .inl d => I.isoformat d
  | .inr str => str

/-- A text, or `None`. -/
def textOrNone : Option String → Val I
  | none => .none
  | some s => .str s

/-- The state that `save_session_state` stores. -/
def savedState (args : SaveArgs I) (now : String) : State I :=
  Dict.ofList [
    ("user_context", .dict (args.userContext.getD [])),
    ("jobs_data", .dict (args.jobsData.getD [])),
    ("jobs_metrics", .dict (args.jobsMetrics.getD [])),
    ("is_on_chat_page", .bool args.isOnChatPage),
    ("current_active_thread", textOrNone I args.currentActiveThread),
    ("thread_states", .dict (args.threadStates.getD [])),
    ("active_tasks", .dict (args.activeTasks.getD [])),
    ("last_activity",
      .dict ((Dict.ofList args.lastActivity).entries.map fun e => (.str e.1, .str (serializeDatetime I e.2)))),
    ("thread_contexts", .dict (args.threadContexts.getD [])),
    ("active_threads", .list (args.activeThreads.getD [])),
    ("updated_at", .str now),
    ("version", .str "1.0")]

/-- `save_session_state`. -/
def saveSessionState (r : Redis F) (args : SaveArgs I) (now : String) : Redis F × Bool :=
  match serializeState I (savedState I args now) with
  | none => (r, false)
  | some serialized => (some serialized, true)

/-! ### Partial updates -/

/-- `state.get(k, {})`, to be written to; `none` is the `TypeError` of a value that is not a dictionary. -/
def entriesOf (state : State I) (k : String) : Option (List (Key F × Val I)) :=
  match state.get? k with
  | none => some []
  | some (.dict entries) => some entries
  | some _ => none

/-- The calls that change a part of the state. -/
inductive Update where
  | fields (updates : State I)
  | threadActivity (threadKey : String) (moment : I.Datetime)
  | presence (sessionId threadKey : String)
  | removeTab (sessionId : String)

/-- The fields that a call passes to `update_session_state`, with the state it has loaded; `none` is an error. -/
def Update.fieldsFor (state : State I) : Update I → Option (State I)
  | .fields updates => some updates
  | .threadActivity threadKey moment =>
      (entriesOf I state "last_activity").map fun lastActivity =>
        Dict.ofList [("last_activity", .dict (setStr threadKey (.object (.datetime moment)) lastActivity))]
  | .presence sessionId threadKey =>
      (entriesOf I state "active_threads_by_session").map fun tabs =>
        Dict.ofList [("active_threads_by_session", .dict (setStr sessionId (.str threadKey) tabs)),
          ("is_on_chat_page", .bool true), ("current_active_thread", .str threadKey)]
  | .removeTab sessionId =>
      (entriesOf I state "active_threads_by_session").map fun tabs =>
        let tabs := eraseStr sessionId tabs
        if tabs.isEmpty then
          Dict.ofList [("active_threads_by_session", .dict tabs), ("is_on_chat_page", .bool false),
            ("current_active_thread", .none)]
        else Dict.ofList [("active_threads_by_session", .dict tabs), ("is_on_chat_page", .bool true)]

/-- `update_session_state`, `update_thread_activity`, `update_presence_multi_tab`, `remove_tab_presence`. -/
def applyUpdate (r : Redis F) (update : Update I) (now : String) : Redis F :=
  match loadSessionState I r with
  | none => r
  | some state =>
      match update.fieldsFor I state with
      | none => r
      | some updates => (updateSessionState I r updates now).1

/-- The calls on a session. -/
inductive Call where
  | save (args : SaveArgs I) (now : String)
  | update (u : Update I) (now : String)

/-- One call. -/
def step (r : Redis F) : Call I → Redis F
  | .save args now => (saveSessionState I r args now).1
  | .update u now => applyUpdate I r u now

/-- **A partial update keeps the fields it does not name.** -/
def Kept (r : Redis F) : Call I → Prop
  | .save _ _ => True
  | .update u now =>
      ∀ state updates, loadSessionState I r = some state → u.fieldsFor I state = some updates →
        ∀ k, k ∉ updates.keys → k ≠ "updated_at" →
          ((loadSessionState I (applyUpdate I r u now)).bind fun loaded => loaded.get? k) = state.get? k

/-- The new values can be written. -/
def Writable (updates : State I) : Prop :=
  ∀ e ∈ updates.entries, e.1 ≠ "updated_at" → (written I e.2).isSome

/-- The new values can be read back, and `last_activity` as a dictionary. -/
def Reloads (updates : State I) : Prop :=
  ∀ e ∈ updates.entries, e.1 ≠ "updated_at" →
    ∃ v, reread I e.2 = some v ∧ (e.1 = "last_activity" → ∃ entries, v = .dict entries)

/-- If the new values can be written, they can be read back (or every field is named), and no activity is lost: there
is none, or the update names it. -/
def Harmless (r : Redis F) : Call I → Prop
  | .save _ _ => True
  | .update u _ =>
      ∀ state updates, loadSessionState I r = some state → u.fieldsFor I state = some updates → Writable I updates →
        (Reloads I updates ∨ ∀ k ∈ state.keys, k ∈ updates.keys ∨ k = "updated_at") ∧
          ("last_activity" ∈ updates.keys ∨ ∀ entries, state.get? "last_activity" = some (.dict entries) → entries = [])

section Loaded

variable {I}

/-! ### What is loaded is settled -/

/-- A dictionary that was read has distinct texts as keys and settled values, and does not look like a tagged
object. -/
theorem dict_of_deserialize {j : Json F} {entries : List (Key F × Val I)}
    (h : deserializeValue I (loads j) = some (.dict entries)) :
    ∃ fs : List (String × Val I), entries = fs.map (fun e => (.str e.1, e.2)) ∧ (fs.map Prod.fst).Nodup ∧
      Untagged fs ∧ ∀ e ∈ fs, Settled I e.2 := by
  cases j with
  | object es =>
      rw [loads] at h
      rcases dictOf_of_deserialize (Dict.ofList (loadsEntries es)).nodup h with ⟨d, hd⟩ | ⟨s, hs⟩ |
        ⟨fs, hread, hfs, hn, htag⟩
      · cases hd
      · cases hs
      · refine ⟨fs, PyValue.dict.inj hfs, hn, htag, fun e he => ?_⟩
        obtain ⟨j, hmem, hvalue⟩ := mem_deserializeFields hread he
        exact settled_of_deserializeEntries (Dict.mem_of_mem_ofList hmem) hvalue
  | array items =>
      rw [loads, deserializeValue] at h
      obtain ⟨vs, -, hvs⟩ := Option.map_eq_some_iff.mp h
      cases hvs
  | null => cases h
  | bool b => cases h
  | int n => cases h
  | float x => cases h
  | str s => cases h

/-- Dates under distinct texts are settled. -/
theorem settled_dates {fs : List (String × I.Datetime)} (hn : (fs.map Prod.fst).Nodup) :
    Settled I (dictOf I (fs.map fun e => (e.1, .object (.datetime e.2)))) := by
  refine settled_dict ?_ (fun e he => ?_) fun type htype => ?_
  · rwa [List.map_map]
  · obtain ⟨f, -, rfl⟩ := List.mem_map.mp he
    exact settled_datetime f.2
  · rw [Dict.getList_map_values (fun d => (.object (.datetime d) : Val I))] at htype
    obtain ⟨d, -, hd⟩ := Option.map_eq_some_iff.mp htype
    cases hd

theorem activities_map (fs : List (String × Val I)) :
    activities I (fs.map fun e => (.str e.1, e.2)) =
      ((fs.filterMap fun e => (deserializeDatetime I e.2).map (Prod.mk e.1)).map fun e =>
        (e.1, (.object (.datetime e.2) : Val I))).map fun e => (.str e.1, e.2) := by
  induction fs with
  | nil => rfl
  | cons e fs ih =>
      rw [activities] at ih ⊢
      rw [List.map_cons, List.filterMap_cons, List.filterMap_cons]
      cases deserializeDatetime I e.2 with
      | none => exact ih
      | some d => simp [ih]

/-- The fields of a state that was read. -/
theorem field_of_deserialize {data : Json F} {state : State I} (h : deserializeState I data = some state)
    {k : String} {v : Val I} (hk : state.get? k = some v) : ∃ j, deserializeValue I (loads j) = some v := by
  unfold deserializeState at h
  split at h
  · next entries hdata =>
    obtain ⟨fs, hfs, rfl⟩ := Option.map_eq_some_iff.mp h
    rw [Dict.get?_ofList] at hk
    obtain ⟨j, hmem, hread⟩ := mem_deserializeFields hfs (Dict.mem_of_lastOf hk)
    cases data with
    | object es =>
        rw [loads, Json.object.injEq] at hdata
        rw [← hdata] at hmem
        have hloaded := Dict.mem_of_mem_ofList hmem
        rw [loadsEntries_eq_map] at hloaded
        obtain ⟨e, -, he⟩ := List.mem_map.mp hloaded
        obtain ⟨-, rfl⟩ := Prod.mk.inj he
        exact ⟨e.2, hread⟩
    | array items => cases hdata
    | null => cases hdata
    | bool b => cases hdata
    | int n => cases hdata
    | float x => cases hdata
    | str s => cases hdata
  · cases h

/-- What the conversion of `last_activity` leaves. -/
theorem withActivity_spec {state loaded : State I} (h : withActivity I state = some loaded) :
    (∀ k, k ≠ "last_activity" → loaded.get? k = state.get? k) ∧
    (state.get? "last_activity" = none ∧ loaded.get? "last_activity" = none ∨
      ∃ entries, state.get? "last_activity" = some (.dict entries) ∧
        loaded.get? "last_activity" = some (.dict (activities I entries))) := by
  unfold withActivity at h
  split at h
  · next hnone =>
    cases h
    exact ⟨fun _ _ => rfl, Or.inl ⟨hnone, hnone⟩⟩
  · next entries hget =>
    cases h
    exact ⟨fun k hk => Dict.get?_set_ne _ _ hk, Or.inr ⟨entries, hget, Dict.get?_set_self ..⟩⟩
  · cases h

theorem loadSessionState_eq_some {r : Redis F} {state : State I} (h : loadSessionState I r = some state) :
    ∃ data read, r = some data ∧ deserializeState I data = some read ∧ withActivity I read = some state := by
  obtain ⟨read, hread, hstate⟩ := Option.bind_eq_some_iff.mp h
  obtain ⟨data, hdata, hread⟩ := Option.bind_eq_some_iff.mp hread
  exact ⟨data, read, hdata, hread, hstate⟩

/-- The dates of a loaded state. -/
theorem loaded_activity {r : Redis F} {state : State I} (h : loadSessionState I r = some state) {v : Val I}
    (hv : state.get? "last_activity" = some v) :
    ∃ fs : List (String × I.Datetime), (fs.map Prod.fst).Nodup ∧
      v = dictOf I (fs.map fun e => (e.1, .object (.datetime e.2))) := by
  obtain ⟨data, read, rfl, hread, hstate⟩ := loadSessionState_eq_some h
  rcases (withActivity_spec hstate).2 with ⟨-, hnone⟩ | ⟨entries, hentries, hget⟩
  · rw [hnone] at hv
    cases hv
  · obtain ⟨j, hj⟩ := field_of_deserialize hread hentries
    obtain ⟨fs, rfl, hn, -⟩ := dict_of_deserialize hj
    rw [hget, activities_map] at hv
    refine ⟨_, ?_, (Option.some.inj hv).symm⟩
    exact hn.sublist (Dict.keys_filterMap_sublist _ fs)

/-- **What is loaded is read back as it was.** -/
theorem loaded_settled {r : Redis F} {state : State I} (h : loadSessionState I r = some state) {k : String} {v : Val I}
    (hv : state.get? k = some v) : Settled I v := by
  by_cases hk : k = "last_activity"
  · subst hk
    obtain ⟨fs, hn, rfl⟩ := loaded_activity h hv
    exact settled_dates hn
  · obtain ⟨data, read, rfl, hread, hstate⟩ := loadSessionState_eq_some h
    rw [(withActivity_spec hstate).1 k hk] at hv
    obtain ⟨j, hj⟩ := field_of_deserialize hread hv
    exact settled_of_deserialize hj

/-! ### What is loaded after a store -/

/-- The entries of a state, as they are dumped. -/
def writtenFields (I : Interpreter F) (es : List (String × Val I)) : Option (List (String × Json F)) :=
  dumpsEntries I.repr (strDefault I) (serializeEntries I (es.map fun e => (.str e.1, e.2)))

theorem writtenFields_cons {k : String} {v : Val I} {es : List (String × Val I)} {js : List (String × Json F)} :
    writtenFields I ((k, v) :: es) = some js ↔
      ∃ j js', written I v = some j ∧ writtenFields I es = some js' ∧ js = (k, j) :: js' := by
  refine dumpsEntries_cons.trans ?_
  constructor
  · intro h
    obtain ⟨t, j, js', ht, hj, hjs, rfl⟩ := h
    cases ht
    exact ⟨j, js', hj, hjs, rfl⟩
  · intro h
    obtain ⟨j, js', hj, hjs, rfl⟩ := h
    exact ⟨k, j, js', rfl, hj, hjs, rfl⟩

/-- A state can be written when its values can. -/
theorem writtenFields_isSome {es : List (String × Val I)} :
    (∃ js, writtenFields I es = some js) ↔ ∀ e ∈ es, (written I e.2).isSome := by
  induction es with
  | nil => exact iff_of_true ⟨[], rfl⟩ fun e he => absurd he List.not_mem_nil
  | cons e es ih =>
      obtain ⟨k, v⟩ := e
      rw [List.forall_mem_cons, ← ih, Option.isSome_iff_exists]
      constructor
      · intro h
        obtain ⟨js, hjs⟩ := h
        obtain ⟨j, js', hj, hjs', -⟩ := writtenFields_cons.mp hjs
        exact ⟨⟨j, hj⟩, js', hjs'⟩
      · intro h
        obtain ⟨⟨j, hj⟩, js', hjs'⟩ := h
        exact ⟨(k, j) :: js', writtenFields_cons.mpr ⟨j, js', hj, hjs', rfl⟩⟩

theorem keys_writtenFields {es : List (String × Val I)} {js : List (String × Json F)}
    (h : writtenFields I es = some js) : js.map Prod.fst = es.map Prod.fst := by
  induction es generalizing js with
  | nil =>
      cases h
      rfl
  | cons e es ih =>
      obtain ⟨k, v⟩ := e
      obtain ⟨j, js', -, hjs, rfl⟩ := writtenFields_cons.mp h
      rw [List.map_cons, List.map_cons, ih hjs]

/-- The fields of a text are what its values are read back as. -/
theorem deserializeFields_written {es : List (String × Val I)} {js : List (String × Json F)}
    (h : writtenFields I es = some js) :
    ((∃ fs, deserializeFields I (loadsEntries js) = some fs) ↔ ∀ e ∈ es, ∃ v, reread I e.2 = some v) ∧
    ∀ fs, deserializeFields I (loadsEntries js) = some fs → ∀ k, Dict.getList k fs = (Dict.getList k es).bind (reread I) := by
  induction es generalizing js with
  | nil =>
      cases h
      refine ⟨iff_of_true ⟨[], rfl⟩ fun e he => absurd he List.not_mem_nil, fun fs hfs k => ?_⟩
      cases hfs
      rfl
  | cons e es ih =>
      obtain ⟨k, v⟩ := e
      obtain ⟨j, js', hj, hjs, rfl⟩ := writtenFields_cons.mp h
      obtain ⟨hsome, hget⟩ := ih hjs
      have hread : reread I v = deserializeValue I (loads j) := by rw [reread, hj, Option.bind_some]
      rw [loadsEntries, List.forall_mem_cons, hread]
      constructor
      · rw [← hsome]
        constructor
        · intro h
          obtain ⟨fs, hfs⟩ := h
          obtain ⟨w, fs', hw, hfs', -⟩ := deserializeFields_cons.mp hfs
          exact ⟨⟨w, hw⟩, fs', hfs'⟩
        · intro h
          obtain ⟨⟨w, hw⟩, fs', hfs'⟩ := h
          exact ⟨(k, w) :: fs', deserializeFields_cons.mpr ⟨w, fs', hw, hfs', rfl⟩⟩
      · intro fs hfs k'
        obtain ⟨w, fs', hw, hfs', rfl⟩ := deserializeFields_cons.mp hfs
        rw [Dict.getList, Dict.getList]
        by_cases hk : k = k'
        · rw [if_pos hk, if_pos hk, Option.bind_some, hread, hw]
        · rw [if_neg hk, if_neg hk]
          exact hget fs' hfs' k'

/-- A state that was stored is read when its values are read back. -/
theorem deserializeState_stored {state : State I} {data : Json F} (h : serializeState I state = some data) :
    ((∃ read, deserializeState I data = some read) ↔ ∀ e ∈ state.entries, ∃ v, reread I e.2 = some v) ∧
    ∀ read, deserializeState I data = some read → ∀ k, read.get? k = (state.get? k).bind (reread I) := by
  obtain ⟨js, hjs, rfl⟩ := Option.map_eq_some_iff.mp h
  obtain ⟨hsome, hget⟩ := deserializeFields_written hjs
  have hkeys := keys_writtenFields hjs
  have hn : ((loadsEntries js).map Prod.fst).Nodup := by
    rw [keys_loadsEntries, hkeys]
    exact state.nodup
  have hread : deserializeState I (.object js) = (deserializeFields I (loadsEntries js)).map Dict.ofList := by
    rw [deserializeState, loads, Dict.entries_ofList hn]
  rw [hread]
  constructor
  · rw [← hsome]
    constructor
    · intro h
      obtain ⟨read, hread⟩ := h
      obtain ⟨fs, hfs, -⟩ := Option.map_eq_some_iff.mp hread
      exact ⟨fs, hfs⟩
    · intro h
      obtain ⟨fs, hfs⟩ := h
      exact ⟨Dict.ofList fs, Option.map_eq_some_iff.mpr ⟨fs, hfs, rfl⟩⟩
  · intro read hread k
    obtain ⟨fs, hfs, rfl⟩ := Option.map_eq_some_iff.mp hread
    have hfsn : (fs.map Prod.fst).Nodup := keys_deserializeFields hfs ▸ hn
    have hofList : (Dict.ofList fs).get? k = Dict.getList k fs := by
      rw [Dict.get?, Dict.entries_ofList hfsn]
    rw [hofList, hget fs hfs k]
    rfl

/-- The values can be read back, and `last_activity` as a dictionary. -/
def Readable (I : Interpreter F) (es : List (String × Val I)) : Prop :=
  ∀ e ∈ es, ∃ v, reread I e.2 = some v ∧ (e.1 = "last_activity" → ∃ entries, v = .dict entries)

/-- **What is loaded after a store**: nothing, unless the values can be read back. -/
theorem load_stored {state : State I} {data : Json F} (h : serializeState I state = some data) :
    ((∃ loaded, loadSessionState I (some data) = some loaded) ↔ Readable I state.entries) ∧
    ∀ loaded, loadSessionState I (some data) = some loaded →
      (∀ k, k ≠ "last_activity" → loaded.get? k = (state.get? k).bind (reread I)) ∧
      (state.get? "last_activity" = none → loaded.get? "last_activity" = none) ∧
      ∀ v, state.get? "last_activity" = some v → ∃ entries, reread I v = some (.dict entries) ∧
        loaded.get? "last_activity" = some (.dict (activities I entries)) := by
  obtain ⟨hsome, hget⟩ := deserializeState_stored h
  have hload : loadSessionState I (some data) = (deserializeState I data).bind (withActivity I) := rfl
  constructor
  · constructor
    · intro hloaded e he
      obtain ⟨loaded, hloaded⟩ := hloaded
      obtain ⟨read, hread, hstate⟩ := Option.bind_eq_some_iff.mp (hload ▸ hloaded)
      obtain ⟨v, hv⟩ := hsome.mp ⟨read, hread⟩ e he
      refine ⟨v, hv, fun hkey => ?_⟩
      have hfield : state.get? "last_activity" = some e.2 := Dict.mem_entries_iff.mp (hkey ▸ he)
      have hvalue : read.get? "last_activity" = some v := by rw [hget read hread, hfield, Option.bind_some, hv]
      rcases (withActivity_spec hstate).2 with ⟨hnone, -⟩ | ⟨entries, hentries, -⟩
      · rw [hnone] at hvalue
        cases hvalue
      · exact ⟨entries, Option.some.inj (hvalue.symm.trans hentries)⟩
    · intro hreadable
      obtain ⟨read, hread⟩ := hsome.mpr fun e he => (hreadable e he).imp fun _ hv => hv.1
      rw [hload, hread, Option.bind_some]
      unfold withActivity
      cases hactivity : read.get? "last_activity" with
      | none => exact ⟨read, rfl⟩
      | some v =>
          have hvalue := hactivity
          rw [hget read hread] at hvalue
          obtain ⟨w, hw, hwv⟩ := Option.bind_eq_some_iff.mp hvalue
          obtain ⟨v', hv', hdict⟩ := hreadable _ (Dict.mem_entries_iff.mpr hw)
          obtain rfl : v = v' := Option.some.inj (hwv.symm.trans hv')
          obtain ⟨entries, rfl⟩ := hdict rfl
          exact ⟨_, rfl⟩
  · intro loaded hloaded
    obtain ⟨read, hread, hstate⟩ := Option.bind_eq_some_iff.mp (hload ▸ hloaded)
    obtain ⟨hothers, hactivity⟩ := withActivity_spec hstate
    have hfields := hget read hread
    refine ⟨fun k hk => (hothers k hk).trans (hfields k), fun hnone => ?_, fun v hv => ?_⟩
    · rcases hactivity with ⟨-, habsent⟩ | ⟨entries, hentries, -⟩
      · exact habsent
      · rw [hfields, hnone] at hentries
        cases hentries
    · rcases hactivity with ⟨habsent, -⟩ | ⟨entries, hentries, hloaded⟩
      · -- then the value was not read back
        have hvalue := hsome.mp ⟨read, hread⟩ _ (Dict.mem_entries_iff.mpr hv)
        obtain ⟨w, hw⟩ := hvalue
        rw [hfields, hv, Option.bind_some, hw] at habsent
        cases habsent
      · rw [hfields, hv, Option.bind_some] at hentries
        exact ⟨entries, hentries, hloaded⟩

/-! ### Partial updates -/

theorem get?_merged (state updates : State I) (now k : String) :
    (merged I state updates now).get? k =
      if k = "updated_at" then some (.str now) else (updates.get? k).or (state.get? k) := by
  rw [merged, Dict.get?_set, Dict.get?_setAll _ updates.nodup]
  rfl

/-- What holds of every field of the merged state. -/
theorem forall_merged (P : String × Val I → Prop) (state updates : State I) (now : String) :
    (∀ e ∈ (merged I state updates now).entries, P e) ↔
      P ("updated_at", .str now) ∧ (∀ e ∈ updates.entries, e.1 ≠ "updated_at" → P e) ∧
        ∀ e ∈ state.entries, e.1 ∉ updates.keys → e.1 ≠ "updated_at" → P e := by
  constructor
  · intro h
    refine ⟨h _ ?_, fun e he hne => h e ?_, fun e he hnew hne => h e ?_⟩
    · rw [Dict.mem_entries_iff, get?_merged, if_pos rfl]
    · rw [Dict.mem_entries_iff, get?_merged, if_neg hne, Dict.mem_entries_iff.mp he, Option.some_or]
    · rw [Dict.mem_entries_iff, get?_merged, if_neg hne, Dict.get?_eq_none_iff.mpr hnew, Option.none_or]
      exact Dict.mem_entries_iff.mp he
  · intro h e he
    obtain ⟨hnow, hnew, hold⟩ := h
    obtain ⟨k, v⟩ := e
    rw [Dict.mem_entries_iff, get?_merged] at he
    split at he
    · next hk =>
      subst hk
      cases he
      exact hnow
    · next hk =>
      cases hup : updates.get? k with
      | some w =>
          rw [hup, Option.some_or] at he
          cases he
          exact hnew _ (Dict.mem_entries_iff.mpr hup) hk
      | none =>
          rw [hup, Option.none_or] at he
          exact hold _ (Dict.mem_entries_iff.mpr he) (Dict.get?_eq_none_iff.mp hup) hk

theorem settled_str (s : String) : Settled I (.str s) := ⟨.str s, rfl, rfl, rfl⟩

/-- The merged state can be written when the new values can. -/
theorem serialize_merged {r : Redis F} {state : State I} (h : loadSessionState I r = some state) (updates : State I)
    (now : String) : (∃ data, serializeState I (merged I state updates now) = some data) ↔ Writable I updates := by
  have hwritten : (∃ data, serializeState I (merged I state updates now) = some data) ↔
      ∃ js, writtenFields I (merged I state updates now).entries = some js := by
    constructor
    · intro h
      obtain ⟨data, hdata⟩ := h
      obtain ⟨js, hjs, -⟩ := Option.map_eq_some_iff.mp hdata
      exact ⟨js, hjs⟩
    · intro h
      obtain ⟨js, hjs⟩ := h
      exact ⟨.object js, Option.map_eq_some_iff.mpr ⟨js, hjs, rfl⟩⟩
  rw [hwritten, writtenFields_isSome, forall_merged]
  constructor
  · exact fun h => h.2.1
  · intro hnew
    refine ⟨rfl, hnew, fun e he _ _ => ?_⟩
    obtain ⟨j, hj, -⟩ := loaded_settled h (Dict.mem_entries_iff.mp he)
    exact Option.isSome_iff_exists.mpr ⟨j, hj⟩

/-- The merged state can be read back when the new values can. -/
theorem readable_merged {r : Redis F} {state : State I} (h : loadSessionState I r = some state) (updates : State I)
    (now : String) : Readable I (merged I state updates now).entries ↔ Reloads I updates := by
  refine (forall_merged _ state updates now).trans ?_
  constructor
  · exact fun h => h.2.1
  · intro hnew
    have hother : "updated_at" ≠ "last_activity" := by decide
    refine ⟨⟨_, (settled_str now).reread, fun hk => absurd hk hother⟩, hnew, fun e he _ _ => ?_⟩
    have hget := Dict.mem_entries_iff.mp he
    refine ⟨_, (loaded_settled h hget).reread, fun hk => ?_⟩
    obtain ⟨fs, -, hfs⟩ := loaded_activity h (hk ▸ hget)
    exact ⟨_, hfs⟩

/-- Dates are no texts, so none is left. -/
theorem activities_dates (fs : List (String × I.Datetime)) :
    activities I ((fs.map fun e => (e.1, (.object (.datetime e.2) : Val I))).map fun e => (.str e.1, e.2)) = [] := by
  induction fs with
  | nil => rfl
  | cons e fs ih => exact ih

/-- What an update stores. -/
theorem applyUpdate_eq {r : Redis F} {u : Update I} {state updates : State I}
    (hload : loadSessionState I r = some state) (hfields : u.fieldsFor I state = some updates) (now : String) :
    applyUpdate I r u now =
      match serializeState I (merged I state updates now) with
      | none => r
      | some data => some data := by
  simp only [applyUpdate, hload, hfields, updateSessionState]
  cases serializeState I (merged I state updates now) with
  | none => rfl
  | some data => rfl

/-- A field that an update does not name. -/
theorem get?_merged_of_not_mem {state updates : State I} (now : String) {k : String} (hk : k ∉ updates.keys)
    (hne : k ≠ "updated_at") : (merged I state updates now).get? k = state.get? k := by
  rw [get?_merged, if_neg hne, Dict.get?_eq_none_iff.mpr hk, Option.none_or]

/-- The activity that an update does not name is empty afterwards. -/
theorem activity_loaded {r : Redis F} {state updates loaded : State I} {now : String} {data : Json F}
    (hload : loadSessionState I r = some state) (hdata : serializeState I (merged I state updates now) = some data)
    (hloaded : loadSessionState I (some data) = some loaded) (hnew : "last_activity" ∉ updates.keys) {v : Val I}
    (hv : state.get? "last_activity" = some v) : loaded.get? "last_activity" = some (dictOf I []) := by
  obtain ⟨fs, -, rfl⟩ := loaded_activity hload hv
  obtain ⟨-, -, hactivity⟩ := (load_stored hdata).2 loaded hloaded
  obtain ⟨entries, hread, hget⟩ := hactivity _ ((get?_merged_of_not_mem now hnew (by decide)).trans hv)
  rw [(loaded_settled hload hv).reread] at hread
  cases hread
  rw [hget, activities_dates]
  rfl

/-- An update that can be read back keeps the other fields if it loses no activity. -/
theorem kept_of_loaded {r : Redis F} {state updates loaded : State I} {now : String} {data : Json F}
    (hload : loadSessionState I r = some state) (hdata : serializeState I (merged I state updates now) = some data)
    (hloaded : loadSessionState I (some data) = some loaded) :
    (∀ k, k ∉ updates.keys → k ≠ "updated_at" → loaded.get? k = state.get? k) ↔
      ("last_activity" ∈ updates.keys ∨
        ∀ entries, state.get? "last_activity" = some (.dict entries) → entries = []) := by
  obtain ⟨hothers, hnone, -⟩ := (load_stored hdata).2 loaded hloaded
  constructor
  · intro hkept
    refine or_iff_not_imp_left.mpr fun hnew entries hentries => ?_
    have hsame := hkept "last_activity" hnew (by decide)
    rw [activity_loaded hload hdata hloaded hnew hentries, hentries] at hsame
    exact (PyValue.dict.inj (Option.some.inj hsame)).symm
  · intro hlost k hk hne
    have hold : (merged I state updates now).get? k = state.get? k := get?_merged_of_not_mem now hk hne
    by_cases hkey : k = "last_activity"
    · subst hkey
      cases hget : state.get? "last_activity" with
      | none => exact hnone (hold.trans hget)
      | some v =>
          obtain ⟨fs, -, rfl⟩ := loaded_activity hload hget
          rw [activity_loaded hload hdata hloaded hk hget, dictOf, dictOf, (hlost.resolve_left hk) _ hget]
          rfl
    · rw [hothers k hkey, hold]
      cases hget : state.get? k with
      | none => rfl
      | some v => exact (loaded_settled hload hget).reread

/-- **A partial update keeps the fields it does not name**, exactly when it is harmless. -/
theorem kept_iff (r : Redis F) (call : Call I) : Kept I r call ↔ Harmless I r call := by
  cases call with
  | save args now => exact Iff.rfl
  | update u now =>
      refine forall_congr' fun state => forall_congr' fun updates => imp_congr_right fun hload =>
        imp_congr_right fun hfields => ?_
      have happly := applyUpdate_eq hload hfields now
      cases hdata : serializeState I (merged I state updates now) with
      | none =>
          -- an error leaves the state
          rw [hdata] at happly
          refine iff_of_true (fun k _ _ => ?_) fun hwritable => ?_
          · rw [happly, hload, Option.bind_some]
          · obtain ⟨data, hsome⟩ := (serialize_merged hload updates now).mpr hwritable
            rw [hdata] at hsome
            cases hsome
      | some data =>
          rw [hdata] at happly
          have hwritable : Writable I updates := (serialize_merged hload updates now).mp ⟨data, hdata⟩
          have hsome := (load_stored hdata).1
          rw [readable_merged hload] at hsome
          rw [happly, imp_iff_right hwritable]
          by_cases hreloads : Reloads I updates
          · obtain ⟨loaded, hloaded⟩ := hsome.mpr hreloads
            simp only [hloaded, Option.bind_some]
            exact (kept_of_loaded hload hdata hloaded).trans (and_iff_right (Or.inl hreloads)).symm
          · -- nothing can be loaded any more
            have hgone : loadSessionState I (some data) = none := by
              rw [Option.eq_none_iff_forall_ne_some]
              exact fun loaded hloaded => hreloads (hsome.mp ⟨loaded, hloaded⟩)
            simp only [hgone, Option.bind_none]
            constructor
            · intro hkept
              constructor
              · refine Or.inr fun k hk => ?_
                by_contra hnamed
                rw [not_or] at hnamed
                exact Dict.get?_eq_none_iff.mp (hkept k hnamed.1 hnamed.2).symm hk
              · refine or_iff_not_imp_left.mpr fun hnew entries hentries => ?_
                have hlost := hkept "last_activity" hnew (by decide)
                rw [hentries] at hlost
                cases hlost
            · intro h k hk hne
              refine (Dict.get?_eq_none_iff.mpr fun hmem => ?_).symm
              rcases (h.1.resolve_left hreloads) k hmem with hnamed | hnow
              · exact hk hnamed
              · exact hne hnow

/-- Writing under a text. -/
theorem setStr_map (k : String) (v : Val I) (fs : List (String × Val I)) :
    setStr k v (fs.map fun e => ((.str e.1 : Key F), e.2)) = (Dict.setList k v fs).map fun e => (.str e.1, e.2) := by
  induction fs with
  | nil => rfl
  | cons e fs ih =>
      rw [List.map_cons, setStr, Dict.setList]
      split
      · rfl
      · rw [ih, List.map_cons]

/-- Settled values can be written and read back. -/
theorem load_merged {r : Redis F} {state : State I} (hload : loadSessionState I r = some state) (updates : State I)
    (now : String) (hsettled : ∀ e ∈ updates.entries, Settled I e.2)
    (hdict : ∀ v, updates.get? "last_activity" = some v → ∃ entries, v = .dict entries) :
    ∃ data loaded, serializeState I (merged I state updates now) = some data ∧
      loadSessionState I (some data) = some loaded := by
  have hwritable : Writable I updates := by
    intro e he _
    obtain ⟨j, hj, -⟩ := hsettled e he
    exact Option.isSome_iff_exists.mpr ⟨j, hj⟩
  have hreloads : Reloads I updates := by
    intro e he _
    exact ⟨_, (hsettled e he).reread, fun hk => hdict _ (Dict.mem_entries_iff.mp (hk ▸ he))⟩
  obtain ⟨data, hdata⟩ := (serialize_merged hload updates now).mpr hwritable
  obtain ⟨loaded, hloaded⟩ := (load_stored hdata).1.mpr ((readable_merged hload updates now).mpr hreloads)
  exact ⟨data, loaded, hdata, hloaded⟩

/-- **After an update of the activity of a thread there is none**, not even its own. -/
theorem activity_forgotten {r : Redis F} {state : State I} (hload : loadSessionState I r = some state)
    (threadKey now : String) (d : I.Datetime) :
    ∃ loaded, loadSessionState I (applyUpdate I r (.threadActivity threadKey d) now) = some loaded ∧
      loaded.get? "last_activity" = some (.dict []) := by
  -- the dates there are, and the new one
  have hdates : ∃ fs : List (String × I.Datetime), (fs.map Prod.fst).Nodup ∧
      entriesOf I state "last_activity" =
        some ((fs.map fun e => (e.1, (.object (.datetime e.2) : Val I))).map fun e => (.str e.1, e.2)) := by
    unfold entriesOf
    cases hget : state.get? "last_activity" with
    | none => exact ⟨[], List.nodup_nil, rfl⟩
    | some v =>
        obtain ⟨fs, hn, rfl⟩ := loaded_activity hload hget
        exact ⟨fs, hn, rfl⟩
  obtain ⟨fs, hn, hentries⟩ := hdates
  have hset := Dict.setList_map_values (fun d => (.object (.datetime d) : Val I)) threadKey d fs
  have hfields : (Update.threadActivity threadKey d).fieldsFor I state =
      some (Dict.ofList [("last_activity", dictOf I ((Dict.setList threadKey d fs).map fun e =>
        (e.1, .object (.datetime e.2))))]) := by
    rw [Update.fieldsFor, hentries, Option.map_some, setStr_map, hset, dictOf]
  have hsettled : Settled I (dictOf I ((Dict.setList threadKey d fs).map fun e => (e.1, .object (.datetime e.2)))) :=
    settled_dates (Dict.nodup_setList threadKey d fs hn)
  have hone : ∀ e ∈ (Dict.ofList [("last_activity", dictOf I ((Dict.setList threadKey d fs).map fun e =>
      (e.1, .object (.datetime e.2))))]).entries, Settled I e.2 := by
    intro e he
    obtain rfl := List.mem_singleton.mp he
    exact hsettled
  obtain ⟨data, loaded, hdata, hloaded⟩ :=
    load_merged hload _ now hone fun v hv => ⟨_, (Option.some.inj hv).symm⟩
  obtain ⟨-, -, hactivity⟩ := (load_stored hdata).2 loaded hloaded
  have hmerged := get?_merged state (Dict.ofList [("last_activity", dictOf I ((Dict.setList threadKey d fs).map fun e =>
    (e.1, .object (.datetime e.2))))]) now "last_activity"
  rw [if_neg (by decide)] at hmerged
  obtain ⟨entries, hread, hget⟩ := hactivity _ hmerged
  rw [hsettled.reread] at hread
  cases hread
  rw [activities_dates] at hget
  exact ⟨loaded, by rw [applyUpdate_eq hload hfields, hdata, hloaded], hget⟩

end Loaded

/-- **Partial updates keep the other fields**, in a sequence of calls, exactly when every update is harmless. -/
theorem updates_keep_iff (r : Redis F) (calls : List (Call I)) :
    (∀ pre call, pre ++ [call] <+: calls → Kept I (run (step I) r pre) call) ↔
      Guarded (step I) (Harmless I) r calls := by
  rw [guarded_iff_at_prefixes]
  exact forall_congr' fun pre => forall_congr' fun call => imp_congr_right fun _ => kept_iff _ call

/-! ### Activity that is lost -/

/-- An interpreter with one date, and without floats and sets. -/
def oneDate : Interpreter Empty where
  repr := Empty.elim
  Datetime := Unit
  isoformat _ := "2026-02-04T10:00:00+00:00"
  fromisoformat s := if s = "2026-02-04T10:00:00+00:00" then some () else none
  strDatetime _ := "2026-02-04 10:00:00+00:00"
  fromisoformat_isoformat _ := if_pos rfl
  PySet := Empty
  ofItems _ := none
  items := Empty.elim
  strSet := Empty.elim
  ofItems_items s := s.elim
  loads_items s := s.elim

/-- A session with the activity of one thread. -/
def oneThread : SaveArgs oneDate where
  userContext := none
  jobsData := none
  jobsMetrics := none
  isOnChatPage := true
  currentActiveThread := some "t"
  threadStates := none
  activeTasks := none
  lastActivity := [("t", .inl ())]
  threadContexts := none
  activeThreads := none

/-- An update that does not name `last_activity`. -/
def leave : Update oneDate := .fields (Dict.ofList [("is_on_chat_page", .bool false)])

/-- **The activity of a thread is lost** in an update of another field. -/
theorem activity_lost :
    let r := step oneDate none (.save oneThread "")
    ((loadSessionState oneDate r).bind fun loaded => loaded.get? "last_activity") =
        some (.dict [(.str "t", .object (.datetime ()))]) ∧
      ((loadSessionState oneDate (step oneDate r (.update leave ""))).bind fun loaded =>
        loaded.get? "last_activity") = some (.dict []) ∧
      ¬∀ calls pre call, pre ++ [call] <+: calls → Kept oneDate (run (step oneDate) none pre) call := by
  refine ⟨rfl, rfl, fun h => ?_⟩
  have hkept := h [.save oneThread "", .update leave ""] [.save oneThread ""] (.update leave "") (List.prefix_refl _)
  have hlost := hkept _ _ rfl rfl "last_activity" (by decide) (by decide)
  cases hlost

end Pinnokio.Sessions.SessionState
