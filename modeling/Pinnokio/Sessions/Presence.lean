import Pinnokio.Lib.Interleaving
import Pinnokio.Sessions.SessionState

/-!
# Tabs that come and go

`update_presence_multi_tab` and `remove_tab_presence` load the session, edit the threads of its tabs, and pass them to
`update_session_state`, which loads the session once more and stores it.  Any number of calls run side by side, one
Redis command at a time.

* `step_cases` — everything a command can do;
* `fresh_step` — the invariant: the tabs of the calls that have finished are as they left them, and what a call has read
  is what is stored;
* `doomed_step` — the trap: fewer tabs are as their calls left them than calls have finished, now or once a call that is
  under way writes;
* `tabs_kept` — **all tabs are as their calls left them** when no call stores the session while another one is between
  its first read and its write; and, if every call changes its tab, only then.
-/

namespace Pinnokio.Sessions.SessionState

open Pinnokio.PyJson Pinnokio.Interleaving

variable {F : Type} (I : Interpreter F)

/-! ### The calls -/

/-- A call for a tab: the thread that it enters, or none if the tab is removed; and the time at its write. -/
structure Edit where
  sessionId : String
  threadKey : Option String
  now : String

namespace Edit

/-- As an update of the session. -/
def update (e : Edit) : Update I :=
  match e.threadKey with
  | some threadKey => .presence e.sessionId threadKey
  | none => .removeTab e.sessionId

/-- The tab is as the call leaves it. -/
def Done (e : Edit) (tabs : List (Key F × Val I)) : Prop :=
  match e.threadKey with
  | some threadKey => getStr e.sessionId tabs = some (.str threadKey)
  | none => getStr e.sessionId tabs = none

/-- The tab does not make the tabs look like a tagged date or set. -/
def Plain (e : Edit) : Prop :=
  e.sessionId = "__type__" → ∀ threadKey, e.threadKey = some threadKey → threadKey ≠ "datetime" ∧ threadKey ≠ "set"

end Edit

/-- Local state of a call. -/
inductive Pc where
  | first (e : Edit)
  | second (e : Edit) (updates : State I)
  | write (e : Edit) (serialized : Json F)
  | done (e : Edit) (success : Bool)

variable {I}

namespace Pc

/-- The tab of a call. -/
def edit : Pc I → Edit
  | first e => e
  | second e _ => e
  | write e _ => e
  | done e _ => e

/-- The call is between its first read and its write. -/
def reading : Pc I → Bool
  | second _ _ => true
  | write _ _ => true
  | _ => false

/-- The call has returned. -/
def isDone : Pc I → Bool
  | done _ _ => true
  | _ => false

end Pc

variable (I)

/-- The next Redis command of a call. -/
def next (r : Redis F) : Pc I → Option (Redis F × Pc I)
  | .first e =>
      match loadSessionState I r with
      -- a session that is gone has no tab to remove
      | none => some (r, .done e e.threadKey.isNone)
      | some state =>
          match (e.update I).fieldsFor I state with
          | none => some (r, .done e false)
          | some updates => some (r, .second e updates)
  | .second e updates =>
      match loadSessionState I r with
      | none => some (r, .done e false)
      | some state =>
          match serializeState I (merged I state updates e.now) with
          | none => some (r, .done e false)
          | some serialized => some (r, .write e serialized)
  | .write e serialized => some (some serialized, .done e true)
  | .done _ _ => none

/-- The pool before any command. -/
def start (r : Redis F) (edits : List Edit) : Pool (Redis F) (Pc I) := ⟨r, edits.map .first⟩

/-- The session is there, and its tabs are a dictionary (or there are none yet). -/
def Tabbed (r : Redis F) : Prop :=
  ∃ state tabs, loadSessionState I r = some state ∧ entriesOf I state "active_threads_by_session" = some tabs

/-- The tab is not yet as the call leaves it. -/
def Edit.Changes (e : Edit) (r : Redis F) : Prop :=
  ∀ state tabs, loadSessionState I r = some state → entriesOf I state "active_threads_by_session" = some tabs →
    ¬e.Done I tabs

/-- Every tab is as its call left it. -/
def TabsKept (p : Pool (Redis F) (Pc I)) : Prop :=
  ∃ state tabs, loadSessionState I p.shared = some state ∧
    entriesOf I state "active_threads_by_session" = some tabs ∧ ∀ l ∈ p.threads, l.edit.Done I tabs

variable {I}

/-- A call stores the session only while no other one is between its first read and its write (and its tab does not make
the tabs look like a tagged date or set). -/
def undisturbed (p : Pool (Redis F) (Pc I)) (i : ℕ) : Prop :=
  match p.threads[i]? with
  | some (.write e _) => e.Plain ∧ ∀ j l, j ≠ i → p.threads[j]? = some l → l.reading = false
  | _ => True

/-! ### The threads of the tabs -/

/-- The tabs with their threads, as a dictionary that can be stored. -/
structure Tabs (fs : List (String × Val I)) : Prop where
  nodup : (fs.map Prod.fst).Nodup
  untagged : Untagged fs
  settled : ∀ e ∈ fs, Settled I e.2

/-- The tabs after a call. -/
def Edit.on (e : Edit) (fs : List (String × Val I)) : List (String × Val I) :=
  match e.threadKey with
  | some threadKey => Dict.setList e.sessionId (.str threadKey) fs
  | none => fs.filter fun f => f.1 ≠ e.sessionId

/-- The fields that a call passes on. -/
def Edit.fields (e : Edit) (fs : List (String × Val I)) : State I :=
  match e.threadKey with
  | some threadKey =>
      Dict.ofList [("active_threads_by_session", dictOf I (e.on fs)), ("is_on_chat_page", .bool true),
        ("current_active_thread", .str threadKey)]
  | none =>
      if (e.on fs).isEmpty then
        Dict.ofList [("active_threads_by_session", dictOf I (e.on fs)), ("is_on_chat_page", .bool false),
          ("current_active_thread", .none)]
      else Dict.ofList [("active_threads_by_session", dictOf I (e.on fs)), ("is_on_chat_page", .bool true)]

/-- The session has these tabs. -/
def HasTabs (r : Redis F) (fs : List (String × Val I)) : Prop :=
  Tabs fs ∧ ∃ state, loadSessionState I r = some state ∧
    entriesOf I state "active_threads_by_session" = some (fs.map fun e => (.str e.1, e.2))

/-- A thread that is the one of a text. -/
def isText (s : String) : Val I → Bool
  | .str t => t = s
  | _ => false

/-- The tab is as the call leaves it. -/
def Edit.sat (fs : List (String × Val I)) (e : Edit) : Bool :=
  match e.threadKey with
  | some threadKey => (Dict.getList e.sessionId fs).any (isText threadKey)
  | none => (Dict.getList e.sessionId fs).isNone

section Tabs

variable {fs : List (String × Val I)} {e e' : Edit}

theorem getStr_map (k : String) (fs : List (String × Val I)) :
    getStr k (fs.map fun e => ((.str e.1 : Key F), e.2)) = Dict.getList k fs := by
  induction fs with
  | nil => rfl
  | cons f fs ih =>
      rw [List.map_cons, getStr, Dict.getList, ih]

theorem isText_iff {s : String} {v : Val I} : isText s v = true ↔ v = .str s := by
  cases v <;> simp [isText]

theorem sat_iff : e.sat fs = true ↔ e.Done I (fs.map fun e => (.str e.1, e.2)) := by
  unfold Edit.sat Edit.Done
  rw [getStr_map]
  cases e.threadKey with
  | none => exact Option.isNone_iff_eq_none
  | some threadKey =>
      dsimp only
      cases Dict.getList e.sessionId fs with
      | none => simp
      | some v => simp [isText_iff]

theorem getList_filter_ne (k k' : String) (fs : List (String × Val I)) :
    Dict.getList k (fs.filter fun f => f.1 ≠ k') = if k = k' then none else Dict.getList k fs := by
  induction fs with
  | nil => simp [Dict.getList]
  | cons f fs ih =>
      rw [List.filter_cons]
      by_cases hf : f.1 = k'
      · rw [if_neg (by simpa using hf), ih]
        by_cases hk : k = k'
        · rw [if_pos hk, if_pos hk]
        · rw [if_neg hk, if_neg hk, Dict.getList, if_neg fun h => hk (h.symm.trans hf)]
      · rw [if_pos (by simpa using hf), Dict.getList, Dict.getList, ih]
        by_cases hk : k = k'
        · rw [if_pos hk, if_pos hk, if_neg fun h => hf (h.trans hk)]
        · rw [if_neg hk, if_neg hk]

/-- What a call makes of the thread of a tab. -/
theorem getList_on (e : Edit) (fs : List (String × Val I)) (k : String) :
    Dict.getList k (e.on fs) = if k = e.sessionId then e.threadKey.map .str else Dict.getList k fs := by
  unfold Edit.on
  cases e.threadKey with
  | none => exact getList_filter_ne k e.sessionId fs
  | some threadKey => exact Dict.getList_setList e.sessionId k (.str threadKey) fs

/-- The call leaves its own tab as it should be. -/
theorem sat_on_self (e : Edit) (fs : List (String × Val I)) : e.sat (e.on fs) = true := by
  rw [Edit.sat, getList_on, if_pos rfl]
  cases e.threadKey with
  | none => rfl
  | some threadKey => exact (isText_iff (I := I)).mpr rfl

/-- And every other one alone. -/
theorem sat_on_ne (h : e'.sessionId ≠ e.sessionId) : e'.sat (e.on fs) = e'.sat fs := by
  rw [Edit.sat, Edit.sat, getList_on, if_neg h]

theorem settled_on (e : Edit) (h : ∀ f ∈ fs, Settled I f.2) : ∀ f ∈ e.on fs, Settled I f.2 := by
  intro f hf
  unfold Edit.on at hf
  split at hf
  · rcases Dict.mem_setList hf with rfl | hf
    · exact settled_str _
    · exact h f hf
  · exact h f (List.mem_filter.mp hf).1

theorem Tabs.on (h : Tabs fs) (he : e.Plain) : Tabs (e.on fs) := by
  refine ⟨?_, fun type htype => ?_, settled_on e h.settled⟩
  · unfold Edit.on
    split
    · exact Dict.nodup_setList _ _ _ h.nodup
    · exact h.nodup.sublist (List.filter_sublist.map Prod.fst)
  · rw [getList_on] at htype
    split at htype
    · next hk =>
      obtain ⟨threadKey, hthread, heq⟩ := Option.map_eq_some_iff.mp htype
      cases heq
      exact he hk.symm _ hthread
    · exact h.untagged type htype

/-! ### What a call reads and writes -/

theorem entriesOf_dictOf {state : State I} {k : String} (h : state.get? k = some (dictOf I fs)) :
    entriesOf I state k = some (fs.map fun e => (.str e.1, e.2)) := by
  rw [entriesOf, h]
  rfl

theorem tabs_nil : Tabs ([] : List (String × Val I)) where
  nodup := List.nodup_nil
  untagged := by
    intro type htype
    cases htype
  settled := fun e he => absurd he List.not_mem_nil

/-- A loaded session whose tabs are a dictionary. -/
theorem hasTabs_of_load {r : Redis F} {state : State I} {tabs : List (Key F × Val I)}
    (hload : loadSessionState I r = some state)
    (htabs : entriesOf I state "active_threads_by_session" = some tabs) :
    ∃ fs, tabs = fs.map (fun e => (.str e.1, e.2)) ∧ HasTabs r fs := by
  unfold entriesOf at htabs
  split at htabs
  · next hget =>
    cases htabs
    refine ⟨[], rfl, tabs_nil, state, hload, ?_⟩
    rw [entriesOf, hget]
    rfl
  · next entries hget =>
    cases htabs
    obtain ⟨data, read, rfl, hread, hstate⟩ := loadSessionState_eq_some hload
    have hfield : read.get? "active_threads_by_session" = some (.dict tabs) := by
      rw [← (withActivity_spec hstate).1 _ (by decide), hget]
    obtain ⟨j, hj⟩ := field_of_deserialize hread hfield
    obtain ⟨fs, rfl, hn, htag, hsettled⟩ := dict_of_deserialize hj
    refine ⟨fs, rfl, ⟨hn, htag, hsettled⟩, state, hload, ?_⟩
    rw [entriesOf, hget]
  · cases htabs

theorem HasTabs.unique {r : Redis F} {fs' : List (String × Val I)} (h : HasTabs r fs) (h' : HasTabs r fs') :
    fs = fs' := by
  obtain ⟨-, state, hload, htabs⟩ := h
  obtain ⟨-, state', hload', htabs'⟩ := h'
  rw [hload] at hload'
  cases hload'
  have hmap := Option.some.inj (htabs.symm.trans htabs')
  refine List.map_injective_iff.mpr (fun a b hab => ?_) hmap
  obtain ⟨hk, hv⟩ := Prod.mk.inj hab
  exact Prod.ext (Key.str.inj hk) hv

theorem eraseStr_map (k : String) (fs : List (String × Val I)) :
    eraseStr k (fs.map fun e => ((.str e.1 : Key F), e.2)) =
      (fs.filter fun f => f.1 ≠ k).map fun e => (.str e.1, e.2) := by
  induction fs with
  | nil => rfl
  | cons f fs ih =>
      rw [eraseStr] at ih ⊢
      rw [List.map_cons, List.filter_cons, List.filter_cons, ih]
      by_cases hf : f.1 = k
      · simp [Key.isStr, hf]
      · simp [Key.isStr, hf]

/-- The fields a call passes on, with the tabs it has read. -/
theorem fieldsFor_update {state : State I}
    (h : entriesOf I state "active_threads_by_session" = some (fs.map fun e => (.str e.1, e.2))) (e : Edit) :
    (e.update I).fieldsFor I state = some (e.fields fs) := by
  unfold Edit.update Edit.fields Edit.on
  cases e.threadKey with
  | some threadKey =>
      dsimp only
      rw [Update.fieldsFor, h, Option.map_some, setStr_map, dictOf]
  | none =>
      dsimp only
      rw [Update.fieldsFor, h, Option.map_some, eraseStr_map, dictOf]
      simp only [List.isEmpty_map]

/-- The value a call passes on for the tabs. -/
theorem get?_fields (e : Edit) (fs : List (String × Val I)) :
    (e.fields fs).get? "active_threads_by_session" = some (dictOf I (e.on fs)) := by
  unfold Edit.fields
  cases e.threadKey with
  | some threadKey => rfl
  | none =>
      dsimp only
      split <;> rfl

/-- What holds of every field that a call passes on. -/
theorem forall_fields {P : Val I → Prop} (e : Edit) (fs : List (String × Val I)) (htabs : P (dictOf I (e.on fs)))
    (hbool : ∀ b, P (.bool b)) (hnone : P .none) (hstr : ∀ s, P (.str s)) : ∀ f ∈ (e.fields fs).entries, P f.2 := by
  intro f hf
  unfold Edit.fields at hf
  cases hthread : e.threadKey with
  | some threadKey =>
      rw [hthread] at hf
      have hmem := Dict.mem_of_mem_ofList hf
      simp only [List.mem_cons, List.not_mem_nil, or_false] at hmem
      rcases hmem with rfl | rfl | rfl
      · exact htabs
      · exact hbool true
      · exact hstr threadKey
  | none =>
      rw [hthread] at hf
      dsimp only at hf
      split at hf
      · have hmem := Dict.mem_of_mem_ofList hf
        simp only [List.mem_cons, List.not_mem_nil, or_false] at hmem
        rcases hmem with rfl | rfl | rfl
        · exact htabs
        · exact hbool false
        · exact hnone
      · have hmem := Dict.mem_of_mem_ofList hf
        simp only [List.mem_cons, List.not_mem_nil, or_false] at hmem
        rcases hmem with rfl | rfl
        · exact htabs
        · exact hbool true

/-- A call passes on no activity. -/
theorem get?_fields_activity (e : Edit) (fs : List (String × Val I)) : (e.fields fs).get? "last_activity" = none := by
  unfold Edit.fields
  cases e.threadKey with
  | some threadKey => rfl
  | none =>
      dsimp only
      split <;> rfl

/-- **What a call stores**: its edit of the tabs it has read, whatever the session is by then. -/
theorem serialize_fields {r : Redis F} {state : State I} (hload : loadSessionState I r = some state) (e : Edit)
    (h : Tabs fs) : ∃ data, serializeState I (merged I state (e.fields fs) e.now) = some data ∧
      (e.Plain → HasTabs (some data) (e.on fs)) := by
  have hwritten : (written I (dictOf I (e.on fs))).isSome := by
    obtain ⟨js, hjs⟩ := writtenFields_isSome.mpr fun f hf => by
      obtain ⟨j, hj, -⟩ := settled_on e h.settled f hf
      exact Option.isSome_iff_exists.mpr ⟨j, hj⟩
    exact Option.isSome_iff_exists.mpr ⟨.object js, Option.map_eq_some_iff.mpr ⟨js, hjs, rfl⟩⟩
  have hwritable : Writable I (e.fields fs) := fun f hf _ =>
    forall_fields (P := fun v => (written I v).isSome) e fs hwritten (fun _ => rfl) rfl (fun _ => rfl) f hf
  obtain ⟨data, hdata⟩ := (serialize_merged hload (e.fields fs) e.now).mpr hwritable
  refine ⟨data, hdata, fun he => ⟨h.on he, ?_⟩⟩
  have hon := h.on he
  have hsettled : Settled I (dictOf I (e.on fs)) := settled_dict hon.nodup hon.settled hon.untagged
  have hfields := forall_fields (P := Settled I) e fs hsettled (fun b => ⟨.bool b, rfl, rfl, rfl⟩)
    ⟨.null, rfl, rfl, rfl⟩ settled_str
  have hactivity : ∀ v, (e.fields fs).get? "last_activity" = some v → ∃ entries, v = .dict entries := by
    intro v hv
    rw [get?_fields_activity] at hv
    cases hv
  obtain ⟨data', loaded, hdata', hloaded⟩ := load_merged hload (e.fields fs) e.now hfields hactivity
  obtain rfl : data = data' := Option.some.inj (hdata.symm.trans hdata')
  refine ⟨loaded, hloaded, entriesOf_dictOf ?_⟩
  rw [((load_stored hdata).2 loaded hloaded).1 _ (by decide), get?_merged, if_neg (by decide), get?_fields,
    Option.some_or, Option.bind_some, hsettled.reread]

end Tabs

/-! ### One command -/

section Steps

variable {p q : Pool (Redis F) (Pc I)} {i : ℕ} {fs : List (String × Val I)} {e : Edit}

/-- A call that has read the tabs. -/
def HasRead (fs : List (String × Val I)) : Pc I → Prop
  | .second e updates => updates = e.fields fs ∧ Tabs fs
  | .write e serialized => e.Plain → HasTabs (some serialized) (e.on fs)
  | _ => False

/-- **Everything a command can do**, in a session that has tabs: read them, read the rest, or write. -/
theorem step_cases (hp : HasTabs p.shared fs)
    (hread : ∀ e updates, Pc.second e updates ∈ p.threads → ∃ f, HasRead f (.second e updates))
    (h : p.stepAt (next I) i = some q) :
    (∃ e updates, p.threads[i]? = some (.first e) ∧ HasRead fs (.second e updates) ∧
      q = ⟨p.shared, p.threads.set i (.second e updates)⟩) ∨
    (∃ e updates serialized, p.threads[i]? = some (.second e updates) ∧
      (∀ f, HasRead f (.second e updates) → HasRead f (.write e serialized)) ∧
      q = ⟨p.shared, p.threads.set i (.write e serialized)⟩) ∨
    ∃ e serialized, p.threads[i]? = some (.write e serialized) ∧
      q = ⟨some serialized, p.threads.set i (.done e true)⟩ := by
  obtain ⟨htabs, state, hload, hentries⟩ := hp
  obtain ⟨l, r, l', hl, hn, rfl⟩ := stepAt_eq_some h
  cases l with
  | first e =>
      simp only [next, hload, fieldsFor_update hentries] at hn
      cases hn
      exact Or.inl ⟨e, e.fields fs, hl, ⟨rfl, htabs⟩, rfl⟩
  | second e updates =>
      obtain ⟨f, rfl, hf⟩ := hread e updates (List.mem_of_getElem? hl)
      obtain ⟨data, hdata, -⟩ := serialize_fields hload e hf
      simp only [next, hload, hdata] at hn
      cases hn
      refine Or.inr (Or.inl ⟨e, e.fields f, data, hl, fun f' hf' => ?_, rfl⟩)
      obtain ⟨heq, hf'⟩ := hf'
      obtain ⟨data', hdata', htabs'⟩ := serialize_fields hload e hf'
      rw [← heq, hdata] at hdata'
      cases hdata'
      exact htabs'
  | write e serialized =>
      cases hn
      exact Or.inr (Or.inr ⟨e, serialized, hl, rfl⟩)
  | done e success => cases hn

/-- The calls of different tabs. -/
theorem sessionId_ne {ts : List (Pc I)} (hn : (ts.map fun l => l.edit.sessionId).Nodup) {i j : ℕ} {l l' : Pc I}
    (hi : ts[i]? = some l) (hj : ts[j]? = some l') (hij : j ≠ i) : l'.edit.sessionId ≠ l.edit.sessionId := by
  intro heq
  have hlt : j < (ts.map fun l => l.edit.sessionId).length := by
    rw [List.length_map]
    exact (List.getElem?_eq_some_iff.mp hj).1
  refine hij ((List.getElem?_inj hlt hn).mp ?_)
  rw [List.getElem?_map, List.getElem?_map, hi, hj, Option.map_some, Option.map_some, heq]

/-- A call stays with its tab. -/
theorem edit_next {r r' : Redis F} {l l' : Pc I} (h : next I r l = some (r', l')) : l'.edit = l.edit := by
  cases l with
  | first e =>
      simp only [next] at h
      split at h
      · cases h
        rfl
      · split at h <;> cases h <;> rfl
  | second e updates =>
      simp only [next] at h
      split at h
      · cases h
        rfl
      · split at h <;> cases h <;> rfl
  | write e serialized =>
      cases h
      rfl
  | done e success => cases h

theorem edits_set {ts : List (Pc I)} {l l' : Pc I} (hl : ts[i]? = some l) (h : l'.edit = l.edit) :
    (ts.set i l').map Pc.edit = ts.map Pc.edit := by
  refine List.ext_getElem? fun j => ?_
  rw [List.getElem?_map, List.getElem?_map, getElem?_set_of_some hl]
  by_cases hj : j = i
  · rw [if_pos hj, hj, hl, Option.map_some, Option.map_some, h]
  · rw [if_neg hj]

theorem edits_step (h : p.stepAt (next I) i = some q) : q.threads.map Pc.edit = p.threads.map Pc.edit := by
  obtain ⟨l, r, l', hl, hn, rfl⟩ := stepAt_eq_some h
  exact edits_set hl (edit_next hn)

/-! ### Undisturbed calls -/

/-- What is known of a call, when no write is disturbed. -/
def Fine (fs : List (String × Val I)) : Pc I → Prop
  | .first _ => True
  | .done e _ => e.sat fs = true
  | l => HasRead fs l

/-- As long as the writes are undisturbed. -/
def Fresh (p : Pool (Redis F) (Pc I)) : Prop :=
  (p.threads.map fun l => l.edit.sessionId).Nodup ∧ ∃ fs, HasTabs p.shared fs ∧ ∀ l ∈ p.threads, Fine fs l

/-- **One undisturbed command.** -/
theorem fresh_step (hp : Fresh p) (hg : undisturbed p i) (h : p.stepAt (next I) i = some q) : Fresh q := by
  obtain ⟨hn, fs, htabs, hfine⟩ := hp
  have hids : (q.threads.map fun l => l.edit.sessionId).Nodup := by
    have hmap : ∀ ts : List (Pc I), (ts.map fun l => l.edit.sessionId) = (ts.map Pc.edit).map Edit.sessionId := by
      intro ts
      rw [List.map_map]
      rfl
    rw [hmap, edits_step h, ← hmap]
    exact hn
  refine ⟨hids, ?_⟩
  rcases step_cases htabs (fun e updates hmem => ⟨fs, hfine _ hmem⟩) h with ⟨e, updates, -, hread, rfl⟩ |
    ⟨e, updates, serialized, hl, hread, rfl⟩ | ⟨e, serialized, hl, rfl⟩
  · refine ⟨fs, htabs, fun l hmem => ?_⟩
    rcases mem_set_cases hmem with rfl | ⟨j, -, hj⟩
    · exact hread
    · exact hfine l (List.mem_of_getElem? hj)
  · refine ⟨fs, htabs, fun l hmem => ?_⟩
    rcases mem_set_cases hmem with rfl | ⟨j, -, hj⟩
    · exact hread fs (hfine _ (List.mem_of_getElem? hl))
    · exact hfine l (List.mem_of_getElem? hj)
  · unfold undisturbed at hg
    rw [hl] at hg
    obtain ⟨hplain, halone⟩ := hg
    have hwritten : HasTabs (some serialized) (e.on fs) := hfine _ (List.mem_of_getElem? hl) hplain
    refine ⟨e.on fs, hwritten, fun l hmem => ?_⟩
    rcases mem_set_cases hmem with rfl | ⟨j, hne, hj⟩
    · exact sat_on_self e fs
    · have hlfine := hfine l (List.mem_of_getElem? hj)
      cases l with
      | first e' => trivial
      | second e' updates' => cases halone j _ hne hj
      | write e' serialized' => cases halone j _ hne hj
      | done e' success =>
          have hid : e'.sessionId ≠ e.sessionId := sessionId_ne hn hl hj hne
          show e'.sat (e.on fs) = true
          rw [sat_on_ne hid]
          exact hlfine

/-! ### Disturbed calls -/

/-- The number of tabs that are as their calls leave them. -/
def satCount (edits : List Edit) (fs : List (String × Val I)) : ℕ := edits.countP (Edit.sat fs)

/-- The number of calls that have returned. -/
def doneCount (p : Pool (Redis F) (Pc I)) : ℕ := p.threads.countP Pc.isDone

/-- A call adds its own tab at most. -/
theorem satCount_on {edits : List Edit} (hn : (edits.map Edit.sessionId).Nodup) (e : Edit)
    (fs : List (String × Val I)) : satCount edits (e.on fs) ≤ satCount edits fs + 1 := by
  induction edits with
  | nil => exact Nat.zero_le _
  | cons x edits ih =>
      rw [List.map_cons, List.nodup_cons] at hn
      unfold satCount at ih ⊢
      rw [List.countP_cons, List.countP_cons]
      by_cases hx : x.sessionId = e.sessionId
      · -- the others are of other tabs
        have hrest : edits.countP (Edit.sat (e.on fs)) = edits.countP (Edit.sat fs) := by
          refine List.countP_congr fun y hy => ?_
          have hne : y.sessionId ≠ e.sessionId := by
            intro heq
            exact hn.1 (List.mem_map.mpr ⟨y, hy, heq.trans hx.symm⟩)
          rw [sat_on_ne hne]
        rw [hrest]
        split <;> split <;> omega
      · have hrest := ih hn.2
        rw [sat_on_ne hx]
        omega

/-- Counted are the tabs that are as they should be and the calls that have returned: what a call has read is what is
stored, or too little by now. -/
structure Counted (edits : List Edit) (p : Pool (Redis F) (Pc I)) (fs : List (String × Val I)) : Prop where
  tabs : HasTabs p.shared fs
  edits_eq : p.threads.map Pc.edit = edits
  count : satCount edits fs ≤ doneCount p
  reads : ∀ l ∈ p.threads, l.reading = true →
    ∃ f, HasRead f l ∧ (satCount edits f < doneCount p ∨ f = fs)

/-- **The trap**: fewer tabs than returned calls, now or once a call that is under way writes. -/
def Doomed (edits : List Edit) (p : Pool (Redis F) (Pc I)) : Prop :=
  ∃ fs, Counted edits p fs ∧ (satCount edits fs < doneCount p ∨
    ∃ (j : ℕ) (l : Pc I) (f : List (String × Val I)),
      p.threads[j]? = some l ∧ l.reading = true ∧ HasRead f l ∧ satCount edits f < doneCount p)

section Trap

variable {edits : List Edit} {l : Pc I}

/-- What a call has read is not more than the calls that have returned. -/
theorem Counted.le (hp : Counted edits p fs) {f : List (String × Val I)}
    (hf : satCount edits f < doneCount p ∨ f = fs) : satCount edits f ≤ doneCount p := by
  rcases hf with hless | rfl
  · omega
  · exact hp.count

/-- What a call that is under way has read is known. -/
theorem Counted.read (hp : Counted edits p fs) (e : Edit) (updates : State I)
    (hmem : Pc.second e updates ∈ p.threads) : ∃ f, HasRead f (.second e updates) := by
  obtain ⟨f, hf, -⟩ := hp.reads _ hmem rfl
  exact ⟨f, hf⟩

/-- A step that reads. -/
theorem counted_read (l' : Pc I) (hp : Counted edits p fs) (hl : p.threads[i]? = some l) (hdone : l.isDone = false)
    (hdone' : l'.isDone = false) (hedit : l'.edit = l.edit)
    (hread : ∃ f, HasRead f l' ∧ (satCount edits f < doneCount p ∨ f = fs)) :
    doneCount ⟨p.shared, p.threads.set i l'⟩ = doneCount p ∧ Counted edits ⟨p.shared, p.threads.set i l'⟩ fs := by
  have hcount : doneCount ⟨p.shared, p.threads.set i l'⟩ = doneCount p := by
    have hset := countP_set_add Pc.isDone l' hl
    rw [hdone, hdone'] at hset
    exact hset
  refine ⟨hcount, hp.tabs, (edits_set hl hedit).trans hp.edits_eq, ?_, fun x hx hreading => ?_⟩
  · rw [hcount]
    exact hp.count
  · rw [hcount]
    rcases mem_set_cases hx with rfl | ⟨j, -, hj⟩
    · exact hread
    · exact hp.reads x (List.mem_of_getElem? hj) hreading

/-- A step that writes. -/
theorem counted_write (hn : (edits.map Edit.sessionId).Nodup) (hplain : ∀ e ∈ edits, e.Plain)
    (hp : Counted edits p fs) {serialized : Json F} (hl : p.threads[i]? = some (.write e serialized))
    (hf : HasRead f (.write e serialized)) (hle : satCount edits f ≤ doneCount p) :
    doneCount ⟨some serialized, p.threads.set i (.done e true)⟩ = doneCount p + 1 ∧
    satCount edits (e.on f) ≤ satCount edits f + 1 ∧
    Counted edits ⟨some serialized, p.threads.set i (.done e true)⟩ (e.on f) := by
  have hcount : doneCount ⟨some serialized, p.threads.set i (.done e true)⟩ = doneCount p + 1 :=
    countP_set_add Pc.isDone (.done e true) hl
  have hadds := satCount_on hn e f
  have he : e ∈ edits := by
    rw [← hp.edits_eq]
    exact List.mem_map.mpr ⟨_, List.mem_of_getElem? hl, rfl⟩
  have hedits : (p.threads.set i (.done e true)).map Pc.edit = p.threads.map Pc.edit := edits_set hl rfl
  refine ⟨hcount, hadds, hf (hplain e he), hedits.trans hp.edits_eq, ?_, fun x hx hreading => ?_⟩
  · omega
  · rcases mem_set_cases hx with rfl | ⟨j, -, hj⟩
    · cases hreading
    · -- what another call has read is too little now
      obtain ⟨f', hf', hless⟩ := hp.reads x (List.mem_of_getElem? hj) hreading
      refine ⟨f', hf', Or.inl ?_⟩
      have hlate := hp.le hless
      omega

/-- **One command**, with the calls counted. -/
theorem counted_step (hn : (edits.map Edit.sessionId).Nodup) (hplain : ∀ e ∈ edits, e.Plain)
    (hp : Counted edits p fs) (h : p.stepAt (next I) i = some q) : ∃ fs', Counted edits q fs' := by
  rcases step_cases hp.tabs hp.read h with
    ⟨e, updates, hl, hread, rfl⟩ | ⟨e, updates, serialized, hl, hread, rfl⟩ | ⟨e, serialized, hl, rfl⟩
  · exact ⟨fs, (counted_read (.second e updates) hp hl rfl rfl rfl ⟨fs, hread, Or.inr rfl⟩).2⟩
  · obtain ⟨f, hf, hless⟩ := hp.reads _ (List.mem_of_getElem? hl) rfl
    exact ⟨fs, (counted_read (.write e serialized) hp hl rfl rfl rfl ⟨f, hread f hf, hless⟩).2⟩
  · obtain ⟨f, hf, hless⟩ := hp.reads _ (List.mem_of_getElem? hl) rfl
    exact ⟨e.on f, (counted_write hn hplain hp hl hf (hp.le hless)).2.2⟩

/-- **Nothing leads out of the trap.** -/
theorem doomed_step (hn : (edits.map Edit.sessionId).Nodup) (hplain : ∀ e ∈ edits, e.Plain)
    (hp : Doomed edits p) (h : p.stepAt (next I) i = some q) : Doomed edits q := by
  obtain ⟨fs, hp, hdoomed⟩ := hp
  rcases step_cases hp.tabs hp.read h with
    ⟨e, updates, hl, hread, rfl⟩ | ⟨e, updates, serialized, hl, hread, rfl⟩ | ⟨e, serialized, hl, rfl⟩
  · obtain ⟨hcount, hcounted⟩ := counted_read (.second e updates) hp hl rfl rfl rfl ⟨fs, hread, Or.inr rfl⟩
    refine ⟨fs, hcounted, ?_⟩
    rw [hcount]
    refine hdoomed.imp id fun hstale => ?_
    obtain ⟨j, l, f, hj, hreading, hf, hless⟩ := hstale
    have hne : j ≠ i := by
      rintro rfl
      rw [hl] at hj
      cases hj
      cases hreading
    refine ⟨j, l, f, ?_, hreading, hf, hless⟩
    rw [getElem?_set_of_some hl, if_neg hne, hj]
  · obtain ⟨f, hf, hless⟩ := hp.reads _ (List.mem_of_getElem? hl) rfl
    obtain ⟨hcount, hcounted⟩ :=
      counted_read (.write e serialized) hp hl rfl rfl rfl ⟨f, hread f hf, hless⟩
    refine ⟨fs, hcounted, ?_⟩
    rw [hcount]
    refine hdoomed.imp id fun hstale => ?_
    obtain ⟨j, l, f', hj, hreading, hf', hless'⟩ := hstale
    by_cases hne : j = i
    · subst hne
      rw [hl] at hj
      cases hj
      refine ⟨j, .write e serialized, f', ?_, rfl, hread f' hf', hless'⟩
      rw [getElem?_set_of_some hl, if_pos rfl]
    · refine ⟨j, l, f', ?_, hreading, hf', hless'⟩
      rw [getElem?_set_of_some hl, if_neg hne, hj]
  · obtain ⟨f, hf, hless⟩ := hp.reads _ (List.mem_of_getElem? hl) rfl
    rcases hdoomed with hfew | ⟨j, l, f', hj, hreading, hf', hless'⟩
    · have hlt : satCount edits f < doneCount p := by
        rcases hless with hless | rfl
        · exact hless
        · exact hfew
      obtain ⟨hcount, hadds, hcounted⟩ := counted_write hn hplain hp hl hf (Nat.le_of_lt hlt)
      exact ⟨e.on f, hcounted, Or.inl (by omega)⟩
    · by_cases hne : j = i
      · -- the call that has read too little writes it
        subst hne
        rw [hl] at hj
        cases hj
        obtain ⟨hcount, hadds, hcounted⟩ := counted_write hn hplain hp hl hf' (Nat.le_of_lt hless')
        exact ⟨e.on f', hcounted, Or.inl (by omega)⟩
      · obtain ⟨hcount, -, hcounted⟩ := counted_write hn hplain hp hl hf (hp.le hless)
        refine ⟨e.on f, hcounted, Or.inr ⟨j, l, f', ?_, hreading, hf', by omega⟩⟩
        rw [getElem?_set_of_some hl, if_neg hne, hj]

/-- A disturbed write leads into it. -/
theorem doomed_of_disturbed (hn : (edits.map Edit.sessionId).Nodup) (hplain : ∀ e ∈ edits, e.Plain)
    (hp : Counted edits p fs) (hg : ¬undisturbed p i) (h : p.stepAt (next I) i = some q) : Doomed edits q := by
  rcases step_cases hp.tabs hp.read h with
    ⟨e, updates, hl, -, rfl⟩ | ⟨e, updates, serialized, hl, -, rfl⟩ | ⟨e, serialized, hl, rfl⟩
  · unfold undisturbed at hg
    rw [hl] at hg
    exact absurd trivial hg
  · unfold undisturbed at hg
    rw [hl] at hg
    exact absurd trivial hg
  · unfold undisturbed at hg
    rw [hl] at hg
    have he : e ∈ edits := by
      rw [← hp.edits_eq]
      exact List.mem_map.mpr ⟨_, List.mem_of_getElem? hl, rfl⟩
    obtain ⟨j, l, hne, hj, hreading⟩ : ∃ j l, j ≠ i ∧ p.threads[j]? = some l ∧ l.reading = true := by
      by_contra hnone
      refine hg ⟨hplain e he, fun j l hne hj => Bool.eq_false_iff.mpr fun hreading => ?_⟩
      exact hnone ⟨j, l, hne, hj, hreading⟩
    obtain ⟨f, hf, hless⟩ := hp.reads _ (List.mem_of_getElem? hl) rfl
    obtain ⟨f', hf', hless'⟩ := hp.reads l (List.mem_of_getElem? hj) hreading
    obtain ⟨hcount, -, hcounted⟩ := counted_write hn hplain hp hl hf (hp.le hless)
    have hlater := hp.le hless'
    refine ⟨e.on f, hcounted, Or.inr ⟨j, l, f', ?_, hreading, hf', by omega⟩⟩
    rw [getElem?_set_of_some hl, if_neg hne, hj]

end Trap

/-! ### No session -/

/-- Without tabs a call returns, and writes nothing. -/
theorem untabbed_step (hp : ¬Tabbed I p.shared ∧ ∀ l ∈ p.threads, l.reading = false)
    (h : p.stepAt (next I) i = some q) : ¬Tabbed I q.shared ∧ ∀ l ∈ q.threads, l.reading = false := by
  obtain ⟨hnone, hidle⟩ := hp
  obtain ⟨l, r, l', hl, hn, rfl⟩ := stepAt_eq_some h
  have hlidle := hidle l (List.mem_of_getElem? hl)
  have hreturns : r = p.shared ∧ l'.reading = false := by
    cases l with
    | first e =>
        simp only [next] at hn
        split at hn
        · cases hn
          exact ⟨rfl, rfl⟩
        · next state hload =>
          have hfields : (e.update I).fieldsFor I state = none := by
            have hentries : entriesOf I state "active_threads_by_session" = none := by
              rw [Option.eq_none_iff_forall_ne_some]
              exact fun tabs htabs => hnone ⟨state, tabs, hload, htabs⟩
            unfold Edit.update
            split <;> rw [Update.fieldsFor, hentries, Option.map_none]
          rw [hfields] at hn
          cases hn
          exact ⟨rfl, rfl⟩
    | second e updates => cases hlidle
    | write e serialized => cases hlidle
    | done e success => cases hn
  obtain ⟨rfl, hl'⟩ := hreturns
  refine ⟨hnone, fun x hx => ?_⟩
  rcases mem_set_cases hx with rfl | ⟨j, -, hj⟩
  · exact hl'
  · exact hidle x (List.mem_of_getElem? hj)

end Steps

/-! ### Whole runs -/

section Run

variable {r : Redis F} {edits : List Edit} {q : Pool (Redis F) (Pc I)} {fs : List (String × Val I)}

theorem tabbed_iff : Tabbed I r ↔ ∃ fs : List (String × Val I), HasTabs r fs := by
  constructor
  · rintro ⟨state, tabs, hload, htabs⟩
    obtain ⟨fs, -, hfs⟩ := hasTabs_of_load hload htabs
    exact ⟨fs, hfs⟩
  · rintro ⟨fs, -, state, hload, htabs⟩
    exact ⟨state, _, hload, htabs⟩

theorem tabsKept_iff : TabsKept I q ↔
    ∃ fs : List (String × Val I), HasTabs q.shared fs ∧ ∀ l ∈ q.threads, l.edit.sat fs = true := by
  constructor
  · rintro ⟨state, tabs, hload, htabs, hkept⟩
    obtain ⟨fs, rfl, hfs⟩ := hasTabs_of_load hload htabs
    exact ⟨fs, hfs, fun l hl => sat_iff.mpr (hkept l hl)⟩
  · rintro ⟨fs, ⟨-, state, hload, htabs⟩, hkept⟩
    exact ⟨state, _, hload, htabs, fun l hl => sat_iff.mp (hkept l hl)⟩

theorem edits_start (r : Redis F) (edits : List Edit) : (start I r edits).threads.map Pc.edit = edits := by
  show (edits.map Pc.first).map Pc.edit = edits
  rw [List.map_map]
  exact List.map_id edits

theorem mem_start {l : Pc I} (h : l ∈ (start I r edits).threads) : ∃ e ∈ edits, l = .first e := by
  obtain ⟨e, he, rfl⟩ := List.mem_map.mp h
  exact ⟨e, he, rfl⟩

theorem fresh_start (hids : (edits.map Edit.sessionId).Nodup) (h : HasTabs r fs) : Fresh (start I r edits) := by
  refine ⟨?_, fs, h, fun l hl => ?_⟩
  · have hmap := congrArg (List.map Edit.sessionId) (edits_start (I := I) r edits)
    rw [List.map_map] at hmap
    rw [← hmap] at hids
    exact hids
  · obtain ⟨e, -, rfl⟩ := mem_start hl
    trivial

theorem counted_start (h : HasTabs r fs) (hchanges : ∀ e ∈ edits, e.Changes I r) :
    Counted edits (start I r edits) fs := by
  refine ⟨h, edits_start r edits, ?_, fun l hl hreading => ?_⟩
  · have hnone : satCount edits fs = 0 := by
      refine List.countP_eq_zero.mpr fun e he hsat => ?_
      obtain ⟨-, state, hload, htabs⟩ := h
      exact hchanges e he state _ hload htabs (sat_iff.mp hsat)
    rw [hnone]
    exact Nat.zero_le _
  · obtain ⟨e, -, rfl⟩ := mem_start hl
    cases hreading

theorem plain_of_ne {e : Edit} (h : e.sessionId ≠ "__type__") : e.Plain := fun htype => absurd htype h

/-- A thread that a tab of the session has does not make the tabs look like a tagged date or set. -/
theorem plain_of_sat {e : Edit} (h : Tabs fs) (hsat : e.sat fs = true) : e.Plain := by
  intro htype threadKey hthread
  have hdone := sat_iff.mp hsat
  rw [Edit.Done, hthread] at hdone
  have hget := hdone
  rw [htype, getStr_map] at hget
  exact h.untagged threadKey hget

/-- When all calls have returned and every tab is as its call left it, nothing has been lost. -/
theorem not_doomed_of_tabsKept (hdone : ∀ l ∈ q.threads, l.isDone = true) (hkept : TabsKept I q) :
    ¬Doomed edits q := by
  rintro ⟨fs, hp, hfew⟩
  obtain ⟨fs', htabs, hsat⟩ := tabsKept_iff.mp hkept
  obtain rfl : fs = fs' := hp.tabs.unique htabs
  have hall : satCount edits fs = edits.length := by
    refine List.countP_eq_length.mpr fun e he => ?_
    rw [← hp.edits_eq] at he
    obtain ⟨l, hl, rfl⟩ := List.mem_map.mp he
    exact hsat l hl
  have hle : doneCount q ≤ edits.length := by
    rw [← hp.edits_eq, List.length_map]
    exact List.countP_le_length
  rcases hfew with hfew | ⟨j, l, f, hj, hreading, -, -⟩
  · omega
  · -- no call is under way any more
    have hreturned := hdone l (List.mem_of_getElem? hj)
    cases l with
    | first e => cases hreading
    | second e updates => cases hreturned
    | write e serialized => cases hreturned
    | done e success => cases hreading

/-- **All tabs are as their calls left them**, in every run in which no call stores the session while another one is
between its first read and its write; and if every call changes its tab, only then. -/
theorem tabs_kept (r : Redis F) (edits : List Edit) (hids : (edits.map Edit.sessionId).Nodup) (sched : List ℕ)
    (q : Pool (Redis F) (Pc I)) (hrun : exec (next I) (start I r edits) sched = some q)
    (hdone : ∀ l ∈ q.threads, l.isDone = true) :
    (Tabbed I r ∧ Guarded (next I) undisturbed (start I r edits) sched → TabsKept I q) ∧
      ((∀ e ∈ edits, e.Changes I r) → TabsKept I q →
        Tabbed I r ∧ Guarded (next I) undisturbed (start I r edits) sched) := by
  constructor
  · rintro ⟨htabbed, hg⟩
    obtain ⟨fs, hfs⟩ := tabbed_iff.mp htabbed
    obtain ⟨-, fs', htabs, hfine⟩ := exec_invariant Fresh (fun p i q hp hstep h => fresh_step hp hstep h) sched _ q
      (fresh_start hids hfs) hg hrun
    refine tabsKept_iff.mpr ⟨fs', htabs, fun l hl => ?_⟩
    have hlfine := hfine l hl
    have hreturned := hdone l hl
    cases l with
    | done e success => exact hlfine
    | first e => cases hreturned
    | second e updates => cases hreturned
    | write e serialized => cases hreturned
  · intro hchanges hkept
    have htabbed : Tabbed I r := by
      by_contra hnone
      have hidle : ∀ l ∈ (start I r edits).threads, l.reading = false := by
        intro l hl
        obtain ⟨e, -, rfl⟩ := mem_start hl
        rfl
      have hend := exec_induction (fun p => ¬Tabbed I p.shared ∧ ∀ l ∈ p.threads, l.reading = false)
        (fun p i q hp h => untabbed_step hp h) sched _ q ⟨hnone, hidle⟩ hrun
      obtain ⟨state, tabs, hload, htabs, -⟩ := hkept
      exact hend.1 ⟨state, tabs, hload, htabs⟩
    refine ⟨htabbed, ?_⟩
    obtain ⟨fs, hfs⟩ := tabbed_iff.mp htabbed
    have hplain : ∀ e ∈ edits, e.Plain := by
      obtain ⟨fs', htabs, hsat⟩ := tabsKept_iff.mp hkept
      have hedits : q.threads.map Pc.edit = edits :=
        exec_induction (fun p => p.threads.map Pc.edit = edits) (fun p i q hp h => (edits_step h).trans hp) sched _ q
          (edits_start r edits) hrun
      intro e he
      rw [← hedits] at he
      obtain ⟨l, hl, rfl⟩ := List.mem_map.mp he
      exact plain_of_sat htabs.1 (hsat l hl)
    refine guarded_of_exec (fun p => ∃ fs, Counted edits p fs) (Doomed edits) ?_ ?_ ?_ sched _ q
      ⟨fs, counted_start hfs hchanges⟩ hrun (not_doomed_of_tabsKept hdone hkept)
    · rintro p i q ⟨fs, hp⟩ h
      exact counted_step hids hplain hp h
    · rintro p i q ⟨fs, hp⟩ hg h
      exact doomed_of_disturbed hids hplain hp hg h
    · exact fun p i q hp h => doomed_step hids hplain hp h

end Run

/-! ### Tabs that come at once -/

/-- A session without tabs. -/
def noTabs : Redis Empty := step oneDate none (.save oneThread "")

/-- Two tabs that are opened. -/
def twoTabs : List Edit := [⟨"a", some "t", ""⟩, ⟨"b", some "u", ""⟩]

/-- A write while every other call has yet to start or has returned. -/
theorem undisturbed_of_idle {p : Pool (Redis F) (Pc I)} {i : ℕ} {e : Edit} {serialized : Json F}
    (hl : p.threads[i]? = some (.write e serialized)) (he : e.Plain)
    (hidle : ((p.threads.eraseIdx i).all fun l => !l.reading) = true) : undisturbed p i := by
  unfold undisturbed
  rw [hl]
  refine ⟨he, fun j l hne hj => ?_⟩
  have hmem : l ∈ p.threads.eraseIdx i := List.mem_eraseIdx_iff_getElem?.mpr ⟨j, hne, hj⟩
  have hreading := List.all_eq_true.mp hidle l hmem
  rwa [Bool.not_eq_true'] at hreading

/-- Opened one after the other, both are there. -/
theorem tabs_kept_in_turn :
    ∃ q, exec (next oneDate) (start oneDate noTabs twoTabs) [0, 0, 0, 1, 1, 1] = some q ∧ TabsKept oneDate q := by
  have hrun : ∃ q, exec (next oneDate) (start oneDate noTabs twoTabs) [0, 0, 0, 1, 1, 1] = some q ∧
      q.threads.all Pc.isDone = true := ⟨_, rfl, rfl⟩
  obtain ⟨q, hq, hdone⟩ := hrun
  have hg : Guarded (next oneDate) undisturbed (start oneDate noTabs twoTabs) [0, 0, 0, 1, 1, 1] :=
    ⟨trivial, trivial, undisturbed_of_idle rfl (plain_of_ne (by decide)) rfl, trivial, trivial,
      undisturbed_of_idle rfl (plain_of_ne (by decide)) rfl, trivial⟩
  have htabbed : Tabbed oneDate noTabs := ⟨_, [], rfl, rfl⟩
  exact ⟨q, hq, (tabs_kept noTabs twoTabs (by decide) _ q hq (List.all_eq_true.mp hdone)).1 ⟨htabbed, hg⟩⟩

/-- **A tab is lost** that is opened while another one is. -/
theorem tab_lost : ¬∀ {F : Type} (I : Interpreter F) (r : Redis F) (edits : List Edit) (sched : List ℕ)
    (q : Pool (Redis F) (Pc I)), (edits.map Edit.sessionId).Nodup → Tabbed I r →
      exec (next I) (start I r edits) sched = some q → (∀ l ∈ q.threads, l.isDone = true) → TabsKept I q := by
  intro h
  have hrun : ∃ q, exec (next oneDate) (start oneDate noTabs twoTabs) [0, 1, 0, 0, 1, 1] = some q ∧
      q.threads.all Pc.isDone = true ∧ q.threads.map Pc.edit = twoTabs ∧
      ∃ state, loadSessionState oneDate q.shared = some state ∧
        entriesOf oneDate state "active_threads_by_session" = some [(.str "b", .str "u")] :=
    ⟨_, rfl, rfl, rfl, _, rfl, rfl⟩
  obtain ⟨q, hq, hdone, hedits, state, hload, htabs⟩ := hrun
  obtain ⟨state', tabs', hload', htabs', hkept⟩ :=
    h oneDate noTabs twoTabs _ q (by decide) ⟨_, [], rfl, rfl⟩ hq (List.all_eq_true.mp hdone)
  obtain rfl : state = state' := Option.some.inj (hload.symm.trans hload')
  obtain rfl : _ = tabs' := Option.some.inj (htabs.symm.trans htabs')
  obtain ⟨l, hl, hedit⟩ : ∃ l ∈ q.threads, l.edit = ⟨"a", some "t", ""⟩ :=
    List.mem_map.mp (hedits ▸ List.mem_cons_self)
  have hlost := hkept l hl
  rw [hedit] at hlost
  cases hlost

end Pinnokio.Sessions.SessionState
