import Pinnokio.Lib.Documents
import Pinnokio.Lib.Interleaving
import Pinnokio.Lib.Runs
import Pinnokio.Lib.Text

/-!
# Pending actions of external redirects

Before a redirect to an external service (OAuth, payment) the manager stores the action under
`pending_action:{uid}:{session_id}`, together with a random token.  The token travels in the `state` parameter
`{uid}:{session_id}:{token}`; the callback splits it and completes the action, which compares the token, deletes the
key and returns the action.

The token is an optional argument of the completion, and an empty one counts as none.  The read of the key and its
deletion are two Redis commands.

* `completePendingAction` — the completion, with a Redis command that may raise;
* `state_checked_iff` — **only the state that was built for the action completes it** exactly when the token of the
  presented state is not empty (or there is nothing to complete);
* `next` — one Redis command of a completion;
* `returned_once_iff` — **at most one completion returns the action** exactly when no call reads it after another
  one has.
-/

namespace Pinnokio.Sessions

open Pinnokio.Interleaving Pinnokio.Runs Pinnokio.Text

/-! ### The manager -/

/-- What `secrets.token_urlsafe(32)` draws. -/
structure StateToken where
  value : String
  ne_empty : value ≠ ""

/-- A stored action. -/
structure PendingAction where
  actionType : String
  provider : String
  returnPage : String
  returnPath : String
  context : Document
  initiatedAt : String
  stateToken : String
  uid : String
  sessionId : String

/-- The keys of the pending actions. -/
abbrev Redis := Dict String PendingAction

/-- The Redis commands of a completion that raise. -/
structure Faults where
  getRaises : Bool := false
  deleteRaises : Bool := false

/-- `VALID_ACTION_TYPES`. -/
def validActionTypes : List String := ["oauth", "payment", "verification", "subscription", "connect_service"]

/-- `_build_key`. -/
def buildKey (uid sessionId : String) : String := "pending_action:" ++ uid ++ ":" ++ sessionId

/-- What a save stores, but for the token and the time. -/
structure SaveRequest where
  uid : String
  sessionId : String
  actionType : String
  provider : String
  returnPage : String
  returnPath : String
  context : Document

/-- The action that is stored. -/
def SaveRequest.action (q : SaveRequest) (token : StateToken) (now : String) : PendingAction where
  actionType := q.actionType
  provider := q.provider
  returnPage := q.returnPage
  returnPath := q.returnPath
  context := q.context
  initiatedAt := now
  stateToken := token.value
  uid := q.uid
  sessionId := q.sessionId

/-- `save_pending_action`; `none` when it raises. -/
def savePendingAction (r : Redis) (q : SaveRequest) (token : StateToken) (now : String) : Option (Redis × String) :=
  if q.actionType ∈ validActionTypes then
    some (r.set (buildKey q.uid q.sessionId) (q.action token now), token.value)
  else none

/-- `get_pending_action`. -/
def getPendingAction (r : Redis) (uid sessionId : String) (raises : Bool) : Option PendingAction :=
  if raises then none else r.get? (buildKey uid sessionId)

/-- `state_token and action.get("state_token") != state_token`. -/
def tokenRefused (stateToken : Option String) (action : PendingAction) : Bool :=
  match stateToken with
  | none => false
  | some t => decide (t ≠ "") && decide (action.stateToken ≠ t)

/-- The action that a completion has read and whose token it accepts. -/
def acceptedAction (r : Redis) (uid sessionId : String) (stateToken : Option String) (raises : Bool) :
    Option PendingAction :=
  (getPendingAction r uid sessionId raises).filter fun action => !tokenRefused stateToken action

/-- The deletion of the key, which changes nothing when it raises. -/
def deleteKey (r : Redis) (uid sessionId : String) (raises : Bool) : Redis :=
  if raises then r else r.erase (buildKey uid sessionId)

/-- `complete_pending_action`. -/
def completePendingAction (r : Redis) (uid sessionId : String) (stateToken : Option String) (faults : Faults) :
    Redis × Option PendingAction :=
  match acceptedAction r uid sessionId stateToken faults.getRaises with
  | none => (r, none)
  | some action => (deleteKey r uid sessionId faults.deleteRaises, some action)

/-- `build_oauth_state`. -/
def buildOauthState (uid sessionId stateToken : String) : String := uid ++ ":" ++ sessionId ++ ":" ++ stateToken

/-- `parse_oauth_state`: the uid, the session id and the token. -/
def parseOauthState (state : String) : Option (String × String × String) :=
  match split state ':' with
  | [uid, sessionId, stateToken] => some (uid, sessionId, stateToken)
  | _ => none

/-! ### Reachable stores -/

/-- An operation on the pending actions; a key may also expire. -/
inductive Op where
  | save (q : SaveRequest) (token : StateToken) (now : String)
  | complete (uid sessionId : String) (stateToken : Option String) (faults : Faults)
  | cancel (uid sessionId : String) (raises : Bool)
  | expire (key : String)

/-- One operation. -/
def apply (r : Redis) : Op → Redis
  | .save q token now => ((savePendingAction r q token now).map Prod.fst).getD r
  | .complete uid sessionId stateToken faults => (completePendingAction r uid sessionId stateToken faults).1
  | .cancel uid sessionId raises => deleteKey r uid sessionId raises
  | .expire key => r.erase key

/-- Every action is stored under its own ids, with a token. -/
def Kept (r : Redis) : Prop :=
  ∀ key a, r.get? key = some a → key = buildKey a.uid a.sessionId ∧ a.stateToken ≠ ""

theorem kept_erase {r : Redis} (h : Kept r) (key : String) : Kept (r.erase key) := by
  intro k a ha
  rw [Dict.get?_erase] at ha
  split at ha
  · cases ha
  · exact h k a ha

theorem kept_deleteKey {r : Redis} (h : Kept r) (uid sessionId : String) (raises : Bool) :
    Kept (deleteKey r uid sessionId raises) := by
  unfold deleteKey
  split
  · exact h
  · exact kept_erase h _

theorem kept_apply {r : Redis} (h : Kept r) (op : Op) : Kept (apply r op) := by
  cases op with
  | save q token now =>
      simp only [apply, savePendingAction]
      split
      · intro k a ha
        rw [Option.map_some, Option.getD_some, Dict.get?_set] at ha
        split at ha
        · next hk =>
          cases ha
          exact ⟨hk, token.ne_empty⟩
        · exact h k a ha
      · exact h
  | complete uid sessionId stateToken faults =>
      simp only [apply, completePendingAction]
      split
      · exact h
      · exact kept_deleteKey h _ _ _
  | cancel uid sessionId raises => exact kept_deleteKey h _ _ _
  | expire key => exact kept_erase h _

/-- Every reachable store keeps its actions under their own ids. -/
theorem kept_run (ops : List Op) : Kept (run apply ∅ ops) := by
  induction ops using List.reverseRecOn with
  | nil => exact fun _ _ h => by cases h
  | append_singleton ops op ih =>
      rw [run_concat]
      exact kept_apply ih op

/-! ### The state parameter -/

/-- A state that is accepted is the one built from its parts, which have no colon. -/
theorem parseOauthState_eq_some {state uid sessionId stateToken : String}
    (h : parseOauthState state = some (uid, sessionId, stateToken)) :
    state = buildOauthState uid sessionId stateToken ∧ ':' ∉ uid.toList ∧ ':' ∉ sessionId.toList := by
  unfold parseOauthState at h
  split at h
  · next hs =>
    cases h
    have hchars : splitChars ':' state.toList = [uid.toList, sessionId.toList, stateToken.toList] := by
      have := congrArg (List.map String.toList) hs
      simpa [split, List.map_map, Function.comp_def] using this
    have hfree : ∀ x ∈ [uid.toList, sessionId.toList, stateToken.toList], ':' ∉ x := fun x hx =>
      not_mem_of_mem_splitChars (hchars ▸ hx)
    refine ⟨String.toList_injective ?_, hfree _ (by simp), hfree _ (by simp)⟩
    rw [← intercalate_splitChars ':' state.toList, hchars]
    simp [buildOauthState, List.intercalate]
  · cases h

theorem buildOauthState_inj {uid sessionId t t' : String}
    (h : buildOauthState uid sessionId t = buildOauthState uid sessionId t') : t = t' :=
  append_left_cancel h

theorem toList_buildKey (uid sessionId : String) :
    (buildKey uid sessionId).toList = "pending_action:".toList ++ (uid.toList ++ ':' :: sessionId.toList) := by
  show ("pending_action:" ++ uid ++ ":" ++ sessionId).toList = _
  simp

/-- The key of two ids without a colon is not the key of any other two. -/
theorem buildKey_inj {uid sessionId uid' sessionId' : String} (hu : ':' ∉ uid.toList)
    (hs : ':' ∉ sessionId.toList) (h : buildKey uid sessionId = buildKey uid' sessionId') :
    uid = uid' ∧ sessionId = sessionId' := by
  have hl : uid.toList ++ ':' :: sessionId.toList = uid'.toList ++ ':' :: sessionId'.toList := by
    have hlists := congrArg String.toList h
    rw [toList_buildKey, toList_buildKey] at hlists
    exact List.append_cancel_left hlists
  obtain ⟨hu', -, hs'⟩ := (List.append_cons_inj_of_notMem hu hs).mp hl
  exact ⟨String.toList_injective hu', String.toList_injective hs'⟩

/-! ### The check of the state -/

/-- A callback with this state gets the action only if it is the state that was built for it, and in every other case
nothing, and the action stays. -/
def StateChecked (r : Redis) (state uid sessionId stateToken : String) (faults : Faults) : Prop :=
  let (r', result) := completePendingAction r uid sessionId (some stateToken) faults
  (∀ a, result = some a → a.uid = uid ∧ a.sessionId = sessionId ∧ r.get? (buildKey uid sessionId) = some a ∧
    state = buildOauthState uid sessionId a.stateToken) ∧
  ((∀ a, r.get? (buildKey uid sessionId) = some a → state ≠ buildOauthState uid sessionId a.stateToken) →
    result = none ∧ r' = r)

section

variable {r : Redis} {uid sessionId stateToken : String} {faults : Faults}

/-- What a completion accepts. -/
theorem acceptedAction_eq_some {raises : Bool} {a : PendingAction} :
    acceptedAction r uid sessionId (some stateToken) raises = some a ↔
      raises = false ∧ r.get? (buildKey uid sessionId) = some a ∧ (stateToken = "" ∨ a.stateToken = stateToken) := by
  unfold acceptedAction getPendingAction tokenRefused
  cases raises with
  | true => simp
  | false =>
      simp only [Bool.false_eq_true, if_false, Option.filter_eq_some_iff, true_and]
      refine and_congr_right fun _ => ?_
      by_cases ht : stateToken = "" <;> simp [ht]

/-- A completion that accepts no action answers nothing. -/
theorem completePendingAction_refused
    (h : acceptedAction r uid sessionId (some stateToken) faults.getRaises = none) :
    completePendingAction r uid sessionId (some stateToken) faults = (r, none) := by
  rw [completePendingAction, h]

theorem completePendingAction_accepted {a : PendingAction}
    (h : acceptedAction r uid sessionId (some stateToken) faults.getRaises = some a) :
    completePendingAction r uid sessionId (some stateToken) faults =
      (deleteKey r uid sessionId faults.deleteRaises, some a) := by
  rw [completePendingAction, h]

end

/-- **The state cannot be forged** exactly when the presented token is not empty, or there is nothing to get: no
action is stored under the ids, or the read raises. -/
theorem state_checked_iff (ops : List Op) (state uid sessionId stateToken : String) (faults : Faults)
    (hparse : parseOauthState state = some (uid, sessionId, stateToken)) :
    StateChecked (run apply ∅ ops) state uid sessionId stateToken faults ↔
      stateToken ≠ "" ∨ (run apply ∅ ops).get? (buildKey uid sessionId) = none ∨ faults.getRaises = true := by
  obtain ⟨rfl, hu, hs⟩ := parseOauthState_eq_some hparse
  have hkept := kept_run ops
  generalize run apply ∅ ops = r at hkept ⊢
  cases hacc : acceptedAction r uid sessionId (some stateToken) faults.getRaises with
  | none =>
      -- nothing is accepted: the answer is right, and the condition holds
      have hchecked : StateChecked r (buildOauthState uid sessionId stateToken) uid sessionId stateToken faults := by
        rw [StateChecked, completePendingAction_refused hacc]
        exact ⟨fun _ h => (by cases h), fun _ => ⟨rfl, rfl⟩⟩
      refine iff_of_true hchecked ?_
      by_contra hcon
      rw [not_or, not_or, not_not] at hcon
      obtain ⟨ht, hget, hraises⟩ := hcon
      obtain ⟨a, ha⟩ := Option.ne_none_iff_exists'.mp hget
      have := acceptedAction_eq_some.mpr ⟨Bool.eq_false_iff.mpr hraises, ha, Or.inl ht⟩
      rw [hacc] at this
      cases this
  | some a =>
      obtain ⟨hraises, ha, htok⟩ := acceptedAction_eq_some.mp hacc
      obtain ⟨hkey, hne⟩ := hkept _ _ ha
      obtain ⟨huid, hsid⟩ := buildKey_inj hu hs hkey
      rw [StateChecked, completePendingAction_accepted hacc]
      simp only [ha, hraises, Option.some.injEq, forall_eq', reduceCtorEq, Bool.false_eq_true, or_false, false_and,
        imp_false, not_not]
      constructor
      · intro h hempty
        obtain ⟨⟨-, -, -, hstate⟩, -⟩ := h
        exact hne (buildOauthState_inj hstate ▸ hempty)
      · intro hnonempty
        have htok : a.stateToken = stateToken := htok.resolve_left hnonempty
        exact ⟨⟨huid.symm, hsid.symm, trivial, by rw [htok]⟩, by rw [htok]⟩

/-- A request for an OAuth redirect. -/
def driveRequest : SaveRequest where
  uid := "u"
  sessionId := "s"
  actionType := "oauth"
  provider := "google_drive"
  returnPage := "settings"
  returnPath := "/settings"
  context := []

/-- A token. -/
def driveToken : StateToken := ⟨"t", by decide⟩

/-- Its redirect. -/
def driveRedirect : List Op := [.save driveRequest driveToken "2026-01-19"]

/-- The state with the right token, and one with a wrong token. -/
theorem state_checked_drive :
    StateChecked (run apply ∅ driveRedirect) "u:s:t" "u" "s" "t" {} ∧
      StateChecked (run apply ∅ driveRedirect) "u:s:x" "u" "s" "x" {} :=
  ⟨(state_checked_iff driveRedirect "u:s:t" "u" "s" "t" {} (by decide)).mpr (Or.inl (by decide)),
    (state_checked_iff driveRedirect "u:s:x" "u" "s" "x" {} (by decide)).mpr (Or.inl (by decide))⟩

/-- The state without a token gets the action. -/
theorem state_forged : ¬∀ (ops : List Op) (state uid sessionId stateToken : String),
    parseOauthState state = some (uid, sessionId, stateToken) →
      StateChecked (run apply ∅ ops) state uid sessionId stateToken {} := by
  intro h
  have hforged := (h driveRedirect "u:s:" "u" "s" "" (by decide)).1 (driveRequest.action driveToken "2026-01-19") rfl
  exact absurd hforged.2.2.2 (by decide)

/-! ### Completions side by side -/

/-- A call of `complete_pending_action`. -/
structure Completion where
  uid : String
  sessionId : String
  stateToken : Option String
  faults : Faults

/-- Local state of a call: before its read, before its deletion, or over. -/
inductive Pc where
  | call (c : Completion)
  | delete (c : Completion) (action : PendingAction)
  | done (result : Option PendingAction)

/-- The next Redis command of a call. -/
def next (r : Redis) : Pc → Option (Redis × Pc)
  | .call c =>
      match acceptedAction r c.uid c.sessionId c.stateToken c.faults.getRaises with
      | none => some (r, .done none)
      | some action => some (r, .delete c action)
  | .delete c action => some (deleteKey r c.uid c.sessionId c.faults.deleteRaises, .done (some action))
  | .done _ => none

/-- A call that runs alone is `completePendingAction`. -/
theorem alone_completePendingAction (r : Redis) (c : Completion) :
    Alone next r (.call c) ((completePendingAction r c.uid c.sessionId c.stateToken c.faults).1,
      .done (completePendingAction r c.uid c.sessionId c.stateToken c.faults).2) := by
  cases hacc : acceptedAction r c.uid c.sessionId c.stateToken c.faults.getRaises with
  | none =>
      have hread : next r (.call c) = some (r, .done none) := by rw [next, hacc]
      rw [completePendingAction, hacc]
      exact Alone.step hread (Alone.refl _ _)
  | some action =>
      have hread : next r (.call c) = some (r, .delete c action) := by rw [next, hacc]
      rw [completePendingAction, hacc]
      exact Alone.step hread (Alone.step rfl (Alone.refl _ _))

/-- The call has read the action and gives it back, now or soon. -/
def Pc.reader : Pc → Bool
  | .delete _ _ => true
  | .done (some _) => true
  | _ => false

/-- The call has returned the action. -/
def Pc.returned : Pc → Bool
  | .done (some _) => true
  | _ => false

/-- The call is over. -/
def Pc.over : Pc → Bool
  | .done _ => true
  | _ => false

/-- At most one call has returned the action. -/
def ReturnedOnce (p : Pool Redis Pc) : Prop := p.threads.countP Pc.returned ≤ 1

/-- A read that finds the action is the first one to do so. -/
def readsFirst (key : String) (p : Pool Redis Pc) (i : ℕ) : Prop :=
  match p.threads[i]? with
  | some (.call c) =>
      c.faults.getRaises = true ∨ p.shared.get? key = none ∨ ∀ l ∈ p.threads, l.reader = false
  | _ => True

/-- The calls are for one action, which is stored or deleted. -/
structure ForAction (a : PendingAction) (p : Pool Redis Pc) : Prop where
  stored : p.shared.get? (buildKey a.uid a.sessionId) = none ∨ p.shared.get? (buildKey a.uid a.sessionId) = some a
  calls : ∀ c, (Pc.call c ∈ p.threads ∨ ∃ action, Pc.delete c action ∈ p.threads) →
    c.uid = a.uid ∧ c.sessionId = a.sessionId ∧ c.stateToken = some a.stateToken

section

variable {a : PendingAction} {p q : Pool Redis Pc} {i : ℕ}

/-- **Everything a command can do**: a read finds nothing, or makes the call a reader of the stored action; a
deletion leaves the readers as they are. -/
theorem step_cases (hp : ForAction a p) (h : p.stepAt next i = some q) :
    (∃ c, p.threads[i]? = some (.call c) ∧
      (c.faults.getRaises = true ∨ p.shared.get? (buildKey a.uid a.sessionId) = none) ∧
      q = ⟨p.shared, p.threads.set i (.done none)⟩) ∨
    (∃ c, p.threads[i]? = some (.call c) ∧ c.faults.getRaises = false ∧
      p.shared.get? (buildKey a.uid a.sessionId) = some a ∧ q = ⟨p.shared, p.threads.set i (.delete c a)⟩) ∨
    (∃ c action r, p.threads[i]? = some (.delete c action) ∧ q = ⟨r, p.threads.set i (.done (some action))⟩ ∧
      (r = p.shared ∨ r = p.shared.erase (buildKey a.uid a.sessionId))) := by
  obtain ⟨l, r, l', hl, hn, rfl⟩ := stepAt_eq_some h
  cases l with
  | call c =>
      obtain ⟨hu, hs, ht⟩ := hp.calls c (Or.inl (List.mem_of_getElem? hl))
      simp only [next, hu, hs, ht] at hn
      cases hacc : acceptedAction p.shared a.uid a.sessionId (some a.stateToken) c.faults.getRaises with
      | none =>
          rw [hacc] at hn
          cases hn
          refine Or.inl ⟨c, hl, ?_, rfl⟩
          by_contra hcon
          rw [not_or, Bool.not_eq_true] at hcon
          have := acceptedAction_eq_some.mpr ⟨hcon.1, hp.stored.resolve_left hcon.2, Or.inr rfl⟩
          rw [hacc] at this
          cases this
      | some action =>
          rw [hacc] at hn
          cases hn
          obtain ⟨hraises, hget, -⟩ := acceptedAction_eq_some.mp hacc
          have hsame : action = a := by
            rcases hp.stored with hnone | hsome
            · rw [hnone] at hget
              cases hget
            · exact Option.some.inj (hget.symm.trans hsome)
          subst hsame
          exact Or.inr (Or.inl ⟨c, hl, hraises, hget, rfl⟩)
  | delete c action =>
      obtain ⟨hu, hs, -⟩ := hp.calls c (Or.inr ⟨action, List.mem_of_getElem? hl⟩)
      cases hn
      refine Or.inr (Or.inr ⟨c, action, _, hl, rfl, ?_⟩)
      unfold deleteKey
      split
      · exact Or.inl rfl
      · exact Or.inr (by rw [hu, hs])
  | done result => cases hn

/-- The calls stay calls for the action. -/
theorem forAction_step (hp : ForAction a p) (h : p.stepAt next i = some q) : ForAction a q := by
  -- a call in progress has not changed its arguments
  have hcalls : ∀ l', (∀ c, (l' = .call c ∨ ∃ action, l' = .delete c action) →
      Pc.call c ∈ p.threads ∨ ∃ action, Pc.delete c action ∈ p.threads) →
      ∀ c, (Pc.call c ∈ p.threads.set i l' ∨ ∃ action, Pc.delete c action ∈ p.threads.set i l') →
        c.uid = a.uid ∧ c.sessionId = a.sessionId ∧ c.stateToken = some a.stateToken := by
    intro l' hl' c hc
    refine hp.calls c ?_
    rcases hc with hc | ⟨action, hc⟩
    · rcases mem_set_cases hc with rfl | ⟨j, -, hj⟩
      · exact hl' c (Or.inl rfl)
      · exact Or.inl (List.mem_of_getElem? hj)
    · rcases mem_set_cases hc with rfl | ⟨j, -, hj⟩
      · exact hl' c (Or.inr ⟨action, rfl⟩)
      · exact Or.inr ⟨action, List.mem_of_getElem? hj⟩
  rcases step_cases hp h with ⟨c, -, -, rfl⟩ | ⟨c, hl, -, -, rfl⟩ | ⟨c, action, r, hl, rfl, hr⟩
  · exact ⟨hp.stored, hcalls _ fun c' hc => by simp at hc⟩
  · refine ⟨hp.stored, hcalls _ fun c' hc => ?_⟩
    simp only [reduceCtorEq, Pc.delete.injEq, false_or, exists_and_left, exists_eq', and_true] at hc
    exact hc ▸ Or.inl (List.mem_of_getElem? hl)
  · refine ⟨?_, hcalls _ fun c' hc => by simp at hc⟩
    rcases hr with rfl | rfl
    · exact hp.stored
    · exact Or.inl (Dict.get?_erase_self _ _)

/-- The readers never become fewer, and a read that finds the action adds one. -/
theorem readers_step (hp : ForAction a p) (h : p.stepAt next i = some q) :
    q.threads.countP Pc.reader = p.threads.countP Pc.reader ∨
      (∃ c, p.threads[i]? = some (.call c) ∧ c.faults.getRaises = false ∧
        p.shared.get? (buildKey a.uid a.sessionId) = some a ∧
        q.threads.countP Pc.reader = p.threads.countP Pc.reader + 1) := by
  rcases step_cases hp h with ⟨c, hl, -, rfl⟩ | ⟨c, hl, hraises, hget, rfl⟩ | ⟨c, action, r, hl, rfl, -⟩
  · exact Or.inl (countP_set_add Pc.reader _ hl)
  · exact Or.inr ⟨c, hl, hraises, hget, countP_set_add Pc.reader _ hl⟩
  · refine Or.inl ?_
    have hcount : (p.threads.set i (.done (some action))).countP Pc.reader + 1 = p.threads.countP Pc.reader + 1 :=
      countP_set_add Pc.reader _ hl
    show (p.threads.set i (.done (some action))).countP Pc.reader = p.threads.countP Pc.reader
    omega

/-- While every read that finds the action is the first one, there is one reader. -/
theorem one_reader_step (hp : ForAction a p) (hone : p.threads.countP Pc.reader ≤ 1)
    (hg : readsFirst (buildKey a.uid a.sessionId) p i) (h : p.stepAt next i = some q) :
    q.threads.countP Pc.reader ≤ 1 := by
  rcases readers_step hp h with hsame | ⟨c, hl, hraises, hget, hmore⟩
  · omega
  · rw [readsFirst, hl] at hg
    simp only [hraises, hget, reduceCtorEq, Bool.false_eq_true, false_or] at hg
    have hzero : p.threads.countP Pc.reader = 0 := List.countP_eq_zero.mpr fun l hmem => by simp [hg l hmem]
    omega

/-- A read that is not the first one makes a second reader. -/
theorem two_readers_of_not_readsFirst (hp : ForAction a p) (hg : ¬readsFirst (buildKey a.uid a.sessionId) p i)
    (h : p.stepAt next i = some q) : 1 < q.threads.countP Pc.reader := by
  have hreader : ∃ l ∈ p.threads, l.reader = true := by
    by_contra hnone
    refine hg ?_
    unfold readsFirst
    split
    · refine Or.inr (Or.inr fun l hl => ?_)
      by_contra hl'
      exact hnone ⟨l, hl, by simpa using hl'⟩
    · trivial
  have hpos : 0 < p.threads.countP Pc.reader := List.countP_pos_iff.mpr hreader
  rcases step_cases hp h with ⟨c, hl, hquiet, -⟩ | ⟨c, hl, -, -, rfl⟩ | ⟨c, action, r, hl, -, -⟩
  · refine absurd ?_ hg
    rw [readsFirst, hl]
    exact hquiet.imp_right Or.inl
  · have hmore : (p.threads.set i (.delete c a)).countP Pc.reader = p.threads.countP Pc.reader + 1 :=
      countP_set_add Pc.reader _ hl
    show 1 < (p.threads.set i (.delete c a)).countP Pc.reader
    omega
  · refine absurd ?_ hg
    rw [readsFirst, hl]
    trivial

end

/-- The calls before any of them has begun. -/
def start (r : Redis) (calls : List Completion) : Pool Redis Pc := ⟨r, calls.map Pc.call⟩

/-- **At most one completion returns the action**, in every run in which every read that finds it is the first one;
and in a run that is over, only then. -/
theorem returned_once_iff (r : Redis) (q : SaveRequest) (token : StateToken) (now answer : String) (r' : Redis)
    (hsave : savePendingAction r q token now = some (r', answer)) (calls : List Completion)
    (hcalls : ∀ c ∈ calls, c.uid = q.uid ∧ c.sessionId = q.sessionId ∧ c.stateToken = some answer)
    (sched : List ℕ) (p : Pool Redis Pc) (hrun : exec next (start r' calls) sched = some p) :
    (Guarded next (readsFirst (buildKey q.uid q.sessionId)) (start r' calls) sched → ReturnedOnce p) ∧
      ((∀ l ∈ p.threads, l.over = true) → ReturnedOnce p →
        Guarded next (readsFirst (buildKey q.uid q.sessionId)) (start r' calls) sched) := by
  unfold savePendingAction at hsave
  split at hsave
  swap
  · cases hsave
  cases hsave
  have hstart : ForAction (q.action token now) (start (r.set (buildKey q.uid q.sessionId) (q.action token now))
      calls) := by
    refine ⟨Or.inr (Dict.get?_set_self _ _ _), fun c hc => ?_⟩
    rcases hc with hc | ⟨action, hc⟩
    · obtain ⟨c', hmem, hc'⟩ := List.mem_map.mp hc
      cases hc'
      exact hcalls c hmem
    · obtain ⟨c', -, hc'⟩ := List.mem_map.mp hc
      cases hc'
  have hnoReader : (calls.map Pc.call).countP Pc.reader = 0 := by
    refine List.countP_eq_zero.mpr fun l hl => ?_
    obtain ⟨c, -, rfl⟩ := List.mem_map.mp hl
    exact Bool.false_ne_true
  constructor
  · intro hg
    have hinv := exec_invariant
      (fun p => ForAction (q.action token now) p ∧ p.threads.countP Pc.reader ≤ 1)
      (fun p i p' hp hstep h => ⟨forAction_step hp.1 h, one_reader_step hp.1 hp.2 hstep h⟩)
      sched _ p ⟨hstart, by show (calls.map Pc.call).countP Pc.reader ≤ 1; omega⟩ hg hrun
    refine Nat.le_trans (List.countP_mono_left fun l _ hl => ?_) hinv.2
    match l, hl with
    | .done (some _), _ => rfl
  · intro hover honce
    refine guarded_of_exec (ForAction (q.action token now))
      (fun p => ForAction (q.action token now) p ∧ 1 < p.threads.countP Pc.reader)
      (fun p i p' hp h => forAction_step hp h)
      (fun p i p' hp hg h => ⟨forAction_step hp h, two_readers_of_not_readsFirst hp hg h⟩)
      ?_ sched _ p hstart hrun ?_
    · intro p i p' h' h
      obtain ⟨hp, htwo⟩ := h'
      refine ⟨forAction_step hp h, ?_⟩
      rcases readers_step hp h with hsame | ⟨c, -, -, -, hmore⟩ <;> omega
    · -- the readers of a run that is over have returned
      intro h'
      obtain ⟨-, htwo⟩ := h'
      refine Nat.not_lt.mpr (Nat.le_trans (List.countP_mono_left fun l hl hreader => ?_) honce) htwo
      have := hover l hl
      match l, this, hreader with
      | .done (some _), _, _ => rfl

/-- Two callbacks with the right state. -/
def driveCallbacks : List Completion :=
  [⟨"u", "s", some "t", {}⟩, ⟨"u", "s", some "t", {}⟩]

/-- The second callback begins when the first one is over. -/
theorem returned_once_in_turn :
    ∃ p, exec next (start (run apply ∅ driveRedirect) driveCallbacks) [0, 0, 1] = some p ∧ ReturnedOnce p := by
  refine ⟨_, rfl, (returned_once_iff ∅ driveRequest driveToken "2026-01-19" "t" _ rfl driveCallbacks (by decide)
    [0, 0, 1] _ rfl).1 ⟨?_, ?_, ?_, trivial⟩⟩
  · exact Or.inr (Or.inr (by decide))
  · exact trivial
  · exact Or.inr (Or.inl rfl)

/-- Two callbacks read the action before one of them has deleted it. -/
theorem returned_twice : ¬∀ (r : Redis) (q : SaveRequest) (token : StateToken) (now answer : String) (r' : Redis),
    savePendingAction r q token now = some (r', answer) → ∀ calls : List Completion,
      (∀ c ∈ calls, c.uid = q.uid ∧ c.sessionId = q.sessionId ∧ c.stateToken = some answer) →
      ∀ (sched : List ℕ) (p : Pool Redis Pc), exec next (start r' calls) sched = some p → ReturnedOnce p := by
  intro h
  have htwice := h ∅ driveRequest driveToken "2026-01-19" "t" _ rfl driveCallbacks (by decide) [0, 1, 0, 1] _ rfl
  exact absurd htwice (by unfold ReturnedOnce; decide)

end Pinnokio.Sessions
