import Mathlib.Data.NNRat.Defs
import Mathlib.Tactic.Linarith
import Pinnokio.Billing.Wallet
import Pinnokio.Lib.Numbers
import Pinnokio.Lib.Runs
import Pinnokio.Realtime.UserCache

/-!
# The cached balance

What `get_balance_info` reads of a wallet is kept for a user under one key, whatever the mandate it was read for.  The
wallet is that of the owner of the mandate.  The service gives the key five minutes; a balance event writes the same
key once more, with the `items` of a list and the lifetime of a profile.

* `tracked_step` — the cached value is what was computed for the mandate of the last call that read a wallet;
* `check_balance_agrees_iff` — **a check uses the balance of its mandate** exactly when the key is not there or that
  wallet has the same balance;
* `staysFresh_step` — what one step does to the lifetime of the value;
* `cached_balance_fresh_iff` — **no value is served later than five minutes after it was computed** exactly when the
  balance is never broadcast and no event replaces the value, makes one, or gives it more time.
-/

namespace Pinnokio.Billing.BalanceCache

open Pinnokio.Realtime.UserCache Pinnokio.Runs

/-! ### The wallet -/

/-- The fields of `clients/{user_id}/billing/current_balance`, each with what `float` makes of it; `none` if it
raises. -/
abbrev BalanceDoc := Dict String (Option ℚ)

/-- The balance documents, by user. -/
abbrev Wallets := Dict String BalanceDoc

/-- What `get_balance_info` returns. -/
structure BalanceInfo where
  currentBalance : ℚ
  currentExpenses : ℚ
  currentTopping : ℚ
  deriving DecidableEq

/-- The values of a wallet that is not there or cannot be read. -/
def BalanceInfo.zero : BalanceInfo := ⟨0, 0, 0⟩

/-- The keys of the result. -/
def BalanceInfo.toObject (info : BalanceInfo) : Object :=
  [("current_balance", .number info.currentBalance), ("current_expenses", .number info.currentExpenses),
    ("current_topping", .number info.currentTopping)]

/-- The user whose wallet is read: that of the path if there is one, which may be empty. -/
def ownerOf (mandatePath : Option String) (userId : String) : String :=
  match mandatePath with
  | none => userId
  | some mandatePath =>
      let mandatePath := normalizeMandatePath mandatePath
      if mandatePath = "" then userId else userIdOf mandatePath

/-- `float(balance_data.get(k, 0.0))`. -/
def amount (doc : BalanceDoc) (k : String) : Option ℚ :=
  match doc.get? k with
  | none => some 0
  | some x => x

/-- The wallet of a user. -/
def walletOf (wallets : Wallets) (owner : String) : BalanceInfo :=
  if owner = "" then .zero
  else
    match wallets.get? owner with
    | none => .zero
    | some doc =>
        match amount doc "current_balance", amount doc "current_expenses", amount doc "current_topping" with
        | some currentBalance, some currentExpenses, some currentTopping =>
            ⟨currentBalance, currentExpenses, currentTopping⟩
        | _, _, _ => .zero

/-- `get_balance_info`. -/
def getBalanceInfo (wallets : Wallets) (mandatePath : Option String) (userId : String) : BalanceInfo :=
  walletOf wallets (ownerOf mandatePath userId)

/-! ### The service -/

/-- `RedisTTL.USER_BALANCE`. -/
def userBalanceTtl : ℕ := 300

/-- `_balance_key`. -/
def balanceKey (uid : String) : String := "user:" ++ uid ++ ":balance"

/-- `get_cached_balance`. -/
def getCachedBalance (r : Redis) (now : ℚ) (uid : String) : Option Data := get r now (balanceKey uid)

/-- `update_balance_cache`. -/
def updateBalanceCache (r : Redis) (now : ℚ) (uid : String) (balanceData : BalanceInfo) : Redis :=
  setex r now (balanceKey uid) userBalanceTtl (.dict balanceData.toObject)

/-- `BalanceCheckResult`. -/
structure BalanceCheckResult where
  sufficient : Bool
  currentBalance : ℚ
  requiredBalance : ℚ
  estimatedCost : ℚ
  missingAmount : ℚ
  message : String
  warning : Bool

/-- A number with two decimals. -/
def fixed2 (x : ℚ) : String :=
  let cents := Numbers.roundHalfEven (x * 100)
  (if x < 0 then "-" else "") ++ toString (cents.natAbs / 100) ++ "." ++ Numbers.padded 2 (cents.natAbs % 100)

/-- `SAFETY_MARGIN`. -/
def safetyMargin : ℚ := 12 / 10

/-- `CHAT_LOW_BALANCE_THRESHOLD`. -/
def chatLowBalanceThreshold : ℚ := 1

/-- The result for a balance. -/
def resultOf (currentBalance estimatedCost : ℚ) (operation : String) : BalanceCheckResult :=
  let required := estimatedCost * safetyMargin
  let sufficient := decide (required ≤ currentBalance)
  { sufficient := sufficient
    currentBalance := currentBalance
    requiredBalance := required
    estimatedCost := estimatedCost
    missingAmount := max 0 (required - currentBalance)
    message :=
      if sufficient then ""
      else "Insufficient balance for " ++ operation ++ ". Current: $" ++ fixed2 currentBalance ++ ", required: $" ++
        fixed2 required ++ ". Please top up your account."
    warning := !sufficient || decide (currentBalance < chatLowBalanceThreshold) }

/-- The result after an exception. -/
def failsafe (estimatedCost : ℚ) : BalanceCheckResult where
  sufficient := true
  currentBalance := 0
  requiredBalance := 0
  estimatedCost := estimatedCost
  missingAmount := 0
  message := "Unable to verify balance. Operation allowed by default."
  warning := false

/-- `float(v)`, with what it makes of a text. -/
def float? (floatOfText : String → Option ℚ) : Data → Option ℚ
  | .number x => some x
  | .bool b => some (if b then 1 else 0)
  | .str s => floatOfText s
  | _ => none

/-- `float(balance_info.get("current_balance", 0.0))`. -/
def currentBalance? (floatOfText : String → Option ℚ) : Data → Option ℚ
  | .dict info => float? floatOfText ((Object.get? info "current_balance").getD (.number 0))
  | _ => none

/-! ### What happens to the cache of a user -/

/-- The wallet that a value was computed from, and when. -/
structure Source where
  mandatePath : Option String
  computedAt : ℚ
  info : BalanceInfo

/-- The store, the wallets and the time, and where the value under the key comes from. -/
structure State where
  redis : Redis
  wallets : Wallets
  now : ℚ
  source : Option Source

/-- The calls of a user, and the time between them. -/
inductive Call where
  | checkBalance (mandatePath : Option String) (estimatedCost : ℚ) (operation : String)
  | refreshAndBroadcast (mandatePath : String)
  | wait (seconds : ℚ≥0)

/-- What else happens: the wallets change, a job writes what it has just computed (`update_balance_cache`), or an event
is published with the subkey `balance`. -/
inductive Op where
  | call (c : Call)
  | walletsChanged (wallets : Wallets)
  | updateBalanceCache (mandatePath : Option String) (userId : String)
  | publishUserEvent (payload : Object) (cacheTtl : ℕ)

section Service

variable (floatOfText : String → Option ℚ) (uid : String)

/-- `check_balance`, and the store afterwards. -/
def checkBalance (s : State) (mandatePath : Option String) (estimatedCost : ℚ) (operation : String) :
    BalanceCheckResult × Redis :=
  let (balanceInfo, redis) :=
    match getCachedBalance s.redis s.now uid with
    | some cached => (cached, s.redis)
    | none =>
        let balanceInfo := getBalanceInfo s.wallets mandatePath uid
        (.dict balanceInfo.toObject, BalanceCache.updateBalanceCache s.redis s.now uid balanceInfo)
  match currentBalance? floatOfText balanceInfo with
  | some currentBalance => (resultOf currentBalance estimatedCost operation, redis)
  | none => (failsafe estimatedCost, redis)

/-- The payload of a balance event. -/
def balancePayload (info : BalanceInfo) : Object :=
  [("action", .str "update"),
    ("data", .dict [("currentBalance", .number info.currentBalance), ("currentTopping", .number info.currentTopping),
      ("currentExpenses", .number info.currentExpenses)])]

/-- `refresh_and_broadcast`, and the store afterwards. -/
def refreshAndBroadcast (s : State) (mandatePath : String) : BalanceInfo × Redis :=
  let balanceInfo := getBalanceInfo s.wallets (some mandatePath) uid
  (balanceInfo,
    Realtime.UserCache.publishUserEvent (BalanceCache.updateBalanceCache s.redis s.now uid balanceInfo) s.now uid
      (balancePayload balanceInfo) "balance")

/-- A value computed now. -/
def sourceNow (s : State) (mandatePath : Option String) (userId : String) : Source where
  mandatePath := mandatePath
  computedAt := s.now
  info := getBalanceInfo s.wallets mandatePath userId

/-- One call. -/
def stepCall (s : State) : Call → State
  | .checkBalance mandatePath estimatedCost operation =>
      { s with
        redis := (checkBalance floatOfText uid s mandatePath estimatedCost operation).2
        source := if (getCachedBalance s.redis s.now uid).isSome then s.source
          else some (sourceNow s mandatePath uid) }
  | .refreshAndBroadcast mandatePath =>
      { s with
        redis := (refreshAndBroadcast uid s mandatePath).2
        source := some (sourceNow s (some mandatePath) uid) }
  | .wait seconds => { s with now := s.now + seconds }

/-- An event edits the value under the key, if there is one. -/
def Edits (s : State) (payload : Object) : Prop :=
  modeOf payload ≠ .replace ∧ (getCachedBalance s.redis s.now uid).isSome

instance (s : State) (payload : Object) : Decidable (Edits uid s payload) := inferInstanceAs (Decidable (_ ∧ _))

/-- An event is written to the cache; it is not if the items, or the changes, are not what the mode expects. -/
def Writes (s : State) (payload : Object) : Prop :=
  (editCache payload ((getCachedBalance s.redis s.now uid).getD (.dict []))).isSome

instance (s : State) (payload : Object) : Decidable (Writes uid s payload) := inferInstanceAs (Decidable (_ = _))

/-- One step. -/
def step (s : State) : Op → State
  | .call c => stepCall floatOfText uid s c
  | .walletsChanged wallets => { s with wallets := wallets }
  | .updateBalanceCache mandatePath userId =>
      { s with
        redis := BalanceCache.updateBalanceCache s.redis s.now uid (getBalanceInfo s.wallets mandatePath userId)
        source := some (sourceNow s mandatePath userId) }
  | .publishUserEvent payload cacheTtl =>
      { s with
        redis := Realtime.UserCache.publishUserEvent s.redis s.now uid payload "balance" cacheTtl
        source := if Writes uid s payload ∧ ¬Edits uid s payload then none else s.source }

end Service

/-! ### The value under the key -/

/-- The three amounts of a value. -/
structure HasAmounts (value : Data) (info : BalanceInfo) : Prop where
  dict : ∃ d, value = .dict d ∧ Object.get? d "current_balance" = some (.number info.currentBalance) ∧
    Object.get? d "current_expenses" = some (.number info.currentExpenses) ∧
    Object.get? d "current_topping" = some (.number info.currentTopping)

section Value

variable {floatOfText : String → Option ℚ} {uid : String} {s : State} {value : Data} {info : BalanceInfo}
  {payload : Object}

theorem hasAmounts_toObject (info : BalanceInfo) : HasAmounts (.dict info.toObject) info := ⟨_, rfl, rfl, rfl, rfl⟩

/-- A value with the amounts is read as the balance. -/
theorem HasAmounts.currentBalance (h : HasAmounts value info) :
    currentBalance? floatOfText value = some info.currentBalance := by
  obtain ⟨d, rfl, hbalance, -⟩ := h.dict
  rw [currentBalance?, hbalance]
  rfl

/-- Editing keeps the amounts. -/
theorem HasAmounts.editCache {value' : Data} (h : HasAmounts value info) (hmode : modeOf payload ≠ .replace)
    (hedit : editCache payload value = some value') : HasAmounts value' info := by
  obtain ⟨d, rfl, hbalance, hexpenses, htopping⟩ := h.dict
  obtain ⟨d', rfl, hsame⟩ := get?_editCache hmode hedit
  refine ⟨d', rfl, ?_, ?_, ?_⟩
  · rw [hsame _ (by decide), hbalance]
  · rw [hsame _ (by decide), hexpenses]
  · rw [hsame _ (by decide), htopping]

/-- The key of the cache is that of the balance events. -/
theorem userKey_balance (uid : String) : Realtime.UserCache.userKey uid "balance" = balanceKey uid := by
  rw [Realtime.UserCache.userKey, balanceKey, String.append_assoc]
  rfl

/-- The value that a balance event leaves of one that was just computed. -/
theorem editCache_balancePayload (info : BalanceInfo) :
    editCache (balancePayload info) (.dict info.toObject) =
      some (.dict (info.toObject ++ [("items", .list [])])) := rfl

end Value

/-! ### What one step does to the key -/

section Steps

variable {floatOfText : String → Option ℚ} {uid : String} {s : State} {info : BalanceInfo}

/-- The key after a write of the service. -/
theorem get?_updateBalanceCache (r : Redis) (now : ℚ) :
    (updateBalanceCache r now uid info).get? (balanceKey uid) =
      some ⟨.dict info.toObject, now + userBalanceTtl⟩ := Dict.get?_set_self ..

/-- The key after an event that is not written. -/
theorem publish_of_none {payload : Object} {cacheTtl : ℕ} (h : ¬Writes uid s payload) :
    Realtime.UserCache.publishUserEvent s.redis s.now uid payload "balance" cacheTtl = s.redis := by
  rw [Realtime.UserCache.publishUserEvent, userKey_balance]
  exact updateCache_of_none (Option.not_isSome_iff_eq_none.mp h)

/-- The key after an event that is written. -/
theorem publish_of_some {payload : Object} {value : Data} (cacheTtl : ℕ)
    (h : editCache payload ((getCachedBalance s.redis s.now uid).getD (.dict [])) = some value) :
    (Realtime.UserCache.publishUserEvent s.redis s.now uid payload "balance" cacheTtl).get? (balanceKey uid) =
      some ⟨value, s.now + eventTtl cacheTtl⟩ := by
  rw [Realtime.UserCache.publishUserEvent, userKey_balance, updateCache_of_some h]
  exact Dict.get?_set_self ..

/-- The key after a broadcast: the value is a new one, the lifetime that of a profile. -/
theorem get?_refreshAndBroadcast (mandatePath : String) :
    (refreshAndBroadcast uid s mandatePath).2.get? (balanceKey uid) =
      some ⟨.dict ((getBalanceInfo s.wallets (some mandatePath) uid).toObject ++ [("items", .list [])]),
        s.now + userProfileTtl⟩ := by
  let info := getBalanceInfo s.wallets (some mandatePath) uid
  let written : State := { s with redis := updateBalanceCache s.redis s.now uid info }
  have hcached : getCachedBalance written.redis written.now uid = some (.dict info.toObject) := by
    have hle : s.now ≤ s.now + (userBalanceTtl : ℚ) := le_add_of_nonneg_right (Nat.cast_nonneg _)
    exact get_setex.trans (if_pos hle)
  refine publish_of_some (s := written) userProfileTtl ?_
  rw [hcached]
  exact editCache_balancePayload info

/-- A check that finds the key. -/
theorem checkBalance_of_some {value : Data} (h : getCachedBalance s.redis s.now uid = some value)
    (mandatePath : Option String) (estimatedCost : ℚ) (operation : String) :
    checkBalance floatOfText uid s mandatePath estimatedCost operation =
      ((match currentBalance? floatOfText value with
        | some currentBalance => resultOf currentBalance estimatedCost operation
        | none => failsafe estimatedCost), s.redis) := by
  rw [checkBalance, h]
  dsimp only
  cases currentBalance? floatOfText value <;> rfl

/-- A check that does not find it. -/
theorem checkBalance_of_none (h : getCachedBalance s.redis s.now uid = none) (mandatePath : Option String)
    (estimatedCost : ℚ) (operation : String) :
    checkBalance floatOfText uid s mandatePath estimatedCost operation =
      (resultOf (getBalanceInfo s.wallets mandatePath uid).currentBalance estimatedCost operation,
        updateBalanceCache s.redis s.now uid (getBalanceInfo s.wallets mandatePath uid)) := by
  rw [checkBalance, h]
  dsimp only
  rw [(hasAmounts_toObject _).currentBalance]

/-- A check that finds the key changes nothing. -/
theorem stepCall_of_some {value : Data} (h : getCachedBalance s.redis s.now uid = some value)
    (mandatePath : Option String) (estimatedCost : ℚ) (operation : String) :
    stepCall floatOfText uid s (.checkBalance mandatePath estimatedCost operation) = s := by
  rw [stepCall, checkBalance_of_some h, h]
  rfl

/-- A check that does not find it writes what it computes. -/
theorem stepCall_of_none (h : getCachedBalance s.redis s.now uid = none) (mandatePath : Option String)
    (estimatedCost : ℚ) (operation : String) :
    stepCall floatOfText uid s (.checkBalance mandatePath estimatedCost operation) =
      { s with
        redis := updateBalanceCache s.redis s.now uid (getBalanceInfo s.wallets mandatePath uid)
        source := some (sourceNow s mandatePath uid) } := by
  rw [stepCall, checkBalance_of_none h, h]
  rfl

/-- A value that is read is under the key, and not expired. -/
theorem getCachedBalance_eq_some {value : Data} {t : ℚ} :
    getCachedBalance s.redis t uid = some value ↔
      ∃ e, s.redis.get? (balanceKey uid) = some e ∧ t ≤ e.expires ∧ e.value = value := by
  unfold getCachedBalance Realtime.UserCache.get
  cases s.redis.get? (balanceKey uid) with
  | none => simp
  | some e =>
      dsimp only
      by_cases hle : t ≤ e.expires
      · simp [hle]
      · simp [hle]

end Steps

/-! ### The mandate of a check -/

section Checks

variable {floatOfText : String → Option ℚ} {uid : String} {s : State} {wallets : Wallets}

/-- The value under the key is what was computed for a mandate of the user's calls. -/
structure Tracked (uid : String) (wallets : Wallets) (s : State) : Prop where
  wallets_eq : s.wallets = wallets
  value : ∀ e, s.redis.get? (balanceKey uid) = some e → ∃ source, s.source = some source ∧
    source.info = getBalanceInfo wallets source.mandatePath uid ∧ HasAmounts e.value source.info

/-- **What a call leaves under the key.** -/
theorem tracked_step (h : Tracked uid wallets s) (c : Call) : Tracked uid wallets (stepCall floatOfText uid s c) := by
  have hnow (mandatePath : Option String) :
      (sourceNow s mandatePath uid).info = getBalanceInfo wallets mandatePath uid := by
    rw [sourceNow, h.wallets_eq]
  cases c with
  | checkBalance mandatePath estimatedCost operation =>
      cases hcached : getCachedBalance s.redis s.now uid with
      | some value =>
          rw [stepCall_of_some hcached]
          exact h
      | none =>
          rw [stepCall_of_none hcached]
          refine ⟨h.wallets_eq, fun e he => ?_⟩
          obtain rfl := Option.some.inj ((get?_updateBalanceCache s.redis s.now).symm.trans he)
          exact ⟨_, rfl, hnow mandatePath, hasAmounts_toObject _⟩
  | refreshAndBroadcast mandatePath =>
      refine ⟨h.wallets_eq, fun e he => ?_⟩
      obtain rfl := Option.some.inj ((get?_refreshAndBroadcast mandatePath).symm.trans he)
      exact ⟨_, rfl, hnow (some mandatePath), _, rfl, rfl, rfl, rfl⟩
  | wait seconds => exact ⟨h.wallets_eq, h.value⟩

/-- No value under the key. -/
def start (wallets : Wallets) (now : ℚ) : State := ⟨∅, wallets, now, none⟩

theorem tracked_run (wallets : Wallets) (now : ℚ) (calls : List Call) :
    Tracked uid wallets (run (stepCall floatOfText uid) (start wallets now) calls) := by
  induction calls using List.reverseRecOn with
  | nil => exact ⟨rfl, fun e he => by cases he⟩
  | append_singleton calls c ih =>
      rw [run_concat]
      exact tracked_step ih c

/-- The wallet that the cached value was computed from has the balance of the mandate's own one. -/
def SameBalance (uid : String) (s : State) (mandatePath : Option String) : Prop :=
  (getCachedBalance s.redis s.now uid).isSome → ∀ source, s.source = some source →
    (walletOf s.wallets (ownerOf source.mandatePath uid)).currentBalance =
      (walletOf s.wallets (ownerOf mandatePath uid)).currentBalance

/-- **A check after any calls of the user** uses the balance of its mandate exactly when the key is not there or was
filled from a wallet with the same balance. -/
theorem check_balance_agrees_iff (floatOfText : String → Option ℚ) (uid : String) (wallets : Wallets) (now : ℚ)
    (calls : List Call) (mandatePath : Option String) (estimatedCost : ℚ) (operation : String) :
    let s := run (stepCall floatOfText uid) (start wallets now) calls
    (checkBalance floatOfText uid s mandatePath estimatedCost operation).1.currentBalance =
        (getBalanceInfo wallets mandatePath uid).currentBalance ↔
      SameBalance uid s mandatePath := by
  intro s
  have htracked : Tracked uid wallets s := tracked_run wallets now calls
  rw [SameBalance, htracked.wallets_eq]
  cases hcached : getCachedBalance s.redis s.now uid with
  | none =>
      rw [checkBalance_of_none hcached, htracked.wallets_eq]
      exact ⟨fun _ hsome => Bool.noConfusion hsome, fun _ => rfl⟩
  | some value =>
      obtain ⟨source, hsource, hinfo, hamounts⟩ : ∃ source, s.source = some source ∧
          source.info = getBalanceInfo wallets source.mandatePath uid ∧ HasAmounts value source.info := by
        obtain ⟨e, he, -, rfl⟩ := getCachedBalance_eq_some.mp hcached
        exact htracked.value e he
      rw [checkBalance_of_some hcached, hamounts.currentBalance, hinfo, hsource]
      constructor
      · intro hagrees _ other hother
        cases hother
        exact hagrees
      · exact fun hsame => hsame rfl source rfl

end Checks

/-- Another owner's wallet is empty, and yet a check for it finds the balance of the mandate checked before. -/
theorem check_balance_of_other_owner :
    let wallets : Wallets := Dict.ofList [("u1", Dict.ofList [("current_balance", some 10)])]
    let s := run (stepCall (fun _ => none) "u1") (start wallets 0)
      [.checkBalance (some "clients/u1/bo_clients/c1/mandates/m1") 1 "router"]
    let other := some "clients/u2/bo_clients/c2/mandates/m2"
    (checkBalance (fun _ => none) "u1" s other 1 "router").1.currentBalance = 10 ∧
      (checkBalance (fun _ => none) "u1" s other 1 "router").1.sufficient = true ∧
      (getBalanceInfo wallets other "u1").currentBalance = 0 := by
  decide +kernel

/-! ### The lifetime of a value -/

/-- What is read at a time was computed at most five minutes before. -/
def ReturnsFresh (uid : String) (s : State) (t : ℚ) : Prop :=
  ∀ value, getCachedBalance s.redis t uid = some value → ∃ source, s.source = some source ∧
    t ≤ source.computedAt + userBalanceTtl ∧ HasAmounts value source.info

/-- Whenever the cache is read next, it returns no older value. -/
def StaysFresh (uid : String) (s : State) : Prop := ∀ t, s.now ≤ t → ReturnsFresh uid s t

/-- The balance is not broadcast; an event that is written edits a value, and gives it no more time than it has. -/
def KeepsFresh (uid : String) (s : State) : Op → Prop
  | .call (.refreshAndBroadcast _) => False
  | .publishUserEvent payload cacheTtl =>
      Writes uid s payload → Edits uid s payload ∧
        ∀ source, s.source = some source → s.now + eventTtl cacheTtl ≤ source.computedAt + userBalanceTtl
  | _ => True

section Lifetime

variable {floatOfText : String → Option ℚ} {uid : String} {s : State}

/-- A key that is there has a value that expires in time. -/
theorem staysFresh_iff : StaysFresh uid s ↔ ∀ e, s.redis.get? (balanceKey uid) = some e → s.now ≤ e.expires →
    ∃ source, s.source = some source ∧ e.expires ≤ source.computedAt + userBalanceTtl ∧
      HasAmounts e.value source.info := by
  constructor
  · exact fun h e he hlive => h e.expires hlive e.value (getCachedBalance_eq_some.mpr ⟨e, he, le_rfl, rfl⟩)
  · intro h t ht value hvalue
    obtain ⟨e, he, hle, rfl⟩ := getCachedBalance_eq_some.mp hvalue
    obtain ⟨source, hsource, hexpires, hamounts⟩ := h e he (ht.trans hle)
    exact ⟨source, hsource, hle.trans hexpires, hamounts⟩

/-- The only value under the key. -/
theorem staysFresh_of_entry {e : Entry} (he : s.redis.get? (balanceKey uid) = some e) (hlive : s.now ≤ e.expires) :
    StaysFresh uid s ↔ ∃ source, s.source = some source ∧ e.expires ≤ source.computedAt + userBalanceTtl ∧
      HasAmounts e.value source.info := by
  rw [staysFresh_iff]
  constructor
  · exact fun h => h e he hlive
  · intro h e' he' _
    obtain rfl := Option.some.inj (he.symm.trans he')
    exact h

/-- A value that has just been computed, with the lifetime that the service gives it. -/
theorem staysFresh_update (mandatePath : Option String) (userId : String) :
    StaysFresh uid { s with
      redis := updateBalanceCache s.redis s.now uid (getBalanceInfo s.wallets mandatePath userId)
      source := some (sourceNow s mandatePath userId) } := by
  have hlive : s.now ≤ s.now + (userBalanceTtl : ℚ) := le_add_of_nonneg_right (Nat.cast_nonneg _)
  rw [staysFresh_of_entry (get?_updateBalanceCache s.redis s.now) hlive]
  exact ⟨_, rfl, le_rfl, hasAmounts_toObject _⟩

/-- **A broadcast** gives the value a day. -/
theorem not_staysFresh_refresh (mandatePath : String) :
    ¬StaysFresh uid (stepCall floatOfText uid s (.refreshAndBroadcast mandatePath)) := by
  have hlive : s.now ≤ s.now + (userProfileTtl : ℚ) := le_add_of_nonneg_right (Nat.cast_nonneg _)
  have hentry : (stepCall floatOfText uid s (.refreshAndBroadcast mandatePath)).redis.get? (balanceKey uid) = _ :=
    get?_refreshAndBroadcast mandatePath
  rw [staysFresh_of_entry hentry hlive]
  rintro ⟨source, hsource, hle, -⟩
  cases hsource
  have hday : s.now + (86400 : ℕ) ≤ s.now + (300 : ℕ) := hle
  have hdays : ((86400 : ℕ) : ℚ) ≤ (300 : ℕ) := le_of_add_le_add_left hday
  exact absurd (Nat.cast_le.mp hdays) (by decide)

/-- **An event** that is written. -/
theorem staysFresh_publish {payload : Object} (cacheTtl : ℕ) (h : StaysFresh uid s) :
    StaysFresh uid (step floatOfText uid s (.publishUserEvent payload cacheTtl)) ↔
      KeepsFresh uid s (.publishUserEvent payload cacheTtl) := by
  by_cases hwrites : Writes uid s payload
  · obtain ⟨value, hvalue⟩ := Option.isSome_iff_exists.mp hwrites
    have hlive : s.now ≤ s.now + (eventTtl cacheTtl : ℚ) := le_add_of_nonneg_right (Nat.cast_nonneg _)
    have hentry : (step floatOfText uid s (.publishUserEvent payload cacheTtl)).redis.get? (balanceKey uid) = _ :=
      publish_of_some cacheTtl hvalue
    rw [staysFresh_of_entry hentry hlive]
    by_cases hedits : Edits uid s payload
    · have hsame : (step floatOfText uid s (.publishUserEvent payload cacheTtl)).source = s.source :=
        if_neg fun hboth => hboth.2 hedits
      obtain ⟨cached, hcached⟩ := Option.isSome_iff_exists.mp hedits.2
      obtain ⟨source, hsource, -, hamounts⟩ := h s.now le_rfl cached hcached
      rw [hcached] at hvalue
      rw [hsame]
      constructor
      · rintro ⟨other, hother, hle, -⟩ _
        refine ⟨hedits, fun source' hsource' => ?_⟩
        obtain rfl := Option.some.inj (hother.symm.trans hsource')
        exact hle
      · exact fun hkeeps => ⟨source, hsource, (hkeeps hwrites).2 source hsource, hamounts.editCache hedits.1 hvalue⟩
    · -- the value is the payload, or made of nothing
      have hnone : (step floatOfText uid s (.publishUserEvent payload cacheTtl)).source = none :=
        if_pos ⟨hwrites, hedits⟩
      rw [hnone]
      constructor
      · rintro ⟨source, hsource, -⟩
        cases hsource
      · exact fun hkeeps => absurd (hkeeps hwrites).1 hedits
  · have hstate : step floatOfText uid s (.publishUserEvent payload cacheTtl) = s := by
      rw [step, publish_of_none hwrites, if_neg fun hboth => hwrites hboth.1]
    rw [hstate]
    exact ⟨fun _ hboth => absurd hboth hwrites, fun _ => h⟩

/-- **One step.** -/
theorem staysFresh_step (op : Op) (h : StaysFresh uid s) :
    StaysFresh uid (step floatOfText uid s op) ↔ KeepsFresh uid s op := by
  cases op with
  | call c =>
      cases c with
      | checkBalance mandatePath estimatedCost operation =>
          refine iff_of_true ?_ trivial
          rw [step]
          cases hcached : getCachedBalance s.redis s.now uid with
          | some value =>
              rw [stepCall_of_some hcached]
              exact h
          | none =>
              rw [stepCall_of_none hcached]
              exact staysFresh_update mandatePath uid
      | refreshAndBroadcast mandatePath =>
          have hnot : ¬StaysFresh uid (stepCall floatOfText uid s (.refreshAndBroadcast mandatePath)) :=
            not_staysFresh_refresh mandatePath
          exact iff_of_false hnot id
      | wait seconds =>
          refine iff_of_true (fun t ht => h t ?_) trivial
          exact le_trans (le_add_of_nonneg_right seconds.2) ht
  | walletsChanged wallets => exact iff_of_true h trivial
  | updateBalanceCache mandatePath userId => exact iff_of_true (staysFresh_update mandatePath userId) trivial
  | publishUserEvent payload cacheTtl => exact staysFresh_publish cacheTtl h

end Lifetime

/-- **No value is served later than five minutes after it was computed**, at any point of a sequence and however long
one waits there, exactly when every step keeps to the lifetime. -/
theorem cached_balance_fresh_iff (floatOfText : String → Option ℚ) (uid : String) (wallets : Wallets) (now : ℚ)
    (ops : List Op) :
    (∀ pre, pre <+: ops → StaysFresh uid (run (step floatOfText uid) (start wallets now) pre)) ↔
      Guarded (step floatOfText uid) (KeepsFresh uid) (start wallets now) ops := by
  have hstart : StaysFresh uid (start wallets now) := by
    intro t _ value hvalue
    cases hvalue
  rw [forall_prefix_iff_guarded (StaysFresh uid) (start wallets now) ops fun s op _ h => staysFresh_step op h,
    and_iff_right hstart]

/-- Five minutes and a second after a broadcast, the value of the broadcast is still served. -/
theorem broadcast_outlives_value :
    let wallets : Wallets := Dict.ofList [("u1", Dict.ofList [("current_balance", some 10)])]
    let s := run (step (fun _ => none) "u1") (start wallets 0)
      [.call (.refreshAndBroadcast "clients/u1/bo_clients/c1/mandates/m1"), .call (.wait 301)]
    ¬ReturnsFresh "u1" s s.now := by
  intro wallets s hfresh
  have hread : (getCachedBalance s.redis s.now "u1").isSome = true := by decide +kernel
  obtain ⟨value, hvalue⟩ := Option.isSome_iff_exists.mp hread
  obtain ⟨source, hsource, hle, -⟩ := hfresh value hvalue
  cases hsource
  exact absurd hle (by decide +kernel)

end Pinnokio.Billing.BalanceCache
