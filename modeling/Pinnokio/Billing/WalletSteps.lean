import Pinnokio.Lib.Interleaving
import Pinnokio.Billing.TopUp

/-!
# Payment notifications and recomputations in atomic steps

The recomputation of a balance takes a Redis lock, so that no expense is counted twice.  The notification of a
payment changes the same wallet without the lock: both read the wallet, compute, and write single fields back.

* `next` — one Redis command, read, write or commit of a call;
* `alone_getUserBalance`, `alone_processStripeWebhook` — a call that runs alone is the sequential operation;
* `next_lockStep` — what one command does to the lock of its user;
* `lock_excludes` — at most one recomputation of a user is past its lock.
-/

namespace Pinnokio.Billing

open Pinnokio.Interleaving

/-! ### Calls in progress -/

/-- The documents, and the locks in Redis with their tokens. -/
structure World where
  db : Db
  redis : Dict String ℕ

/-- `lock:billing:balance:{user_id}`. -/
def lockKeyOf (userId : String) : String := "lock:billing:balance:" ++ userId

/-- The local variables of `get_user_balance`.  The token of a call is its number, for a fresh `uuid4`. -/
structure Recompute where
  mandatePath : String
  userId : String
  lockToken : ℕ
  lockAcquired : Bool
  wallet : Wallet
  pending : List ((String × String) × Transaction)
  unbilled : List ((String × String) × Expense)
  result : Option ℚ

namespace Recompute

/-- `lock_key`. -/
def lockKey (r : Recompute) : String := lockKeyOf r.userId

/-- `current_topping` after step 2. -/
def topping (r : Recompute) : ℚ :=
  if toppingOf r.pending > 0 then r.wallet.currentTopping + toppingOf r.pending else r.wallet.currentTopping

/-- `current_expenses` after step 3. -/
def expenses (r : Recompute) : ℚ :=
  if expensesOf r.unbilled > 0 then r.wallet.currentExpenses + expensesOf r.unbilled
  else r.wallet.currentExpenses

end Recompute

/-- The next command of a recomputation. -/
inductive Stage where
  | acquire
  | busy
  | read
  | queryPending
  | commitAdded
  | writeTopping
  | queryExpenses
  | commitBilled
  | writeExpenses
  | writeBalance
  | release
  | unlock
  | returned
  deriving DecidableEq

/-- Local state of a call: a payment notification before its read of the transaction, its update of the
transaction, its read of the wallet or its write of the wallet, or a recomputation. -/
inductive Pc where
  | webhook (event : StripeEvent)
  | markPaid (m : Metadata) (amount : ℚ)
  | readWallet (m : Metadata) (amount : ℚ)
  | credit (m : Metadata) (amount : ℚ) (read : Wallet)
  | handled (r : WebhookResult)
  | balance (stage : Stage) (r : Recompute)

/-- A call. -/
inductive Call where
  | webhook (event : StripeEvent)
  | balance (mandatePath userId : String)

/-- The user `get_user_balance` works for. -/
def resolveUser (mandatePath userId : String) : String :=
  if mandatePath ≠ "" then userIdOf mandatePath else userId

/-- The local state a call starts in. -/
def Call.start (token : ℕ) : Call → Pc
  | .webhook event => .webhook event
  | .balance mandatePath userId => .balance .acquire
      ⟨mandatePath, resolveUser mandatePath userId, token, false, ⟨0, 0, 0⟩, [], [], none⟩

/-- A notification up to its read of the transaction. -/
def readTransaction (db : Db) (event : StripeEvent) : Pc :=
  let m := event.metadata
  if event.type ≠ "checkout.session.completed" ∨ m.paymentType ≠ "top_up" then
    .handled (.ignored event.type)
  else if m.userId = "" ∨ m.mandatePath = "" ∨ m.transactionId = "" then
    .handled (.failed "Missing required metadata")
  else
    match db.transactions.get? m.transactionPath with
    | none => .handled (.failed "Transaction not found")
    | some t =>
        match event.paymentIntent.error? with
        | some error => .handled (.failed error)
        | none => .markPaid m t.amount

/-- A notification is answered, or goes on with the amount of its transaction. -/
theorem readTransaction_cases (db : Db) (event : StripeEvent) :
    (∃ eventType, readTransaction db event = .handled (.ignored eventType)) ∨
      (∃ error, readTransaction db event = .handled (.failed error)) ∨
      ∃ amount, readTransaction db event = .markPaid event.metadata amount := by
  rw [readTransaction]
  split
  · exact .inl ⟨_, rfl⟩
  · split
    · exact .inr (.inl ⟨_, rfl⟩)
    · split
      · exact .inr (.inl ⟨_, rfl⟩)
      · split
        · exact .inr (.inl ⟨_, rfl⟩)
        · exact .inr (.inr ⟨_, rfl⟩)

/-- After the read of the wallet. -/
def afterRead (r : Recompute) : Pc :=
  if r.mandatePath = "" then .balance .release { r with result := none }
  else if ¬isDocPath r.mandatePath then .balance .release { r with result := some 0 }
  else .balance .queryPending r

/-- After the query for pending top-ups, without a batch to commit; and after its commit. -/
def afterAdded (r : Recompute) : Pc :=
  if toppingOf r.pending > 0 then .balance .writeTopping r else .balance .queryExpenses r

/-- After the read of the expenses, without a batch to commit; and after its commit. -/
def afterBilled (r : Recompute) : Pc :=
  if expensesOf r.unbilled > 0 then .balance .writeExpenses r
  else if toppingOf r.pending > 0 then .balance .writeBalance r
  else .balance .release { r with result := some r.wallet.currentBalance }

/-- A recomputation makes its next command. -/
def recompute (w : World) (r : Recompute) : Stage → Option (World × Pc)
  | .acquire =>
      if r.userId = "" then some (w, .balance .returned { r with result := some 0 })
      else
        -- `SET key token NX`
        match w.redis.get? r.lockKey with
        | some _ => some (w, .balance .busy r)
        | none => some ({ w with redis := w.redis.set r.lockKey r.lockToken },
            .balance .read { r with lockAcquired := true })
  | .busy => some (w, .balance .release { r with result := some (w.db.wallets r.userId).currentBalance })
  | .read => some (w, afterRead { r with wallet := w.db.wallets r.userId })
  | .queryPending =>
      let r := { r with pending := pendingTransactions w.db r.mandatePath }
      some (w, if r.pending = [] then afterAdded r else .balance .commitAdded r)
  | .commitAdded => some ({ w with db := markAdded w.db (r.pending.map Prod.fst) }, afterAdded r)
  | .writeTopping =>
      some ({ w with db := w.db.setWallet r.userId fun x => { x with currentTopping := r.topping } },
        .balance .queryExpenses r)
  | .queryExpenses =>
      let r := { r with unbilled := unbilledExpenses w.db r.mandatePath }
      some (w, if r.unbilled = [] then afterBilled r else .balance .commitBilled r)
  | .commitBilled =>
      match markBilled w.db (billedRefs r.mandatePath r.unbilled) with
      | none => some (w, .balance .release { r with unbilled := [], result := some 0 })
      | some db => some ({ w with db := db }, afterBilled r)
  | .writeExpenses =>
      some ({ w with db := w.db.setWallet r.userId fun x => { x with currentExpenses := r.expenses } },
        .balance .writeBalance r)
  | .writeBalance =>
      some ({ w with db := w.db.setWallet r.userId fun x =>
          { x with currentBalance := r.topping - r.expenses } },
        .balance .release { r with result := some (r.topping - r.expenses) })
  | .release =>
      if w.redis.get? r.lockKey = some r.lockToken then some (w, .balance .unlock r)
      else some (w, .balance .returned r)
  | .unlock => some ({ w with redis := w.redis.erase r.lockKey }, .balance .returned r)
  | .returned => none

/-- The next command of a call. -/
def next (w : World) : Pc → Option (World × Pc)
  | .webhook event => some (w, readTransaction w.db event)
  | .markPaid m amount =>
      some ({ w with db := w.db.modifyTransaction m.transactionPath fun t => { t with status := .added } },
        .readWallet m amount)
  | .readWallet m amount => some (w, .credit m amount (w.db.wallets m.userId))
  | .credit m amount read =>
      some ({ w with db := w.db.setWallet m.userId fun x =>
          { x with
            currentBalance := read.currentBalance + amount
            currentTopping := read.currentTopping + amount } },
        .handled (.credited m.transactionId amount))
  | .handled _ => none
  | .balance stage r => recompute w r stage

/-! ### A call that runs alone -/

section Alone

variable {w : World} {r : Recompute} {u : String}

/-- The `finally` block of the call that has the lock. -/
theorem alone_release (h : w.redis.get? r.lockKey = some r.lockToken) :
    Alone next w (.balance .release r)
      ({ w with redis := w.redis.erase r.lockKey }, .balance .returned r) := by
  have hget : next w (.balance .release r) = some (w, .balance .unlock r) := by
    simp [next, recompute, h]
  exact Alone.step hget (Alone.step rfl (Alone.refl _ _))

/-- The writes after the expenses are marked, and the balance they lead to. -/
def settled (db : Db) (r : Recompute) : Db × ℚ :=
  let db := if expensesOf r.unbilled > 0 then
      db.setWallet r.userId fun x => { x with currentExpenses := r.expenses }
    else db
  if toppingOf r.pending > 0 ∨ expensesOf r.unbilled > 0 then
    (db.setWallet r.userId fun x => { x with currentBalance := r.topping - r.expenses },
      r.topping - r.expenses)
  else (db, r.wallet.currentBalance)

theorem alone_afterBilled (h : w.redis.get? r.lockKey = some r.lockToken) :
    Alone next w (afterBilled r) (⟨(settled w.db r).1, w.redis.erase r.lockKey⟩,
      .balance .returned { r with result := some (settled w.db r).2 }) := by
  unfold afterBilled settled
  by_cases he : expensesOf r.unbilled > 0
  · simp only [he, if_true, or_true]
    exact Alone.step rfl (Alone.step rfl (alone_release h))
  · by_cases ht : toppingOf r.pending > 0
    · simp only [he, ht, if_true, if_false, or_false]
      exact Alone.step rfl (alone_release h)
    · simp only [he, ht, if_false, or_false]
      exact alone_release h

/-- Steps 3 and 4 of the recomputation. -/
theorem alone_queryExpenses (h : w.redis.get? r.lockKey = some r.lockToken) :
    ∃ w' x, Alone next w (.balance .queryExpenses r) (w', .balance .returned x) ∧ (w'.db, x.result) =
      match markBilled w.db (billedRefs r.mandatePath (unbilledExpenses w.db r.mandatePath)) with
      | none => (w.db, some 0)
      | some db => ((settled db { r with unbilled := unbilledExpenses w.db r.mandatePath }).1,
          some (settled db { r with unbilled := unbilledExpenses w.db r.mandatePath }).2) := by
  let r' : Recompute := { r with unbilled := unbilledExpenses w.db r.mandatePath }
  by_cases hu : unbilledExpenses w.db r.mandatePath = []
  · have hm : markBilled w.db (billedRefs r.mandatePath (unbilledExpenses w.db r.mandatePath)) =
        some w.db := by
      simp [hu, markBilled, billedRefs, Dict.modifyAll]
    have hstep : next w (.balance .queryExpenses r) = some (w, afterBilled r') := by
      simp [next, recompute, hu, r']
    rw [hm]
    exact ⟨_, _, Alone.step hstep (alone_afterBilled (r := r') h), rfl⟩
  · have hstep : next w (.balance .queryExpenses r) = some (w, .balance .commitBilled r') := by
      simp [next, recompute, hu, r']
    cases hm : markBilled w.db (billedRefs r.mandatePath (unbilledExpenses w.db r.mandatePath)) with
    | none =>
        have hfail : next w (.balance .commitBilled r') =
            some (w, .balance .release { r' with unbilled := [], result := some 0 }) := by
          simp [next, recompute, hm, r']
        exact ⟨_, _, Alone.step hstep (Alone.step hfail
          (alone_release (r := { r' with unbilled := [], result := some 0 }) h)), rfl⟩
    | some db =>
        have hcommit : next w (.balance .commitBilled r') = some ({ w with db := db }, afterBilled r') := by
          simp [next, recompute, hm, r']
        exact ⟨_, _, Alone.step hstep (Alone.step hcommit
          (alone_afterBilled (w := { w with db := db }) (r := r') h)), rfl⟩

/-- Step 2 of the recomputation. -/
theorem alone_queryPending {q : World × Pc} (hq : Alone next
      { w with db := (addPending w.db r.userId r.mandatePath r.wallet.currentTopping).1 }
      (.balance .queryExpenses { r with pending := pendingTransactions w.db r.mandatePath }) q) :
    Alone next w (.balance .queryPending r) q := by
  have hafter : ∀ db, db = markAdded w.db ((pendingTransactions w.db r.mandatePath).map Prod.fst) →
      Alone next { w with db := db }
        (afterAdded { r with pending := pendingTransactions w.db r.mandatePath }) q := by
    rintro _ rfl
    unfold afterAdded
    unfold addPending at hq
    by_cases ht : toppingOf (pendingTransactions w.db r.mandatePath) > 0
    · simp only [ht, if_true] at hq ⊢
      refine Alone.step ?_ hq
      simp [next, recompute, Recompute.topping, ht]
    · simpa only [ht, if_false] using hq
  by_cases hp : pendingTransactions w.db r.mandatePath = []
  · refine Alone.step ?_ (hafter w.db ?_)
    · simp [next, recompute, hp]
    · simp [hp, markAdded, Dict.modifyAll]
  · have hstep : next w (.balance .queryPending r) = some (w, .balance .commitAdded
        { r with pending := pendingTransactions w.db r.mandatePath }) := by
      simp [next, recompute, hp]
    exact Alone.step hstep (Alone.step rfl (hafter _ rfl))

/-- The recomputation from the read of the wallet on. -/
theorem alone_read (hl : w.redis.get? r.lockKey = some r.lockToken) (hne : r.userId ≠ "")
    (hu : r.userId = resolveUser r.mandatePath u) :
    ∃ w' x, Alone next w (.balance .read r) (w', .balance .returned x) ∧
      (w'.db, x.result) = getUserBalance w.db r.mandatePath u := by
  have hread : next w (.balance .read r) =
    some (w, afterRead { r with wallet := w.db.wallets r.userId }) := rfl
  have hu' : (if r.mandatePath ≠ "" then userIdOf r.mandatePath else u) = r.userId := hu.symm
  by_cases hm : r.mandatePath = ""
  · simp only [afterRead, hm, if_true] at hread
    refine ⟨_, _, Alone.step hread (alone_release hl), ?_⟩
    unfold getUserBalance
    rw [hu', if_neg hne, if_pos hm]
  by_cases hd : isDocPath r.mandatePath = true
  · simp only [afterRead, hm, hd, not_true_eq_false, if_false] at hread
    obtain ⟨w', x, hrest, hres⟩ := alone_queryExpenses
      (w := { w with db := (addPending w.db r.userId r.mandatePath
        (w.db.wallets r.userId).currentTopping).1 })
      (r := { r with wallet := w.db.wallets r.userId, pending := pendingTransactions w.db r.mandatePath }) hl
    refine ⟨w', x, Alone.step hread (alone_queryPending hrest), hres.trans ?_⟩
    simp only [getUserBalance, hu', hne, hm, hd, not_true_eq_false, if_false, addPending_added]
    generalize addPending w.db r.userId r.mandatePath (w.db.wallets r.userId).currentTopping = topped
    cases markBilled topped.1 (billedRefs r.mandatePath (unbilledExpenses topped.1 r.mandatePath)) with
    | none => rfl
    | some db =>
        simp only [settled, Recompute.topping, Recompute.expenses]
        split <;> rfl
  · simp only [afterRead, hm, hd, if_false] at hread
    refine ⟨_, _, Alone.step hread (alone_release hl), ?_⟩
    simp only [getUserBalance, hu', hne, hm, hd, if_false]
    rfl

/-- **A recomputation that runs alone** is `getUserBalance`. -/
theorem alone_getUserBalance (hfree : w.redis.get? r.lockKey = none)
    (hu : r.userId = resolveUser r.mandatePath u) :
    ∃ w' x, Alone next w (.balance .acquire r) (w', .balance .returned x) ∧
      (w'.db, x.result) = getUserBalance w.db r.mandatePath u := by
  by_cases hne : r.userId = ""
  · refine ⟨w, { r with result := some 0 }, Alone.step ?_ (Alone.refl _ _), ?_⟩
    · simp only [next, recompute, hne, if_true]
    · have hu' : (if r.mandatePath ≠ "" then userIdOf r.mandatePath else u) = "" := hu.symm.trans hne
      simp only [getUserBalance, hu', if_true]
  · obtain ⟨w', x, hrest, hres⟩ := alone_read (u := u)
      (w := { w with redis := w.redis.set r.lockKey r.lockToken }) (r := { r with lockAcquired := true })
      (Dict.get?_set_self _ _ _) hne hu
    refine ⟨w', x, Alone.step ?_ hrest, hres⟩
    simp only [next, recompute, hne, hfree, if_false]

theorem Db.setWallet_congr {db : Db} {userId : String} {f g : Wallet → Wallet}
    (h : f (db.wallets userId) = g (db.wallets userId)) : db.setWallet userId f = db.setWallet userId g := by
  simp only [Db.setWallet, Db.mk.injEq, and_true]
  funext v
  by_cases hv : v = userId
  · simp [hv, h]
  · simp [hv]

/-- **A notification that is handled alone** is `processStripeWebhook`. -/
theorem alone_processStripeWebhook (event : StripeEvent) :
    Alone next w (.webhook event) ({ w with db := (processStripeWebhook w.db event).1 },
      .handled (processStripeWebhook w.db event).2) := by
  refine Alone.step rfl ?_
  unfold readTransaction processStripeWebhook
  dsimp only
  split
  · exact Alone.refl _ _
  · split
    · exact Alone.refl _ _
    · cases w.db.transactions.get? event.metadata.transactionPath with
      | none => exact Alone.refl _ _
      | some t =>
          cases event.paymentIntent.error? with
          | some error => exact Alone.refl _ _
          | none =>
              refine Alone.step rfl (Alone.step rfl (Alone.step ?_ (Alone.refl _ _)))
              simp only [next, Option.some.injEq, Prod.mk.injEq, and_true, World.mk.injEq]
              exact Db.setWallet_congr rfl

end Alone

/-! ### The lock -/

/-- The call works for the user. -/
def Pc.isOf (u : String) : Pc → Prop
  | .webhook event => event.metadata.userId = u
  | .markPaid m _ => m.userId = u
  | .readWallet m _ => m.userId = u
  | .credit m _ _ => m.userId = u
  | .handled _ => True
  | .balance _ r => r.userId = u ∧ normalizeMandatePath r.mandatePath = r.mandatePath

/-- The call has the lock. -/
def Pc.holding : Pc → Bool
  | .balance stage r => r.lockAcquired && decide (stage ≠ .returned)
  | _ => false

/-- The token of a recomputation. -/
def Pc.token? : Pc → Option ℕ
  | .balance _ r => some r.lockToken
  | _ => none

/-- Between its lock and its release a recomputation has the lock. -/
def Pc.lockedIn : Pc → Prop
  | .balance stage r => (stage = .acquire ∨ stage = .busy → r.lockAcquired = false) ∧
      (stage ∉ [.acquire, .busy, .release, .returned] → r.lockAcquired = true)
  | _ => True

/-- Everything a command can do to the lock of its user. -/
inductive LockMove (key : String) (w w' : World) (t t' : Pc) : Prop where
  | keep (hr : w'.redis = w.redis) (hh : t'.holding = t.holding)
  | take (n : ℕ) (hn : t'.token? = some n) (hw : w.redis.get? key = none)
      (hr : w'.redis = w.redis.set key n) (hh : t'.holding = true)
  | leave (n : ℕ) (hn : t.token? = some n) (hr : w'.redis = w.redis) (hw : w.redis.get? key ≠ some n)
      (hh : t'.holding = false)
  | drop (ht : t.holding = true) (hr : w'.redis = w.redis.erase key) (hh : t'.holding = false)

section Steps

variable {u : String} {w w' : World} {t t' : Pc}

theorem afterRead_cases (r : Recompute) : ∃ stage x, afterRead r = .balance stage { r with result := x } ∧
    (stage = .release ∨ stage = .queryPending) := by
  unfold afterRead
  split
  · exact ⟨_, _, rfl, Or.inl rfl⟩
  · split
    · exact ⟨_, _, rfl, Or.inl rfl⟩
    · exact ⟨_, r.result, rfl, Or.inr rfl⟩

theorem afterAdded_cases (r : Recompute) : ∃ stage, afterAdded r = .balance stage r ∧
    (stage = .writeTopping ∨ stage = .queryExpenses ∧ ¬toppingOf r.pending > 0) := by
  unfold afterAdded
  split
  · exact ⟨_, rfl, Or.inl rfl⟩
  · rename_i h
    exact ⟨_, rfl, Or.inr ⟨rfl, h⟩⟩

theorem afterBilled_cases (r : Recompute) : ∃ stage x,
    afterBilled r = .balance stage { r with result := x } ∧ (stage = .writeExpenses ∨
      ¬expensesOf r.unbilled > 0 ∧ (stage = .writeBalance ∨ stage = .release ∧ ¬toppingOf r.pending > 0)) := by
  unfold afterBilled
  split
  · exact ⟨_, r.result, rfl, Or.inl rfl⟩
  · rename_i he
    split
    · exact ⟨_, r.result, rfl, Or.inr ⟨he, Or.inl rfl⟩⟩
    · rename_i ht
      exact ⟨_, _, rfl, Or.inr ⟨he, Or.inr ⟨rfl, ht⟩⟩⟩

/-- Everything a command does to the lock, and what it keeps of the call. -/
structure LockStep (u : String) (w : World) (t : Pc) (w' : World) (t' : Pc) : Prop where
  isOf : t'.isOf u
  token : t'.token? = t.token?
  lockedIn : t'.lockedIn
  move : LockMove (lockKeyOf u) w w' t t'

/-- A recomputation goes from one stage to another without a command to Redis. -/
theorem lockStep_inside {stage stage' : Stage} {r r' : Recompute} (hu : (Pc.balance stage r).isOf u)
    (hr : w'.redis = w.redis) (hm : r'.mandatePath = r.mandatePath) (hid : r'.userId = r.userId)
    (hn : r'.lockToken = r.lockToken) (ha : r'.lockAcquired = r.lockAcquired) (hs : stage ≠ .returned)
    (hs' : stage' ∉ [.acquire, .busy, .returned]) (hl : stage' = .release ∨ r.lockAcquired = true) :
    LockStep u w (.balance stage r) w' (.balance stage' r') := by
  refine ⟨by simpa [Pc.isOf, hm, hid] using hu, by simp [Pc.token?, hn], ?_, .keep hr ?_⟩
  · refine ⟨fun h => absurd h (by simp at hs'; tauto), fun h => ?_⟩
    rw [ha]
    exact hl.resolve_left fun h' => h (by simp [h'])
  · have hs'' : stage' ≠ .returned := fun h => hs' (by simp [h])
    simp [Pc.holding, ha, hs, hs'']

theorem lockStep_afterAdded {stage : Stage} {r r' : Recompute} (hu : (Pc.balance stage r).isOf u)
    (hr : w'.redis = w.redis) (hm : r'.mandatePath = r.mandatePath) (hid : r'.userId = r.userId)
    (hn : r'.lockToken = r.lockToken) (ha : r'.lockAcquired = r.lockAcquired) (hs : stage ≠ .returned)
    (hl : r.lockAcquired = true) : LockStep u w (.balance stage r) w' (afterAdded r') := by
  obtain ⟨stage', hx, hs'⟩ := afterAdded_cases r'
  rw [hx]
  refine lockStep_inside hu hr hm hid hn ha hs ?_ (Or.inr hl)
  rcases hs' with rfl | ⟨rfl, -⟩ <;> simp

theorem lockStep_afterBilled {stage : Stage} {r r' : Recompute} (hu : (Pc.balance stage r).isOf u)
    (hr : w'.redis = w.redis) (hm : r'.mandatePath = r.mandatePath) (hid : r'.userId = r.userId)
    (hn : r'.lockToken = r.lockToken) (ha : r'.lockAcquired = r.lockAcquired) (hs : stage ≠ .returned)
    (hl : r.lockAcquired = true) : LockStep u w (.balance stage r) w' (afterBilled r') := by
  obtain ⟨stage', x, hx, hs'⟩ := afterBilled_cases r'
  rw [hx]
  refine lockStep_inside hu hr hm hid hn ha hs ?_ (Or.inr hl)
  rcases hs' with rfl | ⟨-, rfl | ⟨rfl, -⟩⟩ <;> simp

/-- What a step of a recomputation does with the lock. -/
theorem recompute_lockStep {stage : Stage} {r : Recompute} (h : recompute w r stage = some (w', t'))
    (hu : (Pc.balance stage r).isOf u) (hl : (Pc.balance stage r).lockedIn)
    (hown : w.redis.get? (lockKeyOf u) = some r.lockToken → (Pc.balance stage r).holding = true) :
    LockStep u w (.balance stage r) w' t' := by
  have hkey : r.lockKey = lockKeyOf u := congrArg lockKeyOf hu.1
  cases stage with
  | acquire =>
      have ha : r.lockAcquired = false := hl.1 (Or.inl rfl)
      simp only [recompute] at h
      split at h
      · cases h
        refine ⟨hu, rfl, ⟨by simp, by simp⟩, .keep rfl (by simp [Pc.holding, ha])⟩
      · split at h
        · cases h
          exact ⟨hu, rfl, ⟨fun _ => ha, by simp⟩, .keep rfl (by simp [Pc.holding, ha])⟩
        · rename_i hfree
          cases h
          refine ⟨hu, rfl, ⟨by simp, by simp⟩, .take r.lockToken rfl ?_ ?_ (by simp [Pc.holding])⟩
          · rw [← hkey]
            exact hfree
          · rw [← hkey]
  | busy =>
      cases h
      exact lockStep_inside hu rfl rfl rfl rfl rfl (by simp) (by simp) (Or.inl rfl)
  | read =>
      have ha : r.lockAcquired = true := hl.2 (by simp)
      cases h
      obtain ⟨stage, x, hx, hs⟩ := afterRead_cases { r with wallet := w.db.wallets r.userId }
      rw [hx]
      exact lockStep_inside hu rfl rfl rfl rfl rfl (by simp) (by rcases hs with rfl | rfl <;> simp)
        (Or.inr ha)
  | queryPending =>
      have ha : r.lockAcquired = true := hl.2 (by simp)
      cases h
      split
      · exact lockStep_afterAdded hu rfl rfl rfl rfl rfl (by simp) ha
      · exact lockStep_inside hu rfl rfl rfl rfl rfl (by simp) (by simp) (Or.inr ha)
  | commitAdded =>
      cases h
      exact lockStep_afterAdded hu rfl rfl rfl rfl rfl (by simp) (hl.2 (by simp))
  | writeTopping =>
      cases h
      exact lockStep_inside hu rfl rfl rfl rfl rfl (by simp) (by simp) (Or.inr (hl.2 (by simp)))
  | queryExpenses =>
      have ha : r.lockAcquired = true := hl.2 (by simp)
      cases h
      split
      · exact lockStep_afterBilled hu rfl rfl rfl rfl rfl (by simp) ha
      · exact lockStep_inside hu rfl rfl rfl rfl rfl (by simp) (by simp) (Or.inr ha)
  | commitBilled =>
      have ha : r.lockAcquired = true := hl.2 (by simp)
      simp only [recompute] at h
      split at h
      · cases h
        exact lockStep_inside hu rfl rfl rfl rfl rfl (by simp) (by simp) (Or.inr ha)
      · cases h
        exact lockStep_afterBilled hu rfl rfl rfl rfl rfl (by simp) ha
  | writeExpenses =>
      cases h
      exact lockStep_inside hu rfl rfl rfl rfl rfl (by simp) (by simp) (Or.inr (hl.2 (by simp)))
  | writeBalance =>
      cases h
      exact lockStep_inside hu rfl rfl rfl rfl rfl (by simp) (by simp) (Or.inl rfl)
  | release =>
      simp only [recompute] at h
      split at h
      · rename_i heq
        have ha : r.lockAcquired = true := by
          have hh := hown (hkey ▸ heq)
          simpa [Pc.holding] using hh
        cases h
        exact lockStep_inside hu rfl rfl rfl rfl rfl (by simp) (by simp) (Or.inr ha)
      · rename_i hne
        cases h
        refine ⟨hu, rfl, ⟨by simp, by simp⟩, .leave r.lockToken rfl rfl ?_ (by simp [Pc.holding])⟩
        rw [← hkey]
        exact hne
  | unlock =>
      cases h
      refine ⟨hu, rfl, ⟨by simp, by simp⟩, .drop ?_ ?_ (by simp [Pc.holding])⟩
      · simp [Pc.holding, hl.2]
      · rw [← hkey]
  | returned => cases h

theorem next_lockStep (h : next w t = some (w', t')) (hu : t.isOf u) (hl : t.lockedIn)
    (hown : ∀ n, t.token? = some n → w.redis.get? (lockKeyOf u) = some n → t.holding = true) :
    LockStep u w t w' t' := by
  cases t with
  | webhook event =>
      simp only [next, Option.some.injEq, Prod.mk.injEq] at h
      obtain ⟨rfl, rfl⟩ := h
      obtain ⟨eventType, ht⟩ | ⟨error, ht⟩ | ⟨amount, ht⟩ := readTransaction_cases w.db event
      · rw [ht]
        exact ⟨trivial, rfl, trivial, .keep rfl rfl⟩
      · rw [ht]
        exact ⟨trivial, rfl, trivial, .keep rfl rfl⟩
      · rw [ht]
        exact ⟨hu, rfl, trivial, .keep rfl rfl⟩
  | markPaid m amount =>
      cases h
      exact ⟨hu, rfl, trivial, .keep rfl rfl⟩
  | readWallet m amount =>
      cases h
      exact ⟨hu, rfl, trivial, .keep rfl rfl⟩
  | credit m amount read =>
      cases h
      exact ⟨trivial, rfl, trivial, .keep rfl rfl⟩
  | handled r => cases h
  | balance stage r => exact recompute_lockStep h hu hl (hown r.lockToken rfl)

end Steps

/-- The calls of one user and their lock: a call holds it exactly when Redis has its token. -/
structure LockHeld (u : String) (p : Pool World Pc) : Prop where
  isOf : ∀ (i : ℕ) t, p.threads[i]? = some t → t.isOf u
  lockedIn : ∀ (i : ℕ) t, p.threads[i]? = some t → t.lockedIn
  token : ∀ (i : ℕ) t n, p.threads[i]? = some t → t.token? = some n → n = i
  lock : ∀ (i : ℕ) t, p.threads[i]? = some t →
    (t.holding = true ↔ p.shared.redis.get? (lockKeyOf u) = some i)

section Lock

variable {u : String} {p q : Pool World Pc} {i : ℕ}

/-- **At most one recomputation is past its lock.** -/
theorem lock_excludes (h : LockHeld u p) {j : ℕ} {t t' : Pc} (hi : p.threads[i]? = some t)
    (hj : p.threads[j]? = some t') (ht : t.holding = true) (ht' : t'.holding = true) : i = j := by
  have h1 := (h.lock i t hi).mp ht
  rw [(h.lock j t' hj).mp ht'] at h1
  exact (Option.some.inj h1).symm

theorem LockHeld.lockStep (h : LockHeld u p) {t t' : Pc} {w' : World} (hi : p.threads[i]? = some t)
    (hn : next p.shared t = some (w', t')) : LockStep u p.shared t w' t' := by
  refine next_lockStep hn (h.isOf i t hi) (h.lockedIn i t hi) fun n hn hr => ?_
  rw [h.token i t n hi hn] at hr
  exact (h.lock i t hi).mpr hr

theorem lockHeld_step (h : LockHeld u p) (hs : p.stepAt next i = some q) : LockHeld u q := by
  obtain ⟨t, w', t', hi, hn, rfl⟩ := stepAt_eq_some hs
  have hstep := h.lockStep hi hn
  refine ⟨fun j x hx => ?_, fun j x hx => ?_, fun j x n hx hm => ?_, fun j x hx => ?_⟩ <;>
    rw [getElem?_set_of_some hi] at hx <;> split at hx
  · cases hx
    exact hstep.isOf
  · exact h.isOf j x hx
  · cases hx
    exact hstep.lockedIn
  · exact h.lockedIn j x hx
  · rename_i hj
    cases hx
    rw [hj]
    exact h.token i t n hi (hstep.token ▸ hm)
  · exact h.token j x n hx hm
  · -- the call that moves
    rename_i hj
    cases hx
    subst hj
    have hl := h.lock j t hi
    cases hstep.move with
    | keep hr hh =>
        rw [hh, hr]
        exact hl
    | take n hn hw hr hh =>
        have hnj : n = j := h.token j t n hi (hstep.token ▸ hn)
        simp [hh, hr, hnj]
    | leave n hn hr hw hh =>
        have hnj : n = j := h.token j t n hi hn
        rw [hh, hr]
        simpa [hnj] using hw
    | drop ht hr hh => simp [hh, hr]
  · -- any other call
    rename_i hj
    have hl := h.lock j x hx
    cases hstep.move with
    | keep hr hh =>
        rw [hr]
        exact hl
    | take n hn hw hr hh =>
        have hni : n = i := h.token i t n hi (hstep.token ▸ hn)
        rw [hl, hw]
        simp [hr, hni, Ne.symm hj]
    | leave n hn hr hw hh =>
        rw [hr]
        exact hl
    | drop ht hr hh =>
        rw [hl, (h.lock i t hi).mp ht]
        simp [hr, Ne.symm hj]

end Lock

end Pinnokio.Billing
