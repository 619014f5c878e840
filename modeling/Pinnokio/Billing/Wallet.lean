import Mathlib.Algebra.Order.BigOperators.Group.List
import Mathlib.Algebra.Order.Ring.Rat
import Pinnokio.Lib.Dict
import Pinnokio.Lib.Text

/-!
# The wallet of a user

The wallet is one document, `clients/{user_id}/billing/current_balance`.  Top-ups are transaction documents of a
mandate and expenses are expense documents of a mandate; both wait there until something adds them to the
wallet.  Two code paths do: the payment notification of the payment provider (`processStripeWebhook`), and the
recomputation of the balance (`getUserBalance`).

Amounts are exact rational numbers here; the rounding of floating-point numbers is not part of the model.  A
missing document or field of the wallet reads as `0.0`, so the wallet is a record of three numbers.
-/

namespace Pinnokio.Billing

open Pinnokio.Text

/-! ### Documents -/

/-- `clients/{user_id}/billing/current_balance`. -/
structure Wallet where
  currentTopping : ℚ
  currentExpenses : ℚ
  currentBalance : ℚ
  deriving DecidableEq

/-- The `status` of a transaction. -/
inductive TxStatus where
  | pending
  | added
  | error
  deriving DecidableEq

/-- `{mandate_path}/billing/topping/transactions/{transaction_id}`. -/
structure Transaction where
  currency : String
  amount : ℚ
  status : TxStatus
  stripeSessionId : String
  errorMessage : String
  deriving DecidableEq

/-- `{mandate_path}/billing/topping/expenses/{job_id}`, with the fields the wallet reads. -/
structure Expense where
  totalSalesPrice : ℚ
  billed : Option Bool
  deriving DecidableEq

/-- One event of `clients/{user_id}/token_usage/{job_id}/entries`, with what the aggregation reads of it.  An
empty text stands for a missing value. -/
structure UsageEntry where
  totalInputTokens : ℤ
  totalOutputTokens : ℤ
  totalTokens : ℤ
  buyPrice : ℚ
  salesPrice : ℚ
  mandatePath : String
  billingKind : String
  billingDate : String
  deriving DecidableEq

/-- `clients/{user_id}/token_usage/{job_id}`. -/
structure TokenUsage where
  jobId : String
  mandatePath : String
  billingKind : String
  billingDate : String
  entriesCount : ℕ
  totalInputTokens : ℤ
  totalOutputTokens : ℤ
  totalTokens : ℤ
  totalBuyPrice : ℚ
  totalSalesPrice : ℚ
  deriving DecidableEq

/-- The billing documents: wallets by user, transactions and expenses by mandate path and id, token usage by
user and job id, its events by user, job id and entry id. -/
structure Db where
  wallets : String → Wallet
  transactions : Dict (String × String) Transaction
  expenses : Dict (String × String) Expense
  tokenUsage : Dict (String × String) TokenUsage
  entries : Dict (String × String × String) UsageEntry

namespace Db

/-- A partial write to a wallet (`set(…, merge=True)`). -/
def setWallet (db : Db) (userId : String) (f : Wallet → Wallet) : Db :=
  { db with wallets := fun u => if u = userId then f (db.wallets u) else db.wallets u }

/-- Write a transaction. -/
def setTransaction (db : Db) (ref : String × String) (t : Transaction) : Db :=
  { db with transactions := db.transactions.set ref t }

/-- Update a transaction. -/
def modifyTransaction (db : Db) (ref : String × String) (f : Transaction → Transaction) : Db :=
  { db with transactions := db.transactions.modify ref f }

@[simp] theorem setWallet_same (db : Db) (userId : String) (f : Wallet → Wallet) :
    (db.setWallet userId f).wallets userId = f (db.wallets userId) := by
  simp [setWallet]

theorem setWallet_other (db : Db) {userId u : String} (f : Wallet → Wallet) (h : u ≠ userId) :
    (db.setWallet userId f).wallets u = db.wallets u := by
  simp [setWallet, h]

@[simp] theorem setWallet_transactions (db : Db) (userId : String) (f : Wallet → Wallet) :
    (db.setWallet userId f).transactions = db.transactions := rfl

@[simp] theorem setWallet_expenses (db : Db) (userId : String) (f : Wallet → Wallet) :
    (db.setWallet userId f).expenses = db.expenses := rfl

@[simp] theorem setWallet_tokenUsage (db : Db) (userId : String) (f : Wallet → Wallet) :
    (db.setWallet userId f).tokenUsage = db.tokenUsage := rfl

@[simp] theorem setWallet_entries (db : Db) (userId : String) (f : Wallet → Wallet) :
    (db.setWallet userId f).entries = db.entries := rfl

end Db

/-! ### Mandate paths -/

/-- `_normalize_mandate_path`. -/
def normalizeMandatePath (mandatePath : String) : String :=
  if mandatePath = "" then mandatePath
  else collapse (replace (strip mandatePath) "bo_clientss" "bo_clients") '/'

/-- The user of a mandate path: the second element, empty when there is none. -/
def userIdOf (mandatePath : String) : String :=
  match split mandatePath '/' with
  | _ :: userId :: _ => userId
  | _ => ""

/-- A document can live below the path: it has an even number of elements, none of them empty.  The client
raises on any other path. -/
def isDocPath (path : String) : Bool :=
  decide ((split path '/').length % 2 = 0) && (split path '/').all fun x => x ≠ ""

/-- A recomputation for this mandate knows its user and can address its documents. -/
def reachesWallet (mandatePath : String) : Bool :=
  decide (userIdOf mandatePath ≠ "") && isDocPath mandatePath

example : userIdOf "clients/u1/bo_clients/c1/mandates/m1" = "u1" := by decide

example : normalizeMandatePath "clients/u1//bo_clientss/c1/mandates/m1"
    = "clients/u1/bo_clients/c1/mandates/m1" := by decide

/-! ### The recomputation of the balance -/

/-- The transactions of a mandate with status `pending`. -/
def pendingTransactions (db : Db) (mandatePath : String) : List ((String × String) × Transaction) :=
  db.transactions.entries.filter fun e => e.1.1 = mandatePath ∧ e.2.status = .pending

/-- The sum the pending transactions of a mandate add to the wallet. -/
def toppingOf (pending : List ((String × String) × Transaction)) : ℚ :=
  (pending.map fun e => e.2.amount).sum

/-- `batch.update(transaction_ref, {'status': 'added'})` for every reference, in one commit. -/
def markAdded (db : Db) (refs : List (String × String)) : Db :=
  { db with transactions := db.transactions.modifyAll refs fun t => { t with status := .added } }

/-- The expenses of a mandate whose `billed` flag is `False`; they are read under the normalized path. -/
def unbilledExpenses (db : Db) (mandatePath : String) : List ((String × String) × Expense) :=
  db.expenses.entries.filter fun e =>
    e.1.1 = normalizeMandatePath mandatePath ∧ e.2.billed = some false

/-- The sum the unbilled expenses of a mandate add to the wallet. -/
def expensesOf (unbilled : List ((String × String) × Expense)) : ℚ :=
  (unbilled.map fun e => e.2.totalSalesPrice).sum

/-- The documents the batch marks: they are addressed under the path as it was given. -/
def billedRefs (mandatePath : String) (unbilled : List ((String × String) × Expense)) :
    List (String × String) :=
  unbilled.map fun e => (mandatePath, e.1.2)

/-- `batch.update(job_ref, {'billed': True})` for every reference, in one commit; `none` is the `NotFound` of a
missing document, which fails the whole batch. -/
def markBilled (db : Db) (refs : List (String × String)) : Option Db :=
  if refs.all fun r => r ∈ db.expenses.keys then
    some { db with expenses := db.expenses.modifyAll refs fun e => { e with billed := some true } }
  else none

/-- Step 2 of the recomputation: pending top-ups. -/
def addPending (db : Db) (userId mandatePath : String) (currentTopping : ℚ) : Db × ℚ :=
  let pending := pendingTransactions db mandatePath
  let db := markAdded db (pending.map Prod.fst)
  if toppingOf pending > 0 then
    (db.setWallet userId fun w => { w with currentTopping := currentTopping + toppingOf pending },
      toppingOf pending)
  else (db, toppingOf pending)

/-- `get_user_balance`, without a second call at the same time.  `none` is the `None` of a call without a
mandate path. -/
def getUserBalance (db : Db) (mandatePath userId : String) : Db × Option ℚ :=
  let userId := if mandatePath ≠ "" then userIdOf mandatePath else userId
  if userId = "" then (db, some 0)
  else if mandatePath = "" then (db, none)
  else if ¬isDocPath mandatePath then (db, some 0)
  else
    let w := db.wallets userId
    let topped := addPending db userId mandatePath w.currentTopping
    let unbilled := unbilledExpenses topped.1 mandatePath
    match markBilled topped.1 (billedRefs mandatePath unbilled) with
    | none => (topped.1, some 0)
    | some db =>
        let topping := if topped.2 > 0 then w.currentTopping + topped.2 else w.currentTopping
        let expenses :=
          if expensesOf unbilled > 0 then w.currentExpenses + expensesOf unbilled
          else w.currentExpenses
        let db :=
          if expensesOf unbilled > 0 then
            db.setWallet userId fun w => { w with currentExpenses := expenses }
          else db
        if topped.2 > 0 ∨ expensesOf unbilled > 0 then
          (db.setWallet userId fun w => { w with currentBalance := topping - expenses },
            some (topping - expenses))
        else (db, some w.currentBalance)

/-! ### What a recomputation does -/

theorem ne_empty_of_reachesWallet {mandatePath : String} (h : reachesWallet mandatePath = true) :
    mandatePath ≠ "" := by
  rintro rfl
  exact absurd h (by decide)

/-- The batch that marks the expenses of this mandate as billed goes through. -/
def billable (db : Db) (mandatePath : String) : Bool :=
  (billedRefs mandatePath (unbilledExpenses db mandatePath)).all fun r => r ∈ db.expenses.keys

/-- The expenses whose price a recomputation adds to `current_expenses`. -/
def charged (db : Db) (mandatePath : String) : List ((String × String) × Expense) :=
  if reachesWallet mandatePath ∧ billable db mandatePath ∧
      expensesOf (unbilledExpenses db mandatePath) > 0 then
    unbilledExpenses db mandatePath
  else []

/-- Everything a recomputation for a known user can change: the pending top-ups and the unbilled expenses of
the mandate are marked, and their sums go to the wallet of the user. -/
structure Recomputed (db : Db) (mandatePath : String) (r : Db) : Prop where
  transactions : r.transactions =
    db.transactions.modifyAll ((pendingTransactions db mandatePath).map Prod.fst)
      fun t => { t with status := .added }
  expenses : r.expenses = if billable db mandatePath then
      db.expenses.modifyAll (billedRefs mandatePath (unbilledExpenses db mandatePath))
        fun e => { e with billed := some true }
    else db.expenses
  tokenUsage : r.tokenUsage = db.tokenUsage
  entries : r.entries = db.entries
  others : ∀ v, v ≠ userIdOf mandatePath → r.wallets v = db.wallets v
  topping : (r.wallets (userIdOf mandatePath)).currentTopping =
    (db.wallets (userIdOf mandatePath)).currentTopping +
      if toppingOf (pendingTransactions db mandatePath) > 0 then
        toppingOf (pendingTransactions db mandatePath)
      else 0
  currentExpenses : (r.wallets (userIdOf mandatePath)).currentExpenses =
    (db.wallets (userIdOf mandatePath)).currentExpenses + expensesOf (charged db mandatePath)

section Recompute

variable (db : Db) (mandatePath u : String)

@[simp] theorem addPending_expenses (t : ℚ) :
    (addPending db u mandatePath t).1.expenses = db.expenses := by
  unfold addPending
  dsimp only
  split <;> rfl

@[simp] theorem addPending_tokenUsage (t : ℚ) :
    (addPending db u mandatePath t).1.tokenUsage = db.tokenUsage := by
  unfold addPending
  dsimp only
  split <;> rfl

@[simp] theorem addPending_entries (t : ℚ) :
    (addPending db u mandatePath t).1.entries = db.entries := by
  unfold addPending
  dsimp only
  split <;> rfl

@[simp] theorem addPending_transactions (t : ℚ) :
    (addPending db u mandatePath t).1.transactions =
      db.transactions.modifyAll ((pendingTransactions db mandatePath).map Prod.fst)
        fun t => { t with status := .added } := by
  unfold addPending
  dsimp only
  split <;> rfl

@[simp] theorem addPending_unbilled (t : ℚ) :
    unbilledExpenses (addPending db u mandatePath t).1 mandatePath = unbilledExpenses db mandatePath := by
  simp [unbilledExpenses]

@[simp] theorem addPending_added (t : ℚ) :
    (addPending db u mandatePath t).2 = toppingOf (pendingTransactions db mandatePath) := by
  unfold addPending
  dsimp only
  split <;> rfl

theorem addPending_wallet (t : ℚ) : (addPending db u mandatePath t).1.wallets u =
    if toppingOf (pendingTransactions db mandatePath) > 0 then
      { db.wallets u with currentTopping := t + toppingOf (pendingTransactions db mandatePath) }
    else db.wallets u := by
  unfold addPending
  dsimp only
  split
  · simp [markAdded]
  · rfl

theorem addPending_wallet_other (t : ℚ) {v : String} (h : v ≠ u) :
    (addPending db u mandatePath t).1.wallets v = db.wallets v := by
  unfold addPending
  dsimp only
  split
  · rw [Db.setWallet_other _ _ h]
    rfl
  · rfl

/-- A call that does not know the user, or cannot address the documents of the mandate, writes nothing. -/
theorem getUserBalance_idle (h : reachesWallet mandatePath = false) :
    (getUserBalance db mandatePath u).1 = db := by
  unfold getUserBalance
  by_cases hm : mandatePath = ""
  · simp only [hm, ne_eq, not_true_eq_false, if_false, if_true]
    split <;> rfl
  · by_cases hu : userIdOf mandatePath = ""
    · simp [hm, hu]
    · have hp : isDocPath mandatePath = false := by simpa [reachesWallet, hu] using h
      simp [hm, hu, hp]

@[simp] theorem expensesOf_nil : expensesOf [] = 0 := rfl

theorem getUserBalance_recomputed (h : reachesWallet mandatePath = true) :
    Recomputed db mandatePath (getUserBalance db mandatePath u).1 := by
  have hm := ne_empty_of_reachesWallet h
  have huser : userIdOf mandatePath ≠ "" := by
    simp only [reachesWallet, Bool.and_eq_true, decide_eq_true_eq] at h
    exact h.1
  have hpath : isDocPath mandatePath = true := by
    simp only [reachesWallet, Bool.and_eq_true] at h
    exact h.2
  have hkeys : (billedRefs mandatePath (unbilledExpenses db mandatePath)).all
      (fun r => decide (r ∈ db.expenses.keys)) = billable db mandatePath := rfl
  simp only [getUserBalance, hm, huser, hpath, ne_eq, not_true_eq_false, not_false_eq_true, if_true,
    if_false, markBilled, addPending_unbilled, addPending_expenses, hkeys]
  have hw := addPending_wallet db mandatePath (userIdOf mandatePath)
    (db.wallets (userIdOf mandatePath)).currentTopping
  have ho := fun v hv => addPending_wallet_other db mandatePath (userIdOf mandatePath)
    (db.wallets (userIdOf mandatePath)).currentTopping (v := v) hv
  have ht := addPending_transactions db mandatePath (userIdOf mandatePath)
    (db.wallets (userIdOf mandatePath)).currentTopping
  have hu := addPending_tokenUsage db mandatePath (userIdOf mandatePath)
    (db.wallets (userIdOf mandatePath)).currentTopping
  have hen := addPending_entries db mandatePath (userIdOf mandatePath)
    (db.wallets (userIdOf mandatePath)).currentTopping
  have hex := addPending_expenses db mandatePath (userIdOf mandatePath)
    (db.wallets (userIdOf mandatePath)).currentTopping
  have htop : ((addPending db (userIdOf mandatePath) mandatePath
      (db.wallets (userIdOf mandatePath)).currentTopping).1.wallets
        (userIdOf mandatePath)).currentTopping =
      (db.wallets (userIdOf mandatePath)).currentTopping +
        if toppingOf (pendingTransactions db mandatePath) > 0 then
          toppingOf (pendingTransactions db mandatePath) else 0 := by
    rw [hw]
    split <;> simp
  have hexp : ((addPending db (userIdOf mandatePath) mandatePath
      (db.wallets (userIdOf mandatePath)).currentTopping).1.wallets
        (userIdOf mandatePath)).currentExpenses =
      (db.wallets (userIdOf mandatePath)).currentExpenses := by
    rw [hw]
    split <;> rfl
  generalize addPending db (userIdOf mandatePath) mandatePath
    (db.wallets (userIdOf mandatePath)).currentTopping = topped at *
  have hcharged : charged db mandatePath =
      if billable db mandatePath ∧ expensesOf (unbilledExpenses db mandatePath) > 0 then
        unbilledExpenses db mandatePath else [] := by
    simp [charged, h]
  by_cases hb : billable db mandatePath = true
  · by_cases he : expensesOf (unbilledExpenses db mandatePath) > 0
    · simp only [hb, he, if_true, or_true]
      refine ⟨ht, by simp [hb], hu, hen, fun v hv => ?_, ?_, ?_⟩
      · rw [Db.setWallet_other _ _ hv, Db.setWallet_other _ _ hv]
        exact ho v hv
      · simpa using htop
      · simp [hcharged, hb, he]
    · simp only [hb, he, if_true, if_false, or_false]
      by_cases hp : topped.2 > 0
      · simp only [hp, if_true]
        refine ⟨ht, by simp [hb], hu, hen, fun v hv => ?_, by simpa using htop, ?_⟩
        · rw [Db.setWallet_other _ _ hv]
          exact ho v hv
        · simp [hcharged, he, hexp]
      · simp only [hp, if_false]
        exact ⟨ht, by simp [hb], hu, hen, ho, htop, by simp [hcharged, he, hexp]⟩
  · simp only [hb, Bool.false_eq_true, if_false]
    exact ⟨ht, by simp [hb, hex], hu, hen, ho, htop, by simp [hcharged, hb, hexp]⟩

end Recompute

end Pinnokio.Billing
