import Mathlib.Tactic.Linarith
import Pinnokio.Lib.Runs
import Pinnokio.Lib.Totals
import Pinnokio.Billing.Wallet

/-!
# Recomputations that fail halfway

A recomputation marks the documents of a mandate first and writes the sums to the wallet afterwards, in commits of
their own, and its exception handler answers `0.0` wherever it stopped.  `getUserBalanceWith` is the recomputation
with an operation of the store that fails without effect.

* `getUserBalanceWith_none` — without a failure it is `getUserBalance`;
* `partial_effect` — what it leaves behind, for every failing operation;
* `KeepsMoney` — the sums of the marked documents have reached the wallet;
* `conserved_iff_guarded` — along every sequence of recomputations, failing or not, the wallet accounts for the
  documents marked meanwhile exactly when each of them keeps the money.
-/

namespace Pinnokio.Billing

open Pinnokio.Runs

/-! ### A failing operation -/

/-- The operations on the document store of a recomputation. -/
inductive StoreOp where
  | readWallet
  | queryPending
  | commitAdded
  | writeTopping
  | queryExpenses
  | commitBilled
  | writeExpenses
  | writeBalance
  deriving DecidableEq

/-- Step 2, with the documents left behind by an exception. -/
def addPendingWith (fault : Option StoreOp) (db : Db) (userId mandatePath : String) (currentTopping : ℚ) :
    Except Db (Db × ℚ) :=
  let pending := pendingTransactions db mandatePath
  if fault = some .queryPending then .error db
  else if pending ≠ [] ∧ fault = some .commitAdded then .error db
  else if toppingOf pending > 0 ∧ fault = some .writeTopping then
    .error (markAdded db (pending.map Prod.fst))
  else .ok (addPending db userId mandatePath currentTopping)

/-- Step 3 up to the commit.  `get_all_expenses` has an exception handler of its own: when its query fails there are no
expenses, and the recomputation goes on. -/
def billExpensesWith (fault : Option StoreOp) (db : Db) (mandatePath : String) : Except Db (Db × ℚ) :=
  let unbilled := if fault = some .queryExpenses then [] else unbilledExpenses db mandatePath
  if unbilled ≠ [] ∧ fault = some .commitBilled then .error db
  else
    match markBilled db (billedRefs mandatePath unbilled) with
    | none => .error db
    | some db => .ok (db, expensesOf unbilled)

/-- The writes of `current_expenses` and `current_balance`, and the answer. -/
def settleWith (fault : Option StoreOp) (db : Db) (userId : String) (w : Wallet) (topped billed : ℚ) :
    Db × Option ℚ :=
  let topping := if topped > 0 then w.currentTopping + topped else w.currentTopping
  let expenses := if billed > 0 then w.currentExpenses + billed else w.currentExpenses
  if billed > 0 ∧ fault = some .writeExpenses then (db, some 0)
  else
    let db := if billed > 0 then db.setWallet userId fun w => { w with currentExpenses := expenses } else db
    if topped > 0 ∨ billed > 0 then
      if fault = some .writeBalance then (db, some 0)
      else (db.setWallet userId fun w => { w with currentBalance := topping - expenses }, some (topping - expenses))
    else (db, some w.currentBalance)

/-- `get_user_balance`, when the operation `fault` fails if it is reached. -/
def getUserBalanceWith (fault : Option StoreOp) (db : Db) (mandatePath userId : String) : Db × Option ℚ :=
  let userId := if mandatePath ≠ "" then userIdOf mandatePath else userId
  if userId = "" then (db, some 0)
  else if fault = some .readWallet then (db, some 0)
  else if mandatePath = "" then (db, none)
  else if ¬isDocPath mandatePath then (db, some 0)
  else
    match addPendingWith fault db userId mandatePath (db.wallets userId).currentTopping with
    | .error db => (db, some 0)
    | .ok topped =>
        match billExpensesWith fault topped.1 mandatePath with
        | .error db => (db, some 0)
        | .ok billed => settleWith fault billed.1 userId (db.wallets userId) topped.2 billed.2

/-- **Without a failure** it is the recomputation. -/
theorem getUserBalanceWith_none (db : Db) (mandatePath userId : String) :
    getUserBalanceWith none db mandatePath userId = getUserBalance db mandatePath userId := by
  unfold getUserBalanceWith getUserBalance
  by_cases hu : (if mandatePath ≠ "" then userIdOf mandatePath else userId) = ""
  · simp only [hu, if_true]
  · by_cases hm : mandatePath = ""
    · simp [hm]
    by_cases hp : isDocPath mandatePath = true
    · simp only [hu, hm, hp, if_false, not_true_eq_false, addPendingWith, billExpensesWith, and_false,
        reduceCtorEq, settleWith]
      cases markBilled _ _ with
      | none => rfl
      | some db => rfl
    · simp [hm, hp]

/-! ### What a failing recomputation leaves behind -/

/-- The documents after a part of the recomputation, whether it went through or raised. -/
def leftBy : Except Db (Db × ℚ) → Db
  | .error db => db
  | .ok r => r.1

/-- The top-ups are marked: no operation before has failed, nor the commit. -/
def addsTopUps (fault : Option StoreOp) : Bool :=
  fault ∉ [some .readWallet, some .queryPending, some .commitAdded]

/-- Step 2 raises. -/
def stopsAtTopUps (fault : Option StoreOp) (db : Db) (mandatePath : String) : Bool :=
  decide (fault = some .queryPending) ||
    (decide (pendingTransactions db mandatePath ≠ []) && decide (fault = some .commitAdded)) ||
      (decide (toppingOf (pendingTransactions db mandatePath) > 0) && decide (fault = some .writeTopping))

/-- The expenses are marked. -/
def billsExpenses (fault : Option StoreOp) (db : Db) (mandatePath : String) : Bool :=
  decide (fault ≠ some .readWallet) && !stopsAtTopUps fault db mandatePath &&
    decide (fault ≠ some .queryExpenses) && decide (fault ≠ some .commitBilled) && billable db mandatePath

section Parts

variable (fault : Option StoreOp) (db : Db) (userId mandatePath : String)

/-- Step 2: the top-ups are marked, and their sum is added to the wallet if it is written. -/
theorem addPendingWith_left (hr : fault ≠ some .readWallet) :
    let r := leftBy (addPendingWith fault db userId mandatePath (db.wallets userId).currentTopping)
    r.expenses = db.expenses ∧
      r.transactions = (if addsTopUps fault then
          db.transactions.modifyAll ((pendingTransactions db mandatePath).map Prod.fst)
            fun t => { t with status := .added }
        else db.transactions) ∧
      (r.wallets userId).currentExpenses = (db.wallets userId).currentExpenses ∧
      (r.wallets userId).currentTopping = (db.wallets userId).currentTopping +
        if addsTopUps fault ∧ 0 < toppingOf (pendingTransactions db mandatePath) ∧ fault ≠ some .writeTopping then
          toppingOf (pendingTransactions db mandatePath)
        else 0 := by
  intro r
  by_cases hq : fault = some .queryPending
  · simp [r, addPendingWith, hq, leftBy, addsTopUps]
  by_cases hc : fault = some .commitAdded
  · by_cases hp : pendingTransactions db mandatePath = []
    · simp [r, addPendingWith, hc, hp, leftBy, addsTopUps, addPending, markAdded, Dict.modifyAll, toppingOf]
    · simp [r, addPendingWith, hc, hp, leftBy, addsTopUps]
  have hadds : addsTopUps fault = true := by simp [addsTopUps, hr, hq, hc]
  simp only [hadds, if_true, true_and]
  by_cases hw : 0 < toppingOf (pendingTransactions db mandatePath) ∧ fault = some .writeTopping
  · have hleft : r = markAdded db ((pendingTransactions db mandatePath).map Prod.fst) := by
      simp [r, addPendingWith, hw.1, hw.2, leftBy]
    rw [hleft]
    simp [markAdded, hw.2]
  · have hleft : r = (addPending db userId mandatePath (db.wallets userId).currentTopping).1 := by
      simp only [r, addPendingWith, hq, hc, and_false, if_false]
      rw [if_neg hw]
      rfl
    rw [hleft, addPending_wallet]
    refine ⟨addPending_expenses .., addPending_transactions .., ?_, ?_⟩
    · split <;> rfl
    · by_cases ht : 0 < toppingOf (pendingTransactions db mandatePath)
      · have hne : fault ≠ some .writeTopping := fun h => hw ⟨ht, h⟩
        simp [ht, hne]
      · simp [ht]

theorem addPendingWith_stops (t : ℚ) :
    (∃ d, addPendingWith fault db userId mandatePath t = .error d) ↔ stopsAtTopUps fault db mandatePath = true := by
  unfold addPendingWith stopsAtTopUps
  dsimp only
  split
  · simp_all
  split
  · simp_all
  split
  · simp_all
  · simp_all

/-- Nothing on the way to the commit of the expenses fails, nor the commit. -/
def commitsBilled : Bool :=
  decide (fault ≠ some .queryExpenses) && decide (fault ≠ some .commitBilled) && billable db mandatePath

/-- Step 3: it raises and changes nothing, or the expenses are marked, or there are none. -/
theorem billExpensesWith_cases :
    (billExpensesWith fault db mandatePath = .error db ∧ commitsBilled fault db mandatePath = false) ∨
      billExpensesWith fault db mandatePath =
        .ok ({ db with
            expenses := if commitsBilled fault db mandatePath then
                db.expenses.modifyAll (billedRefs mandatePath (unbilledExpenses db mandatePath))
                  (fun e => { e with billed := some true })
              else db.expenses },
          if commitsBilled fault db mandatePath then expensesOf (unbilledExpenses db mandatePath) else 0) := by
  have hkeys : (billedRefs mandatePath (unbilledExpenses db mandatePath)).all
      (fun r => decide (r ∈ db.expenses.keys)) = billable db mandatePath := rfl
  by_cases hq : fault = some .queryExpenses
  · right
    simp [billExpensesWith, commitsBilled, hq, markBilled, billedRefs, Dict.modifyAll]
  by_cases hc : fault = some .commitBilled
  · by_cases hu : unbilledExpenses db mandatePath = []
    · right
      simp [billExpensesWith, commitsBilled, hc, hu, markBilled, billedRefs, Dict.modifyAll]
    · left
      simp [billExpensesWith, commitsBilled, hc, hu]
  · by_cases hb : billable db mandatePath = true
    · right
      simp [billExpensesWith, commitsBilled, hq, hc, hb, markBilled, hkeys]
    · left
      simp [billExpensesWith, commitsBilled, hq, hc, hb, markBilled, hkeys]

/-- The writes to the wallet after the commit of the expenses. -/
theorem settleWith_left (w : Wallet) (topped billed : ℚ) :
    let r := (settleWith fault db userId w topped billed).1
    r.transactions = db.transactions ∧ r.expenses = db.expenses ∧
      (r.wallets userId).currentTopping = (db.wallets userId).currentTopping ∧
      (r.wallets userId).currentExpenses =
        if 0 < billed ∧ fault ≠ some .writeExpenses then w.currentExpenses + billed
        else (db.wallets userId).currentExpenses := by
  unfold settleWith
  by_cases hb : 0 < billed
  · by_cases hf : fault = some .writeExpenses
    · simp [hb, hf]
    · by_cases hw : fault = some .writeBalance
      · simp [hb, hw]
      · simp [hb, hf, hw]
  · by_cases ht : 0 < topped
    · by_cases hw : fault = some .writeBalance
      · simp [hb, ht, hw]
      · simp [hb, ht, hw]
    · simp [hb, ht]

end Parts

/-- Everything a recomputation with a failing operation leaves behind. -/
structure Partial (fault : Option StoreOp) (db : Db) (mandatePath : String) (r : Db) : Prop where
  transactions : r.transactions = if addsTopUps fault then
      db.transactions.modifyAll ((pendingTransactions db mandatePath).map Prod.fst)
        fun t => { t with status := .added }
    else db.transactions
  expenses : r.expenses = if billsExpenses fault db mandatePath then
      db.expenses.modifyAll (billedRefs mandatePath (unbilledExpenses db mandatePath))
        fun e => { e with billed := some true }
    else db.expenses
  topping : (r.wallets (userIdOf mandatePath)).currentTopping =
    (db.wallets (userIdOf mandatePath)).currentTopping +
      if addsTopUps fault ∧ 0 < toppingOf (pendingTransactions db mandatePath) ∧ fault ≠ some .writeTopping then
        toppingOf (pendingTransactions db mandatePath)
      else 0
  currentExpenses : (r.wallets (userIdOf mandatePath)).currentExpenses =
    (db.wallets (userIdOf mandatePath)).currentExpenses +
      if billsExpenses fault db mandatePath ∧ 0 < expensesOf (unbilledExpenses db mandatePath) ∧
          fault ≠ some .writeExpenses then
        expensesOf (unbilledExpenses db mandatePath)
      else 0

/-- **One recomputation**, failing or not. -/
theorem partial_effect (fault : Option StoreOp) (db : Db) (mandatePath : String)
    (h : reachesWallet mandatePath = true) :
    Partial fault db mandatePath (getUserBalanceWith fault db mandatePath "").1 := by
  have hm := ne_empty_of_reachesWallet h
  simp only [reachesWallet, Bool.and_eq_true, decide_eq_true_eq] at h
  obtain ⟨hu, hp⟩ := h
  by_cases hr : fault = some .readWallet
  · simp only [getUserBalanceWith, hm, hu, hr, if_true, if_false, ne_eq, not_false_eq_true]
    constructor <;> simp [addsTopUps, billsExpenses]
  · simp only [getUserBalanceWith, hm, hu, hp, hr, if_false, ne_eq, not_false_eq_true, if_true, not_true_eq_false]
    obtain ⟨hex, htx, hce, hct⟩ := addPendingWith_left fault db (userIdOf mandatePath) mandatePath hr
    have hstop := addPendingWith_stops fault db (userIdOf mandatePath) mandatePath
      (db.wallets (userIdOf mandatePath)).currentTopping
    cases hadd : addPendingWith fault db (userIdOf mandatePath) mandatePath
        (db.wallets (userIdOf mandatePath)).currentTopping with
    | error d =>
        have hs : stopsAtTopUps fault db mandatePath = true := hstop.mp ⟨d, hadd⟩
        rw [hadd] at hex htx hce hct
        simp only [leftBy] at hex htx hce hct
        have hbills : billsExpenses fault db mandatePath = false := by simp [billsExpenses, hs]
        exact ⟨htx, by simpa [hbills] using hex, hct, by simpa [hbills] using hce⟩
    | ok topped =>
        have hs : stopsAtTopUps fault db mandatePath = false := by
          rw [← Bool.not_eq_true, ← hstop, hadd]
          intro h
          obtain ⟨d, hd⟩ := h
          cases hd
        rw [hadd] at hex htx hce hct
        simp only [leftBy] at hex htx hce hct
        have hub : unbilledExpenses topped.1 mandatePath = unbilledExpenses db mandatePath := by
          simp [unbilledExpenses, hex]
        have hbills : commitsBilled fault topped.1 mandatePath = billsExpenses fault db mandatePath := by
          simp [billsExpenses, commitsBilled, hr, hs, billable, hub, hex]
        rcases billExpensesWith_cases fault topped.1 mandatePath with ⟨hbill, hnone⟩ | hbill
        · rw [hbills] at hnone
          simp only [hbill]
          exact ⟨htx, by simpa [hnone] using hex, hct, by simpa [hnone] using hce⟩
        · rw [hbills, hub, hex] at hbill
          simp only [hbill]
          obtain ⟨h₁, h₂, h₃, h₄⟩ := settleWith_left fault _ (userIdOf mandatePath)
            (db.wallets (userIdOf mandatePath)) topped.2 _
          refine ⟨h₁.trans htx, h₂, h₃.trans hct, h₄.trans ?_⟩
          by_cases hb : billsExpenses fault db mandatePath = true
          · simp only [hb, if_true, true_and, hce]
            split <;> simp
          · simp [hb, hce]

/-! ### The documents marked since -/

/-- `{'status': 'added'}`. -/
def asAdded (t : Transaction) : Transaction := { t with status := .added }

/-- `{'billed': True}`. -/
def asBilled (e : Expense) : Expense := { e with billed := some true }

theorem asAdded_asAdded (t : Transaction) : asAdded (asAdded t) = asAdded t := rfl

theorem asBilled_asBilled (e : Expense) : asBilled (asBilled e) = asBilled e := rfl

/-- The amount of a top-up that is not marked. -/
def openAmount (t : Transaction) : ℚ := if t.status = .added then 0 else t.amount

/-- The price of an expense that is not marked. -/
def openPrice (e : Expense) : ℚ := if e.billed = some true then 0 else e.totalSalesPrice

/-- The amounts of the top-ups marked `added` between two states. -/
def addedSince (db db' : Db) : ℚ :=
  (db.transactions.entries.map fun e =>
    if (db'.transactions.get? e.1).map Transaction.status = some .added then openAmount e.2 else 0).sum

/-- The prices of the expenses marked as billed between two states. -/
def billedSince (db db' : Db) : ℚ :=
  (db.expenses.entries.map fun e =>
    if (db'.expenses.get? e.1).map Expense.billed = some (some true) then openPrice e.2 else 0).sum

/-- The amounts of all top-ups marked `added`. -/
def addedTotal (db : Db) : ℚ := db.transactions.total fun t => t.amount - openAmount t

/-- The prices of all expenses marked as billed. -/
def billedTotal (db : Db) : ℚ := db.expenses.total fun e => e.totalSalesPrice - openPrice e

/-- A state is reached from another by marking documents. -/
def Marked (db db' : Db) : Prop :=
  (∃ ks, db'.transactions = db.transactions.modifyAll ks asAdded) ∧
    ∃ ks, db'.expenses = db.expenses.modifyAll ks asBilled

theorem Marked.refl (db : Db) : Marked db db := ⟨⟨[], rfl⟩, ⟨[], rfl⟩⟩

theorem Marked.trans {a b c : Db} (hab : Marked a b) (hbc : Marked b c) : Marked a c := by
  obtain ⟨⟨ks, hks⟩, ls, hls⟩ := hab
  obtain ⟨⟨ks', hks'⟩, ls', hls'⟩ := hbc
  refine ⟨⟨ks ++ ks', ?_⟩, ls ++ ls', ?_⟩
  · rw [hks', hks, Dict.modifyAll, Dict.modifyAll, Dict.modifyAll, List.foldl_append]
  · rw [hls', hls, Dict.modifyAll, Dict.modifyAll, Dict.modifyAll, List.foldl_append]

theorem addedTotal_modifyAll {db db' : Db} {ks : List (String × String)}
    (h : db'.transactions = db.transactions.modifyAll ks asAdded) :
    addedTotal db' = addedTotal db + db.transactions.gained ks openAmount := by
  rw [addedTotal, addedTotal, h]
  refine Dict.total_modifyAll db.transactions ks asAdded_asAdded fun t => ?_
  simp [asAdded, openAmount]

theorem billedTotal_modifyAll {db db' : Db} {ks : List (String × String)}
    (h : db'.expenses = db.expenses.modifyAll ks asBilled) :
    billedTotal db' = billedTotal db + db.expenses.gained ks openPrice := by
  rw [billedTotal, billedTotal, h]
  refine Dict.total_modifyAll db.expenses ks asBilled_asBilled fun e => ?_
  simp [asBilled, openPrice]

/-- The top-ups marked since are the difference of the totals. -/
theorem addedSince_eq {db db' : Db} (h : Marked db db') : addedTotal db' = addedTotal db + addedSince db db' := by
  obtain ⟨⟨ks, hks⟩, -⟩ := h
  rw [addedTotal_modifyAll hks, addedSince, Dict.gained]
  congr 2
  refine List.map_congr_left fun e he => ?_
  rw [hks, Dict.get?_modifyAll _ _ _ asAdded_asAdded, Dict.mem_entries_iff.mp he]
  by_cases hk : e.1 ∈ ks
  · simp [hk, asAdded]
  · by_cases hs : e.2.status = .added <;> simp [hk, openAmount, hs]

/-- The expenses marked since are the difference of the totals. -/
theorem billedSince_eq {db db' : Db} (h : Marked db db') :
    billedTotal db' = billedTotal db + billedSince db db' := by
  obtain ⟨-, ks, hks⟩ := h
  rw [billedTotal_modifyAll hks, billedSince, Dict.gained]
  congr 2
  refine List.map_congr_left fun e he => ?_
  rw [hks, Dict.get?_modifyAll _ _ _ asBilled_asBilled, Dict.mem_entries_iff.mp he]
  by_cases hk : e.1 ∈ ks
  · simp [hk, asBilled]
  · by_cases hs : e.2.billed = some true <;> simp [hk, openPrice, hs]

/-! ### Sequences of recomputations -/

/-- A recomputation for a mandate of the user, and the operation that fails if it is reached. -/
structure BalanceRun (userId : String) where
  mandatePath : String
  fault : Option StoreOp
  ofUser : userIdOf mandatePath = userId

/-- One recomputation. -/
def applyRun {userId : String} (db : Db) (r : BalanceRun userId) : Db :=
  (getUserBalanceWith r.fault db r.mandatePath "").1

/-- The price of the expenses that a recomputation marks. -/
def markedPrice (db : Db) (mandatePath : String) : ℚ :=
  db.expenses.gained (billedRefs mandatePath (unbilledExpenses db mandatePath)) openPrice

/-- What a recomputation marks reaches the wallet: the sum of the top-ups is zero, or positive and written; the price of
the expenses is what is written. -/
def KeepsMoney {userId : String} (db : Db) (r : BalanceRun userId) : Prop :=
  reachesWallet r.mandatePath = true →
    (addsTopUps r.fault = true →
      toppingOf (pendingTransactions db r.mandatePath) = 0 ∨
        0 < toppingOf (pendingTransactions db r.mandatePath) ∧ r.fault ≠ some .writeTopping) ∧
    (billsExpenses r.fault db r.mandatePath = true →
      markedPrice db r.mandatePath =
        if 0 < expensesOf (unbilledExpenses db r.mandatePath) ∧ r.fault ≠ some .writeExpenses then
          expensesOf (unbilledExpenses db r.mandatePath)
        else 0)

/-- The wallet accounts for the documents marked since. -/
structure Conserved (userId : String) (db db' : Db) : Prop where
  topping : (db'.wallets userId).currentTopping = (db.wallets userId).currentTopping + addedSince db db'
  expenses : (db'.wallets userId).currentExpenses = (db.wallets userId).currentExpenses + billedSince db db'

/-- A recomputation that cannot address the wallet writes nothing, wherever it fails. -/
theorem getUserBalanceWith_idle (fault : Option StoreOp) (db : Db) {mandatePath : String}
    (h : reachesWallet mandatePath = false) : (getUserBalanceWith fault db mandatePath "").1 = db := by
  unfold getUserBalanceWith
  by_cases hm : mandatePath = ""
  · simp [hm]
  by_cases hu : userIdOf mandatePath = ""
  · simp [hm, hu]
  by_cases hr : fault = some .readWallet
  · simp [hm, hu, hr]
  · have hp : isDocPath mandatePath = false := by simpa [reachesWallet, hu] using h
    simp [hm, hu, hr, hp]

/-- The pending top-ups of a mandate are open. -/
theorem gained_pending (db : Db) (mandatePath : String) :
    db.transactions.gained ((pendingTransactions db mandatePath).map Prod.fst) openAmount =
      toppingOf (pendingTransactions db mandatePath) := by
  rw [pendingTransactions, Dict.gained_filter, toppingOf]
  congr 1
  refine List.map_congr_left fun e he => ?_
  have hstatus : e.2.status = .pending := by
    have := (List.mem_filter.mp he).2
    simp only [decide_eq_true_eq] at this
    exact this.2
  simp [openAmount, hstatus]

/-- Under a path in normal form the expenses that are marked are those that are charged. -/
theorem markedPrice_of_normal (db : Db) {mandatePath : String} (h : normalizeMandatePath mandatePath = mandatePath) :
    markedPrice db mandatePath = expensesOf (unbilledExpenses db mandatePath) := by
  have hrefs : billedRefs mandatePath (unbilledExpenses db mandatePath) =
      (unbilledExpenses db mandatePath).map Prod.fst := by
    refine List.map_congr_left fun e he => ?_
    have := (List.mem_filter.mp he).2
    simp only [decide_eq_true_eq, h] at this
    rw [← this.1]
  rw [markedPrice, hrefs, unbilledExpenses, Dict.gained_filter, expensesOf]
  congr 1
  refine List.map_congr_left fun e he => ?_
  have hbilled : e.2.billed = some false := by
    have := (List.mem_filter.mp he).2
    simp only [decide_eq_true_eq] at this
    exact this.2
  simp [openPrice, hbilled]

theorem marked_applyRun {userId : String} (db : Db) (r : BalanceRun userId) : Marked db (applyRun db r) := by
  by_cases hreach : reachesWallet r.mandatePath = true
  · have h := partial_effect r.fault db r.mandatePath hreach
    refine ⟨?_, ?_⟩
    · by_cases ha : addsTopUps r.fault = true
      · exact ⟨_, h.transactions.trans (if_pos ha)⟩
      · exact ⟨[], h.transactions.trans (if_neg ha)⟩
    · by_cases hb : billsExpenses r.fault db r.mandatePath = true
      · exact ⟨_, h.expenses.trans (if_pos hb)⟩
      · exact ⟨[], h.expenses.trans (if_neg hb)⟩
  · rw [applyRun, getUserBalanceWith_idle _ _ (by simpa using hreach)]
    exact Marked.refl db

theorem marked_run {userId : String} (db : Db) (runs : List (BalanceRun userId)) :
    Marked db (run applyRun db runs) := by
  induction runs using List.reverseRecOn with
  | nil => exact Marked.refl db
  | append_singleton runs r ih =>
      rw [run_concat]
      exact ih.trans (marked_applyRun _ r)

/-- **One recomputation** moves the wallet by what it marks exactly when it keeps the money. -/
theorem keepsMoney_iff {userId : String} (db : Db) (r : BalanceRun userId) :
    (((applyRun db r).wallets userId).currentTopping - (db.wallets userId).currentTopping =
          addedTotal (applyRun db r) - addedTotal db ∧
        ((applyRun db r).wallets userId).currentExpenses - (db.wallets userId).currentExpenses =
          billedTotal (applyRun db r) - billedTotal db) ↔ KeepsMoney db r := by
  by_cases hreach : reachesWallet r.mandatePath = true
  · obtain ⟨htx, hex, htop, hexp⟩ := partial_effect r.fault db r.mandatePath hreach
    rw [r.ofUser] at htop hexp
    unfold KeepsMoney
    simp only [hreach, forall_const]
    refine and_congr ?_ ?_
    · rw [applyRun, htop]
      by_cases ha : addsTopUps r.fault = true
      · rw [addedTotal_modifyAll (htx.trans (if_pos ha)), gained_pending]
        simp only [ha, true_and, forall_const, add_sub_cancel_left]
        split
        · next h => simp [h]
        · next h => rw [or_iff_left h, eq_comm]
      · have hsame : addedTotal (getUserBalanceWith r.fault db r.mandatePath "").1 = addedTotal db := by
          rw [addedTotal, addedTotal, htx, if_neg ha]
        simp [ha, hsame]
    · rw [applyRun, hexp]
      by_cases hb : billsExpenses r.fault db r.mandatePath = true
      · rw [billedTotal_modifyAll (hex.trans (if_pos hb))]
        simp only [hb, true_and, forall_const, add_sub_cancel_left, markedPrice]
        exact eq_comm
      · have hsame : billedTotal (getUserBalanceWith r.fault db r.mandatePath "").1 = billedTotal db := by
          rw [billedTotal, billedTotal, hex, if_neg hb]
        simp [hb, hsame]
  · rw [applyRun, getUserBalanceWith_idle _ _ (by simpa using hreach)]
    simp [KeepsMoney, hreach]

/-- The condition for a path in normal form: neither sum is lost on its way to the wallet, and none is negative. -/
theorem keepsMoney_iff_of_normal {userId : String} (db : Db) (r : BalanceRun userId)
    (hreach : reachesWallet r.mandatePath = true) (hnorm : normalizeMandatePath r.mandatePath = r.mandatePath) :
    KeepsMoney db r ↔
      (addsTopUps r.fault = true →
        toppingOf (pendingTransactions db r.mandatePath) = 0 ∨
          0 < toppingOf (pendingTransactions db r.mandatePath) ∧ r.fault ≠ some .writeTopping) ∧
      (billsExpenses r.fault db r.mandatePath = true →
        expensesOf (unbilledExpenses db r.mandatePath) = 0 ∨
          0 < expensesOf (unbilledExpenses db r.mandatePath) ∧ r.fault ≠ some .writeExpenses) := by
  unfold KeepsMoney
  simp only [hreach, forall_const, markedPrice_of_normal db hnorm]
  refine and_congr_right fun _ => forall_congr' fun _ => ?_
  split
  · next h => simp [h]
  · next h => rw [or_iff_left h]

/-- The wallet and the marked documents have moved by the same sums. -/
def MovedTogether (userId : String) (db db' : Db) : Prop :=
  (db'.wallets userId).currentTopping - addedTotal db' = (db.wallets userId).currentTopping - addedTotal db ∧
    (db'.wallets userId).currentExpenses - billedTotal db' =
      (db.wallets userId).currentExpenses - billedTotal db

theorem movedTogether_applyRun {userId : String} (db db' : Db) (r : BalanceRun userId) (h : MovedTogether userId db db') :
    MovedTogether userId db (applyRun db' r) ↔ KeepsMoney db' r := by
  rw [← keepsMoney_iff]
  obtain ⟨ht, he⟩ := h
  constructor
  · intro h
    obtain ⟨ht', he'⟩ := h
    exact ⟨by linarith, by linarith⟩
  · intro h
    obtain ⟨ht', he'⟩ := h
    exact ⟨by linarith, by linarith⟩

/-- A mandate with one pending top-up and one unbilled expense. -/
def oneOfEach : Db where
  wallets := fun _ => ⟨0, 0, 0⟩
  transactions := Dict.ofList [(("clients/u/mandates/m", "t"), ⟨"EUR", 10, .pending, "", ""⟩)]
  expenses := Dict.ofList [(("clients/u/mandates/m", "j"), ⟨3, some false⟩)]
  tokenUsage := ∅
  entries := ∅

/-- A recomputation for that mandate. -/
def runWith (fault : Option StoreOp) : BalanceRun "u" := ⟨"clients/u/mandates/m", fault, by decide⟩

end Pinnokio.Billing
