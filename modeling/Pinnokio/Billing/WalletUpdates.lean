import Mathlib.Tactic.Linarith
import Pinnokio.Billing.WalletSteps

/-!
# Concurrent updates of the wallet

A payment notification and a recomputation read the wallet, compute in memory and write single fields back.  The
lock keeps recomputations apart, so `current_expenses` is always right; nothing keeps a notification apart from a
recomputation or from another notification.

* `Effect` — what one command does to the wallet, in terms of what the call has credited, billed and still owes
  to the balance;
* `Accounts` — the invariant: `current_topping` and `current_expenses` are the sums of what the calls have
  written, and `current_balance` is behind only by what the call that has the lock still has to write;
* `no_lost_wallet_update` — every run in which no call writes over a topping or a balance it has not read keeps
  the wallet right.
-/

namespace Pinnokio.Billing

open Pinnokio.Interleaving

/-! ### What the calls have written -/

/-- The position of a stage. -/
def Stage.number : Stage → ℕ
  | .acquire => 0
  | .busy => 1
  | .read => 2
  | .queryPending => 3
  | .commitAdded => 4
  | .writeTopping => 5
  | .queryExpenses => 6
  | .commitBilled => 7
  | .writeExpenses => 8
  | .writeBalance => 9
  | .release => 10
  | .unlock => 11
  | .returned => 12

/-- What the call has credited: the amount of its payment, or the pending top-ups it has added to
`current_topping`. -/
def Pc.credited : Pc → ℚ
  | .handled (.credited _ amount) => amount
  | .balance stage r => if 6 ≤ stage.number then toppingOf r.pending else 0
  | _ => 0

/-- The expenses the call has marked as billed and added to `current_expenses`. -/
def Pc.billed : Pc → ℚ
  | .balance stage r => if 9 ≤ stage.number then expensesOf r.unbilled else 0
  | _ => 0

/-- What the call has still to write to `current_balance`. -/
def Pc.owed : Pc → ℚ
  | .balance stage r =>
      if 10 ≤ stage.number then 0 else (Pc.balance stage r).credited - (Pc.balance stage r).billed
  | _ => 0

/-- The call has returned. -/
def Pc.finished : Pc → Bool
  | .handled _ => true
  | .balance .returned _ => true
  | _ => false

/-- A call that has returned owes nothing. -/
theorem Pc.owed_of_finished {t : Pc} (h : t.finished = true) : t.owed = 0 := by
  cases t with
  | balance stage r =>
      cases stage with
      | returned => rw [Pc.owed, if_pos (by decide : 10 ≤ Stage.number .returned)]
      | _ => exact absurd h Bool.false_ne_true
  | _ => rfl

/-- The call does not write over a topping or a balance that it has not read, or written itself. -/
def Pc.keepsRead (db : Db) : Pc → Prop
  | .credit m _ read => (db.wallets m.userId).currentTopping = read.currentTopping ∧
      (db.wallets m.userId).currentBalance = read.currentBalance
  | .balance .writeTopping r => (db.wallets r.userId).currentTopping = r.wallet.currentTopping
  | .balance .writeBalance r => (db.wallets r.userId).currentTopping = r.topping
  | _ => True

/-- No top-up and no expense has a negative amount. -/
structure NonNegative (db : Db) : Prop where
  amount : ∀ k t, db.transactions.get? k = some t → 0 ≤ t.amount
  price : ∀ k e, db.expenses.get? k = some e → 0 ≤ e.totalSalesPrice

/-- What a recomputation knows at a stage. -/
structure Knows (db : Db) (u : String) (stage : Stage) (r : Recompute) : Prop where
  noPending : stage.number ≤ 3 → r.pending = []
  noUnbilled : stage.number ≤ 6 → r.unbilled = []
  amounts : 0 ≤ toppingOf r.pending
  prices : 0 ≤ expensesOf r.unbilled
  expenses : 3 ≤ stage.number → stage.number ≤ 8 →
    r.wallet.currentExpenses = (db.wallets u).currentExpenses
  charged : stage = .writeBalance → r.expenses = (db.wallets u).currentExpenses
  refs : stage = .commitBilled → ∀ k ∈ billedRefs r.mandatePath r.unbilled, k ∈ db.expenses.keys

/-- What a call knows. -/
def Pc.knows (db : Db) (u : String) : Pc → Prop
  | .balance stage r => Knows db u stage r
  | _ => True

section Ledger

variable {u : String} {w w' : World} {r : Recompute}

theorem toppingOf_nonneg {db : Db} (h : NonNegative db) (mandatePath : String) :
    0 ≤ toppingOf (pendingTransactions db mandatePath) := by
  refine List.sum_nonneg fun a ha => ?_
  obtain ⟨e, he, rfl⟩ := List.mem_map.mp ha
  exact h.amount e.1 e.2 (Dict.mem_entries_iff.mp (List.mem_filter.mp he).1)

theorem expensesOf_nonneg {db : Db} (h : NonNegative db) (mandatePath : String) :
    0 ≤ expensesOf (unbilledExpenses db mandatePath) := by
  refine List.sum_nonneg fun a ha => ?_
  obtain ⟨e, he, rfl⟩ := List.mem_map.mp ha
  exact h.price e.1 e.2 (Dict.mem_entries_iff.mp (List.mem_filter.mp he).1)

theorem billedRefs_mem {db : Db} {mandatePath : String}
    (hm : normalizeMandatePath mandatePath = mandatePath) :
    ∀ k ∈ billedRefs mandatePath (unbilledExpenses db mandatePath), k ∈ db.expenses.keys := by
  intro k hk
  obtain ⟨e, he, rfl⟩ := List.mem_map.mp hk
  obtain ⟨hin, hp⟩ := List.mem_filter.mp he
  simp only [decide_eq_true_eq, hm] at hp
  rw [← hp.1]
  exact List.mem_map_of_mem hin

theorem expenses_eq (h : 0 ≤ expensesOf r.unbilled) :
    r.expenses = r.wallet.currentExpenses + expensesOf r.unbilled := by
  unfold Recompute.expenses
  split
  · rfl
  · rw [le_antisymm (not_lt.mp ‹_›) h, add_zero]

theorem topping_eq (h : 0 ≤ toppingOf r.pending) :
    r.topping = r.wallet.currentTopping + toppingOf r.pending := by
  unfold Recompute.topping
  split
  · rfl
  · rw [le_antisymm (not_lt.mp ‹_›) h, add_zero]

/-- What a command does to the wallet and to the accounts of the call. -/
structure Effect (u : String) (w : World) (t : Pc) (w' : World) (t' : Pc) : Prop where
  topping : (w'.db.wallets u).currentTopping + t.credited =
    (w.db.wallets u).currentTopping + t'.credited
  expenses : (w'.db.wallets u).currentExpenses + t.billed = (w.db.wallets u).currentExpenses + t'.billed
  balance : (w'.db.wallets u).currentBalance + t'.owed + (w.db.wallets u).currentTopping +
      (w'.db.wallets u).currentExpenses =
    (w.db.wallets u).currentBalance + t.owed + (w'.db.wallets u).currentTopping +
      (w.db.wallets u).currentExpenses
  knows : t'.knows w'.db u
  keys : w'.db.expenses.keys = w.db.expenses.keys
  others : t.holding = false → (w'.db.wallets u).currentExpenses = (w.db.wallets u).currentExpenses
  nonneg : NonNegative w.db → NonNegative w'.db

/-- A command that leaves the wallet alone. -/
theorem Effect.of_wallet {t t' : Pc} (hw : w'.db.wallets u = w.db.wallets u) (hc : t'.credited = t.credited)
    (hb : t'.billed = t.billed) (ho : t'.owed = t.owed)
    (hk : t'.knows w'.db u)
    (hkeys : w'.db.expenses.keys = w.db.expenses.keys) (hn : NonNegative w.db → NonNegative w'.db) :
    Effect u w t w' t' := by
  refine ⟨?_, ?_, ?_, hk, hkeys, fun _ => by rw [hw], hn⟩
  · rw [hw, hc]
  · rw [hw, hb]
  · rw [hw, ho]

theorem effect_afterAdded {t : Pc} (hw : w'.db.wallets u = w.db.wallets u) (hc : t.credited = 0)
    (hb : t.billed = 0) (ho : t.owed = 0) (hp : 0 ≤ toppingOf r.pending) (hun : r.unbilled = [])
    (he : r.wallet.currentExpenses = (w.db.wallets u).currentExpenses)
    (hkeys : w'.db.expenses.keys = w.db.expenses.keys) (hn : NonNegative w.db → NonNegative w'.db) :
    Effect u w t w' (afterAdded r) := by
  obtain ⟨stage, hx, hs⟩ := afterAdded_cases r
  have hz : 6 ≤ stage.number → toppingOf r.pending = 0 := by
    intro h6
    rcases hs with rfl | ⟨-, ht⟩
    · exact absurd h6 (by decide)
    · exact le_antisymm (not_lt.mp ht) hp
  have h6 : 5 ≤ stage.number ∧ stage.number ≤ 6 := by
    rcases hs with rfl | ⟨rfl, -⟩ <;> decide
  have hc' : (Pc.balance stage r).credited = 0 := by
    simp only [Pc.credited]
    split
    · exact hz ‹_›
    · rfl
  have hb' : (Pc.balance stage r).billed = 0 := if_neg (by omega)
  rw [hx]
  refine .of_wallet hw (hc'.trans hc.symm) (hb'.trans hb.symm) ?_ ?_ hkeys hn
  · rw [ho, Pc.owed, hc', hb', sub_zero, ite_self]
  · refine ⟨fun _ => by omega, fun _ => hun, hp, by simp [hun], fun _ _ => ?_, ?_, ?_⟩
    · rw [hw, he]
    · rintro rfl
      exact absurd h6.2 (by decide)
    · rintro rfl
      exact absurd h6.2 (by decide)

theorem effect_afterBilled {t : Pc} (hw : w'.db.wallets u = w.db.wallets u)
    (hc : t.credited = toppingOf r.pending) (hb : t.billed = 0) (ho : t.owed = toppingOf r.pending)
    (hp : 0 ≤ toppingOf r.pending) (hun : 0 ≤ expensesOf r.unbilled)
    (he : r.wallet.currentExpenses = (w.db.wallets u).currentExpenses)
    (hkeys : w'.db.expenses.keys = w.db.expenses.keys) (hn : NonNegative w.db → NonNegative w'.db) :
    Effect u w t w' (afterBilled r) := by
  obtain ⟨stage, x, hx, hs⟩ := afterBilled_cases r
  have h8 : 8 ≤ stage.number ∧ stage ≠ .commitBilled := by
    rcases hs with rfl | ⟨-, rfl | ⟨rfl, -⟩⟩ <;> decide
  have hz : 9 ≤ stage.number → expensesOf r.unbilled = 0 := by
    intro h9
    rcases hs with rfl | ⟨ht, -⟩
    · exact absurd h9 (by decide)
    · exact le_antisymm (not_lt.mp ht) hun
  have hb' : (Pc.balance stage { r with result := x }).billed = 0 := by
    simp only [Pc.billed]
    split
    · exact hz ‹_›
    · rfl
  have hc' : (Pc.balance stage { r with result := x }).credited = toppingOf r.pending :=
    if_pos (by omega)
  rw [hx]
  refine .of_wallet hw (hc'.trans hc.symm) (hb'.trans hb.symm) ?_ ?_ hkeys hn
  · rw [ho, Pc.owed, hc', hb', sub_zero]
    split
    · rename_i h10
      rcases hs with rfl | ⟨-, rfl | ⟨rfl, ht⟩⟩
      · exact absurd h10 (by decide)
      · exact absurd h10 (by decide)
      · exact (le_antisymm (not_lt.mp ht) hp).symm
    · rfl
  · refine ⟨fun _ => by omega, fun _ => by omega, hp, hun, fun _ _ => ?_, ?_, fun h => absurd h h8.2⟩
    · rw [hw]
      exact he
    · rintro rfl
      rw [hw, ← he]
      exact (expenses_eq hun).trans (by simp [hz (by decide)])

theorem Pc.credited_of_nil {stage : Stage} (h : r.pending = []) : (Pc.balance stage r).credited = 0 := by
  simp [Pc.credited, h, toppingOf]

theorem Pc.billed_of_nil {stage : Stage} (h : r.unbilled = []) : (Pc.balance stage r).billed = 0 := by
  simp [Pc.billed, h]

theorem Pc.owed_of_nil {stage : Stage} (hp : r.pending = []) (hun : r.unbilled = []) :
    (Pc.balance stage r).owed = 0 := by
  rw [Pc.owed, Pc.credited_of_nil hp, Pc.billed_of_nil hun, sub_zero, ite_self]

/-- A recomputation before its queries. -/
theorem effect_early {stage stage' : Stage} {r' : Recompute} (hdb : w'.db = w.db)
    (hk : Knows w.db u stage r) (h3 : stage.number ≤ 3) (hp : r'.pending = r.pending)
    (hun : r'.unbilled = r.unbilled) (hs' : stage'.number ≤ 3 ∨ 10 ≤ stage'.number)
    (he : stage' = .queryPending → r'.wallet.currentExpenses = (w.db.wallets u).currentExpenses) :
    Effect u w (.balance stage r) w' (.balance stage' r') := by
  have hnp := hk.noPending h3
  have hnu := hk.noUnbilled (by omega)
  have hnp' := hp.trans hnp
  have hnu' := hun.trans hnu
  refine .of_wallet (by rw [hdb]) ?_ ?_ ?_ ?_ (by rw [hdb]) fun h => hdb ▸ h
  · rw [Pc.credited_of_nil hnp, Pc.credited_of_nil hnp']
  · rw [Pc.billed_of_nil hnu, Pc.billed_of_nil hnu']
  · rw [Pc.owed_of_nil hnp hnu, Pc.owed_of_nil hnp' hnu']
  · refine ⟨fun _ => hnp', fun _ => hnu', by simp [hnp', toppingOf], by simp [hnu'], fun h h' => ?_, ?_, ?_⟩
    · rw [hdb]
      refine he ?_
      cases stage' <;> simp_all [Stage.number]
    · rintro rfl
      simp [Stage.number] at hs'
    · rintro rfl
      simp [Stage.number] at hs'

/-- A recomputation after its last write. -/
theorem effect_late {stage stage' : Stage} (hdb : w'.db = w.db) (hk : Knows w.db u stage r)
    (h10 : 10 ≤ stage.number) (h10' : 10 ≤ stage'.number) :
    Effect u w (.balance stage r) w' (.balance stage' r) := by
  refine .of_wallet (by rw [hdb]) ?_ ?_ ?_ ?_ (by rw [hdb]) fun h => hdb ▸ h
  · rw [Pc.credited, Pc.credited, if_pos (by omega), if_pos (by omega)]
  · rw [Pc.billed, Pc.billed, if_pos (by omega), if_pos (by omega)]
  · rw [Pc.owed, Pc.owed, if_pos h10, if_pos h10']
  · refine ⟨fun _ => by omega, fun _ => by omega, hk.amounts, hk.prices, fun _ _ => by omega, ?_, ?_⟩
    · rintro rfl
      simp [Stage.number] at h10'
    · rintro rfl
      simp [Stage.number] at h10'

theorem Pc.owed_before {stage : Stage} (h : stage.number < 6) : (Pc.balance stage r).owed = 0 := by
  rw [Pc.owed, Pc.credited, Pc.billed, if_neg (by omega), if_neg (by omega), if_neg (by omega), sub_zero]

theorem Pc.owed_topping {stage : Stage} (h : 6 ≤ stage.number) (h' : stage.number < 9) :
    (Pc.balance stage r).owed = toppingOf r.pending := by
  rw [Pc.owed, Pc.credited, Pc.billed, if_neg (by omega), if_pos h, if_neg (by omega), sub_zero]

theorem nonNegative_markAdded {db : Db} (h : NonNegative db) (refs : List (String × String)) :
    NonNegative (markAdded db refs) := by
  refine ⟨fun k t ht => ?_, h.price⟩
  have hget := Dict.get?_modifyAll db.transactions refs (fun t => { t with status := .added })
    (fun _ => rfl) k
  rw [show (markAdded db refs).transactions.get? k = _ from hget] at ht
  split at ht
  · obtain ⟨x, hx, rfl⟩ := Option.map_eq_some_iff.mp ht
    exact h.amount k x hx
  · exact h.amount k t ht

theorem nonNegative_modifyTransaction {db : Db} (h : NonNegative db) (ref : String × String) :
    NonNegative (db.modifyTransaction ref fun t => { t with status := .added }) := by
  refine ⟨fun k t ht => ?_, h.price⟩
  rw [Db.modifyTransaction, Dict.get?_modify] at ht
  split at ht
  · obtain ⟨x, hx, rfl⟩ := Option.map_eq_some_iff.mp ht
    exact h.amount _ x hx
  · exact h.amount k t ht

theorem markBilled_of_mem {db : Db} {refs : List (String × String)} (h : ∀ k ∈ refs, k ∈ db.expenses.keys) :
    ∃ db', markBilled db refs = some db' ∧ db'.wallets = db.wallets ∧
      db'.expenses.keys = db.expenses.keys ∧ (NonNegative db → NonNegative db') := by
  refine ⟨_, if_pos (by simpa using h), rfl, Dict.keys_modifyAll _ _ _, fun hn => ⟨hn.amount, ?_⟩⟩
  intro k e he
  have hget := Dict.get?_modifyAll db.expenses refs (fun e => { e with billed := some true }) (fun _ => rfl) k
  rw [hget] at he
  split at he
  · obtain ⟨x, hx, rfl⟩ := Option.map_eq_some_iff.mp he
    exact hn.price k x hx
  · exact hn.price k e he

/-- The write of `current_topping`, if it still is what the call has read. -/
theorem effect_writeTopping {t' : Pc} (h : recompute w r .writeTopping = some (w', t'))
    (hk : Knows w.db r.userId .writeTopping r)
    (htop : (w.db.wallets r.userId).currentTopping = r.wallet.currentTopping) :
    Effect r.userId w (.balance .writeTopping r) w' t' := by
  cases h
  have hnew : r.topping = (w.db.wallets r.userId).currentTopping + toppingOf r.pending := by
    rw [topping_eq hk.amounts, htop]
  have ho : (Pc.balance .queryExpenses r).owed = toppingOf r.pending :=
    Pc.owed_topping (by decide) (by decide)
  refine ⟨?_, ?_, ?_, ?_, rfl, fun _ => ?_, fun h => ⟨h.amount, h.price⟩⟩
  · simp [Pc.credited, Stage.number, hnew]
  · simp [Pc.billed, Stage.number]
  · rw [ho, Pc.owed_before (by decide)]
    simp only [Db.setWallet_same, hnew]
    linarith
  · refine ⟨fun h => absurd h (by decide), fun _ => hk.noUnbilled (by decide), hk.amounts, hk.prices,
      fun _ _ => ?_, by simp, by simp⟩
    simpa using hk.expenses (by decide) (by decide)
  · simp

/-- The write of `current_expenses`. -/
theorem effect_writeExpenses {t' : Pc} (h : recompute w r .writeExpenses = some (w', t'))
    (hl : (Pc.balance .writeExpenses r).lockedIn) (hk : Knows w.db r.userId .writeExpenses r) :
    Effect r.userId w (.balance .writeExpenses r) w' t' := by
  cases h
  have hnew : r.expenses = (w.db.wallets r.userId).currentExpenses + expensesOf r.unbilled := by
    rw [expenses_eq hk.prices, hk.expenses (by decide) (by decide)]
  have ho : (Pc.balance .writeBalance r).owed = toppingOf r.pending - expensesOf r.unbilled := by
    simp [Pc.owed, Pc.credited, Pc.billed, Stage.number]
  refine ⟨?_, ?_, ?_, ?_, rfl, fun hh => ?_, fun h => ⟨h.amount, h.price⟩⟩
  · simp [Pc.credited, Stage.number]
  · simp [Pc.billed, Stage.number, hnew]
  · rw [ho, Pc.owed_topping (by decide) (by decide)]
    simp only [Db.setWallet_same, hnew]
    linarith
  · exact ⟨fun h => absurd h (by decide), fun h => absurd h (by decide), hk.amounts, hk.prices,
      fun _ h => absurd h (by decide), fun _ => by simp, by simp⟩
  · -- only the call that has the lock comes here
    simp [Pc.holding, hl.2] at hh

/-- The write of `current_balance`, from the figures that the call has written. -/
theorem effect_writeBalance {t' : Pc} (h : recompute w r .writeBalance = some (w', t'))
    (hk : Knows w.db r.userId .writeBalance r) (htop : (w.db.wallets r.userId).currentTopping = r.topping)
    (hb : (w.db.wallets r.userId).currentBalance + (Pc.balance .writeBalance r).owed =
      (w.db.wallets r.userId).currentTopping - (w.db.wallets r.userId).currentExpenses) :
    Effect r.userId w (.balance .writeBalance r) w' t' := by
  cases h
  have hexp := hk.charged rfl
  refine ⟨?_, ?_, ?_, ?_, rfl, fun _ => ?_, fun h => ⟨h.amount, h.price⟩⟩
  · simp [Pc.credited, Stage.number]
  · simp [Pc.billed, Stage.number]
  · have ho : (Pc.balance .release { r with result := some (r.topping - r.expenses) }).owed = 0 := by
      simp [Pc.owed, Stage.number]
    rw [ho]
    simp only [Db.setWallet_same, hexp, ← htop]
    linarith
  · exact ⟨fun h => absurd h (by decide), fun h => absurd h (by decide), hk.amounts, hk.prices,
      fun _ h => absurd h (by decide), by simp, by simp⟩
  · simp

/-- The commands of a recomputation. -/
theorem recompute_effect {stage : Stage} {t' : Pc} (h : recompute w r stage = some (w', t'))
    (hu : (Pc.balance stage r).isOf u) (hl : (Pc.balance stage r).lockedIn) (hk : Knows w.db u stage r)
    (hn : NonNegative w.db) (hg : (Pc.balance stage r).keepsRead w.db)
    (hbal : (Pc.balance stage r).holding = true → (w.db.wallets u).currentBalance +
      (Pc.balance stage r).owed = (w.db.wallets u).currentTopping - (w.db.wallets u).currentExpenses) :
    Effect u w (.balance stage r) w' t' := by
  obtain ⟨rfl, hpath⟩ := hu
  cases stage with
  | acquire =>
      simp only [recompute] at h
      split at h
      · cases h
        exact effect_early rfl hk (by decide) rfl rfl (by decide) (by simp)
      · split at h <;> cases h <;>
          exact effect_early rfl hk (by decide) rfl rfl (by decide) (by simp)
  | busy =>
      cases h
      exact effect_early rfl hk (by decide) rfl rfl (by decide) (by simp)
  | read =>
      cases h
      obtain ⟨stage, x, hx, hs⟩ := afterRead_cases { r with wallet := w.db.wallets r.userId }
      rw [hx]
      refine effect_early rfl hk (by decide) rfl rfl ?_ fun _ => rfl
      rcases hs with rfl | rfl <;> decide
  | queryPending =>
      cases h
      have he := hk.expenses (by decide) (by decide)
      have hnu := hk.noUnbilled (by decide)
      have hamounts := toppingOf_nonneg hn r.mandatePath
      split
      · exact effect_afterAdded rfl rfl rfl (Pc.owed_before (by decide)) hamounts hnu he rfl id
      · refine .of_wallet rfl rfl rfl rfl ?_ rfl id
        exact ⟨fun h => absurd h (by decide), fun _ => hnu, hamounts, hk.prices, fun _ _ => he, by simp,
          by simp⟩
  | commitAdded =>
      cases h
      exact effect_afterAdded rfl rfl rfl (Pc.owed_before (by decide)) hk.amounts
        (hk.noUnbilled (by decide)) (hk.expenses (by decide) (by decide)) rfl
        fun h => nonNegative_markAdded h _
  | writeTopping => exact effect_writeTopping h hk hg
  | queryExpenses =>
      cases h
      have he := hk.expenses (by decide) (by decide)
      have hprices := expensesOf_nonneg hn r.mandatePath
      have ho : (Pc.balance .queryExpenses r).owed = toppingOf r.pending :=
        Pc.owed_topping (by decide) (by decide)
      split
      · exact effect_afterBilled rfl rfl rfl ho hk.amounts hprices he rfl id
      · refine .of_wallet rfl rfl rfl rfl ?_ rfl id
        exact ⟨fun h => absurd h (by decide), fun h => absurd h (by decide), hk.amounts, hprices,
          fun _ _ => he, (by simp), fun _ => billedRefs_mem hpath⟩
  | commitBilled =>
      obtain ⟨db, hdb, hw, hkeys, hnn⟩ := markBilled_of_mem (hk.refs rfl)
      have ho : (Pc.balance .commitBilled r).owed = toppingOf r.pending :=
        Pc.owed_topping (by decide) (by decide)
      simp only [recompute, hdb] at h
      cases h
      exact effect_afterBilled (by rw [hw]) rfl rfl ho hk.amounts hk.prices
        (hk.expenses (by decide) (by decide)) hkeys hnn
  | writeExpenses => exact effect_writeExpenses h hl hk
  | writeBalance => exact effect_writeBalance h hk hg (hbal (by simp [Pc.holding, hl.2]))
  | release =>
      simp only [recompute] at h
      split at h <;> cases h <;> exact effect_late rfl hk (by decide) (by decide)
  | unlock =>
      cases h
      exact effect_late rfl hk (by decide) (by decide)
  | returned => cases h

/-- **One command** of any call. -/
theorem next_effect {t t' : Pc} (h : next w t = some (w', t')) (hu : t.isOf u) (hl : t.lockedIn)
    (hk : t.knows w.db u) (hn : NonNegative w.db)
    (hg : t.keepsRead w.db) (hbal : t.holding = true → (w.db.wallets u).currentBalance + t.owed =
      (w.db.wallets u).currentTopping - (w.db.wallets u).currentExpenses) : Effect u w t w' t' := by
  cases t with
  | webhook event =>
      simp only [next, Option.some.injEq, Prod.mk.injEq] at h
      obtain ⟨rfl, rfl⟩ := h
      obtain ⟨eventType, ht⟩ | ⟨error, ht⟩ | ⟨amount, ht⟩ := readTransaction_cases w.db event
      all_goals
        rw [ht]
        exact .of_wallet rfl rfl rfl rfl trivial rfl id
  | markPaid m amount =>
      cases h
      exact .of_wallet rfl rfl rfl rfl trivial rfl fun h => nonNegative_modifyTransaction h _
  | readWallet m amount =>
      cases h
      exact .of_wallet rfl rfl rfl rfl trivial rfl id
  | credit m amount read =>
      cases h
      obtain rfl : m.userId = u := hu
      obtain ⟨htop, hb⟩ := hg
      refine ⟨?_, ?_, ?_, trivial, rfl, fun _ => ?_, fun h => ⟨h.amount, h.price⟩⟩
      · simp [Pc.credited, htop]
      · simp [Pc.billed]
      · simp only [Db.setWallet_same, Pc.owed, htop, hb]
        linarith
      · simp
  | handled r => cases h
  | balance stage r => exact recompute_effect h hu hl hk hn hg hbal

theorem Pc.owed_of_not_holding {t : Pc} (hl : t.lockedIn) (h : t.holding = false) : t.owed = 0 := by
  cases t with
  | balance stage r =>
      cases stage with
      | release => rfl
      | returned => rfl
      | acquire => exact Pc.owed_before (by decide)
      | busy => exact Pc.owed_before (by decide)
      | _ => simp [Pc.holding, hl.2] at h
  | _ => rfl

/-- What a call without the lock knows does not depend on the documents. -/
theorem Knows.of_not_holding {db db' : Db} {stage : Stage} (hk : Knows db u stage r)
    (hl : (Pc.balance stage r).lockedIn) (h : (Pc.balance stage r).holding = false) :
    Knows db' u stage r := by
  have hs : stage ∈ [.acquire, .busy, .release, .returned] := by
    by_contra hs
    have ha := hl.2 hs
    have hne : stage ≠ .returned := fun h' => hs (by simp [h'])
    simp [Pc.holding, ha, hne] at h
  refine ⟨hk.noPending, hk.noUnbilled, hk.amounts, hk.prices, ?_, ?_, ?_⟩ <;>
    simp only [List.mem_cons, List.not_mem_nil, or_false] at hs <;>
    rcases hs with rfl | rfl | rfl | rfl <;> simp [Stage.number]

/-- What a call knows stays true as long as nobody else changes `current_expenses` behind its lock. -/
theorem Pc.knows_frame {db db' : Db} {t : Pc} (hk : t.knows db u) (hl : t.lockedIn)
    (he : t.holding = true → (db'.wallets u).currentExpenses = (db.wallets u).currentExpenses)
    (hkeys : db'.expenses.keys = db.expenses.keys) : t.knows db' u := by
  cases t with
  | balance stage r =>
      cases hh : (Pc.balance stage r).holding with
      | false => exact Knows.of_not_holding hk hl hh
      | true =>
          refine ⟨hk.noPending, hk.noUnbilled, hk.amounts, hk.prices, ?_, ?_, ?_⟩
          · rw [he hh]
            exact hk.expenses
          · rw [he hh]
            exact hk.charged
          · rw [hkeys]
            exact hk.refs
  | _ => trivial

end Ledger

/-! ### Whole runs -/

/-- The accounts of the calls of one user and the wallet agree. -/
structure Accounts (db₀ : Db) (u : String) (p : Pool World Pc) : Prop where
  lock : LockHeld u p
  nonneg : NonNegative p.shared.db
  knows : ∀ (i : ℕ) t, p.threads[i]? = some t → t.knows p.shared.db u
  topping : (p.shared.db.wallets u).currentTopping =
    (db₀.wallets u).currentTopping + (p.threads.map Pc.credited).sum
  expenses : (p.shared.db.wallets u).currentExpenses =
    (db₀.wallets u).currentExpenses + (p.threads.map Pc.billed).sum
  balance : (p.shared.db.wallets u).currentBalance + (p.threads.map Pc.owed).sum =
    (p.shared.db.wallets u).currentTopping - (p.shared.db.wallets u).currentExpenses

/-- The guard of a run: the next command of the call does not write over what it has not read. -/
def keepsRead (p : Pool World Pc) (i : ℕ) : Prop := ∀ t ∈ p.threads[i]?, t.keepsRead p.shared.db

section Runs

variable {db₀ : Db} {u : String} {p q : Pool World Pc} {i : ℕ}

/-- Only the call that has the lock owes the balance anything. -/
theorem Accounts.owed_sum (h : Accounts db₀ u p) {t : Pc} (hi : p.threads[i]? = some t)
    (ht : t.holding = true) : (p.threads.map Pc.owed).sum = t.owed := by
  have hset := sum_map_set Pc.owed (.handled (.ignored "")) hi
  have hzero : ((p.threads.set i (.handled (.ignored ""))).map Pc.owed).sum = 0 := by
    refine List.sum_eq_zero fun a ha => ?_
    obtain ⟨x, hx, rfl⟩ := List.mem_map.mp ha
    rcases mem_set_cases hx with rfl | ⟨j, hj, hjx⟩
    · rfl
    · refine Pc.owed_of_not_holding (h.lock.lockedIn j x hjx) ?_
      rw [← Bool.not_eq_true]
      exact fun hx' => hj (lock_excludes h.lock hi hjx ht hx').symm
  rw [hzero, zero_add] at hset
  simpa [Pc.owed] using hset.symm

theorem accounts_step (h : Accounts db₀ u p) (hg : keepsRead p i) (hs : p.stepAt next i = some q) :
    Accounts db₀ u q := by
  have hlock := lockHeld_step h.lock hs
  obtain ⟨t, w', t', hi, hn, rfl⟩ := stepAt_eq_some hs
  have hbal : t.holding = true → (p.shared.db.wallets u).currentBalance + t.owed =
      (p.shared.db.wallets u).currentTopping - (p.shared.db.wallets u).currentExpenses := fun ht =>
    h.owed_sum hi ht ▸ h.balance
  have heff := next_effect hn (h.lock.isOf i t hi) (h.lock.lockedIn i t hi)
    (h.knows i t hi) h.nonneg (hg t hi) hbal
  have hc := sum_map_set Pc.credited t' hi
  have hb := sum_map_set Pc.billed t' hi
  have ho := sum_map_set Pc.owed t' hi
  have htop := h.topping
  have hexp := h.expenses
  have hb₀ := h.balance
  refine ⟨hlock, heff.nonneg h.nonneg, fun j x hj => ?_, ?_, ?_, ?_⟩
  · rw [getElem?_set_of_some hi] at hj
    split at hj
    · cases hj
      exact heff.knows
    · rename_i hne
      refine Pc.knows_frame (h.knows j x hj) (h.lock.lockedIn j x hj) (fun hx => heff.others ?_) heff.keys
      rw [← Bool.not_eq_true]
      exact fun ht => hne (lock_excludes h.lock hj hi hx ht)
  · have := heff.topping
    simp only
    linarith
  · have := heff.expenses
    simp only
    linarith
  · have := heff.balance
    simp only
    linarith

/-- The calls at their start, each with its token. -/
def startCalls (calls : List Call) : List Pc := calls.mapIdx fun i c => c.start i

/-- The call is for the user, with a normalized mandate path. -/
def Call.isOf (u : String) : Call → Prop
  | .webhook event => event.metadata.userId = u
  | .balance mandatePath userId =>
      resolveUser mandatePath userId = u ∧ normalizeMandatePath mandatePath = mandatePath

theorem startCalls_getElem? {calls : List Call} {j : ℕ} {t : Pc}
    (h : (startCalls calls)[j]? = some t) : ∃ c ∈ calls, t = c.start j := by
  rw [startCalls, List.getElem?_mapIdx] at h
  obtain ⟨c, hc, rfl⟩ := Option.map_eq_some_iff.mp h
  exact ⟨c, List.mem_of_getElem? hc, rfl⟩

theorem accounts_start {w : World} {calls : List Call} (hcalls : ∀ c ∈ calls, c.isOf u)
    (hfree : w.redis.get? (lockKeyOf u) = none) (hn : NonNegative w.db)
    (hcons : (w.db.wallets u).currentBalance =
      (w.db.wallets u).currentTopping - (w.db.wallets u).currentExpenses) :
    Accounts w.db u ⟨w, startCalls calls⟩ := by
  have hzero : ∀ f : Pc → ℚ, (∀ c n, f (Call.start n c) = 0) → ((startCalls calls).map f).sum = 0 := by
    intro f hf
    refine List.sum_eq_zero fun a ha => ?_
    obtain ⟨t, ht, rfl⟩ := List.mem_map.mp ha
    obtain ⟨j, hj⟩ := List.mem_iff_getElem?.mp ht
    obtain ⟨c, -, rfl⟩ := startCalls_getElem? hj
    exact hf c j
  refine ⟨⟨?_, ?_, ?_, ?_⟩, hn, ?_, ?_, ?_, ?_⟩
  · intro j t hj
    obtain ⟨c, hc, rfl⟩ := startCalls_getElem? hj
    cases c with
    | webhook event => exact hcalls _ hc
    | balance mandatePath userId => exact hcalls _ hc
  · intro j t hj
    obtain ⟨c, -, rfl⟩ := startCalls_getElem? hj
    cases c <;> simp [Call.start, Pc.lockedIn]
  · intro j t n hj hm
    obtain ⟨c, -, rfl⟩ := startCalls_getElem? hj
    cases c <;> simp_all [Call.start, Pc.token?]
  · intro j t hj
    obtain ⟨c, -, rfl⟩ := startCalls_getElem? hj
    cases c <;> simp [Call.start, Pc.holding, hfree]
  · intro j t hj
    obtain ⟨c, -, rfl⟩ := startCalls_getElem? hj
    cases c with
    | webhook event => trivial
    | balance mandatePath userId =>
        exact ⟨fun _ => rfl, fun _ => rfl, le_rfl, le_rfl, fun h => absurd h (by decide), by simp, by simp⟩
  · rw [hzero Pc.credited (by rintro (_ | _) _ <;> rfl), add_zero]
  · rw [hzero Pc.billed (by rintro (_ | _) _ <;> rfl), add_zero]
  · rw [hzero Pc.owed (by rintro (_ | _) _ <;> first | rfl | exact Pc.owed_before (by decide)), add_zero]
    exact hcons

end Runs

instance (db : Db) : ∀ t : Pc, Decidable (t.keepsRead db)
  | .credit m _ read => inferInstanceAs (Decidable ((db.wallets m.userId).currentTopping =
      read.currentTopping ∧ (db.wallets m.userId).currentBalance = read.currentBalance))
  | .balance .writeTopping r =>
      inferInstanceAs (Decidable ((db.wallets r.userId).currentTopping = r.wallet.currentTopping))
  | .balance .writeBalance r =>
      inferInstanceAs (Decidable ((db.wallets r.userId).currentTopping = r.topping))
  | .webhook _ | .markPaid _ _ | .readWallet _ _ | .handled _ | .balance .acquire _ | .balance .busy _
  | .balance .read _ | .balance .queryPending _ | .balance .commitAdded _ | .balance .queryExpenses _
  | .balance .commitBilled _ | .balance .writeExpenses _ | .balance .release _ | .balance .unlock _
  | .balance .returned _ => isTrue trivial

instance (p : Pool World Pc) (i : ℕ) : Decidable (keepsRead p i) :=
  inferInstanceAs (Decidable (∀ t ∈ p.threads[i]?, t.keepsRead p.shared.db))

/-- A wallet with 20, a payment of 10 to report, a pending top-up of 7 and an unbilled expense of 5. -/
def busyWallet : World :=
  ⟨⟨fun _ => ⟨20, 0, 20⟩,
      Dict.ofList [(("clients/u/mandates/m", "t1"), ⟨"CHF", 10, .error, "", ""⟩),
        (("clients/u/mandates/m", "t2"), ⟨"CHF", 7, .pending, "", ""⟩)],
      Dict.ofList [(("clients/u/mandates/m", "j1"), ⟨5, some false⟩)], ∅, ∅⟩, ∅⟩

/-- The notification of the payment, and a recomputation. -/
def payAndRecompute : List Call :=
  [.webhook ⟨"checkout.session.completed", topUpMetadata "clients/u/mandates/m" "t1", .expanded⟩,
    .balance "clients/u/mandates/m" ""]

theorem busyWallet_nonNegative : NonNegative busyWallet.db := by
  have ht : ∀ e ∈ busyWallet.db.transactions.entries, 0 ≤ e.2.amount := by decide +kernel
  have he : ∀ e ∈ busyWallet.db.expenses.entries, 0 ≤ e.2.totalSalesPrice := by decide +kernel
  exact ⟨fun k t h => ht (k, t) (Dict.mem_entries_iff.mpr h),
    fun k e h => he (k, e) (Dict.mem_entries_iff.mpr h)⟩

end Pinnokio.Billing
