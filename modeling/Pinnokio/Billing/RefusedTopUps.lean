import Pinnokio.Billing.TopUp
import Pinnokio.Billing.WalletFailures

/-!
# Refused top-ups

The creation of a top-up writes a `pending` transaction before it asks the payment provider for a session; when the
session cannot be created the transaction is to be cancelled.  `addTopUpWith` is the creation with a failure at any of
its writes.

* `addTopUpWith_none` — without a failure it is `addTopUp`;
* `leftPending` — the calls that are refused and leave a `pending` transaction behind;
* `SameBut` — the documents with and without a transaction of a refused call, and `sameBut_balance`: a
  recomputation keeps them together;
* `refused_never_credited_iff` — when no sequence of recomputations credits a refused top-up.
-/

namespace Pinnokio.Billing

open Pinnokio.Runs

/-! ### The creation with failures -/

/-- What `add_top_up` is called with: something else than a dictionary, an amount that is not a number, or the data. -/
inductive TopUpRequest where
  | notDict
  | unreadable (error : String)
  | data (d : TopUpData)

/-- The writes of `add_top_up` that fail, with the texts of their exceptions. -/
structure TopUpFaults where
  create : Option String
  session : Option String
  cancel : Option String

/-- No write fails. -/
def TopUpFaults.none : TopUpFaults := ⟨Option.none, Option.none, Option.none⟩

/-- The `except` branch around the payment provider. -/
def cancelTopUp (faults : TopUpFaults) (db : Db) (ref : String × String) (error : String) : Db × TopUpResult :=
  match faults.cancel with
  | some e => (db, .refused e)
  | Option.none => (db.modifyTransaction ref fun t => { t with status := .error, errorMessage := error },
      .refused ("Stripe error: " ++ error))

/-- From the new transaction to the payment session. -/
def startPayment (faults : TopUpFaults) (db : Db) (ref : String × String) : StripeReply → Db × TopUpResult
  | .notConfigured => (db, .refused "'FirebaseManagement' object has no attribute '_process_immediate_top_up'")
  | .failed e => cancelTopUp faults db ref e
  | .session id url =>
      match faults.session with
      | some e => cancelTopUp faults db ref e
      | Option.none => (db.modifyTransaction ref fun t => { t with stripeSessionId := id }, .started url ref.2)

/-- `add_top_up`, when the writes `faults` fail. -/
def addTopUpWith (faults : TopUpFaults) (db : Db) (mandatePath : String) (request : TopUpRequest) (newId : String)
    (stripe : StripeReply) : Db × TopUpResult :=
  match request with
  | .notDict => (db, .refused "top_up_data must be a dictionary")
  | .unreadable e =>
      if userIdOf mandatePath = "" then (db, .refused "Could not extract user_id from mandate_path")
      else (db, .refused e)
  | .data ⟨some currency, some amount⟩ =>
      if userIdOf mandatePath = "" then (db, .refused "Could not extract user_id from mandate_path")
      else if amount ≤ 0 then (db, .refused "Amount must be greater than 0")
      else if ¬isDocPath mandatePath then (db, .badPath)
      else
        match faults.create with
        | some e => (db, .refused e)
        | Option.none =>
            startPayment faults (db.setTransaction (mandatePath, newId) (newTransaction currency amount))
              (mandatePath, newId) stripe
  | .data _ => (db, .refused "Missing required fields: currency and amount")

/-- `result['success']`. -/
def TopUpResult.success : TopUpResult → Bool
  | .started _ _ => true
  | _ => false

/-- **Without a failure** it is the creation of a top-up. -/
theorem addTopUpWith_none (db : Db) (mandatePath : String) (data : TopUpData) (newId : String) (stripe : StripeReply) :
    addTopUpWith .none db mandatePath (.data data) newId stripe = addTopUp db mandatePath data newId stripe := by
  obtain ⟨currency, amount⟩ := data
  unfold addTopUpWith addTopUp
  cases currency with
  | none => rfl
  | some currency =>
      cases amount with
      | none => rfl
      | some amount => cases stripe <;> rfl

/-- After its document is written the call is refused and does not cancel it: there is no payment provider, or the
provider or the session update fails and the cancellation fails too. -/
def notCancelled (faults : TopUpFaults) : StripeReply → Bool
  | .notConfigured => true
  | .failed _ => faults.cancel.isSome
  | .session _ _ => faults.session.isSome && faults.cancel.isSome

/-- The amount of the `pending` transaction that a refused call leaves behind. -/
def leftPending (faults : TopUpFaults) (mandatePath : String) (stripe : StripeReply) : TopUpRequest → Option ℚ
  | .data ⟨some _, some amount⟩ =>
      if userIdOf mandatePath ≠ "" ∧ 0 < amount ∧ isDocPath mandatePath ∧ faults.create = Option.none ∧
          notCancelled faults stripe then
        some amount
      else Option.none
  | _ => Option.none

/-- One recomputation. -/
def balance (db : Db) (mandatePath : String) : Db := (getUserBalance db mandatePath "").1

section Documents

variable (db : Db) {mandatePath newId : String} (hnew : (mandatePath, newId) ∉ db.transactions.keys)
include hnew

theorem entries_setTransaction (t : Transaction) :
    (db.setTransaction (mandatePath, newId) t).transactions.entries =
      db.transactions.entries ++ [((mandatePath, newId), t)] :=
  Dict.entries_set_of_not_mem t hnew

theorem entries_modifyTransaction (t : Transaction) (f : Transaction → Transaction) :
    ((db.setTransaction (mandatePath, newId) t).modifyTransaction (mandatePath, newId) f).transactions.entries =
      db.transactions.entries ++ [((mandatePath, newId), f t)] := by
  have hold : ∀ e ∈ db.transactions.entries, (if e.1 = (mandatePath, newId) then (e.1, f e.2) else e) = e := by
    intro e he
    have hne : e.1 ≠ (mandatePath, newId) := fun h => hnew (h ▸ List.mem_map_of_mem he)
    rw [if_neg hne]
  show ((db.setTransaction (mandatePath, newId) t).transactions.entries.map _) = _
  rw [entries_setTransaction db hnew, List.map_append, List.map_congr_left hold]
  simp

/-- A payment that does not start leaves its transaction, cancelled or not. -/
theorem startPayment_refused (faults : TopUpFaults) (currency : String) (amount : ℚ) (stripe : StripeReply)
    (hres : (startPayment faults (db.setTransaction (mandatePath, newId) (newTransaction currency amount))
      (mandatePath, newId) stripe).2.success = false) :
    let r := (startPayment faults (db.setTransaction (mandatePath, newId) (newTransaction currency amount))
      (mandatePath, newId) stripe).1
    r.wallets = db.wallets ∧ ∃ t, t.amount = amount ∧
      (t.status = .pending ↔ notCancelled faults stripe = true) ∧
      r.transactions.entries = db.transactions.entries ++ [((mandatePath, newId), t)] := by
  have hcancel : ∀ e, let r := (cancelTopUp faults (db.setTransaction (mandatePath, newId)
        (newTransaction currency amount)) (mandatePath, newId) e).1
      r.wallets = db.wallets ∧ ∃ t, t.amount = amount ∧ (t.status = .pending ↔ faults.cancel.isSome = true) ∧
        r.transactions.entries = db.transactions.entries ++ [((mandatePath, newId), t)] := by
    intro e
    unfold cancelTopUp
    cases faults.cancel with
    | some e' => exact ⟨rfl, _, rfl, by simp [newTransaction], entries_setTransaction db hnew _⟩
    | none =>
        refine ⟨rfl, ⟨currency, amount, .error, "", e⟩, rfl, by simp, ?_⟩
        exact entries_modifyTransaction db hnew _ _
  cases stripe with
  | notConfigured => exact ⟨rfl, _, rfl, by simp [newTransaction, notCancelled], entries_setTransaction db hnew _⟩
  | failed e => exact hcancel e
  | session id url =>
      simp only [startPayment, notCancelled] at hres ⊢
      cases hs : faults.session with
      | some e => simpa only [hs, Option.isSome_some, Bool.true_and] using hcancel e
      | none =>
          rw [hs] at hres
          cases hres

end Documents

/-- What a refused call can leave: nothing, or a transaction with the status `leftPending` says. -/
theorem addTopUpWith_refused (faults : TopUpFaults) (db : Db) (mandatePath : String) (request : TopUpRequest)
    (newId : String) (stripe : StripeReply) (hnew : (mandatePath, newId) ∉ db.transactions.keys)
    (hres : (addTopUpWith faults db mandatePath request newId stripe).2.success = false) :
    let r := (addTopUpWith faults db mandatePath request newId stripe).1
    (r = db ∧ leftPending faults mandatePath stripe request = Option.none) ∨
      ∃ t, reachesWallet mandatePath = true ∧ 0 < t.amount ∧ r.wallets = db.wallets ∧
        r.transactions.entries = db.transactions.entries ++ [((mandatePath, newId), t)] ∧
        leftPending faults mandatePath stripe request =
          if t.status = .pending then some t.amount else Option.none := by
  intro r
  cases request with
  | notDict => exact Or.inl ⟨rfl, rfl⟩
  | unreadable e =>
      left
      refine ⟨?_, rfl⟩
      simp only [r, addTopUpWith]
      split <;> rfl
  | data d =>
      obtain ⟨currency, amount⟩ := d
      cases currency with
      | none => exact Or.inl ⟨rfl, rfl⟩
      | some currency =>
      cases amount with
      | none => exact Or.inl ⟨rfl, rfl⟩
      | some amount =>
      by_cases hu : userIdOf mandatePath = ""
      · exact Or.inl ⟨by simp [r, addTopUpWith, hu], by simp [leftPending, hu]⟩
      by_cases ha : amount ≤ 0
      · exact Or.inl ⟨by simp [r, addTopUpWith, hu, ha], by simp [leftPending, not_lt.mpr ha]⟩
      by_cases hp : isDocPath mandatePath = true
      · cases hc : faults.create with
        | some e => exact Or.inl ⟨by simp [r, addTopUpWith, hu, ha, hp, hc], by simp [leftPending, hc]⟩
        | none =>
            have heq : addTopUpWith faults db mandatePath (.data ⟨some currency, some amount⟩) newId stripe =
                startPayment faults (db.setTransaction (mandatePath, newId) (newTransaction currency amount))
                  (mandatePath, newId) stripe := by
              simp [addTopUpWith, hu, ha, hp, hc]
            rw [heq] at hres
            obtain ⟨hw, t, rfl, hstatus, hentries⟩ := startPayment_refused db hnew faults currency amount stripe hres
            refine Or.inr ⟨t, by simp [reachesWallet, hu, hp], not_le.mp ha, ?_, ?_, ?_⟩
            · rw [show r = _ from congrArg Prod.fst heq]
              exact hw
            · rw [show r = _ from congrArg Prod.fst heq]
              exact hentries
            · simp only [leftPending, hstatus]
              simp [hu, not_le.mp ha, hp, hc]
      · exact Or.inl ⟨by simp [r, addTopUpWith, hu, ha, hp], by simp [leftPending, hp]⟩

/-! ### Recomputations after a refused call -/

/-- The second state has one more transaction, which no recomputation credits: it is not `pending`, or the sum of the
`pending` transactions of its mandate is not positive. -/
structure SameBut (ref : String × String) (db db' : Db) : Prop where
  topping : ∀ u, (db'.wallets u).currentTopping = (db.wallets u).currentTopping
  document : ∃ t, db'.transactions.entries = db.transactions.entries ++ [(ref, t)] ∧
    (t.status = .pending → 0 < t.amount ∧ toppingOf (pendingTransactions db ref.1) + t.amount ≤ 0)

theorem pendingTransactions_append {ref : String × String} {db db' : Db} {t : Transaction}
    (h : db'.transactions.entries = db.transactions.entries ++ [(ref, t)]) (mandatePath : String) :
    pendingTransactions db' mandatePath = pendingTransactions db mandatePath ++
      if ref.1 = mandatePath ∧ t.status = .pending then [(ref, t)] else [] := by
  rw [pendingTransactions, h, List.filter_append]
  congr 1
  by_cases hc : ref.1 = mandatePath ∧ t.status = .pending <;> simp [hc]

theorem toppingOf_append (xs ys : List ((String × String) × Transaction)) :
    toppingOf (xs ++ ys) = toppingOf xs + toppingOf ys := by
  simp [toppingOf]

/-- What a recomputation adds to `current_topping`. -/
def credit (db : Db) (mandatePath : String) : ℚ :=
  if 0 < toppingOf (pendingTransactions db mandatePath) then toppingOf (pendingTransactions db mandatePath) else 0

theorem balance_topping (db : Db) {mandatePath : String} (h : reachesWallet mandatePath = true) (u : String) :
    ((balance db mandatePath).wallets u).currentTopping =
      (db.wallets u).currentTopping + if u = userIdOf mandatePath then credit db mandatePath else 0 := by
  have hr := getUserBalance_recomputed db mandatePath "" h
  by_cases hu : u = userIdOf mandatePath
  · subst hu
    rw [if_pos rfl]
    exact hr.topping
  · rw [if_neg hu, add_zero, balance, hr.others u hu]

theorem balance_entries (db : Db) {mandatePath : String} (h : reachesWallet mandatePath = true) :
    (balance db mandatePath).transactions.entries = db.transactions.entries.map fun e =>
      if e.1 ∈ (pendingTransactions db mandatePath).map Prod.fst then (e.1, asAdded e.2) else e := by
  have htx : (balance db mandatePath).transactions =
      db.transactions.modifyAll ((pendingTransactions db mandatePath).map Prod.fst) asAdded :=
    (getUserBalance_recomputed db mandatePath "" h).transactions
  rw [htx, Dict.entries_modifyAll _ _ _ asAdded_asAdded]
  refine List.map_congr_left fun e _ => ?_
  by_cases hk : e.1 ∈ (pendingTransactions db mandatePath).map Prod.fst
  · rw [if_pos hk, if_pos hk]
  · rw [if_neg hk, if_neg hk]

/-- The transactions of the other mandates are not touched. -/
theorem pendingTransactions_balance (db : Db) {mandatePath other : String} (h : reachesWallet mandatePath = true)
    (hne : other ≠ mandatePath) :
    pendingTransactions (balance db mandatePath) other = pendingTransactions db other := by
  have hkey : ∀ k ∈ (pendingTransactions db mandatePath).map Prod.fst, k.1 = mandatePath := by
    intro k hk
    obtain ⟨e, he, rfl⟩ := List.mem_map.mp hk
    have hcond := (List.mem_filter.mp he).2
    simp only [decide_eq_true_eq] at hcond
    exact hcond.1
  show (balance db mandatePath).transactions.entries.filter _ = db.transactions.entries.filter _
  rw [balance_entries db h]
  generalize (pendingTransactions db mandatePath).map Prod.fst = refs at hkey ⊢
  induction db.transactions.entries with
  | nil => rfl
  | cons e es ih =>
      rw [List.map_cons, List.filter_cons, List.filter_cons, ih]
      by_cases hk : e.1 ∈ refs
      · have hoff : ¬e.1.1 = other := fun h => hne (h.symm.trans (hkey _ hk))
        simp [hk, hoff]
      · simp [hk]

/-- **One recomputation** keeps the two states together. -/
theorem sameBut_balance {ref : String × String} {db db' : Db} (h : SameBut ref db db') (mandatePath : String) :
    SameBut ref (balance db mandatePath) (balance db' mandatePath) := by
  by_cases hreach : reachesWallet mandatePath = true
  · obtain ⟨htop, t, hentries, hpend⟩ := h
    have hpending := pendingTransactions_append hentries mandatePath
    -- the additional document has a key of its own
    have href : ref ∉ db.transactions.entries.map Prod.fst := by
      have hnodup := db'.transactions.nodup
      rw [hentries, List.map_append, List.nodup_append'] at hnodup
      exact fun hmem => hnodup.2.2 hmem (by simp)
    have hold : ∀ e ∈ db.transactions.entries, e.1 ≠ ref := fun e he hk => href (hk ▸ List.mem_map_of_mem he)
    have hrefp : ref ∉ (pendingTransactions db mandatePath).map Prod.fst :=
      fun hmem => href (List.filter_sublist.map Prod.fst |>.subset hmem)
    by_cases hown : ref.1 = mandatePath ∧ t.status = .pending
    · obtain ⟨hmand, hstatus⟩ := hown
      obtain ⟨hpos, hsum⟩ := hpend hstatus
      rw [if_pos ⟨hmand, hstatus⟩] at hpending
      rw [hmand] at hsum
      have hzero : toppingOf (pendingTransactions db' mandatePath) =
          toppingOf (pendingTransactions db mandatePath) + t.amount := by
        rw [hpending, toppingOf_append]
        simp [toppingOf]
      refine ⟨fun u => ?_, asAdded t, ?_, fun hadded => by cases hadded⟩
      · have hcredit' : credit db' mandatePath = 0 := by
          rw [credit, hzero, if_neg (not_lt.mpr hsum)]
        have hcredit : credit db mandatePath = 0 := by
          have hneg : ¬0 < toppingOf (pendingTransactions db mandatePath) := by linarith
          rw [credit, if_neg hneg]
        rw [balance_topping db hreach, balance_topping db' hreach, htop, hcredit, hcredit']
      · rw [balance_entries db hreach, balance_entries db' hreach, hentries, List.map_append, hpending]
        congr 1
        · refine List.map_congr_left fun e he => ?_
          have hk : e.1 ∈ (pendingTransactions db mandatePath ++ [(ref, t)]).map Prod.fst ↔
              e.1 ∈ (pendingTransactions db mandatePath).map Prod.fst := by
            rw [List.map_append, List.mem_append]
            simp [hold e he]
          simp only [hk]
        · have hk : ref ∈ (pendingTransactions db mandatePath ++ [(ref, t)]).map Prod.fst := by simp
          rw [List.map_singleton, if_pos hk]
    · rw [if_neg hown, List.append_nil] at hpending
      refine ⟨fun u => ?_, t, ?_, fun hstatus => ?_⟩
      · rw [balance_topping db hreach, balance_topping db' hreach, htop, credit, credit, hpending]
      · rw [balance_entries db hreach, balance_entries db' hreach, hentries, List.map_append, hpending]
        congr 1
        simp only [List.map_cons, List.map_nil, if_neg hrefp]
      · have hne : ref.1 ≠ mandatePath := fun hk => hown ⟨hk, hstatus⟩
        rw [pendingTransactions_balance db hreach hne]
        exact hpend hstatus
  · have hidle : reachesWallet mandatePath = false := by simpa using hreach
    rw [balance, balance, getUserBalance_idle _ _ _ hidle, getUserBalance_idle _ _ _ hidle]
    exact h

theorem sameBut_run {ref : String × String} {db db' : Db} (h : SameBut ref db db') (mandatePaths : List String) :
    SameBut ref (run balance db mandatePaths) (run balance db' mandatePaths) := by
  induction mandatePaths using List.reverseRecOn with
  | nil => exact h
  | append_singleton ms m ih =>
      rw [run_concat, run_concat]
      exact sameBut_balance ih m

/-- **A refused top-up is never credited**: whatever recomputations follow, the wallets show the same top-ups as without
the call, exactly when the call does not leave a `pending` transaction behind that makes the sum of the `pending`
transactions of its mandate positive. -/
theorem refused_never_credited_iff (faults : TopUpFaults) (db : Db) (mandatePath : String) (request : TopUpRequest)
    (newId : String) (stripe : StripeReply) (hnew : (mandatePath, newId) ∉ db.transactions.keys)
    (hres : (addTopUpWith faults db mandatePath request newId stripe).2.success = false) :
    (∀ (mandatePaths : List String) (u : String),
        ((run balance (addTopUpWith faults db mandatePath request newId stripe).1 mandatePaths).wallets
          u).currentTopping = ((run balance db mandatePaths).wallets u).currentTopping) ↔
      ∀ amount, leftPending faults mandatePath stripe request = some amount →
        toppingOf (pendingTransactions db mandatePath) + amount ≤ 0 := by
  rcases addTopUpWith_refused faults db mandatePath request newId stripe hnew hres with
    ⟨hsame, hleft⟩ | ⟨t, hreach, hpos, hwallets, hentries, hleft⟩
  · rw [hsame, hleft]
    simp
  · rw [hleft]
    constructor
    · -- one recomputation for the mandate tells
      intro hall amount hamount
      have hstatus : t.status = .pending := by
        by_contra hne
        rw [if_neg hne] at hamount
        cases hamount
      rw [if_pos hstatus] at hamount
      cases hamount
      by_contra hsum
      rw [not_le] at hsum
      have hone := hall [mandatePath] (userIdOf mandatePath)
      simp only [run, List.foldl_cons, List.foldl_nil] at hone
      rw [balance_topping _ hreach, balance_topping _ hreach, hwallets, if_pos rfl, if_pos rfl] at hone
      have hlast : toppingOf (pendingTransactions (addTopUpWith faults db mandatePath request newId stripe).1
          mandatePath) = toppingOf (pendingTransactions db mandatePath) + t.amount := by
        rw [pendingTransactions_append hentries, if_pos ⟨rfl, hstatus⟩, toppingOf_append]
        simp [toppingOf]
      rw [credit, credit, hlast, if_pos hsum] at hone
      split at hone <;> linarith
    · intro hsum mandatePaths u
      refine (sameBut_run ⟨fun u => by rw [hwallets], t, hentries, fun hstatus => ⟨hpos, ?_⟩⟩ mandatePaths).topping u
      exact hsum t.amount (if_pos hstatus)

/-- A request for ten euros. -/
def tenEuros : TopUpRequest := .data ⟨some "EUR", some 10⟩

/-- The provider refuses and the transaction is cancelled. -/
theorem refused_never_credited_cancelled :
    (addTopUpWith .none emptyDb "clients/u/mandates/m" tenEuros "t" (.failed "card declined")).2.success = false ∧
      ∀ (mandatePaths : List String) (u : String),
        ((run balance (addTopUpWith .none emptyDb "clients/u/mandates/m" tenEuros "t"
          (.failed "card declined")).1 mandatePaths).wallets u).currentTopping =
            ((run balance emptyDb mandatePaths).wallets u).currentTopping := by
  have hres : (addTopUpWith .none emptyDb "clients/u/mandates/m" tenEuros "t"
      (.failed "card declined")).2.success = false := by decide +kernel
  refine ⟨hres, (refused_never_credited_iff .none emptyDb "clients/u/mandates/m" tenEuros "t"
    (.failed "card declined") (by decide) hres).mpr ?_⟩
  have hleft : leftPending .none "clients/u/mandates/m" (.failed "card declined") tenEuros = Option.none := by
    decide +kernel
  simp [hleft]

/-- Without a configured provider the refused top-up is credited by the next recomputation. -/
theorem refused_credited :
    ¬∀ (faults : TopUpFaults) (db : Db) (mandatePath : String) (request : TopUpRequest) (newId : String)
        (stripe : StripeReply), (mandatePath, newId) ∉ db.transactions.keys →
      (addTopUpWith faults db mandatePath request newId stripe).2.success = false →
      ∀ (mandatePaths : List String) (u : String),
        ((run balance (addTopUpWith faults db mandatePath request newId stripe).1 mandatePaths).wallets
          u).currentTopping = ((run balance db mandatePaths).wallets u).currentTopping := by
  intro h
  have hone := h .none emptyDb "clients/u/mandates/m" tenEuros "t" .notConfigured (by decide) (by decide +kernel)
    ["clients/u/mandates/m"] "u"
  revert hone
  decide +kernel

end Pinnokio.Billing
