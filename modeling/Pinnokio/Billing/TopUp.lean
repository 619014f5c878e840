import Pinnokio.Lib.Runs
import Pinnokio.Billing.Wallet

/-!
# Top-ups: creation, payment and credit

A top-up starts as a transaction document with status `pending` and a checkout session of the payment provider.
The provider reports a payment with a `checkout.session.completed` event, one or more times.  The event handler
credits the amount whatever the status of the transaction is, unless the event names its payment intent by an id or
not at all; the recomputation of the balance credits every transaction that is still `pending`, paid or not.

* `addTopUp`, `processStripeWebhook` — the two operations;
* `ledger_step` — one operation keeps `current_topping` equal to what has been paid exactly when it credits a payment
  with its first event, and nothing a second time or before;
* `credited_iff_guarded` — so it is along every sequence of operations.
-/

namespace Pinnokio.Billing

open Pinnokio.Runs

/-! ### Creation of a top-up -/

/-- `top_up_data`. -/
structure TopUpData where
  currency : Option String
  amount : Option ℚ

/-- What the payment provider does with the request for a checkout session. -/
inductive StripeReply where
  | notConfigured
  | failed (error : String)
  | session (id url : String)

/-- The metadata of a checkout session. -/
structure Metadata where
  userId : String
  mandatePath : String
  transactionId : String
  transactionPath : String × String
  paymentType : String
  deriving DecidableEq

/-- The answer of `add_top_up`. -/
inductive TopUpResult where
  | refused (error : String)
  | badPath
  | started (checkoutUrl transactionId : String)

/-- The metadata `add_top_up` gives to the session of a new transaction. -/
def topUpMetadata (mandatePath newId : String) : Metadata :=
  ⟨userIdOf mandatePath, mandatePath, newId, (mandatePath, newId), "top_up"⟩

/-- The transaction document of a new top-up. -/
def newTransaction (currency : String) (amount : ℚ) : Transaction :=
  ⟨currency, amount, .pending, "", ""⟩

/-- `add_top_up`; `newId` is the id the store gives to the new document, and `badPath` is the error of the client
on a path that cannot hold one.  Without a configured provider the code calls a method that does not exist, and
the transaction stays behind. -/
def addTopUp (db : Db) (mandatePath : String) (data : TopUpData) (newId : String)
    (stripe : StripeReply) : Db × TopUpResult :=
  match data.currency, data.amount with
  | some currency, some amount =>
      if userIdOf mandatePath = "" then
        (db, .refused "Could not extract user_id from mandate_path")
      else if amount ≤ 0 then (db, .refused "Amount must be greater than 0")
      else if ¬isDocPath mandatePath then (db, .badPath)
      else
        let created := db.setTransaction (mandatePath, newId) (newTransaction currency amount)
        match stripe with
        | .notConfigured => (created,
            .refused "'FirebaseManagement' object has no attribute '_process_immediate_top_up'")
        | .failed e =>
            (created.modifyTransaction (mandatePath, newId) fun t =>
              { t with status := .error, errorMessage := e }, .refused ("Stripe error: " ++ e))
        | .session id url =>
            (created.modifyTransaction (mandatePath, newId) fun t => { t with stripeSessionId := id },
              .started url newId)
  | _, _ => (db, .refused "Missing required fields: currency and amount")

/-! ### Payment notification -/

/-- `payment_intent` of a session: left out, an object with its status, or of another type that has no `get`, such as
the id of the intent or null. -/
inductive PaymentIntent where
  | missing
  | expanded
  | other (typeName : String)
  deriving DecidableEq

/-- The error of `session.get('payment_intent', {}).get('status', 'succeeded')`. -/
def PaymentIntent.error? : PaymentIntent → Option String
  | .missing | .expanded => none
  | .other typeName => some ("'" ++ typeName ++ "' object has no attribute 'get'")

/-- A Stripe event, with the metadata and the payment intent of its session. -/
structure StripeEvent where
  type : String
  metadata : Metadata
  paymentIntent : PaymentIntent

/-- The answer of `process_stripe_webhook`. -/
inductive WebhookResult where
  | ignored (eventType : String)
  | failed (error : String)
  | credited (transactionId : String) (amount : ℚ)

/-- The credit of a paid transaction. -/
def creditTopUp (amount : ℚ) (w : Wallet) : Wallet :=
  { w with
    currentTopping := w.currentTopping + amount
    currentBalance := w.currentBalance + amount }

/-- `process_stripe_webhook`, without another call at the same time.  The payment intent is read before the transaction
is updated. -/
def processStripeWebhook (db : Db) (event : StripeEvent) : Db × WebhookResult :=
  let m := event.metadata
  if event.type ≠ "checkout.session.completed" ∨ m.paymentType ≠ "top_up" then
    (db, .ignored event.type)
  else if m.userId = "" ∨ m.mandatePath = "" ∨ m.transactionId = "" then
    (db, .failed "Missing required metadata")
  else
    match db.transactions.get? m.transactionPath with
    | none => (db, .failed "Transaction not found")
    | some t =>
        match event.paymentIntent.error? with
        | some error => (db, .failed error)
        | none =>
            let db := db.modifyTransaction m.transactionPath fun t => { t with status := .added }
            (db.setWallet m.userId (creditTopUp t.amount), .credited m.transactionId t.amount)

/-! ### Sequences of operations -/

/-- An operation on the wallet of a user.  An event is the notification of a payment. -/
inductive Op where
  | topUp (mandatePath : String) (data : TopUpData) (newId : String) (stripe : StripeReply)
  | event (metadata : Metadata) (paymentIntent : PaymentIntent)
  | balance (mandatePath : String)

/-- One operation. -/
def applyOp (db : Db) : Op → Db
  | .topUp mandatePath data newId stripe => (addTopUp db mandatePath data newId stripe).1
  | .event metadata paymentIntent =>
      (processStripeWebhook db ⟨"checkout.session.completed", metadata, paymentIntent⟩).1
  | .balance mandatePath => (getUserBalance db mandatePath "").1

/-- The checkout session an operation creates, with its amount. -/
def Op.session? : Op → Option (Metadata × ℚ)
  | .topUp mandatePath data newId (.session _ _) =>
      match data.currency, data.amount with
      | some _, some amount =>
          if userIdOf mandatePath ≠ "" ∧ 0 < amount ∧ isDocPath mandatePath then
            some (topUpMetadata mandatePath newId, amount)
          else none
      | _, _ => none
  | _ => none

/-- The checkout sessions of a sequence of operations. -/
def sessions (ops : List Op) : List (Metadata × ℚ) := ops.filterMap Op.session?

/-- The metadata of the payment events delivered. -/
def delivered (ops : List Op) : List Metadata :=
  ops.filterMap fun op =>
    match op with
    | .event m _ => some m
    | _ => none

/-- The sum of the amounts of the top-ups whose payment event has been delivered at least once. -/
def paid (ops : List Op) : ℚ :=
  ((sessions ops).map fun s => if s.1 ∈ delivered ops then s.2 else 0).sum

/-- The document a top-up creates. -/
def Op.newDoc? : Op → Option (String × String)
  | .topUp mandatePath _ newId _ => some (mandatePath, newId)
  | _ => none

/-- The path is the one of a mandate of the user. -/
def IsMandateOf (userId mandatePath : String) : Prop :=
  userIdOf mandatePath = userId ∧ isDocPath mandatePath = true

/-- The operation is about a mandate of the user, with the payment provider configured. -/
def Op.isOf (userId : String) : Op → Prop
  | .topUp mandatePath _ newId stripe =>
      IsMandateOf userId mandatePath ∧ newId ≠ "" ∧ stripe ≠ .notConfigured
  | .event _ _ => True
  | .balance mandatePath => IsMandateOf userId mandatePath

/-- Operations on the mandates of one user: new documents get new ids, and a payment event belongs to a session
that has been created before. -/
structure Genuine (userId : String) (ops : List Op) : Prop where
  user : userId ≠ ""
  isOf : ∀ op ∈ ops, op.isOf userId
  fresh : (ops.filterMap Op.newDoc?).Nodup
  paidFor : ∀ pre m i, pre ++ [.event m i] <+: ops → m ∈ (sessions pre).map Prod.fst

/-- The operation credits a payment with its first event, and nothing a second time or before: the payment intent of an
event can be read exactly if its transaction is not yet `added`, a recomputation finds no `pending` transaction. -/
def creditsOnce (db : Db) : Op → Prop
  | .topUp _ _ _ _ => True
  | .event m i => ∀ t ∈ db.transactions.get? m.transactionPath, i.error? = none ↔ t.status ≠ .added
  | .balance mandatePath => pendingTransactions db mandatePath = []

instance : ∀ (db : Db) (op : Op), Decidable (creditsOnce db op)
  | _, .topUp _ _ _ _ => isTrue trivial
  | db, .event m i => inferInstanceAs
      (Decidable (∀ t ∈ db.transactions.get? m.transactionPath, i.error? = none ↔ t.status ≠ .added))
  | db, .balance mandatePath => inferInstanceAs (Decidable (pendingTransactions db mandatePath = []))

/-! ### One operation -/

/-- What the creation of a top-up does: nothing, or a new transaction document, which waits for its payment if
there is a checkout session. -/
theorem addTopUp_cases (db : Db) (mandatePath : String) (data : TopUpData) (newId : String)
    (stripe : StripeReply) (hs : stripe ≠ .notConfigured) :
    let op := Op.topUp mandatePath data newId stripe
    (applyOp db op = db ∧ op.session? = none) ∨
      ∃ t, 0 < t.amount ∧ (applyOp db op).wallets = db.wallets ∧
        (∀ k, (applyOp db op).transactions.get? k =
          if k = (mandatePath, newId) then some t else db.transactions.get? k) ∧
        (op.session? = none ∨ (op.session? = some (topUpMetadata mandatePath newId, t.amount) ∧
          t.status = .pending ∧ mandatePath ≠ "")) := by
  have hnew : ∀ (t : Transaction) (f : Transaction → Transaction) (k : String × String),
      ((db.setTransaction (mandatePath, newId) t).modifyTransaction (mandatePath, newId)
        f).transactions.get? k =
        if k = (mandatePath, newId) then some (f t) else db.transactions.get? k := by
    intro t f k
    simp only [Db.setTransaction, Db.modifyTransaction, Dict.get?_modify, Dict.get?_set]
    by_cases hk : k = (mandatePath, newId) <;> simp [hk]
  intro op
  obtain ⟨currency, amount⟩ := data
  rcases currency with _ | currency
  · left
    refine ⟨rfl, ?_⟩
    cases stripe <;> rfl
  rcases amount with _ | amount
  · left
    refine ⟨rfl, ?_⟩
    cases stripe <;> rfl
  by_cases hu : userIdOf mandatePath = ""
  · left
    refine ⟨by simp [op, applyOp, addTopUp, hu], ?_⟩
    cases stripe <;> simp [op, Op.session?, hu]
  by_cases ha : amount ≤ 0
  · left
    refine ⟨by simp [op, applyOp, addTopUp, hu, ha], ?_⟩
    cases stripe <;> simp [op, Op.session?, not_lt.mpr ha]
  by_cases hp : isDocPath mandatePath = true
  · right
    cases stripe with
    | notConfigured => exact absurd rfl hs
    | failed e =>
        refine ⟨⟨currency, amount, .error, "", e⟩, not_le.mp ha, ?_, fun k => ?_, Or.inl rfl⟩
        · simp [op, applyOp, addTopUp, hu, ha, hp, Db.modifyTransaction, Db.setTransaction]
        · simp only [op, applyOp, addTopUp, hu, ha, hp, not_true_eq_false, if_false, hnew]
          rfl
    | session id url =>
        refine ⟨⟨currency, amount, .pending, id, ""⟩, not_le.mp ha, ?_, fun k => ?_, Or.inr ⟨?_, rfl, ?_⟩⟩
        · simp [op, applyOp, addTopUp, hu, ha, hp, Db.modifyTransaction, Db.setTransaction]
        · simp only [op, applyOp, addTopUp, hu, ha, hp, not_true_eq_false, if_false, hnew]
          rfl
        · simp [op, Op.session?, hu, not_le.mp ha, hp]
        · rintro rfl
          exact hu rfl
  · left
    refine ⟨by simp [op, applyOp, addTopUp, hu, ha, hp], ?_⟩
    cases stripe <;> simp [op, Op.session?, hp]

theorem sessions_append (ops : List Op) (op : Op) :
    sessions (ops ++ [op]) = sessions ops ++ op.session?.toList := by
  rw [sessions, List.filterMap_append]
  cases h : op.session? <;> simp [sessions, h]

theorem newDocs_append (ops : List Op) (op : Op) :
    (ops ++ [op]).filterMap Op.newDoc? = ops.filterMap Op.newDoc? ++ op.newDoc?.toList := by
  rw [List.filterMap_append]
  cases h : op.newDoc? <;> simp [h]

/-- A session belongs to the document its operation creates. -/
theorem session?_newDoc {op : Op} {s : Metadata × ℚ} (h : op.session? = some s) :
    op.newDoc? = some s.1.transactionPath := by
  unfold Op.session? at h
  split at h
  · split at h
    · split at h
      · cases h
        rfl
      · cases h
    · cases h
  · cases h

theorem sessions_sublist (ops : List Op) :
    ((sessions ops).map fun s => s.1.transactionPath).Sublist (ops.filterMap Op.newDoc?) := by
  induction ops using List.reverseRecOn with
  | nil => exact List.Sublist.slnil
  | append_singleton ops op ih =>
      rw [sessions_append, newDocs_append, List.map_append]
      refine ih.append ?_
      cases h : op.session? with
      | none => exact List.nil_sublist _
      | some s => rw [session?_newDoc h]; exact List.Sublist.refl _

/-- A first delivery adds its amount to the sum of the paid top-ups. -/
theorem sum_indicator_append {l : List (Metadata × ℚ)} (hn : (l.map Prod.fst).Nodup) {e : Metadata}
    {a : ℚ} (he : (e, a) ∈ l) (D : List Metadata) :
    (l.map fun s => if s.1 ∈ D ++ [e] then s.2 else 0).sum =
      (l.map fun s => if s.1 ∈ D then s.2 else 0).sum + if e ∈ D then 0 else a := by
  induction l with
  | nil => cases he
  | cons s l ih =>
      rw [List.map_cons, List.nodup_cons] at hn
      rw [List.map_cons, List.map_cons, List.sum_cons, List.sum_cons]
      rcases List.mem_cons.mp he with rfl | he
      · have hrest : (l.map fun s => if s.1 ∈ D ++ [e] then s.2 else 0)
            = l.map fun s => if s.1 ∈ D then s.2 else 0 := by
          refine List.map_congr_left fun s hs => ?_
          have hne : s.1 ≠ e := fun h => hn.1 (List.mem_map.mpr ⟨s, hs, h⟩)
          simp [hne]
        rw [hrest]
        by_cases hD : e ∈ D <;> simp [hD, add_comm]
      · have hne : s.1 ≠ e := fun h => hn.1 (List.mem_map.mpr ⟨(e, a), he, h.symm⟩)
        rw [ih hn.2 he]
        simp [hne, add_assoc]

/-- The documents after operations that have credited every payment once and nothing else. -/
structure Ledger (userId : String) (ops : List Op) (db : Db) : Prop where
  session : ∀ s ∈ sessions ops, s.1.userId = userId ∧ s.1.mandatePath ≠ "" ∧ s.1.transactionId ≠ "" ∧
    s.1.paymentType = "top_up" ∧ ∃ t, db.transactions.get? s.1.transactionPath = some t ∧
      t.amount = s.2 ∧ (t.status = .added ↔ s.1 ∈ delivered ops)
  amount : ∀ k t, db.transactions.get? k = some t → 0 < t.amount
  docs : ∀ k ∈ db.transactions.keys, k ∈ ops.filterMap Op.newDoc?
  known : ∀ e ∈ delivered ops, e ∈ (sessions ops).map Prod.fst
  topping : (db.wallets userId).currentTopping = paid ops

section Step

variable {userId : String} {ops : List Op} {db : Db}

theorem Genuine.of_append {ops' : List Op} (h : Genuine userId (ops ++ ops')) : Genuine userId ops where
  user := h.user
  isOf := fun op hop => h.isOf op (List.mem_append_left _ hop)
  fresh := by
    have := h.fresh
    rw [List.filterMap_append] at this
    exact this.of_append_left
  paidFor := fun pre m i hpre => h.paidFor pre m i (hpre.trans (List.prefix_append _ _))

theorem Genuine.sessions_nodup (h : Genuine userId ops) : ((sessions ops).map Prod.fst).Nodup := by
  have hpaths := h.fresh.sublist (sessions_sublist ops)
  exact (List.Nodup.of_map (f := Metadata.transactionPath) (by rwa [List.map_map]))

/-- Only an event is a delivery. -/
theorem delivered_append_of_not_event {op : Op} (hop : ∀ m i, op ≠ .event m i) :
    delivered (ops ++ [op]) = delivered ops := by
  rw [delivered, List.filterMap_append]
  cases op with
  | event m i => exact absurd rfl (hop m i)
  | topUp _ _ _ _ => simp [delivered]
  | balance _ => simp [delivered]

/-- The sum of the paid top-ups does not change with the creation of a session. -/
theorem paid_append_topUp {op : Op} (hop : ∀ m i, op ≠ .event m i)
    (hnew : ∀ s, op.session? = some s → s.1 ∉ delivered ops) : paid (ops ++ [op]) = paid ops := by
  rw [paid, paid, delivered_append_of_not_event hop, sessions_append, List.map_append, List.sum_append]
  cases hs : op.session? with
  | none => simp
  | some s => simp [hnew s hs]

section NewTopUp

variable {mandatePath newId : String} {data : TopUpData} {stripe : StripeReply}

/-- No session so far is for a new top-up. -/
theorem Genuine.transactionPath_ne (hg : Genuine userId (ops ++ [.topUp mandatePath data newId stripe])) :
    ∀ s ∈ sessions ops, s.1.transactionPath ≠ (mandatePath, newId) := by
  intro s hs he
  have hn := hg.fresh
  rw [newDocs_append, List.nodup_append] at hn
  have hold : (mandatePath, newId) ∈ ops.filterMap Op.newDoc? :=
    he ▸ (sessions_sublist ops).subset (List.mem_map_of_mem hs)
  exact hn.2.2 _ hold _ (List.mem_singleton_self _) rfl

/-- Nor is a payment. -/
theorem Ledger.not_delivered (hl : Ledger userId ops db)
    (hg : Genuine userId (ops ++ [.topUp mandatePath data newId stripe])) :
    topUpMetadata mandatePath newId ∉ delivered ops := by
  intro hm
  obtain ⟨s, hs, he⟩ := List.mem_map.mp (hl.known _ hm)
  exact hg.transactionPath_ne s hs (by rw [he]; rfl)

/-- So nothing more is paid. -/
theorem Ledger.paid_topUp (hl : Ledger userId ops db)
    (hg : Genuine userId (ops ++ [.topUp mandatePath data newId stripe])) :
    paid (ops ++ [.topUp mandatePath data newId stripe]) = paid ops := by
  have hof := hg.isOf _ (List.mem_append_right _ (List.mem_singleton_self _))
  refine paid_append_topUp (by simp) fun s hs => ?_
  rcases addTopUp_cases db mandatePath data newId stripe hof.2.2 with ⟨-, h⟩ | ⟨t, -, -, -, h | ⟨h, -⟩⟩
  · rw [h] at hs
    cases hs
  · rw [h] at hs
    cases hs
  · rw [h] at hs
    cases hs
    exact hl.not_delivered hg

end NewTopUp

/-- The creation of a top-up keeps the ledger. -/
theorem ledger_topUp (hl : Ledger userId ops db) (mandatePath : String) (data : TopUpData)
    (newId : String) (stripe : StripeReply)
    (hg : Genuine userId (ops ++ [.topUp mandatePath data newId stripe])) :
    Ledger userId (ops ++ [.topUp mandatePath data newId stripe])
      (applyOp db (.topUp mandatePath data newId stripe)) := by
  have hof := hg.isOf _ (List.mem_append_right _ (List.mem_singleton_self _))
  have hd : delivered (ops ++ [.topUp mandatePath data newId stripe]) = delivered ops :=
    delivered_append_of_not_event (by simp)
  have hdocs : (ops ++ [Op.topUp mandatePath data newId stripe]).filterMap Op.newDoc?
      = ops.filterMap Op.newDoc? ++ [(mandatePath, newId)] := newDocs_append _ _
  have hsub : ∀ x, x ∈ (sessions ops).map Prod.fst →
      x ∈ (sessions (ops ++ [.topUp mandatePath data newId stripe])).map Prod.fst := by
    intro x hx
    rw [sessions_append, List.map_append]
    exact List.mem_append_left _ hx
  rcases addTopUp_cases db mandatePath data newId stripe hof.2.2 with
    ⟨hdb, hs⟩ | ⟨t, hpos, hw, hget, hs⟩
  · rw [hdb]
    refine ⟨?_, hl.amount, fun k hk => ?_, fun e he => hsub e (hl.known e (hd ▸ he)), ?_⟩
    · rw [sessions_append, hs, hd]
      simpa using hl.session
    · rw [hdocs]
      exact List.mem_append_left _ (hl.docs k hk)
    · rw [hl.paid_topUp hg]
      exact hl.topping
  · refine ⟨?_, fun k t' hk => ?_, fun k hk => ?_, fun e he => hsub e (hl.known e (hd ▸ he)), ?_⟩
    · intro s hmem
      rw [sessions_append, List.mem_append] at hmem
      rw [hd]
      rcases hmem with hmem | hmem
      · obtain ⟨h1, h2, h3, h4, t', ht', h5⟩ := hl.session s hmem
        refine ⟨h1, h2, h3, h4, t', ?_, h5⟩
        rw [hget, if_neg (hg.transactionPath_ne s hmem)]
        exact ht'
      · rcases hs with hs | ⟨hs, hst, hu⟩
        · rw [hs] at hmem
          cases hmem
        · rw [hs, Option.toList_some, List.mem_singleton] at hmem
          subst hmem
          refine ⟨hof.1.1, hu, hof.2.1, rfl, t, ?_, rfl, ?_⟩
          · rw [hget]
            exact if_pos rfl
          · rw [hst]
            exact ⟨(by simp), fun h => absurd h (hl.not_delivered hg)⟩
    · rw [hget] at hk
      split at hk
      · cases hk
        exact hpos
      · exact hl.amount k t' hk
    · rw [hdocs, List.mem_append, List.mem_singleton]
      rw [Dict.mem_keys_iff] at hk
      obtain ⟨t', hk⟩ := hk
      rw [hget] at hk
      split at hk
      · rename_i he
        exact Or.inr he
      · exact Or.inl (hl.docs k (Dict.mem_keys_of_get? hk))
    · rw [hw, hl.paid_topUp hg]
      exact hl.topping

/-- A payment event adds the amount of its transaction to the wallet, whatever the transaction's status, or nothing if
its payment intent cannot be read. -/
theorem applyOp_event (hl : Ledger userId ops db) (huser : userId ≠ "") {e : Metadata}
    (he : e ∈ (sessions ops).map Prod.fst) (i : PaymentIntent) : ∃ t, (e, t.amount) ∈ sessions ops ∧
      db.transactions.get? e.transactionPath = some t ∧ (t.status = .added ↔ e ∈ delivered ops) ∧
      (i.error? ≠ none → applyOp db (.event e i) = db) ∧
      (i.error? = none →
        ((applyOp db (.event e i)).wallets userId).currentTopping =
          (db.wallets userId).currentTopping + t.amount ∧
        (applyOp db (.event e i)).transactions =
          db.transactions.modify e.transactionPath fun t => { t with status := .added }) := by
  obtain ⟨⟨e', a⟩, hs, rfl⟩ := List.mem_map.mp he
  obtain ⟨hu, hm, hid, hty, t, ht, ha, hst⟩ := hl.session _ hs
  dsimp only at hu hm hid hty ht ha hst
  refine ⟨t, ha ▸ hs, ht, hst, fun hi => ?_, fun hi => ?_⟩
  · obtain ⟨error, herror⟩ := Option.ne_none_iff_exists'.mp hi
    simp [applyOp, processStripeWebhook, hty, hu, huser, hm, hid, ht, herror]
  · have hrun : applyOp db (.event e' i) =
        (db.modifyTransaction e'.transactionPath fun t => { t with status := .added }).setWallet e'.userId
          (creditTopUp t.amount) := by
      simp [applyOp, processStripeWebhook, hty, hu, huser, hm, hid, ht, hi]
    constructor
    · rw [hrun, hu]
      simp [creditTopUp, Db.modifyTransaction]
    · rw [hrun]
      rfl

section Event

variable {e : Metadata} {i : PaymentIntent}

theorem sessions_append_event : sessions (ops ++ [.event e i]) = sessions ops := by
  rw [sessions_append]
  exact List.append_nil _

theorem delivered_append_event : delivered (ops ++ [.event e i]) = delivered ops ++ [e] := by
  simp [delivered, List.filterMap_append]

/-- The first event of a top-up pays for it. -/
theorem paid_append_event (hg : Genuine userId (ops ++ [.event e i])) {amount : ℚ} (he : (e, amount) ∈ sessions ops) :
    paid (ops ++ [.event e i]) = paid ops + if e ∈ delivered ops then 0 else amount := by
  rw [paid, sessions_append_event, delivered_append_event,
    sum_indicator_append hg.of_append.sessions_nodup he]
  rfl

/-- An event that comes again and credits nothing keeps the ledger. -/
theorem ledger_unread (hl : Ledger userId ops db) (hg : Genuine userId (ops ++ [.event e i]))
    (hin : e ∈ delivered ops) : Ledger userId (ops ++ [.event e i]) db := by
  have hmem : ∀ x, x ∈ delivered ops ++ [e] ↔ x ∈ delivered ops := by
    intro x
    rw [List.mem_append, List.mem_singleton]
    exact ⟨fun h => h.elim id fun hx => hx ▸ hin, Or.inl⟩
  refine ⟨fun s hs => ?_, hl.amount, fun k hk => ?_, fun x hx => ?_, ?_⟩
  · rw [sessions_append_event] at hs
    rw [delivered_append_event, hmem]
    exact hl.session s hs
  · rw [newDocs_append]
    exact List.mem_append_left _ (hl.docs k hk)
  · rw [delivered_append_event, hmem] at hx
    rw [sessions_append_event]
    exact hl.known x hx
  · obtain ⟨⟨e', amount⟩, hs, rfl⟩ := List.mem_map.mp (hl.known e hin)
    rw [hl.topping, paid_append_event hg hs, if_pos hin, add_zero]

/-- A first event that is credited keeps the ledger. -/
theorem ledger_credited (hl : Ledger userId ops db) (hg : Genuine userId (ops ++ [.event e i])) {t : Transaction}
    (hmem : (e, t.amount) ∈ sessions ops) (ht : db.transactions.get? e.transactionPath = some t) {db' : Db}
    (htop : (db'.wallets userId).currentTopping = (db.wallets userId).currentTopping + t.amount)
    (htx : db'.transactions = db.transactions.modify e.transactionPath fun t => { t with status := .added })
    (hin : e ∉ delivered ops) : Ledger userId (ops ++ [.event e i]) db' := by
  have hget : ∀ k, db'.transactions.get? k =
      if k = e.transactionPath then (db.transactions.get? k).map fun t => { t with status := .added }
      else db.transactions.get? k := by
    intro k
    rw [htx, Dict.get?_modify]
  refine ⟨?_, fun k t' hk => ?_, fun k hk => ?_, fun x hx => ?_, ?_⟩
  · intro s hsm
    rw [sessions_append_event] at hsm
    obtain ⟨h1, h2, h3, h4, t', ht', ha, hst'⟩ := hl.session s hsm
    refine ⟨h1, h2, h3, h4, ?_⟩
    rw [delivered_append_event, hget]
    by_cases hp : s.1.transactionPath = e.transactionPath
    · -- the transaction of the event is now added
      have hse : s = (e, t.amount) := by
        have hn : ((sessions ops).map fun s => s.1.transactionPath).Nodup :=
          hg.of_append.fresh.sublist (sessions_sublist ops)
        exact List.inj_on_of_nodup_map hn hsm hmem hp
      subst hse
      obtain rfl : t' = t := Option.some.inj (ht'.symm.trans ht)
      exact ⟨{ t' with status := .added }, by simp [ht'], ha, by simp⟩
    · refine ⟨t', by rw [if_neg hp]; exact ht', ha, ?_⟩
      have hne : s.1 ≠ e := fun h => hp (by rw [h])
      simp [hst', hne]
  · rw [hget] at hk
    split at hk
    · obtain ⟨t₀, ht₀, rfl⟩ := Option.map_eq_some_iff.mp hk
      exact hl.amount k t₀ ht₀
    · exact hl.amount k t' hk
  · rw [newDocs_append]
    rw [htx, Dict.keys_modify] at hk
    exact List.mem_append_left _ (hl.docs k hk)
  · rw [sessions_append_event]
    rw [delivered_append_event, List.mem_append, List.mem_singleton] at hx
    rcases hx with hx | rfl
    · exact hl.known x hx
    · exact List.mem_map_of_mem hmem
  · rw [htop, paid_append_event hg hmem, hl.topping, if_neg hin]

/-- A payment event keeps the ledger exactly when it is credited as the first one for its top-up, or comes again and is
not credited. -/
theorem ledger_event (hl : Ledger userId ops db) (hg : Genuine userId (ops ++ [.event e i])) :
    (((applyOp db (.event e i)).wallets userId).currentTopping = paid (ops ++ [.event e i]) ↔
      creditsOnce db (.event e i)) ∧
    (creditsOnce db (.event e i) → Ledger userId (ops ++ [.event e i]) (applyOp db (.event e i))) := by
  have he : e ∈ (sessions ops).map Prod.fst := hg.paidFor ops e i (List.prefix_refl _)
  obtain ⟨t, hmem, ht, hst, hunread, hread⟩ := applyOp_event hl hg.user he i
  have hpos := hl.amount _ t ht
  have hpaid := paid_append_event hg hmem
  have honce : creditsOnce db (.event e i) ↔ (i.error? = none ↔ e ∉ delivered ops) := by
    rw [← hst.not]
    exact ⟨fun h => h t ht, fun h t' ht' => Option.some.inj (ht.symm.trans ht') ▸ h⟩
  rw [honce]
  by_cases hi : i.error? = none
  · obtain ⟨htop, htx⟩ := hread hi
    constructor
    · rw [htop, hpaid, hl.topping]
      by_cases hin : e ∈ delivered ops
      · simp [hin, hi, hpos.ne']
      · simp [hin, hi]
    · intro h
      exact ledger_credited hl hg hmem ht htop htx (h.mp hi)
  · rw [hunread hi]
    constructor
    · rw [hpaid, hl.topping]
      by_cases hin : e ∈ delivered ops
      · simp [hin, hi]
      · simp [hin, hi, hpos.ne']
    · intro h
      exact ledger_unread hl hg (not_not.mp fun hin => hi (h.mpr hin))

end Event

theorem toppingOf_eq_zero_iff (hl : Ledger userId ops db) (mandatePath : String) :
    (if toppingOf (pendingTransactions db mandatePath) > 0 then
      toppingOf (pendingTransactions db mandatePath) else 0) = 0 ↔
      pendingTransactions db mandatePath = [] := by
  constructor
  · intro h0
    by_contra hne
    have hpos : 0 < toppingOf (pendingTransactions db mandatePath) := by
      refine List.sum_pos _ (fun a ha => ?_) (by simpa using hne)
      obtain ⟨⟨k, t⟩, hmem, rfl⟩ := List.mem_map.mp ha
      exact hl.amount k t (Dict.mem_entries_iff.mp (List.mem_filter.mp hmem).1)
    rw [if_pos hpos] at h0
    exact hpos.ne' h0
  · intro h0
    simp [h0, toppingOf]

/-- A recomputation keeps the ledger exactly when it finds no pending transaction. -/
theorem ledger_balance (hl : Ledger userId ops db) {mandatePath : String}
    (hg : Genuine userId (ops ++ [.balance mandatePath])) :
    (((applyOp db (.balance mandatePath)).wallets userId).currentTopping =
        paid (ops ++ [.balance mandatePath]) ↔ creditsOnce db (.balance mandatePath)) ∧
    (creditsOnce db (.balance mandatePath) →
      Ledger userId (ops ++ [.balance mandatePath]) (applyOp db (.balance mandatePath))) := by
  obtain ⟨hof, hpath⟩ : IsMandateOf userId mandatePath :=
    hg.isOf _ (List.mem_append_right _ (List.mem_singleton_self _))
  have hrec := getUserBalance_recomputed db mandatePath "" (by simp [reachesWallet, hof, hg.user, hpath])
  have htop := hrec.topping
  rw [hof] at htop
  have hpaid : paid (ops ++ [.balance mandatePath]) = paid ops :=
    paid_append_topUp (by simp) (by simp [Op.session?])
  have hiff : ((applyOp db (.balance mandatePath)).wallets userId).currentTopping =
      paid (ops ++ [.balance mandatePath]) ↔ creditsOnce db (.balance mandatePath) := by
    show ((getUserBalance db mandatePath "").1.wallets userId).currentTopping = _ ↔ _
    rw [htop, hpaid, hl.topping, creditsOnce, ← toppingOf_eq_zero_iff hl mandatePath]
    exact add_eq_left
  refine ⟨hiff, fun honce => ?_⟩
  have htx : (applyOp db (.balance mandatePath)).transactions = db.transactions := by
    show (getUserBalance db mandatePath "").1.transactions = _
    rw [hrec.transactions, show pendingTransactions db mandatePath = [] from honce]
    rfl
  have hd : delivered (ops ++ [.balance mandatePath]) = delivered ops := delivered_append_of_not_event (by simp)
  have hs : sessions (ops ++ [.balance mandatePath]) = sessions ops := by
    rw [sessions_append]
    exact List.append_nil _
  refine ⟨?_, ?_, fun k hk => ?_, ?_, hiff.mpr honce⟩
  · rw [hs, hd, htx]
    exact hl.session
  · rw [htx]
    exact hl.amount
  · rw [newDocs_append]
    rw [htx] at hk
    exact List.mem_append_left _ (hl.docs k hk)
  · rw [hs, hd]
    exact hl.known

/-- **One operation** keeps `current_topping` equal to what has been paid exactly when it credits a payment with its
first event, and nothing a second time or before. -/
theorem ledger_step (hl : Ledger userId ops db) (op : Op) (hg : Genuine userId (ops ++ [op])) :
    (((applyOp db op).wallets userId).currentTopping = paid (ops ++ [op]) ↔ creditsOnce db op) ∧
    (creditsOnce db op → Ledger userId (ops ++ [op]) (applyOp db op)) := by
  cases op with
  | topUp mandatePath data newId stripe =>
      have h := ledger_topUp hl mandatePath data newId stripe hg
      exact ⟨⟨fun _ => trivial, fun _ => h.topping⟩, fun _ => h⟩
  | event e i => exact ledger_event hl hg
  | balance mandatePath => exact ledger_balance hl hg

end Step

/-! ### Whole sequences -/

/-- The ledger along a sequence, with the equivalence at each of its points. -/
theorem ledger_run {userId : String} {db : Db} (htx : db.transactions = ∅)
    (hw : (db.wallets userId).currentTopping = 0) (ops : List Op) (hg : Genuine userId ops) :
    ((∀ pre, pre <+: ops → ((run applyOp db pre).wallets userId).currentTopping = paid pre) ↔
      Guarded applyOp creditsOnce db ops) ∧
    (Guarded applyOp creditsOnce db ops → Ledger userId ops (run applyOp db ops)) := by
  induction ops using List.reverseRecOn with
  | nil =>
      refine ⟨⟨fun _ => trivial, fun _ pre hp => ?_⟩, fun _ => ?_⟩
      · rw [List.prefix_nil.mp hp]
        exact hw
      · refine ⟨nofun, fun k t hk => ?_, fun k hk => ?_, nofun, hw⟩
        · rw [run_nil, htx] at hk
          cases hk
        · rw [run_nil, htx] at hk
          cases hk
  | append_singleton ops op ih =>
      obtain ⟨hiff, hledger⟩ := ih hg.of_append
      rw [forall_prefix_concat, guarded_concat, run_concat]
      refine ⟨⟨fun h => ?_, fun h => ?_⟩, fun h => ?_⟩
      · have hold := hiff.mp h.1
        exact ⟨hold, (ledger_step (hledger hold) op hg).1.mp h.2⟩
      · exact ⟨hiff.mpr h.1, (ledger_step (hledger h.1) op hg).1.mpr h.2⟩
      · exact (ledger_step (hledger h.1) op hg).2 h.2

/-- No documents. -/
def emptyDb : Db := ⟨fun _ => ⟨0, 0, 0⟩, ∅, ∅, ∅, ∅⟩

/-- A top-up of 50 with its payment event, which comes again with the id of its payment intent. -/
def paidTopUp : List Op :=
  [.topUp "clients/u/mandates/m" ⟨some "chf", some 50⟩ "t1" (.session "cs_1" "url"),
   .event (topUpMetadata "clients/u/mandates/m" "t1") .expanded,
   .event (topUpMetadata "clients/u/mandates/m" "t1") (.other "str")]

theorem paidTopUp_genuine : Genuine "u" paidTopUp where
  user := by decide
  isOf := by
    intro op hop
    simp only [paidTopUp, List.mem_cons, List.not_mem_nil, or_false] at hop
    rcases hop with rfl | rfl | rfl
    · exact ⟨⟨by decide, by decide⟩, by decide, nofun⟩
    · trivial
    · trivial
  fresh := by decide
  paidFor := by
    intro pre m i hp
    obtain ⟨post, hpost⟩ := hp
    rcases pre with _ | ⟨a, pre⟩
    · simp [paidTopUp] at hpost
    · -- The first operation is the top-up, and every event is of its session.
      have ha : a = .topUp "clients/u/mandates/m" ⟨some "chf", some 50⟩ "t1" (.session "cs_1" "url") :=
        (List.cons.inj hpost).1
      have hevent : Op.event m i ∈ paidTopUp := hpost ▸ by simp
      have hm : m = topUpMetadata "clients/u/mandates/m" "t1" := by
        simp only [paidTopUp, List.mem_cons, List.not_mem_nil, or_false, reduceCtorEq, Op.event.injEq,
          false_or] at hevent
        exact hevent.elim And.left And.left
      rw [ha, hm]
      exact List.mem_cons_self

/-- A top-up of 50, and a recomputation of the balance before its payment. -/
def unpaidTopUp : List Op :=
  [.topUp "clients/u/mandates/m" ⟨some "chf", some 50⟩ "t1" (.session "cs_1" "url"),
   .balance "clients/u/mandates/m"]

theorem unpaidTopUp_genuine : Genuine "u" unpaidTopUp where
  user := by decide
  isOf := by
    intro op hop
    simp only [unpaidTopUp, List.mem_cons, List.not_mem_nil, or_false] at hop
    rcases hop with rfl | rfl
    · exact ⟨⟨by decide, by decide⟩, by decide, nofun⟩
    · exact ⟨by decide, by decide⟩
  fresh := by decide
  paidFor := by
    intro pre m i hp
    have hm : Op.event m i ∈ unpaidTopUp :=
      hp.subset (List.mem_append_right _ (List.mem_singleton_self _))
    simp [unpaidTopUp] at hm

end Pinnokio.Billing
