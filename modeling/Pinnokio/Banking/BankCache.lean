import Pinnokio.Banking.Transactions
import Pinnokio.Cache.UnifiedCache

/-!
# The cached bank transactions

The lists of the bank transactions are cached under the key of their domain.  `set_cached_data` wraps what it stores in
a payload, and `get_cached_data` returns the payload.  `get_bank_transactions` reads the lists below `data`; the scoring
of a single document reads `to_process` beside it.

* `getCachedData_setCachedData` — a read after a write returns the payload;
* `triggerSingleCandidateScoring_of_not_seen` — without `to_process` at the top nothing is scored and nothing changes;
* `not_seen_again` — lists that are written back lie one layer deeper, and the next document does not see them;
* `seesAndKeeps_iff` — **a document sees the cached transactions** exactly when there are none to be processed.
-/

namespace Pinnokio.Banking

open Pinnokio.Matching Pinnokio.Matching.BulkMatchingEngine Pinnokio.Text

/-! ### Values in the cache -/

/-- A decoded value of the cache. -/
inductive CacheValue where
  | scalar (v : Scalar)
  | transactions (items : List BankTransaction)
  | object (fields : List (String × CacheValue))

namespace CacheValue

/-- `v.get(k)`, where only objects have fields. -/
def get? (v : CacheValue) (k : String) : Option CacheValue :=
  match v with
  | object fields => Dict.getList k fields
  | _ => none

/-- `v[k] = w`. -/
def set (v : CacheValue) (k : String) (w : CacheValue) : CacheValue :=
  match v with
  | object fields => object (Dict.setList k w fields)
  | v => v

/-- The truth value of a value. -/
def truthy : CacheValue → Bool
  | scalar v => v.truthy
  | transactions items => !items.isEmpty
  | object fields => !fields.isEmpty

end CacheValue

/-- The result of `get_bank_transactions` as a value. -/
def Organized.toValue (o : Organized) : CacheValue :=
  .object [("to_process", .transactions o.toProcess), ("in_process", .transactions o.inProcess),
    ("pending", .transactions o.pending), ("processed", .transactions o.processed)]

/-- The payload that `set_cached_data` stores. -/
def payload (data : CacheValue) (ttlSeconds : ℕ) (now : String) : CacheValue :=
  .object [("data", data), ("cached_at", .scalar (.str now)), ("ttl_seconds", .scalar (.int ttlSeconds)),
    ("source", .scalar (.str "bank.transactions")), ("cache_version", .scalar (.str "3.0"))]

section Cache

/- `str.lower`. -/
variable (lower : String → String)

/-- The dataset of the bank transactions. -/
def bankDataset (userId companyId : String) : Cache.Dataset := ⟨userId, companyId, "bank", some "transactions"⟩

/-- The values under the keys. -/
abbrev Redis := Dict String CacheValue

/-- The key of the bank transactions. -/
def bankKey (userId companyId : String) : String := Cache.buildCacheKey lower (bankDataset userId companyId)

/-- `set_cached_data` for the bank transactions; nothing is stored for `None`. -/
def setCachedData (r : Redis) (userId companyId : String) (data : CacheValue) (ttlSeconds : ℕ) (now : String) : Redis :=
  match data with
  | .scalar .none => r
  | data => r.set (bankKey lower userId companyId) (payload data ttlSeconds now)

/-- The value under the key, else under the key of the old layout, which is then copied. -/
def lookup (r : Redis) (userId companyId : String) : Redis × Option CacheValue :=
  match r.get? (bankKey lower userId companyId) with
  | some v => (r, some v)
  | none =>
      if bankKey lower userId companyId = Cache.buildLegacyCacheKey (bankDataset userId companyId) then (r, none)
      else
        match r.get? (Cache.buildLegacyCacheKey (bankDataset userId companyId)) with
        | some v => (r.set (bankKey lower userId companyId) v, some v)
        | none => (r, none)

/-- `get_cached_data` for the bank transactions: a payload with an empty list is deleted, and what is not an object is
not returned. -/
def getCachedData (r : Redis) (userId companyId : String) : Redis × Option CacheValue :=
  match lookup lower r userId companyId with
  | (r, some (.object fields)) =>
      match Dict.getList "data" fields with
      | some (.transactions []) => (r.erase (bankKey lower userId companyId), none)
      | _ => (r, some (.object fields))
  | (r, _) => (r, none)

/-! ### `get_bank_transactions` -/

/-- The arguments of `get_bank_transactions`; what is missing is empty. -/
structure BankRequest where
  userId : String
  companyId : String
  clientUuid : String
  bankErp : String
  mandatePath : String
  forceRefresh : Bool
  skipSuggestions : Bool

/-- What the sources answer: the ERP, if it answers, and the task manager. -/
structure BankSources where
  erpTransactions : Option (List ErpTransaction)
  tasks : List BankerTask
  matching : MatchingSources

/-- `get_bank_transactions`: the cache after it, and the `data` of the result. -/
def getBankTransactions (r : Redis) (q : BankRequest) (sources : BankSources) (now : String) : Redis × CacheValue :=
  let (r, cached) := if q.forceRefresh then (r, none) else getCachedData lower r q.userId q.companyId
  match (cached.bind fun v => v.get? "data").filter CacheValue.truthy with
  | some data => (r, data)
  | none =>
      if lower q.bankErp ≠ "odoo" ∨ q.clientUuid = "" then (r, (Organized.mk [] [] [] []).toValue)
      else
        let o := organizedTransactions (sources.erpTransactions.getD [])
          (getBankerJobsFromTaskManager lower q.mandatePath sources.tasks)
          (if q.skipSuggestions then none else some sources.matching)
        if o.toProcess.length + o.inProcess.length + o.pending.length = 0 then (r, o.toValue)
        else (setCachedData lower r q.userId q.companyId o.toValue 2400 now, o.toValue)

/-! ### `trigger_single_candidate_scoring` -/

/-- A document that is scored, with what its scoring gets from outside. -/
structure SingleCandidate where
  candidate : Candidate
  type : DocType
  python : Interpreter
  rates : FxCache.Call → FxRates
  now : String

/-- The engine for some transactions, with the rates that are answered. -/
def SingleCandidate.arrival (d : SingleCandidate) (items : List BankTransaction) : Arrival where
  engine := .withRates d.python (d.rates (fxCall (items.map BankTransaction.toTx) [d.candidate.currency]))
  now := d.now
  candidate := d.candidate
  type := d.type

/-- An entry of `auto_dispatch`. -/
structure DispatchEntry where
  tx : BankTransaction
  suggestion : Suggestion

/-- What `trigger_single_candidate_scoring` returns. -/
structure ScoringResult where
  updatedCount : ℕ := 0
  autoDispatch : List DispatchEntry := []

/-- `cached.get("to_process", [])`, of what the cache has returned: the transactions that are scored. -/
def toProcessOf (cached : Option CacheValue) : List BankTransaction :=
  match cached.bind fun v => v.get? "to_process" with
  | some (.transactions items) => items
  | _ => []

/-- `update_suggestions_with_candidate`, on the transactions with all their fields. -/
def updateTransactions (d : Arrival) (items : List BankTransaction) : List (BankTransaction × Bool) :=
  List.zipWith (fun item p => ({ item with toTx := p.1 }, p.2)) items
    (d.engine.updateSuggestionsWithCandidate d.now (items.map BankTransaction.toTx) d.candidate d.type)

/-- An updated transaction is dispatched with its best suggestion, if that is of high confidence. -/
def dispatchOf (config : BulkMatchingConfig) (tx : BankTransaction) : Option DispatchEntry :=
  match tx.toTx.topMatches with
  | [] => none
  | top :: _ => if config.highConfidence ≤ top.score then some ⟨tx, top⟩ else none

/-- `trigger_single_candidate_scoring`. -/
def triggerSingleCandidateScoring (r : Redis) (userId companyId : String) (d : SingleCandidate) :
    Redis × ScoringResult :=
  match getCachedData lower r userId companyId with
  | (r, none) => (r, {})
  | (r, some cached) =>
      let items := toProcessOf (some cached)
      if items.isEmpty then (r, {})
      else
        let results := updateTransactions (d.arrival items) items
        let updated := (results.filter Prod.snd).map Prod.fst
        if updated.isEmpty then (r, {})
        else
          (setCachedData lower r userId companyId (cached.set "to_process" (.transactions (results.map Prod.fst))) 2400
              d.now,
            ⟨updated.length, updated.filterMap (dispatchOf (d.arrival items).engine.config)⟩)

end Cache

/-! ### What a document sees -/

section Seen

variable {lower : String → String} {r : Redis} {userId companyId : String} {d : SingleCandidate}

/-- A read after a write returns the payload. -/
theorem getCachedData_setCachedData (fields : List (String × CacheValue)) (ttlSeconds : ℕ) (now : String) :
    getCachedData lower (setCachedData lower r userId companyId (.object fields) ttlSeconds now) userId companyId =
      (setCachedData lower r userId companyId (.object fields) ttlSeconds now,
        some (payload (.object fields) ttlSeconds now)) := by
  have hset : setCachedData lower r userId companyId (.object fields) ttlSeconds now =
      r.set (bankKey lower userId companyId) (payload (.object fields) ttlSeconds now) := rfl
  rw [hset, getCachedData, lookup, Dict.get?_set_self]
  rfl

/-- A payload has no list at the top. -/
theorem toProcessOf_payload (data : CacheValue) (ttlSeconds : ℕ) (now : String) :
    toProcessOf (some (payload data ttlSeconds now)) = [] := rfl

/-- **Nothing is scored and nothing is written** if the value has no transactions at the top. -/
theorem triggerSingleCandidateScoring_of_not_seen
    (h : toProcessOf (getCachedData lower r userId companyId).2 = []) :
    triggerSingleCandidateScoring lower r userId companyId d = ((getCachedData lower r userId companyId).1, {}) := by
  rw [triggerSingleCandidateScoring]
  split
  · next r' hget => rw [hget]
  · next r' cached hget =>
    rw [hget] at h ⊢
    rw [h]
    rfl

/-- **What a document has written back is not seen by the next one.** -/
theorem not_seen_again (h : (triggerSingleCandidateScoring lower r userId companyId d).2.updatedCount ≠ 0) :
    toProcessOf (getCachedData lower (triggerSingleCandidateScoring lower r userId companyId d).1 userId
      companyId).2 = [] := by
  rw [triggerSingleCandidateScoring] at h ⊢
  split at h
  · exact absurd rfl h
  · next r' cached hget =>
    dsimp only at h ⊢
    split at h
    · exact absurd rfl h
    · next hitems =>
      split at h
      · exact absurd rfl h
      · next hupdated =>
        rw [if_neg hitems, if_neg hupdated]
        -- Only an object has transactions at the top.
        cases cached with
        | scalar v => exact absurd rfl hitems
        | transactions items => exact absurd rfl hitems
        | object fields =>
            rw [CacheValue.set, getCachedData_setCachedData]
            rfl

/-- A transaction without its suggestions. -/
def BankTransaction.bare (tx : BankTransaction) : BankTransaction := { tx with matchSuggestions := none }

/-- The lists without the suggestions of their transactions. -/
def Organized.bare (o : Organized) : Organized :=
  ⟨o.toProcess.map .bare, o.inProcess.map .bare, o.pending.map .bare, o.processed.map .bare⟩

variable (lower) in
/-- A document is scored against the transactions of a dataset that was stored, and they are still there afterwards, in
the same layout and but for their suggestions. -/
def SeesAndKeeps (r : Redis) (userId companyId : String) (o : Organized) (ttlSeconds : ℕ) (storedAt : String)
    (d : SingleCandidate) : Prop :=
  let stored := setCachedData lower r userId companyId o.toValue ttlSeconds storedAt
  toProcessOf (getCachedData lower stored userId companyId).2 = o.toProcess ∧
    ∃ o' ttlSeconds' storedAt',
      (getCachedData lower (triggerSingleCandidateScoring lower stored userId companyId d).1 userId companyId).2 =
        some (payload (Organized.toValue o') ttlSeconds' storedAt') ∧ o'.bare = o.bare

/-- **A document sees and keeps the cached transactions** exactly when there are none to be processed. -/
theorem seesAndKeeps_iff (lower : String → String) (r : Redis) (userId companyId : String) (o : Organized)
    (ttlSeconds : ℕ) (storedAt : String) (d : SingleCandidate) :
    SeesAndKeeps lower r userId companyId o ttlSeconds storedAt d ↔ o.toProcess = [] := by
  have hget : getCachedData lower (setCachedData lower r userId companyId o.toValue ttlSeconds storedAt) userId companyId =
      (setCachedData lower r userId companyId o.toValue ttlSeconds storedAt, some (payload o.toValue ttlSeconds storedAt)) :=
    getCachedData_setCachedData _ ttlSeconds storedAt
  have hseen : toProcessOf (getCachedData lower (setCachedData lower r userId companyId o.toValue ttlSeconds storedAt)
      userId companyId).2 = [] := by
    rw [hget]
    exact toProcessOf_payload _ _ _
  constructor
  · intro h
    exact h.1.symm.trans hseen
  · intro h
    refine ⟨hseen.trans h.symm, o, ttlSeconds, storedAt, ?_, rfl⟩
    rw [triggerSingleCandidateScoring_of_not_seen hseen, hget, hget]

end Seen

/-- A request for the transactions of a company. -/
def firstRequest : BankRequest where
  userId := "u"
  companyId := "c"
  clientUuid := "odoo-1"
  bankErp := "odoo"
  mandatePath := "mandates/m"
  forceRefresh := false
  skipSuggestions := true

/-- The ERP has one open payment, the task manager has nothing. -/
def openPaymentOnly : BankSources where
  erpTransactions := some [openPayment]
  tasks := []
  matching := ⟨.binary64, fun _ => ∅, ⟨[], [], []⟩, ""⟩

/-- An invoice over the payment. -/
def invoiceOfPayment : SingleCandidate := ⟨invoiceDue 3001 100 "CHF" "2026-03-05", .invoice, .binary64, fun _ => ∅, ""⟩

/-- **An invoice does not see the payment it is for**, which has just been cached. -/
theorem invoice_not_scored :
    let cached := (getBankTransactions lower ∅ firstRequest openPaymentOnly "").1
    let o := organizedTransactions [openPayment] (getBankerJobsFromTaskManager lower "mandates/m" []) none
    cached.get? (bankKey lower "u" "c") = some (payload o.toValue 2400 "") ∧
      o.toProcess.map (fun t => t.id) = ["577"] ∧
      (triggerSingleCandidateScoring lower cached "u" "c" invoiceOfPayment).2 = {} ∧
      ¬SeesAndKeeps lower ∅ "u" "c" o 2400 "" invoiceOfPayment := by
  refine ⟨rfl, by decide +kernel, rfl, fun h => ?_⟩
  exact absurd (congrArg List.length h.1) (by decide +kernel)

end Pinnokio.Banking
