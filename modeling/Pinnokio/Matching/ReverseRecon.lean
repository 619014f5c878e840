import Mathlib.Data.List.Induction
import Mathlib.Data.List.Perm.Basic
import Mathlib.Data.List.Nodup
import Mathlib.Data.List.Pairwise
import Pinnokio.Matching.Suggestions

/-!
# Automatic reconciliation of new documents

New invoices and expenses are scored one after the other against the open bank transactions, whose suggestions
are changed in place.  A transaction whose best suggestion is of high confidence after a document has been scored
is collected for that document, and the collected transactions are sent to the banker, by bank account, as one
batch.  Nothing is taken off the table meanwhile: a transaction that a later document tops again, or a document
that tops several transactions, is collected several times.

* `handleReverseReconScoring` — from the documents to the batch;
* `takes` — when a document takes a transaction: with a record of high confidence, or below a best entry that has
  its id or its job id;
* `collect_offerItem` — **collection by records**;
* `collected_perm` — **the collection, transaction by transaction**;
* `batch_uses_each_once_iff` — the batch uses every transaction and every document at most once exactly when no
  transaction is taken twice and no two transactions are taken with the same document.
-/

namespace Pinnokio.Matching

open Pinnokio.Text Pinnokio.Numbers

/-! ### Documents to reconcile -/

/-- An element of `items`.  A missing id is the empty text. -/
structure ReconItem where
  itemType : DocType
  id : Scalar
  itemId : Scalar
  jobId : Scalar
  fileId : Scalar
  amount : ℚ
  currency : String
  date : String
  invoiceDate : String
  expenseDate : String
  supplierName : String
  partnerName : String
  employeeName : String
  concern : String
  description : String
  name : String
  ref : String
  reference : String
  paymentReference : String

/-- `_normalize_reverse_recon_item`. -/
def normalizeReverseReconItem (item : ReconItem) : Candidate :=
  if item.itemType = .invoice then
    let date := orElse item.date item.invoiceDate
    let partner := orElse item.supplierName item.partnerName
    { amount := item.amount
      currency := item.currency
      invoiceDate := date
      expenseDate := ""
      date := date
      partnerName := partner
      ref := orElse (orElse (orElse item.ref item.reference) item.paymentReference) item.name
      name := orElse item.name item.concern
      paymentReference := item.paymentReference
      description := ""
      label := ""
      employeeName := ""
      displayName := partner
      displayRef := orElse item.name item.concern
      displayAmount := item.amount
      displayDate := date
      id := (item.id.or item.itemId).or item.jobId
      jobId := item.jobId
      fileId := item.fileId }
  else
    let date := orElse item.date item.expenseDate
    let title := orElse item.concern item.description
    { amount := item.amount
      currency := item.currency
      invoiceDate := ""
      expenseDate := date
      date := date
      partnerName := ""
      ref := ""
      name := ""
      paymentReference := ""
      description := title
      label := title
      employeeName := orElse item.supplierName item.employeeName
      displayName := title
      displayRef := item.supplierName
      displayAmount := item.amount
      displayDate := date
      id := (item.itemId.or item.jobId).or item.id
      jobId := item.jobId
      fileId := .none }

/-! ### Collection -/

/-- A transaction collected for a document. -/
structure Match where
  tx : Tx
  suggestion : Suggestion
  originalItem : ReconItem

/-- The best suggestion is taken for the candidate: it has its id, or its job id. -/
def corresponds (top : Suggestion) (candidate : Candidate) : Bool :=
  decide ((top.internalId.or (.str top.id)).toStr = candidate.id.toStr) || decide (top.jobId = candidate.jobId)

namespace BulkMatchingEngine

variable (e : BulkMatchingEngine) (now : String)

/-- The suggestion an updated transaction is collected with. -/
def collect (candidate : Candidate) (r : Tx × Bool) : Option Suggestion :=
  if r.2 then
    match (existing r.1).topMatches with
    | [] => none
    | top :: _ =>
        if e.config.highConfidence ≤ top.score ∧ corresponds top candidate then some top else none
  else none

/-- The transactions and the collection after one more document. -/
def scoreItem (st : List Tx × List Match) (item : ReconItem) : List Tx × List Match :=
  let candidate := normalizeReverseReconItem item
  if candidate.amount = 0 then st
  else
    let results := e.updateSuggestionsWithCandidate now st.1 candidate item.itemType
    (results.map Prod.fst,
      st.2 ++ results.filterMap fun r => (e.collect candidate r).map fun s => ⟨r.1, s, item⟩)

end BulkMatchingEngine

/-! ### Reconciliation data -/

/-- `reconciliation_data` of a transaction. -/
inductive ReconciliationData where
  | counterpart (score : ℤ) (odooPartnerName : String) (odooMoveId : ℤ) (odooContactType reasoning : String)
  | expenseEntry (score : ℤ) (selectedExpenseJobId : Scalar) (odooPartnerName reasoning : String)
  deriving DecidableEq

/-- `int(internal_id)`. -/
def moveIdOf : Scalar → Option ℤ
  | .none => none
  | .bool b => some (if b then 1 else 0)
  | .int n => some n
  | .str s => int? s

/-- The text that explains a score. -/
def reasoning (A : Rounding) (d : ScoreDetails) : String :=
  "Auto-scoring backend: amount=" ++ A.percent d.amount ++ ", date=" ++ A.percent d.date ++ ", text=" ++
    A.percent d.text ++ ", ref=" ++ A.percent d.reference ++ ", currency=" ++ A.percent d.currency

/-- `build_reconciliation_data`. -/
def buildReconciliationData (A : Rounding) (s : Suggestion) : Option ReconciliationData :=
  let score := roundHalfEven (A.mul s.score 100)
  match s.type with
  | .expense =>
      some (.expenseEntry score (s.jobId.or (.str s.internalId.toStr)) s.partnerName
        (reasoning A s.scoreDetails))
  | .other _ => none
  | type =>
      match (if s.internalId.truthy then moveIdOf s.internalId else none) with
      | none => none
      | some moveId =>
          if moveId = 0 then none
          else
            some (.counterpart score s.partnerName moveId
              (if type = .arInvoice then "customer" else "supplier") (reasoning A s.scoreDetails))

/-- A document, as the reconciliation data identify it. -/
inductive DocRef where
  | move (odooMoveId : ℤ)
  | expense (selectedExpenseJobId : Scalar)
  deriving DecidableEq

/-- The document of the reconciliation data. -/
def ReconciliationData.docRef : ReconciliationData → DocRef
  | .counterpart _ _ moveId _ _ => .move moveId
  | .expenseEntry _ jobId _ _ => .expense jobId

/-! ### The batch -/

/-- A transaction of the batch. -/
structure BatchTx where
  transactionId : String
  reconciliationData : Option ReconciliationData
  deriving DecidableEq

/-- The part of the batch of one bank account. -/
structure BankAccount where
  bankAccount : String
  bankAccountId : String
  transactions : List BatchTx

/-- `str(tx.get("account_id", tx.get("journal_id", "")))`. -/
def bankAccountId (tx : Tx) : String := (tx.accountId.getD (tx.journalId.getD (.str ""))).toStr

/-- `tx.get("account_name", tx.get("journal_name", ""))`. -/
def journalName (tx : Tx) : String := tx.accountName.getD (tx.journalName.getD "")

/-- The transaction of a match, as it is sent. -/
def Match.batchTx (A : Rounding) (m : Match) : BatchTx := ⟨m.tx.id, buildReconciliationData A m.suggestion⟩

/-- Add a match to the account of its transaction. -/
def addToAccount (A : Rounding) (accounts : Dict String BankAccount) (m : Match) : Dict String BankAccount :=
  let id := bankAccountId m.tx
  let account := (accounts.get? id).getD ⟨journalName m.tx, id, []⟩
  accounts.set id { account with transactions := account.transactions ++ [m.batchTx A] }

/-- The engine of a run: the default configuration, and the rates that were fetched. -/
def engine (python : Interpreter) (fxRates : FxRates) : BulkMatchingEngine := .withRates python fxRates

/-- `handle_reverse_recon_scoring_backend`, from the documents and the open transactions to the transactions with
their new suggestions and the `jobs_data` of the banker batch. -/
def handleReverseReconScoring (python : Interpreter) (fxRates : FxRates) (now : String) (items : List ReconItem)
    (toProcess : List Tx) : List Tx × List BankAccount :=
  let st := items.foldl ((engine python fxRates).scoreItem now) (toProcess, [])
  (st.1, (st.2.foldl (addToAccount python.numbers) ∅).entries.map Prod.snd)

/-- All transactions of a batch. -/
def batchTransactions (batch : List BankAccount) : List BatchTx := batch.flatMap BankAccount.transactions

/-- The documents of a batch. -/
def batchDocs (batch : List BankAccount) : List DocRef :=
  (batchTransactions batch).filterMap fun t => t.reconciliationData.map ReconciliationData.docRef

/-! ### One transaction -/

namespace BulkMatchingEngine

variable (e : BulkMatchingEngine) (now : String)

/-- The suggestion a document makes to a transaction. -/
def suggestionOf (item : ReconItem) (tx : Tx) : Option Suggestion :=
  if (normalizeReverseReconItem item).amount = 0 then none
  else e.suggestionFor (normalizeReverseReconItem item) item.itemType tx

/-- What a document does to a transaction on its own. -/
def offerItem (item : ReconItem) (tx : Tx) : Tx × Bool :=
  match e.suggestionOf item tx with
  | none => (tx, false)
  | some new => e.take now tx new

/-- A transaction after some documents. -/
def offerItems (items : List ReconItem) (tx : Tx) : Tx :=
  items.foldl (fun tx item => (e.offerItem now item tx).1) tx

/-- A record scores more than the suggestions the transaction came with, and more than those of the documents
before. -/
def IsRecord (before : List ReconItem) (tx : Tx) (new : Suggestion) : Prop :=
  (∀ m ∈ (existing tx).topMatches, m.score < new.score) ∧
    ∀ item ∈ before, ∀ s ∈ e.suggestionOf item tx, s.score < new.score

instance (before : List ReconItem) (tx : Tx) (new : Suggestion) : Decidable (e.IsRecord before tx new) :=
  inferInstanceAs (Decidable (_ ∧ _))

/-- The best entry of the list that a suggestion enters. -/
def topWith (tx : Tx) (new : Suggestion) : Option Suggestion :=
  (placeMatch e.config.maxSuggestions (existing tx).topMatches new).bind fun ms => (sortByScore ms).head?

/-- The suggestion with which a document takes a transaction, if it is of high confidence and carries the id or
the job id of the document: its own if that is a record, else the best entry of the list it enters. -/
def takes (before : List ReconItem) (item : ReconItem) (tx : Tx) : Option Suggestion :=
  (e.suggestionOf item tx).bind fun new =>
    (if e.IsRecord before tx new then some new
      else e.topWith (e.offerItems now before tx) new).filter fun top =>
        e.config.highConfidence ≤ top.score ∧ corresponds top (normalizeReverseReconItem item)

/-- The suggestions with which further documents take a transaction. -/
def takingsAfter : List ReconItem → List ReconItem → Tx → List Suggestion
  | _, [], _ => []
  | before, item :: items, tx =>
      (e.takes now before item tx).toList ++ takingsAfter (before ++ [item]) items tx

/-- The suggestions with which the documents take a transaction. -/
def takings (items : List ReconItem) (tx : Tx) : List Suggestion := e.takingsAfter now [] items tx

end BulkMatchingEngine

/-- The document a suggestion stands for in the batch. -/
def Suggestion.docRef (A : Rounding) (s : Suggestion) : Option DocRef :=
  (buildReconciliationData A s).map ReconciliationData.docRef

namespace BulkMatchingEngine

variable {e : BulkMatchingEngine} {now : String}

variable (e now) in
/-- Documents change nothing of a transaction but its suggestions. -/
theorem offerItems_eq (items : List ReconItem) (tx : Tx) :
    ∃ suggestions, e.offerItems now items tx = { tx with matchSuggestions := suggestions } := by
  induction items generalizing tx with
  | nil => exact ⟨tx.matchSuggestions, rfl⟩
  | cons item items ih =>
      obtain ⟨first, hfirst⟩ : ∃ suggestions, (e.offerItem now item tx).1 =
          { tx with matchSuggestions := suggestions } := by
        unfold offerItem
        split
        · exact ⟨tx.matchSuggestions, rfl⟩
        · exact take_eq now tx _
      obtain ⟨last, hlast⟩ := ih (e.offerItem now item tx).1
      refine ⟨last, ?_⟩
      rw [hfirst] at hlast
      rw [offerItems, List.foldl_cons, hfirst]
      exact hlast

theorem offerItems_id (items : List ReconItem) (tx : Tx) : (e.offerItems now items tx).id = tx.id := by
  obtain ⟨suggestions, h⟩ := offerItems_eq e now items tx
  rw [h]

theorem offerItems_concat (items : List ReconItem) (item : ReconItem) (tx : Tx) :
    e.offerItems now (items ++ [item]) tx = (e.offerItem now item (e.offerItems now items tx)).1 := by
  simp [offerItems]

/-- The score of a document does not depend on the suggestions that are already there. -/
theorem suggestionOf_offerItems (items : List ReconItem) (item : ReconItem) (tx : Tx) :
    e.suggestionOf item (e.offerItems now items tx) = e.suggestionOf item tx := by
  obtain ⟨suggestions, h⟩ := offerItems_eq e now items tx
  simp [h, suggestionOf, suggestionFor, signMatches]

/-- Where the suggestions of a transaction come from. -/
theorem mem_offerItems (items : List ReconItem) {tx : Tx} {m : Suggestion}
    (h : m ∈ (existing (e.offerItems now items tx)).topMatches) :
    m ∈ (existing tx).topMatches ∨ ∃ item ∈ items, m ∈ e.suggestionOf item tx := by
  induction items using List.reverseRecOn with
  | nil => exact Or.inl h
  | append_singleton items item ih =>
      rw [offerItems_concat] at h
      unfold offerItem at h
      rw [suggestionOf_offerItems] at h
      have hbefore : m ∈ (existing (e.offerItems now items tx)).topMatches →
          m ∈ (existing tx).topMatches ∨ ∃ item' ∈ items ++ [item], m ∈ e.suggestionOf item' tx := by
        intro hm
        rcases ih hm with hown | ⟨item', hitem', hm'⟩
        · exact Or.inl hown
        · exact Or.inr ⟨item', List.mem_append_left _ hitem', hm'⟩
      split at h
      · exact hbefore h
      · next new hnew =>
        rcases mem_take h with rfl | hm
        · exact Or.inr ⟨item, by simp, hnew⟩
        · exact hbefore hm

/-- A record goes to the top. -/
theorem topWith_of_isRecord (hmax : 0 < e.config.maxSuggestions) {before : List ReconItem} {tx : Tx}
    {new : Suggestion} (h : e.IsRecord before tx new) :
    e.topWith (e.offerItems now before tx) new = some new := by
  have hbeats : ∀ m ∈ (existing (e.offerItems now before tx)).topMatches, m.score < new.score := by
    intro m hm
    rcases mem_offerItems before hm with hown | ⟨item, hitem, hsugg⟩
    · exact h.1 m hown
    · exact h.2 item hitem m hsugg
  obtain ⟨ms, hms⟩ := placeMatch_of_beats hmax hbeats
  obtain ⟨hnew, hothers⟩ := mem_placeMatch hms
  rw [topWith, hms, Option.bind_some]
  exact head?_sortByScore hnew fun m hm => (hothers m hm).imp id (hbeats m)

/-- What is collected of a transaction that takes a suggestion. -/
theorem collect_take (candidate : Candidate) (tx : Tx) (new : Suggestion) :
    e.collect candidate (e.take now tx new) = (e.topWith tx new).filter fun top =>
      e.config.highConfidence ≤ top.score ∧ corresponds top candidate := by
  unfold collect take topWith
  cases placeMatch e.config.maxSuggestions (existing tx).topMatches new with
  | none => rfl
  | some ms =>
      cases hs : sortByScore ms with
      | nil => simp [existing, hs]
      | cons top rest => simp [existing, hs, Option.filter]

/-- **Collection by records**: what a document makes of a transaction after the documents before. -/
theorem collect_offerItem (hmax : 0 < e.config.maxSuggestions) (before : List ReconItem) (item : ReconItem)
    (tx : Tx) :
    e.collect (normalizeReverseReconItem item) (e.offerItem now item (e.offerItems now before tx)) =
      e.takes now before item tx := by
  unfold offerItem takes
  rw [suggestionOf_offerItems]
  cases e.suggestionOf item tx with
  | none => rfl
  | some new =>
      rw [Option.bind_some]
      refine (collect_take _ _ new).trans ?_
      split
      · next hrecord => rw [topWith_of_isRecord hmax hrecord]
      · rfl

end BulkMatchingEngine

section Collection

variable {e : BulkMatchingEngine} {now : String}

/-- What is left of a match in the batch. -/
def Match.taken (m : Match) : String × Suggestion := (m.tx.id, m.suggestion)

/-- A document is offered to each transaction on its own. -/
theorem updateSuggestionsWithCandidate_eq_offerItem {txs : List Tx} (hids : (txs.map Tx.id).Nodup)
    {item : ReconItem} (h0 : (normalizeReverseReconItem item).amount ≠ 0) :
    e.updateSuggestionsWithCandidate now txs (normalizeReverseReconItem item) item.itemType =
      txs.map (e.offerItem now item) := by
  rw [BulkMatchingEngine.updateSuggestionsWithCandidate_eq hids]
  refine List.map_congr_left fun tx _ => ?_
  rw [BulkMatchingEngine.offerItem, BulkMatchingEngine.suggestionOf, if_neg h0]
  rfl

variable (e now) in
/-- **One document**, for all transactions at once. -/
theorem scoreItem_eq {txs : List Tx} (hids : (txs.map Tx.id).Nodup) (ms : List Match) (item : ReconItem) :
    (e.scoreItem now (txs, ms) item).1 = txs.map (fun tx => (e.offerItem now item tx).1) ∧
      (e.scoreItem now (txs, ms) item).2.map Match.taken = ms.map Match.taken ++ txs.flatMap fun tx =>
        ((e.collect (normalizeReverseReconItem item) (e.offerItem now item tx)).toList).map
          fun s => (tx.id, s) := by
  by_cases h0 : (normalizeReverseReconItem item).amount = 0
  · have hoffer : ∀ tx, e.offerItem now item tx = (tx, false) := fun tx => by
      simp [BulkMatchingEngine.offerItem, BulkMatchingEngine.suggestionOf, h0]
    have hnone : ∀ tx, e.collect (normalizeReverseReconItem item) (tx, false) = none := fun tx => rfl
    simp [BulkMatchingEngine.scoreItem, h0, hoffer, hnone]
  · simp only [BulkMatchingEngine.scoreItem, h0, if_false, updateSuggestionsWithCandidate_eq_offerItem hids h0,
      List.map_map, List.map_append, List.filterMap_map]
    refine ⟨rfl, congrArg _ ?_⟩
    rw [List.map_filterMap, List.filterMap_eq_flatMap_toList]
    refine List.flatMap_congr fun tx _ => ?_
    have hid : (e.offerItem now item tx).1.id = tx.id := BulkMatchingEngine.offerItems_id [item] tx
    cases hc : e.collect (normalizeReverseReconItem item) (e.offerItem now item tx) with
    | none => simp [hc]
    | some s => simp [hc, Match.taken, hid]

variable (now) in
/-- **The collection, transaction by transaction.** -/
theorem collected_perm (hmax : 0 < e.config.maxSuggestions) (items before : List ReconItem) {txs : List Tx}
    (hids : (txs.map Tx.id).Nodup) (ms : List Match) :
    ((items.foldl (e.scoreItem now) (txs.map (e.offerItems now before), ms)).2.map Match.taken).Perm
      (ms.map Match.taken ++ txs.flatMap fun tx =>
        (e.takingsAfter now before items tx).map fun s => (tx.id, s)) := by
  induction items generalizing before ms with
  | nil =>
      have hnil : (txs.flatMap fun tx =>
          (e.takingsAfter now before [] tx).map fun s => (tx.id, s)) = [] := by
        simp [BulkMatchingEngine.takingsAfter]
      rw [hnil, List.append_nil, List.foldl_nil]
  | cons item items ih =>
      have hids' : ((txs.map (e.offerItems now before)).map Tx.id).Nodup := by
        simpa [Function.comp_def, BulkMatchingEngine.offerItems_id] using hids
      obtain ⟨htxs, hms⟩ := scoreItem_eq e now hids' ms item
      have hstep : e.scoreItem now (txs.map (e.offerItems now before), ms) item =
          (txs.map (e.offerItems now (before ++ [item])),
            (e.scoreItem now (txs.map (e.offerItems now before), ms) item).2) := by
        refine Prod.ext (htxs.trans ?_) rfl
        simp [Function.comp_def, BulkMatchingEngine.offerItems_concat]
      rw [List.foldl_cons, hstep]
      refine (ih _ _).trans ?_
      rw [hms, List.append_assoc, List.flatMap_map]
      simp only [BulkMatchingEngine.offerItems_id, BulkMatchingEngine.collect_offerItem hmax]
      refine List.Perm.append_left _ ((List.flatMap_append_perm txs _ _).trans ?_)
      simp [BulkMatchingEngine.takingsAfter]

/-- Grouping by account keeps the transactions. -/
theorem accounts_perm (A : Rounding) (ms : List Match) (accounts : Dict String BankAccount) :
    ((ms.foldl (addToAccount A) accounts).entries.flatMap fun a => a.2.transactions).Perm
      ((accounts.entries.flatMap fun a => a.2.transactions) ++ ms.map (Match.batchTx A)) := by
  induction ms generalizing accounts with
  | nil => simp
  | cons m ms ih =>
      rw [List.foldl_cons, List.map_cons]
      refine (ih _).trans ?_
      have hadd := Dict.perm_flatMap_set accounts BankAccount.transactions (bankAccountId m.tx)
        { (accounts.get? (bankAccountId m.tx)).getD ⟨journalName m.tx, bankAccountId m.tx, []⟩ with
          transactions := ((accounts.get? (bankAccountId m.tx)).getD
            ⟨journalName m.tx, bankAccountId m.tx, []⟩).transactions ++ [m.batchTx A] }
        [m.batchTx A] (by cases accounts.get? (bankAccountId m.tx) <;> simp)
      refine (hadd.append_right _).trans ?_
      rw [List.append_assoc, List.singleton_append]

end Collection

section Batch

variable (python : Interpreter) (fxRates : FxRates) (now : String) (items : List ReconItem)

/-- The batch, transaction by transaction. -/
theorem batch_perm {txs : List Tx} (hids : (txs.map Tx.id).Nodup) :
    (batchTransactions (handleReverseReconScoring python fxRates now items txs).2).Perm
      (txs.flatMap fun tx => ((engine python fxRates).takings now items tx).map fun s =>
        ⟨tx.id, buildReconciliationData python.numbers s⟩) := by
  have hacc := accounts_perm python.numbers (items.foldl ((engine python fxRates).scoreItem now) (txs, [])).2 ∅
  have hmax : 0 < (engine python fxRates).config.maxSuggestions := Nat.succ_pos 2
  have hcol := (collected_perm now hmax items [] hids []).map
    fun t : String × Suggestion => BatchTx.mk t.1 (buildReconciliationData python.numbers t.2)
  have htxs : txs.map ((engine python fxRates).offerItems now []) = txs := List.map_id' txs
  rw [htxs, List.map_map] at hcol
  simp only [batchTransactions, handleReverseReconScoring, List.flatMap_map]
  refine (hacc.trans hcol).trans ?_
  simp [List.map_flatMap, BulkMatchingEngine.takings, Function.comp_def]

/-- The transaction ids of the batch. -/
theorem batchIds_perm {txs : List Tx} (hids : (txs.map Tx.id).Nodup) :
    ((batchTransactions (handleReverseReconScoring python fxRates now items txs).2).map BatchTx.transactionId).Perm
      (txs.flatMap fun tx => ((engine python fxRates).takings now items tx).map fun _ => tx.id) := by
  refine ((batch_perm python fxRates now items hids).map BatchTx.transactionId).trans ?_
  simp [List.map_flatMap, Function.comp_def]

/-- The documents of the batch. -/
theorem batchDocs_perm {txs : List Tx} (hids : (txs.map Tx.id).Nodup) :
    (batchDocs (handleReverseReconScoring python fxRates now items txs).2).Perm
      (txs.flatMap fun tx =>
        ((engine python fxRates).takings now items tx).filterMap (Suggestion.docRef python.numbers)) := by
  refine ((batch_perm python fxRates now items hids).filterMap _).trans ?_
  rw [List.filterMap_flatMap]
  simp only [List.filterMap_map]
  exact List.Perm.refl _

/-- A transaction is used once exactly when it is taken once. -/
theorem nodup_batchIds_iff {txs : List Tx} (hids : (txs.map Tx.id).Nodup) :
    ((batchTransactions (handleReverseReconScoring python fxRates now items txs).2).map
      BatchTx.transactionId).Nodup ↔ ∀ tx ∈ txs, ((engine python fxRates).takings now items tx).length ≤ 1 := by
  rw [(batchIds_perm python fxRates now items hids).nodup_iff, List.nodup_flatMap]
  simp only [List.map_const', List.nodup_replicate]
  refine ⟨fun h => h.1, fun h => ⟨h, (List.pairwise_map.mp hids).imp fun hne id hid hid' => hne ?_⟩⟩
  exact (List.eq_of_mem_replicate hid).symm.trans (List.eq_of_mem_replicate hid')

theorem nodup_filterMap_of_length_le_one {α β : Type} {f : α → Option β} {l : List α} (h : l.length ≤ 1) :
    (l.filterMap f).Nodup := by
  match l, h with
  | [], _ => exact List.nodup_nil
  | [a], _ => cases hf : f a <;> simp [hf]

/-- When every transaction is taken at most once, a document is used once exactly when one transaction takes
it. -/
theorem nodup_batchDocs_iff {txs : List Tx} (hids : (txs.map Tx.id).Nodup)
    (honce : ∀ tx ∈ txs, ((engine python fxRates).takings now items tx).length ≤ 1) :
    (batchDocs (handleReverseReconScoring python fxRates now items txs).2).Nodup ↔
      ∀ tx ∈ txs, ∀ tx' ∈ txs, ∀ s ∈ (engine python fxRates).takings now items tx,
        ∀ s' ∈ (engine python fxRates).takings now items tx',
          ∀ d ∈ s.docRef python.numbers, d ∈ s'.docRef python.numbers → tx = tx' := by
  rw [(batchDocs_perm python fxRates now items hids).nodup_iff, List.nodup_flatMap]
  constructor
  · intro h' tx htx tx' htx' s hs s' hs' d hd hd'
    obtain ⟨-, hdisj⟩ := h'
    by_contra hne
    have hsymm : Std.Symm (Function.onFun List.Disjoint fun tx =>
        ((engine python fxRates).takings now items tx).filterMap (Suggestion.docRef python.numbers)) :=
      ⟨fun _ _ h _ hd hd' => h hd' hd⟩
    exact hdisj.forall htx htx' hne (List.mem_filterMap.mpr ⟨s, hs, hd⟩)
      (List.mem_filterMap.mpr ⟨s', hs', hd'⟩)
  · intro h
    refine ⟨fun tx htx => nodup_filterMap_of_length_le_one (honce tx htx), ?_⟩
    refine hids.of_map.pairwise_of_forall_ne fun tx htx tx' htx' hne d hd hd' => hne ?_
    obtain ⟨s, hs, hsd⟩ := List.mem_filterMap.mp hd
    obtain ⟨s', hs', hsd'⟩ := List.mem_filterMap.mp hd'
    exact h tx htx tx' htx' s hs s' hs' d hsd hsd'

/-- **When a batch uses everything once**: no transaction is taken twice, and no two transactions are taken with the
same document. -/
theorem batch_uses_each_once_iff (txs : List Tx) (hids : (txs.map Tx.id).Nodup) :
    (((batchTransactions (handleReverseReconScoring python fxRates now items txs).2).map
        BatchTx.transactionId).Nodup ∧
      (batchDocs (handleReverseReconScoring python fxRates now items txs).2).Nodup) ↔
    (∀ tx ∈ txs, ((engine python fxRates).takings now items tx).length ≤ 1) ∧
      ∀ tx ∈ txs, ∀ tx' ∈ txs, ∀ s ∈ (engine python fxRates).takings now items tx,
        ∀ s' ∈ (engine python fxRates).takings now items tx',
          ∀ d ∈ s.docRef python.numbers, d ∈ s'.docRef python.numbers → tx = tx' := by
  rw [nodup_batchIds_iff python fxRates now items hids]
  exact and_congr_right fun honce => nodup_batchDocs_iff python fxRates now items hids honce

end Batch

/-! ### Two batches -/

/-- An invoice of a supplier. -/
def invoiceOf (moveId : ℤ) (amount : ℚ) (date : String) : ReconItem where
  itemType := .invoice
  id := .int moveId
  itemId := .str ""
  jobId := .str ("job-" ++ toString moveId)
  fileId := .str ""
  amount := amount
  currency := "CHF"
  date := date
  invoiceDate := ""
  expenseDate := ""
  supplierName := "Acme"
  partnerName := ""
  employeeName := ""
  concern := ""
  description := ""
  name := "F17"
  ref := ""
  reference := ""
  paymentReference := ""

/-- A payment to that supplier. -/
def paymentOf (id : String) (amount : ℚ) : Tx where
  id := id
  amount := -amount
  currency := "CHF"
  date := "2026-01-15"
  reference := "F17"
  paymentRef := ""
  partnerName := "Acme"
  description := ""
  accountId := some (.int 7)
  journalId := none
  accountName := some "Bank"
  journalName := none
  matchSuggestions := none

/-- Two invoices of different amounts, paid once each. -/
theorem batch_uses_each_once_two_payments :
    ((batchTransactions (handleReverseReconScoring .binary64 ∅ "now"
        [invoiceOf 501 100 "2026-01-13", invoiceOf 502 250 "2026-01-15"]
        [paymentOf "t1" 100, paymentOf "t2" 250]).2).map BatchTx.transactionId).Nodup ∧
      (batchDocs (handleReverseReconScoring .binary64 ∅ "now"
        [invoiceOf 501 100 "2026-01-13", invoiceOf 502 250 "2026-01-15"]
        [paymentOf "t1" 100, paymentOf "t2" 250]).2) = [.move 501, .move 502] :=
  ⟨((batch_uses_each_once_iff .binary64 ∅ "now" [invoiceOf 501 100 "2026-01-13", invoiceOf 502 250 "2026-01-15"]
      [paymentOf "t1" 100, paymentOf "t2" 250] (by decide)).mpr (by decide +kernel)).1, by decide +kernel⟩

/-- **Everything twice**: two invoices of one amount and two payments of it.  The first invoice takes both payments,
and the second one, which is of their day, takes them again. -/
theorem batch_pays_twice :
    ([invoiceOf 501 100 "2026-01-13", invoiceOf 502 100 "2026-01-15"].map ReconItem.id).Nodup ∧
      ([paymentOf "t1" 100, paymentOf "t2" 100].map Tx.id).Nodup ∧
      ¬((batchTransactions (handleReverseReconScoring .binary64 ∅ "now"
        [invoiceOf 501 100 "2026-01-13", invoiceOf 502 100 "2026-01-15"]
        [paymentOf "t1" 100, paymentOf "t2" 100]).2).map BatchTx.transactionId).Nodup ∧
      ¬(batchDocs (handleReverseReconScoring .binary64 ∅ "now"
        [invoiceOf 501 100 "2026-01-13", invoiceOf 502 100 "2026-01-15"]
        [paymentOf "t1" 100, paymentOf "t2" 100]).2).Nodup := by
  decide +kernel

end Pinnokio.Matching
