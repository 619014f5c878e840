import Mathlib.Data.Finset.Insert
import Pinnokio.Lib.Greedy
import Pinnokio.Matching.AmountIndex

/-!
# Suggestions for a batch of transactions

`compute_suggestions` scores the open transactions against all open documents at once.  Transactions that look like
the two sides of a transfer between accounts are set aside; all other pairs of a transaction and a document are
collected, sorted by score and assigned greedily, every document to one transaction at most.

* `assigned_eq` — the loop is the greedy assignment of `Pinnokio.Greedy`;
* `get?_computeSuggestions` — the result of one transaction;
* `computeSuggestions_stable` — **the result is exclusive and has no blocking pair**.
-/

namespace Pinnokio.Matching

open Pinnokio.Text Pinnokio.Numbers

/-- The documents of a batch. -/
structure OpenDocuments where
  apInvoices : List Candidate
  expenses : List Candidate
  arInvoices : List Candidate

/-- The documents of a kind. -/
def OpenDocuments.ofType (docs : OpenDocuments) : DocType → List Candidate
  | .invoice => docs.apInvoices
  | .expense => docs.expenses
  | .arInvoice => docs.arInvoices
  | .other _ => []

/-- A pair of the first phase, with the transaction and the document it comes from. -/
structure ScoredPair where
  tx : Tx
  type : DocType
  candidate : Candidate
  suggestion : Suggestion

namespace ScoredPair

variable (p : ScoredPair)

/-- `tx_id_str`. -/
def txId : String := p.tx.id

/-- `cand_key`. -/
def candKey : String := docKey p.type p.suggestion.internalId p.suggestion.id

/-- `score`. -/
def score : ℚ := p.suggestion.score

end ScoredPair

namespace BulkMatchingEngine

variable (e : BulkMatchingEngine)

/-! ### Transfers -/

/-- The days between two transactions, 99 if a date is missing; `none` if they are too far apart. -/
def transferDays (a b : Tx) : Option ℕ :=
  match parseDate a.date, parseDate b.date with
  | some dateA, some dateB =>
      let dayDiff := ((dateA : ℤ) - dateB).natAbs
      if e.config.transferDateToleranceDays < dayDiff then none else some dayDiff
  | _, _ => some 99

/-- The amounts that are compared, one of them converted if the currencies differ; `none` without a rate. -/
def transferAmounts (a b : Tx) : Option (ℚ × ℚ) :=
  let curA := normalizeCurrency a.currency
  let curB := normalizeCurrency b.currency
  if curA ≠ curB ∧ ¬e.fxRates.isEmpty then
    match positiveRate e.fxRates curB a.date with
    | some rate => some (|a.amount|, e.numbers.div |b.amount| rate)
    | none => (positiveRate e.fxRates curA a.date).map fun rate => (e.numbers.div |a.amount| rate, |b.amount|)
  else some (|a.amount|, |b.amount|)

/-- The part of the date in the score of a transfer. -/
def transferDateScore (A : Rounding) (dayDiff : ℕ) : ℚ :=
  if dayDiff = 0 then 1
  else if dayDiff = 1 then A.lit (85 / 100)
  else if dayDiff = 2 then A.lit (60 / 100)
  else if dayDiff ≤ 3 then A.lit (40 / 100)
  else A.lit (10 / 100)

/-- The score of two transactions as the sides of a transfer; `none` if a gate or the threshold stops them. -/
def transferScore (a b : Tx) : Option ℚ :=
  let A := e.numbers
  if a.amount = 0 ∨ b.amount = 0 ∨ 0 ≤ A.mul a.amount b.amount ∨ a.accountId = b.accountId then none
  else
    match e.transferDays a b, e.transferAmounts a b with
    | some dayDiff, some (compareA, compareB) =>
        let isFx := decide (normalizeCurrency a.currency ≠ normalizeCurrency b.currency)
        let diff := A.div |A.sub compareA compareB| (max compareA compareB)
        if (if isFx then A.lit (5 / 100) else e.config.transferAmountTolerance) < diff then none
        else
          let amountScore := if isFx then A.mul (A.sub 1 diff) (A.lit (90 / 100)) else A.sub 1 diff
          let textScore := textSimilarity e.python (buildTxText a) (buildTxText b)
          let score :=
            A.add
              (A.add (A.mul (A.lit (40 / 100)) amountScore) (A.mul (A.lit (30 / 100)) (transferDateScore A dayDiff)))
              (A.mul (A.lit (30 / 100)) textScore)
          if score < A.lit (70 / 100) then none else some score
    | _, _ => none

/-- The entry of a transaction whose counterpart is `other`. -/
def transferEntry (A : Rounding) (tx other : Tx) (score : ℚ) : TransferMatch where
  counterpartTxId := other.id
  counterpartJournal := other.accountName.getD ""
  counterpartAmount := other.amount
  counterpartCurrency := normalizeCurrency other.currency
  counterpartDate := other.date
  counterpartDescription := other.description
  isFx := decide (normalizeCurrency tx.currency ≠ normalizeCurrency other.currency)
  score := A.round 3 score

/-- A transaction keeps the counterpart with the better score; the score it has is a rounded one. -/
def noteTransfer (A : Rounding) (index : Dict String TransferMatch) (tx other : Tx) (score : ℚ) :
    Dict String TransferMatch :=
  match index.get? tx.id with
  | none => index.set tx.id (transferEntry A tx other score)
  | some m => if m.score < score then index.set tx.id (transferEntry A tx other score) else index

/-- Two transactions are compared. -/
def compareSides (index : Dict String TransferMatch) (sides : Tx × Tx) : Dict String TransferMatch :=
  match e.transferScore sides.1 sides.2 with
  | none => index
  | some score =>
      if sides.1.id ≠ "" ∧ sides.2.id ≠ "" then
        noteTransfer e.numbers (noteTransfer e.numbers index sides.1 sides.2 score) sides.2 sides.1 score
      else index

/-- The pairs of transactions, in the order of the two loops. -/
def allSides : List Tx → List (Tx × Tx)
  | [] => []
  | a :: rest => rest.map (fun b => (a, b)) ++ allSides rest

/-- `_build_transfer_index`. -/
def buildTransferIndex (transactions : List Tx) : Dict String TransferMatch :=
  if 500 < transactions.length then ∅ else (allSides transactions).foldl e.compareSides ∅

/-! ### Phase 1: all pairs -/

/-- The suggestion of a document for a transaction of the right sign, if it fits. -/
def batchSuggestion (tx : Tx) (candidate : Candidate) (type : DocType) : Option Suggestion :=
  let (score, details) := e.scorePair tx candidate (scoringType type)
  if e.config.minDisplayThreshold ≤ score ∧ e.numbers.lit (40 / 100) ≤ details.amount then
    some (e.buildSuggestion candidate score details type (normalizeCurrency tx.currency))
  else none

/-- The pairs of a transaction with the documents of a kind. -/
def pairsOfType (docs : OpenDocuments) (tx : Tx) (type : DocType) : List ScoredPair :=
  (e.getBucketCandidates |tx.amount| (e.buildAmountIndex (docs.ofType type))).filterMap fun c =>
    (e.batchSuggestion tx c type).map fun s => ⟨tx, type, c, s⟩

/-- The pairs of a transaction: outflows with supplier invoices and expenses, inflows with customer invoices. -/
def pairsOf (docs : OpenDocuments) (transfers : Dict String TransferMatch) (tx : Tx) : List ScoredPair :=
  if (transfers.get? tx.id).isSome then []
  else if tx.amount < 0 then e.pairsOfType docs tx .invoice ++ e.pairsOfType docs tx .expense
  else e.pairsOfType docs tx .arInvoice

/-- `all_pairs`. -/
def allPairs (transactions : List Tx) (docs : OpenDocuments) : List ScoredPair :=
  transactions.flatMap (e.pairsOf docs (e.buildTransferIndex transactions))

/-! ### Phase 2: assignment -/

/-- `all_pairs.sort(key=lambda p: p[2], reverse=True)`. -/
def sortPairs (pairs : List ScoredPair) : List ScoredPair :=
  pairs.insertionSort fun p q => q.score ≤ p.score

/-- The state of the loop. -/
structure Assignment where
  txMatches : Dict String (List Suggestion)
  claimed : Finset String

/-- `tx_matches.get(tx_id, [])`. -/
def Assignment.of (st : Assignment) (txId : String) : List Suggestion := (st.txMatches.get? txId).getD []

/-- A pair is looked at. -/
def assignPair (st : Assignment) (p : ScoredPair) : Assignment :=
  if p.candKey ∈ st.claimed then st
  else
    let current := st.of p.txId
    if e.config.maxSuggestions ≤ current.length then st
    else ⟨st.txMatches.set p.txId (current ++ [p.suggestion]), insert p.candKey st.claimed⟩

/-- The state after the loop. -/
def assigned (pairs : List ScoredPair) : Assignment := pairs.foldl e.assignPair ⟨∅, ∅⟩

/-! ### Phase 3: results -/

/-- The result of a transaction. -/
def resultOf (now : String) (transfers : Dict String TransferMatch) (st : Assignment) (tx : Tx) :
    MatchSuggestions where
  topMatches := if (transfers.get? tx.id).isSome then [] else st.of tx.id
  transferMatch := transfers.get? tx.id
  scoredAt := some now

/-- `compute_suggestions`. -/
def computeSuggestions (now : String) (transactions : List Tx) (docs : OpenDocuments) :
    Dict String MatchSuggestions :=
  let transfers := e.buildTransferIndex transactions
  let st := e.assigned (sortPairs (e.allPairs transactions docs))
  transactions.foldl (fun results tx => results.set tx.id (resultOf now transfers st tx)) ∅

section

variable {e} {transactions : List Tx} {docs : OpenDocuments} {now : String}

/-! ### What the loop computes -/

/-- The pairs the loop accepts. -/
def accepted (e : BulkMatchingEngine) (pairs : List ScoredPair) : List ScoredPair :=
  Greedy.assign ScoredPair.txId ScoredPair.candKey e.config.maxSuggestions pairs

theorem of_set (st : Assignment) (txId txId' : String) (ms : List Suggestion) (claimed : Finset String) :
    (Assignment.mk (st.txMatches.set txId ms) claimed).of txId' = if txId' = txId then ms else st.of txId' := by
  simp only [Assignment.of, Dict.get?_set]
  split <;> rfl

/-- **The loop is the greedy assignment**: the matches of a transaction are the accepted pairs of it, the claimed keys
are those of the accepted pairs. -/
theorem assigned_eq (pairs : List ScoredPair) :
    (∀ txId, (e.assigned pairs).of txId =
      (Greedy.share ScoredPair.txId txId (e.accepted pairs)).map ScoredPair.suggestion) ∧
    ∀ key, key ∈ (e.assigned pairs).claimed ↔ key ∈ (e.accepted pairs).map ScoredPair.candKey := by
  induction pairs using List.reverseRecOn with
  | nil => exact ⟨fun _ => rfl, fun _ => by simp [assigned, accepted, Greedy.assign]⟩
  | append_singleton pairs p ih =>
      obtain ⟨hof, hclaimed⟩ := ih
      have hassigned : e.assigned (pairs ++ [p]) = e.assignPair (e.assigned pairs) p := by simp [assigned]
      have haccepted : e.accepted (pairs ++ [p]) =
          Greedy.consider ScoredPair.txId ScoredPair.candKey e.config.maxSuggestions (e.accepted pairs) p :=
        Greedy.assign_concat pairs p
      have hroom : (Greedy.share ScoredPair.txId p.txId (e.accepted pairs)).length =
          ((e.assigned pairs).of p.txId).length := by
        rw [hof, List.length_map]
      rw [hassigned, haccepted]
      simp only [assignPair, Greedy.consider, hclaimed, hroom]
      split
      · exact ⟨hof, hclaimed⟩
      · split
        · exact ⟨hof, hclaimed⟩
        · constructor
          · intro txId
            rw [of_set, Greedy.share_concat]
            by_cases htx : p.txId = txId
            · subst htx
              rw [if_pos rfl, if_pos rfl, List.map_append, hof]
              rfl
            · rw [if_neg (Ne.symm htx), if_neg htx, hof]
          · intro key
            rw [Finset.mem_insert, hclaimed, List.map_append, List.mem_append, or_comm]
            exact or_congr_right List.mem_singleton.symm

/-- The result of a transaction. -/
theorem get?_computeSuggestions (hids : (transactions.map Tx.id).Nodup) {tx : Tx} (htx : tx ∈ transactions) :
    (e.computeSuggestions now transactions docs).get? tx.id =
      some (resultOf now (e.buildTransferIndex transactions)
        (e.assigned (sortPairs (e.allPairs transactions docs))) tx) := by
  let result := resultOf now (e.buildTransferIndex transactions)
    (e.assigned (sortPairs (e.allPairs transactions docs)))
  have hfold : e.computeSuggestions now transactions docs =
      Dict.setAll ∅ (transactions.map fun tx => (tx.id, result tx)) := by
    rw [Dict.setAll, List.foldl_map]
    rfl
  have hkeys : ((transactions.map fun tx => (tx.id, result tx)).map Prod.fst).Nodup := by
    rw [List.map_map]
    exact hids
  have hentry : (tx.id, result tx) ∈ transactions.map fun tx => (tx.id, result tx) :=
    List.mem_map.mpr ⟨tx, htx, rfl⟩
  rw [hfold, Dict.get?_setAll _ hkeys, (Dict.getList_eq_some_iff hkeys).mpr hentry]
  rfl

/-! ### The pairs of the first phase -/

/-- The kinds of documents a transaction is compared with. -/
def Suits (tx : Tx) (type : DocType) : Prop :=
  tx.amount < 0 ∧ (type = .invoice ∨ type = .expense) ∨ ¬tx.amount < 0 ∧ type = .arInvoice

theorem mem_pairsOfType {tx : Tx} {type : DocType} {p : ScoredPair} :
    p ∈ e.pairsOfType docs tx type ↔
      p.tx = tx ∧ p.type = type ∧
        p.candidate ∈ e.getBucketCandidates |tx.amount| (e.buildAmountIndex (docs.ofType type)) ∧
        e.batchSuggestion tx p.candidate type = some p.suggestion := by
  simp only [pairsOfType, List.mem_filterMap, Option.map_eq_some_iff]
  constructor
  · intro h
    obtain ⟨c, hc, s, hs, rfl⟩ := h
    exact ⟨rfl, rfl, hc, hs⟩
  · intro h
    obtain ⟨rfl, rfl, hc, hs⟩ := h
    exact ⟨p.candidate, hc, p.suggestion, hs, rfl⟩

/-- The pairs that are collected. -/
theorem mem_allPairs {p : ScoredPair} :
    p ∈ e.allPairs transactions docs ↔
      p.tx ∈ transactions ∧ (e.buildTransferIndex transactions).get? p.tx.id = none ∧ Suits p.tx p.type ∧
        p.candidate ∈ e.getBucketCandidates |p.tx.amount| (e.buildAmountIndex (docs.ofType p.type)) ∧
        e.batchSuggestion p.tx p.candidate p.type = some p.suggestion := by
  simp only [allPairs, List.mem_flatMap, pairsOf]
  constructor
  · intro h
    obtain ⟨tx, htx, hp⟩ := h
    split at hp
    · cases hp
    · next hnone =>
      have hnone := Option.not_isSome_iff_eq_none.mp hnone
      split at hp
      · next hdebit =>
        rcases List.mem_append.mp hp with hp | hp
        · obtain ⟨rfl, htype, hc, hs⟩ := mem_pairsOfType.mp hp
          exact ⟨htx, hnone, Or.inl ⟨hdebit, Or.inl htype⟩, htype ▸ hc, htype ▸ hs⟩
        · obtain ⟨rfl, htype, hc, hs⟩ := mem_pairsOfType.mp hp
          exact ⟨htx, hnone, Or.inl ⟨hdebit, Or.inr htype⟩, htype ▸ hc, htype ▸ hs⟩
      · next hcredit =>
        obtain ⟨rfl, htype, hc, hs⟩ := mem_pairsOfType.mp hp
        exact ⟨htx, hnone, Or.inr ⟨hcredit, htype⟩, htype ▸ hc, htype ▸ hs⟩
  · intro h
    obtain ⟨htx, hnone, hsuits, hc, hs⟩ := h
    refine ⟨p.tx, htx, ?_⟩
    have hp : p ∈ e.pairsOfType docs p.tx p.type := mem_pairsOfType.mpr ⟨rfl, rfl, hc, hs⟩
    rw [if_neg (by rw [hnone]; exact Bool.false_ne_true)]
    rcases hsuits with ⟨hdebit, htype⟩ | ⟨hcredit, htype⟩
    · rw [if_pos hdebit, List.mem_append]
      rcases htype with htype | htype
      · exact Or.inl (htype ▸ hp)
      · exact Or.inr (htype ▸ hp)
    · rw [if_neg hcredit]
      exact htype ▸ hp

/-- A document that arrives alone makes the suggestion it would make in a batch, to transactions of the right sign. -/
theorem suggestionFor_eq (tx : Tx) (c : Candidate) (type : DocType) : e.suggestionFor c type tx =
    if signMatches type tx then e.batchSuggestion tx c type else none := rfl

/-- The id a document goes by: its id, its job id if it has none, else its label. -/
def docId (type : DocType) (c : Candidate) : String :=
  let label :=
    orElse (orElse c.displayRef (if type = .invoice then c.name else c.employeeName))
      (orElse c.displayName (if type = .invoice then c.partnerName else c.description))
  (((c.id.or c.jobId).or (.str "")).or (.str label)).toStr

/-- What a suggestion tells of the document it is made of. -/
theorem batchSuggestion_eq_some {tx : Tx} {c : Candidate} {type : DocType} {s : Suggestion}
    (h : e.batchSuggestion tx c type = some s) :
    s.type = type ∧ docKey type s.internalId s.id = type.text ++ ":" ++ docId type c := by
  simp only [batchSuggestion] at h
  split at h
  · cases h
    exact ⟨rfl, rfl⟩
  · cases h

/-- The key of a pair is the key of its suggestion, and it names the kind and the id of the document. -/
theorem candKey_of_mem {p : ScoredPair} (hp : p ∈ e.allPairs transactions docs) :
    p.candKey = p.suggestion.key ∧ p.candKey = p.type.text ++ ":" ++ docId p.type p.candidate := by
  obtain ⟨htype, hkey⟩ := batchSuggestion_eq_some (mem_allPairs.mp hp).2.2.2.2
  exact ⟨by rw [Suggestion.key, htype]; rfl, hkey⟩

/-- Keys of different kinds are different. -/
theorem eq_of_key_eq {tx tx' : Tx} {type type' : DocType} (h : Suits tx type) (h' : Suits tx' type') {a b : String}
    (hkey : type.text ++ ":" ++ a = type'.text ++ ":" ++ b) : type = type' ∧ a = b := by
  have hkind : ∀ {tx : Tx} {type : DocType}, Suits tx type →
      type = .invoice ∨ type = .expense ∨ type = .arInvoice := by
    intro tx type h
    rcases h with ⟨-, h | h⟩ | ⟨-, h⟩
    · exact Or.inl h
    · exact Or.inr (Or.inl h)
    · exact Or.inr (Or.inr h)
  have hchars := congrArg String.toList hkey
  rcases hkind h with rfl | rfl | rfl <;> rcases hkind h' with rfl | rfl | rfl <;>
    first
    | exact ⟨rfl, append_left_cancel hkey⟩
    | simp [DocType.text] at hchars

/-! ### The assignment -/

/-- The matches of a transaction in the results. -/
def matchesOf (results : Dict String MatchSuggestions) (tx : Tx) : List Suggestion :=
  ((results.get? tx.id).map MatchSuggestions.topMatches).getD []

/-- The transfer of a transaction in the results. -/
def transferOf (results : Dict String MatchSuggestions) (tx : Tx) : Option TransferMatch :=
  (results.get? tx.id).bind MatchSuggestions.transferMatch

/-- The documents of a kind have distinct ids. -/
def DistinctIds (docs : OpenDocuments) : Prop := ∀ type, ((docs.ofType type).map (docId type)).Nodup

/-- An exclusive assignment that no pair blocks. -/
structure StableAssignment (e : BulkMatchingEngine) (transactions : List Tx) (docs : OpenDocuments)
    (results : Dict String MatchSuggestions) : Prop where
  exclusive : ∀ tx ∈ transactions, ∀ tx' ∈ transactions, ∀ m ∈ matchesOf results tx, ∀ m' ∈ matchesOf results tx',
    m.key = m'.key → tx = tx'
  once : ∀ tx ∈ transactions, ((matchesOf results tx).map Suggestion.key).Nodup
  bounded : ∀ tx ∈ transactions, (matchesOf results tx).length ≤ e.config.maxSuggestions
  sorted : ∀ tx ∈ transactions, (matchesOf results tx).Pairwise fun m m' => m'.score ≤ m.score
  debit : ∀ tx ∈ transactions, tx.amount < 0 → ∀ m ∈ matchesOf results tx, m.type = .invoice ∨ m.type = .expense
  credit : ∀ tx ∈ transactions, ¬tx.amount < 0 → ∀ m ∈ matchesOf results tx, m.type = .arInvoice
  transfer : ∀ tx ∈ transactions, (transferOf results tx).isSome → matchesOf results tx = []
  noBlocking : ∀ p ∈ e.allPairs transactions docs, p.suggestion ∉ matchesOf results p.tx →
    (∃ q ∈ e.allPairs transactions docs, q.suggestion ∈ matchesOf results q.tx ∧ q.type = p.type ∧
        docId q.type q.candidate = docId p.type p.candidate ∧ (DistinctIds docs → q.candidate = p.candidate) ∧
        p.suggestion.score ≤ q.suggestion.score) ∨
      (matchesOf results p.tx).length = e.config.maxSuggestions ∧
        ∀ m ∈ matchesOf results p.tx, p.suggestion.score ≤ m.score

theorem pairwise_sortPairs (pairs : List ScoredPair) : (sortPairs pairs).Pairwise fun p q => q.score ≤ p.score :=
  TopK.pairwise_insertionSort ScoredPair.score pairs

/-- The pairs that are accepted. -/
def batchAccepted (e : BulkMatchingEngine) (transactions : List Tx) (docs : OpenDocuments) : List ScoredPair :=
  e.accepted (sortPairs (e.allPairs transactions docs))

theorem mem_allPairs_of_accepted {p : ScoredPair} (hp : p ∈ e.batchAccepted transactions docs) :
    p ∈ e.allPairs transactions docs :=
  (List.mem_insertionSort _).mp ((Greedy.assign_sublist _).subset hp)

/-- A transaction is its id. -/
theorem eq_of_id_eq (hids : (transactions.map Tx.id).Nodup) {tx tx' : Tx} (htx : tx ∈ transactions)
    (htx' : tx' ∈ transactions) (hid : tx.id = tx'.id) : tx = tx' :=
  List.inj_on_of_nodup_map hids htx htx' hid

/-- The matches of a transaction are its accepted pairs: a transaction with a transfer has none. -/
theorem matchesOf_eq (hids : (transactions.map Tx.id).Nodup) {tx : Tx} (htx : tx ∈ transactions) :
    matchesOf (e.computeSuggestions now transactions docs) tx =
      (Greedy.share ScoredPair.txId tx.id (e.batchAccepted transactions docs)).map ScoredPair.suggestion := by
  rw [matchesOf, get?_computeSuggestions hids htx]
  show (if ((e.buildTransferIndex transactions).get? tx.id).isSome then []
    else (e.assigned (sortPairs (e.allPairs transactions docs))).of tx.id) = _
  split
  · next htransfer =>
    have hempty : Greedy.share ScoredPair.txId tx.id (e.batchAccepted transactions docs) = [] := by
      refine List.eq_nil_iff_forall_not_mem.mpr fun p hp => ?_
      obtain ⟨hp, hid⟩ := Greedy.mem_share.mp hp
      obtain ⟨_, hnone, _⟩ := mem_allPairs.mp (mem_allPairs_of_accepted hp)
      have hid : p.tx.id = tx.id := hid
      rw [hid] at hnone
      rw [hnone] at htransfer
      cases htransfer
    rw [hempty]
    rfl
  · exact (assigned_eq _).1 tx.id

/-- A match comes from an accepted pair of the transaction. -/
theorem mem_matchesOf (hids : (transactions.map Tx.id).Nodup) {tx : Tx} (htx : tx ∈ transactions) {m : Suggestion} :
    m ∈ matchesOf (e.computeSuggestions now transactions docs) tx ↔
      ∃ p ∈ e.batchAccepted transactions docs, p.tx = tx ∧ p.suggestion = m := by
  rw [matchesOf_eq hids htx, List.mem_map]
  constructor
  · intro h
    obtain ⟨p, hp, hm⟩ := h
    obtain ⟨hp, hid⟩ := Greedy.mem_share.mp hp
    have hptx := (mem_allPairs.mp (mem_allPairs_of_accepted hp)).1
    exact ⟨p, hp, eq_of_id_eq hids hptx htx hid, hm⟩
  · intro h
    obtain ⟨p, hp, rfl, hm⟩ := h
    exact ⟨p, Greedy.mem_share.mpr ⟨hp, rfl⟩, hm⟩

/-- Pairs that are accepted for the same key are the same. -/
theorem eq_of_candKey_eq {p q : ScoredPair} (hp : p ∈ e.batchAccepted transactions docs)
    (hq : q ∈ e.batchAccepted transactions docs) (hkey : p.suggestion.key = q.suggestion.key) : p = q := by
  refine List.inj_on_of_nodup_map (Greedy.nodup_items _) hp hq ?_
  rw [(candKey_of_mem (mem_allPairs_of_accepted hp)).1, (candKey_of_mem (mem_allPairs_of_accepted hq)).1, hkey]

/-- A key is in the matches of one transaction only. -/
theorem exclusive_matchesOf (hids : (transactions.map Tx.id).Nodup) {tx tx' : Tx} (htx : tx ∈ transactions)
    (htx' : tx' ∈ transactions) {m m' : Suggestion}
    (hm : m ∈ matchesOf (e.computeSuggestions now transactions docs) tx)
    (hm' : m' ∈ matchesOf (e.computeSuggestions now transactions docs) tx') (hkey : m.key = m'.key) : tx = tx' := by
  obtain ⟨p, hp, rfl, rfl⟩ := (mem_matchesOf hids htx).mp hm
  obtain ⟨q, hq, rfl, rfl⟩ := (mem_matchesOf hids htx').mp hm'
  rw [eq_of_candKey_eq hp hq hkey]

theorem nodup_matchesOf (hids : (transactions.map Tx.id).Nodup) {tx : Tx} (htx : tx ∈ transactions) :
    ((matchesOf (e.computeSuggestions now transactions docs) tx).map Suggestion.key).Nodup := by
  rw [matchesOf_eq hids htx, List.map_map]
  have hkeys : ∀ p ∈ Greedy.share ScoredPair.txId tx.id (e.batchAccepted transactions docs),
      (Suggestion.key ∘ ScoredPair.suggestion) p = p.candKey :=
    fun p hp => (candKey_of_mem (mem_allPairs_of_accepted (Greedy.mem_share.mp hp).1)).1.symm
  rw [List.map_congr_left hkeys]
  exact (Greedy.nodup_items _).sublist (List.filter_sublist.map _)

theorem pairwise_matchesOf (hids : (transactions.map Tx.id).Nodup) {tx : Tx} (htx : tx ∈ transactions) :
    (matchesOf (e.computeSuggestions now transactions docs) tx).Pairwise fun m m' => m'.score ≤ m.score := by
  rw [matchesOf_eq hids htx, List.pairwise_map]
  exact ((pairwise_sortPairs _).sublist (Greedy.assign_sublist _)).sublist List.filter_sublist

/-- The kind of a match suits the sign of the transaction. -/
theorem suits_of_mem_matchesOf (hids : (transactions.map Tx.id).Nodup) {tx : Tx} (htx : tx ∈ transactions)
    {m : Suggestion} (hm : m ∈ matchesOf (e.computeSuggestions now transactions docs) tx) : Suits tx m.type := by
  obtain ⟨p, hp, rfl, rfl⟩ := (mem_matchesOf hids htx).mp hm
  obtain ⟨_, _, hsuits, _, hs⟩ := mem_allPairs.mp (mem_allPairs_of_accepted hp)
  rw [(batchSuggestion_eq_some hs).1]
  exact hsuits

/-- A pair that is not assigned found its document with a transaction at least as good, or its own transaction full of
matches at least as good. -/
theorem not_blocking (hids : (transactions.map Tx.id).Nodup) {p : ScoredPair}
    (hp : p ∈ e.allPairs transactions docs)
    (hout : p.suggestion ∉ matchesOf (e.computeSuggestions now transactions docs) p.tx) :
    (∃ q ∈ e.allPairs transactions docs,
        q.suggestion ∈ matchesOf (e.computeSuggestions now transactions docs) q.tx ∧ q.type = p.type ∧
        docId q.type q.candidate = docId p.type p.candidate ∧ (DistinctIds docs → q.candidate = p.candidate) ∧
        p.suggestion.score ≤ q.suggestion.score) ∨
      (matchesOf (e.computeSuggestions now transactions docs) p.tx).length = e.config.maxSuggestions ∧
        ∀ m ∈ matchesOf (e.computeSuggestions now transactions docs) p.tx, p.suggestion.score ≤ m.score := by
  obtain ⟨htx, _, hsuits, hc, _⟩ := mem_allPairs.mp hp
  have hsorted := pairwise_sortPairs (e.allPairs transactions docs)
  have hmem : p ∈ sortPairs (e.allPairs transactions docs) := (List.mem_insertionSort _).mpr hp
  rcases Greedy.stable ScoredPair.txId ScoredPair.candKey e.config.maxSuggestions ScoredPair.score hsorted hmem with
    hin | ⟨q, hq, hkey, hle⟩ | ⟨hfull, hall⟩
  · exact absurd ((mem_matchesOf hids htx).mpr ⟨p, hin, rfl, rfl⟩) hout
  · left
    have hqp := mem_allPairs_of_accepted hq
    obtain ⟨hqtx, _, hqsuits, hqc, _⟩ := mem_allPairs.mp hqp
    rw [(candKey_of_mem hqp).2, (candKey_of_mem hp).2] at hkey
    obtain ⟨htype, hid⟩ := eq_of_key_eq hqsuits hsuits hkey
    refine ⟨q, hqp, (mem_matchesOf hids hqtx).mpr ⟨q, hq, rfl, rfl⟩, htype, hid, ?_, hle⟩
    intro hdistinct
    rw [htype] at hqc hid
    exact List.inj_on_of_nodup_map (hdistinct p.type) (mem_getBucketCandidates.mp hqc).2.1
      (mem_getBucketCandidates.mp hc).2.1 hid
  · right
    rw [matchesOf_eq hids htx]
    refine ⟨by rw [List.length_map]; exact hfull, ?_⟩
    intro m hm
    obtain ⟨q, hq, rfl⟩ := List.mem_map.mp hm
    exact hall q hq

/-- **The result is exclusive and has no blocking pair.** -/
theorem computeSuggestions_stable (e : BulkMatchingEngine) (now : String) (transactions : List Tx)
    (docs : OpenDocuments) (hids : (transactions.map Tx.id).Nodup) :
    StableAssignment e transactions docs (e.computeSuggestions now transactions docs) where
  exclusive _ htx _ htx' _ hm _ hm' hkey := exclusive_matchesOf hids htx htx' hm hm' hkey
  once tx htx := nodup_matchesOf hids htx
  bounded tx htx := by
    rw [matchesOf_eq hids htx, List.length_map]
    exact Greedy.length_share_le _ _
  sorted tx htx := pairwise_matchesOf hids htx
  debit tx htx hdebit m hm := by
    rcases suits_of_mem_matchesOf hids htx hm with ⟨-, htype⟩ | ⟨hcredit, -⟩
    · exact htype
    · exact absurd hdebit hcredit
  credit tx htx hcredit m hm := by
    rcases suits_of_mem_matchesOf hids htx hm with ⟨hdebit, -⟩ | ⟨-, htype⟩
    · exact absurd hdebit hcredit
    · exact htype
  transfer tx htx htransfer := by
    rw [transferOf, get?_computeSuggestions hids htx] at htransfer
    rw [matchesOf, get?_computeSuggestions hids htx]
    exact if_pos htransfer
  noBlocking p hp hout := not_blocking hids hp hout

/-- An open invoice of a supplier. -/
def invoiceDue (id : ℤ) (amount : ℚ) (currency date : String) : Candidate where
  amount := amount
  currency := currency
  invoiceDate := date
  expenseDate := ""
  date := date
  partnerName := "Acme"
  ref := ""
  name := ""
  paymentReference := ""
  description := ""
  label := ""
  employeeName := ""
  displayName := ""
  displayRef := ""
  displayAmount := amount
  displayDate := date
  id := .int id
  jobId := .none
  fileId := .none

/-- A movement on an account in Swiss francs that names the supplier. -/
def movement (id : String) (amount : ℚ) (account : ℤ) (date : String) : Tx where
  id := id
  amount := amount
  currency := "CHF"
  date := date
  reference := ""
  paymentRef := ""
  partnerName := "Acme"
  description := ""
  accountId := some (.int account)
  journalId := none
  accountName := none
  journalName := none
  matchSuggestions := none

/-- Two payments compete for one invoice; the one of its day gets it. -/
theorem computeSuggestions_stable_competing :
    let e : BulkMatchingEngine := .withRates .binary64 ∅
    let transactions := [movement "601" (-1000) 7 "2026-03-05", movement "602" (-1000) 7 "2026-03-01"]
    let docs : OpenDocuments := ⟨[invoiceDue 3001 1000 "CHF" "2026-03-05"], [], []⟩
    let results := e.computeSuggestions "now" transactions docs
    StableAssignment e transactions docs results ∧
      transactions.map (fun tx => (matchesOf results tx).map Suggestion.key) = [["invoice:3001"], []] :=
  ⟨computeSuggestions_stable _ _ _ _ (by decide), by decide +kernel⟩

end

end BulkMatchingEngine

end Pinnokio.Matching
