import Pinnokio.Banking.BankCache
import Pinnokio.Matching.Streaming

/-!
# Automatic reconciliation of a new document

A new document is offered to the transactions that are to be processed, and those that take it are sent to the banker
if their best suggestion is then of high confidence.  The best suggestion is read back from the list of the
transaction, where it may be an older one; and the same document may be the best one of several transactions.

* `placeMatch_eq` — a new suggestion enters a list at its place, the entries in front of it and behind it stay;
* `autoDispatch_eq` — the transactions that are dispatched, one by one;
* `dispatch_iff` — **only the new document is dispatched, and for one transaction** exactly when it is ahead of every
  entry of high confidence that stays, wherever it is taken, and is of high confidence itself for one taker at most.
-/

namespace Pinnokio.Banking

open Pinnokio.Matching Pinnokio.Matching.BulkMatchingEngine Pinnokio.Text Pinnokio.TopK

/-! ### The place of a suggestion -/

section Place

variable {maxSuggestions i : ℕ} {ms : List Suggestion} {new : Suggestion}

/-- The place that a new suggestion takes: that of its own older entry if it beats it, else the end if there is room,
else that of the weakest entry if it beats that one. -/
def placeAt (maxSuggestions : ℕ) (ms : List Suggestion) (new : Suggestion) : Option ℕ :=
  match ms.find? fun m => m.key = new.key with
  | some m => if m.score < new.score then some (ms.findIdx fun m => m.key = new.key) else none
  | none =>
      if ms.length < maxSuggestions then some ms.length
      else
        match minScore ms with
        | none => none
        | some worst => if worst < new.score then some (worstIdx ms) else none

/-- **A suggestion enters a list at its place.** -/
theorem placeMatch_eq (maxSuggestions : ℕ) (ms : List Suggestion) (new : Suggestion) :
    placeMatch maxSuggestions ms new =
      (placeAt maxSuggestions ms new).map fun i => ms.take i ++ new :: ms.drop (i + 1) := by
  have hset : ∀ i, i < ms.length → ms.set i new = ms.take i ++ new :: ms.drop (i + 1) := by
    intro i hi
    rw [List.set_eq_take_append_cons_drop, if_pos hi]
  rw [placeMatch, placeAt]
  cases hfind : ms.find? fun m => m.key = new.key with
  | some m =>
      have hkey := List.find?_some hfind
      have hlt : (ms.findIdx fun m => m.key = new.key) < ms.length :=
        List.findIdx_lt_length_of_exists ⟨m, List.mem_of_find?_eq_some hfind, hkey⟩
      dsimp only
      split
      · exact congrArg some (hset _ hlt)
      · rfl
  | none =>
      dsimp only
      split
      · show some (ms ++ [new]) = some (ms.take ms.length ++ new :: ms.drop (ms.length + 1))
        rw [List.take_length, List.drop_of_length_le (by omega)]
      · cases hmin : minScore ms with
        | none => rfl
        | some worst =>
            dsimp only
            split
            · exact congrArg some (hset _ (worstIdx_lt hmin))
            · rfl

/-- In front of its place there is no entry of its document. -/
theorem not_mem_take_placeAt (h : placeAt maxSuggestions ms new = some i) : new ∉ ms.take i := by
  intro hmem
  rw [placeAt] at h
  cases hfind : ms.find? fun m => m.key = new.key with
  | none => exact List.find?_eq_none.mp hfind new (List.mem_of_mem_take hmem) (decide_eq_true rfl)
  | some m =>
      rw [hfind] at h
      dsimp only at h
      split at h
      · cases h
        obtain ⟨j, hj, hget⟩ := List.mem_iff_getElem.mp hmem
        rw [List.length_take] at hj
        rw [List.getElem_take] at hget
        have hlt : j < ms.findIdx fun m => m.key = new.key := by omega
        have hbefore := List.not_of_lt_findIdx hlt
        rw [hget] at hbefore
        exact absurd (decide_eq_true rfl) (Bool.not_eq_true _ ▸ hbefore)
      · cases h

end Place

/-! ### What is dispatched -/

section Dispatch

variable {d : Arrival} {items : List BankTransaction} {item : BankTransaction}

/-- The transactions as the engine sees them. -/
def txsOf (items : List BankTransaction) : List Tx := items.map BankTransaction.toTx

/-- The suggestion that a document makes to a transaction of the list. -/
def offerOf (d : Arrival) (items : List BankTransaction) (item : BankTransaction) : Option Suggestion :=
  d.offerTo (txsOf items) item.toTx

/-- The list of a transaction after it has taken a suggestion at a place. -/
def entered (item : BankTransaction) (new : Suggestion) (i : ℕ) : List Suggestion :=
  sortByScore (item.toTx.topMatches.take i ++ new :: item.toTx.topMatches.drop (i + 1))

/-- A transaction after it has taken a suggestion at a place. -/
def updatedAt (d : Arrival) (item : BankTransaction) (new : Suggestion) (i : ℕ) : BankTransaction :=
  { item with matchSuggestions := some { existing item.toTx with
      topMatches := entered item new i
      scoredAt := some d.now } }

/-- Where a transaction takes the document. -/
def takenAt (d : Arrival) (items : List BankTransaction) (item : BankTransaction) : Option (Suggestion × ℕ) :=
  (offerOf d items item).bind fun new =>
    (placeAt d.engine.config.maxSuggestions item.toTx.topMatches new).map fun i => (new, i)

/-- What is dispatched for a transaction. -/
def entryOf (d : Arrival) (items : List BankTransaction) (item : BankTransaction) : Option DispatchEntry :=
  (takenAt d items item).bind fun p => dispatchOf d.engine.config (updatedAt d item p.1 p.2)

/-- The document is offered to each transaction. -/
theorem updateTransactions_eq (d : Arrival) (items : List BankTransaction) :
    updateTransactions d items = items.map fun item =>
      match takenAt d items item with
      | none => (item, false)
      | some p => (updatedAt d item p.1 p.2, true) := by
  rw [updateTransactions, updateSuggestionsWithCandidate, List.map_map, List.zipWith_map_right, List.zipWith_self]
  refine List.map_congr_left fun item _ => ?_
  rw [takenAt, offerOf, Arrival.offerTo, txsOf, Function.comp_apply]
  cases (d.engine.scoreSingleCandidate d.candidate d.type (items.map BankTransaction.toTx)).get? item.id with
  | none => rfl
  | some new =>
      have htop : item.toTx.topMatches = (existing item.toTx).topMatches := rfl
      rw [Option.bind_some, htop]
      dsimp only
      rw [take, placeMatch_eq]
      cases placeAt d.engine.config.maxSuggestions (existing item.toTx).topMatches new with
      | none => rfl
      | some i => rfl

/-- The transactions that have taken the document. -/
theorem updated_eq (d : Arrival) (items : List BankTransaction) :
    ((updateTransactions d items).filter Prod.snd).map Prod.fst =
      items.filterMap fun item => (takenAt d items item).map fun p => updatedAt d item p.1 p.2 := by
  have hgen (l : List BankTransaction) :
      ((l.map fun item => match takenAt d items item with
        | none => (item, false)
        | some p => (updatedAt d item p.1 p.2, true)).filter Prod.snd).map Prod.fst =
      l.filterMap fun item => (takenAt d items item).map fun p => updatedAt d item p.1 p.2 := by
    induction l with
    | nil => rfl
    | cons item l ih =>
        rw [List.map_cons, List.filterMap_cons, ← ih]
        cases takenAt d items item <;> rfl
  rw [updateTransactions_eq]
  exact hgen items

/-- **What is dispatched**, transaction by transaction. -/
theorem autoDispatch_eq (lower : String → String) (r : Redis) (userId companyId : String) (d : SingleCandidate) :
    let items := toProcessOf (getCachedData lower r userId companyId).2
    (triggerSingleCandidateScoring lower r userId companyId d).2.autoDispatch =
      items.filterMap (entryOf (d.arrival items) items) := by
  intro items
  have hentries : (((updateTransactions (d.arrival items) items).filter Prod.snd).map Prod.fst).filterMap
      (dispatchOf (d.arrival items).engine.config) = items.filterMap (entryOf (d.arrival items) items) := by
    rw [updated_eq, List.filterMap_filterMap]
    refine List.filterMap_congr fun item _ => ?_
    rw [entryOf]
    cases takenAt (d.arrival items) items item <;> rfl
  rw [triggerSingleCandidateScoring]
  split
  · next r' hget =>
    have hitems : items = [] := by
      show toProcessOf (getCachedData lower r userId companyId).2 = []
      rw [hget]
      rfl
    rw [hitems]
    rfl
  · next r' cached hget =>
    have hitems : toProcessOf (some cached) = items := by
      show _ = toProcessOf (getCachedData lower r userId companyId).2
      rw [hget]
    dsimp only
    rw [hitems, ← hentries]
    split
    · next hempty =>
      rw [List.isEmpty_iff.mp hempty]
      rfl
    · split
      · next hempty =>
        rw [List.isEmpty_iff.mp hempty]
        rfl
      · rfl

theorem mem_dispatchOf {config : BulkMatchingConfig} {tx : BankTransaction} {e : DispatchEntry} :
    e ∈ dispatchOf config tx ↔
      e.tx = tx ∧ tx.toTx.topMatches.head? = some e.suggestion ∧ config.highConfidence ≤ e.suggestion.score := by
  rw [dispatchOf]
  cases tx.toTx.topMatches with
  | nil => simp
  | cons top rest =>
      dsimp only
      split
      · next hhigh =>
        constructor
        · intro h
          cases h
          exact ⟨rfl, rfl, hhigh⟩
        · intro h
          obtain ⟨htx, htop, -⟩ := h
          cases e
          cases htx
          cases htop
          rfl
      · next hlow =>
        constructor
        · intro h
          cases h
        · intro h
          obtain ⟨-, htop, hhigh⟩ := h
          cases htop
          exact absurd hhigh hlow

/-! ### Only the new document -/

/-- Where a document is taken it is ahead of the entries of high confidence that stay: strictly of those in front of its
place. -/
def Ahead (d : Arrival) (items : List BankTransaction) (item : BankTransaction) : Prop :=
  ∀ p ∈ takenAt d items item,
    (∀ m ∈ item.toTx.topMatches.take p.2, d.engine.config.highConfidence ≤ m.score → m.score < p.1.score) ∧
    ∀ m ∈ item.toTx.topMatches.drop (p.2 + 1), d.engine.config.highConfidence ≤ m.score → m.score ≤ p.1.score

/-- A document is taken with high confidence. -/
def takenHigh (d : Arrival) (items : List BankTransaction) (item : BankTransaction) : Bool :=
  (takenAt d items item).any fun p => d.engine.config.highConfidence ≤ p.1.score

theorem takenAt_eq_some {new : Suggestion} {i : ℕ} (h : takenAt d items item = some (new, i)) :
    offerOf d items item = some new ∧ placeAt d.engine.config.maxSuggestions item.toTx.topMatches new = some i := by
  obtain ⟨new', hoffer, hplace⟩ := Option.bind_eq_some_iff.mp h
  obtain ⟨i', hi, heq⟩ := Option.map_eq_some_iff.mp hplace
  cases heq
  exact ⟨hoffer, hi⟩

theorem mem_entryOf {new : Suggestion} {i : ℕ} (h : takenAt d items item = some (new, i)) {e : DispatchEntry} :
    e ∈ entryOf d items item ↔ e.tx = updatedAt d item new i ∧
      (entered item new i).head? = some e.suggestion ∧ d.engine.config.highConfidence ≤ e.suggestion.score := by
  rw [entryOf, h]
  exact mem_dispatchOf

/-- **When a transaction is dispatched with the new document only.** -/
theorem ahead_iff : (∀ e ∈ entryOf d items item, offerOf d items e.tx = some e.suggestion) ↔ Ahead d items item := by
  rw [Ahead]
  cases htaken : takenAt d items item with
  | none =>
      rw [entryOf, htaken]
      simp
  | some p =>
      obtain ⟨new, i⟩ := p
      obtain ⟨hoffer, hplace⟩ := takenAt_eq_some htaken
      have hsort := head?_insertionSort_eq_iff Suggestion.score (r := item.toTx.topMatches.drop (i + 1))
        (not_mem_take_placeAt hplace) d.engine.config.highConfidence
      simp only [Option.mem_some_iff, forall_eq']
      rw [← hsort]
      constructor
      · intro h m hm hhigh
        have he := h ⟨updatedAt d item new i, m⟩ ((mem_entryOf htaken).mpr ⟨rfl, hm, hhigh⟩)
        have hsame : offerOf d items (updatedAt d item new i) = offerOf d items item := rfl
        rw [hsame, hoffer] at he
        exact (Option.some.inj he).symm
      · intro h e he
        obtain ⟨htx, hhead, hhigh⟩ := (mem_entryOf htaken).mp he
        have hsame : offerOf d items (updatedAt d item new i) = offerOf d items item := rfl
        rw [htx, hsame, hoffer, h e.suggestion hhead hhigh]

/-- Ahead of all others, a document is dispatched for the transactions that take it with high confidence. -/
theorem isSome_entryOf (h : Ahead d items item) : (entryOf d items item).isSome = takenHigh d items item := by
  rw [takenHigh]
  cases htaken : takenAt d items item with
  | none =>
      rw [entryOf, htaken]
      rfl
  | some p =>
      obtain ⟨new, i⟩ := p
      obtain ⟨hoffer, hplace⟩ := takenAt_eq_some htaken
      rw [Bool.eq_iff_iff, Option.any_some, decide_eq_true_eq, Option.isSome_iff_exists]
      constructor
      · intro hentry
        obtain ⟨e, he⟩ := hentry
        have hnew := ahead_iff.mpr h e he
        obtain ⟨htx, -, hhigh⟩ := (mem_entryOf htaken).mp he
        have hsame : offerOf d items (updatedAt d item new i) = offerOf d items item := rfl
        rw [htx, hsame, hoffer, Option.some.injEq] at hnew
        rwa [hnew]
      · intro hhigh
        obtain ⟨first, hfirst⟩ := exists_find?_best Suggestion.score
          (List.append_ne_nil_of_right_ne_nil (item.toTx.topMatches.take i)
            (List.cons_ne_nil new (item.toTx.topMatches.drop (i + 1))))
        have hle : new.score ≤ first.score := best_iff.mp (List.find?_some hfirst) new (by simp)
        have hhead : (entered item new i).head? = some first := (head?_insertionSort _).trans hfirst
        exact ⟨⟨updatedAt d item new i, first⟩, (mem_entryOf htaken).mpr ⟨rfl, hhead, hhigh.trans hle⟩⟩

/-- The transactions that are dispatched are so with the document just scored, and there is one at most. -/
def DispatchesNew (d : Arrival) (items : List BankTransaction) (dispatched : List DispatchEntry) : Prop :=
  (∀ e ∈ dispatched, offerOf d items e.tx = some e.suggestion) ∧ dispatched.length ≤ 1

instance (d : Arrival) (items : List BankTransaction) (dispatched : List DispatchEntry) :
    Decidable (DispatchesNew d items dispatched) :=
  inferInstanceAs (Decidable (_ ∧ _))

/-- **Only the new document is dispatched, and for one transaction at most**, exactly when it is ahead of every entry of
high confidence that stays, wherever it is taken, and is taken with high confidence once at most. -/
theorem dispatch_iff (lower : String → String) (r : Redis) (userId companyId : String) (d : SingleCandidate) :
    let items := toProcessOf (getCachedData lower r userId companyId).2
    DispatchesNew (d.arrival items) items (triggerSingleCandidateScoring lower r userId companyId d).2.autoDispatch ↔
      (∀ item ∈ items, Ahead (d.arrival items) items item) ∧ items.countP (takenHigh (d.arrival items) items) ≤ 1 := by
  intro items
  rw [DispatchesNew, autoDispatch_eq, List.length_filterMap_eq_countP]
  have hentries : (∀ e ∈ items.filterMap (entryOf (d.arrival items) items),
      offerOf (d.arrival items) items e.tx = some e.suggestion) ↔ ∀ item ∈ items, Ahead (d.arrival items) items item := by
    simp only [List.mem_filterMap, ← ahead_iff]
    exact ⟨fun h item hitem e he => h e ⟨item, hitem, he⟩, fun h e ⟨item, hitem, he⟩ => h item hitem e he⟩
  rw [hentries]
  refine and_congr_right fun hahead => ?_
  rw [List.countP_congr fun item hitem => by rw [isSome_entryOf (hahead item hitem)]]

end Dispatch

/-- A payment with a suggestion of high confidence. -/
def matchedPayment : BankTransaction :=
  { normalizeFromErp openPayment with
    matchSuggestions := some
      { topMatches := [
          { type := .expense
            id := "lunch"
            partnerName := "Acme"
            amount := 100
            currency := "CHF"
            date := "2026-03-05"
            score := Binary64.nearest (95 / 100)
            confidence := .high
            scoreDetails := ⟨1, 1, 8 / 10, 0, 1⟩
            fxRate := none
            fxConvertedAmount := none
            internalId := .str "job_1"
            jobId := .str "job_1"
            fileId := .none }]
        transferMatch := none
        scoredAt := none } }

/-- The lists with some payments to be processed, cached without a payload. -/
def cachedLists (toProcess : List BankTransaction) : Redis :=
  Dict.ofList [(bankKey lower "u" "c", (Organized.mk toProcess [] [] []).toValue)]

/-- An expense that was routed. -/
def routedExpense (amount : ℚ) (date : String) : SingleCandidate where
  candidate := { invoiceDue 0 amount "CHF" date with
    invoiceDate := ""
    expenseDate := date
    partnerName := ""
    description := "Acme"
    label := "Acme"
    displayName := "Acme"
    id := .str "job_2"
    jobId := .str "job_2" }
  type := .expense
  python := .binary64
  rates _ := ∅
  now := ""

/-- **An older expense is dispatched** when a new one is scored, and a new one for two payments. -/
theorem older_document_dispatched :
    let older := cachedLists [matchedPayment]
    let both := cachedLists [normalizeFromErp openPayment, { normalizeFromErp openPayment with id := "578" }]
    let cheaper := routedExpense 97 "2026-03-12"
    let exact := routedExpense 100 "2026-03-05"
    let items := toProcessOf (getCachedData lower older "u" "c").2
    (triggerSingleCandidateScoring lower older "u" "c" cheaper).2.autoDispatch.map
        (fun e => (e.tx.id, e.suggestion.key)) = [("577", "expense:job_1")] ∧
      (triggerSingleCandidateScoring lower both "u" "c" exact).2.autoDispatch.map
        (fun e => (e.tx.id, e.suggestion.key)) = [("577", "expense:job_2"), ("578", "expense:job_2")] ∧
      ¬DispatchesNew (cheaper.arrival items) items
        (triggerSingleCandidateScoring lower older "u" "c" cheaper).2.autoDispatch := by
  refine ⟨by decide +kernel, by decide +kernel, ?_⟩
  decide +kernel

end Pinnokio.Banking
