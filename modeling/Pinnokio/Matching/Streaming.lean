import Pinnokio.Matching.Soundness
import Pinnokio.Matching.SuggestionRuns

/-!
# Documents that arrive one after another

A transaction without suggestions that is offered documents one at a time keeps the best of them: as many as the
configuration allows, and none that is worse than one that was left out.

* `isTop_placeMatch` — one document, by the three cases of `Pinnokio.TopK`;
* `isTop_run` — what a transaction has after a sequence of documents;
* `streaming_keeps_top` — **its matches have the highest scores of all the documents that fitted it**.
-/

namespace Pinnokio.Matching

open Pinnokio.Runs Pinnokio.TopK BulkMatchingEngine

/-! ### One document -/

section Place

variable {maxSuggestions : ℕ} {offers ms ms' : List Suggestion} {new : Suggestion}

theorem worstIdx_spec {worst : ℚ} (h : minScore ms = some worst) :
    ∃ m, ms[worstIdx ms]? = some m ∧ m.score = worst := by
  have hlt := worstIdx_lt h
  refine ⟨ms[worstIdx ms], List.getElem?_eq_getElem hlt, ?_⟩
  have hfound := List.findIdx_getElem (w := hlt)
  exact Option.some.inj ((of_decide_eq_true hfound).trans h)

/-- **What a new document does to the best ones so far.** -/
theorem isTop_placeMatch (h : IsTop Suggestion.score maxSuggestions offers ms) (hnew : ∀ m ∈ ms, m.key ≠ new.key) :
    match placeMatch maxSuggestions ms new with
    | some ms' => IsTop Suggestion.score maxSuggestions (offers ++ [new]) ms'
    | none => IsTop Suggestion.score maxSuggestions (offers ++ [new]) ms := by
  have hfind : ms.find? (fun m => m.key = new.key) = none :=
    List.find?_eq_none.mpr fun m hm => by simpa using hnew m hm
  rw [placeMatch, hfind]
  by_cases hroom : ms.length < maxSuggestions
  · simp only [if_pos hroom]
    exact h.add hroom
  · simp only [if_neg hroom]
    cases hmin : minScore ms with
    | none =>
        rw [minScore_eq_none hmin] at h hroom ⊢
        exact h.skip hroom fun m hm => absurd hm List.not_mem_nil
    | some worst =>
        by_cases hbeats : worst < new.score
        · obtain ⟨m, hm, rfl⟩ := worstIdx_spec hmin
          simp only [if_pos hbeats]
          exact h.replace hroom hm (minScore_le hmin) hbeats
        · simp only [if_neg hbeats]
          exact h.skip hroom fun m hm => (not_lt.mp hbeats).trans (minScore_le hmin m hm)

theorem pairwise_sortByScore (ms : List Suggestion) : (sortByScore ms).Pairwise fun a b => b.score ≤ a.score :=
  TopK.pairwise_insertionSort Suggestion.score ms

end Place

/-! ### Transactions apart from their suggestions -/

/-- A transaction without its suggestions. -/
def bare (tx : Tx) : Tx := { tx with matchSuggestions := none }

section Bare

variable {transactions transactions' : List Tx} {d : Arrival}

/-- The suggestions that transactions have do not count for the score of a document. -/
theorem scoreSingleCandidate_bare (e : BulkMatchingEngine) (c : Candidate) (type : DocType)
    (transactions : List Tx) :
    e.scoreSingleCandidate c type (transactions.map bare) = e.scoreSingleCandidate c type transactions := by
  have hbatch (tx : Tx) : e.batchSuggestion (bare tx) c type = e.batchSuggestion tx c type := by
    simp only [batchSuggestion, bare, scorePair_matchSuggestions]
  have hsuggestion (tx : Tx) : e.suggestionFor c type (bare tx) = e.suggestionFor c type tx := by
    rw [suggestionFor_eq, suggestionFor_eq, hbatch]
    rfl
  have hid (tx : Tx) : (bare tx).id = tx.id := rfl
  rw [scoreSingleCandidate, scoreSingleCandidate, List.foldl_map]
  simp only [hsuggestion, hid]

/-- What a document offers to a transaction of a list. -/
def Arrival.offerTo (d : Arrival) (transactions : List Tx) (tx : Tx) : Option Suggestion :=
  (d.engine.scoreSingleCandidate d.candidate d.type transactions).get? tx.id

theorem offerTo_congr (h : transactions.map bare = transactions'.map bare) {tx tx' : Tx} (htx : bare tx = bare tx') :
    d.offerTo transactions tx = d.offerTo transactions' tx' := by
  have hid : (bare tx).id = (bare tx').id := congrArg Tx.id htx
  change tx.id = tx'.id at hid
  rw [Arrival.offerTo, Arrival.offerTo, ← scoreSingleCandidate_bare, h, scoreSingleCandidate_bare, hid]

theorem key_of_offerTo {tx : Tx} {s : Suggestion} (h : d.offerTo transactions tx = some s) : s.key = d.key := by
  obtain ⟨tx', -, -, hs⟩ := exists_of_get?_scoreSingleCandidate h
  exact Arrival.key_eq hs

/-- A transaction takes what it is offered. -/
def Arrival.placed (d : Arrival) (transactions : List Tx) (tx : Tx) : Tx :=
  match d.offerTo transactions tx with
  | none => tx
  | some new => (d.engine.take d.now tx new).1

theorem arrive_eq_map (transactions : List Tx) (d : Arrival) :
    arrive transactions d = transactions.map (d.placed transactions) := by
  rw [arrive, updateSuggestionsWithCandidate, List.map_map]
  refine List.map_congr_left fun tx _ => ?_
  rw [Function.comp_apply, Arrival.placed, Arrival.offerTo]
  cases (d.engine.scoreSingleCandidate d.candidate d.type transactions).get? tx.id <;> rfl

theorem bare_placed (tx : Tx) : bare (d.placed transactions tx) = bare tx := by
  rw [Arrival.placed]
  split
  · rfl
  · next new _ =>
    obtain ⟨suggestions, heq⟩ := d.engine.take_eq d.now tx new
    rw [heq]
    rfl

theorem bare_arrive (transactions : List Tx) (d : Arrival) : (arrive transactions d).map bare = transactions.map bare := by
  rw [arrive_eq_map, List.map_map]
  exact List.map_congr_left fun tx _ => bare_placed tx

theorem bare_run (transactions : List Tx) (arrivals : List Arrival) :
    (run arrive transactions arrivals).map bare = transactions.map bare := by
  induction arrivals using List.reverseRecOn with
  | nil => rfl
  | append_singleton arrivals d ih => rw [run_concat, bare_arrive, ih]

end Bare

/-! ### A sequence of documents -/

/-- What a transaction of a list is offered by a sequence of documents. -/
def offersTo (transactions : List Tx) (arrivals : List Arrival) (tx : Tx) : List Suggestion :=
  arrivals.filterMap fun d => d.offerTo transactions tx

section Run

variable {transactions : List Tx} {arrivals : List Arrival} {tx : Tx} {k i : ℕ}

theorem keys_offersTo (transactions : List Tx) (arrivals : List Arrival) (tx : Tx) :
    ((offersTo transactions arrivals tx).map Suggestion.key).Sublist (arrivals.map Arrival.key) := by
  induction arrivals with
  | nil => exact .slnil
  | cons d arrivals ih =>
      rw [offersTo, List.filterMap_cons]
      split
      · exact ih.cons _
      · next s hs =>
        rw [List.map_cons, List.map_cons, key_of_offerTo hs]
        exact ih.cons_cons _

/-- A transaction takes what it is offered, if it does not have the document yet. -/
theorem isTop_placed {transactions' : List Tx} {tx' : Tx} {d : Arrival} {offers : List Suggestion}
    (htransactions : transactions'.map bare = transactions.map bare) (htx : bare tx' = bare tx)
    (hk : d.engine.config.maxSuggestions = k) (hkey : d.key ∉ offers.map Suggestion.key)
    (htop : IsTop Suggestion.score k offers tx'.topMatches)
    (hsorted : tx'.topMatches.Pairwise fun a b => b.score ≤ a.score) :
    IsTop Suggestion.score k (offers ++ (d.offerTo transactions tx).toList) (d.placed transactions' tx').topMatches ∧
      (d.placed transactions' tx').topMatches.Pairwise fun a b => b.score ≤ a.score := by
  rw [Arrival.placed, offerTo_congr htransactions htx]
  cases hoffer : d.offerTo transactions tx with
  | none =>
      rw [Option.toList_none, List.append_nil]
      exact ⟨htop, hsorted⟩
  | some new =>
      have hnew : ∀ m ∈ tx'.topMatches, m.key ≠ new.key := by
        intro m hm heq
        rw [key_of_offerTo hoffer] at heq
        exact hkey (List.mem_map.mpr ⟨m, htop.subset hm, heq⟩)
      have hplaced := isTop_placeMatch htop hnew
      show IsTop _ _ (offers ++ [new]) (d.engine.take d.now tx' new).1.topMatches ∧
        (d.engine.take d.now tx' new).1.topMatches.Pairwise _
      rw [topMatches_take, hk]
      cases hplace : placeMatch k tx'.topMatches new with
      | none =>
          rw [hplace] at hplaced
          exact ⟨hplaced, hsorted⟩
      | some ms =>
          rw [hplace] at hplaced
          exact ⟨hplaced.perm (List.perm_insertionSort _ ms), pairwise_sortByScore ms⟩

/-- **What a transaction has after a sequence of documents.** -/
theorem isTop_run (hk : ∀ d ∈ arrivals, d.engine.config.maxSuggestions = k)
    (hkeys : (arrivals.map Arrival.key).Nodup) (htx : transactions[i]? = some tx) (hnone : tx.topMatches = []) :
    ∃ tx', (run arrive transactions arrivals)[i]? = some tx' ∧ bare tx' = bare tx ∧
      IsTop Suggestion.score k (offersTo transactions arrivals tx) tx'.topMatches ∧
      tx'.topMatches.Pairwise fun a b => b.score ≤ a.score := by
  induction arrivals using List.reverseRecOn with
  | nil =>
      refine ⟨tx, htx, rfl, ?_, ?_⟩
      · rw [hnone]
        exact isTop_nil
      · rw [hnone]
        exact .nil
  | append_singleton arrivals d ih =>
      rw [List.map_append, List.map_singleton, List.nodup_append] at hkeys
      obtain ⟨tx', hget, hbare, htop, hsorted⟩ :=
        ih (fun d' hd' => hk d' (List.mem_append_left _ hd')) hkeys.1
      have hkey : d.key ∉ (offersTo transactions arrivals tx).map Suggestion.key := by
        intro hmem
        exact hkeys.2.2 _ ((keys_offersTo transactions arrivals tx).subset hmem) _ (List.mem_singleton_self _) rfl
      have hstep := isTop_placed (bare_run transactions arrivals) hbare (hk d (by simp)) hkey htop hsorted
      refine ⟨d.placed (run arrive transactions arrivals) tx', ?_, (bare_placed tx').trans hbare, ?_, hstep.2⟩
      · rw [run_concat, arrive_eq_map, List.getElem?_map, hget]
        rfl
      · have hoffers : offersTo transactions (arrivals ++ [d]) tx =
            offersTo transactions arrivals tx ++ (d.offerTo transactions tx).toList := by
          rw [offersTo, offersTo, List.filterMap_append, List.filterMap_cons]
          cases d.offerTo transactions tx <;> rfl
        rw [hoffers]
        exact hstep.1

/-- Among distinct ids, what a transaction is offered are the documents that fit it. -/
theorem offersTo_eq (hids : (transactions.map Tx.id).Nodup) (htx : tx ∈ transactions) (arrivals : List Arrival) :
    offersTo transactions arrivals tx = arrivals.filterMap fun d => d.suggestion tx := by
  have hoffer : (fun d : Arrival => d.offerTo transactions tx) = fun d => d.suggestion tx := by
    funext d
    exact get?_scoreSingleCandidate hids htx
  rw [offersTo, hoffer]

/-- **The matches of a transaction have the highest scores of all the documents that fitted it.** -/
theorem streaming_keeps_top (hk : ∀ d ∈ arrivals, d.engine.config.maxSuggestions = k)
    (hkeys : (arrivals.map Arrival.key).Nodup) (htx : transactions[i]? = some tx) (hnone : tx.topMatches = []) :
    (∃ tx', (run arrive transactions arrivals)[i]? = some tx' ∧ tx'.topMatches.length ≤ k ∧
      (tx'.topMatches.map Suggestion.key).Nodup ∧ (tx'.topMatches.Pairwise fun m m' => m'.score ≤ m.score) ∧
      tx'.topMatches.map Suggestion.score =
        highest k ((offersTo transactions arrivals tx).map Suggestion.score)) ∧
      ((transactions.map Tx.id).Nodup →
        offersTo transactions arrivals tx = arrivals.filterMap fun d => d.suggestion tx) := by
  refine ⟨?_, fun hids => offersTo_eq hids (List.mem_of_getElem? htx) arrivals⟩
  obtain ⟨tx', hget, -, htop, hsorted⟩ := isTop_run hk hkeys htx hnone
  have hnodup := hkeys.sublist (keys_offersTo transactions arrivals tx)
  exact ⟨tx', hget, htop.length_le, htop.nodup hnodup, hsorted, htop.scores_eq hsorted⟩

/-- Places for two matches. -/
def roomForTwo : BulkMatchingEngine :=
  { BulkMatchingEngine.withRates .binary64 ∅ with
    config := { BulkMatchingConfig.read Binary64.binary64 {} with maxSuggestions := 2 } }

/-- Invoices of 90, 99 and 100 francs. -/
def threeInvoices : List Arrival :=
  [⟨roomForTwo, "", invoiceDue 3001 90 "CHF" "2026-03-05", .invoice⟩,
    ⟨roomForTwo, "", invoiceDue 3002 99 "CHF" "2026-03-05", .invoice⟩,
    ⟨roomForTwo, "", invoiceDue 3003 100 "CHF" "2026-03-01", .invoice⟩]

/-- Three documents fit, and the two best of them stay. -/
theorem streaming_keeps_two :
    let tx := movement "601" (-100) 7 "2026-03-05"
    ((offersTo [tx] threeInvoices tx).map Suggestion.key) = ["invoice:3001", "invoice:3002", "invoice:3003"] ∧
      ∃ tx', (run arrive [tx] threeInvoices)[0]? = some tx' ∧
        tx'.topMatches.map Suggestion.key = ["invoice:3002", "invoice:3003"] ∧
        tx'.topMatches.map Suggestion.score = highest 2 ((offersTo [tx] threeInvoices tx).map Suggestion.score) := by
  intro tx
  have hkept : ((run arrive [tx] threeInvoices)[0]?.map fun tx' => tx'.topMatches.map Suggestion.key) =
      some ["invoice:3002", "invoice:3003"] := by decide +kernel
  obtain ⟨⟨tx', hget, -, -, -, hscores⟩, -⟩ :=
    @streaming_keeps_top [tx] threeInvoices tx 2 0 (by decide +kernel) (by decide +kernel) rfl rfl
  rw [hget] at hkept
  exact ⟨by decide +kernel, tx', hget, Option.some.inj hkept, hscores⟩

end Run

end Pinnokio.Matching
