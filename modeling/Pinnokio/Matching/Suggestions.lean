import Pinnokio.Lib.TopK
import Pinnokio.Matching.Scoring

/-!
# Suggestions, one candidate at a time

A new invoice or expense is scored against every open transaction (`scoreSingleCandidate`), and the transactions
it fits take it into their `top_matches` if there is room or if it beats the weakest entry
(`updateSuggestionsWithCandidate`).

* `head?_sortByScore` — an entry that beats all others is the best one;
* `offer` — what one candidate does to one transaction;
* `updateSuggestionsWithCandidate_eq` — **transactions with distinct ids do not see each other**: the update of a
  list is the update of each of its transactions.
-/

namespace Pinnokio.Matching

open Pinnokio.Text Pinnokio.Numbers

/-! ### Ranking -/

/-- `sort(key=score, reverse=True)`: descending, and stable. -/
def sortByScore (ms : List Suggestion) : List Suggestion := ms.insertionSort fun a b => b.score ≤ a.score

/-- The key of a document: its kind and its id. -/
def docKey (type : DocType) (internalId : Scalar) (id : String) : String :=
  type.text ++ ":" ++ (internalId.or (.str id)).toStr

/-- The key of a suggestion. -/
def Suggestion.key (m : Suggestion) : String := docKey m.type m.internalId m.id

/-- The smallest score. -/
def minScore : List Suggestion → Option ℚ
  | [] => none
  | m :: ms =>
      match minScore ms with
      | none => some m.score
      | some x => some (min m.score x)

/-- The first entry with the smallest score. -/
def worstIdx (ms : List Suggestion) : ℕ := ms.findIdx fun m => decide (some m.score = minScore ms)

/-- Where a new suggestion goes: in place of its own older entry if it beats it, else to the end if there is room,
else in place of the weakest entry if it beats that one.  `none` when the list does not change. -/
def placeMatch (maxSuggestions : ℕ) (ms : List Suggestion) (new : Suggestion) : Option (List Suggestion) :=
  match ms.find? fun m => m.key = new.key with
  | some m =>
      if m.score < new.score then some (ms.set (ms.findIdx fun m => m.key = new.key) new) else none
  | none =>
      if ms.length < maxSuggestions then some (ms ++ [new])
      else
        match minScore ms with
        | none => none
        | some worst => if worst < new.score then some (ms.set (worstIdx ms) new) else none

section Place

variable {maxSuggestions : ℕ} {ms ms' : List Suggestion} {new : Suggestion}

theorem minScore_eq_none (h : minScore ms = none) : ms = [] := by
  cases ms with
  | nil => rfl
  | cons m ms =>
      simp only [minScore] at h
      split at h <;> cases h

/-- The smallest score is the score of an entry. -/
theorem exists_mem_of_minScore {worst : ℚ} (h : minScore ms = some worst) : ∃ m ∈ ms, m.score = worst := by
  induction ms generalizing worst with
  | nil => cases h
  | cons m ms ih =>
      simp only [minScore] at h
      split at h
      · exact ⟨m, List.mem_cons_self, Option.some.inj h⟩
      · next x hx =>
        obtain ⟨m', hm', hscore⟩ := ih hx
        rcases min_choice m.score x with hmin | hmin
        · exact ⟨m, List.mem_cons_self, by rw [← hmin]; exact Option.some.inj h⟩
        · exact ⟨m', List.mem_cons_of_mem _ hm', by rw [hscore, ← hmin]; exact Option.some.inj h⟩

theorem worstIdx_lt {worst : ℚ} (h : minScore ms = some worst) : worstIdx ms < ms.length := by
  obtain ⟨m, hm, hscore⟩ := exists_mem_of_minScore h
  exact List.findIdx_lt_length_of_exists ⟨m, hm, by simp [h, hscore]⟩

/-- A list that takes a suggestion has it, and nothing else that is new. -/
theorem mem_placeMatch (h : placeMatch maxSuggestions ms new = some ms') :
    new ∈ ms' ∧ ∀ m ∈ ms', m = new ∨ m ∈ ms := by
  have hset : ∀ i, i < ms.length → new ∈ ms.set i new ∧ ∀ m ∈ ms.set i new, m = new ∨ m ∈ ms :=
    fun i hi => ⟨List.mem_set hi new, fun m hm => (List.mem_or_eq_of_mem_set hm).symm⟩
  unfold placeMatch at h
  split at h
  · next m hm =>
    split at h
    · cases h
      have hkey := List.find?_some hm
      exact hset _ (List.findIdx_lt_length_of_exists ⟨m, List.mem_of_find?_eq_some hm, hkey⟩)
    · cases h
  · split at h
    · cases h
      exact ⟨by simp, fun m hm => by simpa [or_comm] using hm⟩
    · split at h
      · cases h
      · next worst hworst =>
        split at h
        · cases h
          exact hset _ (worstIdx_lt hworst)
        · cases h

/-- A suggestion that beats every entry is taken. -/
theorem placeMatch_of_beats (hmax : 0 < maxSuggestions) (hbeats : ∀ m ∈ ms, m.score < new.score) :
    ∃ ms', placeMatch maxSuggestions ms new = some ms' := by
  unfold placeMatch
  split
  · next m hm => exact ⟨_, if_pos (hbeats m (List.mem_of_find?_eq_some hm))⟩
  · split
    · exact ⟨_, rfl⟩
    · next hfull =>
      split
      · next hnone =>
        rw [minScore_eq_none hnone] at hfull
        exact absurd hmax hfull
      · next worst hworst =>
        obtain ⟨m, hm, rfl⟩ := exists_mem_of_minScore hworst
        exact ⟨_, if_pos (hbeats m hm)⟩

/-- Sorting brings an entry that beats all others to the top. -/
theorem head?_sortByScore (hmem : new ∈ ms) (hbeats : ∀ m ∈ ms, m = new ∨ m.score < new.score) :
    (sortByScore ms).head? = some new := by
  obtain ⟨top, htop⟩ := TopK.exists_find?_best Suggestion.score (List.ne_nil_of_mem hmem)
  have hle : new.score ≤ top.score := TopK.best_iff.mp (List.find?_some htop) new hmem
  rw [sortByScore, TopK.head?_insertionSort, htop]
  rcases hbeats top (List.mem_of_find?_eq_some htop) with rfl | hlt
  · rfl
  · exact absurd hlt (not_lt.mpr hle)

end Place

namespace BulkMatchingEngine

variable (e : BulkMatchingEngine)

/-! ### One candidate, one transaction -/

/-- The sign of the transactions a kind of document belongs to: customer invoices to credits, everything else to
debits. -/
def signMatches (candidateType : DocType) (tx : Tx) : Bool :=
  if candidateType = .arInvoice then decide (0 ≤ tx.amount) else decide (tx.amount < 0)

/-- The kind a pair is scored as. -/
def scoringType : DocType → DocType
  | .arInvoice => .invoice
  | t => t

/-- The suggestion a candidate makes to a transaction, if it fits. -/
def suggestionFor (candidate : Candidate) (candidateType : DocType) (tx : Tx) : Option Suggestion :=
  if signMatches candidateType tx then
    let (score, details) := e.scorePair tx candidate (scoringType candidateType)
    if e.config.minDisplayThreshold ≤ score ∧ e.numbers.lit (40 / 100) ≤ details.amount then
      some (e.buildSuggestion candidate score details candidateType (normalizeCurrency tx.currency))
    else none
  else none

/-- `score_single_candidate`: the suggestions by transaction id. -/
def scoreSingleCandidate (candidate : Candidate) (candidateType : DocType) (transactions : List Tx) :
    Dict String Suggestion :=
  transactions.foldl
    (fun results tx =>
      match e.suggestionFor candidate candidateType tx with
      | none => results
      | some s => results.set tx.id s) ∅

/-- The suggestions of a transaction, empty if there are none yet. -/
def existing (tx : Tx) : MatchSuggestions := tx.matchSuggestions.getD ⟨[], none, none⟩

/-- A transaction takes a suggestion; the flag tells whether it has changed. -/
def take (now : String) (tx : Tx) (new : Suggestion) : Tx × Bool :=
  match placeMatch e.config.maxSuggestions (existing tx).topMatches new with
  | none => (tx, false)
  | some ms =>
      ({ tx with
          matchSuggestions := some { existing tx with
            topMatches := sortByScore ms
            scoredAt := some now } }, true)

/-- What a candidate does to a transaction on its own. -/
def offer (now : String) (candidate : Candidate) (candidateType : DocType) (tx : Tx) : Tx × Bool :=
  match e.suggestionFor candidate candidateType tx with
  | none => (tx, false)
  | some new => e.take now tx new

/-! ### One candidate, all transactions -/

/-- `update_suggestions_with_candidate`: the transactions, each with the flag that tells whether it is among the
updated ones. -/
def updateSuggestionsWithCandidate (now : String) (transactions : List Tx) (candidate : Candidate)
    (candidateType : DocType) : List (Tx × Bool) :=
  let scores := e.scoreSingleCandidate candidate candidateType transactions
  transactions.map fun tx =>
    match scores.get? tx.id with
    | none => (tx, false)
    | some new => e.take now tx new

section

variable {e} {candidate : Candidate} {candidateType : DocType}

theorem get?_scoreSingleCandidate_foldl (txs : List Tx) (d : Dict String Suggestion) (id : String)
    (h : id ∉ txs.map Tx.id) :
    (txs.foldl (fun results tx =>
      match e.suggestionFor candidate candidateType tx with
      | none => results
      | some s => results.set tx.id s) d).get? id = d.get? id := by
  induction txs generalizing d with
  | nil => rfl
  | cons tx txs ih =>
      simp only [List.map_cons, List.mem_cons, not_or] at h
      rw [List.foldl_cons, ih _ h.2]
      cases e.suggestionFor candidate candidateType tx with
      | none => rfl
      | some s => exact Dict.get?_set_ne _ _ h.1

/-- A transaction gets its own score. -/
theorem get?_scoreSingleCandidate {txs : List Tx} (hids : (txs.map Tx.id).Nodup) {tx : Tx} (h : tx ∈ txs) :
    (e.scoreSingleCandidate candidate candidateType txs).get? tx.id =
      e.suggestionFor candidate candidateType tx := by
  have hgen : ∀ (d : Dict String Suggestion), d.get? tx.id = none →
      (txs.foldl (fun results tx =>
        match e.suggestionFor candidate candidateType tx with
        | none => results
        | some s => results.set tx.id s) d).get? tx.id =
      e.suggestionFor candidate candidateType tx := by
    induction txs with
    | nil => cases h
    | cons x txs ih =>
        intro d hd
        rw [List.map_cons, List.nodup_cons] at hids
        rw [List.foldl_cons]
        rcases List.mem_cons.mp h with rfl | hmem
        · rw [get?_scoreSingleCandidate_foldl txs _ _ hids.1]
          cases e.suggestionFor candidate candidateType tx with
          | none => exact hd
          | some s => exact Dict.get?_set_self _ _ _
        · have hne : tx.id ≠ x.id := fun heq => hids.1 (heq ▸ List.mem_map_of_mem hmem)
          refine ih hids.2 hmem _ ?_
          cases e.suggestionFor candidate candidateType x with
          | none => exact hd
          | some s => exact (Dict.get?_set_ne _ _ hne).trans hd
  exact hgen ∅ rfl

/-- **Transactions with distinct ids do not see each other.** -/
theorem updateSuggestionsWithCandidate_eq {txs : List Tx} (hids : (txs.map Tx.id).Nodup) (now : String) :
    e.updateSuggestionsWithCandidate now txs candidate candidateType =
      txs.map (e.offer now candidate candidateType) := by
  refine List.map_congr_left fun tx htx => ?_
  rw [get?_scoreSingleCandidate hids htx, offer]

/-- A suggestion changes nothing of a transaction but its suggestions. -/
theorem take_eq (now : String) (tx : Tx) (new : Suggestion) :
    ∃ suggestions, (e.take now tx new).1 = { tx with matchSuggestions := suggestions } := by
  unfold take
  split
  · exact ⟨tx.matchSuggestions, rfl⟩
  · exact ⟨_, rfl⟩

/-- The suggestions of a transaction are its own ones and those it is offered. -/
theorem mem_take {now : String} {tx : Tx} {new m : Suggestion}
    (h : m ∈ (existing (e.take now tx new).1).topMatches) : m = new ∨ m ∈ (existing tx).topMatches := by
  unfold take at h
  split at h
  · exact Or.inr h
  · next ms hms => exact (mem_placeMatch hms).2 m ((List.mem_insertionSort _).mp h)

end

end BulkMatchingEngine

end Pinnokio.Matching
