import Pinnokio.Lib.Runs
import Pinnokio.Matching.BulkSuggestions

/-!
# Documents that arrive after a batch

The results of a batch are attached to the transactions (`enrich`), and documents that arrive later are offered to
all of them (`updateSuggestionsWithCandidate`).  The batch gives a document to one transaction only and leaves the
sides of a transfer alone; a document that arrives alone is offered to each transaction on its own, and to the sides
of a transfer as well.

* `holds_offer_iff` — the transactions that have a document after it was offered;
* `exclusive_run_iff` — **documents stay with one transaction exactly when no document comes to a second one**;
* `separate_run_iff` — **transfers stay without documents exactly when no document fits a side of a transfer**.
-/

namespace Pinnokio.Matching

open Pinnokio.Runs

/-- The results are attached to a transaction. -/
def enrich (results : Dict String MatchSuggestions) (tx : Tx) : Tx :=
  match results.get? tx.id with
  | none => { tx with matchSuggestions := some ⟨[], none, none⟩ }
  | some s =>
      if s.topMatches ≠ [] ∨ s.transferMatch.isSome then { tx with matchSuggestions := some s }
      else { tx with matchSuggestions := some ⟨[], none, none⟩ }

/-- A document that arrives, with the engine it is scored by: the rates are fetched anew for every call. -/
structure Arrival where
  engine : BulkMatchingEngine
  now : String
  candidate : Candidate
  type : DocType

/-- A document is offered to all transactions. -/
def arrive (transactions : List Tx) (d : Arrival) : List Tx :=
  (d.engine.updateSuggestionsWithCandidate d.now transactions d.candidate d.type).map Prod.fst

namespace BulkMatchingEngine

/-- A batch, attached to its transactions. -/
def attach (e : BulkMatchingEngine) (now : String) (transactions : List Tx) (docs : OpenDocuments) : List Tx :=
  transactions.map (enrich (e.computeSuggestions now transactions docs))

end BulkMatchingEngine

open BulkMatchingEngine

/-- The matches of a transaction. -/
def Tx.topMatches (tx : Tx) : List Suggestion := (existing tx).topMatches

/-- The transfer of a transaction. -/
def Tx.transferMatch (tx : Tx) : Option TransferMatch := (existing tx).transferMatch

/-- A transaction has a document among its matches. -/
def Tx.Holds (tx : Tx) (key : String) : Prop := ∃ m ∈ tx.topMatches, m.key = key

/-- The key of a document that arrives. -/
def Arrival.key (d : Arrival) : String := d.type.text ++ ":" ++ docId d.type d.candidate

/-- The suggestion a document makes to a transaction. -/
def Arrival.suggestion (d : Arrival) (tx : Tx) : Option Suggestion := d.engine.suggestionFor d.candidate d.type tx

/-- A document fits a transaction that has room, or a weaker match. -/
def Arrival.Wanted (d : Arrival) (tx : Tx) : Prop :=
  ∃ s, d.suggestion tx = some s ∧
    (tx.topMatches.length < d.engine.config.maxSuggestions ∨ ∃ m ∈ tx.topMatches, m.score < s.score)

/-- Each document is among the matches of one transaction at most. -/
def Exclusive (transactions : List Tx) : Prop :=
  ∀ tx ∈ transactions, ∀ tx' ∈ transactions, ∀ key, tx.Holds key → tx'.Holds key → tx.id = tx'.id

/-- At most one transaction has the document or wants it. -/
def OneTaker (transactions : List Tx) (d : Arrival) : Prop :=
  ∀ tx ∈ transactions, ∀ tx' ∈ transactions, (tx.Holds d.key ∨ d.Wanted tx) → (tx'.Holds d.key ∨ d.Wanted tx') →
    tx.id = tx'.id

instance (tx : Tx) (key : String) : Decidable (tx.Holds key) :=
  inferInstanceAs (Decidable (∃ m ∈ tx.topMatches, m.key = key))

instance (d : Arrival) (tx : Tx) : Decidable (d.Wanted tx) :=
  match h : d.suggestion tx with
  | none => isFalse fun hw => by
      obtain ⟨s, hs, -⟩ := hw
      rw [h] at hs
      cases hs
  | some s =>
      decidable_of_iff
        (tx.topMatches.length < d.engine.config.maxSuggestions ∨ ∃ m ∈ tx.topMatches, m.score < s.score) (by
          simp only [Arrival.Wanted, h, Option.some.injEq, exists_eq_left'])

instance (transactions : List Tx) : Decidable (Exclusive transactions) :=
  decidable_of_iff
    (∀ tx ∈ transactions, ∀ tx' ∈ transactions, ∀ m ∈ tx.topMatches, tx'.Holds m.key → tx.id = tx'.id) (by
      constructor
      · intro h tx htx tx' htx' key h' hholds'
        obtain ⟨m, hm, rfl⟩ := h'
        exact h tx htx tx' htx' m hm hholds'
      · exact fun h tx htx tx' htx' m hm hholds' => h tx htx tx' htx' m.key ⟨m, hm, rfl⟩ hholds')

instance (transactions : List Tx) (d : Arrival) : Decidable (OneTaker transactions d) :=
  inferInstanceAs (Decidable (∀ tx ∈ transactions, ∀ tx' ∈ transactions, (tx.Holds d.key ∨ d.Wanted tx) →
    (tx'.Holds d.key ∨ d.Wanted tx') → tx.id = tx'.id))

/-! ### One document, one transaction -/

section Offer

variable {d : Arrival} {tx : Tx}

theorem minScore_le {ms : List Suggestion} {worst : ℚ} (h : minScore ms = some worst) :
    ∀ m ∈ ms, worst ≤ m.score := by
  induction ms generalizing worst with
  | nil => exact fun m hm => absurd hm List.not_mem_nil
  | cons x ms ih =>
      simp only [minScore] at h
      split at h
      · next hnone =>
        cases h
        intro m hm
        rw [minScore_eq_none hnone] at hm
        rw [List.mem_singleton.mp hm]
      · next y hy =>
        cases h
        intro m hm
        rcases List.mem_cons.mp hm with rfl | hm
        · exact min_le_left _ _
        · exact (min_le_right _ _).trans (ih hy m hm)

/-- When a suggestion changes a list that does not have its document. -/
theorem isSome_placeMatch_iff {maxSuggestions : ℕ} {ms : List Suggestion} {new : Suggestion}
    (hnew : ∀ m ∈ ms, m.key ≠ new.key) :
    (placeMatch maxSuggestions ms new).isSome ↔
      ms.length < maxSuggestions ∨ ∃ m ∈ ms, m.score < new.score := by
  have hfind : ms.find? (fun m => m.key = new.key) = none :=
    List.find?_eq_none.mpr fun m hm => by simpa using hnew m hm
  rw [placeMatch, hfind]
  simp only
  by_cases hroom : ms.length < maxSuggestions
  · simp [hroom]
  · rw [if_neg hroom]
    cases hmin : minScore ms with
    | none => simp [minScore_eq_none hmin, show ¬0 < maxSuggestions by rwa [minScore_eq_none hmin] at hroom]
    | some worst =>
        simp only [hroom, false_or]
        constructor
        · intro h
          split at h
          · next hlt =>
            obtain ⟨m, hm, rfl⟩ := exists_mem_of_minScore hmin
            exact ⟨m, hm, hlt⟩
          · cases h
        · intro h
          obtain ⟨m, hm, hlt⟩ := h
          rw [if_pos ((minScore_le hmin m hm).trans_lt hlt)]
          rfl

theorem topMatches_take (e : BulkMatchingEngine) (now : String) (new : Suggestion) :
    (e.take now tx new).1.topMatches =
      ((placeMatch e.config.maxSuggestions tx.topMatches new).map sortByScore).getD tx.topMatches := by
  unfold take Tx.topMatches
  split <;> rename_i hplace <;> rw [hplace] <;> rfl

theorem transferMatch_take (e : BulkMatchingEngine) (now : String) (new : Suggestion) :
    (e.take now tx new).1.transferMatch = tx.transferMatch := by
  unfold take Tx.transferMatch
  split <;> rfl

/-- A transaction has the document it was offered if it had it before or has changed. -/
theorem holds_take_iff (e : BulkMatchingEngine) (now : String) (new : Suggestion) :
    (e.take now tx new).1.Holds new.key ↔
      tx.Holds new.key ∨ (placeMatch e.config.maxSuggestions tx.topMatches new).isSome := by
  rw [Tx.Holds, topMatches_take]
  cases hplace : placeMatch e.config.maxSuggestions tx.topMatches new with
  | none => simp [Tx.Holds]
  | some ms =>
      have hnew : new ∈ sortByScore ms := (List.mem_insertionSort _).mpr (mem_placeMatch hplace).1
      exact iff_of_true ⟨new, hnew, rfl⟩ (Or.inr rfl)

/-- No other document comes in. -/
theorem holds_of_holds_take {e : BulkMatchingEngine} {now : String} {new : Suggestion} {key : String}
    (hkey : key ≠ new.key) (h : (e.take now tx new).1.Holds key) : tx.Holds key := by
  obtain ⟨m, hm, rfl⟩ := h
  rcases mem_take hm with rfl | hm
  · exact absurd rfl hkey
  · exact ⟨m, hm, rfl⟩

/-- The key of a suggestion names the document it is made of. -/
theorem Arrival.key_eq {s : Suggestion} (h : d.suggestion tx = some s) : s.key = d.key := by
  rw [Arrival.suggestion, suggestionFor_eq] at h
  split at h
  · obtain ⟨htype, hkey⟩ := batchSuggestion_eq_some h
    rw [Suggestion.key, htype]
    exact hkey
  · cases h

/-- A document is offered to a transaction. -/
def Arrival.offered (d : Arrival) (tx : Tx) : Tx := (d.engine.offer d.now d.candidate d.type tx).1

theorem Arrival.offered_cases (d : Arrival) (tx : Tx) :
    d.suggestion tx = none ∧ d.offered tx = tx ∨
      ∃ s, d.suggestion tx = some s ∧ s.key = d.key ∧ d.offered tx = (d.engine.take d.now tx s).1 := by
  cases hs : d.suggestion tx with
  | none =>
      left
      rw [Arrival.suggestion] at hs
      exact ⟨rfl, by rw [offered, offer, hs]⟩
  | some s =>
      right
      refine ⟨s, rfl, Arrival.key_eq hs, ?_⟩
      rw [Arrival.suggestion] at hs
      rw [offered, offer, hs]

/-- **The transactions that have a document after it was offered** are those that had it and those that wanted it. -/
theorem holds_offer_iff (d : Arrival) (tx : Tx) :
    (d.offered tx).Holds d.key ↔ tx.Holds d.key ∨ d.Wanted tx := by
  rcases d.offered_cases tx with ⟨hnone, heq⟩ | ⟨s, hs, hkey, heq⟩
  · rw [heq]
    refine ⟨Or.inl, fun h => h.resolve_right ?_⟩
    intro h'
    obtain ⟨s, hs, -⟩ := h'
    rw [hnone] at hs
    cases hs
  · have hwanted : d.Wanted tx ↔
        tx.topMatches.length < d.engine.config.maxSuggestions ∨ ∃ m ∈ tx.topMatches, m.score < s.score := by
      simp only [Arrival.Wanted, hs, Option.some.injEq, exists_eq_left']
    rw [heq, ← hkey, holds_take_iff, hwanted]
    by_cases hhas : tx.Holds s.key
    · simp [hhas]
    · rw [isSome_placeMatch_iff fun m hm heq => hhas ⟨m, hm, heq⟩]

/-- Offering a document brings no other one. -/
theorem holds_of_holds_offer {key : String} (hkey : key ≠ d.key) (h : (d.offered tx).Holds key) : tx.Holds key := by
  rcases d.offered_cases tx with ⟨-, heq⟩ | ⟨s, -, hs, heq⟩
  · rwa [heq] at h
  · rw [heq] at h
    exact holds_of_holds_take (hs ▸ hkey) h

theorem id_offered (d : Arrival) (tx : Tx) : (d.offered tx).id = tx.id := by
  rcases d.offered_cases tx with ⟨-, heq⟩ | ⟨s, -, -, heq⟩
  · rw [heq]
  · obtain ⟨suggestions, hs⟩ := d.engine.take_eq d.now tx s
    rw [heq, hs]

end Offer

/-! ### Exclusivity -/

section Exclusivity

variable {d : Arrival} {transactions : List Tx}

theorem arrive_eq (hids : (transactions.map Tx.id).Nodup) : arrive transactions d = transactions.map d.offered := by
  rw [arrive, updateSuggestionsWithCandidate_eq hids, List.map_map]
  rfl

/-- The ids stay. -/
theorem ids_arrive (hids : (transactions.map Tx.id).Nodup) :
    (arrive transactions d).map Tx.id = transactions.map Tx.id := by
  rw [arrive_eq hids, List.map_map]
  exact List.map_congr_left fun tx _ => id_offered d tx

/-- One document keeps the others exclusive exactly when it has one taker. -/
theorem exclusive_arrive_iff (hids : (transactions.map Tx.id).Nodup) (hex : Exclusive transactions) :
    Exclusive (arrive transactions d) ↔ OneTaker transactions d := by
  rw [arrive_eq hids]
  constructor
  · intro h tx htx tx' htx' hw hw'
    have heq := h _ (List.mem_map_of_mem htx) _ (List.mem_map_of_mem htx') d.key
      ((holds_offer_iff d tx).mpr hw) ((holds_offer_iff d tx').mpr hw')
    rwa [id_offered, id_offered] at heq
  · intro h y hy y' hy' key hholds hholds'
    obtain ⟨tx, htx, rfl⟩ := List.mem_map.mp hy
    obtain ⟨tx', htx', rfl⟩ := List.mem_map.mp hy'
    rw [id_offered, id_offered]
    by_cases hkey : key = d.key
    · subst hkey
      exact h tx htx tx' htx' ((holds_offer_iff d tx).mp hholds) ((holds_offer_iff d tx').mp hholds')
    · exact hex tx htx tx' htx' key (holds_of_holds_offer hkey hholds) (holds_of_holds_offer hkey hholds')

theorem enrich_cases (results : Dict String MatchSuggestions) (tx : Tx) :
    (enrich results tx).id = tx.id ∧ (enrich results tx).topMatches = matchesOf results tx ∧
      (enrich results tx).transferMatch = transferOf results tx := by
  unfold enrich matchesOf transferOf
  cases results.get? tx.id with
  | none => exact ⟨rfl, rfl, rfl⟩
  | some s =>
      by_cases hs : s.topMatches ≠ [] ∨ s.transferMatch.isSome
      · simp only [if_pos hs, true_and]
        exact ⟨rfl, rfl⟩
      · simp only [if_neg hs, true_and]
        rw [not_or, not_not] at hs
        exact ⟨hs.1.symm, (Option.not_isSome_iff_eq_none.mp hs.2).symm⟩

theorem ids_attach (e : BulkMatchingEngine) (now : String) (docs : OpenDocuments) :
    (e.attach now transactions docs).map Tx.id = transactions.map Tx.id := by
  rw [attach, List.map_map]
  exact List.map_congr_left fun tx _ => (enrich_cases _ tx).1

/-- A batch is exclusive. -/
theorem exclusive_attach (e : BulkMatchingEngine) (now : String) (docs : OpenDocuments)
    (hids : (transactions.map Tx.id).Nodup) : Exclusive (e.attach now transactions docs) := by
  intro y hy y' hy' key hholds hholds'
  obtain ⟨tx, htx, rfl⟩ := List.mem_map.mp hy
  obtain ⟨tx', htx', rfl⟩ := List.mem_map.mp hy'
  obtain ⟨hid, hmatches, -⟩ := enrich_cases (e.computeSuggestions now transactions docs) tx
  obtain ⟨hid', hmatches', -⟩ := enrich_cases (e.computeSuggestions now transactions docs) tx'
  obtain ⟨m, hm, hkey⟩ := hholds
  obtain ⟨m', hm', hkey'⟩ := hholds'
  rw [hmatches] at hm
  rw [hmatches'] at hm'
  rw [hid, hid', exclusive_matchesOf hids htx htx' hm hm' (hkey.trans hkey'.symm)]

/-- The ids stay over a run. -/
theorem ids_run (arrivals : List Arrival) (hids : (transactions.map Tx.id).Nodup) :
    (run arrive transactions arrivals).map Tx.id = transactions.map Tx.id := by
  induction arrivals using List.reverseRecOn with
  | nil => rfl
  | append_singleton arrivals d ih => rw [run_concat, ids_arrive (ih ▸ hids), ih]

/-- **Documents stay with one transaction exactly when none comes to a second one.** -/
theorem exclusive_run_iff (e : BulkMatchingEngine) (now : String) (transactions : List Tx) (docs : OpenDocuments)
    (arrivals : List Arrival) (hids : (transactions.map Tx.id).Nodup) :
    (∀ pre, pre <+: arrivals → Exclusive (run arrive (e.attach now transactions docs) pre)) ↔
      Guarded arrive OneTaker (e.attach now transactions docs) arrivals := by
  have hstart : ((e.attach now transactions docs).map Tx.id).Nodup := by
    rw [ids_attach]
    exact hids
  have hstep : ∀ txs : List Tx, ∀ d ∈ arrivals, (txs.map Tx.id).Nodup ∧ Exclusive txs →
      (((arrive txs d).map Tx.id).Nodup ∧ Exclusive (arrive txs d) ↔ OneTaker txs d) := by
    intro txs d _ hgood
    rw [ids_arrive hgood.1, exclusive_arrive_iff hgood.1 hgood.2]
    exact and_iff_right hgood.1
  have hrun := forall_prefix_iff_guarded (fun txs : List Tx => (txs.map Tx.id).Nodup ∧ Exclusive txs)
    (e.attach now transactions docs) arrivals hstep
  constructor
  · intro h
    refine (hrun.mp fun pre hpre => ⟨?_, h pre hpre⟩).2
    rw [ids_run pre hstart]
    exact hstart
  · intro hguard pre hpre
    exact (hrun.mpr ⟨⟨hstart, exclusive_attach e now docs hids⟩, hguard⟩ pre hpre).2

/-- An invoice of a supplier arrives. -/
def invoiceArrives (id : ℤ) (amount : ℚ) (date : String) : Arrival :=
  ⟨.withRates .binary64 ∅, "now", invoiceDue id amount "CHF" date, .invoice⟩

/-- Two payments of different amounts, and an invoice for each of them. -/
theorem exclusive_run_two_amounts :
    let transactions := [movement "601" (-1000) 7 "2026-03-05", movement "602" (-400) 7 "2026-03-01"]
    let start := attach (.withRates .binary64 ∅) "now" transactions ⟨[], [], []⟩
    let arrivals := [invoiceArrives 3001 1000 "2026-03-05", invoiceArrives 3002 400 "2026-03-01"]
    (∀ pre, pre <+: arrivals → Exclusive (run arrive start pre)) ∧
      (run arrive start arrivals).map (fun tx => tx.topMatches.map Suggestion.key) =
        [["invoice:3001"], ["invoice:3002"]] :=
  ⟨(exclusive_run_iff _ _ _ _ _ (by decide)).mpr (by decide +kernel), by decide +kernel⟩

/-- **Two payments take one invoice**: it arrives after the batch and fits both of them. -/
theorem exclusive_run_broken :
    let transactions := [movement "601" (-1000) 7 "2026-03-05", movement "602" (-1000) 7 "2026-03-01"]
    let start := attach (.withRates .binary64 ∅) "now" transactions ⟨[], [], []⟩
    let arrivals := [invoiceArrives 3001 1000 "2026-03-05"]
    (transactions.map Tx.id).Nodup ∧ ¬∀ pre, pre <+: arrivals → Exclusive (run arrive start pre) := by
  refine ⟨by decide, fun h => ?_⟩
  exact absurd (h _ (List.prefix_refl _)) (by decide +kernel)

end Exclusivity

/-! ### Transfers -/

/-- No transaction has a transfer and documents. -/
def Separate (transactions : List Tx) : Prop :=
  ∀ tx ∈ transactions, tx.transferMatch.isSome → tx.topMatches = []

/-- A document fits no side of a transfer; transactions of the same id count as one. -/
def MissesTransfers (transactions : List Tx) (d : Arrival) : Prop :=
  0 < d.engine.config.maxSuggestions → ∀ tx ∈ transactions, tx.transferMatch.isSome →
    ∀ tx' ∈ transactions, tx'.id = tx.id → d.suggestion tx' = none

instance (transactions : List Tx) : Decidable (Separate transactions) :=
  inferInstanceAs (Decidable (∀ tx ∈ transactions, tx.transferMatch.isSome → tx.topMatches = []))

instance (transactions : List Tx) (d : Arrival) : Decidable (MissesTransfers transactions d) :=
  inferInstanceAs (Decidable (0 < d.engine.config.maxSuggestions → ∀ tx ∈ transactions, tx.transferMatch.isSome →
    ∀ tx' ∈ transactions, tx'.id = tx.id → d.suggestion tx' = none))

section Transfers

variable {d : Arrival} {transactions : List Tx} {tx : Tx}

/-- There is no score for an id exactly when the document fits no transaction of that id. -/
theorem get?_scores_eq_none_iff (d : Arrival) (transactions : List Tx) (id : String) :
    (d.engine.scoreSingleCandidate d.candidate d.type transactions).get? id = none ↔
      ∀ tx ∈ transactions, tx.id = id → d.suggestion tx = none := by
  induction transactions using List.reverseRecOn with
  | nil => exact iff_of_true rfl fun tx htx => absurd htx List.not_mem_nil
  | append_singleton transactions x ih =>
      have hlast : (∀ tx ∈ transactions ++ [x], tx.id = id → d.suggestion tx = none) ↔
          (∀ tx ∈ transactions, tx.id = id → d.suggestion tx = none) ∧ (x.id = id → d.suggestion x = none) := by
        simp only [List.forall_mem_append, List.forall_mem_singleton]
      rw [hlast, ← ih, scoreSingleCandidate, List.foldl_append, List.foldl_cons, List.foldl_nil]
      unfold Arrival.suggestion
      cases d.engine.suggestionFor d.candidate d.type x with
      | none => simp [scoreSingleCandidate]
      | some s =>
          simp only [Dict.get?_set, reduceCtorEq, imp_false]
          by_cases hid : id = x.id
          · simp [hid]
          · simp [hid, Ne.symm hid, scoreSingleCandidate]

/-- A transaction without matches takes a document that is scored for its id, if it may have any. -/
theorem topMatches_take_of_empty (e : BulkMatchingEngine) (now : String) (new : Suggestion)
    (hempty : tx.topMatches = []) :
    (e.take now tx new).1.topMatches = [] ↔ ¬0 < e.config.maxSuggestions := by
  rw [topMatches_take, hempty]
  by_cases hmax : 0 < e.config.maxSuggestions
  · simp [placeMatch, hmax, sortByScore]
  · simp [placeMatch, hmax, minScore]

/-- What a document does to a transaction of a list. -/
def Arrival.reaches (d : Arrival) (transactions : List Tx) (tx : Tx) : Tx :=
  match (d.engine.scoreSingleCandidate d.candidate d.type transactions).get? tx.id with
  | none => tx
  | some new => (d.engine.take d.now tx new).1

theorem arrive_eq_reaches (d : Arrival) (transactions : List Tx) :
    arrive transactions d = transactions.map (d.reaches transactions) := by
  simp only [arrive, updateSuggestionsWithCandidate, List.map_map]
  refine List.map_congr_left fun tx _ => ?_
  simp only [Function.comp, Arrival.reaches]
  cases (d.engine.scoreSingleCandidate d.candidate d.type transactions).get? tx.id <;> rfl

theorem transferMatch_reaches (d : Arrival) (transactions : List Tx) (tx : Tx) :
    (d.reaches transactions tx).transferMatch = tx.transferMatch := by
  unfold Arrival.reaches
  split
  · rfl
  · exact transferMatch_take _ _ _

/-- A transaction without matches stays without if nothing was scored for its id, or if it may have none. -/
theorem topMatches_reaches_iff (d : Arrival) (transactions : List Tx) (hempty : tx.topMatches = []) :
    (d.reaches transactions tx).topMatches = [] ↔
      (0 < d.engine.config.maxSuggestions → ∀ tx' ∈ transactions, tx'.id = tx.id → d.suggestion tx' = none) := by
  rw [← get?_scores_eq_none_iff, Arrival.reaches]
  cases (d.engine.scoreSingleCandidate d.candidate d.type transactions).get? tx.id with
  | none => exact iff_of_true hempty fun _ => rfl
  | some new =>
      rw [topMatches_take_of_empty _ _ _ hempty]
      simp only [reduceCtorEq, imp_false]

/-- One document leaves the transfers alone exactly when it fits none of their sides. -/
theorem separate_arrive_iff (hsep : Separate transactions) :
    Separate (arrive transactions d) ↔ MissesTransfers transactions d := by
  rw [arrive_eq_reaches]
  constructor
  · intro h hmax tx htx htransfer
    refine (topMatches_reaches_iff d transactions (hsep tx htx htransfer)).mp ?_ hmax
    refine h _ (List.mem_map_of_mem htx) ?_
    rw [transferMatch_reaches]
    exact htransfer
  · intro h y hy htransfer
    obtain ⟨tx, htx, rfl⟩ := List.mem_map.mp hy
    rw [transferMatch_reaches] at htransfer
    refine (topMatches_reaches_iff d transactions (hsep tx htx htransfer)).mpr ?_
    exact fun hmax => h hmax tx htx htransfer

/-- A result of a batch has a transfer or documents. -/
theorem separate_results {e : BulkMatchingEngine} {now : String} {docs : OpenDocuments} {id : String}
    {s : MatchSuggestions} (h : (e.computeSuggestions now transactions docs).get? id = some s)
    (htransfer : s.transferMatch.isSome) : s.topMatches = [] := by
  let result := resultOf now (e.buildTransferIndex transactions)
    (e.assigned (sortPairs (e.allPairs transactions docs)))
  have hresult : ∀ tx, (result tx).transferMatch.isSome → (result tx).topMatches = [] :=
    fun tx htransfer => if_pos htransfer
  have hfold : ∀ txs : List Tx,
      (txs.foldl (fun results tx => results.set tx.id (result tx)) (∅ : Dict String MatchSuggestions)).get? id =
        some s → s.topMatches = [] := by
    intro txs
    induction txs using List.reverseRecOn with
    | nil => exact fun h => absurd h (by simp)
    | append_singleton txs tx ih =>
        rw [List.foldl_append, List.foldl_cons, List.foldl_nil, Dict.get?_set]
        split
        · intro h
          rw [← Option.some.inj h] at htransfer ⊢
          exact hresult tx htransfer
        · exact ih
  exact hfold transactions h

/-- A batch keeps transfers and documents apart. -/
theorem separate_attach (e : BulkMatchingEngine) (now : String) (transactions : List Tx) (docs : OpenDocuments) :
    Separate (e.attach now transactions docs) := by
  intro y hy htransfer
  obtain ⟨tx, _, rfl⟩ := List.mem_map.mp hy
  obtain ⟨-, hmatches, htransfers⟩ := enrich_cases (e.computeSuggestions now transactions docs) tx
  rw [htransfers, transferOf] at htransfer
  rw [hmatches, matchesOf]
  cases hget : (e.computeSuggestions now transactions docs).get? tx.id with
  | none => rfl
  | some s =>
      rw [hget] at htransfer
      exact separate_results hget htransfer

/-- **Transfers stay without documents exactly when no document fits a side of a transfer.** -/
theorem separate_run_iff (e : BulkMatchingEngine) (now : String) (transactions : List Tx) (docs : OpenDocuments)
    (arrivals : List Arrival) :
    (∀ pre, pre <+: arrivals → Separate (run arrive (e.attach now transactions docs) pre)) ↔
      Guarded arrive MissesTransfers (e.attach now transactions docs) arrivals := by
  rw [forall_prefix_iff_guarded Separate _ arrivals fun txs d _ hsep => separate_arrive_iff hsep]
  exact and_iff_right (separate_attach e now transactions docs)

/-- **A side of a transfer takes an invoice**: it arrives after the batch and has the amount of the transfer. -/
theorem separate_run_broken :
    let transactions := [movement "701" (-500) 7 "2026-03-05", movement "702" 500 8 "2026-03-05"]
    let start := attach (.withRates .binary64 ∅) "now" transactions ⟨[], [], []⟩
    let arrivals := [invoiceArrives 3001 500 "2026-03-05"]
    ¬∀ pre, pre <+: arrivals → Separate (run arrive start pre) := by
  intro transactions start arrivals h
  exact absurd (h _ (List.prefix_refl _)) (by decide +kernel)

end Transfers

end Pinnokio.Matching
