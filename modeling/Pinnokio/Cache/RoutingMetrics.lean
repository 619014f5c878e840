import Pinnokio.Lib.Documents
import Pinnokio.Realtime.TaskMessages

/-!
# The figures of the routing dashboard

`MetricsCalculator.get_routing_metrics` reads the cached routing data in one of two layouts.  With the lists of the
categories it counts their lengths; with one flat list of documents it classifies their statuses with a table of its
own.  The lists are filled by the table of `StatusNormalizer`, which knows other words and strips blanks.

* `classifyText_eq_iff`, `listOf_eq_iff` — the words of a figure in the two tables;
* `getRoutingMetrics_flat`, `getRoutingMetrics_categorised` — the figures of the two layouts;
* `routing_metrics_agree_iff` — **when the two layouts have the same figures**.
-/

namespace Pinnokio.Cache

open Pinnokio.ActiveJobs Pinnokio.Realtime Pinnokio.Realtime.TaskMessages Pinnokio.Text

/-! ### The calculator -/

/-- `ModuleMetrics`. -/
structure ModuleMetrics where
  toProcess : ℕ
  inProcess : ℕ
  pending : ℕ
  processed : ℕ
  deriving DecidableEq

/-- `len(v)`; `none` is the `TypeError` of a value that has no length. -/
def lengthOf : Value → Option ℕ
  | .list items => some items.length
  | .map fields => some fields.length
  | .scalar (.str s) => some s.toList.length
  | .scalar _ => none

section Calculator

/- The case mapping `str.lower` of the interpreter, for all of Unicode. -/
variable (lower : String → String)

/-- `TO_PROCESS_STATUSES`, `IN_PROCESS_STATUSES`, `PENDING_STATUSES`, `PROCESSED_STATUSES`. -/
def metricStatuses : Category → List String
  | .toProcess => ["to_process", "to_do", "new", "pending_process", "unprocessed", "to_reconcile"]
  | .inProcess => ["in_process", "processing", "running", "in_progress"]
  | .pending => ["pending", "pending_approval", "awaiting_approval", "waiting"]
  | .processed => ["processed", "completed", "done", "matched", "reconciled", "approved"]

/-- `classify_status` of a text. -/
def classifyText (status : String) : Category :=
  let statusLower := if status = "" then "" else lower status
  if statusLower ∈ metricStatuses .toProcess then .toProcess
  else if statusLower ∈ metricStatuses .inProcess then .inProcess
  else if statusLower ∈ metricStatuses .pending then .pending
  else if statusLower ∈ metricStatuses .processed then .processed
  else .toProcess

/-- `classify_status`; `none` is the `AttributeError` of a status that is not a text. -/
def classifyStatus : Value → Option Category
  | .scalar (.str s) => some (classifyText lower s)
  | v => if v.truthy then none else some (classifyText lower "")

/-- The category of an item, an error if the item is not a map. -/
def itemCategory : Value → Option Category
  | .map item => classifyStatus lower ((Document.get? item "status").getD (.text ""))
  | _ => none

/-- `_count_by_status`. -/
def countByStatus (items : List Value) : Option (Category → ℕ) :=
  items.foldlM (fun counts item => (itemCategory lower item).map fun c => Function.update counts c (counts c + 1))
    fun _ => 0

/-- `_get_business_data`, from the decoded value of the key; the cache manager wraps the data. -/
def getBusinessData (cached : Option Value) : Option Value :=
  match cached with
  | some (.map parsed) =>
      if (Document.get? parsed "cache_version").isSome then (Document.get? parsed "data").or cached else cached
  | _ => cached

/-- `get_routing_metrics`; `none` is an error. -/
def getRoutingMetrics (cached : Option Value) : Option ModuleMetrics :=
  match getBusinessData cached with
  | none => some ⟨0, 0, 0, 0⟩
  | some data =>
      if data.truthy then
        match data with
        | .map fields =>
            let list := fun k => (Document.get? fields k).getD (.list [])
            if ["to_process", "in_process", "pending", "processed"].any fun k => (list k).truthy then do
              let toProcess ← lengthOf (list "to_process")
              let inProcess ← lengthOf (list "in_process")
              let pending ← lengthOf (list "pending")
              let processed ← lengthOf (list "processed")
              return ⟨toProcess, inProcess, pending, processed⟩
            else do
              let documents ← (list "documents").elements
              let counts ← countByStatus lower documents
              return ⟨counts .toProcess, counts .inProcess, counts .pending, counts .processed⟩
        | _ => none
      else some ⟨0, 0, 0, 0⟩

/-! ### The two layouts -/

/-- The status of a document, if it is a text or missing. -/
def statusOf (d : Document) : Option String :=
  match Document.get? d "status" with
  | none => some ""
  | some (.scalar .none) => some ""
  | some (.scalar (.str s)) => some s
  | some _ => none

/-- The text of the status. -/
def textOf (d : Document) : String := (statusOf d).getD ""

/-- The flat layout. -/
def flatLayout (docs : List Document) : Value := .map [("documents", .list (docs.map Value.map))]

/-- The list of a document: `StatusNormalizer.get_category(StatusNormalizer.normalize(status))`. -/
def listOf (d : Document) : Category := getCategory (normalize lower (textOf d) "to_process")

/-- The layout with the lists of the categories. -/
def categorisedLayout (docs : List Document) : Value :=
  .map (Category.all.map fun c => (categoryKey c, .list ((docs.filter fun d => listOf lower d = c).map Value.map)))

/-- The value of the key: the data, or what the cache manager wraps around them. -/
def cachedAs (cachedAt : Option Value) (data : Value) : Value :=
  match cachedAt with
  | none => data
  | some time => .map [("data", data), ("cached_at", time), ("cache_version", .text "3.0")]

/-! ### The words -/

/-- The words that only the flat count has for a figure. -/
def flatWords : Category → List String
  | .toProcess => []
  | .inProcess => ["in_process", "in_progress"]
  | .pending => ["pending_approval", "awaiting_approval", "waiting"]
  | .processed => ["processed", "matched", "reconciled", "approved"]

/-- The words that only the lists have for a figure. -/
def listWords : Category → List String
  | .toProcess => []
  | .inProcess => ["in queue", "in_queue", "queued", "on_process", "stopping"]
  | .pending => []
  | .processed => ["success", "close", "closed", "finished", "routed"]

/-- The words that both have. -/
def commonWords : Category → List String
  | .toProcess => []
  | .inProcess => ["running", "processing"]
  | .pending => ["pending"]
  | .processed => ["completed", "done"]

/-- A status that counts for a figure in the flat layout only. -/
def OnlyFlat (c : Category) (d : Document) : Prop := textOf d ≠ "" ∧ lower (textOf d) ∈ flatWords c

/-- A status that counts for a figure in the lists only: a word of the lists, or a common word with blanks around it. -/
def OnlyListed (c : Category) (d : Document) : Prop :=
  textOf d ≠ "" ∧ (normalizedKey lower (textOf d) ∈ listWords c ∨
    normalizedKey lower (textOf d) ∈ commonWords c ∧ lower (textOf d) ∉ commonWords c)

/-- A status that counts for a figure in both layouts. -/
def InBoth (c : Category) (d : Document) : Prop := textOf d ≠ "" ∧ lower (textOf d) ∈ commonWords c

instance (c : Category) : DecidablePred (OnlyFlat lower c) := fun d =>
  inferInstanceAs (Decidable (textOf d ≠ "" ∧ lower (textOf d) ∈ flatWords c))

instance (c : Category) : DecidablePred (OnlyListed lower c) := fun d =>
  inferInstanceAs (Decidable (textOf d ≠ "" ∧ (normalizedKey lower (textOf d) ∈ listWords c ∨
    normalizedKey lower (textOf d) ∈ commonWords c ∧ lower (textOf d) ∉ commonWords c)))

instance (c : Category) : DecidablePred (InBoth lower c) := fun d =>
  inferInstanceAs (Decidable (textOf d ≠ "" ∧ lower (textOf d) ∈ commonWords c))

end Calculator

section Words

variable {lower : String → String} {c : Category}

/-- The flat count has these words, besides those of the first figure. -/
theorem metricStatuses_perm : ∀ c, c ≠ .toProcess → (metricStatuses c).Perm (flatWords c ++ commonWords c) := by
  decide

theorem metricStatuses_toProcess :
    ∀ word ∈ metricStatuses .toProcess, ∀ c, word ∉ flatWords c ++ commonWords c := by decide

/-- A word is one of one figure only. -/
theorem flatWords_distinct :
    ∀ c, ∀ word ∈ flatWords c ++ commonWords c, ∀ d, word ∈ flatWords d ++ commonWords d → c = d := by decide

/-- The words of the lists are those that are published. -/
theorem publishedCategory_word : ∀ c, ∀ word ∈ listWords c ++ commonWords c, publishedCategory word = c := by decide

theorem word_of_publishedCategory {word : String} (h : publishedCategory word = c) (hc : c ≠ .toProcess) :
    word ∈ listWords c ++ commonWords c := by
  have hrunning : ∀ w ∈ ["running", "processing", "in queue", "in_queue", "queued", "on_process", "stopping"],
      w ∈ listWords .inProcess ++ commonWords .inProcess := by decide
  have hdone : ∀ w ∈ ["success", "close", "closed", "done", "finished", "completed", "routed"],
      w ∈ listWords .processed ++ commonWords .processed := by decide
  subst h
  rw [publishedCategory] at hc ⊢
  split_ifs at hc ⊢ with h₁ h₂ h₃
  · exact hrunning word h₁
  · exact List.mem_singleton.mpr h₂
  · exact hdone word h₃
  · exact absurd rfl hc

/-- The words of a figure in the flat layout. -/
theorem classifyText_eq_iff {status : String} (hc : c ≠ .toProcess) : classifyText lower status = c ↔
    status ≠ "" ∧ (lower status ∈ flatWords c ∨ lower status ∈ commonWords c) := by
  by_cases hempty : status = ""
  · subst hempty
    have hdefault : classifyText lower "" = .toProcess := by simp [classifyText, metricStatuses]
    rw [hdefault]
    exact iff_of_false (Ne.symm hc) fun h => h.1 rfl
  · rw [classifyText, if_neg hempty, and_iff_right hempty, ← List.mem_append]
    generalize lower status = word
    have hwords : ∀ d ≠ .toProcess, (word ∈ metricStatuses d ↔ word ∈ flatWords d ++ commonWords d) :=
      fun d hd => (metricStatuses_perm d hd).mem_iff
    have hfigure : ∀ d ≠ .toProcess, word ∈ metricStatuses d → (d = c ↔ word ∈ flatWords c ++ commonWords c) := by
      intro d hd hword
      rw [hwords d hd] at hword
      exact ⟨fun h => h ▸ hword, flatWords_distinct d word hword c⟩
    split_ifs with htodo hrunning hpending hdone
    · exact iff_of_false (Ne.symm hc) (metricStatuses_toProcess word htodo c)
    · exact hfigure .inProcess (by decide) hrunning
    · exact hfigure .pending (by decide) hpending
    · exact hfigure .processed (by decide) hdone
    · refine iff_of_false (Ne.symm hc) ?_
      rw [← hwords c hc]
      cases c <;> assumption

/-- The list of a text is that of the normaliser's table. -/
theorem getCategory_normalize {status : String} (h : status ≠ "") :
    getCategory (normalize lower status "to_process") = publishedCategory (normalizedKey lower status) := by
  rw [ActiveJobs.normalize, if_neg h]
  cases hget : rawToNormalized.get? (normalizedKey lower status) with
  | some s => exact rawToNormalized_category _ (Dict.mem_entries_iff.mpr hget)
  | none =>
      obtain ⟨hcategory, hpublished⟩ := category_of_not_mem (Dict.get?_eq_none_iff.mp hget)
      exact hcategory.trans hpublished.symm

/-- The words of a list. -/
theorem listOf_eq_iff {d : Document} (hc : c ≠ .toProcess) : listOf lower d = c ↔
    textOf d ≠ "" ∧
      (normalizedKey lower (textOf d) ∈ listWords c ∨ normalizedKey lower (textOf d) ∈ commonWords c) := by
  rw [listOf]
  by_cases hempty : textOf d = ""
  · have hdefault : getCategory (normalize lower "" "to_process") = .toProcess := by
      rw [ActiveJobs.normalize, if_pos rfl]
      decide
    rw [hempty, hdefault]
    exact iff_of_false (Ne.symm hc) fun h => h.1 rfl
  · rw [getCategory_normalize hempty, and_iff_right hempty, ← List.mem_append]
    exact ⟨fun h => word_of_publishedCategory h hc, publishedCategory_word c _⟩

theorem strip_commonWords : ∀ c, ∀ word ∈ commonWords c, strip word = word := by decide

/-- A common word counts in the lists as well. -/
theorem key_of_common {status : String} (h : lower status ∈ commonWords c) :
    normalizedKey lower status ∈ commonWords c := by
  rw [normalizedKey, strip_commonWords c _ h]
  exact h

end Words

/-! ### The figures -/

/-- A count of two kinds that exclude each other. -/
theorem countP_add {α : Type*} {p q r : α → Prop} [DecidablePred p] [DecidablePred q] [DecidablePred r] (xs : List α)
    (hiff : ∀ x, p x ↔ q x ∨ r x) (hnot : ∀ x, q x → ¬r x) :
    xs.countP (fun x => p x) = xs.countP (fun x => q x) + xs.countP (fun x => r x) := by
  induction xs with
  | nil => rfl
  | cons x xs ih =>
      rw [List.countP_cons, List.countP_cons, List.countP_cons, ih]
      by_cases hq : q x
      · simp [(hiff x).mpr (.inl hq), hq, hnot x hq]
        omega
      · by_cases hr : r x
        · simp [(hiff x).mpr (.inr hr), hq, hr]
          omega
        · simp [hq, hr, (hiff x).not.mpr (not_or.mpr ⟨hq, hr⟩)]

/-- The four figures of any classification add up to the number of documents. -/
theorem countP_categories {α : Type*} (f : α → Category) (xs : List α) :
    xs.countP (fun x => f x = .toProcess) + xs.countP (fun x => f x = .inProcess) +
      xs.countP (fun x => f x = .pending) + xs.countP (fun x => f x = .processed) = xs.length := by
  induction xs with
  | nil => rfl
  | cons x xs ih =>
      simp only [List.countP_cons, List.length_cons]
      cases f x <;> simp <;> omega

/-- The metrics of four counts. -/
def figures (counts : Category → ℕ) : ModuleMetrics :=
  ⟨counts .toProcess, counts .inProcess, counts .pending, counts .processed⟩

theorem figures_inj {f g : Category → ℕ} : figures f = figures g ↔ ∀ c, f c = g c := by
  simp only [figures, ModuleMetrics.mk.injEq]
  refine ⟨fun ⟨h₁, h₂, h₃, h₄⟩ c => ?_, fun h => ⟨h _, h _, h _, h _⟩⟩
  cases c <;> assumption

section Figures

variable {lower : String → String} {docs : List Document} {c : Category}

theorem itemCategory_map {d : Document} (h : (statusOf d).isSome) :
    itemCategory lower (.map d) = some (classifyText lower (textOf d)) := by
  rw [itemCategory, textOf]
  rw [statusOf] at h ⊢
  cases hget : Document.get? d "status" with
  | none => rfl
  | some v =>
      cases v with
      | scalar v => cases v <;> simp_all [classifyStatus, Value.truthy, Scalar.truthy]
      | list items => simp [hget] at h
      | map fields => simp [hget] at h

theorem countP_classify (hc : c ≠ .toProcess) : docs.countP (fun d => classifyText lower (textOf d) = c) =
    docs.countP (fun d => OnlyFlat lower c d) + docs.countP (fun d => InBoth lower c d) := by
  have hdisjoint : ∀ c, ∀ word ∈ flatWords c, word ∉ commonWords c := by decide
  refine countP_add docs (fun d => ?_) fun d hflat hboth => hdisjoint c _ hflat.2 hboth.2
  rw [classifyText_eq_iff hc, OnlyFlat, InBoth]
  exact and_or_left

theorem countP_listOf (hc : c ≠ .toProcess) : docs.countP (fun d => listOf lower d = c) =
    docs.countP (fun d => OnlyListed lower c d) + docs.countP (fun d => InBoth lower c d) := by
  have hdisjoint : ∀ c, ∀ word ∈ listWords c, word ∉ commonWords c := by decide
  refine countP_add docs (fun d => ?_) fun d hlisted hboth => ?_
  · rw [listOf_eq_iff hc, OnlyListed, InBoth, ← and_or_left, or_assoc]
    refine and_congr_right fun _ => or_congr_right ?_
    by_cases hcommon : lower (textOf d) ∈ commonWords c
    · exact iff_of_true (key_of_common hcommon) (.inr hcommon)
    · rw [and_iff_left hcommon, or_iff_left hcommon]
  · rcases hlisted.2 with hword | ⟨-, hnot⟩
    · exact hdisjoint c _ hword (key_of_common hboth.2)
    · exact hnot hboth.2

/-- The count of documents whose statuses are texts. -/
theorem countByStatus_map (hdocs : ∀ d ∈ docs, (statusOf d).isSome) (counts : Category → ℕ) :
    (docs.map Value.map).foldlM
      (fun counts item => (itemCategory lower item).map fun c => Function.update counts c (counts c + 1)) counts =
      some fun c => counts c + docs.countP fun d => classifyText lower (textOf d) = c := by
  induction docs generalizing counts with
  | nil => rfl
  | cons d docs ih =>
      rw [List.map_cons, List.foldlM_cons, itemCategory_map (hdocs d List.mem_cons_self)]
      show (docs.map Value.map).foldlM _ (Function.update counts _ _) = _
      rw [ih fun e he => hdocs e (List.mem_cons_of_mem d he)]
      congr 1
      funext c
      rw [List.countP_cons]
      by_cases hc : classifyText lower (textOf d) = c
      · subst hc
        simp
        omega
      · simp [hc, Function.update_of_ne (Ne.symm hc)]

/-- The cache manager's wrapper is taken off. -/
theorem getBusinessData_cachedAs {data : Value} (h : getBusinessData (some data) = some data)
    (cachedAt : Option Value) : getBusinessData (some (cachedAs cachedAt data)) = some data := by
  cases cachedAt with
  | none => exact h
  | some time => simp [cachedAs, getBusinessData, Document.get?, Dict.getList]

/-- The figures of the flat layout. -/
theorem getRoutingMetrics_flat (hdocs : ∀ d ∈ docs, (statusOf d).isSome) (cachedAt : Option Value) :
    getRoutingMetrics lower (some (cachedAs cachedAt (flatLayout docs))) =
      some (figures fun c => docs.countP fun d => classifyText lower (textOf d) = c) := by
  have hlists : ∀ k ≠ "documents", Document.get? [("documents", Value.list (docs.map .map))] k = none := fun k hk => by
    simp [Document.get?, Dict.getList, Ne.symm hk]
  have hdocuments : Document.get? [("documents", Value.list (docs.map .map))] "documents" =
      some (.list (docs.map .map)) := by simp [Document.get?, Dict.getList]
  have hdata : getBusinessData (some (flatLayout docs)) = some (flatLayout docs) := by
    simp [getBusinessData, flatLayout, hlists]
  rw [getRoutingMetrics, getBusinessData_cachedAs hdata]
  simp only [flatLayout, Value.truthy, List.isEmpty_cons, Bool.not_false, if_true, List.any_cons, List.any_nil,
    hlists "to_process" (by decide), hlists "in_process" (by decide), hlists "pending" (by decide),
    hlists "processed" (by decide), hdocuments, Option.getD_none, Option.getD_some, List.isEmpty_nil, Bool.not_true,
    Bool.or_false, Bool.false_eq_true, if_false, Value.elements]
  show (countByStatus lower (docs.map .map) >>= fun counts => some (figures counts)) = _
  rw [countByStatus, countByStatus_map hdocs]
  simp

theorem get?_categorisedLayout (lower : String → String) (docs : List Document) (c : Category) :
    Document.get? (Value.fieldsOf (some (categorisedLayout lower docs))) (categoryKey c) =
      some (.list ((docs.filter fun d => listOf lower d = c).map Value.map)) := by
  cases c <;>
    simp [categorisedLayout, Value.fieldsOf, Category.all, categoryKey, Document.get?, Dict.getList]

/-- The figures of the layout with the lists. -/
theorem getRoutingMetrics_categorised (cachedAt : Option Value) :
    getRoutingMetrics lower (some (cachedAs cachedAt (categorisedLayout lower docs))) =
      some (figures fun c => docs.countP fun d => listOf lower d = c) := by
  have hlist := get?_categorisedLayout lower docs
  obtain ⟨fields, hfields⟩ : ∃ fields, categorisedLayout lower docs = .map fields := ⟨_, rfl⟩
  have hnames : fields.map Prod.fst = ["to_process", "in_process", "pending", "processed"] := by
    rw [categorisedLayout, Value.map.injEq] at hfields
    rw [← hfields]
    rfl
  have hother : ∀ k ∉ ["to_process", "in_process", "pending", "processed"], Document.get? fields k = none := by
    rw [← hnames]
    exact fun k hk => Dict.getList_eq_none_iff.mpr hk
  have htruthy : (Value.map fields).truthy = true := by
    cases fields with
    | nil => cases hnames
    | cons e es => rfl
  have hdata : getBusinessData (some (.map fields)) = some (.map fields) := by
    simp [getBusinessData, hother "cache_version" (by decide)]
  rw [hfields, Value.fieldsOf] at hlist
  rw [hfields, getRoutingMetrics, getBusinessData_cachedAs hdata]
  have hlength : ∀ c, lengthOf (.list ((docs.filter fun d => listOf lower d = c).map Value.map)) =
      some (docs.countP fun d => listOf lower d = c) := fun c => by
    rw [lengthOf, List.length_map, List.countP_eq_length_filter]
  show (if (Value.map fields).truthy then _ else _) = _
  rw [if_pos htruthy]
  simp only [show "to_process" = categoryKey .toProcess from rfl, show "in_process" = categoryKey .inProcess from rfl,
    show "pending" = categoryKey .pending from rfl, show "processed" = categoryKey .processed from rfl, hlist,
    Option.getD_some, hlength, hother "documents" (by decide)]
  split_ifs with hany
  · rfl
  · -- no list has an item, so no document is in a list
    have hempty : ∀ c, (docs.countP fun d => listOf lower d = c) = 0 := fun c => by
      rw [List.countP_eq_length_filter, List.length_eq_zero_iff]
      cases c <;> simp_all [Value.truthy]
    simp [hempty, figures, countByStatus, Value.elements]

/-- **When the two layouts have the same figures.**  For every figure but the first, the documents that only the flat
count has are as many as those that only the list has. -/
theorem routing_metrics_agree_iff (hdocs : ∀ d ∈ docs, (statusOf d).isSome) (flatAt listedAt : Option Value) :
    getRoutingMetrics lower (some (cachedAs flatAt (flatLayout docs))) =
        getRoutingMetrics lower (some (cachedAs listedAt (categorisedLayout lower docs))) ↔
      ∀ c ≠ .toProcess, docs.countP (fun d => OnlyFlat lower c d) = docs.countP fun d => OnlyListed lower c d := by
  rw [getRoutingMetrics_flat hdocs, getRoutingMetrics_categorised, Option.some_inj, figures_inj]
  constructor
  · intro h c hc
    have hcount := h c
    rw [countP_classify hc, countP_listOf hc] at hcount
    exact Nat.add_right_cancel hcount
  · intro h
    have hcount : ∀ c ≠ .toProcess, docs.countP (fun d => classifyText lower (textOf d) = c) =
        docs.countP fun d => listOf lower d = c := fun c hc => by
      rw [countP_classify hc, countP_listOf hc, h c hc]
    intro c
    by_cases hc : c = .toProcess
    · -- the documents of the other figures are as many, and so are all the documents
      subst hc
      have hflat := countP_categories (fun d => classifyText lower (textOf d)) docs
      have hlisted := countP_categories (fun d => listOf lower d) docs
      have hrunning := hcount .inProcess (by decide)
      have hpending := hcount .pending (by decide)
      have hdone := hcount .processed (by decide)
      omega
    · exact hcount c hc

end Figures

/-- Two documents whose words both tables have. -/
theorem routing_metrics_agree_common :
    getRoutingMetrics Text.lower (some (cachedAs none (flatLayout
        [[("status", .text "Pending")], [("status", .text "running")], [("name", .text "a")]]))) =
      getRoutingMetrics Text.lower (some (cachedAs none (categorisedLayout Text.lower
        [[("status", .text "Pending")], [("status", .text "running")], [("name", .text "a")]]))) :=
  (routing_metrics_agree_iff (by decide) none none).mpr (by decide)

/-- A routed document is processed in the lists; the flat count has it to process. -/
theorem routed_document_differs :
    getRoutingMetrics Text.lower (some (flatLayout [[("status", .text "routed")]])) = some ⟨1, 0, 0, 0⟩ ∧
      getRoutingMetrics Text.lower (some (categorisedLayout Text.lower [[("status", .text "routed")]])) =
        some ⟨0, 0, 0, 1⟩ := by
  decide

end Pinnokio.Cache
