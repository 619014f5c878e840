import Pinnokio.Lib.Documents
import Pinnokio.Lib.Runs
import Pinnokio.Lib.Text

/-!
# The migration of the expenses

The expenses of a mandate are the entries of a map in one document; the migration copies them, in batches, to a
sub-collection and removes the map at the end.  Until then an update or a deletion edits the copy in the
sub-collection, if there is one, and the entry of the map otherwise.

* `migrateExpensesToCollection`, `updateExpenseInFirebase`, `deleteExpenseFromFirebase` — the calls;
* `migrate_cases` — what an attempt leaves, wherever it fails;
* `migration_preserves` — after an attempt that succeeds the sub-collection holds the expenses with all their edits,
  as long as no call has edited an expense that both structures held.
-/

namespace Pinnokio.Expenses

open Pinnokio.Runs Pinnokio.Text

/-! ### The calls -/

/-- The field `items` of `expenses_details`, empty when it is missing, and the documents of the sub-collection
`items`. -/
structure ExpenseStore where
  items : Dict String Value
  collection : Dict String Document

/-- The operation of an attempt that raises: a commit, counted from zero, or the removal of the field. -/
inductive MigrationFault where
  | commit (n : ℕ)
  | deleteField

/-- The loop variables: the documents written so far, the batch, and how many batches have been committed. -/
structure Migration where
  collection : Dict String Document
  batch : List (String × Document)
  commits : ℕ

/-- `batch.commit()`; a commit that raises writes nothing. -/
def commitBatch (fault : Option MigrationFault) (m : Migration) : Except (Dict String Document) Migration :=
  match fault with
  | some (.commit n) =>
      if n = m.commits then .error m.collection else .ok ⟨m.collection.setAll m.batch, [], m.commits + 1⟩
  | _ => .ok ⟨m.collection.setAll m.batch, [], m.commits + 1⟩

/-- The loop over the items; one that is not a map is skipped. -/
def migrateItems (fault : Option MigrationFault) :
    List (String × Value) → Migration → Except (Dict String Document) Migration
  | [], m => .ok m
  | (jobId, expenseData) :: rest, m =>
      match expenseData.asMap with
      | none => migrateItems fault rest m
      | some doc =>
          let m := { m with batch := m.batch ++ [(jobId, doc)] }
          if m.batch.length ≥ 450 then (commitBatch fault m).bind (migrateItems fault rest)
          else migrateItems fault rest m

/-- `migrate_expenses_to_collection`; the second component is what it returns. -/
def migrateExpensesToCollection (fault : Option MigrationFault) (s : ExpenseStore) : ExpenseStore × Bool :=
  if s.items.isEmpty then (s, true)
  else
    let copied := (migrateItems fault s.items.entries ⟨s.collection, [], 0⟩).bind fun m =>
      if m.batch.length > 0 then commitBatch fault m else .ok m
    match copied with
    | .error collection => ({ s with collection := collection }, false)
    | .ok m =>
        match fault with
        | some .deleteField => ({ s with collection := m.collection }, false)
        | _ => (⟨∅, m.collection⟩, true)

/-- `status` is `close`. -/
def closed (doc : Document) : Bool := ((doc.get? "status").map (Value.isOneOf ["close"])).getD false

/-- Write at a path below `items`. -/
def writeItem (items : Dict String Value) : FieldPath → Value → Dict String Value
  | [], _ => items
  | k :: ks, v => items.set k (v.place ks (items.get? k))

/-- Remove the field at a path below `items`. -/
def removeItem (items : Dict String Value) : FieldPath → Dict String Value
  | [] => items
  | [k] => items.erase k
  | k :: ks =>
      match items.get? k with
      | some (.map fields) => items.set k (.map (Document.remove fields ks))
      | _ => items

/-- The path of `f"items.{expense_id}.{field}"`; the dots of the id split it, too. -/
def legacyPath (expenseId : String) (field : FieldPath) : FieldPath := "items" :: (split expenseId '.' ++ field)

/-- `update_expense_in_firebase`.  The client refuses an empty update; the path of the third structure is not one of
a document, so that reading it raises. -/
def updateExpenseInFirebase (s : ExpenseStore) (expenseId : String) (updateData : Updates) : ExpenseStore × Bool :=
  if updateData.isEmpty then (s, false)
  else
    match s.collection.get? expenseId with
    | some doc =>
        match doc.update updateData with
        | some doc' => ({ s with collection := s.collection.set expenseId doc' }, true)
        | none => (s, false)
    | none =>
        if expenseId ∈ s.items.keys ∧ Document.accepted (updateData.keys.map (legacyPath expenseId)) then
          ({ s with
            items := updateData.entries.foldl
              (fun items e => writeItem items (split expenseId '.' ++ e.1) e.2) s.items }, true)
        else (s, false)

/-- `delete_expense_from_firebase`. -/
def deleteExpenseFromFirebase (s : ExpenseStore) (expenseId : String) : ExpenseStore × Bool :=
  match s.collection.get? expenseId with
  | some doc =>
      if closed doc then (s, false) else ({ s with collection := s.collection.erase expenseId }, true)
  | none =>
      match s.items.get? expenseId with
      | some v =>
          if (v.asMap.map closed).getD false then (s, false)
          else if Document.accepted [legacyPath expenseId []] then
            ({ s with items := removeItem s.items (split expenseId '.') }, true)
          else (s, false)
      | none => (s, false)

/-! ### What is expected -/

/-- A call of the sequence. -/
inductive ExpenseCall where
  | migrate (fault : Option MigrationFault)
  | update (expenseId : String) (updateData : Updates)
  | delete (expenseId : String)

/-- An expense with the fields of an update. -/
def edited (updateData : Updates) (v : Value) : Value :=
  updateData.entries.foldl (fun v e => e.2.place e.1 (some v)) v

/-- The store, and the expenses it should hold: those of the map with the successful edits. -/
structure Tracked where
  store : ExpenseStore
  expected : String → Option Value

/-- Before the first attempt. -/
def Tracked.start (items : Dict String Value) : Tracked := ⟨⟨items, ∅⟩, items.get?⟩

/-- One call. -/
def track (r : Tracked) : ExpenseCall → Tracked
  | .migrate fault => { r with store := (migrateExpensesToCollection fault r.store).1 }
  | .update expenseId updateData =>
      let result := updateExpenseInFirebase r.store expenseId updateData
      ⟨result.1, fun id => if result.2 ∧ id = expenseId then (r.expected id).map (edited updateData) else r.expected id⟩
  | .delete expenseId =>
      let result := deleteExpenseFromFirebase r.store expenseId
      ⟨result.1, fun id => if result.2 ∧ id = expenseId then none else r.expected id⟩

/-- The expense is in one of the structures, and its id is one name of a path if that is the map. -/
def SingleCopy (s : ExpenseStore) (expenseId : String) : Prop :=
  if expenseId ∈ s.collection.keys then expenseId ∉ s.items.keys else '.' ∉ expenseId.toList

/-- A successful edit finds a single copy. -/
def EditsSingleCopy (r : Tracked) : ExpenseCall → Prop
  | .migrate _ => True
  | .update expenseId updateData =>
      (updateExpenseInFirebase r.store expenseId updateData).2 = true → SingleCopy r.store expenseId
  | .delete expenseId =>
      (deleteExpenseFromFirebase r.store expenseId).2 = true → SingleCopy r.store expenseId

/-! ### An attempt -/

/-- The expenses of the map, as documents. -/
def documents (es : List (String × Value)) : List (String × Document) :=
  es.filterMap fun e => e.2.asMap.map fun doc => (e.1, doc)

theorem commitBatch_cases (fault : Option MigrationFault) (m : Migration) :
    commitBatch fault m = .error m.collection ∨
      commitBatch fault m = .ok ⟨m.collection.setAll m.batch, [], m.commits + 1⟩ := by
  unfold commitBatch
  split
  · split
    · exact Or.inl rfl
    · exact Or.inr rfl
  · exact Or.inr rfl

/-- The loop writes the documents in their order, up to the commit that fails or up to those of the last batch. -/
theorem migrateItems_cases (fault : Option MigrationFault) (es : List (String × Value)) (m : Migration) :
    ∃ pre, (pre <+: m.batch ++ documents es ∧ migrateItems fault es m = .error (m.collection.setAll pre)) ∨
      ∃ m', migrateItems fault es m = .ok m' ∧ pre ++ m'.batch = m.batch ++ documents es ∧
        m'.collection = m.collection.setAll pre := by
  induction es generalizing m with
  | nil => exact ⟨[], Or.inr ⟨m, rfl, by simp [documents], rfl⟩⟩
  | cons e es ih =>
      obtain ⟨jobId, v⟩ := e
      unfold migrateItems
      cases hv : v.asMap with
      | none =>
          have hdocs : documents ((jobId, v) :: es) = documents es := by simp [documents, hv]
          rw [hdocs]
          exact ih m
      | some doc =>
          have hdocs : m.batch ++ documents ((jobId, v) :: es) = (m.batch ++ [(jobId, doc)]) ++ documents es := by
            simp [documents, hv]
          rw [hdocs]
          dsimp only
          generalize m.batch ++ [(jobId, doc)] = batch
          split
          · rcases commitBatch_cases fault { m with batch := batch } with hc | hc
            · rw [hc]
              exact ⟨[], Or.inl ⟨List.nil_prefix, rfl⟩⟩
            · rw [hc]
              -- the batch is written, the rest starts with an empty one
              obtain ⟨pre, hrest⟩ := ih ⟨m.collection.setAll batch, [], m.commits + 1⟩
              refine ⟨batch ++ pre, ?_⟩
              rw [Dict.setAll_append]
              rcases hrest with ⟨hpre, herr⟩ | ⟨m', hok, happend, hcoll⟩
              · exact Or.inl ⟨(List.prefix_append_right_inj _).mpr hpre, herr⟩
              · refine Or.inr ⟨m', hok, ?_, hcoll⟩
                rw [List.append_assoc, happend]
                rfl
          · exact ih { m with batch := batch }

/-- **An attempt**: it fails after some of the documents, or after all of them; or it succeeds, and the map is gone. -/
theorem migrate_cases (fault : Option MigrationFault) (s : ExpenseStore) :
    (∃ pre, pre <+: documents s.items.entries ∧
        migrateExpensesToCollection fault s = ({ s with collection := s.collection.setAll pre }, false)) ∨
      ((migrateExpensesToCollection fault s).1.collection = s.collection.setAll (documents s.items.entries) ∧
        (migrateExpensesToCollection fault s).1.items.isEmpty = true ∧
        (migrateExpensesToCollection fault s).2 = true) := by
  unfold migrateExpensesToCollection
  split
  · next hempty =>
    refine Or.inr ⟨?_, hempty, rfl⟩
    rw [List.isEmpty_iff.mp hempty]
    rfl
  · dsimp only
    obtain ⟨pre, ⟨hpre, herr⟩ | ⟨m, hok, happend, hcoll⟩⟩ := migrateItems_cases fault s.items.entries ⟨s.collection, [], 0⟩
    · rw [herr]
      exact Or.inl ⟨pre, hpre, rfl⟩
    · rw [hok]
      rw [List.nil_append] at happend
      simp only [Except.bind]
      -- the last commit
      have hlast : (if m.batch.length > 0 then commitBatch fault m else .ok m) = .error m.collection ∨
          ∃ m', (if m.batch.length > 0 then commitBatch fault m else .ok m) = .ok m' ∧
            m'.collection = m.collection.setAll m.batch := by
        split
        · rcases commitBatch_cases fault m with hc | hc
          · exact Or.inl hc
          · exact Or.inr ⟨_, hc, rfl⟩
        · next hnil =>
          have hbatch : m.batch = [] := List.eq_nil_of_length_eq_zero (by omega)
          refine Or.inr ⟨m, rfl, ?_⟩
          rw [hbatch]
          rfl
      rcases hlast with herr | ⟨m', hok', hall⟩
      · rw [herr, hcoll]
        exact Or.inl ⟨pre, ⟨m.batch, happend⟩, rfl⟩
      · rw [hok']
        rw [hcoll, ← Dict.setAll_append, happend] at hall
        dsimp only
        split
        · exact Or.inl ⟨documents s.items.entries, List.prefix_refl _, by rw [hall]⟩
        · exact Or.inr ⟨hall, rfl, rfl⟩

theorem documents_nodup (items : Dict String Value) : ((documents items.entries).map Prod.fst).Nodup := by
  have hsub : ((documents items.entries).map Prod.fst).Sublist (items.entries.map Prod.fst) := by
    generalize items.entries = es
    induction es with
    | nil => exact List.Sublist.refl _
    | cons e es ih =>
        cases hv : e.2.asMap with
        | none => simpa [documents, hv] using ih.cons e.1
        | some doc => simpa [documents, hv] using ih
  exact items.nodup.sublist hsub

theorem mem_documents {items : Dict String Value} {id : String} {doc : Document} :
    (id, doc) ∈ documents items.entries ↔ ∃ v, items.get? id = some v ∧ v.asMap = some doc := by
  simp only [documents, List.mem_filterMap, Option.map_eq_some_iff, Prod.mk.injEq]
  constructor
  · intro h
    obtain ⟨⟨k, v⟩, hmem, doc', hv, rfl, rfl⟩ := h
    exact ⟨v, Dict.mem_entries_iff.mp hmem, hv⟩
  · intro h
    obtain ⟨v, hget, hv⟩ := h
    exact ⟨(id, v), Dict.mem_entries_iff.mpr hget, doc, hv, rfl, rfl⟩

/-- A document of the sub-collection after an attempt is one of before, or the current expense of the map. -/
theorem get?_setAll_documents {s : ExpenseStore} {pre : List (String × Document)}
    (hpre : pre <+: documents s.items.entries) (id : String) :
    (s.collection.setAll pre).get? id = s.collection.get? id ∨
      ∃ v doc, s.items.get? id = some v ∧ v.asMap = some doc ∧ (s.collection.setAll pre).get? id = some doc := by
  have hn : (pre.map Prod.fst).Nodup :=
    (documents_nodup s.items).sublist (hpre.sublist.map Prod.fst)
  rw [Dict.get?_setAll _ hn]
  cases hget : Dict.getList id pre with
  | none => exact Or.inl rfl
  | some doc =>
      have hmem := hpre.subset ((Dict.getList_eq_some_iff hn).mp hget)
      obtain ⟨v, hv, hmap⟩ := mem_documents.mp hmem
      exact Or.inr ⟨v, doc, hv, hmap, rfl⟩

/-- After a complete copy: the expenses of the map, over the documents of before. -/
theorem get?_setAll_all (s : ExpenseStore) (id : String) :
    (s.collection.setAll (documents s.items.entries)).get? id =
      ((s.items.get? id).bind Value.asMap).or (s.collection.get? id) := by
  rw [Dict.get?_setAll _ (documents_nodup s.items)]
  congr 1
  refine Option.ext fun doc => ?_
  rw [Dict.getList_eq_some_iff (documents_nodup s.items), mem_documents, Option.bind_eq_some_iff]

/-! ### An edit -/

/-- A field of an expense, in the document and in the map of before. -/
theorem place_map (v : Value) {p : FieldPath} (hp : p ≠ []) (doc : Document) :
    v.place p (some (.map doc)) = .map (Document.write doc p v) := by
  cases p with
  | nil => exact absurd rfl hp
  | cons k ks => rfl

theorem ne_nil_of_accepted {paths : List FieldPath} (h : Document.accepted paths = true) {p : FieldPath}
    (hp : p ∈ paths) : p ≠ [] := by
  simp only [Document.accepted, Bool.and_eq_true, List.all_eq_true, decide_eq_true_eq] at h
  exact (h.1 p hp).1

/-- An update of a document is that of the expense. -/
theorem edited_map {doc doc' : Document} {updateData : Updates} (h : doc.update updateData = some doc') :
    edited updateData (.map doc) = .map doc' := by
  unfold Document.update at h
  split at h
  · next hacc =>
    cases h
    have hne : ∀ e ∈ updateData.entries, e.1 ≠ [] := by
      intro e he
      exact ne_nil_of_accepted hacc (List.mem_map_of_mem he)
    unfold edited
    generalize updateData.entries = es at hne
    induction es generalizing doc with
    | nil => rfl
    | cons e es ih =>
        rw [List.foldl_cons, List.foldl_cons, place_map e.2 (hne e (List.mem_cons_self ..))]
        exact ih fun x hx => hne x (List.mem_cons_of_mem _ hx)
  · cases h

/-- An update of an entry of the map whose id is one name. -/
theorem get?_writeItems (items : Dict String Value) {expenseId : String} {v : Value} (updateData : Updates)
    (hid : split expenseId '.' = [expenseId]) (hv : items.get? expenseId = some v) (id : String) :
    (updateData.entries.foldl (fun items e => writeItem items (split expenseId '.' ++ e.1) e.2) items).get? id =
      if id = expenseId then some (edited updateData v) else items.get? id := by
  unfold edited
  generalize updateData.entries = es
  induction es generalizing items v with
  | nil =>
      by_cases h : id = expenseId
      · rw [if_pos h, h, List.foldl_nil, hv]
        rfl
      · rw [if_neg h]
        rfl
  | cons e es ih =>
      have hwrite : writeItem items (split expenseId '.' ++ e.1) e.2 =
          items.set expenseId (e.2.place e.1 (some v)) := by
        rw [hid, List.singleton_append, writeItem, hv]
      rw [List.foldl_cons, List.foldl_cons, hwrite, ih _ (Dict.get?_set_self ..)]
      by_cases h : id = expenseId
      · simp [h]
      · simp [h, Dict.get?_set]

theorem update_cases (s : ExpenseStore) (expenseId : String) (updateData : Updates) :
    updateExpenseInFirebase s expenseId updateData = (s, false) ∨
      (∃ doc doc', s.collection.get? expenseId = some doc ∧ doc.update updateData = some doc' ∧
        updateExpenseInFirebase s expenseId updateData =
          ({ s with collection := s.collection.set expenseId doc' }, true)) ∨
      ∃ v, s.collection.get? expenseId = none ∧ s.items.get? expenseId = some v ∧
        updateExpenseInFirebase s expenseId updateData =
          ({ s with
            items := updateData.entries.foldl
              (fun items e => writeItem items (split expenseId '.' ++ e.1) e.2) s.items }, true) := by
  unfold updateExpenseInFirebase
  split
  · exact Or.inl rfl
  · split
    · next doc hdoc =>
      split
      · next doc' hu => exact Or.inr (Or.inl ⟨doc, doc', hdoc, hu, rfl⟩)
      · exact Or.inl rfl
    · next hdoc =>
      split
      · next hitem =>
        obtain ⟨v, hv⟩ := Dict.mem_keys_iff.mp hitem.1
        exact Or.inr (Or.inr ⟨v, hdoc, hv, rfl⟩)
      · exact Or.inl rfl

theorem delete_cases (s : ExpenseStore) (expenseId : String) :
    deleteExpenseFromFirebase s expenseId = (s, false) ∨
      (∃ doc, s.collection.get? expenseId = some doc ∧
        deleteExpenseFromFirebase s expenseId =
          ({ s with collection := s.collection.erase expenseId }, true)) ∨
      ∃ v, s.collection.get? expenseId = none ∧ s.items.get? expenseId = some v ∧
        deleteExpenseFromFirebase s expenseId =
          ({ s with items := removeItem s.items (split expenseId '.') }, true) := by
  unfold deleteExpenseFromFirebase
  split
  · next doc hdoc =>
    split
    · exact Or.inl rfl
    · exact Or.inr (Or.inl ⟨doc, hdoc, rfl⟩)
  · next hdoc =>
    split
    · next v hv =>
      split
      · exact Or.inl rfl
      · split
        · exact Or.inr (Or.inr ⟨v, hdoc, hv, rfl⟩)
        · exact Or.inl rfl
    · exact Or.inl rfl

/-! ### Sequences of calls -/

/-- The entries of the map are as expected; where there is none, the document is; an entry that is not a map has no
document. -/
structure Tracked.Agrees (r : Tracked) : Prop where
  listed : ∀ id v, r.store.items.get? id = some v → r.expected id = some v
  stored : ∀ id, r.store.items.get? id = none → (r.expected id).bind Value.asMap = r.store.collection.get? id
  skipped : ∀ id v, r.store.items.get? id = some v → v.asMap = none → r.store.collection.get? id = none

theorem agrees_start (items : Dict String Value) : (Tracked.start items).Agrees where
  listed := fun _ _ h => h
  stored := by
    intro id h
    show (items.get? id).bind Value.asMap = none
    rw [show items.get? id = none from h]
    rfl
  skipped := fun _ _ _ _ => rfl

theorem eq_map_of_asMap {v : Value} {doc : Document} (h : v.asMap = some doc) : v = .map doc := by
  cases v with
  | scalar _ | list _ => cases h
  | map fields =>
      cases h
      rfl

theorem agrees_migrate {r : Tracked} (h : r.Agrees) (fault : Option MigrationFault) :
    (track r (.migrate fault)).Agrees := by
  unfold track
  dsimp only
  rcases migrate_cases fault r.store with ⟨pre, hpre, hfail⟩ | ⟨hcoll, hempty, -⟩
  · rw [hfail]
    refine ⟨h.listed, fun id hid => ?_, fun id v hv hskip => ?_⟩
    · dsimp only at hid ⊢
      rcases get?_setAll_documents hpre id with hsame | ⟨v, doc, hv, -, -⟩
      · rw [hsame]
        exact h.stored id hid
      · rw [hid] at hv
        cases hv
    · dsimp only at hv ⊢
      rcases get?_setAll_documents hpre id with hsame | ⟨v', doc, hv', hmap, -⟩
      · rw [hsame]
        exact h.skipped id v hv hskip
      · rw [hv] at hv'
        cases hv'
        rw [hskip] at hmap
        cases hmap
  · have hnone : ∀ id, (migrateExpensesToCollection fault r.store).1.items.get? id = none := by
      intro id
      rw [Dict.get?_eq_none_iff]
      exact Dict.isEmpty_iff.mp hempty id
    refine ⟨fun id v hv => ?_, fun id _ => ?_, fun id v hv => ?_⟩
    · rw [hnone id] at hv
      cases hv
    · dsimp only
      rw [hcoll, get?_setAll_all]
      cases hitem : r.store.items.get? id with
      | none => exact h.stored id hitem
      | some v =>
          rw [h.listed id v hitem, Option.bind_some]
          cases hmap : v.asMap with
          | none => rw [h.skipped id v hitem hmap, Option.or_none]
          | some doc => rfl
    · rw [hnone id] at hv
      cases hv

/-- An edit of a document whose expense is not in the map. -/
theorem agrees_editDocument {r : Tracked} (h : r.Agrees) {expenseId : String}
    (hitem : r.store.items.get? expenseId = none) {collection : Dict String Document}
    {expected : String → Option Value}
    (hcoll : ∀ id, id ≠ expenseId → collection.get? id = r.store.collection.get? id)
    (hexpected : ∀ id, id ≠ expenseId → expected id = r.expected id)
    (hedit : (expected expenseId).bind Value.asMap = collection.get? expenseId) :
    (Tracked.mk ⟨r.store.items, collection⟩ expected).Agrees := by
  have hne : ∀ id v, r.store.items.get? id = some v → id ≠ expenseId := by
    intro id v hv heq
    rw [heq, hitem] at hv
    cases hv
  refine ⟨fun id v hv => ?_, fun id hid => ?_, fun id v hv hskip => ?_⟩
  · exact (hexpected id (hne id v hv)).trans (h.listed id v hv)
  · by_cases heq : id = expenseId
    · exact heq ▸ hedit
    · dsimp only
      rw [hexpected id heq, hcoll id heq]
      exact h.stored id hid
  · dsimp only
    rw [hcoll id (hne id v hv)]
    exact h.skipped id v hv hskip

/-- An edit of an entry of the map whose expense has no document. -/
theorem agrees_editItem {r : Tracked} (h : r.Agrees) {expenseId : String}
    (hdoc : r.store.collection.get? expenseId = none) {items : Dict String Value} {expected : String → Option Value}
    (hitems : ∀ id, id ≠ expenseId → items.get? id = r.store.items.get? id)
    (hexpected : ∀ id, id ≠ expenseId → expected id = r.expected id)
    (hedit : expected expenseId = items.get? expenseId) :
    (Tracked.mk ⟨items, r.store.collection⟩ expected).Agrees := by
  refine ⟨fun id v hv => ?_, fun id hid => ?_, fun id v hv hskip => ?_⟩
  · by_cases heq : id = expenseId
    · rw [heq] at hv ⊢
      exact hedit.trans hv
    · exact (hexpected id heq).trans (h.listed id v (hitems id heq ▸ hv))
  · by_cases heq : id = expenseId
    · rw [heq] at hid ⊢
      dsimp only at hid ⊢
      rw [hedit, hid, hdoc]
      rfl
    · dsimp only
      rw [hexpected id heq]
      exact h.stored id (hitems id heq ▸ hid)
  · by_cases heq : id = expenseId
    · rw [heq]
      exact hdoc
    · exact h.skipped id v (hitems id heq ▸ hv) hskip

theorem agrees_update {r : Tracked} (h : r.Agrees) {expenseId : String} {updateData : Updates}
    (hsingle : EditsSingleCopy r (.update expenseId updateData)) :
    (track r (.update expenseId updateData)).Agrees := by
  unfold EditsSingleCopy SingleCopy at hsingle
  unfold track
  dsimp only at hsingle ⊢
  rcases update_cases r.store expenseId updateData with
    hres | ⟨doc, doc', hdoc, hu, hres⟩ | ⟨v, hdoc, hv, hres⟩
  · rw [hres]
    simpa using h
  · rw [hres, if_pos (Dict.mem_keys_of_get? hdoc)] at hsingle
    have hitem : r.store.items.get? expenseId = none := Dict.get?_eq_none_iff.mpr (hsingle rfl)
    have hexp : r.expected expenseId = some (.map doc) := by
      have hstored := h.stored expenseId hitem
      rw [hdoc] at hstored
      obtain ⟨v, hv, hmap⟩ := Option.bind_eq_some_iff.mp hstored
      rw [hv, eq_map_of_asMap hmap]
    rw [hres]
    refine agrees_editDocument h hitem (fun id hid => Dict.get?_set_ne _ _ hid) (fun id hid => by simp [hid]) ?_
    simp [hexp, edited_map hu, Value.asMap]
  · rw [hres, if_neg (Dict.get?_eq_none_iff.mp hdoc)] at hsingle
    have hid : split expenseId '.' = [expenseId] := split_of_not_mem (hsingle rfl)
    rw [hres]
    refine agrees_editItem h hdoc (fun id hne => ?_) (fun id hne => by simp [hne]) ?_
    · rw [get?_writeItems _ updateData hid hv, if_neg hne]
    · rw [get?_writeItems _ updateData hid hv]
      simp [h.listed expenseId v hv]

theorem agrees_delete {r : Tracked} (h : r.Agrees) {expenseId : String}
    (hsingle : EditsSingleCopy r (.delete expenseId)) : (track r (.delete expenseId)).Agrees := by
  unfold EditsSingleCopy SingleCopy at hsingle
  unfold track
  dsimp only at hsingle ⊢
  rcases delete_cases r.store expenseId with hres | ⟨doc, hdoc, hres⟩ | ⟨v, hdoc, hv, hres⟩
  · rw [hres]
    simpa using h
  · rw [hres, if_pos (Dict.mem_keys_of_get? hdoc)] at hsingle
    have hitem : r.store.items.get? expenseId = none := Dict.get?_eq_none_iff.mpr (hsingle rfl)
    rw [hres]
    refine agrees_editDocument h hitem (fun id hid => ?_) (fun id hid => by simp [hid]) (by simp)
    rw [Dict.get?_erase, if_neg hid]
  · rw [hres, if_neg (Dict.get?_eq_none_iff.mp hdoc)] at hsingle
    have hid : split expenseId '.' = [expenseId] := split_of_not_mem (hsingle rfl)
    rw [hres, hid]
    refine agrees_editItem h hdoc (fun id hne => ?_) (fun id hne => by simp [hne]) (by simp [removeItem])
    rw [removeItem, Dict.get?_erase, if_neg hne]

theorem agrees_track {r : Tracked} (h : r.Agrees) {c : ExpenseCall} (hsingle : EditsSingleCopy r c) :
    (track r c).Agrees := by
  cases c with
  | migrate fault => exact agrees_migrate h fault
  | update expenseId updateData => exact agrees_update h hsingle
  | delete expenseId => exact agrees_delete h hsingle

/-- **The migration preserves the expenses**: after an attempt that succeeds, the sub-collection holds the expenses of
the map that were not deleted, with all their updates, if every edit has found a single copy. -/
theorem migration_preserves (items : Dict String Value) (calls : List ExpenseCall)
    (hg : Guarded track EditsSingleCopy (Tracked.start items) calls) (fault : Option MigrationFault)
    (hsuccess : (migrateExpensesToCollection fault (run track (Tracked.start items) calls).store).2 = true)
    (id : String) :
    (migrateExpensesToCollection fault (run track (Tracked.start items) calls).store).1.collection.get? id =
      ((run track (Tracked.start items) calls).expected id).bind Value.asMap := by
  have hagrees : (run track (Tracked.start items) calls).Agrees := by
    refine run_invariant (fun _ r => r.Agrees) (agrees_start items) calls ?_ hg
    exact fun pre c _ h hsingle => agrees_track h hsingle
  generalize run track (Tracked.start items) calls = r at hagrees hsuccess ⊢
  have hafter : (track r (.migrate fault)).Agrees := agrees_migrate hagrees fault
  refine (hafter.stored id ?_).symm
  rcases migrate_cases fault r.store with ⟨pre, -, hfail⟩ | ⟨-, hempty, -⟩
  · rw [hfail] at hsuccess
    cases hsuccess
  · exact Dict.get?_eq_none_iff.mpr (Dict.isEmpty_iff.mp hempty id)

/-- An expense with an amount. -/
def amountOf (n : Int) : Document := [("amount", .scalar (.int n))]

/-- An update of the amount. -/
def newAmount (n : Int) : Updates := Dict.ofList [(["amount"], .scalar (.int n))]

/-- Two expenses. -/
def twoExpenses : Dict String Value := Dict.ofList [("a", .map (amountOf 1)), ("b", .map (amountOf 3))]

/-- The first attempt fails at its commit; one of the expenses is changed, the other one is deleted. -/
def retryCalls : List ExpenseCall := [.migrate (some (.commit 0)), .update "a" (newAmount 2), .delete "b"]

theorem migration_preserves_retry :
    (migrateExpensesToCollection none (run track (Tracked.start twoExpenses) retryCalls).store).1.collection.get? "a" =
        some (amountOf 2) ∧
      (migrateExpensesToCollection none (run track (Tracked.start twoExpenses) retryCalls).store).1.collection.get? "b" =
        none := by
  have hg : Guarded track EditsSingleCopy (Tracked.start twoExpenses) retryCalls := by
    refine ⟨trivial, fun _ => ?_, fun _ => ?_, trivial⟩
    · show '.' ∉ "a".toList
      decide
    · show '.' ∉ "b".toList
      decide
  exact ⟨migration_preserves _ _ hg none rfl "a", migration_preserves _ _ hg none rfl "b"⟩

/-- The first attempt fails at the removal of the map; the next one brings back the amount of before. -/
theorem migration_undoes_update :
    ¬∀ (items : Dict String Value) (calls : List ExpenseCall) (fault : Option MigrationFault),
      (migrateExpensesToCollection fault (run track (Tracked.start items) calls).store).2 = true →
      ∀ id, (migrateExpensesToCollection fault (run track (Tracked.start items) calls).store).1.collection.get? id =
        ((run track (Tracked.start items) calls).expected id).bind Value.asMap := by
  intro h
  have hlost : some (amountOf 1) = some (amountOf 2) := h (Dict.ofList [("a", .map (amountOf 1))])
    [.migrate (some .deleteField), .update "a" (newAmount 2)] none rfl "a"
  simp [amountOf] at hlost

end Pinnokio.Expenses
