import Pinnokio.Realtime.BusinessCache

/-!
# Every item in one list

The writers of a business cache find an item by different names.  As long as no two items of the cache carry the same
id, and a call neither merges an item it does not name nor brings an id that another item carries, every item stays in
one list, once, and no item is lost but those the calls name.

* `step_changeStatusOf`, `step_update`, `step_delete`, `step_addOneToTodo`, `step_move` — what one call does to the items;
* `items_kept` — **items stay in one list and are not lost**, in every run of calls that are harmless where they are
  made.
-/

namespace Pinnokio.Realtime

open Pinnokio.ActiveJobs Pinnokio.Runs Pinnokio.Shelves

/-! ### Ids -/

/-- The names an item goes by. -/
def idNames : List String := ["id", "job_id", "expense_id"]

/-- The ids an item carries. -/
def ids (item : Item) : List Scalar := ((idNames.map item.get).filter Scalar.truthy).map Scalar.canon

/-- The ids an item carries under names that a message has no field for. -/
def idsBeside (data item : Fields) : List Scalar :=
  (((idNames.filter fun name => (data.get? name).isNone).map item.get).filter Scalar.truthy).map Scalar.canon

/-- The id of an item: its `id`, else its `job_id`, else its `expense_id`. -/
def idOf (item : Item) : Option Scalar := (ids item).head?

/-- Two items with the same ids. -/
def SameIds (x y : Item) : Prop := ∀ k ∈ idNames, y.get k = x.get k

/-- No two items of a cache carry the same id. -/
def DistinctItems (b : BusinessCache) : Prop := Distinct ids b.list

/-! ### Calls -/

/-- The calls that write a business cache. -/
inductive Call where
  | applyStatusChange (q : StatusChange)
  | updateItem (m : ItemMessage)
  | afterDelete (deletedIds : List String)
  | routingTodo (now : String) (moved : List MovedItem)
  | moveToList (now jobId targetStatus : String)

/-- The items a call names. -/
def Call.names : Call → Item → Bool
  | applyStatusChange q, item => q.itemIds.any fun s => goesBy item s
  | updateItem m, item => goesBy item m.jobId
  | afterDelete deletedIds, item => deletedIds.any fun s => goesBy item s
  | routingTodo _ moved, item => moved.any fun m => goesBy item m.driveId
  | moveToList _ jobId _, item => goesBy item jobId

/-- The items that a call does not name are there afterwards. -/
def KeepsOthers (call : Call) (b b' : BusinessCache) : Prop :=
  ∀ c, ∀ x ∈ b.list c, call.names x = false → ∀ k, idOf x = some k → ∃ c', ∃ y ∈ b'.list c', k ∈ ids y

section Calls

variable (lower : String → String) (isDigit : Char → Bool) (domain : String)

/-- A call on the cache of a domain. -/
def apply (b : BusinessCache) : Call → BusinessCache
  | .applyStatusChange q => applyStatusChange lower domain b q
  | .updateItem m => updateBusinessCacheItem isDigit lower domain b m
  | .afterDelete deletedIds => updateCacheAfterDelete b deletedIds
  | .routingTodo now moved => if domain = "routing" then addToRoutingTodo now b moved else b
  | .moveToList now jobId targetStatus => moveToListInCache lower domain now b jobId targetStatus

/-- The ids of the extra data are those of the item that is moved, or nobody's. -/
def BringsNoOtherId (q : StatusChange) (b : BusinessCache) (itemId : String) : Prop :=
  q.action ≠ "delete" → ∀ c item, b.findIn (fun item => goesBy item itemId) Category.all = some (c, item) →
    ∀ k ∈ ids q.extraData, k ∈ ids item ∨ Free ids b.list k

/-- The id of an item that a message takes out but does not name is an id of the message, or one of the first item it
means under a name that the message has no field for; and no id of the message belongs to an item it leaves. -/
def MergesOwnItem (b : BusinessCache) (m : ItemMessage) : Prop :=
  (∀ c, ∀ x ∈ b.list c, isMeant isDigit domain m x = true → goesBy x m.jobId = false →
      ∀ k, idOf x = some k → k ∈ ids m.itemData ∨
        ∃ existing, existingItem isDigit domain b m = some existing ∧ k ∈ idsBeside m.itemData existing) ∧
    ∀ k ∈ ids m.itemData, ∀ c, ∀ x ∈ b.list c, isMeant isDigit domain m x = false → k ∉ ids x

/-- A file whose id takes out an item that does not go by it moves that item only, and a file without an item has an id
that is nobody's. -/
def MovesOwnItem (b : BusinessCache) (m : MovedItem) : Prop :=
  m.driveId ≠ "" →
    (∀ c item, foundElsewhere b m.driveId = some (c, item) → ∀ x ∈ b.list c, hasDriveId m.driveId x = true →
      goesBy x m.driveId = false → x = item ∧ ∀ y ∈ b.list .toProcess, hasDriveId m.driveId y = false) ∧
    (foundElsewhere b m.driveId = none → (∀ y ∈ b.list .toProcess, hasDriveId m.driveId y = false) →
      Free ids b.list (.str m.driveId))

/-- A call that disturbs no item it does not name. -/
def Undisturbing (b : BusinessCache) : Call → Prop
  | .applyStatusChange q =>
      let status := normalize lower q.newStatus "to_process"
      ∀ toList, getListForStatus lower domain status = some toList →
        Guarded (changeStatusOf q status toList) (BringsNoOtherId q) b q.itemIds
  | .updateItem m => MergesOwnItem isDigit domain b m
  | .afterDelete _ => True
  | .routingTodo now moved => domain = "routing" → Guarded (addOneToTodo now) MovesOwnItem b moved
  | .moveToList .. => True

end Calls

/-! ### Fields -/

section Fields

variable {item : Item}

theorem get_set (k k' : String) (v : Scalar) :
    Fields.get (item.set k v) k' = if k' = k then v else item.get k' := by
  simp only [Fields.get, Dict.get?_set]
  split <;> rfl

theorem sameIds_set {k : String} (hk : k ∉ idNames) (v : Scalar) : SameIds item (item.set k v) := by
  intro k' hk'
  have hne : k' ≠ k := fun heq => hk (heq ▸ hk')
  rw [get_set, if_neg hne]

theorem SameIds.refl (x : Item) : SameIds x x := fun _ _ => rfl

theorem SameIds.trans {x y z : Item} (hxy : SameIds x y) (hyz : SameIds y z) : SameIds x z :=
  fun k hk => (hyz k hk).trans (hxy k hk)

theorem SameIds.ids_eq {x y : Item} (h : SameIds x y) : ids y = ids x := by
  rw [ids, ids, List.map_congr_left h]

theorem SameIds.goesBy_eq {x y : Item} (h : SameIds x y) (s : String) : goesBy y s = goesBy x s := by
  simp only [goesBy, has, h "id" (by decide), h "job_id" (by decide), h "expense_id" (by decide)]

theorem mem_ids {item : Item} {k : Scalar} :
    k ∈ ids item ↔ ∃ name ∈ idNames, (item.get name).truthy = true ∧ (item.get name).canon = k := by
  simp only [ids, List.mem_map, List.mem_filter]
  constructor
  · intro h'
    obtain ⟨v, ⟨⟨name, hname, rfl⟩, htrue⟩, rfl⟩ := h'
    exact ⟨name, hname, htrue, rfl⟩
  · intro h'
    obtain ⟨name, hname, htrue, rfl⟩ := h'
    exact ⟨_, ⟨⟨name, hname, rfl⟩, htrue⟩, rfl⟩

theorem mem_idsBeside {data : Fields} {k : Scalar} :
    k ∈ idsBeside data item ↔ ∃ name ∈ idNames, data.get? name = none ∧ (item.get name).truthy = true ∧
      (item.get name).canon = k := by
  simp only [idsBeside, List.mem_map, List.mem_filter, Option.isNone_iff_eq_none]
  constructor
  · intro h'
    obtain ⟨v, ⟨⟨name, ⟨hname, hnone⟩, rfl⟩, htrue⟩, rfl⟩ := h'
    exact ⟨name, hname, hnone, htrue, rfl⟩
  · intro h'
    obtain ⟨name, hname, hnone, htrue, rfl⟩ := h'
    exact ⟨_, ⟨⟨name, ⟨hname, hnone⟩, rfl⟩, htrue⟩, rfl⟩

/-- The ids of a merged item. -/
theorem mem_ids_setAll_iff {d : Fields} {k : Scalar} :
    k ∈ ids (Dict.setAll item d.entries) ↔ k ∈ ids d ∨ k ∈ idsBeside d item := by
  have hget : ∀ name, Fields.get (Dict.setAll item d.entries) name =
      ((d.get? name).or (item.get? name)).getD .none := by
    intro name
    rw [Fields.get, Dict.get?_setAll item d.nodup]
    rfl
  rw [mem_ids, mem_ids, mem_idsBeside]
  constructor
  · intro h
    obtain ⟨name, hname, htrue, hk⟩ := h
    cases hd : d.get? name with
    | none =>
        rw [hget, hd, Option.none_or] at htrue hk
        exact Or.inr ⟨name, hname, hd, htrue, hk⟩
    | some v =>
        rw [hget, hd, Option.some_or] at htrue hk
        have hv : d.get name = v := by rw [Fields.get, hd]; rfl
        exact Or.inl ⟨name, hname, by rw [hv]; exact htrue, by rw [hv]; exact hk⟩
  · intro h
    rcases h with ⟨name, hname, htrue, hk⟩ | ⟨name, hname, hnone, htrue, hk⟩
    · cases hd : d.get? name with
      | none =>
          rw [Fields.get, hd] at htrue
          cases htrue
      | some v =>
          have hv : d.get name = v := by rw [Fields.get, hd]; rfl
          refine ⟨name, hname, ?_⟩
          rw [hget, hd, Option.some_or]
          rw [hv] at htrue hk
          exact ⟨htrue, hk⟩
    · refine ⟨name, hname, ?_⟩
      rw [hget, hnone, Option.none_or]
      exact ⟨htrue, hk⟩

/-- They are ids of its parts. -/
theorem mem_ids_setAll {d : Fields} {k : Scalar} (h : k ∈ ids (Dict.setAll item d.entries)) :
    k ∈ ids d ∨ k ∈ ids item := by
  refine (mem_ids_setAll_iff.mp h).imp_right fun hbeside => ?_
  obtain ⟨name, hname, -, htrue, hk⟩ := mem_idsBeside.mp hbeside
  exact mem_ids.mpr ⟨name, hname, htrue, hk⟩

theorem idOf_mem {k : Scalar} (h : idOf item = some k) : k ∈ ids item := List.mem_of_mem_head? h

end Fields

/-! ### Lists -/

section Lists

variable {b : BusinessCache} {c : Category} {p : Item → Bool}

theorem list_put (b : BusinessCache) (c : Category) (items : List Item) :
    (b.put c items).list = Function.update b.list c items := by
  funext d
  by_cases hd : d = c
  · subst hd
    simp [BusinessCache.list, BusinessCache.put]
  · simp [BusinessCache.list, BusinessCache.put, hd]

/-- A statement about every list, where one list is replaced. -/
theorem forall_list_put {P : Category → List Item → Prop} {items : List Item} (hput : P c items)
    (hrest : ∀ d, P d (b.list d)) (d : Category) : P d ((b.put c items).list d) := by
  rw [list_put]
  by_cases hd : d = c
  · subst hd
    rwa [Function.update_self]
  · rw [Function.update_of_ne hd]
    exact hrest d

theorem findIn_eq_some {cs : List Category} {x : Item} (h : b.findIn p cs = some (c, x)) :
    c ∈ cs ∧ (b.list c).find? p = some x := by
  induction cs with
  | nil => cases h
  | cons d cs ih =>
      simp only [BusinessCache.findIn] at h
      split at h
      · next hfind =>
        cases h
        exact ⟨List.mem_cons_self, hfind⟩
      · exact ⟨List.mem_cons_of_mem _ (ih h).1, (ih h).2⟩

/-- The item that is found is the one that is taken out. -/
theorem perm_eraseP {xs : List Item} {x : Item} (h : xs.find? p = some x) : xs.Perm (x :: xs.eraseP p) := by
  induction xs with
  | nil => cases h
  | cons y xs ih =>
      cases hy : p y with
      | true =>
          rw [List.find?_cons_of_pos hy] at h
          rw [List.eraseP_cons_of_pos hy, Option.some.inj h]
      | false =>
          have hy : ¬p y = true := by rw [hy]; exact Bool.false_ne_true
          rw [List.find?_cons_of_neg hy] at h
          rw [List.eraseP_cons_of_neg hy]
          exact ((ih h).cons y).trans (List.Perm.swap x y _)

/-- Taking one item out of a list. -/
theorem taken_eraseP (hb : DistinctItems b) {x : Item} (hfind : (b.list c).find? p = some x) :
    DistinctItems (b.put c ((b.list c).eraseP p)) ∧
      ∀ k ∈ ids x, Free ids (b.put c ((b.list c).eraseP p)).list k := by
  have hle : ∀ k d, (((b.put c ((b.list c).eraseP p)).list d).countP fun y => k ∈ ids y) ≤
      (b.list d).countP fun y => k ∈ ids y := by
    intro k
    exact forall_list_put (P := fun d items => (items.countP _) ≤ (b.list d).countP _)
      List.eraseP_sublist.countP_le fun _ => le_rfl
  refine ⟨hb.of_countP_le hle, fun k hk => free_of_taken hb (hle k) ⟨c, ?_⟩⟩
  rw [list_put, Function.update_self, (perm_eraseP hfind).countP_eq, List.countP_cons, if_pos (by simpa using hk)]
  omega

/-- An item that was not meant is still there. -/
theorem mem_put_eraseP {d : Category} {x : Item} (hx : x ∈ b.list d) (hp : p x = false) :
    x ∈ (b.put c ((b.list c).eraseP p)).list d := by
  have hneg : ¬p x = true := by rw [hp]; exact Bool.false_ne_true
  exact forall_list_put (P := fun d items => x ∈ b.list d → x ∈ items)
    (fun hx => (List.mem_eraseP_of_neg hneg).mpr hx) (fun _ hx => hx) d hx

theorem mem_of_mem_put_eraseP {d : Category} {x : Item} (hx : x ∈ (b.put c ((b.list c).eraseP p)).list d) :
    x ∈ b.list d :=
  forall_list_put (P := fun d items => x ∈ items → x ∈ b.list d)
    (fun hx => List.mem_of_mem_eraseP hx) (fun _ hx => hx) d hx

/-- Putting an item in at the head of a list. -/
theorem distinct_put_head (hb : DistinctItems b) {x : Item} (hfree : ∀ k ∈ ids x, Free ids b.list k) :
    DistinctItems (b.put c (x :: b.list c)) := by
  rw [DistinctItems, list_put]
  exact Distinct.put hb (List.Perm.refl _) hfree

theorem mem_put_head {d : Category} {x y : Item} (hx : x ∈ b.list d) : x ∈ (b.put c (y :: b.list c)).list d :=
  forall_list_put (P := fun d items => x ∈ b.list d → x ∈ items)
    (fun hx => List.mem_cons_of_mem _ hx) (fun _ hx => hx) d hx

end Lists

/-! ### Items that stay -/

section Stays

/-- Items that are not named stay in the lists, under the ids they have. -/
def Stays (named : Item → Bool) (b b' : BusinessCache) : Prop :=
  ∀ c, ∀ x ∈ b.list c, named x = false → ∃ c', ∃ y ∈ b'.list c', SameIds x y

variable {named : Item → Bool} {b b' : BusinessCache}

theorem Stays.of_mem (h : ∀ c, ∀ x ∈ b.list c, named x = false → x ∈ b'.list c) : Stays named b b' :=
  fun c x hx hnamed => ⟨c, x, h c x hx hnamed, SameIds.refl x⟩

theorem Stays.refl (named : Item → Bool) (b : BusinessCache) : Stays named b b :=
  .of_mem fun _ _ hx _ => hx

/-- Items that stay are not lost. -/
theorem Stays.keepsOthers {call : Call} (h : Stays call.names b b') : KeepsOthers call b b' := by
  intro c x hx hnamed k hk
  obtain ⟨c', y, hy, hsame⟩ := h c x hx hnamed
  exact ⟨c', y, hy, by rw [hsame.ids_eq]; exact idOf_mem hk⟩

theorem keepsOthers_self (call : Call) (b : BusinessCache) : KeepsOthers call b b := (Stays.refl _ b).keepsOthers

/-- What holds of one step that names the items of one id holds of a loop over ids. -/
theorem stays_foldl {O : Type} {step : BusinessCache → O → BusinessCache} {guard : BusinessCache → O → Prop}
    (key : O → String)
    (hstep : ∀ b op, DistinctItems b → guard b op →
      DistinctItems (step b op) ∧ Stays (fun x => goesBy x (key op)) b (step b op))
    (ops : List O) (b : BusinessCache) (hb : DistinctItems b) (hguard : Guarded step guard b ops) :
    DistinctItems (ops.foldl step b) ∧
      Stays (fun x => ops.any fun op => goesBy x (key op)) b (ops.foldl step b) := by
  induction ops generalizing b with
  | nil => exact ⟨hb, .refl _ b⟩
  | cons op ops ih =>
      obtain ⟨hone, hstays⟩ := hstep b op hb hguard.1
      obtain ⟨hrest, hrestStays⟩ := ih _ hone hguard.2
      refine ⟨hrest, fun c x hx hnamed => ?_⟩
      simp only [List.any_cons, Bool.or_eq_false_iff] at hnamed
      obtain ⟨c', y, hy, hsame⟩ := hstays c x hx hnamed.1
      -- the item goes by the same ids after the first step
      have hnamed' : (ops.any fun op => goesBy y (key op)) = false := by
        simp only [hsame.goesBy_eq]
        exact hnamed.2
      obtain ⟨c'', z, hz, hsame'⟩ := hrestStays c' y hy hnamed'
      exact ⟨c'', z, hz, hsame.trans hsame'⟩

end Stays

/-! ### `ListManager` -/

section StatusChanges

variable {b : BusinessCache} {q : StatusChange} {status : String} {toList : Category}

/-- A value is true exactly when the number it stands for is. -/
theorem truthy_canon (v : Scalar) : v.canon.truthy = v.truthy := by
  cases v with
  | bool b => cases b <;> rfl
  | _ => rfl

/-- A duplicate shares an id. -/
theorem exists_id_of_isDuplicateOf {item existing : Item} (h : isDuplicateOf item existing = true) :
    ∃ k ∈ ids item, k ∈ ids existing := by
  obtain ⟨name, hname, h⟩ := List.any_eq_true.mp h
  rw [Bool.and_eq_true, Scalar.same, decide_eq_true_eq] at h
  obtain ⟨htrue, hsame⟩ := h
  refine ⟨(item.get name).canon, mem_ids.mpr ⟨name, hname, htrue, rfl⟩, mem_ids.mpr ⟨name, hname, ?_, hsame⟩⟩
  rw [← truthy_canon, hsame, truthy_canon]
  exact htrue

/-- The ids of an item that is moved are its own or those of the extra data. -/
theorem mem_ids_updateItem {item : Item} {now : String} {extraData : Fields} {k : Scalar}
    (h : k ∈ ids (updateItem item status now extraData)) : k ∈ ids extraData ∨ k ∈ ids item := by
  rcases mem_ids_setAll h with h | h
  · exact Or.inl h
  · right
    have hsame : SameIds item ((item.set "status" (.str status)).set "updated_at" (.str now)) :=
      (sameIds_set (by decide) _).trans (sameIds_set (by decide) _)
    rwa [hsame.ids_eq] at h

/-- Adding an item whose ids are free takes nothing out. -/
theorem addItemToList_eq {item : Item} (hfree : ∀ k ∈ ids item, Free ids b.list k) :
    addItemToList b item toList = b.put toList (item :: b.list toList) := by
  have hnone : (b.list toList).filter (fun existing => !isDuplicateOf item existing) = b.list toList := by
    refine List.filter_eq_self.mpr fun x hx => ?_
    rw [Bool.not_eq_true', Bool.eq_false_iff]
    intro hdup
    obtain ⟨k, hk, hkx⟩ := exists_id_of_isDuplicateOf hdup
    exact hfree k hk toList x hx hkx
  rw [addItemToList, hnone]

theorem addItemToList_spec {item : Item} (hb : DistinctItems b) (hfree : ∀ k ∈ ids item, Free ids b.list k) :
    DistinctItems (addItemToList b item toList) ∧
      ∀ c, ∀ x ∈ b.list c, x ∈ (addItemToList b item toList).list c := by
  rw [addItemToList_eq hfree]
  exact ⟨distinct_put_head hb hfree, fun c x hx => mem_put_head hx⟩

/-- **One id of a status change**: the ids stay distinct, and items that do not go by it stay. -/
theorem step_changeStatusOf {itemId : String} (hb : DistinctItems b) (hq : BringsNoOtherId q b itemId) :
    DistinctItems (changeStatusOf q status toList b itemId) ∧
      Stays (fun x => goesBy x itemId) b (changeStatusOf q status toList b itemId) := by
  unfold changeStatusOf
  cases hfind : b.findIn (fun item => goesBy item itemId) Category.all with
  | none => exact ⟨hb, .refl _ b⟩
  | some found =>
      obtain ⟨source, item⟩ := found
      obtain ⟨hremoved, hfree⟩ := taken_eraseP hb (findIn_eq_some hfind).2
      dsimp only
      by_cases hdelete : q.action = "delete"
      · rw [if_pos hdelete]
        exact ⟨hremoved, .of_mem fun c x hx hp => mem_put_eraseP hx hp⟩
      · rw [if_neg hdelete]
        have hown : ∀ k ∈ ids (updateItem item status q.now q.extraData),
            Free ids (removeItemFromList b itemId source).list k := by
          intro k hk
          rcases mem_ids_updateItem hk with hk | hk
          · rcases hq hdelete source item hfind k hk with hk | hk
            · exact hfree k hk
            · exact fun c x hx => hk c x (mem_of_mem_put_eraseP hx)
          · exact hfree k hk
        obtain ⟨hadded, hkept⟩ := addItemToList_spec hremoved hown
        exact ⟨hadded, .of_mem fun c x hx hp => hkept c x (mem_put_eraseP hx hp)⟩

/-- **`apply_status_change`.** -/
theorem step_applyStatusChange {lower : String → String} {isDigit : Char → Bool} {domain : String}
    (hb : DistinctItems b) (hq : Undisturbing lower isDigit domain b (.applyStatusChange q)) :
    DistinctItems (applyStatusChange lower domain b q) ∧
      KeepsOthers (.applyStatusChange q) b (applyStatusChange lower domain b q) := by
  simp only [applyStatusChange]
  cases htarget : getListForStatus lower domain (normalize lower q.newStatus "to_process") with
  | none => exact ⟨hb, keepsOthers_self _ b⟩
  | some toList =>
      obtain ⟨hdistinct, hstays⟩ := stays_foldl (fun itemId => itemId)
        (fun b itemId => step_changeStatusOf) q.itemIds b hb (hq toList htarget)
      exact ⟨hdistinct, Stays.keepsOthers hstays⟩

end StatusChanges

/-! ### The subscriber -/

section Messages

variable {b : BusinessCache} {lower : String → String} {isDigit : Char → Bool} {domain : String} {m : ItemMessage}

theorem list_withoutMeant (c : Category) :
    (withoutMeant isDigit domain b m).list c = (b.list c).filter fun item => !isMeant isDigit domain m item := rfl

/-- The item that a message is merged into is one it means. -/
theorem existingItem_eq_some {existing : Item} (h : existingItem isDigit domain b m = some existing) :
    ∃ c, existing ∈ b.list c ∧ isMeant isDigit domain m existing = true := by
  obtain ⟨found, hfound, rfl⟩ := Option.map_eq_some_iff.mp h
  obtain ⟨c, x⟩ := found
  have hfind := (findIn_eq_some hfound).2
  exact ⟨c, List.mem_of_find?_eq_some hfind, List.find?_some hfind⟩

/-- An id that the message or the item it is merged into carries on is one of the merged item. -/
theorem mem_ids_mergedItem {k : Scalar} (h : k ∈ ids m.itemData ∨
    ∃ existing, existingItem isDigit domain b m = some existing ∧ k ∈ idsBeside m.itemData existing) :
    k ∈ ids (mergedItem isDigit domain b m) := by
  unfold mergedItem
  rcases h with hk | ⟨existing, hexisting, hk⟩
  · split
    · exact hk
    · exact mem_ids_setAll_iff.mpr (Or.inl hk)
  · rw [hexisting]
    exact mem_ids_setAll_iff.mpr (Or.inr hk)

/-- The ids of the merged item are free once the items that are meant are taken out. -/
theorem free_mergedItem (hb : DistinctItems b) (hm : MergesOwnItem isDigit domain b m) :
    ∀ k ∈ ids (mergedItem isDigit domain b m), Free ids (withoutMeant isDigit domain b m).list k := by
  have hdata : ∀ k ∈ ids m.itemData, Free ids (withoutMeant isDigit domain b m).list k := by
    intro k hk c x hx
    rw [list_withoutMeant, List.mem_filter, Bool.not_eq_true'] at hx
    exact hm.2 k hk c x hx.1 hx.2
  intro k hk
  unfold mergedItem at hk
  split at hk
  · exact hdata k hk
  · next existing hexisting =>
    rcases mem_ids_setAll hk with hk | hk
    · exact hdata k hk
    · obtain ⟨c, hmem, hmeant⟩ := existingItem_eq_some hexisting
      refine free_of_taken hb (fun d => ?_) ⟨c, ?_⟩
      · rw [list_withoutMeant]
        exact List.filter_sublist.countP_le
      · rw [list_withoutMeant]
        exact countP_filter_lt hmem (by simpa using hk) (by rw [hmeant]; rfl)

/-- **`_update_business_cache_item`.** -/
theorem step_update (hb : DistinctItems b) (hm : MergesOwnItem isDigit domain b m) :
    DistinctItems (updateBusinessCacheItem isDigit lower domain b m) ∧
      KeepsOthers (.updateItem m) b (updateBusinessCacheItem isDigit lower domain b m) := by
  simp only [updateBusinessCacheItem]
  split
  · split
    · exact ⟨hb, keepsOthers_self _ b⟩
    · next status _ =>
      have hkept : DistinctItems (withoutMeant isDigit domain b m) :=
        hb.of_sublist fun c => List.filter_sublist
      refine ⟨distinct_put_head hkept (free_mergedItem hb hm), ?_⟩
      intro c x hx hnamed k hk
      cases hmeant : isMeant isDigit domain m x with
      | true =>
          refine ⟨getTargetCategoryKey status, mergedItem isDigit domain b m, ?_,
            mem_ids_mergedItem (hm.1 c x hx hmeant hnamed k hk)⟩
          rw [list_put, Function.update_self]
          exact List.mem_cons_self
      | false =>
          refine ⟨c, x, mem_put_head ?_, idOf_mem hk⟩
          rw [list_withoutMeant, List.mem_filter, hmeant]
          exact ⟨hx, rfl⟩
  · exact ⟨hb, keepsOthers_self _ b⟩

end Messages

/-! ### The job actions -/

section JobActions

variable {b : BusinessCache} {now : String}

theorem list_updateCacheAfterDelete (deletedIds : List String) (c : Category) :
    (updateCacheAfterDelete b deletedIds).list c =
      (b.list c).filter fun item => !deletedIds.any fun s => goesBy item s := by
  show ((b.lists c).map _).getD [] = ((b.lists c).getD []).filter _
  cases b.lists c <;> rfl

/-- **`_update_cache_after_delete`** takes out what it names. -/
theorem step_delete (deletedIds : List String) (hb : DistinctItems b) :
    DistinctItems (updateCacheAfterDelete b deletedIds) ∧
      KeepsOthers (.afterDelete deletedIds) b (updateCacheAfterDelete b deletedIds) := by
  refine ⟨hb.of_sublist fun c => ?_, Stays.keepsOthers (.of_mem fun c x hx hnamed => ?_)⟩
  · rw [list_updateCacheAfterDelete]
    exact List.filter_sublist
  · rw [list_updateCacheAfterDelete, List.mem_filter]
    exact ⟨hx, by rw [Bool.not_eq_true']; exact hnamed⟩

/-- **`_move_to_list_in_cache`** moves the item it names. -/
theorem step_move {lower : String → String} {domain : String} (jobId targetStatus : String) (hb : DistinctItems b) :
    DistinctItems (moveToListInCache lower domain now b jobId targetStatus) ∧
      KeepsOthers (.moveToList now jobId targetStatus) b
        (moveToListInCache lower domain now b jobId targetStatus) := by
  simp only [moveToListInCache]
  split
  · next target source item htarget hfind =>
    obtain ⟨hremoved, hfree⟩ := taken_eraseP hb (findIn_eq_some hfind).2
    have hids : SameIds item ((item.set "status" (.str targetStatus)).set "updated_at" (.str now)) :=
      (sameIds_set (by decide) _).trans (sameIds_set (by decide) _)
    refine ⟨distinct_put_head hremoved (by rw [hids.ids_eq]; exact hfree), ?_⟩
    refine Stays.keepsOthers (.of_mem fun c x hx hnamed => mem_put_head (mem_put_eraseP hx ?_))
    -- the item that is found goes by the id
    simp only [Call.names, goesBy, has, Bool.or_eq_false_iff] at hnamed
    unfold Scalar.or
    split
    · exact hnamed.1.1
    · exact hnamed.1.2
  · exact ⟨hb, keepsOthers_self _ b⟩

theorem sameIds_resetItem (now : String) (item : Item) : SameIds item (resetItem now item) :=
  (sameIds_set (by decide) _).trans (sameIds_set (by decide) _)

/-- A new item carries the id of its file. -/
theorem mem_ids_newTodoItem {now : String} {m : MovedItem} {k : Scalar} (h : k ∈ ids (newTodoItem now m)) :
    k = .str m.driveId := by
  have hnew : ∀ (extra : List (String × String)) (item : Item), (∀ e ∈ extra, e.1 ∉ idNames) →
      SameIds item (extra.foldl (fun item e => item.set e.1 (.str e.2)) item) := by
    intro extra
    induction extra with
    | nil => exact fun item _ => SameIds.refl item
    | cons e extra ih =>
        intro item hnames
        exact (sameIds_set (hnames e List.mem_cons_self) _).trans
          (ih _ fun e' he' => hnames e' (List.mem_cons_of_mem _ he'))
  unfold newTodoItem at h
  rw [(hnew _ _ ?_).ids_eq] at h
  · obtain ⟨name, hname, htrue, rfl⟩ := mem_ids.mp h
    simp only [idNames, List.mem_cons, List.not_mem_nil, or_false] at hname
    rcases hname with rfl | rfl | rfl
    · rfl
    · rfl
    · cases htrue
  · intro e he
    have he := (List.mem_filter.mp he).1
    simp only [List.mem_cons, List.not_mem_nil, or_false] at he
    rcases he with rfl | rfl | rfl <;> simp [idNames]

/-- Changing an item in place leaves the others, and its ids. -/
theorem modify_spec (xs : List Item) (i : ℕ) {f : Item → Item} (hf : ∀ x, SameIds x (f x)) :
    (∀ k, ((xs.modify i f).countP fun x => k ∈ ids x) = xs.countP fun x => k ∈ ids x) ∧
      ∀ x ∈ xs, ∃ y ∈ xs.modify i f, SameIds x y := by
  induction xs generalizing i with
  | nil => exact ⟨fun k => by simp, fun x hx => absurd hx List.not_mem_nil⟩
  | cons x xs ih =>
      cases i with
      | zero =>
          rw [List.modify_zero_cons]
          refine ⟨fun k => ?_, fun y hy => ?_⟩
          · rw [List.countP_cons, List.countP_cons, (hf x).ids_eq]
          · rcases List.mem_cons.mp hy with rfl | hy
            · exact ⟨f y, List.mem_cons_self, hf y⟩
            · exact ⟨y, List.mem_cons_of_mem _ hy, SameIds.refl y⟩
      | succ i =>
          rw [List.modify_succ_cons]
          refine ⟨fun k => ?_, fun y hy => ?_⟩
          · rw [List.countP_cons, List.countP_cons, (ih i).1 k]
          · rcases List.mem_cons.mp hy with rfl | hy
            · exact ⟨y, List.mem_cons_self, SameIds.refl y⟩
            · obtain ⟨z, hz, hsame⟩ := (ih i).2 y hy
              exact ⟨z, List.mem_cons_of_mem _ hz, hsame⟩

/-- Appending an item to `to_process`. -/
theorem put_todo_spec (hb : DistinctItems b) {x : Item} (hfree : ∀ k ∈ ids x, Free ids b.list k) :
    DistinctItems (b.put .toProcess (b.list .toProcess ++ [x])) ∧
      x ∈ (b.put .toProcess (b.list .toProcess ++ [x])).list .toProcess ∧
      ∀ c, ∀ y ∈ b.list c, y ∈ (b.put .toProcess (b.list .toProcess ++ [x])).list c := by
  rw [DistinctItems, list_put]
  refine ⟨Distinct.put hb (List.perm_append_singleton x _) hfree, by simp, fun c y hy => ?_⟩
  rw [← list_put]
  exact forall_list_put (P := fun c items => y ∈ b.list c → y ∈ items)
    (fun hy => List.mem_append_left _ hy) (fun _ hy => hy) c hy

/-- What is taken out of another list, and what stays. -/
theorem takeFromList_spec (hb : DistinctItems b) {driveId : String} {c : Category} {item : Item}
    (hfound : foundElsewhere b driveId = some (c, item)) :
    DistinctItems (takeFromList b driveId) ∧ (∀ k ∈ ids item, Free ids (takeFromList b driveId).list k) ∧
      (takeFromList b driveId).list .toProcess = b.list .toProcess ∧
      ∀ d, ∀ x ∈ b.list d, x ∈ (takeFromList b driveId).list d ∨ d = c ∧ hasDriveId driveId x = true := by
  obtain ⟨hc, hfind⟩ := findIn_eq_some hfound
  have htake : takeFromList b driveId = b.put c ((b.list c).filter fun item => !hasDriveId driveId item) := by
    rw [takeFromList, hfound]
  have hle : ∀ d, ((takeFromList b driveId).list d).Sublist (b.list d) := by
    rw [htake]
    exact forall_list_put (P := fun d items => items.Sublist (b.list d))
      List.filter_sublist fun _ => List.Sublist.refl _
  refine ⟨hb.of_sublist hle, fun k hk => ?_, ?_, fun d x hx => ?_⟩
  · refine free_of_taken hb (fun d => (hle d).countP_le) ⟨c, ?_⟩
    rw [htake, list_put, Function.update_self]
    have hitem := List.find?_some hfind
    exact countP_filter_lt (List.mem_of_find?_eq_some hfind) (by simpa using hk) (by rw [hitem]; rfl)
  · rw [htake, list_put, Function.update_of_ne]
    rintro rfl
    exact absurd hc (by decide)
  · rw [htake, list_put]
    by_cases hd : d = c
    · subst hd
      rw [Function.update_self, List.mem_filter]
      cases hx' : hasDriveId driveId x with
      | true => exact Or.inr ⟨rfl, rfl⟩
      | false => exact Or.inl ⟨hx, rfl⟩
    · rw [Function.update_of_ne hd]
      exact Or.inl hx

/-- A file whose item is in `to_process` already. -/
theorem todo_reset_spec (now : String) {t : BusinessCache} (ht : DistinctItems t) (i : ℕ) :
    DistinctItems (t.put .toProcess ((t.list .toProcess).modify i (resetItem now))) ∧
      ∀ c, ∀ x ∈ t.list c, ∃ y ∈
        (t.put .toProcess ((t.list .toProcess).modify i (resetItem now))).list c, SameIds x y := by
  obtain ⟨hcount, hkept⟩ := modify_spec (t.list .toProcess) i (sameIds_resetItem now)
  constructor
  · refine ht.of_countP_le fun k => ?_
    exact forall_list_put (P := fun c items => (items.countP _) ≤ (t.list c).countP _) (hcount k).le fun _ => le_rfl
  · exact forall_list_put (P := fun c items => ∀ x ∈ t.list c, ∃ y ∈ items, SameIds x y)
      hkept fun _ x hx => ⟨x, hx, SameIds.refl x⟩

/-- **One file of `_add_to_routing_todo`**: items that do not go by its id stay, under the ids they have. -/
theorem step_addOneToTodo (now : String) {m : MovedItem} (hb : DistinctItems b) (hm : MovesOwnItem b m) :
    DistinctItems (addOneToTodo now b m) ∧ Stays (fun x => goesBy x m.driveId) b (addOneToTodo now b m) := by
  unfold addOneToTodo
  by_cases hd : m.driveId = ""
  · rw [if_pos hd]
    exact ⟨hb, .refl _ b⟩
  · rw [if_neg hd]
    obtain ⟨hown, hnew⟩ := hm hd
    unfold todoList
    cases hfound : foundElsewhere b m.driveId with
    | none =>
        have ht : takeFromList b m.driveId = b := by rw [takeFromList, hfound]
        rw [ht]
        cases hidx : (b.list .toProcess).findIdx? (hasDriveId m.driveId) with
        | some i =>
            obtain ⟨hdistinct, hkept⟩ := todo_reset_spec now hb i
            exact ⟨hdistinct, fun c x hx _ => ⟨c, hkept c x hx⟩⟩
        | none =>
            have hfree := hnew hfound (List.findIdx?_eq_none_iff.mp hidx)
            have hnewFree : ∀ k ∈ ids (newTodoItem now m), Free ids b.list k :=
              fun k hk => mem_ids_newTodoItem hk ▸ hfree
            obtain ⟨hdistinct, -, hkept⟩ := put_todo_spec hb hnewFree
            exact ⟨hdistinct, .of_mem fun c x hx _ => hkept c x hx⟩
    | some found =>
        obtain ⟨c, item⟩ := found
        obtain ⟨ht, hfree, htodo, hstay⟩ := takeFromList_spec hb hfound
        rw [← htodo]
        cases hidx : ((takeFromList b m.driveId).list .toProcess).findIdx? (hasDriveId m.driveId) with
        | some i =>
            obtain ⟨hdistinct, hkept⟩ := todo_reset_spec now ht i
            refine ⟨hdistinct, fun d x hx hnamed => ?_⟩
            rcases hstay d x hx with hx | ⟨rfl, hmatch⟩
            · exact ⟨d, hkept d x hx⟩
            · -- the file is in `to_process` already, so nothing else may be taken out
              have hnone := (hown d item hfound x hx hmatch hnamed).2
              rw [← htodo] at hnone
              rw [List.findIdx?_eq_none_iff.mpr hnone] at hidx
              cases hidx
        | none =>
            have hids := sameIds_resetItem now item
            obtain ⟨hdistinct, hmoved, hkept⟩ := put_todo_spec ht (hids.ids_eq ▸ hfree)
            refine ⟨hdistinct, fun d x hx hnamed => ?_⟩
            rcases hstay d x hx with hx | ⟨rfl, hmatch⟩
            · exact ⟨d, x, hkept d x hx, SameIds.refl x⟩
            · obtain ⟨rfl, -⟩ := hown d item hfound x hx hmatch hnamed
              exact ⟨.toProcess, resetItem now x, hmoved, hids⟩

/-- **`_add_to_routing_todo`.** -/
theorem step_addToRoutingTodo {moved : List MovedItem} (hb : DistinctItems b)
    (hm : Guarded (addOneToTodo now) MovesOwnItem b moved) :
    DistinctItems (addToRoutingTodo now b moved) ∧
      KeepsOthers (.routingTodo now moved) b (addToRoutingTodo now b moved) := by
  obtain ⟨hdistinct, hstays⟩ := stays_foldl MovedItem.driveId
    (fun b m => step_addOneToTodo now) moved b hb hm
  unfold addToRoutingTodo
  split
  · exact ⟨hb, keepsOthers_self _ b⟩
  · -- the last write only makes sure that the list is there
    have hlist : ∀ b : BusinessCache, (b.put .toProcess (b.list .toProcess)).list = b.list := by
      intro b
      rw [list_put, Function.update_eq_self]
    dsimp only
    rw [DistinctItems, hlist]
    refine ⟨hdistinct, Stays.keepsOthers fun c x hx hnamed => ?_⟩
    rw [hlist]
    exact hstays c x hx hnamed

end JobActions

/-! ### Runs -/

section Run

variable (lower : String → String) (isDigit : Char → Bool) (domain : String)

/-- One call. -/
theorem step_apply {b : BusinessCache} (call : Call) (hb : DistinctItems b)
    (hcall : Undisturbing lower isDigit domain b call) :
    DistinctItems (apply lower isDigit domain b call) ∧ KeepsOthers call b (apply lower isDigit domain b call) := by
  cases call with
  | applyStatusChange q => exact step_applyStatusChange hb hcall
  | updateItem m => exact step_update hb hcall
  | afterDelete deletedIds => exact step_delete deletedIds hb
  | routingTodo now moved =>
      unfold apply
      by_cases hdomain : domain = "routing"
      · simp only [if_pos hdomain]
        exact step_addToRoutingTodo hb (hcall hdomain)
      · simp only [if_neg hdomain]
        exact ⟨hb, keepsOthers_self _ b⟩
  | moveToList now jobId targetStatus => exact step_move jobId targetStatus hb

/-- **Items stay in one list and are not lost**, in every run of calls that disturb no item they do not name. -/
theorem items_kept (b : BusinessCache) (hb : DistinctItems b) (calls : List Call)
    (hcalls : Guarded (apply lower isDigit domain) (Undisturbing lower isDigit domain) b calls) :
    ∀ pre, pre <+: calls → DistinctItems (run (apply lower isDigit domain) b pre) ∧
      ∀ call, pre ++ [call] <+: calls →
        KeepsOthers call (run (apply lower isDigit domain) b pre)
          (run (apply lower isDigit domain) b (pre ++ [call])) := by
  have hdistinct : ∀ pre, pre <+: calls → DistinctItems (run (apply lower isDigit domain) b pre) := by
    intro pre
    induction pre using List.reverseRecOn with
    | nil => exact fun _ => hb
    | append_singleton pre call ih =>
        intro hpre
        rw [run_concat]
        have hbefore := ih ((List.prefix_append pre [call]).trans hpre)
        exact (step_apply lower isDigit domain call hbefore (hcalls.at_prefix hpre)).1
  intro pre hpre
  refine ⟨hdistinct pre hpre, fun call hcall => ?_⟩
  rw [run_concat]
  exact (step_apply lower isDigit domain call (hdistinct pre hpre) (hcalls.at_prefix hcall)).2

end Run

/-- An item with one id. -/
def itemOf (s : String) : Item := Dict.ofList [("id", .str s), ("job_id", .str s), ("expense_id", .str s)]

/-- A cache with one open item. -/
def oneOpenItem (s : String) : BusinessCache where
  lists := fun c => some (if c = .toProcess then [itemOf s] else [])
  items := none

/-- The message of a job that is running. -/
def runningJob (jobId : String) : ItemMessage where
  jobId := jobId
  itemData := Dict.ofList [("job_id", .str jobId), ("status", .str "running")]
  departmentData := ∅

theorem distinct_oneOpenItem (s : String) : DistinctItems (oneOpenItem s) := by
  have hlist : (oneOpenItem s).list = Function.update (fun _ => []) Category.toProcess [itemOf s] := by
    funext c
    cases c <;> rfl
  have hempty : Distinct ids fun _ : Category => ([] : List Item) := by
    intro k
    simp [occurrences]
  rw [DistinctItems, hlist]
  exact hempty.put (List.Perm.refl _) fun k _ c x hx => absurd hx List.not_mem_nil

/-- The transaction 577 becomes the job x_18_577, and is moved back. -/
theorem items_kept_bank :
    let b := oneOpenItem "577"
    let calls : List Call := [.updateItem (runningJob "x_18_577"), .moveToList "now" "577" "to_process"]
    ∀ pre, pre <+: calls → DistinctItems (run (apply Text.lower Char.isDigit "bank") b pre) ∧
      ∀ call, pre ++ [call] <+: calls →
        KeepsOthers call (run (apply Text.lower Char.isDigit "bank") b pre)
          (run (apply Text.lower Char.isDigit "bank") b (pre ++ [call])) := by
  intro b calls
  refine items_kept Text.lower Char.isDigit "bank" b (distinct_oneOpenItem "577") calls ⟨⟨?_, ?_⟩, trivial, trivial⟩
  · -- the message has no `id`, so that of the item is kept
    have hkept : ∀ c, ∀ x ∈ b.list c, ∀ k ∈ ids x, k ∈ idsBeside (runningJob "x_18_577").itemData (itemOf "577") := by
      decide +kernel
    have hexisting : existingItem Char.isDigit "bank" b (runningJob "x_18_577") = some (itemOf "577") := by
      decide +kernel
    exact fun c x hx _ _ k hk => Or.inr ⟨itemOf "577", hexisting, hkept c x hx k (idOf_mem hk)⟩
  · decide +kernel

/-- **An item is lost**: the message of the job x_18_577 takes out the item 577 as well. -/
theorem item_lost :
    let b := (oneOpenItem "x_18_577").put .inProcess [itemOf "577"]
    let call : Call := .updateItem (runningJob "x_18_577")
    DistinctItems b ∧ ¬KeepsOthers call b (apply Text.lower Char.isDigit "bank" b call) := by
  intro b call
  constructor
  · refine distinct_put_head (distinct_oneOpenItem "x_18_577") ?_
    show ∀ k ∈ ids (itemOf "577"), ∀ c, ∀ x ∈ (oneOpenItem "x_18_577").list c, k ∉ ids x
    decide +kernel
  · intro hkept
    have hgone : ∀ c, ∀ y ∈ (apply Text.lower Char.isDigit "bank" b call).list c, Scalar.str "577" ∉ ids y := by
      decide +kernel
    obtain ⟨c, y, hy, hk⟩ := hkept .inProcess (itemOf "577") (List.mem_singleton_self _) (by decide +kernel)
      (.str "577") (by decide +kernel)
    exact hgone c y hy hk

end Pinnokio.Realtime
