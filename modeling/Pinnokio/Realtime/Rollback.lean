import Pinnokio.Realtime.ItemsKept

/-!
# Rolling a status change back

`rollback_status_change` undoes an optimistic `apply_status_change`: it calls it again with the old status, and with
what the items have under `id`.  An item that goes by its `job_id` or its `expense_id` may have nothing there, and
nothing is what every item has under a name it lacks.

* `forward_lists` — the lists after `apply_status_change`;
* `rollback_of_safe` — the rollback finds every item when no item that is looked at before it goes by its `id`;
* `rollback_misses` — otherwise an item of the set keeps the time of the first call;
* `rollback_restores_iff` — **when the rollback restores the lists**.
-/

namespace Pinnokio.Realtime

open Pinnokio.ActiveJobs Pinnokio.Shelves

/-! ### The rollback -/

/-- The test of `apply_status_change`, for an id that need not be a text. -/
def goesByValue (item : Item) (v : Scalar) : Bool :=
  (item.get "id").same v || (item.get "job_id").same v || (item.get "expense_id").same v

/-- One id of `apply_status_change`, which need not be a text. -/
def changeStatusOfValue (q : StatusChange) (status : String) (toList : Category) (b : BusinessCache) (v : Scalar) :
    BusinessCache :=
  match b.findIn (fun item => goesByValue item v) Category.all with
  | none => b
  | some (source, item) =>
      let removed := b.put source ((b.list source).eraseP fun item => goesByValue item v)
      if q.action = "delete" then removed
      else addItemToList removed (updateItem item status q.now q.extraData) toList

theorem changeStatusOf_eq (q : StatusChange) (status : String) (toList : Category) (b : BusinessCache) (s : String) :
    changeStatusOf q status toList b s = changeStatusOfValue q status toList b (.str s) := rfl

/-- `rollback_status_change`. -/
def rollbackStatusChange (lower : String → String) (domain : String) (b : BusinessCache) (items : List Item)
    (originalStatus now : String) : BusinessCache :=
  let status := normalize lower originalStatus "to_process"
  match getListForStatus lower domain status with
  | none => b
  | some toList =>
      (items.map fun item => item.get "id").foldl
        (changeStatusOfValue ⟨[], originalStatus, "rollback", ∅, now⟩ status toList) b

/-- What is to be where an item was: an item of the set with the time of the rollback, any other one as it was. -/
def restored (set : List Item) (now : String) (item : Item) : Item :=
  if item ∈ set then item.set "updated_at" (.str now) else item

/-- Whatever the items of the set were changed to, and in whatever order, the rollback restores every list. -/
def RollbackRestores (lower : String → String) (domain : String) (b : BusinessCache) (set : List Item)
    (originalStatus : String) : Prop :=
  ∀ (q : StatusChange) (moved : List Item) (now : String), q.action ≠ "delete" → q.extraData = ∅ →
    moved.Perm set → List.Forall₂ (fun s item => Scalar.str s ∈ ids item) q.itemIds moved →
    ∀ c, ((rollbackStatusChange lower domain (applyStatusChange lower domain b q) set originalStatus now).list c).Perm
      ((b.list c).map (restored set now))

/-- No other item of the set, and no item of the lists before `processed`, goes by what an item of the set has under
`id`. -/
def RollbackSafe (b : BusinessCache) (set : List Item) : Prop :=
  ∀ x ∈ set, ∀ y, y ≠ x → (y ∈ set ∨ ∃ c ≠ Category.processed, y ∈ b.list c) → goesByValue y (x.get "id") = false

/-! ### Items that are moved -/

/-- An item with a new status. -/
def stamp (status now : String) (item : Item) : Item := (item.set "status" (.str status)).set "updated_at" (.str now)

section Stamps

variable {item : Item} {status now : String}

theorem sameIds_stamp (status now : String) (item : Item) : SameIds item (stamp status now item) :=
  (sameIds_set (by decide) _).trans (sameIds_set (by decide) _)

theorem ids_stamp : ids (stamp status now item) = ids item := (sameIds_stamp status now item).ids_eq

theorem SameIds.goesByValue_eq {x y : Item} (h : SameIds x y) (v : Scalar) : goesByValue y v = goesByValue x v := by
  simp only [goesByValue, h "id" (by decide), h "job_id" (by decide), h "expense_id" (by decide)]

@[simp] theorem goesByValue_stamp (v : Scalar) : goesByValue (stamp status now item) v = goesByValue item v :=
  (sameIds_stamp status now item).goesByValue_eq v

theorem updated_at_stamp : Fields.get (stamp status now item) "updated_at" = .str now := by
  rw [stamp, get_set, if_pos rfl]

/-- An item that gets its old status back. -/
theorem stamp_stamp {status' now' : String} (h : Fields.get item "status" = .str status) :
    stamp status now (stamp status' now' item) = item.set "updated_at" (.str now) := by
  have hget : item.get? "status" = some (.str status) := by
    rw [Fields.get] at h
    cases hitem : item.get? "status" with
    | none =>
        rw [hitem] at h
        cases h
    | some v =>
        rw [hitem] at h
        rw [← h]
        rfl
  have hkey : "status" ∈ Dict.keys (item.set "status" (.str status')) := Dict.mem_keys_set.mpr (.inl rfl)
  rw [stamp, stamp, Dict.set_comm (by decide) hkey, Dict.set_set, Dict.set_set, Dict.set_of_get? hget]

/-- An item goes by its own `id`. -/
theorem goesByValue_self (item : Item) : goesByValue item (item.get "id") = true := by
  simp [goesByValue, Scalar.same]

/-- An item goes by a text that is not empty when it carries it as an id. -/
theorem goesByValue_iff_mem_ids {v : Scalar} (hv : v.canon.truthy = true) :
    goesByValue item v = true ↔ v.canon ∈ ids item := by
  have hsame (k : String) : (Fields.get item k).same v = true ↔
      (Fields.get item k).truthy = true ∧ (Fields.get item k).canon = v.canon := by
    rw [Scalar.same, decide_eq_true_eq]
    constructor
    · intro h
      rw [← truthy_canon, h]
      exact ⟨hv, rfl⟩
    · exact And.right
  rw [mem_ids, goesByValue, Bool.or_eq_true, Bool.or_eq_true, hsame, hsame, hsame]
  simp only [idNames, List.mem_cons, List.not_mem_nil, or_false, exists_eq_or_imp, exists_eq_left, or_assoc]

end Stamps

/-- The first item with a property, moved to the head of a list with a new status. -/
def moveTo (status now : String) (toList : Category) (p : Item → Bool) (b : BusinessCache) : BusinessCache :=
  match b.findIn p Category.all with
  | none => b
  | some (source, item) => addItemToList (b.put source ((b.list source).eraseP p)) (stamp status now item) toList

theorem changeStatusOfValue_eq {q : StatusChange} (haction : q.action ≠ "delete") (hextra : q.extraData = ∅)
    (status : String) (toList : Category) (b : BusinessCache) (v : Scalar) :
    changeStatusOfValue q status toList b v = moveTo status q.now toList (fun item => goesByValue item v) b := by
  rw [changeStatusOfValue, moveTo, hextra]
  split
  · rfl
  · exact if_neg haction

section Moves

variable {b : BusinessCache} {c d toList : Category} {p : Item → Bool} {x y : Item} {status now : String}

/-- **One move**: the item that is found leaves its list and stands at the head of the other one. -/
theorem moveTo_found (hb : DistinctItems b) (hfind : b.findIn p Category.all = some (c, x)) :
    let taken := b.put c ((b.list c).eraseP p)
    moveTo status now toList p b = taken.put toList (stamp status now x :: taken.list toList) ∧
      DistinctItems (moveTo status now toList p b) := by
  obtain ⟨htaken, hfree⟩ := taken_eraseP hb (findIn_eq_some hfind).2
  have hown : ∀ k ∈ ids (stamp status now x), Free ids (b.put c ((b.list c).eraseP p)).list k := by
    intro k hk
    rw [ids_stamp] at hk
    exact hfree k hk
  have hmove : moveTo status now toList p b =
      addItemToList (b.put c ((b.list c).eraseP p)) (stamp status now x) toList := by
    rw [moveTo, hfind]
  refine ⟨hmove.trans (addItemToList_eq hown), ?_⟩
  rw [hmove]
  exact (addItemToList_spec htaken hown).1

theorem findIn_eq_none {cs : List Category} (h : b.findIn p cs = none) : ∀ c ∈ cs, ∀ x ∈ b.list c, p x = false := by
  induction cs with
  | nil =>
      intro c hc
      cases hc
  | cons d cs ih =>
      simp only [BusinessCache.findIn] at h
      split at h
      · cases h
      · next hnone =>
        intro c hc x hx
        rcases List.mem_cons.mp hc with rfl | hc
        · exact Bool.eq_false_iff.mpr (List.find?_eq_none.mp hnone x hx)
        · exact ih h c hc x hx

/-- Items with a common id are the same item of the same list. -/
theorem eq_of_mem_ids (hb : DistinctItems b) {k : Scalar} (hx : x ∈ b.list c) (hy : y ∈ b.list d) (hkx : k ∈ ids x)
    (hky : k ∈ ids y) : d = c ∧ y = x := by
  have hfind : ((b.list c).find? fun z => k ∈ ids z).isSome = true := by
    rw [List.find?_isSome]
    exact ⟨x, hx, decide_eq_true hkx⟩
  obtain ⟨z, hz⟩ := Option.isSome_iff_exists.mp hfind
  have hkz : k ∈ ids z := of_decide_eq_true (List.find?_some (p := fun z => decide (k ∈ ids z)) hz)
  have hfree := (taken_eraseP hb hz).2 k hkz
  -- Whatever carries the id is the item that is found first.
  have hfirst : ∀ w ∈ b.list c, k ∈ ids w → w = z := by
    intro w hw hkw
    rcases List.mem_cons.mp ((perm_eraseP hz).mem_iff.mp hw) with hw | hw
    · exact hw
    · refine absurd hkw (hfree c w ?_)
      rw [list_put, Function.update_self]
      exact hw
  have hlist : d = c := by
    by_contra hne
    refine hfree d y ?_ hky
    rw [list_put, Function.update_of_ne hne]
    exact hy
  subst hlist
  exact ⟨rfl, (hfirst y hy hky).trans (hfirst x hx hkx).symm⟩

/-- The only item with a property is found. -/
theorem findIn_of_unique (hx : x ∈ b.list c) (hp : p x = true)
    (hunique : ∀ d, ∀ y ∈ b.list d, p y = true → d = c ∧ y = x) : b.findIn p Category.all = some (c, x) := by
  cases hfind : b.findIn p Category.all with
  | none =>
      have hall : c ∈ Category.all := by cases c <;> decide
      rw [findIn_eq_none hfind c hall x hx] at hp
      cases hp
  | some found =>
      obtain ⟨d, y⟩ := found
      obtain ⟨-, hfirst⟩ := findIn_eq_some hfind
      obtain ⟨rfl, rfl⟩ := hunique d y (List.mem_of_find?_eq_some hfirst) (List.find?_some hfirst)
      rfl

theorem eraseP_eq_filter {xs : List Item} (h : xs.countP p ≤ 1) : xs.eraseP p = xs.filter fun z => !p z := by
  induction xs with
  | nil => rfl
  | cons z xs ih =>
      cases hz : p z with
      | true =>
          rw [List.countP_cons_of_pos hz] at h
          have hnone : ∀ w ∈ xs, ¬p w = true := List.countP_eq_zero.mp (by omega)
          rw [List.eraseP_cons_of_pos hz, List.filter_cons_of_neg (by simp [hz])]
          exact (List.filter_eq_self.mpr fun w hw => by simp [hnone w hw]).symm
      | false =>
          have hneg : ¬p z = true := by rw [hz]; exact Bool.false_ne_true
          rw [List.countP_cons_of_neg hneg] at h
          rw [List.eraseP_cons_of_neg hneg, List.filter_cons_of_pos (by simp [hz]), ih h]

end Moves

/-! ### The first call -/

section Forward

variable {b : BusinessCache} {listed toList : Category} {status now : String}

/-- The lists when some items of a list have been moved. -/
def MovedTo (b : BusinessCache) (status now : String) (toList : Category) (moved : List Item) (b' : BusinessCache) :
    Prop :=
  ∀ c, b'.list c =
    (if c = toList then (moved.map (stamp status now)).reverse else []) ++ (b.list c).filter fun x => x ∉ moved

/-- The items that go by a text. -/
abbrev goesByText (s : String) : Item → Bool := fun item => goesByValue item (.str s)

section Step

variable {b' : BusinessCache} {done : List Item} {x : Item} {s : String}

/-- A text by which an item goes is that of its ids. -/
theorem goesByText_iff (hs : Scalar.str s ∈ ids x) (y : Item) : goesByText s y = true ↔ Scalar.str s ∈ ids y := by
  refine goesByValue_iff_mem_ids ?_
  obtain ⟨name, -, htrue, hcanon⟩ := mem_ids.mp hs
  rw [truthy_canon, ← hcanon, truthy_canon]
  exact htrue

/-- Only one item goes by a text of its own. -/
theorem eq_of_goesByText (hb : DistinctItems b) (hx : x ∈ b.list listed) (hs : Scalar.str s ∈ ids x) {c : Category}
    {y : Item} (hy : y ∈ b.list c) (hp : goesByText s y = true) : c = listed ∧ y = x :=
  eq_of_mem_ids hb hx hy hs ((goesByText_iff hs y).mp hp)

theorem countP_goesByText_le_one (hb : DistinctItems b) (hs : Scalar.str s ∈ ids x) (c : Category) :
    (b.list c).countP (goesByText s) ≤ 1 := by
  calc (b.list c).countP (goesByText s)
      = (b.list c).countP fun y => Scalar.str s ∈ ids y :=
        List.countP_congr fun y _ => by simpa using goesByText_iff hs y
    _ ≤ occurrences ids b.list (.str s) :=
        Finset.single_le_sum (f := fun c => (b.list c).countP fun y => Scalar.str s ∈ ids y)
          (fun _ _ => Nat.zero_le _) (Finset.mem_univ c)
    _ ≤ 1 := hb (.str s)

/-- An item that has been moved does not go by the text of another one. -/
theorem not_goesByText_head (hb : DistinctItems b) (hdone : ∀ z ∈ done, z ∈ b.list listed) (hx : x ∈ b.list listed)
    (hnew : x ∉ done) (hs : Scalar.str s ∈ ids x) {c : Category} {y : Item}
    (hy : y ∈ if c = toList then (done.map (stamp status now)).reverse else []) : goesByText s y = false := by
  split at hy
  · rw [List.mem_reverse] at hy
    obtain ⟨z, hz, rfl⟩ := List.mem_map.mp hy
    rw [goesByText, goesByValue_stamp]
    refine Bool.eq_false_iff.mpr fun hp => hnew ?_
    rw [← (eq_of_goesByText hb hx hs (hdone z hz) hp).2]
    exact hz
  · cases hy

/-- What is left of a list without the next item. -/
theorem MovedTo.filter_next (hb : DistinctItems b) (hdone : ∀ z ∈ done, z ∈ b.list listed) (hx : x ∈ b.list listed)
    (hnew : x ∉ done) (hs : Scalar.str s ∈ ids x) (hmoved : MovedTo b status now toList done b') (c : Category) :
    (b'.list c).filter (fun y => !goesByText s y) =
      (if c = toList then (done.map (stamp status now)).reverse else []) ++
        (b.list c).filter fun y => y ∉ done ++ [x] := by
  rw [hmoved c, List.filter_append, List.filter_filter]
  congr 1
  · refine List.filter_eq_self.mpr fun y hy => ?_
    rw [not_goesByText_head hb hdone hx hnew hs hy]
    rfl
  · refine List.filter_congr fun y hy => ?_
    by_cases hyx : y = x
    · simp [hyx, (goesByText_iff hs x).mpr hs]
    · have hnot : goesByText s y = false :=
        Bool.eq_false_iff.mpr fun hp => hyx (eq_of_goesByText hb hx hs hy hp).2
      simp [hyx, hnot]

/-- One item is moved after the others. -/
theorem movedTo_step (hb : DistinctItems b) (hb' : DistinctItems b') (hdone : ∀ z ∈ done, z ∈ b.list listed)
    (hx : x ∈ b.list listed) (hnew : x ∉ done) (hs : Scalar.str s ∈ ids x)
    (hmoved : MovedTo b status now toList done b') :
    DistinctItems (moveTo status now toList (goesByText s) b') ∧
      MovedTo b status now toList (done ++ [x]) (moveTo status now toList (goesByText s) b') := by
  have hunique : ∀ d, ∀ y ∈ b'.list d, goesByText s y = true → d = listed ∧ y = x := by
    intro d y hy hp
    rw [hmoved d] at hy
    rcases List.mem_append.mp hy with hy | hy
    · rw [not_goesByText_head hb hdone hx hnew hs hy] at hp
      cases hp
    · exact eq_of_goesByText hb hx hs (List.mem_of_mem_filter hy) hp
  have hmem : x ∈ b'.list listed := by
    rw [hmoved listed]
    exact List.mem_append_right _ (List.mem_filter.mpr ⟨hx, decide_eq_true hnew⟩)
  obtain ⟨hmove, hdistinct⟩ : _ ∧ DistinctItems (moveTo status now toList (goesByText s) b') :=
    moveTo_found hb' (findIn_of_unique hmem ((goesByText_iff hs x).mpr hs) hunique)
  refine ⟨hdistinct, fun c => ?_⟩
  -- What is left of a list is what does not go by the text.
  have htaken : (b'.put listed ((b'.list listed).eraseP (goesByText s))).list c =
      (if c = toList then (done.map (stamp status now)).reverse else []) ++
        (b.list c).filter fun y => y ∉ done ++ [x] := by
    rw [list_put, ← hmoved.filter_next hb hdone hx hnew hs c]
    by_cases hc : c = listed
    · subst hc
      rw [Function.update_self, eraseP_eq_filter (countP_goesByText_le_one hb' hs c)]
    · rw [Function.update_of_ne hc]
      refine (List.filter_eq_self.mpr fun y hy => ?_).symm
      cases hp : goesByText s y with
      | false => rfl
      | true => exact absurd (hunique c y hy hp).1 hc
  rw [hmove, list_put]
  by_cases hc : c = toList
  · subst hc
    rw [Function.update_self, htaken, if_pos rfl, if_pos rfl, List.map_append, List.reverse_append]
    rfl
  · rw [Function.update_of_ne hc, htaken, if_neg hc, if_neg hc]

end Step

/-- **The lists after the first call.** -/
theorem forward_lists (hb : DistinctItems b) {ss : List String} {moved : List Item}
    (hids : List.Forall₂ (fun s item => Scalar.str s ∈ ids item) ss moved) (hin : ∀ x ∈ moved, x ∈ b.list listed)
    (hnodup : moved.Nodup) :
    DistinctItems (ss.foldl (fun b s => moveTo status now toList (goesByText s) b) b) ∧
      MovedTo b status now toList moved (ss.foldl (fun b s => moveTo status now toList (goesByText s) b) b) := by
  have hrun : ∀ (done : List Item) (b' : BusinessCache), DistinctItems b' → (∀ z ∈ done, z ∈ b.list listed) →
      (done ++ moved).Nodup → MovedTo b status now toList done b' →
      DistinctItems (ss.foldl (fun b s => moveTo status now toList (goesByText s) b) b') ∧
        MovedTo b status now toList (done ++ moved)
          (ss.foldl (fun b s => moveTo status now toList (goesByText s) b) b') := by
    clear hnodup
    induction hids with
    | nil =>
        intro done b' hb' _ _ hdone
        rw [List.append_nil]
        exact ⟨hb', hdone⟩
    | @cons s x ss moved hs _ ih =>
        intro done b' hb' hold hnodup hdone
        have hx : x ∈ b.list listed := hin x List.mem_cons_self
        have hnew : x ∉ done := fun hmem => (List.nodup_append.mp hnodup).2.2 x hmem x List.mem_cons_self rfl
        obtain ⟨hdistinct, hstep⟩ := movedTo_step hb hb' hold hx hnew hs hdone
        have happend : done ++ x :: moved = done ++ [x] ++ moved := by simp
        rw [happend] at hnodup ⊢
        refine ih (fun y hy => hin y (List.mem_cons_of_mem x hy)) (done ++ [x]) _ hdistinct ?_ hnodup hstep
        intro z hz
        rcases List.mem_append.mp hz with hz | hz
        · exact hold z hz
        · rw [List.mem_singleton.mp hz]
          exact hx
  refine hrun [] b hb (fun z hz => nomatch hz) hnodup fun c => ?_
  simp

end Forward

/-! ### The order in which the lists are searched -/

/-- The items of the lists before `processed`, each with its list. -/
def early (b : BusinessCache) : List (Category × Item) :=
  (b.list .toProcess).map (Prod.mk .toProcess) ++
    ((b.list .inProcess).map (Prod.mk .inProcess) ++ (b.list .pending).map (Prod.mk .pending))

/-- The list `processed` ends with `rest`, and `front` is all that is looked at before. -/
def Laid (b : BusinessCache) (front : List (Category × Item)) (rest : List Item) : Prop :=
  ∃ head, b.list .processed = head ++ rest ∧ (early b ++ head.map (Prod.mk Category.processed)).Perm front

section Search

variable {b : BusinessCache} {front : List (Category × Item)} {rest : List Item} {c : Category} {p : Item → Bool}
  {x : Item}

theorem mem_early {q : Category × Item} : q ∈ early b ↔ q.1 ≠ .processed ∧ q.2 ∈ b.list q.1 := by
  obtain ⟨c, x⟩ := q
  cases c <;> simp [early]

theorem Laid.perm {front' : List (Category × Item)} (h : Laid b front rest) (hperm : front.Perm front') :
    Laid b front' rest := by
  obtain ⟨head, hlist, hfront⟩ := h
  exact ⟨head, hlist, hfront.trans hperm⟩

/-- An item at the head of a list is looked at before the rest. -/
theorem Laid.put_head (h : Laid b front rest) (c : Category) (x : Item) :
    Laid (b.put c (x :: b.list c)) ((c, x) :: front) rest := by
  obtain ⟨head, hlist, hfront⟩ := h
  refine Laid.perm ?_ (hfront.cons (c, x))
  cases c with
  | processed =>
      refine ⟨x :: head, ?_, ?_⟩
      · rw [list_put, Function.update_self, hlist]
        rfl
      · simp only [early, list_put, List.map_cons]
        exact List.perm_middle
  | toProcess => exact ⟨head, hlist, by simp [early, list_put]⟩
  | inProcess =>
      refine ⟨head, hlist, ?_⟩
      simp only [early, list_put, List.append_assoc]
      exact List.perm_middle
  | pending =>
      refine ⟨head, hlist, ?_⟩
      simp only [early, list_put, List.append_assoc]
      exact (List.Perm.append_left _ List.perm_middle).trans List.perm_middle

/-- What is found before the rest leaves the front. -/
theorem Laid.take (h : Laid b front rest) (hq : ∃ q ∈ front, p q.2 = true) :
    ∃ c x front', b.findIn p Category.all = some (c, x) ∧ p x = true ∧ front.Perm ((c, x) :: front') ∧
      Laid (b.put c ((b.list c).eraseP p)) front' rest := by
  obtain ⟨head, hlist, hfront⟩ := h
  simp only [BusinessCache.findIn, Category.all]
  cases htodo : (b.list .toProcess).find? p with
  | some x =>
      refine ⟨.toProcess, x, _, rfl, List.find?_some htodo, hfront.symm.trans ?_, head, hlist, List.Perm.refl _⟩
      simp only [early, list_put, Function.update_self]
      exact (((perm_eraseP htodo).map _).append_right _).append_right _
  | none =>
  cases hrunning : (b.list .inProcess).find? p with
  | some x =>
      refine ⟨.inProcess, x, _, rfl, List.find?_some hrunning, hfront.symm.trans ?_, head, hlist, List.Perm.refl _⟩
      simp only [early, list_put, List.append_assoc]
      refine (List.Perm.append_left _ (((perm_eraseP hrunning).map _).append_right _)).trans ?_
      exact List.perm_middle
  | none =>
  cases hpending : (b.list .pending).find? p with
  | some x =>
      refine ⟨.pending, x, _, rfl, List.find?_some hpending, hfront.symm.trans ?_, head, hlist, List.Perm.refl _⟩
      simp only [early, list_put, List.append_assoc]
      have htaken := (perm_eraseP hpending).map (Prod.mk Category.pending)
      refine (List.Perm.append_left _ (List.Perm.append_left _ (htaken.append_right _))).trans ?_
      exact (List.Perm.append_left _ List.perm_middle).trans List.perm_middle
  | none =>
  cases hhead : head.find? p with
  | some x =>
      have hfind : (b.list .processed).find? p = some x := by
        rw [hlist, List.find?_append, hhead]
        rfl
      rw [hfind]
      refine ⟨.processed, x, _, rfl, List.find?_some hhead, hfront.symm.trans ?_, head.eraseP p, ?_, List.Perm.refl _⟩
      · simp only [early, list_put]
        refine (List.Perm.append_left _ ((perm_eraseP hhead).map _)).trans ?_
        exact List.perm_middle
      · rw [list_put, Function.update_self, hlist, List.eraseP_append_left (List.find?_some hhead) _
          (List.mem_of_find?_eq_some hhead)]
  | none =>
      -- Then nothing in the front has the property.
      obtain ⟨⟨d, y⟩, hq, hp⟩ := hq
      rcases List.mem_append.mp (hfront.mem_iff.mpr hq) with hq | hq
      · obtain ⟨hd, hy⟩ := mem_early.mp hq
        have hnone : (b.list d).find? p = none := by
          cases d with
          | toProcess => exact htodo
          | inProcess => exact hrunning
          | pending => exact hpending
          | processed => exact absurd rfl hd
        exact absurd hp (List.find?_eq_none.mp hnone y hy)
      · obtain ⟨z, hz, hsame⟩ := List.mem_map.mp hq
        cases hsame
        exact absurd hp (List.find?_eq_none.mp hhead y hz)

/-- Where nothing in the front has a property, the rest is searched. -/
theorem Laid.take_rest (h : Laid b front rest) (hnone : ∀ q ∈ front, p q.2 = false) (hfind : rest.find? p = some x) :
    b.findIn p Category.all = some (.processed, x) ∧
      Laid (b.put .processed ((b.list .processed).eraseP p)) front (rest.eraseP p) := by
  obtain ⟨head, hlist, hfront⟩ := h
  have hearly : ∀ c, c ≠ .processed → (b.list c).find? p = none := by
    intro c hc
    refine List.find?_eq_none.mpr fun y hy hp => ?_
    have hmem : (c, y) ∈ front := hfront.mem_iff.mp (List.mem_append_left _ (mem_early.mpr ⟨hc, hy⟩))
    rw [hnone _ hmem] at hp
    cases hp
  have hhead : ∀ y ∈ head, ¬p y = true := by
    intro y hy hp
    have hmem : (Category.processed, y) ∈ front :=
      hfront.mem_iff.mp (List.mem_append_right _ (List.mem_map_of_mem hy))
    rw [hnone _ hmem] at hp
    cases hp
  constructor
  · simp only [BusinessCache.findIn, Category.all, hearly .toProcess (by decide), hearly .inProcess (by decide),
      hearly .pending (by decide)]
    rw [hlist, List.find?_append, List.find?_eq_none.mpr hhead, Option.none_or, hfind]
  · refine ⟨head, ?_, ?_⟩
    · rw [list_put, Function.update_self, hlist, List.eraseP_append_right _ hhead]
    · simp only [early, list_put] at hfront ⊢
      exact hfront

/-- Every item of a cache, each with its list. -/
def row (b : BusinessCache) : List (Category × Item) := early b ++ (b.list .processed).map (Prod.mk .processed)

theorem Laid.row_perm (h : Laid b front rest) : (row b).Perm (front ++ rest.map (Prod.mk .processed)) := by
  obtain ⟨head, hlist, hfront⟩ := h
  rw [row, hlist, List.map_append, ← List.append_assoc]
  exact hfront.append_right _

/-- A list is what the row has of it. -/
theorem filter_row (b : BusinessCache) (c : Category) :
    (row b).filter (fun q => q.1 = c) = (b.list c).map (Prod.mk c) := by
  have hlist (d : Category) : ((b.list d).map (Prod.mk d)).filter (fun q => q.1 = c) =
      if d = c then (b.list d).map (Prod.mk d) else [] := by
    rw [List.filter_map]
    split
    · next hd => simp [Function.comp_def, hd]
    · next hd => simp [Function.comp_def, hd]
  simp only [row, early, List.filter_append, hlist]
  cases c <;> simp

/-- Caches with the same row have the same lists. -/
theorem list_perm_of_row {b' : BusinessCache} {f : Item → Item}
    (h : (row b').Perm ((row b).map fun q => (q.1, f q.2))) (c : Category) : (b'.list c).Perm ((b.list c).map f) := by
  have hfilter := h.filter fun q => q.1 = c
  rw [filter_row, List.filter_map] at hfilter
  have hsame : ((fun q : Category × Item => decide (q.1 = c)) ∘ fun q : Category × Item => (q.1, f q.2)) =
      fun q => decide (q.1 = c) := rfl
  rw [hsame, filter_row, List.map_map] at hfilter
  have hsecond := hfilter.map Prod.snd
  rw [List.map_map, List.map_map] at hsecond
  simpa [Function.comp_def] using hsecond

end Search

/-! ### The rollback of a safe set -/

section Safe

variable {b : BusinessCache} {front : List (Category × Item)} {rest : List Item} {source target : Category}
  {status now status' now' : String}

/-- What the rollback does with the items of a set. -/
abbrev rollAll (status now : String) (target : Category) (items : List Item) (b : BusinessCache) : BusinessCache :=
  items.foldl (fun b x => moveTo status now target (fun item => goesByValue item (x.get "id")) b) b

/-- **The rollback of items that nothing stands for**: each of them is found and moved. -/
theorem rollback_of_safe {items : List Item} (hb : DistinctItems b) (hlaid : Laid b front rest)
    {others : List (Category × Item)}
    (hfront : front.Perm (items.map (fun x => (source, stamp status' now' x)) ++ others)) (hnodup : items.Nodup)
    (hitems : ∀ x ∈ items, ∀ y ∈ items, y ≠ x → goesByValue y (x.get "id") = false)
    (hothers : ∀ x ∈ items, ∀ q ∈ others, goesByValue q.2 (x.get "id") = false) :
    Laid (rollAll status now target items b)
      (items.map (fun x => (target, stamp status now (stamp status' now' x))) ++ others) rest := by
  induction items generalizing b front others with
  | nil => exact hlaid.perm hfront
  | cons x items ih =>
      have hmem : (source, stamp status' now' x) ∈ front := hfront.mem_iff.mpr (by simp)
      have hself : goesByValue (stamp status' now' x) (x.get "id") = true := by
        rw [goesByValue_stamp, goesByValue_self]
      obtain ⟨c, y, front', hfind, hp, hperm, htaken⟩ :=
        hlaid.take (p := fun item => goesByValue item (x.get "id")) ⟨_, hmem, hself⟩
      -- What is found is the item itself.
      have hown : (c, y) = (source, stamp status' now' x) := by
        have hin := hfront.mem_iff.mp (hperm.mem_iff.mpr List.mem_cons_self)
        rcases List.mem_append.mp hin with hin | hin
        · obtain ⟨z, hz, hsame⟩ := List.mem_map.mp hin
          by_cases hzx : z = x
          · rw [← hsame, hzx]
          · have hnot := hitems x List.mem_cons_self z hz hzx
            rw [← (Prod.mk.inj hsame).2, goesByValue_stamp, hnot] at hp
            cases hp
        · exact absurd hp (Bool.eq_false_iff.mp (hothers x List.mem_cons_self _ hin))
      rw [hown] at hfind
      obtain ⟨rfl, rfl⟩ := Prod.mk.inj hown
      obtain ⟨hmove, hdistinct⟩ : _ ∧ DistinctItems (moveTo status now target
          (fun item => goesByValue item (x.get "id")) b) := moveTo_found hb hfind
      have hnext := htaken.put_head target (stamp status now (stamp status' now' x))
      rw [← hmove] at hnext
      have hrest : front'.Perm (items.map (fun x => (c, stamp status' now' x)) ++ others) :=
        (hperm.symm.trans hfront).cons_inv
      have hcons : ((target, stamp status now (stamp status' now' x)) :: front').Perm
          (items.map (fun x => (c, stamp status' now' x)) ++
            (target, stamp status now (stamp status' now' x)) :: others) :=
        (hrest.cons _).trans List.perm_middle.symm
      refine (ih hdistinct hnext hcons (List.nodup_cons.mp hnodup).2 ?_ ?_).perm List.perm_middle
      · exact fun y hy z hz => hitems y (List.mem_cons_of_mem x hy) z (List.mem_cons_of_mem x hz)
      · intro y hy q hq
        rcases List.mem_cons.mp hq with rfl | hq
        · rw [goesByValue_stamp, goesByValue_stamp]
          refine hitems y (List.mem_cons_of_mem x hy) x List.mem_cons_self ?_
          rintro rfl
          exact (List.nodup_cons.mp hnodup).1 hy
        · exact hothers y (List.mem_cons_of_mem x hy) q hq

end Safe

/-! ### The rollback of any set -/

section Misses

variable {b : BusinessCache} {front : List (Category × Item)} {rest ms items : List Item} {target : Category}
  {status now status' now' : String}

/-- One item of the rollback where the first call has put items at the head of `rest`: it takes an item of the front, or
the first one behind the front that goes by the value. -/
theorem roll_step (hb : DistinctItems b) (hlaid : Laid b front (ms.map (stamp status' now') ++ rest)) {v : Scalar}
    (hv : (∃ q ∈ front, goesByValue q.2 v = true) ∨ ∃ x ∈ ms, goesByValue x v = true) :
    DistinctItems (moveTo status now target (fun item => goesByValue item v) b) ∧
      ((∃ front', (∀ x, (∃ q ∈ front, SameIds x q.2) → ∃ q ∈ front', SameIds x q.2) ∧
          (∃ q ∈ front, goesByValue q.2 v = true) ∧
          Laid (moveTo status now target (fun item => goesByValue item v) b) front'
            (ms.map (stamp status' now') ++ rest)) ∨
        ∃ y, ms.find? (fun x => goesByValue x v) = some y ∧ (∀ q ∈ front, goesByValue q.2 v = false) ∧
          Laid (moveTo status now target (fun item => goesByValue item v) b)
            ((target, stamp status now (stamp status' now' y)) :: front)
            ((ms.eraseP fun x => goesByValue x v).map (stamp status' now') ++ rest)) := by
  by_cases hhit : ∃ q ∈ front, goesByValue q.2 v = true
  · obtain ⟨c, y, front', hfind, -, hperm, htaken⟩ := hlaid.take (p := fun item => goesByValue item v) hhit
    obtain ⟨hmove, hdistinct⟩ : _ ∧ DistinctItems (moveTo status now target (fun item => goesByValue item v) b) :=
      moveTo_found hb hfind
    refine ⟨hdistinct, .inl ⟨(target, stamp status now y) :: front', ?_, hhit, ?_⟩⟩
    · rintro x ⟨q, hq, hsame⟩
      rcases List.mem_cons.mp (hperm.mem_iff.mp hq) with rfl | hq
      · exact ⟨_, List.mem_cons_self, hsame.trans (sameIds_stamp status now y)⟩
      · exact ⟨q, List.mem_cons_of_mem _ hq, hsame⟩
    · rw [hmove]
      exact htaken.put_head target _
  · have hnone : ∀ q ∈ front, goesByValue q.2 v = false := fun q hq => Bool.eq_false_iff.mpr fun hp => hhit ⟨q, hq, hp⟩
    obtain ⟨x, hx, hp⟩ := hv.resolve_left hhit
    have hsome : (ms.find? fun x => goesByValue x v).isSome = true := List.find?_isSome.mpr ⟨x, hx, hp⟩
    obtain ⟨y, hy⟩ := Option.isSome_iff_exists.mp hsome
    have hstamped : ((fun x => goesByValue x v) ∘ stamp status' now') = fun x => goesByValue x v :=
      funext fun z => goesByValue_stamp v
    have hfirst : (ms.map (stamp status' now') ++ rest).find? (fun item => goesByValue item v) =
        some (stamp status' now' y) := by
      rw [List.find?_append, List.find?_map, hstamped, hy]
      rfl
    have hleft : (ms.map (stamp status' now') ++ rest).eraseP (fun item => goesByValue item v) =
        (ms.eraseP fun x => goesByValue x v).map (stamp status' now') ++ rest := by
      rw [List.eraseP_append_left (a := stamp status' now' x) (by rw [goesByValue_stamp]; exact hp) _
        (List.mem_map_of_mem hx), List.eraseP_map, hstamped]
    obtain ⟨hfind, htaken⟩ := hlaid.take_rest hnone hfirst
    obtain ⟨hmove, hdistinct⟩ : _ ∧ DistinctItems (moveTo status now target (fun item => goesByValue item v) b) :=
      moveTo_found hb hfind
    refine ⟨hdistinct, .inr ⟨y, hy, hnone, ?_⟩⟩
    rw [hmove, ← hleft]
    exact htaken.put_head target _

/-- **A rollback that misses.**  An item is taken from behind the front only when the item it is looked for with is
there as well: if more items are behind the front than are looked for and there, some of them stay. -/
theorem rollback_misses (hb : DistinctItems b) (hlaid : Laid b front (ms.map (stamp status' now') ++ rest))
    (hplaces : ∀ x ∈ items, x ∈ ms ∨ ∃ q ∈ front, SameIds x q.2) :
    ∃ front', ∃ ms' : List Item,
      Laid (rollAll status now target items b) front' (ms'.map (stamp status' now') ++ rest) ∧
        ms.length ≤ ms'.length + (items.filter fun x => x ∈ ms).length := by
  induction items generalizing b front ms with
  | nil => exact ⟨front, ms, hlaid, Nat.le_refl _⟩
  | cons x items ih =>
      have hv : (∃ q ∈ front, goesByValue q.2 (x.get "id") = true) ∨ ∃ z ∈ ms, goesByValue z (x.get "id") = true := by
        rcases hplaces x List.mem_cons_self with hx | ⟨q, hq, hsame⟩
        · exact .inr ⟨x, hx, goesByValue_self x⟩
        · refine .inl ⟨q, hq, ?_⟩
          rw [hsame.goesByValue_eq, goesByValue_self]
      obtain ⟨hdistinct, ⟨front', hsame, -, hstep⟩ | ⟨y, hy, hnone, hstep⟩⟩ := roll_step hb hlaid hv
      · obtain ⟨front'', ms', hend, hle⟩ := ih hdistinct hstep fun z hz =>
          (hplaces z (List.mem_cons_of_mem x hz)).imp_right (hsame z)
        refine ⟨front'', ms', hend, hle.trans (Nat.add_le_add_left ?_ _)⟩
        exact ((List.sublist_cons_self x items).filter _).length_le
      · have hperm := perm_eraseP hy
        obtain ⟨front'', ms', hend, hle⟩ := ih hdistinct hstep fun z hz => by
          rcases hplaces z (List.mem_cons_of_mem x hz) with hin | ⟨q, hq, hsame⟩
          · rcases List.mem_cons.mp (hperm.mem_iff.mp hin) with rfl | hin
            · exact .inr ⟨_, List.mem_cons_self, (sameIds_stamp _ _ z).trans (sameIds_stamp _ _ _)⟩
            · exact .inl hin
          · exact .inr ⟨q, List.mem_cons_of_mem _ hq, hsame⟩
        refine ⟨front'', ms', hend, ?_⟩
        -- The item itself was behind the front.
        have hx : x ∈ ms := by
          refine (hplaces x List.mem_cons_self).resolve_right ?_
          rintro ⟨q, hq, hsame⟩
          have hgoes := hnone q hq
          rw [hsame.goesByValue_eq, goesByValue_self] at hgoes
          cases hgoes
        have hfewer : (items.filter fun z => z ∈ ms.eraseP fun z => goesByValue z (x.get "id")).length ≤
            (items.filter fun z => z ∈ ms).length := by
          refine (List.monotone_filter_right items fun z hz => ?_).length_le
          exact decide_eq_true (List.mem_of_mem_eraseP (of_decide_eq_true hz))
        have hlength := hperm.length_eq
        rw [List.length_cons] at hlength
        have hown : ((x :: items).filter fun z => z ∈ ms).length = (items.filter fun z => z ∈ ms).length + 1 := by
          simp [hx]
        omega

/-- The items that have the time of the first call. -/
abbrev marked (now : String) : Item → Bool := fun item => item.get "updated_at" = .str now

/-- Items of the first call that are behind the front have its time: if no more items have it than those of `rest`, none
of them stay. -/
theorem Laid.none_left (hlaid : Laid b front (ms.map (stamp status' now') ++ rest))
    (hle : (b.list .processed).countP (marked now') ≤ rest.countP (marked now')) : ms.length = 0 := by
  obtain ⟨head, hlist, -⟩ := hlaid
  have hall : (ms.map (stamp status' now')).countP (marked now') = ms.length := by
    rw [List.countP_eq_length.mpr, List.length_map]
    intro y hy
    obtain ⟨z, -, rfl⟩ := List.mem_map.mp hy
    exact decide_eq_true updated_at_stamp
  rw [hlist, List.countP_append, List.countP_append, hall] at hle
  omega

/-- Where the last item is the first one that goes by a value, the others do not. -/
theorem goesByValue_of_find_last {xs : List Item} {y : Item} {v : Scalar}
    (h : (xs ++ [y]).find? (fun x => goesByValue x v) = some y) (hnot : y ∉ xs) :
    ∀ x ∈ xs, goesByValue x v = false := by
  intro x hx
  refine Bool.eq_false_iff.mpr fun hp => ?_
  have hsome : (xs.find? fun x => goesByValue x v).isSome = true := List.find?_isSome.mpr ⟨x, hx, hp⟩
  obtain ⟨w, hw⟩ := Option.isSome_iff_exists.mp hsome
  rw [List.find?_append, hw] at h
  cases h
  exact hnot (List.mem_of_find?_eq_some hw)

/-- The last item is the one that is taken when only it goes by a value. -/
theorem eraseP_last {xs : List Item} {y : Item} {v : Scalar} (hy : goesByValue y v = true)
    (h : ∀ x ∈ xs, goesByValue x v = false) : (xs ++ [y]).eraseP (fun x => goesByValue x v) = xs := by
  have hneg : ∀ x ∈ xs, ¬goesByValue x v = true := by
    intro x hx
    rw [h x hx]
    exact Bool.false_ne_true
  have hlast : [y].eraseP (fun x => goesByValue x v) = [] := by
    simp [hy]
  rw [List.eraseP_append_right _ hneg, hlast, List.append_nil]

/-- If no item keeps the time of the first call, every item was found by its own `id`. -/
theorem safe_of_none_marked (hb : DistinctItems b)
    (hlaid : Laid b front (items.reverse.map (stamp status' now') ++ rest)) (hnodup : items.Nodup)
    (hend : ((rollAll status now target items b).list .processed).countP (marked now') ≤ rest.countP (marked now')) :
    (∀ x ∈ items, ∀ q ∈ front, goesByValue q.2 (x.get "id") = false) ∧
      items.Pairwise fun x y => goesByValue y (x.get "id") = false ∧ goesByValue x (y.get "id") = false := by
  induction items generalizing b front with
  | nil =>
      refine ⟨?_, List.Pairwise.nil⟩
      intro x hx
      cases hx
  | cons x items ih =>
      obtain ⟨hnot, hrest⟩ := List.nodup_cons.mp hnodup
      have hin : x ∈ (x :: items).reverse := by simp
      have hall : ∀ z ∈ items, z ∈ (x :: items).reverse := fun z hz => by simp [hz]
      obtain ⟨hdistinct, ⟨front', hsame, -, hstep⟩ | ⟨y, hy, hnone, hstep⟩⟩ :=
        roll_step (v := x.get "id") hb hlaid (.inr ⟨x, hin, goesByValue_self x⟩)
      · -- An item of the front was taken: one item behind it is left over.
        obtain ⟨front'', ms', hl, hle⟩ := rollback_misses hdistinct hstep fun z hz => .inl (hall z hz)
        have hzero := hl.none_left hend
        have hcount := List.length_filter_le (fun z => decide (z ∈ (x :: items).reverse)) items
        rw [List.length_reverse, List.length_cons] at hle
        omega
      · have hperm := perm_eraseP hy
        by_cases hyx : y = x
        · subst hyx
          rw [List.reverse_cons] at hy hstep
          have hbefore : ∀ z ∈ items.reverse, goesByValue z (y.get "id") = false :=
            goesByValue_of_find_last hy (mt List.mem_reverse.mp hnot)
          rw [eraseP_last (goesByValue_self y) hbefore] at hstep
          obtain ⟨hfront, hpairs⟩ := ih hdistinct hstep hrest hend
          refine ⟨fun z hz q hq => ?_, List.Pairwise.cons (fun z hz => ?_) hpairs⟩
          · rcases List.mem_cons.mp hz with rfl | hz
            · exact hnone q hq
            · exact hfront z hz q (List.mem_cons_of_mem _ hq)
          · have hmoved := hfront z hz _ List.mem_cons_self
            rw [goesByValue_stamp, goesByValue_stamp] at hmoved
            exact ⟨hbefore z (List.mem_reverse.mpr hz), hmoved⟩
        · -- Another item was taken, and will not be there when it is looked for.
          have hyitems : y ∈ items := by
            have hmem := List.mem_reverse.mp (List.mem_of_find?_eq_some hy)
            exact (List.mem_cons.mp hmem).resolve_left hyx
          obtain ⟨front'', ms', hl, hle⟩ := rollback_misses hdistinct hstep fun z hz => by
            rcases List.mem_cons.mp (hperm.mem_iff.mp (hall z hz)) with rfl | hz
            · exact .inr ⟨_, List.mem_cons_self, (sameIds_stamp _ _ z).trans (sameIds_stamp _ _ _)⟩
            · exact .inl hz
          have hzero := hl.none_left hend
          have hgone : y ∉ (x :: items).reverse.eraseP fun z => goesByValue z (x.get "id") := by
            have hn : (x :: items).reverse.Nodup := List.nodup_reverse.mpr hnodup
            exact (List.nodup_cons.mp (hperm.nodup_iff.mp hn)).1
          have hcount : (items.filter fun z =>
              z ∈ (x :: items).reverse.eraseP fun z => goesByValue z (x.get "id")).length < items.length :=
            List.length_filter_lt_length_iff_exists.mpr ⟨y, hyitems, by rwa [decide_eq_true_eq]⟩
          have hlength := hperm.length_eq
          rw [List.length_reverse, List.length_cons, List.length_cons] at hlength
          omega

end Misses

/-! ### When the rollback restores the lists -/

section Restores

variable {lower : String → String} {domain originalStatus : String} {b b' : BusinessCache} {listed target : Category}
  {set moved : List Item} {status now : String}

theorem rollbackStatusChange_eq (hnormal : normalize lower originalStatus "to_process" = originalStatus)
    (hlist : getListForStatus lower domain originalStatus = some target) :
    rollbackStatusChange lower domain b set originalStatus now = rollAll originalStatus now target set b := by
  rw [rollbackStatusChange]
  simp only [hnormal, hlist, List.foldl_map]
  rfl

theorem applyStatusChange_eq {q : StatusChange} (haction : q.action ≠ "delete") (hextra : q.extraData = ∅)
    (hlist : getListForStatus lower domain (normalize lower q.newStatus "to_process") = some target) :
    applyStatusChange lower domain b q = q.itemIds.foldl
      (fun b s => moveTo (normalize lower q.newStatus "to_process") q.now target (goesByText s) b) b := by
  rw [applyStatusChange]
  simp only [hlist]
  congr 1
  funext b s
  rw [changeStatusOf_eq]
  exact changeStatusOfValue_eq haction hextra _ target b (.str s)

/-- A domain with lists has one for every status. -/
theorem getListForStatus_isSome (h : getListForStatus lower domain originalStatus = some listed) (status : String) :
    ∃ c, getListForStatus lower domain status = some c := by
  unfold getListForStatus at h ⊢
  split at h
  · next hexpenses => exact ⟨_, if_pos hexpenses⟩
  · next hexpenses =>
    split at h
    · next hknown => exact ⟨_, by rw [if_neg hexpenses, if_pos hknown]⟩
    · cases h

/-- Where the first call has put the items. -/
theorem MovedTo.laid (h : MovedTo b status now target moved b') (hperm : moved.Perm set) :
    Laid b' (set.map (fun x => (target, stamp status now x)) ++ (early b).filter fun q => q.2 ∉ set)
      ((b.list .processed).filter fun x => x ∉ set) := by
  have hsame : ∀ xs : List Item, (xs.filter fun x => x ∉ moved) = xs.filter fun x => x ∉ set := by
    intro xs
    refine List.filter_congr fun x _ => ?_
    simp only [hperm.mem_iff]
  have hlists : ∀ c, b'.list c =
      (if c = target then (moved.map (stamp status now)).reverse else []) ++ (b.list c).filter fun x => x ∉ set := by
    intro c
    rw [h c, hsame]
  have hmoved : (((moved.map (stamp status now)).reverse).map (Prod.mk target)).Perm
      (set.map fun x => (target, stamp status now x)) := by
    rw [List.map_reverse, List.map_map]
    exact (List.reverse_perm _).trans (hperm.map _)
  have hearly : (early b).filter (fun q => q.2 ∉ set) =
      ((b.list .toProcess).filter fun x => x ∉ set).map (Prod.mk .toProcess) ++
        (((b.list .inProcess).filter fun x => x ∉ set).map (Prod.mk .inProcess) ++
          ((b.list .pending).filter fun x => x ∉ set).map (Prod.mk .pending)) := by
    simp only [early, List.filter_append, List.filter_map]
    rfl
  refine ⟨if Category.processed = target then (moved.map (stamp status now)).reverse else [], hlists .processed, ?_⟩
  rw [hearly]
  refine List.Perm.trans ?_ (hmoved.append_right _)
  simp only [early, hlists]
  cases target with
  | toProcess => simp
  | inProcess =>
      simp only [reduceCtorEq, if_false, if_true, List.nil_append, List.map_append, List.map_nil, List.append_nil,
        List.append_assoc]
      exact List.perm_append_comm_assoc _ _ _
  | pending =>
      simp only [reduceCtorEq, if_false, if_true, List.nil_append, List.map_append, List.map_nil, List.append_nil]
      exact (List.Perm.append_left _ (List.perm_append_comm_assoc _ _ _)).trans (List.perm_append_comm_assoc _ _ _)
  | processed =>
      simp only [reduceCtorEq, if_false, if_true, List.nil_append]
      refine List.Perm.trans ?_ List.perm_append_comm
      simp

/-- The items of a row with an id are as many as the items of the lists with it. -/
theorem countP_row (b : BusinessCache) (k : Scalar) :
    (row b).countP (fun q => k ∈ ids q.2) = occurrences ids b.list k := by
  have hsum : occurrences ids b.list k = (b.list .toProcess).countP (fun x => k ∈ ids x) +
      ((b.list .inProcess).countP (fun x => k ∈ ids x) + ((b.list .pending).countP (fun x => k ∈ ids x) +
        ((b.list .processed).countP (fun x => k ∈ ids x) + 0))) := rfl
  rw [hsum]
  simp only [row, early, List.countP_append, List.countP_map, Function.comp_def]
  omega

theorem mem_row {c : Category} {x : Item} : (c, x) ∈ row b ↔ x ∈ b.list c := by
  rw [row, List.mem_append, mem_early]
  cases c <;> simp

/-- An item of the set is once in the row. -/
theorem nodup_row_filter (hb : DistinctItems b) (hids : ∀ x ∈ set, ∃ k, k ∈ ids x) :
    ((row b).filter fun q => q.2 ∈ set).Nodup := by
  refine List.nodup_iff_count_le_one.mpr fun q => ?_
  by_cases hq : q.2 ∈ set
  · obtain ⟨k, hk⟩ := hids q.2 hq
    refine (List.filter_sublist.count_le q).trans (le_trans ?_ (hb k))
    rw [← countP_row]
    exact List.countP_mono_left fun q' _ hq' => by simpa [beq_iff_eq.mp hq'] using hk
  · rw [List.count_eq_zero_of_not_mem]
    · exact Nat.zero_le 1
    · exact fun hmem => hq (of_decide_eq_true (List.mem_filter.mp hmem).2)

/-- The row, with the items of the set apart. -/
theorem row_perm (hb : DistinctItems b) (hnodup : set.Nodup) (hin : ∀ x ∈ set, x ∈ b.list listed)
    (hids : ∀ x ∈ set, ∃ k, k ∈ ids x) :
    (row b).Perm (set.map (Prod.mk listed) ++ (row b).filter fun q => q.2 ∉ set) := by
  have hown : ((row b).filter fun q => q.2 ∈ set).Perm (set.map (Prod.mk listed)) := by
    refine (List.perm_ext_iff_of_nodup (nodup_row_filter hb hids)
      (hnodup.map (Prod.mk_right_injective listed))).mpr ?_
    rintro ⟨c, x⟩
    rw [List.mem_filter, mem_row, decide_eq_true_eq, List.mem_map]
    constructor
    · rintro ⟨hx, hset⟩
      obtain ⟨k, hk⟩ := hids x hset
      rw [(eq_of_mem_ids hb (hin x hset) hx hk hk).1]
      exact ⟨x, hset, rfl⟩
    · rintro ⟨y, hy, hsame⟩
      cases hsame
      exact ⟨hin x hy, hy⟩
  refine List.Perm.trans ?_ (hown.append_right _)
  have hsplit := (List.filter_append_perm (fun q : Category × Item => decide (q.2 ∈ set)) (row b)).symm
  simpa using hsplit

/-- **A safe set is restored.** -/
theorem restores_of_safe (hb : DistinctItems b) (hnodup : set.Nodup) (hin : ∀ x ∈ set, x ∈ b.list listed)
    (hids : ∀ x ∈ set, ∃ k, k ∈ ids x) (hstatus : ∀ x ∈ set, Fields.get x "status" = .str originalStatus)
    (hnormal : normalize lower originalStatus "to_process" = originalStatus)
    (hlist : getListForStatus lower domain originalStatus = some listed) (hsafe : RollbackSafe b set) :
    RollbackRestores lower domain b set originalStatus := by
  intro q moved now haction hextra hperm hgiven
  obtain ⟨target, htarget⟩ := getListForStatus_isSome hlist (normalize lower q.newStatus "to_process")
  rw [applyStatusChange_eq haction hextra htarget, rollbackStatusChange_eq hnormal hlist]
  obtain ⟨hdistinct, hmoved⟩ : DistinctItems _ ∧
      MovedTo b (normalize lower q.newStatus "to_process") q.now target moved _ :=
    forward_lists hb hgiven (fun x hx => hin x (hperm.mem_iff.mp hx)) (hperm.nodup_iff.mpr hnodup)
  have hothers : ∀ x ∈ set, ∀ q ∈ (early b).filter fun q => q.2 ∉ set, goesByValue q.2 (x.get "id") = false := by
    intro x hx q hq
    obtain ⟨hq, hnot⟩ := List.mem_filter.mp hq
    obtain ⟨hearly, hmem⟩ := mem_early.mp hq
    have hout : q.2 ∉ set := of_decide_eq_true hnot
    refine hsafe x hx q.2 ?_ (.inr ⟨q.1, hearly, hmem⟩)
    rintro rfl
    exact hout hx
  have hback : Laid (rollAll originalStatus now listed set _) _ _ := rollback_of_safe hdistinct (hmoved.laid hperm)
    (List.Perm.refl _) hnodup (fun x hx y hy hne => hsafe x hx y hne (.inl hy)) hothers
  refine list_perm_of_row ?_
  refine hback.row_perm.trans (List.Perm.trans (List.Perm.of_eq ?_) ((row_perm hb hnodup hin hids).map _).symm)
  -- The items of the set are back where they were, and the others have not moved.
  have hset : set.map (fun x => (listed, stamp originalStatus now
      (stamp (normalize lower q.newStatus "to_process") q.now x))) =
        (set.map (Prod.mk listed)).map fun q => (q.1, restored set now q.2) := by
    rw [List.map_map]
    refine List.map_congr_left fun x hx => ?_
    rw [stamp_stamp (hstatus x hx)]
    exact congrArg (Prod.mk listed) (if_pos hx).symm
  have hrest : ((row b).filter fun q => q.2 ∉ set).map (fun q => (q.1, restored set now q.2)) =
      (row b).filter fun q => q.2 ∉ set := by
    rw [List.map_congr_left (g := id), List.map_id]
    intro q hq
    exact congrArg (Prod.mk q.1) (if_neg (of_decide_eq_true (List.mem_filter.mp hq).2))
  rw [hset, List.map_append, hrest, List.append_assoc, row, List.filter_append, List.filter_map]
  rfl

theorem normalize_completed (hlower : lower "completed" = "completed") :
    normalize lower "completed" "to_process" = "completed" := by
  rw [ActiveJobs.normalize, normalizedKey, hlower]
  decide

/-- What is completed is `processed` in every domain that has lists. -/
theorem getListForStatus_completed (hlower : lower "completed" = "completed")
    (h : getListForStatus lower domain originalStatus = some listed) :
    getListForStatus lower domain "completed" = some .processed := by
  obtain ⟨c, hc⟩ := getListForStatus_isSome h "completed"
  unfold getListForStatus at hc ⊢
  by_cases hexpenses : domain = "expenses"
  · rw [if_pos hexpenses, expensesListForStatus]
    simp [hlower]
  · rw [if_neg hexpenses] at hc ⊢
    split at hc
    · next hknown =>
      rw [if_pos hknown]
      decide
    · cases hc

/-- A text for each item of a set. -/
theorem exists_texts (hids : ∀ x ∈ set, ∃ s, Scalar.str s ∈ ids x) :
    ∃ ss, List.Forall₂ (fun s item => Scalar.str s ∈ ids item) ss set := by
  induction set with
  | nil => exact ⟨[], List.Forall₂.nil⟩
  | cons x set ih =>
      obtain ⟨s, hs⟩ := hids x List.mem_cons_self
      obtain ⟨ss, hss⟩ := ih fun y hy => hids y (List.mem_cons_of_mem x hy)
      exact ⟨s :: ss, List.Forall₂.cons hs hss⟩

/-- **A set that is restored is safe**: otherwise it does not come back from `processed`. -/
theorem safe_of_restores (hlower : lower "completed" = "completed") (hb : DistinctItems b) (hnodup : set.Nodup)
    (hin : ∀ x ∈ set, x ∈ b.list listed) (hids : ∀ x ∈ set, ∃ s, Scalar.str s ∈ ids x)
    (hnormal : normalize lower originalStatus "to_process" = originalStatus)
    (hlist : getListForStatus lower domain originalStatus = some listed)
    (hrestores : RollbackRestores lower domain b set originalStatus) : RollbackSafe b set := by
  have hcompleted := normalize_completed hlower
  -- The texts by which the items are moved.
  obtain ⟨ss, hss⟩ := exists_texts hids
  have haction : ("" : String) ≠ "delete" := by decide
  have happly : applyStatusChange lower domain b ⟨ss, "completed", "", ∅, "1"⟩ =
      ss.foldl (fun b s => moveTo "completed" "1" .processed (goesByText s) b) b := by
    have htarget : getListForStatus lower domain (normalize lower "completed" "to_process") = some .processed := by
      rw [hcompleted, getListForStatus_completed hlower hlist]
    rw [applyStatusChange_eq (q := ⟨ss, "completed", "", ∅, "1"⟩) haction rfl htarget, hcompleted]
  have hend := hrestores ⟨ss, "completed", "", ∅, "1"⟩ set "2" haction rfl (List.Perm.refl _) hss .processed
  rw [happly, rollbackStatusChange_eq hnormal hlist] at hend
  obtain ⟨hdistinct, hmoved⟩ : _ ∧ MovedTo b "completed" "1" .processed set
      (ss.foldl (fun b s => moveTo "completed" "1" .processed (goesByText s) b) b) :=
    forward_lists hb hss hin hnodup
  generalize ss.foldl (fun b s => moveTo "completed" "1" .processed (goesByText s) b) b = b' at hend hdistinct hmoved
  have hlaid : Laid b' (early b' ++ [])
      (set.reverse.map (stamp "completed" "1") ++ (b.list .processed).filter fun x => x ∉ set) := by
    refine ⟨[], ?_, List.Perm.refl _⟩
    rw [hmoved .processed, if_pos rfl, List.map_reverse]
    rfl
  have hcount : ((b.list .processed).map (restored set "2")).countP (marked "1") ≤
      ((b.list .processed).filter fun x => x ∉ set).countP (marked "1") := by
    rw [List.countP_map, List.countP_filter]
    refine List.countP_mono_left fun x _ hx => ?_
    simp only [Function.comp, restored] at hx
    split at hx
    · rw [marked, get_set, if_pos rfl] at hx
      exact absurd hx (by decide)
    · next hout => simp [hx, hout]
  obtain ⟨hfront, hpairs⟩ := safe_of_none_marked hdistinct hlaid hnodup ((hend.countP_eq _).le.trans hcount)
  intro x hx y hne hy
  by_cases hset : y ∈ set
  · have hsymm : Std.Symm fun z w : Item =>
        goesByValue w (z.get "id") = false ∧ goesByValue z (w.get "id") = false := ⟨fun z w h => ⟨h.2, h.1⟩⟩
    exact (hpairs.forall hx hset (Ne.symm hne)).1
  · obtain ⟨c, hc, hmem⟩ := hy.resolve_left hset
    have hin' : (c, y) ∈ early b' := mem_early.mpr ⟨hc, by
      rw [hmoved c]
      exact List.mem_append_right _ (List.mem_filter.mpr ⟨hmem, decide_eq_true hset⟩)⟩
    exact hfront x hx (c, y) (by simpa using hin')

end Restores

/-- **When a rollback restores the lists.**  The items of a set come from one list, have one normalised status, and each
goes by a text.  Whatever status they are given, the rollback gives every list its items again, those of the set with
the old status and the time of the rollback, exactly when no other item of the set and no item of the lists before
`processed` goes by what an item of the set has under `id`. -/
theorem rollback_restores_iff (lower : String → String) (hlower : lower "completed" = "completed") (domain : String)
    (b : BusinessCache) (hb : DistinctItems b) (listed : Category) (set : List Item) (hnodup : set.Nodup)
    (hin : ∀ x ∈ set, x ∈ b.list listed) (hids : ∀ x ∈ set, ∃ s, Scalar.str s ∈ ids x) (originalStatus : String)
    (hstatus : ∀ x ∈ set, Fields.get x "status" = .str originalStatus)
    (hnormal : normalize lower originalStatus "to_process" = originalStatus)
    (hlist : getListForStatus lower domain originalStatus = some listed) :
    RollbackRestores lower domain b set originalStatus ↔ RollbackSafe b set := by
  constructor
  · exact safe_of_restores hlower hb hnodup hin hids hnormal hlist
  · refine restores_of_safe hb hnodup hin (fun x hx => ?_) hstatus hnormal hlist
    obtain ⟨s, hs⟩ := hids x hx
    exact ⟨_, hs⟩

/-- An expense: it has no `id`. -/
def expense (s : String) : Item := Dict.ofList [("expense_id", .str s), ("status", .str "pending")]

/-- A cache with one pending expense. -/
def onePending : BusinessCache := (oneOpenItem "0").put .pending [expense "e1"]

/-- A cache with two pending expenses. -/
def twoPending : BusinessCache := onePending.put .pending [expense "e2", expense "e1"]

theorem distinct_onePending : DistinctItems onePending := by
  refine distinct_put_head (distinct_oneOpenItem "0") ?_
  show ∀ k ∈ ids (expense "e1"), ∀ c, ∀ x ∈ (oneOpenItem "0").list c, k ∉ ids x
  decide

theorem distinct_twoPending : DistinctItems twoPending := by
  refine distinct_put_head distinct_onePending ?_
  show ∀ k ∈ ids (expense "e2"), ∀ c, ∀ x ∈ onePending.list c, k ∉ ids x
  decide

/-- The text an expense goes by. -/
theorem expense_goes_by : ∀ x ∈ [expense "e1"], ∃ s, Scalar.str s ∈ ids x := by
  intro x hx
  rw [List.mem_singleton.mp hx]
  exact ⟨"e1", by decide⟩

/-- Nothing else goes by `None`, which is what an expense has under `id`. -/
theorem safe_onePending : RollbackSafe onePending [expense "e1"] := by
  have hothers : ∀ c, c ≠ Category.processed → ∀ y ∈ onePending.list c, y ≠ expense "e1" →
      goesByValue y ((expense "e1").get "id") = false := by
    decide
  intro x hx y hne hy
  obtain rfl := List.mem_singleton.mp hx
  rcases hy with hy | ⟨c, hc, hy⟩
  · exact absurd (List.mem_singleton.mp hy) hne
  · exact hothers c hc y hy hne

/-- The only pending expense is rolled back. -/
theorem rollback_restores_one : RollbackRestores Text.lower "expenses" onePending [expense "e1"] "pending" :=
  (rollback_restores_iff Text.lower (by decide) "expenses" onePending distinct_onePending .pending [expense "e1"]
    (by simp) (by decide) expense_goes_by "pending" (by decide) (by decide) (by decide)).mpr safe_onePending

/-- The other pending expense stands for the one that is to be rolled back. -/
theorem rollback_takes_other : ¬∀ (domain : String) (b : BusinessCache) (listed : Category) (set : List Item)
    (originalStatus : String), DistinctItems b → set.Nodup → (∀ x ∈ set, x ∈ b.list listed) →
    (∀ x ∈ set, ∃ s, Scalar.str s ∈ ids x) → (∀ x ∈ set, Fields.get x "status" = .str originalStatus) →
    normalize Text.lower originalStatus "to_process" = originalStatus →
    getListForStatus Text.lower domain originalStatus = some listed →
    RollbackRestores Text.lower domain b set originalStatus := by
  intro h
  have hlower : Text.lower "completed" = "completed" := by decide
  have hin : ∀ x ∈ [expense "e1"], x ∈ twoPending.list .pending := by decide
  have hlist : getListForStatus Text.lower "expenses" "pending" = some .pending := by decide
  have hrestores := h "expenses" twoPending .pending [expense "e1"] "pending" distinct_twoPending (by simp) hin
    expense_goes_by (by decide) (by decide) hlist
  have hsafe : RollbackSafe twoPending [expense "e1"] :=
    safe_of_restores hlower distinct_twoPending (by simp) hin expense_goes_by (by decide) hlist hrestores
  have hnot := hsafe (expense "e1") List.mem_cons_self (expense "e2") (by decide)
    (.inr ⟨.pending, by decide, List.mem_cons_self⟩)
  exact absurd hnot (by decide)

end Pinnokio.Realtime
