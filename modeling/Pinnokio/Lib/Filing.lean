import Mathlib.Data.List.Flatten
import Mathlib.Data.List.Nodup
import Pinnokio.Lib.Dict

/-!
# Named items in drawers

A dictionary of drawers, each with a label and its items in order.  An item may carry a name.  An operation looks for
a name drawer after drawer and acts on the first item it finds: it changes it, takes it out, or puts a new item at the
end of a drawer.  As long as no name is there twice, the first item is the only one:

* `locate_eq_some_iff` — what is found under a name;
* `change_eq`, `take_eq` — acting on the first item is acting on every item with the name;
* `nodup_change`, `nodup_take`, `nodup_put` — no name gets there twice;
* `locate_change`, `locate_take`, `locate_put` — the names read as a map.
-/

namespace Pinnokio.Filing

/-- A drawer with its label. -/
structure Drawer (L I : Type*) where
  label : L
  items : List I
  deriving DecidableEq

variable {K L I N : Type*}

/-- Every item with the key of its drawer. -/
def pairs (d : Dict K (Drawer L I)) : List (K × I) :=
  d.entries.flatMap fun e => e.2.items.map (Prod.mk e.1)

/-- The names that are there. -/
def names (name : I → Option N) (d : Dict K (Drawer L I)) : List N :=
  (pairs d).filterMap fun p => name p.2

/-- Change the first item with a property. -/
def changeFirst (p : I → Bool) (f : I → I) : List I → List I
  | [] => []
  | x :: xs => if p x then f x :: xs else x :: changeFirst p f xs

/-- A function on the items of a drawer. -/
def Drawer.onItems (g : List I → List I) (dr : Drawer L I) : Drawer L I := { dr with items := g dr.items }

section Operations

variable [DecidableEq K] [DecidableEq N] (name : I → Option N)

/-- The items of a drawer; a drawer that is not there has none. -/
def itemsAt (d : Dict K (Drawer L I)) (k : K) : List I := (d.get? k).elim [] Drawer.items

/-- The item has the name. -/
def isNamed (n : N) (x : I) : Bool := name x = some n

/-- The first item with the name, and its drawer. -/
def locate (d : Dict K (Drawer L I)) (n : N) : Option (K × I) := (pairs d).find? fun p => isNamed name n p.2

/-- Change the first item with the name. -/
def change (d : Dict K (Drawer L I)) (n : N) (f : I → I) : Dict K (Drawer L I) :=
  match locate name d n with
  | none => d
  | some (k, _) => d.modify k (Drawer.onItems (changeFirst (isNamed name n) f))

/-- Take out the first item with the name. -/
def take (d : Dict K (Drawer L I)) (n : N) : Dict K (Drawer L I) :=
  match locate name d n with
  | none => d
  | some (k, _) => d.modify k (Drawer.onItems (List.eraseP (isNamed name n)))

/-- Put an item at the end of a drawer, which is made if it is not there. -/
def put (d : Dict K (Drawer L I)) (k : K) (label : L) (x : I) : Dict K (Drawer L I) :=
  match d.get? k with
  | some dr => d.set k (dr.onItems (· ++ [x]))
  | none => d.set k ⟨label, [x]⟩

end Operations

/-! ### One name, one item -/

variable {name : I → Option N} {d : Dict K (Drawer L I)} {n : N}

theorem mem_pairs {k : K} {x : I} : (k, x) ∈ pairs d ↔ ∃ dr, (k, dr) ∈ d.entries ∧ x ∈ dr.items := by
  simp only [pairs, List.mem_flatMap, List.mem_map, Prod.mk.injEq]
  constructor
  · rintro ⟨⟨k', dr⟩, he, y, hy, rfl, rfl⟩
    exact ⟨dr, he, hy⟩
  · rintro ⟨dr, he, hx⟩
    exact ⟨(k, dr), he, x, hx, rfl, rfl⟩

/-- Two elements with one image, in a list with distinct images. -/
theorem eq_of_nodup_filterMap {A B : Type*} {g : A → Option B} {xs : List A} (h : (xs.filterMap g).Nodup) {a a' : A}
    (ha : a ∈ xs) (ha' : a' ∈ xs) {b : B} (hb : g a = some b) (hb' : g a' = some b) : a = a' := by
  induction xs with
  | nil => cases ha
  | cons x xs ih =>
      have hrest : (xs.filterMap g).Nodup := by
        refine h.sublist ?_
        exact (List.sublist_cons_self x xs).filterMap g
      have hnew : ∀ y ∈ xs, g x = some b → g y = some b → False := by
        intro y hy hx hgy
        rw [List.filterMap_cons_some hx] at h
        exact (List.nodup_cons.mp h).1 (List.mem_filterMap.mpr ⟨y, hy, hgy⟩)
      rcases List.mem_cons.mp ha with hx | hmem
      · rcases List.mem_cons.mp ha' with hx' | hmem'
        · rw [hx, hx']
        · exact absurd hb' (hnew a' hmem' (hx ▸ hb))
      · rcases List.mem_cons.mp ha' with hx' | hmem'
        · exact absurd hb (hnew a hmem (hx' ▸ hb'))
        · exact ih hrest hmem hmem'

theorem names_eq : names name d = d.entries.flatMap fun e => e.2.items.filterMap name := by
  rw [names, pairs, List.filterMap_flatMap]
  simp only [List.filterMap_map]
  rfl

/-- The names within a drawer are distinct. -/
theorem nodup_drawer (h : (names name d).Nodup) {e : K × Drawer L I} (he : e ∈ d.entries) :
    (e.2.items.filterMap name).Nodup := by
  rw [names_eq] at h
  exact (List.nodup_flatMap.mp h).1 e he

section Named

variable [DecidableEq N]

theorem isNamed_iff {x : I} : isNamed name n x = true ↔ name x = some n := decide_eq_true_iff

theorem changeFirst_eq_map {xs : List I} (h : (xs.filterMap name).Nodup) (f : I → I) :
    changeFirst (isNamed name n) f xs = xs.map fun x => if name x = some n then f x else x := by
  induction xs with
  | nil => rfl
  | cons x xs ih =>
      have hrest : (xs.filterMap name).Nodup := h.sublist ((List.sublist_cons_self x xs).filterMap name)
      by_cases hx : name x = some n
      · -- the others have other names
        have hother : ∀ y ∈ xs, (if name y = some n then f y else y) = y := by
          intro y hy
          refine if_neg fun hyn => ?_
          rw [List.filterMap_cons_some hx] at h
          exact (List.nodup_cons.mp h).1 (List.mem_filterMap.mpr ⟨y, hy, hyn⟩)
        rw [changeFirst, if_pos (isNamed_iff.mpr hx), List.map_cons, if_pos hx, List.map_congr_left hother,
          List.map_id']
      · rw [changeFirst, if_neg (fun hp => hx (isNamed_iff.mp hp)), List.map_cons, if_neg hx, ih hrest]

theorem eraseP_eq_filter {xs : List I} (h : (xs.filterMap name).Nodup) :
    xs.eraseP (isNamed name n) = xs.filter fun x => !isNamed name n x := by
  induction xs with
  | nil => rfl
  | cons x xs ih =>
      have hrest : (xs.filterMap name).Nodup := h.sublist ((List.sublist_cons_self x xs).filterMap name)
      by_cases hx : isNamed name n x = true
      · have hother : ∀ y ∈ xs, (!isNamed name n y) = true := by
          intro y hy
          rw [Bool.not_eq_true', ← Bool.not_eq_true]
          intro hyn
          rw [List.filterMap_cons_some (isNamed_iff.mp hx)] at h
          exact (List.nodup_cons.mp h).1 (List.mem_filterMap.mpr ⟨y, hy, isNamed_iff.mp hyn⟩)
        rw [List.eraseP_cons_of_pos hx, List.filter_cons_of_neg (by rw [hx]; decide), List.filter_eq_self.mpr hother]
      · rw [List.eraseP_cons_of_neg hx, List.filter_cons_of_pos (by simpa using hx), ih hrest]

end Named

variable [DecidableEq K]

theorem mem_itemsAt {k : K} {x : I} : x ∈ itemsAt d k ↔ (k, x) ∈ pairs d := by
  rw [mem_pairs, itemsAt]
  constructor
  · intro h
    cases hk : d.get? k with
    | none => rw [hk] at h; cases h
    | some dr =>
        rw [hk] at h
        exact ⟨dr, Dict.mem_entries_iff.mpr hk, h⟩
  · rintro ⟨dr, he, hx⟩
    rw [Dict.mem_entries_iff.mp he]
    exact hx

theorem mem_names : n ∈ names name d ↔ ∃ k, ∃ x ∈ itemsAt d k, name x = some n := by
  simp only [names, List.mem_filterMap, mem_itemsAt]
  exact ⟨fun ⟨⟨k, x⟩, hp, hx⟩ => ⟨k, x, hp, hx⟩, fun ⟨k, x, hp, hx⟩ => ⟨(k, x), hp, hx⟩⟩

variable [DecidableEq N]

omit [DecidableEq K] in
theorem isNamed_of_locate {q : K × I} (h : locate name d n = some q) : name q.2 = some n := by
  have hq : isNamed name n q.2 = true := List.find?_some (p := fun p : K × I => isNamed name n p.2) h
  exact isNamed_iff.mp hq

/-- **What is found under a name.** -/
theorem locate_eq_some_iff (h : (names name d).Nodup) {k : K} {x : I} :
    locate name d n = some (k, x) ↔ x ∈ itemsAt d k ∧ name x = some n := by
  constructor
  · intro hl
    exact ⟨mem_itemsAt.mpr (List.mem_of_find?_eq_some hl), isNamed_of_locate hl⟩
  · rintro ⟨hx, hn⟩
    have hp := mem_itemsAt.mp hx
    cases hl : locate name d n with
    | none => exact absurd (isNamed_iff.mpr hn) (List.find?_eq_none.mp hl (k, x) hp)
    | some q =>
        rw [eq_of_nodup_filterMap h (List.mem_of_find?_eq_some hl) hp (isNamed_of_locate hl) hn]

theorem locate_eq_none_iff : locate name d n = none ↔ n ∉ names name d := by
  rw [locate, List.find?_eq_none, mem_names]
  constructor
  · rintro h ⟨k, x, hx, hn⟩
    exact h (k, x) (mem_itemsAt.mp hx) (isNamed_iff.mpr hn)
  · intro h p hp hn
    exact h ⟨p.1, p.2, mem_itemsAt.mpr hp, isNamed_iff.mp hn⟩

/-! ### The operations on distinct names -/

/-- An operation on the drawer of the first item that leaves items with other names alone is one on all drawers. -/
theorem modify_eq_mapValues (h : (names name d).Nodup) {g g' : List I → List I}
    (hg : ∀ xs : List I, (xs.filterMap name).Nodup → g xs = g' xs)
    (hfix : ∀ xs : List I, (∀ x ∈ xs, name x ≠ some n) → g' xs = xs) :
    (match locate name d n with
      | none => d
      | some (k, _) => d.modify k (Drawer.onItems g)) = d.mapValues (Drawer.onItems g') := by
  have hother : ∀ e ∈ d.entries, (∀ x ∈ e.2.items, name x ≠ some n) → e.2.onItems g' = e.2 := by
    intro e _ hx
    rw [Drawer.onItems, hfix _ hx]
  cases hl : locate name d n with
  | none =>
      refine (Dict.mapValues_eq_self fun e he => hother e he fun x hx hn => ?_).symm
      exact absurd (isNamed_iff.mpr hn) (List.find?_eq_none.mp hl (e.1, x) (mem_pairs.mpr ⟨e.2, he, hx⟩))
  | some q =>
      obtain ⟨k, x⟩ := q
      have hx := (locate_eq_some_iff h).mp hl
      have hentries : (d.modify k (Drawer.onItems g)).entries = (d.mapValues (Drawer.onItems g')).entries := by
        refine List.map_congr_left fun e he => ?_
        by_cases hk : e.1 = k
        · rw [if_pos hk, Drawer.onItems, Drawer.onItems, hg _ (nodup_drawer h he)]
        · rw [if_neg hk, hother e he]
          intro y hy hn
          have hy' : y ∈ itemsAt d e.1 := mem_itemsAt.mpr (mem_pairs.mpr ⟨e.2, he, hy⟩)
          have hloc := (locate_eq_some_iff h).mpr ⟨hy', hn⟩
          rw [hl] at hloc
          exact hk (congrArg Prod.fst (Option.some.inj hloc)).symm
      show d.modify k (Drawer.onItems g) = d.mapValues (Drawer.onItems g')
      cases hm : d.modify k (Drawer.onItems g)
      cases hm' : d.mapValues (Drawer.onItems g')
      rw [hm, hm'] at hentries
      cases hentries
      rfl

theorem change_eq (h : (names name d).Nodup) (f : I → I) :
    change name d n f = d.mapValues (Drawer.onItems (List.map fun x => if name x = some n then f x else x)) := by
  refine modify_eq_mapValues h (fun xs hxs => changeFirst_eq_map hxs f) fun xs hxs => ?_
  conv_rhs => rw [← List.map_id xs]
  exact List.map_congr_left fun x hx => if_neg (hxs x hx)

theorem take_eq (h : (names name d).Nodup) :
    take name d n = d.mapValues (Drawer.onItems (List.filter fun x => !isNamed name n x)) := by
  refine modify_eq_mapValues h (fun xs hxs => eraseP_eq_filter hxs) fun xs hxs => ?_
  refine List.filter_eq_self.mpr fun x hx => ?_
  rw [Bool.not_eq_true', ← Bool.not_eq_true]
  exact fun hn => hxs x hx (isNamed_iff.mp hn)

/-! ### The items of a drawer -/

omit [DecidableEq N] in
theorem itemsAt_mapValues (g : List I → List I) (hg : g [] = []) (k : K) :
    itemsAt (d.mapValues (Drawer.onItems g)) k = g (itemsAt d k) := by
  rw [itemsAt, Dict.get?_mapValues, itemsAt]
  cases d.get? k with
  | none => exact hg.symm
  | some dr => rfl

theorem itemsAt_change (h : (names name d).Nodup) (f : I → I) (k : K) :
    itemsAt (change name d n f) k = (itemsAt d k).map fun x => if name x = some n then f x else x := by
  rw [change_eq h]
  exact itemsAt_mapValues _ rfl k

theorem itemsAt_take (h : (names name d).Nodup) (k : K) :
    itemsAt (take name d n) k = (itemsAt d k).filter fun x => !isNamed name n x := by
  rw [take_eq h]
  exact itemsAt_mapValues _ rfl k

omit [DecidableEq N] in
theorem itemsAt_put (d : Dict K (Drawer L I)) (k : K) (label : L) (x : I) (k' : K) :
    itemsAt (put d k label x) k' = if k' = k then itemsAt d k ++ [x] else itemsAt d k' := by
  unfold put itemsAt
  cases hk : d.get? k with
  | none =>
      dsimp only
      rw [Dict.get?_set]
      by_cases h : k' = k <;> simp [h]
  | some dr =>
      dsimp only
      rw [Dict.get?_set]
      by_cases h : k' = k <;> simp [h, Drawer.onItems]

/-! ### The names after an operation -/

omit [DecidableEq K] [DecidableEq N] in
theorem names_mapValues (g : List I → List I) :
    names name (d.mapValues (Drawer.onItems g)) = d.entries.flatMap fun e => (g e.2.items).filterMap name := by
  rw [names_eq, Dict.mapValues, List.flatMap_map]
  rfl

theorem names_change (h : (names name d).Nodup) {f : I → I} (hf : ∀ x, name x = some n → name (f x) = some n) :
    names name (change name d n f) = names name d := by
  rw [change_eq h, names_mapValues, names_eq]
  refine List.flatMap_congr fun e _ => ?_
  rw [List.filterMap_map]
  refine List.filterMap_congr fun x _ => ?_
  show name (if name x = some n then f x else x) = name x
  by_cases hx : name x = some n
  · rw [if_pos hx, hf x hx, hx]
  · rw [if_neg hx]

theorem nodup_change (h : (names name d).Nodup) {f : I → I} (hf : ∀ x, name x = some n → name (f x) = some n) :
    (names name (change name d n f)).Nodup := by
  rw [names_change h hf]
  exact h

theorem nodup_take (h : (names name d).Nodup) : (names name (take name d n)).Nodup := by
  rw [take_eq h, names_mapValues]
  rw [names_eq] at h
  refine h.sublist ?_
  exact List.Sublist.flatMap_right _ fun e _ => List.filter_sublist.filterMap name

theorem not_mem_names_take (h : (names name d).Nodup) : n ∉ names name (take name d n) := by
  rw [mem_names]
  rintro ⟨k, x, hx, hn⟩
  rw [itemsAt_take h, List.mem_filter, isNamed_iff.mpr hn] at hx
  exact absurd hx.2 (by decide)

omit [DecidableEq N] in
theorem perm_names_put (d : Dict K (Drawer L I)) (k : K) (label : L) (x : I) :
    (names name (put d k label x)).Perm (names name d ++ (name x).toList) := by
  rw [names_eq, names_eq]
  have hone : [x].filterMap name = (name x).toList := by
    cases hx : name x with
    | none => exact List.filterMap_cons_none hx
    | some m => exact List.filterMap_cons_some hx
  unfold put
  cases hk : d.get? k with
  | none =>
      refine Dict.perm_flatMap_set d (fun dr => dr.items.filterMap name) k _ _ ?_
      rw [hk, ← hone]
      exact List.Perm.refl _
  | some dr =>
      refine Dict.perm_flatMap_set d (fun dr => dr.items.filterMap name) k _ _ ?_
      rw [hk, ← hone]
      exact List.Perm.of_eq (List.filterMap_append ..)

omit [DecidableEq N] in
/-- An item with a new name may be put in. -/
theorem nodup_put (h : (names name d).Nodup) {k : K} {label : L} {x : I}
    (hx : ∀ m, name x = some m → m ∉ names name d) : (names name (put d k label x)).Nodup := by
  refine (perm_names_put d k label x).nodup_iff.mpr (List.nodup_append.mpr ⟨h, ?_, ?_⟩)
  · cases name x <;> simp
  · intro a ha b hb hab
    exact hx b (Option.mem_toList.mp hb) (hab ▸ ha)

/-! ### The names as a map -/

theorem locate_change (h : (names name d).Nodup) {f : I → I} (hf : ∀ x, name x = some n → name (f x) = some n) (m : N) :
    locate name (change name d n f) m =
      if m = n then (locate name d n).map fun q => (q.1, f q.2) else locate name d m := by
  have hnew := nodup_change h hf
  apply Option.ext
  rintro ⟨k, y⟩
  rw [locate_eq_some_iff hnew, itemsAt_change h]
  by_cases hm : m = n
  · subst hm
    rw [if_pos rfl, Option.map_eq_some_iff]
    constructor
    · rintro ⟨hy, hn⟩
      obtain ⟨x, hx, rfl⟩ := List.mem_map.mp hy
      by_cases hxn : name x = some m
      · rw [if_pos hxn]
        exact ⟨(k, x), (locate_eq_some_iff h).mpr ⟨hx, hxn⟩, rfl⟩
      · rw [if_neg hxn] at hn
        exact absurd hn hxn
    · rintro ⟨⟨k', x⟩, hl, hq⟩
      cases hq
      obtain ⟨hx, hxn⟩ := (locate_eq_some_iff h).mp hl
      exact ⟨List.mem_map.mpr ⟨x, hx, if_pos hxn⟩, hf x hxn⟩
  · rw [if_neg hm, locate_eq_some_iff h]
    constructor
    · rintro ⟨hy, hn⟩
      obtain ⟨x, hx, rfl⟩ := List.mem_map.mp hy
      by_cases hxn : name x = some n
      · rw [if_pos hxn, hf x hxn] at hn
        exact absurd (Option.some.inj hn).symm hm
      · rw [if_neg hxn] at hn ⊢
        exact ⟨hx, hn⟩
    · rintro ⟨hy, hn⟩
      refine ⟨List.mem_map.mpr ⟨y, hy, if_neg fun hyn => hm ?_⟩, hn⟩
      rw [hn] at hyn
      exact Option.some.inj hyn

theorem locate_take (h : (names name d).Nodup) (m : N) :
    locate name (take name d n) m = if m = n then none else locate name d m := by
  by_cases hm : m = n
  · rw [if_pos hm, hm, locate_eq_none_iff]
    exact not_mem_names_take h
  · rw [if_neg hm]
    apply Option.ext
    rintro ⟨k, y⟩
    rw [locate_eq_some_iff (nodup_take h), locate_eq_some_iff h, itemsAt_take h, List.mem_filter]
    constructor
    · rintro ⟨⟨hy, -⟩, hn⟩
      exact ⟨hy, hn⟩
    · rintro ⟨hy, hn⟩
      refine ⟨⟨hy, ?_⟩, hn⟩
      rw [Bool.not_eq_true', ← Bool.not_eq_true, isNamed_iff, hn]
      exact fun he => hm (Option.some.inj he)

theorem locate_put (h : (names name d).Nodup) {k : K} {label : L} {x : I} {n : N} (hx : name x = some n)
    (hnew : n ∉ names name d) (m : N) :
    locate name (put d k label x) m = if m = n then some (k, x) else locate name d m := by
  have hput : (names name (put d k label x)).Nodup := by
    refine nodup_put h fun m hm => ?_
    rw [hx] at hm
    cases hm
    exact hnew
  by_cases hm : m = n
  · rw [if_pos hm, locate_eq_some_iff hput, itemsAt_put, if_pos rfl, hm]
    exact ⟨List.mem_append_right _ (List.mem_singleton_self x), hx⟩
  · rw [if_neg hm]
    apply Option.ext
    rintro ⟨k', y⟩
    rw [locate_eq_some_iff hput, locate_eq_some_iff h, itemsAt_put]
    constructor
    · rintro ⟨hy, hn⟩
      refine ⟨?_, hn⟩
      by_cases hk : k' = k
      · rw [if_pos hk, List.mem_append, List.mem_singleton] at hy
        rcases hy with hy | rfl
        · exact hk ▸ hy
        · rw [hx] at hn
          exact absurd (Option.some.inj hn).symm hm
      · rwa [if_neg hk] at hy
    · rintro ⟨hy, hn⟩
      refine ⟨?_, hn⟩
      by_cases hk : k' = k
      · rw [if_pos hk, ← hk]
        exact List.mem_append_left _ hy
      · rwa [if_neg hk]

end Pinnokio.Filing
