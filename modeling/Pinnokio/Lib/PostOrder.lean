import Mathlib.Data.List.Nodup
import Mathlib.Logic.Relation
import Mathlib.Tactic.Common

/-!
# Depth-first search in post-order

A visit marks a node, visits the successors of the node one after another, and appends the node to the order; a node
that is marked is passed over.  Nodes are marked by keys.  The graph is finite and may have cycles.

* `visit_isSome` — a visit ends if the calls may nest deeper than there are unmarked nodes;
* `visit_extends` — the order only grows, and the nodes that are marked and not finished stay the same;
* `search_perm` — **every node is in the order once**;
* `search_ordered` — **if there is no cycle, every node is behind its successors**.
-/

namespace Pinnokio.PostOrder

/-- A graph whose nodes have keys of their own. -/
structure KeyedGraph (α κ : Type*) where
  nodes : List α
  key : α → κ
  next : α → List α
  closed : ∀ x ∈ nodes, ∀ y ∈ next x, y ∈ nodes
  distinct : (nodes.map key).Nodup

/-- The nodes that are finished, in their order, and the keys that are marked. -/
structure Search (α κ : Type*) where
  order : List α
  marked : List κ

namespace KeyedGraph

variable {α κ : Type*}

section States

variable (g : KeyedGraph α κ)

/-- An edge. -/
def Edge (x y : α) : Prop := y ∈ g.next x

/-- No node reaches itself. -/
def Acyclic : Prop := ∀ x, ¬Relation.TransGen g.Edge x x

/-- Every node is behind its successors. -/
def Ordered (xs : List α) : Prop := ∀ before x after, xs = before ++ x :: after → ∀ y ∈ g.next x, y ∈ before

/-- The finished nodes are marked nodes, each there once. -/
structure Good (s : Search α κ) : Prop where
  node : ∀ x ∈ s.order, x ∈ g.nodes
  marked : ∀ x ∈ s.order, g.key x ∈ s.marked
  nodup : s.order.Nodup

/-- The node is marked and not finished. -/
def Opened (s : Search α κ) (x : α) : Prop := x ∈ g.nodes ∧ g.key x ∈ s.marked ∧ x ∉ s.order

/-- The order grows, and the same nodes are open. -/
structure Extends (s t : Search α κ) : Prop where
  order : s.order <+: t.order
  opened : ∀ x, g.Opened t x ↔ g.Opened s x

variable {g} {s t u : Search α κ} {x y : α}

theorem eq_of_key (hx : x ∈ g.nodes) (hy : y ∈ g.nodes) (h : g.key x = g.key y) : x = y :=
  List.inj_on_of_nodup_map g.distinct hx hy h

theorem Extends.refl (s : Search α κ) : g.Extends s s := ⟨List.prefix_refl _, fun _ => Iff.rfl⟩

theorem Extends.trans (h : g.Extends s t) (h' : g.Extends t u) : g.Extends s u :=
  ⟨h.order.trans h'.order, fun x => (h'.opened x).trans (h.opened x)⟩

theorem good_nil : g.Good ⟨[], []⟩ where
  node := fun _ hx => absurd hx List.not_mem_nil
  marked := fun _ hx => absurd hx List.not_mem_nil
  nodup := List.nodup_nil

/-- A node has just been marked. -/
theorem good_mark (hs : g.Good s) (x : α) : g.Good ⟨s.order, g.key x :: s.marked⟩ where
  node := hs.node
  marked := fun y hy => List.mem_cons_of_mem _ (hs.marked y hy)
  nodup := hs.nodup

/-- The open nodes are then the node and those that were open before. -/
theorem opened_mark (hs : g.Good s) (hx : x ∈ g.nodes) (hmarked : g.key x ∉ s.marked) :
    g.Opened ⟨s.order, g.key x :: s.marked⟩ y ↔ y = x ∨ g.Opened s y := by
  constructor
  · intro h
    obtain ⟨hy, hkey, hnot⟩ := h
    rcases List.mem_cons.mp hkey with hkey | hkey
    · exact .inl (eq_of_key hy hx hkey)
    · exact .inr ⟨hy, hkey, hnot⟩
  · intro h
    rcases h with rfl | hopen
    · exact ⟨hx, List.mem_cons_self, fun hmem => hmarked (hs.marked _ hmem)⟩
    · exact ⟨hopen.1, List.mem_cons_of_mem _ hopen.2.1, hopen.2.2⟩

/-- A node that was marked is finished. -/
theorem good_finish (hu : g.Good u) (hx : g.Opened u x) : g.Good ⟨u.order ++ [x], u.marked⟩ where
  node := by
    intro y hy
    rcases List.mem_append.mp hy with hy | hy
    · exact hu.node y hy
    · rw [List.mem_singleton.mp hy]
      exact hx.1
  marked := by
    intro y hy
    rcases List.mem_append.mp hy with hy | hy
    · exact hu.marked y hy
    · rw [List.mem_singleton.mp hy]
      exact hx.2.1
  nodup := by
    rw [← List.concat_eq_append, List.nodup_concat]
    exact ⟨hx.2.2, hu.nodup⟩

/-- From the mark of a node to its end the other open nodes stay the same. -/
theorem extends_finish (hs : g.Good s) (hx : x ∈ g.nodes) (hmarked : g.key x ∉ s.marked)
    (h : g.Extends ⟨s.order, g.key x :: s.marked⟩ u) : g.Extends s ⟨u.order ++ [x], u.marked⟩ where
  order := h.order.trans (List.prefix_append _ _)
  opened := by
    intro y
    have hopen : g.Opened ⟨u.order ++ [x], u.marked⟩ y ↔ g.Opened u y ∧ y ≠ x := by
      simp [Opened, and_assoc]
    have hnot : g.Opened s y → y ≠ x := by
      intro hy heq
      exact hmarked (heq ▸ hy.2.1)
    rw [hopen, h.opened, opened_mark hs hx hmarked]
    constructor
    · intro hy
      exact hy.1.resolve_left hy.2
    · exact fun hy => ⟨.inr hy, hnot hy⟩

theorem ordered_nil : g.Ordered [] := by
  intro before x after h
  simp at h

theorem ordered_concat {xs : List α} (hxs : g.Ordered xs) (hx : ∀ y ∈ g.next x, y ∈ xs) : g.Ordered (xs ++ [x]) := by
  intro before z after h y hy
  rcases List.eq_nil_or_concat after with rfl | ⟨front, last, rfl⟩
  · obtain ⟨rfl, hz⟩ := List.append_inj' h rfl
    obtain rfl := List.singleton_inj.mp hz
    exact hx y hy
  · have hfront : xs ++ [x] = (before ++ z :: front) ++ [last] := by
      rw [h, List.concat_eq_append, List.append_assoc, List.cons_append]
    exact hxs before z front (List.append_inj_left' hfront rfl) y hy

end States

section Visits

variable [DecidableEq κ] (g : KeyedGraph α κ)

/-- The visit of a node; `none` if calls are nested more than `depth` deep. -/
def visit : ℕ → Search α κ → α → Option (Search α κ)
  | 0, _, _ => none
  | depth + 1, s, x =>
      if g.key x ∈ s.marked then some s
      else ((g.next x).foldlM (visit depth) ⟨s.order, g.key x :: s.marked⟩).map fun t => ⟨t.order ++ [x], t.marked⟩

/-- The visits of some nodes, one after another. -/
def visitAll (depth : ℕ) (s : Search α κ) (xs : List α) : Option (Search α κ) := xs.foldlM (g.visit depth) s

/-- The search from every node. -/
def search (depth : ℕ) : Option (Search α κ) := g.visitAll depth ⟨[], []⟩ g.nodes

variable {g} {depth : ℕ} {s t u : Search α κ} {x y : α} {xs : List α}

@[simp] theorem visitAll_nil : g.visitAll depth s [] = some s := rfl

@[simp] theorem visitAll_cons :
    g.visitAll depth s (x :: xs) = (g.visit depth s x).bind fun t => g.visitAll depth t xs := rfl

theorem visit_of_marked (h : g.key x ∈ s.marked) : g.visit (depth + 1) s x = some s := by
  rw [visit, if_pos h]

theorem visit_of_not_marked (h : g.key x ∉ s.marked) : g.visit (depth + 1) s x =
    (g.visitAll depth ⟨s.order, g.key x :: s.marked⟩ (g.next x)).map fun t => ⟨t.order ++ [x], t.marked⟩ := by
  rw [visit, if_neg h]
  rfl

/-- **What a visit does** that ends: nothing, or it visits the successors of the node before it appends the node. -/
theorem visit_cases (h : g.visit (depth + 1) s x = some t) :
    (g.key x ∈ s.marked ∧ t = s) ∨ g.key x ∉ s.marked ∧
      ∃ u, g.visitAll depth ⟨s.order, g.key x :: s.marked⟩ (g.next x) = some u ∧ t = ⟨u.order ++ [x], u.marked⟩ := by
  by_cases hx : g.key x ∈ s.marked
  · rw [visit_of_marked hx] at h
    exact .inl ⟨hx, (Option.some.inj h).symm⟩
  · rw [visit_of_not_marked hx, Option.map_eq_some_iff] at h
    obtain ⟨u, hu, rfl⟩ := h
    exact .inr ⟨hx, u, hu, rfl⟩

/-- **What every visit keeps is kept by a sequence of visits.** -/
theorem visitAll_invariant (P : Search α κ → Prop)
    (hvisit : ∀ x ∈ xs, ∀ s t, P s → g.visit depth s x = some t → P t) (hs : P s)
    (h : g.visitAll depth s xs = some t) : P t := by
  induction xs generalizing s with
  | nil =>
      cases h
      exact hs
  | cons x xs ih =>
      rw [visitAll_cons, Option.bind_eq_some_iff] at h
      obtain ⟨u, hu, ht⟩ := h
      refine ih (fun y hy => hvisit y (List.mem_cons_of_mem x hy)) ?_ ht
      exact hvisit x List.mem_cons_self s u hs hu

/-! ### The marks -/

theorem visitAll_marked_subset (hvisit : ∀ x s t, g.visit depth s x = some t → s.marked ⊆ t.marked)
    (h : g.visitAll depth s xs = some t) : s.marked ⊆ t.marked :=
  visitAll_invariant (fun t => s.marked ⊆ t.marked)
    (fun x _ u t hu hvisited => List.Subset.trans hu (hvisit x u t hvisited)) (List.Subset.refl _) h

theorem marked_subset (h : g.visit depth s x = some t) : s.marked ⊆ t.marked := by
  induction depth generalizing s x t with
  | zero => cases h
  | succ depth ih =>
      rcases visit_cases h with ⟨-, rfl⟩ | ⟨-, u, hu, rfl⟩
      · exact List.Subset.refl _
      · have hinner := visitAll_marked_subset (fun _ _ _ => ih) hu
        exact List.Subset.trans (List.subset_cons_self _ _) hinner

/-- A visit marks its node. -/
theorem key_mem_marked (h : g.visit depth s x = some t) : g.key x ∈ t.marked := by
  cases depth with
  | zero => cases h
  | succ depth =>
      rcases visit_cases h with ⟨hx, rfl⟩ | ⟨-, u, hu, rfl⟩
      · exact hx
      · exact visitAll_marked_subset (fun _ _ _ => marked_subset) hu List.mem_cons_self

theorem key_mem_marked_of_visitAll (h : g.visitAll depth s xs = some t) (hx : x ∈ xs) : g.key x ∈ t.marked := by
  induction xs generalizing s with
  | nil => cases hx
  | cons z xs ih =>
      rw [visitAll_cons, Option.bind_eq_some_iff] at h
      obtain ⟨u, hu, ht⟩ := h
      rcases List.mem_cons.mp hx with rfl | hx
      · exact visitAll_marked_subset (fun _ _ _ => marked_subset) ht (key_mem_marked hu)
      · exact ih ht hx

/-- The number of nodes that are not marked. -/
def unmarked (g : KeyedGraph α κ) (marked : List κ) : ℕ := ((g.nodes.map g.key).filter fun k => k ∉ marked).length

theorem unmarked_le {marked marked' : List κ} (h : marked ⊆ marked') : g.unmarked marked' ≤ g.unmarked marked := by
  refine List.Sublist.length_le (List.monotone_filter_right _ fun k hk => ?_)
  simp only [decide_not, Bool.not_eq_true', decide_eq_false_iff_not] at hk ⊢
  exact fun hmem => hk (h hmem)

theorem unmarked_cons_lt {marked : List κ} (hx : x ∈ g.nodes) (h : g.key x ∉ marked) :
    g.unmarked (g.key x :: marked) < g.unmarked marked := by
  have hfilter : ((g.nodes.map g.key).filter fun k => k ∉ g.key x :: marked) =
      ((g.nodes.map g.key).filter fun k => k ∉ marked).filter fun k => k ≠ g.key x := by
    rw [List.filter_filter]
    refine List.filter_congr fun k _ => ?_
    by_cases hk : k = g.key x <;> simp [hk]
  rw [unmarked, hfilter]
  refine List.length_filter_lt_length_iff_exists.mpr ⟨g.key x, ?_, by simp⟩
  exact List.mem_filter.mpr ⟨List.mem_map_of_mem hx, by simpa using h⟩

theorem unmarked_le_length (marked : List κ) : g.unmarked marked ≤ g.nodes.length := by
  have hle := List.length_filter_le (fun k => decide (k ∉ marked)) (g.nodes.map g.key)
  rwa [List.length_map] at hle

/-- Visits that end one by one end one after another. -/
theorem visitAll_isSome (hvisit : ∀ x ∈ xs, ∀ s : Search α κ, g.unmarked s.marked < depth →
    ∃ t, g.visit depth s x = some t) (h : g.unmarked s.marked < depth) : ∃ t, g.visitAll depth s xs = some t := by
  induction xs generalizing s with
  | nil => exact ⟨s, rfl⟩
  | cons x xs ih =>
      obtain ⟨u, hu⟩ := hvisit x List.mem_cons_self s h
      have hle : g.unmarked u.marked ≤ g.unmarked s.marked := unmarked_le (marked_subset hu)
      rw [visitAll_cons, hu, Option.bind_some]
      exact ih (fun y hy => hvisit y (List.mem_cons_of_mem x hy)) (by omega)

/-- **A visit ends** if the calls may nest deeper than there are unmarked nodes. -/
theorem visit_isSome (hx : x ∈ g.nodes) (h : g.unmarked s.marked < depth) : ∃ t, g.visit depth s x = some t := by
  induction depth generalizing s x with
  | zero => omega
  | succ depth ih =>
      by_cases hmarked : g.key x ∈ s.marked
      · exact ⟨s, visit_of_marked hmarked⟩
      · have hlt := unmarked_cons_lt hx hmarked
        obtain ⟨u, hu⟩ : ∃ u, g.visitAll depth ⟨s.order, g.key x :: s.marked⟩ (g.next x) = some u := by
          refine visitAll_isSome (fun y hy s hs => ih (g.closed x hx y hy) hs) ?_
          show g.unmarked (g.key x :: s.marked) < depth
          omega
        rw [visit_of_not_marked hmarked, hu]
        exact ⟨_, rfl⟩

theorem visitAll_mono_of (hvisit : ∀ x s t, g.visit depth s x = some t → g.visit (depth + 1) s x = some t)
    (h : g.visitAll depth s xs = some t) : g.visitAll (depth + 1) s xs = some t := by
  induction xs generalizing s with
  | nil => exact h
  | cons x xs ih =>
      rw [visitAll_cons, Option.bind_eq_some_iff] at h ⊢
      obtain ⟨u, hu, hrest⟩ := h
      exact ⟨u, hvisit x s u hu, ih hrest⟩

/-- **More depth changes nothing.** -/
theorem visit_mono (h : g.visit depth s x = some t) : g.visit (depth + 1) s x = some t := by
  induction depth generalizing s x t with
  | zero => cases h
  | succ depth ih =>
      rcases visit_cases h with ⟨hmarked, rfl⟩ | ⟨hmarked, u, hu, rfl⟩
      · exact visit_of_marked hmarked
      · rw [visit_of_not_marked hmarked, visitAll_mono_of (fun _ _ _ => ih) hu]
        rfl

theorem search_of_le {depth' : ℕ} (hle : depth ≤ depth') (h : g.search depth = some t) : g.search depth' = some t := by
  induction hle with
  | refl => exact h
  | step _ ih => exact visitAll_mono_of (fun _ _ _ => visit_mono) ih

theorem search_isSome (h : g.nodes.length < depth) : ∃ t, g.search depth = some t := by
  have hle := g.unmarked_le_length []
  exact visitAll_isSome (fun x hx _ hs => visit_isSome hx hs) (by dsimp only; omega)

/-! ### The order -/

theorem visitAll_extends_of
    (hvisit : ∀ x ∈ xs, ∀ s t, g.Good s → g.visit depth s x = some t → g.Good t ∧ g.Extends s t) (hs : g.Good s)
    (h : g.visitAll depth s xs = some t) : g.Good t ∧ g.Extends s t := by
  refine visitAll_invariant (fun t => g.Good t ∧ g.Extends s t) ?_ ⟨hs, Extends.refl s⟩ h
  intro x hx u t hu hvisited
  obtain ⟨hgood, hext⟩ := hvisit x hx u t hu.1 hvisited
  exact ⟨hgood, hu.2.trans hext⟩

/-- **What a visit keeps**: the order only grows, and the same nodes are open. -/
theorem visit_extends (hs : g.Good s) (hx : x ∈ g.nodes) (h : g.visit depth s x = some t) :
    g.Good t ∧ g.Extends s t := by
  induction depth generalizing s x t with
  | zero => cases h
  | succ depth ih =>
      rcases visit_cases h with ⟨-, rfl⟩ | ⟨hmarked, u, hu, rfl⟩
      · exact ⟨hs, Extends.refl _⟩
      · obtain ⟨hgood, hext⟩ := visitAll_extends_of (fun y hy _ _ hs => ih hs (g.closed x hx y hy)) (good_mark hs x) hu
        have hopen : g.Opened u x := (hext.opened x).mpr ((opened_mark hs hx hmarked).mpr (.inl rfl))
        exact ⟨good_finish hgood hopen, extends_finish hs hx hmarked hext⟩

theorem visitAll_extends (hs : g.Good s) (hxs : ∀ x ∈ xs, x ∈ g.nodes) (h : g.visitAll depth s xs = some t) :
    g.Good t ∧ g.Extends s t :=
  visitAll_extends_of (fun x hx _ _ hs => visit_extends hs (hxs x hx)) hs h

/-- **Every node is in the order once.** -/
theorem search_perm (h : g.search depth = some t) : t.order.Perm g.nodes := by
  obtain ⟨hgood, hext⟩ := visitAll_extends good_nil (fun _ hx => hx) h
  refine (List.perm_ext_iff_of_nodup hgood.nodup (List.Nodup.of_map _ g.distinct)).mpr fun x => ⟨hgood.node x, ?_⟩
  intro hx
  -- a node that was visited is marked, and none is open at the end
  by_contra hnot
  have hopen : g.Opened ⟨[], []⟩ x := (hext.opened x).mp ⟨hx, key_mem_marked_of_visitAll h hx, hnot⟩
  exact List.not_mem_nil hopen.2.1

/-- A sequence of visits keeps the order of the edges if each visit does that finds the nodes open that are open at
the start. -/
theorem ordered_visitAll_of (hvisit : ∀ x ∈ xs, ∀ u t, g.Good u → (∀ y, g.Opened u y → g.Opened s y) →
      g.Ordered u.order → g.visit depth u x = some t → g.Ordered t.order)
    (hxs : ∀ x ∈ xs, x ∈ g.nodes) (hs : g.Good s) (ho : g.Ordered s.order) (h : g.visitAll depth s xs = some t) :
    g.Ordered t.order := by
  refine (visitAll_invariant (fun t => (g.Good t ∧ g.Extends s t) ∧ g.Ordered t.order) ?_ ⟨⟨hs, Extends.refl s⟩, ho⟩
    h).2
  intro x hx u t hu hvisited
  obtain ⟨⟨hgood, hext⟩, ho⟩ := hu
  obtain ⟨hgood', hext'⟩ := visit_extends hgood (hxs x hx) hvisited
  exact ⟨⟨hgood', hext.trans hext'⟩, hvisit x hx u t hgood (fun y => (hext.opened y).mp) ho hvisited⟩

/-- Visits keep the order of the edges as long as every open node reaches the node that is visited. -/
theorem ordered_visit (hacyclic : g.Acyclic) (hs : g.Good s) (hx : x ∈ g.nodes)
    (hopen : ∀ y, g.Opened s y → Relation.TransGen g.Edge y x) (ho : g.Ordered s.order)
    (h : g.visit depth s x = some t) : g.Ordered t.order := by
  induction depth generalizing s x t with
  | zero => cases h
  | succ depth ih =>
      rcases visit_cases h with ⟨-, rfl⟩ | ⟨hmarked, u, hu, rfl⟩
      · exact ho
      · have hreach : ∀ y, g.Opened ⟨s.order, g.key x :: s.marked⟩ y → Relation.ReflTransGen g.Edge y x := by
          intro y hy
          rcases (opened_mark hs hx hmarked).mp hy with rfl | hy
          · exact .refl
          · exact (hopen y hy).to_reflTransGen
        obtain ⟨hgood, hext⟩ := visitAll_extends (good_mark hs x) (g.closed x hx) hu
        have hinner : g.Ordered u.order :=
          ordered_visitAll_of (fun y hy _ _ hs hopened ho hvisit => ih hs (g.closed x hx y hy)
            (fun z hz => Relation.TransGen.tail' (hreach z (hopened z hz)) hy) ho hvisit)
            (g.closed x hx) (good_mark hs x) ho hu
        refine ordered_concat hinner fun y hy => ?_
        -- a successor that is still open would close a cycle
        by_contra hnot
        have hyopen : g.Opened u y := ⟨g.closed x hx y hy, key_mem_marked_of_visitAll hu hy, hnot⟩
        exact hacyclic x (Relation.TransGen.head' hy (hreach y ((hext.opened y).mp hyopen)))

/-- **If there is no cycle, every node is behind its successors.** -/
theorem search_ordered (hacyclic : g.Acyclic) (h : g.search depth = some t) : g.Ordered t.order := by
  have hnone : ∀ y, ¬g.Opened ⟨[], []⟩ y := fun y hy => List.not_mem_nil hy.2.1
  refine ordered_visitAll_of (fun x hx u t hu hopen ho hvisit => ?_) (fun _ hx => hx) good_nil ordered_nil h
  exact ordered_visit hacyclic hu hx (fun y hy => absurd (hopen y hy) (hnone y)) ho hvisit

end Visits

end KeyedGraph

end Pinnokio.PostOrder
