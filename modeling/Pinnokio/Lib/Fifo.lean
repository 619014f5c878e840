import Mathlib.Data.List.Nodup
import Mathlib.Data.List.Basic
import Mathlib.Tactic.Common

/-!
# A first-in first-out queue with one server

At most one element is being served; the others wait in the order of their arrival.  Nobody waits at an idle
server: that is a field of the structure, so no operation can leave the server idle with a waiting element.

* `enqueue` — arrive: be served at once, or wait behind the others;
* `settle` — the served element changes, or leaves and the first waiting one takes its place;
* `mapRunning`, `editWaiting` — elements change in place, or give up while they wait;
* `keys_enqueue`, `keys_settle`, `keys_mapRunning`, `keys_editWaiting` — the elements present stay in the order
  of arrival.
-/

namespace Pinnokio

/-- The element being served and the ones that wait, first come first. -/
@[ext]
structure Fifo (α : Type*) where
  running : Option α
  waiting : List α
  idle : running = none → waiting = []

namespace Fifo

variable {α β : Type*}

/-- Nothing served, nothing waiting. -/
def empty : Fifo α := ⟨none, [], fun _ => rfl⟩

/-- Everything present, in the order of arrival. -/
def contents (q : Fifo α) : List α := q.running.toList ++ q.waiting

/-- The place a new arrival gets: `0` is the server. -/
def position (q : Fifo α) : ℕ :=
  match q.running with
  | none => 0
  | some _ => 1 + q.waiting.length

/-- A new arrival. -/
def enqueue (q : Fifo α) (a : α) : Fifo α :=
  match q.running with
  | none => ⟨some a, [], fun h => by cases h⟩
  | some r => ⟨some r, q.waiting ++ [a], fun h => by cases h⟩

/-- The server is free: the first waiting element is served. -/
def finish (q : Fifo α) : Fifo α :=
  ⟨q.waiting.head?, q.waiting.tail, fun h => by rw [List.head?_eq_none_iff.mp h]; rfl⟩

/-- The served element becomes `a`, or leaves. -/
def settle (q : Fifo α) : Option α → Fifo α
  | none => q.finish
  | some a => ⟨some a, q.waiting, fun h => by cases h⟩

/-- The served element changes. -/
def mapRunning (q : Fifo α) (f : α → α) : Fifo α :=
  ⟨q.running.map f, q.waiting, fun h => q.idle (by simpa using h)⟩

/-- Each waiting element changes, or gives up. -/
def editWaiting (q : Fifo α) (f : α → Option α) : Fifo α :=
  ⟨q.running, q.waiting.filterMap f, fun h => by rw [q.idle h]; rfl⟩

@[simp] theorem contents_empty : (empty : Fifo α).contents = [] := rfl

theorem contents_enqueue (q : Fifo α) (a : α) : (q.enqueue a).contents = q.contents ++ [a] := by
  unfold enqueue contents
  cases hr : q.running with
  | none => simp [q.idle hr]
  | some r => simp

theorem contents_finish (q : Fifo α) : q.finish.contents = q.waiting := by
  show q.waiting.head?.toList ++ q.waiting.tail = q.waiting
  cases q.waiting <;> rfl

theorem mem_waiting_settle {q : Fifo α} {o : Option α} {a : α} (h : a ∈ (q.settle o).waiting) :
    a ∈ q.waiting := by
  cases o with
  | none => exact List.mem_of_mem_tail h
  | some b => exact h

/-- A changed element keeps its place under any key that does not change. -/
theorem filterMap_keys_sublist (key : α → β) (f : α → Option α) (hf : ∀ a b, f a = some b → key b = key a)
    (xs : List α) : ((xs.filterMap f).map key).Sublist (xs.map key) := by
  induction xs with
  | nil => exact List.Sublist.slnil
  | cons x xs ih =>
      cases hx : f x with
      | none =>
          rw [List.filterMap_cons_none hx, List.map_cons]
          exact ih.cons _
      | some y =>
          rw [List.filterMap_cons_some hx, List.map_cons, List.map_cons, hf x y hx]
          exact ih.cons_cons _

/-! ### The order of arrival -/

variable (key : α → β)

theorem keys_enqueue (q : Fifo α) (a : α) :
    (q.enqueue a).contents.map key = q.contents.map key ++ [key a] := by
  rw [contents_enqueue, List.map_append, List.map_singleton]

theorem keys_settle (q : Fifo α) (o : Option α)
    (ho : ∀ a, o = some a → ∃ r, q.running = some r ∧ key a = key r) :
    ((q.settle o).contents.map key).Sublist (q.contents.map key) := by
  cases o with
  | none =>
      show (q.finish.contents.map key).Sublist _
      rw [contents_finish, contents, List.map_append]
      exact List.sublist_append_right _ _
  | some a =>
      obtain ⟨r, hr, hk⟩ := ho a rfl
      simp [settle, contents, hr, hk]

theorem keys_mapRunning (q : Fifo α) (f : α → α) (hf : ∀ a, key (f a) = key a) :
    (q.mapRunning f).contents.map key = q.contents.map key := by
  cases hr : q.running with
  | none => simp [contents, mapRunning, hr]
  | some r => simp [contents, mapRunning, hr, hf]

theorem keys_editWaiting (q : Fifo α) (f : α → Option α) (hf : ∀ a b, f a = some b → key b = key a) :
    ((q.editWaiting f).contents.map key).Sublist (q.contents.map key) := by
  simp only [contents, editWaiting, List.map_append]
  exact (filterMap_keys_sublist key f hf q.waiting).append_left _

/-- The first of a list that is in a given sublist of it is the sublist's head. -/
theorem find?_mem_sublist [DecidableEq β] {xs ys : List β} (h : xs.Sublist ys) (hn : ys.Nodup) :
    ys.find? (fun y => decide (y ∈ xs)) = xs.head? := by
  induction h with
  | slnil => rfl
  | @cons xs ys y hs ih =>
      rw [List.nodup_cons] at hn
      have hy : y ∉ xs := fun hm => hn.1 (hs.subset hm)
      rw [List.find?_cons_of_neg (by simpa using hy)]
      exact ih hn.2
  | @cons_cons xs ys y hs ih =>
      rw [List.find?_cons_of_pos (by simp)]
      rfl

end Fifo

end Pinnokio
