import Mathlib.Data.Set.Insert
import Mathlib.Logic.Function.Basic
import Pinnokio.Lib.Runs

/-!
# Rosters

Houses with rooms, people who are members of rooms, and a grant for each person that goes with the membership: the
first room somebody joins gives them a grant, and leaving the last room takes it away.  Clearing a room sends its
members away but lets them keep what they were granted until they next leave.

A system that forgets to drop some memberships has a larger roster than it should.  `Covers` compares the two:

* `Covers.step` — a larger roster stays larger under every request;
* `covers_run` — a system whose every step has at least the members a request leaves, and exactly the grants it leaves,
  grants something to everyone to whom the rosters themselves would grant something;
* `entitled_served` — by the rosters themselves, members of a room are granted something throughout.
-/

namespace Pinnokio

/-- Who is a member of which room, and what each person is granted. -/
@[ext] structure Roster (R U G : Type*) where
  members : Set (R × U)
  granted : U → Option G

namespace Roster

variable {R U G : Type*}

/-- What can be asked for: to join a room (with what to grant), to leave a room or just to be checked out, and to
clear a room. -/
inductive Request (R U G : Type*)
  | join (r : R) (u : U) (g : G)
  | leave (r : Option R) (u : U)
  | clear (r : R)

section Requests

variable [DecidableEq U]

/-- A new member: who has a grant already keeps it. -/
def join (x : Roster R U G) (r : R) (u : U) (g : G) : Roster R U G :=
  ⟨insert (r, u) x.members, Function.update x.granted u (some ((x.granted u).getD g))⟩

/-- The memberships after somebody has left a room. -/
def without (x : Roster R U G) (r : Option R) (u : U) : Set (R × U) := {p ∈ x.members | ¬(r = some p.1 ∧ p.2 = u)}

open Classical in
/-- The grants after somebody has left a room: theirs is gone with their last membership. -/
noncomputable def grantedWithout (x : Roster R U G) (r : Option R) (u : U) : U → Option G :=
  if ∃ r', (r', u) ∈ x.without r u then x.granted else Function.update x.granted u none

/-- A member leaves. -/
noncomputable def leave (x : Roster R U G) (r : Option R) (u : U) : Roster R U G :=
  ⟨x.without r u, x.grantedWithout r u⟩

/-- The memberships after a room has been cleared. -/
def cleared (x : Roster R U G) (r : R) : Set (R × U) := {p ∈ x.members | p.1 ≠ r}

/-- A room is cleared. -/
def clear (x : Roster R U G) (r : R) : Roster R U G := ⟨x.cleared r, x.granted⟩

/-- The roster after a request. -/
noncomputable def step (x : Roster R U G) : Request R U G → Roster R U G
  | .join r u g => x.join r u g
  | .leave r u => x.leave r u
  | .clear r => x.clear r

end Requests

/-! ### Larger rosters -/

/-- At least the members, and a grant for at least the same people. -/
structure Covers (x y : Roster R U G) : Prop where
  members : y.members ⊆ x.members
  granted : ∀ u, (y.granted u).isSome = true → (x.granted u).isSome = true

theorem Covers.refl (x : Roster R U G) : Covers x x := ⟨Set.Subset.refl _, fun _ h => h⟩

theorem Covers.trans {x y z : Roster R U G} (h : Covers x y) (h' : Covers y z) : Covers x z :=
  ⟨h'.members.trans h.members, fun u hu => h.granted u (h'.granted u hu)⟩

/-- More members and the same grants. -/
theorem Covers.of_members {x y : Roster R U G} (hm : y.members ⊆ x.members) (hg : x.granted = y.granted) : Covers x y :=
  ⟨hm, fun u hu => by rw [hg]; exact hu⟩

theorem without_mono {x y : Roster R U G} (h : y.members ⊆ x.members) (r : Option R) (u : U) :
    y.without r u ⊆ x.without r u := fun _ hp => ⟨h hp.1, hp.2⟩

variable [DecidableEq U]

/-- A larger roster stays larger: somebody who keeps a room in the smaller one keeps it in the larger one. -/
theorem Covers.step {x y : Roster R U G} (h : Covers x y) (q : Request R U G) : Covers (x.step q) (y.step q) := by
  cases q with
  | join r u g =>
      refine ⟨Set.insert_subset_insert h.members, fun w hw => ?_⟩
      show (Function.update x.granted u _ w).isSome = true
      by_cases hwu : w = u
      · subst hwu
        rw [Function.update_self]
        rfl
      · rw [Function.update_of_ne hwu]
        apply h.granted
        have hw : (Function.update y.granted u _ w).isSome = true := hw
        rwa [Function.update_of_ne hwu] at hw
  | leave r u =>
      refine ⟨without_mono h.members r u, fun w hw => ?_⟩
      have hw : (y.grantedWithout r u w).isSome = true := hw
      show (x.grantedWithout r u w).isSome = true
      rw [grantedWithout] at hw ⊢
      by_cases hy : ∃ r', (r', u) ∈ y.without r u
      · rw [if_pos hy] at hw
        obtain ⟨r', hr'⟩ := hy
        rw [if_pos ⟨r', without_mono h.members r u hr'⟩]
        exact h.granted w hw
      · rw [if_neg hy] at hw
        by_cases hwu : w = u
        · subst hwu
          rw [Function.update_self] at hw
          cases hw
        · rw [Function.update_of_ne hwu] at hw
          split_ifs
          · exact h.granted w hw
          · rw [Function.update_of_ne hwu]
            exact h.granted w hw
  | clear r => exact ⟨fun p hp => ⟨h.members hp.1, hp.2⟩, h.granted⟩

/-! ### Members are granted something -/

/-- Every member has a grant. -/
def Entitled (x : Roster R U G) : Prop := ∀ r u, (r, u) ∈ x.members → (x.granted u).isSome = true

theorem Entitled.step {x : Roster R U G} (h : Entitled x) (q : Request R U G) : Entitled (x.step q) := by
  cases q with
  | join r u g =>
      intro r' w hw
      show (Function.update x.granted u _ w).isSome = true
      by_cases hwu : w = u
      · subst hwu
        rw [Function.update_self]
        rfl
      · rw [Function.update_of_ne hwu]
        refine h r' w (hw.resolve_left fun he => hwu ?_)
        exact congrArg Prod.snd he
  | leave r u =>
      intro r' w hw
      have hw : (r', w) ∈ x.without r u := hw
      show (x.grantedWithout r u w).isSome = true
      rw [grantedWithout]
      split_ifs with hu
      · exact h r' w hw.1
      · have hwu : w ≠ u := fun he => hu ⟨r', he ▸ hw⟩
        rw [Function.update_of_ne hwu]
        exact h r' w hw.1
  | clear r => exact fun r' w hw => h r' w hw.1

/-! ### Houses, and systems that keep their rosters -/

section Houses

variable {M S O : Type*} [DecidableEq M]

/-- The rosters of all houses after a request to one of them. -/
noncomputable def serve (f : M → Roster R U G) (q : M × Request R U G) : M → Roster R U G :=
  Function.update f q.1 ((f q.1).step q.2)

variable {step : S → O → S} {view : S → M → Roster R U G} {request : O → M × Request R U G} {Inv : S → Prop}

/-- The rosters after a whole run of the requests of a system. -/
noncomputable def served (request : O → M × Request R U G) (f : M → Roster R U G) (ops : List O) : M → Roster R U G :=
  Runs.run (fun f op => serve f (request op)) f ops

theorem served_concat (f : M → Roster R U G) (ops : List O) (op : O) :
    served request f (ops ++ [op]) = serve (served request f ops) (request op) :=
  Runs.run_concat f ops op

theorem covers_serve {f g : M → Roster R U G} (h : ∀ m, Covers (f m) (g m)) (q : M × Request R U G) (m : M) :
    Covers (serve f q m) (serve g q m) := by
  rw [serve, serve]
  by_cases hm : m = q.1
  · rw [hm, Function.update_self, Function.update_self]
    exact (h q.1).step q.2
  · rw [Function.update_of_ne hm, Function.update_of_ne hm]
    exact h m

/-- **A system that only ever keeps too many memberships locks nobody out.** -/
theorem covers_run (hkeep : ∀ s op, Inv s → Inv (step s op))
    (hstep : ∀ s op, Inv s → ∀ m, Covers (view (step s op) m) (serve (view s) (request op) m)) {s : S} (h0 : Inv s)
    (ops : List O) (m : M) : Covers (view (Runs.run step s ops) m) (served request (view s) ops m) := by
  induction ops using List.reverseRecOn generalizing m with
  | nil => exact Covers.refl _
  | append_singleton ops op ih =>
      rw [Runs.run_concat, served_concat]
      have hinv : Inv (Runs.run step s ops) := Runs.run_keeps hkeep h0 ops
      exact (hstep _ op hinv m).trans (covers_serve ih (request op) m)

/-- By the rosters themselves, members are granted something throughout. -/
theorem entitled_served {f : M → Roster R U G} (h : ∀ m, Entitled (f m)) (ops : List O) (m : M) :
    Entitled (served request f ops m) := by
  induction ops using List.reverseRecOn generalizing m with
  | nil => exact h m
  | append_singleton ops op ih =>
      rw [served_concat, serve]
      by_cases hm : m = (request op).1
      · rw [hm, Function.update_self]
        exact (ih _).step _
      · rw [Function.update_of_ne hm]
        exact ih m

end Houses

end Roster

end Pinnokio
