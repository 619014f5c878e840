import Mathlib.Algebra.Group.Basic
import Mathlib.Tactic.Common

/-!
# Meters

Sources that use something up, each with a meter.  What a meter shows waits until it is posted; a posting reports an
amount for some sources, and leaves each meter showing something else.  The books balance while what has been posted
and what is waiting make up what was used, source by source.

* `balanced_consume` — what is used and shown keeps the balance;
* `balanced_post_iff` — a posting keeps it exactly when each meter goes down by what was reported for it.
-/

namespace Pinnokio.Meters

variable {I M : Type*} [AddCancelCommMonoid M]

/-- What has been posted, what the meters show, and what was used. -/
structure Books (I M : Type*) where
  posted : I → M
  waiting : I → M
  used : I → M

/-- What has been posted and what is waiting make up what was used. -/
def Balanced (b : Books I M) : Prop := ∀ i, b.posted i + b.waiting i = b.used i

/-- The sources use something, and the meters show it. -/
def Books.consume (b : Books I M) (x : I → M) : Books I M :=
  ⟨b.posted, fun i => b.waiting i + x i, fun i => b.used i + x i⟩

/-- A posting of the reported amounts, after which the meters show something else. -/
def Books.post (b : Books I M) (reported : I → M) (shown : I → M) : Books I M :=
  ⟨fun i => b.posted i + reported i, shown, b.used⟩

theorem balanced_consume {b : Books I M} (x : I → M) : Balanced (b.consume x) ↔ Balanced b := by
  refine forall_congr' fun i => ?_
  show b.posted i + (b.waiting i + x i) = b.used i + x i ↔ b.posted i + b.waiting i = b.used i
  rw [← add_assoc]
  exact add_left_inj (x i)

/-- **A posting keeps the balance exactly when each meter goes down by what was reported for it.** -/
theorem balanced_post_iff {b : Books I M} (h : Balanced b) (reported shown : I → M) :
    Balanced (b.post reported shown) ↔ ∀ i, reported i + shown i = b.waiting i := by
  refine forall_congr' fun i => ?_
  show b.posted i + reported i + shown i = b.used i ↔ reported i + shown i = b.waiting i
  rw [← h i, add_assoc]
  exact add_right_inj (b.posted i)

end Pinnokio.Meters
