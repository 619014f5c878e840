import Mathlib.Data.List.Induction
import Mathlib.Tactic.Common

/-!
# Sequences of operations

Operations executed one after another on a state.  A statement about every point of a sequence is one about its
prefixes; a condition on every step is `Guarded`, which looks at the state before the step.

* `guarded_iff_at_prefixes` — a condition on every step is one on the state before each operation;
* `guarded_concat` — the condition on a sequence that ends with one more operation;
* `run_invariant` — what holds at the start and is kept by every step that meets the condition holds at the end;
* `forall_prefix_concat` — a statement about the points of a sequence that ends with one more operation;
* `forall_prefix_iff_guarded` — a property that a step keeps exactly when it meets the condition holds at every
  point of a sequence exactly when every step meets the condition;
* `forall_prefix_iff_guarded_of_invariant` — the same for a property that follows from an invariant, which steps that
  meet the condition keep;
* `guarded_iff_of_related` — two systems that stay related by the steps that meet the condition meet it together;
* `forall_prefix_follows_iff_guarded` — a view of the states follows another system exactly when every step meets the
  condition.
-/

namespace Pinnokio.Runs

variable {S O : Type*}

/-- The state after a sequence of operations. -/
def run (step : S → O → S) (s : S) (ops : List O) : S := ops.foldl step s

/-- Every operation meets `guard` in the state it is executed in. -/
def Guarded (step : S → O → S) (guard : S → O → Prop) : S → List O → Prop
  | _, [] => True
  | s, op :: ops => guard s op ∧ Guarded step guard (step s op) ops

instance Guarded.decidable (step : S → O → S) (guard : S → O → Prop) [∀ s op, Decidable (guard s op)] :
    ∀ s ops, Decidable (Guarded step guard s ops)
  | _, [] => isTrue trivial
  | s, op :: ops =>
      have : Decidable (Guarded step guard (step s op) ops) := Guarded.decidable step guard _ ops
      inferInstanceAs (Decidable (_ ∧ _))

variable {step : S → O → S} {guard : S → O → Prop}

@[simp] theorem run_nil (s : S) : run step s [] = s := rfl

theorem run_append (s : S) (ops ops' : List O) : run step s (ops ++ ops') = run step (run step s ops) ops' :=
  List.foldl_append

theorem run_concat (s : S) (ops : List O) (op : O) :
    run step s (ops ++ [op]) = step (run step s ops) op := by
  simp [run]

theorem guarded_concat (s : S) (ops : List O) (op : O) :
    Guarded step guard s (ops ++ [op]) ↔ Guarded step guard s ops ∧ guard (run step s ops) op := by
  induction ops generalizing s with
  | nil => simp [Guarded]
  | cons o ops ih =>
      rw [List.cons_append, Guarded, Guarded, ih, and_assoc]
      rfl

/-- Every operation of a guarded sequence meets the condition where it is executed. -/
theorem Guarded.at_prefix {s : S} {ops pre : List O} {op : O} (hg : Guarded step guard s ops)
    (hp : pre ++ [op] <+: ops) : guard (run step s pre) op := by
  obtain ⟨rest, rfl⟩ := hp
  induction pre generalizing s with
  | nil => exact hg.1
  | cons o pre ih => exact ih hg.2

/-- Guarded means that every operation meets the condition where it is executed. -/
theorem guarded_iff_at_prefixes (s : S) (ops : List O) :
    Guarded step guard s ops ↔ ∀ pre op, pre ++ [op] <+: ops → guard (run step s pre) op := by
  constructor
  · exact fun hg pre op => hg.at_prefix
  · intro h
    induction ops generalizing s with
    | nil => exact trivial
    | cons o ops ih =>
        refine ⟨h [] o ⟨ops, rfl⟩, ih (step s o) fun pre op hp => ?_⟩
        exact h (o :: pre) op ((List.prefix_cons_inj o).mpr hp)

/-- Two conditions that agree under an invariant, which the operations that meet them keep. -/
theorem guarded_congr {guard' : S → O → Prop} (Inv : S → Prop) (hiff : ∀ s op, Inv s → (guard s op ↔ guard' s op))
    (hkeep : ∀ s op, Inv s → guard s op → Inv (step s op)) {s : S} (h0 : Inv s) (ops : List O) :
    Guarded step guard s ops ↔ Guarded step guard' s ops := by
  induction ops generalizing s with
  | nil => exact Iff.rfl
  | cons op ops ih =>
      rw [Guarded, Guarded, ← hiff s op h0]
      exact and_congr_right fun hop => ih (hkeep s op h0 hop)

/-- A condition on the operations alone. -/
theorem guarded_of_forall {P : O → Prop} {s : S} {ops : List O} (h : ∀ op ∈ ops, P op) :
    Guarded step (fun _ op => P op) s ops := by
  induction ops generalizing s with
  | nil => exact trivial
  | cons op ops ih =>
      exact ⟨h op (List.mem_cons_self ..), ih fun o ho => h o (List.mem_cons_of_mem _ ho)⟩

/-- **The invariant rule.** -/
theorem run_invariant (Inv : List O → S → Prop) {s : S} (h0 : Inv [] s) (ops : List O)
    (hstep : ∀ pre op, pre ++ [op] <+: ops → Inv pre (run step s pre) → guard (run step s pre) op →
      Inv (pre ++ [op]) (step (run step s pre) op))
    (hg : Guarded step guard s ops) : Inv ops (run step s ops) := by
  induction ops using List.reverseRecOn with
  | nil => exact h0
  | append_singleton ops op ih =>
      obtain ⟨hg, hop⟩ := (guarded_concat s ops op).mp hg
      rw [run_concat]
      refine hstep ops op (List.prefix_refl _) (ih ?_ hg) hop
      exact fun pre o hp => hstep pre o (hp.trans (List.prefix_append _ _))

/-- What every step keeps holds at the end. -/
theorem run_keeps {Inv : S → Prop} (hkeep : ∀ s op, Inv s → Inv (step s op)) {s : S} (h0 : Inv s) (ops : List O) :
    Inv (run step s ops) := by
  induction ops generalizing s with
  | nil => exact h0
  | cons op ops ih => exact ih (hkeep s op h0)

theorem forall_prefix_concat (P : List O → Prop) (ops : List O) (op : O) :
    (∀ pre, pre <+: ops ++ [op] → P pre) ↔ (∀ pre, pre <+: ops → P pre) ∧ P (ops ++ [op]) := by
  constructor
  · exact fun h => ⟨fun pre hp => h pre (hp.trans (List.prefix_append _ _)), h _ (List.prefix_refl _)⟩
  · intro h pre hp
    obtain ⟨hpre, hlast⟩ := h
    rcases List.prefix_concat_iff.mp hp with rfl | hp
    · exact hlast
    · exact hpre pre hp

/-- **The exact invariant rule.** -/
theorem forall_prefix_iff_guarded (good : S → Prop) (s : S) (ops : List O)
    (hstep : ∀ s, ∀ op ∈ ops, good s → (good (step s op) ↔ guard s op)) :
    (∀ pre, pre <+: ops → good (run step s pre)) ↔ good s ∧ Guarded step guard s ops := by
  induction ops using List.reverseRecOn with
  | nil => simp [Guarded]
  | append_singleton ops op ih =>
      have hpre := ih fun s o ho => hstep s o (List.mem_append_left _ ho)
      rw [forall_prefix_concat, hpre, guarded_concat, run_concat, and_assoc]
      refine and_congr_right fun hs => and_congr_right fun hg => hstep _ op (by simp) ?_
      exact (hpre.mpr ⟨hs, hg⟩) ops (List.prefix_refl ops)

/-- **The exact invariant rule, with an invariant stronger than the property.** -/
theorem forall_prefix_iff_guarded_of_invariant (Inv good : S → Prop) {s : S} (h0 : Inv s) (ops : List O)
    (hgood : ∀ s, Inv s → good s) (hkeep : ∀ s op, Inv s → guard s op → Inv (step s op))
    (hmiss : ∀ s op, Inv s → good (step s op) → guard s op) :
    (∀ pre, pre <+: ops → good (run step s pre)) ↔ Guarded step guard s ops := by
  induction ops using List.reverseRecOn with
  | nil => simp [Guarded, hgood s h0]
  | append_singleton ops op ih =>
      rw [forall_prefix_concat, ih, guarded_concat, run_concat]
      refine and_congr_right fun hg => ?_
      have hinv : Inv (run step s ops) :=
        run_invariant (fun _ => Inv) h0 ops (fun _ op _ h hop => hkeep _ op h hop) hg
      exact ⟨hmiss _ op hinv, fun hop => hgood _ (hkeep _ op hinv hop)⟩

/-- **Two systems in lockstep**: conditions that agree on related states, and keep them related, hold of the same
sequences. -/
theorem guarded_iff_of_related {S' : Type*} {step' : S' → O → S'} {guard' : S' → O → Prop} (R : S → S' → Prop)
    (hiff : ∀ s s' op, R s s' → (guard s op ↔ guard' s' op))
    (hstep : ∀ s s' op, R s s' → guard s op → R (step s op) (step' s' op)) {s : S} {s' : S'} (h0 : R s s')
    (ops : List O) : Guarded step guard s ops ↔ Guarded step' guard' s' ops := by
  induction ops generalizing s s' with
  | nil => exact Iff.rfl
  | cons op ops ih =>
      rw [Guarded, Guarded, ← hiff s s' op h0]
      exact and_congr_right fun hop => ih (hstep s s' op h0 hop)

/-- **The exact simulation rule**: a view of the states follows a second system through the whole run exactly when each
step meets the condition under which it does so once. -/
theorem forall_prefix_follows_iff_guarded {A : Type*} {view : S → A} {astep : A → O → A} {Inv : S → Prop}
    (hkeep : ∀ s op, Inv s → Inv (step s op))
    (hiff : ∀ s op, Inv s → (view (step s op) = astep (view s) op ↔ guard s op)) {s : S} (h0 : Inv s) (ops : List O) :
    (∀ pre, pre <+: ops → view (run step s pre) = run astep (view s) pre) ↔ Guarded step guard s ops := by
  induction ops using List.reverseRecOn with
  | nil =>
      refine ⟨fun _ => trivial, fun _ pre hp => ?_⟩
      rw [List.prefix_nil.mp hp]
      rfl
  | append_singleton ops op ih =>
      have hinv : Inv (run step s ops) := run_keeps hkeep h0 ops
      rw [forall_prefix_concat, ih, guarded_concat, run_concat, run_concat]
      refine and_congr_right fun hg => ?_
      rw [← ih.mpr hg ops (List.prefix_refl ops)]
      exact hiff _ op hinv

end Pinnokio.Runs
