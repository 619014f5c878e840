import Mathlib.Data.List.Induction
import Mathlib.Order.Basic
import Mathlib.Tactic.Common

/-!
# Greedy assignment

Pairs of an agent and an item are looked at one after another.  A pair is accepted if its item is still free and its
agent has room; it is never given back.

* `nodup_items` — no item is accepted twice;
* `length_share_le` — no agent gets more than its capacity;
* `stable` — **if the pairs come in descending order of a score, no pair blocks the result**: a pair that was not
  accepted found its item in a pair at least as good, or its agent full of pairs at least as good.
-/

namespace Pinnokio.Greedy

variable {P A K S : Type*} [DecidableEq A] [DecidableEq K] (agent : P → A) (item : P → K) (cap : ℕ)

/-- The pairs of an agent. -/
def share (a : A) (ps : List P) : List P := ps.filter fun p => agent p = a

/-- A pair is looked at: `taken` are the pairs accepted so far. -/
def consider (taken : List P) (p : P) : List P :=
  if item p ∈ taken.map item then taken
  else if cap ≤ (share agent (agent p) taken).length then taken
  else taken ++ [p]

/-- The accepted pairs. -/
def assign (ps : List P) : List P := ps.foldl (consider agent item cap) []

variable {agent item cap}

theorem mem_share {a : A} {ps : List P} {p : P} : p ∈ share agent a ps ↔ p ∈ ps ∧ agent p = a := by
  simp [share]

theorem share_concat (a : A) (ps : List P) (p : P) :
    share agent a (ps ++ [p]) = if agent p = a then share agent a ps ++ [p] else share agent a ps := by
  simp only [share, List.filter_append, List.filter_cons, List.filter_nil, decide_eq_true_eq]
  split
  · rfl
  · exact List.append_nil _

theorem assign_concat (ps : List P) (p : P) :
    assign agent item cap (ps ++ [p]) = consider agent item cap (assign agent item cap ps) p := by
  simp [assign]

/-- What looking at a pair can do. -/
theorem consider_cases (agent : P → A) (item : P → K) (cap : ℕ) (taken : List P) (p : P) :
    consider agent item cap taken p = taken ∧
        ((∃ q ∈ taken, item q = item p) ∨ cap ≤ (share agent (agent p) taken).length) ∨
      consider agent item cap taken p = taken ++ [p] ∧
        (∀ q ∈ taken, item q ≠ item p) ∧ (share agent (agent p) taken).length < cap := by
  unfold consider
  split
  · next hmem =>
    obtain ⟨q, hq, hitem⟩ := List.mem_map.mp hmem
    exact Or.inl ⟨rfl, Or.inl ⟨q, hq, hitem⟩⟩
  · next hfree =>
    split
    · next hfull => exact Or.inl ⟨rfl, Or.inr hfull⟩
    · next hroom =>
      exact Or.inr ⟨rfl, fun q hq hitem => hfree (List.mem_map.mpr ⟨q, hq, hitem⟩), Nat.lt_of_not_le hroom⟩

theorem assign_sublist (ps : List P) : (assign agent item cap ps).Sublist ps := by
  induction ps using List.reverseRecOn with
  | nil => exact List.Sublist.refl _
  | append_singleton ps p ih =>
      rw [assign_concat]
      rcases consider_cases agent item cap (assign agent item cap ps) p with
        ⟨heq, _⟩ | ⟨heq, _⟩
      · rw [heq]
        exact ih.trans (List.sublist_append_left ps [p])
      · rw [heq]
        exact ih.append (List.Sublist.refl _)

/-- No item is accepted twice. -/
theorem nodup_items (ps : List P) : ((assign agent item cap ps).map item).Nodup := by
  induction ps using List.reverseRecOn with
  | nil => exact List.nodup_nil
  | append_singleton ps p ih =>
      rw [assign_concat]
      rcases consider_cases agent item cap (assign agent item cap ps) p with
        ⟨heq, _⟩ | ⟨heq, hfree, _⟩
      · rw [heq]
        exact ih
      · rw [heq, List.map_append, List.nodup_append]
        refine ⟨ih, List.pairwise_singleton _ _, ?_⟩
        intro k hk k' hk'
        obtain ⟨q, hq, rfl⟩ := List.mem_map.mp hk
        rw [List.mem_singleton.mp hk']
        exact hfree q hq

/-- No agent gets more than its capacity. -/
theorem length_share_le (a : A) (ps : List P) : (share agent a (assign agent item cap ps)).length ≤ cap := by
  induction ps using List.reverseRecOn with
  | nil => exact Nat.zero_le _
  | append_singleton ps p ih =>
      rw [assign_concat]
      rcases consider_cases agent item cap (assign agent item cap ps) p with
        ⟨heq, _⟩ | ⟨heq, _, hroom⟩
      · rw [heq]
        exact ih
      · rw [heq, share_concat]
        split
        · next hagent =>
          subst hagent
          rw [List.length_append, List.length_singleton]
          omega
        · exact ih

/-- **No pair blocks the result.** -/
theorem stable [Preorder S] (agent : P → A) (item : P → K) (cap : ℕ) (score : P → S) {ps : List P}
    (hsorted : ps.Pairwise fun p q => score q ≤ score p) {p : P} (hp : p ∈ ps) :
    p ∈ assign agent item cap ps ∨
      (∃ q ∈ assign agent item cap ps, item q = item p ∧ score p ≤ score q) ∨
      (share agent (agent p) (assign agent item cap ps)).length = cap ∧
        ∀ q ∈ share agent (agent p) (assign agent item cap ps), score p ≤ score q := by
  induction ps using List.reverseRecOn with
  | nil => cases hp
  | append_singleton ps x ih =>
      obtain ⟨hsorted, -, hlast⟩ := List.pairwise_append.mp hsorted
      have hbest : ∀ q ∈ assign agent item cap ps, score x ≤ score q :=
        fun q hq => hlast q ((assign_sublist ps).subset hq) x (List.mem_singleton_self x)
      rw [assign_concat]
      have hcases := consider_cases agent item cap (assign agent item cap ps) x
      rcases List.mem_append.mp hp with hp | hp
      · -- an earlier pair: what kept it out is still there
        rcases ih hsorted hp with hin | ⟨q, hq, hitem, hle⟩ | ⟨hfull, hall⟩
        · rcases hcases with ⟨heq, _⟩ | ⟨heq, _⟩
          · rw [heq]
            exact Or.inl hin
          · rw [heq]
            exact Or.inl (List.mem_append_left _ hin)
        · refine Or.inr (Or.inl ⟨q, ?_, hitem, hle⟩)
          rcases hcases with ⟨heq, _⟩ | ⟨heq, _⟩
          · rw [heq]
            exact hq
          · rw [heq]
            exact List.mem_append_left _ hq
        · rcases hcases with ⟨heq, _⟩ | ⟨heq, _, hroom⟩
          · rw [heq]
            exact Or.inr (Or.inr ⟨hfull, hall⟩)
          · -- a full agent gets nothing more
            have hother : agent x ≠ agent p := by
              intro hsame
              rw [hsame, hfull] at hroom
              exact absurd hroom (Nat.lt_irrefl cap)
            rw [heq, share_concat, if_neg hother]
            exact Or.inr (Or.inr ⟨hfull, hall⟩)
      · -- the pair that is looked at now
        rw [List.mem_singleton.mp hp]
        rcases hcases with ⟨heq, ⟨q, hq, hitem⟩ | hfull⟩ | ⟨heq, _⟩
        · rw [heq]
          exact Or.inr (Or.inl ⟨q, hq, hitem, hbest q hq⟩)
        · rw [heq]
          refine Or.inr (Or.inr ⟨Nat.le_antisymm (length_share_le _ ps) hfull, ?_⟩)
          exact fun q hq => hbest q (mem_share.mp hq).1
        · rw [heq]
          exact Or.inl (List.mem_append_right _ (List.mem_singleton_self x))

end Pinnokio.Greedy
