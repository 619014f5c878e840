import Mathlib.Data.List.Perm.Basic
import Mathlib.Data.List.Sort

/-!
# The best of a stream

Offers with scores come one after the other, and at most a number of them is kept: a new one is added while there is
room, and else takes the place of one with the lowest score if its own is higher.

* `IsTop` — what is kept is as good as anything that was left out, and nothing is left out while there is room;
* `IsTop.add`, `IsTop.replace`, `IsTop.skip` — the three things that can happen to a new offer;
* `IsTop.scores_eq` — **the scores of what is kept are the highest ones of all offers**;
* `head?_insertionSort` — a stable descending sort begins with the first of the best.
-/

namespace Pinnokio.TopK

variable {ι α : Type*} [LinearOrder α] {score : ι → α} {k : ℕ} {offers kept : List ι} {x : ι}

/-- What is kept of the offers: the rest is no better, and there is one only if `k` are kept. -/
def IsTop (score : ι → α) (k : ℕ) (offers kept : List ι) : Prop :=
  ∃ rest, (kept ++ rest).Perm offers ∧ (∀ a ∈ kept, ∀ b ∈ rest, score b ≤ score a) ∧
    (kept.length = k ∨ kept.length < k ∧ rest = [])

theorem isTop_nil : IsTop score k [] [] := by
  refine ⟨[], .refl _, fun a ha => absurd ha List.not_mem_nil, ?_⟩
  rcases Nat.eq_zero_or_pos k with hzero | hpos
  · exact .inl hzero.symm
  · exact .inr ⟨hpos, rfl⟩

theorem IsTop.length_le (h : IsTop score k offers kept) : kept.length ≤ k := by
  obtain ⟨rest, -, -, hlength⟩ := h
  omega

/-- The order of what is kept does not matter. -/
theorem IsTop.perm {kept' : List ι} (h : IsTop score k offers kept) (hperm : kept'.Perm kept) :
    IsTop score k offers kept' := by
  obtain ⟨rest, hall, hbest, hlength⟩ := h
  refine ⟨rest, (hperm.append_right rest).trans hall, fun a ha => hbest a (hperm.subset ha), ?_⟩
  rw [hperm.length_eq]
  exact hlength

/-- What is kept was offered. -/
theorem IsTop.subset (h : IsTop score k offers kept) : kept ⊆ offers := by
  obtain ⟨rest, hall, -⟩ := h
  exact fun a ha => hall.subset (List.mem_append_left rest ha)

theorem IsTop.nodup {κ : Type*} {key : ι → κ} (h : IsTop score k offers kept) (hkeys : (offers.map key).Nodup) :
    (kept.map key).Nodup := by
  obtain ⟨rest, hall, -⟩ := h
  have hboth : ((kept ++ rest).map key).Nodup := (hall.map key).nodup_iff.mpr hkeys
  rw [List.map_append] at hboth
  exact hboth.of_append_left

/-! ### A new offer -/

/-- While there is room, it is added. -/
theorem IsTop.add (h : IsTop score k offers kept) (hroom : kept.length < k) :
    IsTop score k (offers ++ [x]) (kept ++ [x]) := by
  obtain ⟨rest, hall, -, hlength⟩ := h
  obtain ⟨-, rfl⟩ := hlength.resolve_left (by omega)
  rw [List.append_nil] at hall
  refine ⟨[], ?_, fun a _ b hb => absurd hb List.not_mem_nil, ?_⟩
  · rw [List.append_nil]
    exact hall.append_right [x]
  · rw [List.length_append, List.length_singleton]
    rcases Nat.lt_or_eq_of_le (Nat.succ_le_of_lt hroom) with hlt | heq
    · exact .inr ⟨hlt, rfl⟩
    · exact .inl heq

/-- It takes the place of one with the lowest score. -/
theorem IsTop.replace (h : IsTop score k offers kept) (hfull : ¬kept.length < k) {i : ℕ} {worst : ι}
    (hi : kept[i]? = some worst) (hworst : ∀ m ∈ kept, score worst ≤ score m) (hx : score worst < score x) :
    IsTop score k (offers ++ [x]) (kept.set i x) := by
  obtain ⟨rest, hall, hbest, hlength⟩ := h
  obtain ⟨hlt, hget⟩ := List.getElem?_eq_some_iff.mp hi
  -- What is kept, with the worst of it at the head.
  have hkept : (worst :: kept.eraseIdx i).Perm kept := by
    rw [← hget]
    exact List.getElem_cons_eraseIdx_perm hlt
  have hset : (kept.set i x).Perm (x :: kept.eraseIdx i) := List.set_perm_cons_eraseIdx hlt x
  refine ⟨worst :: rest, ?_, fun a ha b hb => ?_, ?_⟩
  · have hmiddle : (x :: (kept.eraseIdx i ++ worst :: rest)).Perm (x :: (kept ++ rest)) :=
      (List.perm_middle.trans (hkept.append_right rest)).cons x
    calc (kept.set i x ++ worst :: rest).Perm (x :: kept.eraseIdx i ++ worst :: rest) := hset.append_right _
      _ |>.Perm (x :: (kept ++ rest)) := hmiddle
      _ |>.Perm (x :: offers) := hall.cons x
      _ |>.Perm (offers ++ [x]) := (List.perm_append_singleton x offers).symm
  · have hworstRest : ∀ b ∈ rest, score b ≤ score worst := hbest worst (hkept.subset List.mem_cons_self)
    have hle : score worst ≤ score a := by
      rcases List.mem_cons.mp (hset.subset ha) with rfl | ha
      · exact hx.le
      · exact hworst a (hkept.subset (List.mem_cons_of_mem _ ha))
    rcases List.mem_cons.mp hb with rfl | hb
    · exact hle
    · exact (hworstRest b hb).trans hle
  · rw [List.length_set]
    omega

/-- It is left out if it is no better than anything that is kept. -/
theorem IsTop.skip (h : IsTop score k offers kept) (hfull : ¬kept.length < k)
    (hx : ∀ m ∈ kept, score x ≤ score m) : IsTop score k (offers ++ [x]) kept := by
  obtain ⟨rest, hall, hbest, hlength⟩ := h
  refine ⟨rest ++ [x], ?_, fun a ha b hb => ?_, by omega⟩
  · rw [← List.append_assoc]
    exact hall.append_right [x]
  · rcases List.mem_append.mp hb with hb | hb
    · exact hbest a ha b hb
    · rw [List.mem_singleton.mp hb]
      exact hx a ha

/-! ### The highest scores -/

/-- The `k` highest of some scores, in descending order. -/
def highest (k : ℕ) (scores : List α) : List α := (scores.insertionSort fun a b => b ≤ a).take k

variable (score) in
theorem pairwise_insertionSort (ms : List ι) :
    (ms.insertionSort fun a b => score b ≤ score a).Pairwise fun a b => score b ≤ score a := by
  have htotal : Std.Total fun a b : ι => score b ≤ score a := ⟨fun a b => le_total (score b) (score a)⟩
  have htrans : IsTrans ι fun a b => score b ≤ score a := ⟨fun a b c hab hbc => hbc.trans hab⟩
  exact List.pairwise_insertionSort _ ms

/-- **The scores of what is kept are the highest ones of all offers.** -/
theorem IsTop.scores_eq (h : IsTop score k offers kept) (hsorted : kept.Pairwise fun a b => score b ≤ score a) :
    kept.map score = highest k (offers.map score) := by
  obtain ⟨rest, hall, hbest, hlength⟩ := h
  -- All scores in descending order: those of what is kept, then the others.
  let others := (rest.map score).insertionSort fun a b => b ≤ a
  have hmem (b : α) : b ∈ others ↔ b ∈ rest.map score := List.mem_insertionSort _
  have hdescending : (kept.map score ++ others).Pairwise fun a b => b ≤ a := by
    refine List.pairwise_append.mpr ⟨List.pairwise_map.mpr hsorted, pairwise_insertionSort id _, ?_⟩
    intro a ha b hb
    obtain ⟨m, hm, rfl⟩ := List.mem_map.mp ha
    obtain ⟨m', hm', rfl⟩ := List.mem_map.mp ((hmem b).mp hb)
    exact hbest m hm m' hm'
  have hperm : (kept.map score ++ others).Perm ((offers.map score).insertionSort fun a b => b ≤ a) := by
    have hothers : others.Perm (rest.map score) := List.perm_insertionSort _ _
    refine (hothers.append_left _).trans ?_
    rw [← List.map_append]
    exact (hall.map score).trans (List.perm_insertionSort _ _).symm
  have heq : kept.map score ++ others = (offers.map score).insertionSort fun a b => b ≤ a :=
    hperm.eq_of_pairwise (fun a b _ _ hab hba => le_antisymm hba hab) hdescending (pairwise_insertionSort id _)
  rw [highest, ← heq]
  rcases hlength with hfull | ⟨hroom, rfl⟩
  · rw [List.take_left' (by rw [List.length_map, hfull])]
  · have hnil : others = [] := rfl
    rw [hnil, List.append_nil, List.take_of_length_le (by rw [List.length_map]; omega)]

/-! ### The first of the best -/

/-- An element that no other one of a list beats. -/
def best (score : ι → α) (ms : List ι) (m : ι) : Bool := ms.all fun x => score x ≤ score m

theorem best_iff {ms : List ι} {m : ι} : best score ms m = true ↔ ∀ x ∈ ms, score x ≤ score m := by
  simp [best]

/-- **A stable descending sort begins with the first of the best.** -/
theorem head?_insertionSort (ms : List ι) :
    (ms.insertionSort fun a b => score b ≤ score a).head? = ms.find? (best score ms) := by
  induction ms with
  | nil => rfl
  | cons a ms ih =>
      rw [List.insertionSort_cons]
      cases hsort : ms.insertionSort fun a b => score b ≤ score a with
      | nil =>
          have hnil : ms = [] := by
            have hlength := congrArg List.length hsort
            rw [List.length_insertionSort] at hlength
            exact List.length_eq_zero_iff.mp hlength
          subst hnil
          simp [best, List.orderedInsert]
      | cons m rest =>
          rw [hsort, List.head?_cons] at ih
          have hm : ∀ x ∈ ms, score x ≤ score m := best_iff.mp (List.find?_some ih.symm)
          by_cases ha : score m ≤ score a
          · have hbest : best score (a :: ms) a = true := by
              refine best_iff.mpr fun x hx => ?_
              rcases List.mem_cons.mp hx with rfl | hx
              · exact le_rfl
              · exact (hm x hx).trans ha
            rw [List.find?_cons_of_pos hbest, List.orderedInsert, if_pos ha, List.head?_cons]
          · have hbest : ¬best score (a :: ms) a = true := by
              intro h
              exact ha (best_iff.mp h m (List.mem_cons_of_mem _ (List.mem_of_find?_eq_some ih.symm)))
            have hsame : best score (a :: ms) = best score ms := by
              funext x
              rw [Bool.eq_iff_iff, best_iff, best_iff, List.forall_mem_cons, and_iff_right_iff_imp]
              exact fun hx => (not_le.mp ha).le.trans (hx m (List.mem_of_find?_eq_some ih.symm))
            rw [List.find?_cons_of_neg hbest, List.orderedInsert, if_neg ha, List.head?_cons, ih, hsame]
variable (score) in
theorem exists_find?_best {ms : List ι} (h : ms ≠ []) : ∃ m, ms.find? (best score ms) = some m := by
  rw [← head?_insertionSort]
  cases hsort : ms.insertionSort fun a b => score b ≤ score a with
  | nil =>
      have hlength := congrArg List.length hsort
      rw [List.length_insertionSort] at hlength
      exact absurd (List.length_eq_zero_iff.mp hlength) h
  | cons m rest => exact ⟨m, rfl⟩

variable (score) in
/-- **When a stable descending sort begins with an element of its own place**, unless it begins with one below a
threshold. -/
theorem head?_insertionSort_eq_iff {l r : List ι} {x : ι} (hx : x ∉ l) (high : α) :
    (∀ m, ((l ++ x :: r).insertionSort fun a b => score b ≤ score a).head? = some m → high ≤ score m → m = x) ↔
      (∀ m ∈ l, high ≤ score m → score m < score x) ∧ ∀ m ∈ r, high ≤ score m → score m ≤ score x := by
  obtain ⟨first, hfirst⟩ := exists_find?_best score (List.append_ne_nil_of_right_ne_nil l (List.cons_ne_nil x r))
  have hbest : ∀ y ∈ l ++ x :: r, score y ≤ score first := best_iff.mp (List.find?_some hfirst)
  -- In front of the place there is a best one only if the first of the best is there.
  have hfront : ∀ y ∈ l, score first ≤ score y → first ∈ l := by
    intro y hy hle
    have hyBest : best score (l ++ x :: r) y = true := best_iff.mpr fun z hz => (hbest z hz).trans hle
    rw [List.find?_append] at hfirst
    cases hleft : l.find? (best score (l ++ x :: r)) with
    | none => exact absurd hyBest (List.find?_eq_none.mp hleft y hy)
    | some z =>
        rw [hleft, Option.some_or, Option.some.injEq] at hfirst
        exact hfirst ▸ List.mem_of_find?_eq_some hleft
  rw [head?_insertionSort, hfirst]
  simp only [Option.some.injEq, forall_eq']
  constructor
  · intro h
    refine ⟨fun y hy hhigh => ?_, fun y hy hhigh => ?_⟩
    · have hle := hbest y (by simp [hy])
      have heq := h (hhigh.trans hle)
      rw [heq] at hle hfront
      exact lt_of_not_ge fun hge => hx (hfront y hy hge)
    · have hle := hbest y (by simp [hy])
      rwa [h (hhigh.trans hle)] at hle
  · intro h hhigh
    obtain ⟨hbefore, hafter⟩ := h
    have hxle := hbest x (by simp)
    have hmem := List.mem_of_find?_eq_some hfirst
    rcases List.mem_append.mp hmem with hl | hr
    · exact absurd (hbefore first hl hhigh) (not_lt.mpr hxle)
    · have hnone : l.find? (best score (l ++ x :: r)) = none := by
        refine List.find?_eq_none.mpr fun y hy hyBest => ?_
        have hge := best_iff.mp hyBest first hmem
        exact absurd (hbefore y hy (hhigh.trans hge)) (not_lt.mpr (hxle.trans hge))
      rcases List.mem_cons.mp hr with heq | hr
      · exact heq
      · have hxBest : best score (l ++ x :: r) x = true :=
          best_iff.mpr fun y hy => (hbest y hy).trans (hafter first hr hhigh)
        rw [List.find?_append, hnone, Option.none_or, List.find?_cons_of_pos hxBest, Option.some.injEq] at hfirst
        exact hfirst.symm

end Pinnokio.TopK
