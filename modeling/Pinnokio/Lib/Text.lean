import Mathlib.Data.List.Basic
import Mathlib.Tactic.Common

/-!
# Text operations of a scripting language

`str.split(c)`, `str.replace(old, new)`, `str.strip()`, `str.lower()`, `in` and the collapsing of repeated separators,
over lists of code points, in a form the kernel can run.  A text without the separator of a `split` is its own only
piece (`split_of_not_mem`); the pieces have no separator, and joined with it they are the text again
(`not_mem_of_mem_splitChars`, `intercalate_splitChars`); what stands before the first separator is determined (`cut`).
-/

namespace Pinnokio.Text

/-- Pieces between the occurrences of `c`. -/
def splitChars (c : Char) : List Char → List (List Char)
  | [] => [[]]
  | x :: xs =>
      if x = c then [] :: splitChars c xs
      else
        match splitChars c xs with
        | [] => [[x]]
        | p :: ps => (x :: p) :: ps

/-- `s.split(c)`. -/
def split (s : String) (c : Char) : List String := (splitChars c s.toList).map String.ofList

/-- Pieces at the first `n` occurrences of `c`. -/
def splitCharsAtMost (c : Char) : ℕ → List Char → List (List Char)
  | 0, xs => [xs]
  | _ + 1, [] => [[]]
  | n + 1, x :: xs =>
      if x = c then [] :: splitCharsAtMost c n xs
      else
        match splitCharsAtMost c (n + 1) xs with
        | [] => [[x]]
        | p :: ps => (x :: p) :: ps

/-- `s.split(c, n)`. -/
def splitAtMost (s : String) (c : Char) (n : ℕ) : List String := (splitCharsAtMost c n s.toList).map String.ofList

example : splitAtMost "w:a:0:x:y" ':' 3 = ["w", "a", "0", "x:y"] := by decide

/-- `s.startswith(t)`. -/
def startsWith (s t : String) : Bool := t.toList.isPrefixOf s.toList

/-- `s.replace(c, r)`. -/
def replaceChar (s : String) (c : Char) (r : String) : String :=
  String.ofList (s.toList.flatMap fun x => if x = c then r.toList else [x])

/-- The scan of `replace`: occurrences are found from the left and do not overlap; `skip` counts the
characters of an occurrence that are still to be passed over. -/
def replaceChars (old new : List Char) : ℕ → List Char → List Char
  | _, [] => []
  | skip + 1, _ :: xs => replaceChars old new skip xs
  | 0, x :: xs =>
      if old.isPrefixOf (x :: xs) then new ++ replaceChars old new (old.length - 1) xs
      else x :: replaceChars old new 0 xs

/-- `s.replace(old, new)` for a non-empty `old`. -/
def replace (s old new : String) : String :=
  String.ofList (replaceChars old.toList new.toList 0 s.toList)

/-- The code points that `strip` removes. -/
def isSpace (c : Char) : Bool :=
  c.toNat ∈ [0x20, 0x85, 0xA0, 0x1680, 0x2028, 0x2029, 0x202F, 0x205F, 0x3000] ||
    (0x09 ≤ c.toNat && c.toNat ≤ 0x0D) || (0x1C ≤ c.toNat && c.toNat ≤ 0x1F) ||
    (0x2000 ≤ c.toNat && c.toNat ≤ 0x200A)

/-- `s.strip()`. -/
def strip (s : String) : String :=
  String.ofList ((s.toList.dropWhile isSpace).reverse.dropWhile isSpace).reverse

/-- Runs of `c` become a single `c`. -/
def collapseChars (c : Char) : List Char → List Char
  | [] => []
  | x :: xs =>
      if x = c ∧ xs.head? = some c then collapseChars c xs else x :: collapseChars c xs

/-- `re.sub("c{2,}", "c", s)`. -/
def collapse (s : String) (c : Char) : String := String.ofList (collapseChars c s.toList)

example : replace "a/bo_clientss/b" "bo_clientss" "bo_clients" = "a/bo_clients/b" := by decide

example : collapse (strip " a//b///c ") '/' = "a/b/c" := by decide

/-- `s.lower()` on the letters of the ASCII alphabet. -/
def lower (s : String) : String := String.ofList (s.toList.map Char.toLower)

/-- A text contains a character that is not blank. -/
def nonBlank (s : String) : Bool := s.toList.any fun c => !isSpace c

/-- The printable characters of the ASCII alphabet but the space. -/
theorem isSpace_of_printable {c : Char} (hlo : 0x21 ≤ c.toNat) (hhi : c.toNat ≤ 0x7E) : isSpace c = false := by
  simp only [isSpace, List.mem_cons, List.not_mem_nil, or_false, Bool.or_eq_false_iff, Bool.and_eq_false_iff,
    decide_eq_false_iff_not]
  omega

/-- Small letters are not blank, as the capitals are not. -/
theorem isSpace_toLower (c : Char) : isSpace c.toLower = isSpace c := by
  by_cases h : c.val ≥ 'A'.val ∧ c.val ≤ 'Z'.val
  · have hlower : c.toLower.val = c.val + ('a'.val - 'A'.val) := congrArg Char.val (dif_pos h)
    have hlo : 65 ≤ c.val.toNat := UInt32.le_iff_toNat_le.mp h.1
    have hhi : c.val.toNat ≤ 90 := UInt32.le_iff_toNat_le.mp h.2
    have hsmall : c.toLower.toNat = c.toNat + 32 := by
      show c.toLower.val.toNat = c.val.toNat + 32
      rw [hlower, UInt32.toNat_add]
      exact Nat.mod_eq_of_lt (Nat.lt_of_le_of_lt (Nat.add_le_add_right hhi 32) (by decide))
    have hcapital : c.toNat = c.val.toNat := rfl
    rw [isSpace_of_printable (by omega) (by omega), isSpace_of_printable (by omega) (by omega)]
  · have hlower : c.toLower = c := dif_neg h
    rw [hlower]

theorem nonBlank_lower (s : String) : nonBlank (lower s) = nonBlank s := by
  rw [nonBlank, lower, String.toList_ofList, List.any_map]
  simp only [Function.comp_def, isSpace_toLower]
  rfl

/-- What stands before a separator is the first piece. -/
theorem splitCharsAtMost_append {c : Char} {xs : List Char} (h : c ∉ xs) (n : ℕ) (ys : List Char) :
    splitCharsAtMost c (n + 1) (xs ++ c :: ys) = xs :: splitCharsAtMost c n ys := by
  induction xs with
  | nil => rw [List.nil_append, splitCharsAtMost, if_pos rfl]
  | cons x xs ih =>
      rw [List.mem_cons, not_or] at h
      rw [List.cons_append, splitCharsAtMost, if_neg (Ne.symm h.1), ih h.2]

theorem splitCharsAtMost_of_not_mem {c : Char} {xs : List Char} (h : c ∉ xs) (n : ℕ) :
    splitCharsAtMost c n xs = [xs] := by
  induction xs with
  | nil => cases n <;> rfl
  | cons x xs ih =>
      rw [List.mem_cons, not_or] at h
      cases n with
      | zero => rfl
      | succ n => rw [splitCharsAtMost, if_neg (Ne.symm h.1), ih h.2]

theorem strip_of_no_space {s : String} (h : ∀ c ∈ s.toList, isSpace c = false) : strip s = s := by
  have hleft : s.toList.dropWhile isSpace = s.toList := by
    cases hs : s.toList with
    | nil => rfl
    | cons c cs => rw [List.dropWhile_cons_of_neg (by simp [h c (by simp [hs])])]
  have hright : s.toList.reverse.dropWhile isSpace = s.toList.reverse := by
    cases hs : s.toList.reverse with
    | nil => rfl
    | cons c cs =>
        have hmem : c ∈ s.toList := List.mem_reverse.mp (by simp [hs])
        rw [List.dropWhile_cons_of_neg (by simp [h c hmem])]
  rw [strip, hleft, hright, List.reverse_reverse, String.ofList_toList]

theorem splitChars_of_not_mem {c : Char} {xs : List Char} (h : c ∉ xs) : splitChars c xs = [xs] := by
  induction xs with
  | nil => rfl
  | cons x xs ih =>
      rw [List.mem_cons, not_or] at h
      rw [splitChars, if_neg (Ne.symm h.1), ih h.2]

/-- A text without the separator is its own only piece. -/
theorem split_of_not_mem {s : String} {c : Char} (h : c ∉ s.toList) : split s c = [s] := by
  rw [split, splitChars_of_not_mem h, List.map_singleton, String.ofList_toList]

theorem splitChars_ne_nil (c : Char) (xs : List Char) : splitChars c xs ≠ [] := by
  induction xs with
  | nil => exact List.cons_ne_nil _ _
  | cons x xs ih =>
      rw [splitChars]
      split
      · exact List.cons_ne_nil _ _
      · split <;> exact List.cons_ne_nil _ _

/-- The pieces have no separator. -/
theorem not_mem_of_mem_splitChars {c : Char} {xs p : List Char} (h : p ∈ splitChars c xs) : c ∉ p := by
  induction xs generalizing p with
  | nil =>
      rw [splitChars, List.mem_singleton] at h
      subst h
      exact List.not_mem_nil
  | cons x xs ih =>
      rw [splitChars] at h
      split at h
      · rcases List.mem_cons.mp h with rfl | h
        · exact List.not_mem_nil
        · exact ih h
      · next hx =>
        cases hs : splitChars c xs with
        | nil => exact absurd hs (splitChars_ne_nil c xs)
        | cons q qs =>
            rw [hs] at h ih
            rcases List.mem_cons.mp h with rfl | h
            · rw [List.mem_cons, not_or]
              exact ⟨Ne.symm hx, ih (List.mem_cons_self ..)⟩
            · exact ih (List.mem_cons_of_mem _ h)

/-- The pieces, joined with the separator, are the text again. -/
theorem intercalate_splitChars (c : Char) (xs : List Char) : [c].intercalate (splitChars c xs) = xs := by
  induction xs with
  | nil => rfl
  | cons x xs ih =>
      rw [splitChars]
      cases hs : splitChars c xs with
      | nil => exact absurd hs (splitChars_ne_nil c xs)
      | cons q qs =>
          rw [hs] at ih
          split
          · next hx => simp [List.intercalate, hx] at ih ⊢; exact ih
          · cases qs with
            | nil => simpa [List.intercalate] using ih
            | cons r rs => simpa [List.intercalate] using ih

/-- What stands before the first separator is determined, and so is the rest. -/
theorem cut_chars {c : Char} {a a' b b' : List Char} (ha : c ∉ a) (ha' : c ∉ a') (h : a ++ c :: b = a' ++ c :: b') :
    a = a' ∧ b = b' := by
  induction a generalizing a' with
  | nil =>
      cases a' with
      | nil => exact ⟨rfl, (List.cons.inj h).2⟩
      | cons x a' => exact absurd (List.mem_cons.mpr (Or.inl (List.cons.inj h).1)) ha'
  | cons x a ih =>
      cases a' with
      | nil => exact absurd (List.mem_cons.mpr (Or.inl (List.cons.inj h).1.symm)) ha
      | cons y a' =>
          obtain ⟨hxy, hrest⟩ := List.cons.inj h
          obtain ⟨heq, hb⟩ := ih (fun hm => ha (List.mem_cons_of_mem _ hm)) (fun hm => ha' (List.mem_cons_of_mem _ hm))
            hrest
          exact ⟨by rw [hxy, heq], hb⟩

/-- Two texts with the same separator. -/
theorem cut {sep : String} {c : Char} (hsep : sep.toList = [c]) {a a' b b' : String} (ha : c ∉ a.toList)
    (ha' : c ∉ a'.toList) (h : a ++ (sep ++ b) = a' ++ (sep ++ b')) : a = a' ∧ b = b' := by
  have hchars := congrArg String.toList h
  simp only [String.toList_append, hsep, List.singleton_append] at hchars
  obtain ⟨hleft, hright⟩ := cut_chars ha ha' hchars
  exact ⟨String.toList_injective hleft, String.toList_injective hright⟩

/-- A common prefix cancels. -/
theorem append_left_cancel {a b c : String} (h : a ++ b = a ++ c) : b = c := by
  have hl : a.toList ++ b.toList = a.toList ++ c.toList := by
    rw [← String.toList_append, ← String.toList_append, h]
  exact String.toList_injective (List.append_cancel_left hl)

/-- No text comes before the empty one. -/
theorem eq_empty_of_le {s : String} (h : s ≤ "") : s = "" := by
  by_contra hne
  apply h
  rw [String.lt_iff]
  cases hs : s.toList with
  | nil => exact absurd (String.toList_injective hs) hne
  | cons c cs => exact List.nil_lt_cons c cs

/-- `s.upper()` on the letters of the ASCII alphabet. -/
def upper (s : String) : String := String.ofList (s.toList.map Char.toUpper)

/-- `s in t`. -/
def containedIn (s t : String) : Bool := t.toList.tails.any fun x => s.toList.isPrefixOf x

/-- The interpreter's `a or b` on texts. -/
def orElse (a b : String) : String := if a = "" then b else a

end Pinnokio.Text
