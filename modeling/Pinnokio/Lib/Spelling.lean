import Mathlib.Data.List.Infix
import Pinnokio.Lib.Text

/-!
# Characters spelled out as words

A character is replaced by a word that begins and ends with a mark, such as `.` by `_dot_`, and the word is later
replaced by the character again (`Text.replaceChars`).  Reading back finds the occurrences of the word from the left,
also those that the text had before, and those that share a mark with a word that was spelled out.

* `spell_replace` — what is read can be spelled out again, so no text of two is read as the same;
* `clear_replaceChars` — what is read has no two marks around the body of the word, where the second may be the
  character;
* `replace_spell_iff` — **exactly the texts without such a place are read back**.
-/

namespace Pinnokio.Spelling

open Pinnokio.Text

/-! ### Words -/

/-- A word between two marks. -/
structure Marked where
  mark : Char
  body : List Char
  plain : mark ∉ body

/-- The word. -/
def Marked.word (w : Marked) : List Char := w.mark :: (w.body ++ [w.mark])

/-- A character, spelled out. -/
def spellChar (c : Char) (word : List Char) (x : Char) : List Char := if x = c then word else [x]

/-- A text with a character spelled out. -/
def spell (c : Char) (word s : List Char) : List Char := s.flatMap (spellChar c word)

section Spell

variable {c x : Char} {word s t : List Char}

@[simp] theorem spell_nil : spell c word [] = [] := rfl

@[simp] theorem spell_cons_self : spell c word (c :: s) = word ++ spell c word s := by
  rw [spell, List.flatMap_cons, spellChar, if_pos rfl]
  rfl

theorem spell_cons_of_ne (h : x ≠ c) : spell c word (x :: s) = x :: spell c word s := by
  rw [spell, List.flatMap_cons, spellChar, if_neg h]
  rfl

@[simp] theorem spell_append : spell c word (s ++ t) = spell c word s ++ spell c word t :=
  List.flatMap_append

theorem spell_of_not_mem (h : c ∉ s) : spell c word s = s := by
  induction s with
  | nil => rfl
  | cons x s ih =>
      rw [List.mem_cons, not_or] at h
      rw [spell_cons_of_ne (Ne.symm h.1), ih h.2]

theorem mem_spell (h : x ≠ c) (hx : x ∈ s) : x ∈ spell c word s :=
  List.mem_flatMap.mpr ⟨x, hx, by rw [spellChar, if_neg h]; exact List.mem_singleton_self x⟩

/-- A character that is spelled out is gone. -/
theorem self_not_mem_spell (hw : c ∉ word) : c ∉ spell c word s := by
  intro h
  obtain ⟨y, -, hx⟩ := List.mem_flatMap.mp h
  rw [spellChar] at hx
  split at hx
  · exact hw hx
  · next hne => exact hne (List.mem_singleton.mp hx).symm

/-- Two characters are spelled out in either order. -/
theorem spell_comm {c' : Char} {word' : List Char} (hne : c ≠ c') (hw : c ∉ word') (hw' : c' ∉ word) :
    spell c word (spell c' word' s) = spell c' word' (spell c word s) := by
  induction s with
  | nil => rfl
  | cons x s ih =>
      by_cases hc : x = c
      · subst hc
        rw [spell_cons_self, spell_append, spell_of_not_mem hw', spell_cons_of_ne hne, spell_cons_self, ih]
      · by_cases hc' : x = c'
        · subst hc'
          rw [spell_cons_of_ne hc, spell_cons_self, spell_cons_self, spell_append, spell_of_not_mem hw, ih]
        · rw [spell_cons_of_ne hc', spell_cons_of_ne hc, spell_cons_of_ne hc, spell_cons_of_ne hc', ih]

/-- Spelling a character as another one is undone in a text without the other one. -/
theorem spell_spell_singleton {d : Char} (h : d ∉ s) : spell d [c] (spell c [d] s) = s := by
  induction s with
  | nil => rfl
  | cons x s ih =>
      rw [List.mem_cons, not_or] at h
      by_cases hx : x = c
      · subst hx
        rw [spell_cons_self, spell_append, ih h.2, spell_cons_self]
        rfl
      · rw [spell_cons_of_ne hx, spell_cons_of_ne (Ne.symm h.1), ih h.2]

/-- A character for a character is a map. -/
theorem spell_singleton_eq_map (c d : Char) (s : List Char) :
    spell c [d] s = s.map fun x => if x = c then d else x := by
  induction s with
  | nil => rfl
  | cons x s ih =>
      by_cases h : x = c
      · subst h
        rw [spell_cons_self, ih, List.map_cons, if_pos rfl]
        rfl
      · rw [spell_cons_of_ne h, ih, List.map_cons, if_neg h]

/-- The beginning of a concatenation. -/
theorem prefix_append_iff {u : List Char} : u <+: s ++ t ↔ u <+: s ∨ ∃ v, u = s ++ v ∧ v <+: t := by
  constructor
  · rintro ⟨rest, h⟩
    rcases List.append_eq_append_iff.mp h with ⟨v, rfl, -⟩ | ⟨v, rfl, rfl⟩
    · exact .inl ⟨v, rfl⟩
    · exact .inr ⟨v, rfl, rest, rfl⟩
  · rintro (h | ⟨v, rfl, h⟩)
    · exact h.trans (List.prefix_append s t)
    · exact (List.prefix_append_right_inj s).mpr h

/-- Where a text begins with a character that another text has not. -/
theorem infix_append_iff_of_not_mem (h : x ∉ s) {u : List Char} : x :: u <:+: s ++ t ↔ x :: u <:+: t := by
  induction s with
  | nil => exact Iff.rfl
  | cons y s ih =>
      rw [List.mem_cons, not_or] at h
      rw [List.cons_append, List.infix_cons_iff, ih h.2, List.cons_prefix_cons]
      exact or_iff_right fun hbegins => h.1 hbegins.1

end Spell

/-! ### Reading back -/

/-- A place that looks like the word: its body after a mark, and before a mark or the character. -/
def LooksLike (w : Marked) (c : Char) (s : List Char) : Prop :=
  ∃ z, (z = w.mark ∨ z = c) ∧ w.mark :: (w.body ++ [z]) <:+: s

section ReadBack

variable {w : Marked} {c : Char} {s : List Char}

theorem replaceChars_append {old new : List Char} (ys xs : List Char) :
    replaceChars old new ys.length (ys ++ xs) = replaceChars old new 0 xs := by
  induction ys with
  | nil => rfl
  | cons y ys ih => exact ih

/-- The word itself is read as the character. -/
theorem replaceChars_word : replaceChars w.word [c] 0 (w.word ++ s) = c :: replaceChars w.word [c] 0 s := by
  have hlength : w.word.length - 1 = (w.body ++ [w.mark]).length := by rw [Marked.word, List.length_cons]; omega
  have hbegins : w.word.isPrefixOf (w.mark :: ((w.body ++ [w.mark]) ++ s)) = true :=
    List.isPrefixOf_iff_prefix.mpr (List.prefix_append w.word s)
  show replaceChars w.word [c] 0 (w.mark :: ((w.body ++ [w.mark]) ++ s)) = _
  rw [replaceChars, if_pos hbegins, hlength, replaceChars_append]
  rfl

/-- **What is read can be spelled out again.** -/
theorem spell_replaceChars (skip : ℕ) (h : c ∉ s) :
    spell c w.word (replaceChars w.word [c] skip s) = s.drop skip := by
  induction s generalizing skip with
  | nil => cases skip <;> rfl
  | cons x s ih =>
      rw [List.mem_cons, not_or] at h
      cases skip with
      | succ skip => exact ih skip h.2
      | zero =>
          rw [replaceChars]
          split
          · next hbegins =>
            obtain ⟨rest, hrest⟩ := List.isPrefixOf_iff_prefix.mp hbegins
            have htail : s = (w.body ++ [w.mark]) ++ rest := (List.cons.inj hrest).2.symm
            have hlength : w.word.length - 1 = (w.body ++ [w.mark]).length := by
              rw [Marked.word, List.length_cons]; omega
            rw [List.singleton_append, spell_cons_self, ih _ h.2, hlength, htail, List.drop_left]
            rw [htail] at hrest
            exact hrest
          · rw [spell_cons_of_ne (Ne.symm h.1), ih 0 h.2]
            rfl

theorem spell_replace (h : c ∉ s) : spell c w.word (replaceChars w.word [c] 0 s) = s := spell_replaceChars 0 h

theorem not_mem_replace {x : Char} (hne : x ≠ c) (hc : c ∉ s) (hx : x ∉ s) : x ∉ replaceChars w.word [c] 0 s := by
  intro h
  have hspelled : x ∈ spell c w.word (replaceChars w.word [c] 0 s) := mem_spell hne h
  rw [spell_replace hc] at hspelled
  exact hx hspelled

/-- A place that looks like the word is one where the word begins, once it is spelled out. -/
theorem word_prefix_spell {z : Char} (hz : z = w.mark ∨ z = c) (hw : c ∉ w.word) :
    w.word <+: spell c w.word (w.mark :: (w.body ++ [z])) := by
  have hmark : w.mark ≠ c := fun heq => hw (heq ▸ List.mem_cons_self)
  have hbody : c ∉ w.body := fun hmem => hw (List.mem_cons_of_mem _ (List.mem_append_left _ hmem))
  rw [spell_cons_of_ne hmark, spell_append, spell_of_not_mem hbody]
  rcases hz with rfl | rfl
  · rw [spell_cons_of_ne hmark]
    exact List.prefix_refl _
  · rw [spell_cons_self]
    exact ⟨w.body ++ [w.mark], by simp [Marked.word]⟩

/-- **What is read has no place that looks like the word.** -/
theorem clear_replaceChars (skip : ℕ) (hw : c ∉ w.word) (h : c ∉ s) :
    ¬LooksLike w c (replaceChars w.word [c] skip s) := by
  induction s generalizing skip with
  | nil =>
      rintro ⟨z, -, hinside⟩
      have hnil : w.mark :: (w.body ++ [z]) = [] := by cases skip <;> exact List.infix_nil.mp hinside
      cases hnil
  | cons x s ih =>
      have hs : c ∉ s := fun hmem => h (List.mem_cons_of_mem x hmem)
      cases skip with
      | succ skip => exact ih skip hs
      | zero =>
          have hread := spell_replace (w := w) h
          rw [replaceChars] at hread ⊢
          split
          · rintro ⟨z, hz, hinside⟩
            rcases List.infix_cons_iff.mp hinside with hbegins | hlater
            · exact hw ((List.cons_prefix_cons.mp hbegins).1 ▸ List.mem_cons_self)
            · exact ih _ hs ⟨z, hz, hlater⟩
          · next hnot =>
            rw [if_neg hnot] at hread
            rintro ⟨z, hz, hinside⟩
            rcases List.infix_cons_iff.mp hinside with hbegins | hlater
            · -- Spelled out, the place is one where the word would have been found.
              have hfound : w.word <+: x :: s :=
                hread ▸ (word_prefix_spell hz hw).trans (hbegins.flatMap (spellChar c w.word))
              exact hnot (List.isPrefixOf_iff_prefix.mpr hfound)
            · exact ih 0 hs ⟨z, hz, hlater⟩

/-- What follows a text without the mark in a text that is spelled out. -/
theorem prefix_spell_iff {body : List Char} (hmark : w.mark ∉ body) (hc : c ∉ body) {z : Char} (hz : z ≠ c) :
    body ++ [z] <+: spell c w.word s ↔ ∃ y, (y = z ∨ z = w.mark ∧ y = c) ∧ body ++ [y] <+: s := by
  induction body generalizing s with
  | nil =>
      cases s with
      | nil =>
          refine iff_of_false (fun h => ?_) ?_
          · cases List.prefix_nil.mp h
          · rintro ⟨y, -, h⟩
            cases List.prefix_nil.mp h
      | cons x s =>
          simp only [List.nil_append, List.singleton_prefix_iff_head?_eq_some, List.head?_cons, Option.some.injEq]
          by_cases hx : x = c
          · subst hx
            rw [spell_cons_self, Marked.word, List.cons_append, List.head?_cons]
            constructor
            · intro h
              exact ⟨x, .inr ⟨(Option.some.inj h).symm, rfl⟩, rfl⟩
            · rintro ⟨y, rfl | ⟨rfl, -⟩, hy⟩
              · exact absurd hy.symm hz
              · rfl
          · rw [spell_cons_of_ne hx, List.head?_cons]
            constructor
            · intro h
              exact ⟨x, .inl (Option.some.inj h), rfl⟩
            · rintro ⟨y, rfl | ⟨-, rfl⟩, hy⟩
              · rw [hy]
              · exact absurd hy hx
  | cons b body ih =>
      rw [List.mem_cons, not_or] at hmark hc
      cases s with
      | nil =>
          refine iff_of_false (fun h => ?_) ?_
          · cases List.prefix_nil.mp h
          · rintro ⟨y, -, h⟩
            cases List.prefix_nil.mp h
      | cons x s =>
          simp only [List.cons_append]
          by_cases hx : x = c
          · subst hx
            rw [spell_cons_self, Marked.word, List.cons_append, List.cons_prefix_cons]
            refine iff_of_false (fun h => hmark.1 h.1.symm) ?_
            rintro ⟨y, -, h⟩
            exact hc.1 (List.cons_prefix_cons.mp h).1.symm
          · rw [spell_cons_of_ne hx, List.cons_prefix_cons, ih hmark.2 hc.2]
            simp only [List.cons_prefix_cons]
            constructor
            · rintro ⟨hb, y, hy, hbegins⟩
              exact ⟨y, hy, hb, hbegins⟩
            · rintro ⟨y, hy, hb, hbegins⟩
              exact ⟨hb, y, hy, hbegins⟩

/-- **Where a mark and a text without marks stand in a text that is spelled out.** -/
theorem infix_spell_iff {body : List Char} (hmark : w.mark ∉ body) (hc : c ∉ body) (hw : w.mark ≠ c) {z : Char}
    (hz : z ≠ c) (hdiff : ∀ rest, ¬body ++ [z] <+: w.body ++ w.mark :: rest) :
    w.mark :: (body ++ [z]) <:+: spell c w.word s ↔
      ∃ x y, (x = w.mark ∨ x = c) ∧ (y = z ∨ z = w.mark ∧ y = c) ∧ x :: (body ++ [y]) <:+: s := by
  induction s with
  | nil =>
      refine iff_of_false (fun h => ?_) ?_
      · cases List.infix_nil.mp h
      · rintro ⟨x, y, -, -, h⟩
        cases List.infix_nil.mp h
  | cons a s ih =>
      by_cases ha : a = c
      · subst ha
        have hword : w.mark :: (body ++ [z]) <:+: w.word ++ spell a w.word s ↔
            body ++ [z] <+: spell a w.word s ∨ w.mark :: (body ++ [z]) <:+: spell a w.word s := by
          show w.mark :: (body ++ [z]) <:+: w.mark :: (w.body ++ [w.mark] ++ spell a w.word s) ↔ _
          rw [List.append_assoc, List.singleton_append, List.infix_cons_iff, List.cons_prefix_cons,
            infix_append_iff_of_not_mem w.plain, List.infix_cons_iff, List.cons_prefix_cons]
          constructor
          · rintro (⟨-, hbegins⟩ | ⟨-, hbegins⟩ | hinside)
            · exact absurd hbegins (hdiff _)
            · exact .inl hbegins
            · exact .inr hinside
          · rintro (hbegins | hinside)
            · exact .inr (.inl ⟨rfl, hbegins⟩)
            · exact .inr (.inr hinside)
        rw [spell_cons_self, hword, prefix_spell_iff hmark hc hz, ih]
        constructor
        · rintro (⟨y, hy, hbegins⟩ | ⟨x, y, hx, hy, hinside⟩)
          · exact ⟨a, y, .inr rfl, hy, (List.cons_prefix_cons.mpr ⟨rfl, hbegins⟩).isInfix⟩
          · exact ⟨x, y, hx, hy, List.infix_cons hinside⟩
        · rintro ⟨x, y, hx, hy, hinside⟩
          rcases List.infix_cons_iff.mp hinside with hbegins | hlater
          · exact .inl ⟨y, hy, (List.cons_prefix_cons.mp hbegins).2⟩
          · exact .inr ⟨x, y, hx, hy, hlater⟩
      · rw [spell_cons_of_ne ha, List.infix_cons_iff, List.cons_prefix_cons, prefix_spell_iff hmark hc hz, ih]
        constructor
        · rintro (⟨rfl, y, hy, hbegins⟩ | ⟨x, y, hx, hy, hinside⟩)
          · exact ⟨w.mark, y, .inl rfl, hy, (List.cons_prefix_cons.mpr ⟨rfl, hbegins⟩).isInfix⟩
          · exact ⟨x, y, hx, hy, List.infix_cons hinside⟩
        · rintro ⟨x, y, hx, hy, hinside⟩
          rcases List.infix_cons_iff.mp hinside with hbegins | hlater
          · obtain ⟨hxa, hbody⟩ := List.cons_prefix_cons.mp hbegins
            have hmark' : w.mark = a := hx.elim (fun heq => heq ▸ hxa) fun heq => absurd (hxa ▸ heq) ha
            exact .inl ⟨hmark', y, hy, hbody⟩
          · exact .inr ⟨x, y, hx, hy, hlater⟩

/-- **A text without a place that looks like the word is read back.** -/
theorem replace_spell (hw : c ∉ w.word) (h : ¬LooksLike w c s) :
    replaceChars w.word [c] 0 (spell c w.word s) = s := by
  have hmark : w.mark ≠ c := fun heq => hw (heq ▸ List.mem_cons_self)
  have hbody : c ∉ w.body := fun hmem => hw (List.mem_cons_of_mem _ (List.mem_append_left _ hmem))
  induction s with
  | nil => rfl
  | cons x s ih =>
      have hrest : ¬LooksLike w c s := by
        rintro ⟨z, hz, hinside⟩
        exact h ⟨z, hz, hinside.trans (List.infix_cons (List.infix_refl s))⟩
      by_cases hx : x = c
      · subst hx
        rw [spell_cons_self, replaceChars_word, ih hrest]
      · rw [spell_cons_of_ne hx, replaceChars]
        split
        · next hbegins =>
          obtain ⟨hxmark, hfound⟩ := List.cons_prefix_cons.mp (List.isPrefixOf_iff_prefix.mp hbegins)
          obtain ⟨z, hz, hplace⟩ := (prefix_spell_iff w.plain hbody hmark).mp hfound
          refine absurd ⟨z, ?_, (List.cons_prefix_cons.mpr ⟨hxmark, hplace⟩).isInfix⟩ h
          rcases hz with rfl | ⟨-, rfl⟩
          · exact .inl rfl
          · exact .inr rfl
        · rw [ih hrest]

/-- **Which texts are read back.** -/
theorem replace_spell_iff (hw : c ∉ w.word) :
    replaceChars w.word [c] 0 (spell c w.word s) = s ↔ ¬LooksLike w c s := by
  refine ⟨fun hread => ?_, replace_spell hw⟩
  rw [← hread]
  exact clear_replaceChars 0 hw (self_not_mem_spell hw)

end ReadBack

end Pinnokio.Spelling
