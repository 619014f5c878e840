import Mathlib.Data.Nat.Notation
import Mathlib.Tactic.Common

/-!
# Glob patterns

The patterns of a key-value store's `SCAN … MATCH`: `*` for any text, `?` for any character, `[…]` for a set of
characters with ranges and a negation, `\` before a character to take it as it is.  A pattern is first read into tokens
and then matched.

* `matches_cons_literal` — a pattern that begins with an ordinary character only matches texts that begin with it.
-/

namespace Pinnokio.Glob

/-- A part of a pattern. -/
inductive Token where
  | star
  | one
  | set (negated : Bool) (ranges : List (Char × Char))
  | literal (c : Char)
  deriving DecidableEq

/-- The characters of a set, as ranges, and what follows the set. -/
def readSet : List Char → List (Char × Char) × List Char
  | [] => ([], [])
  | '\\' :: c :: rest => ((c, c) :: (readSet rest).1, (readSet rest).2)
  | ']' :: rest => ([], rest)
  | a :: '-' :: b :: rest => ((a, b) :: (readSet rest).1, (readSet rest).2)
  | a :: rest => ((a, a) :: (readSet rest).1, (readSet rest).2)

/-- The tokens of a pattern of at most `n` characters. -/
def tokens : ℕ → List Char → List Token
  | 0, _ => []
  | _, [] => []
  | n + 1, '*' :: rest => .star :: tokens n rest
  | n + 1, '?' :: rest => .one :: tokens n rest
  | n + 1, '[' :: '^' :: rest => .set true (readSet rest).1 :: tokens n (readSet rest).2
  | n + 1, '[' :: rest => .set false (readSet rest).1 :: tokens n (readSet rest).2
  | n + 1, '\\' :: c :: rest => .literal c :: tokens n rest
  | n + 1, c :: rest => .literal c :: tokens n rest

/-- A character is in one of the ranges; their ends may come in either order. -/
def inRanges (ranges : List (Char × Char)) (c : Char) : Bool :=
  ranges.any fun r => (r.1 ≤ c && c ≤ r.2) || (r.2 ≤ c && c ≤ r.1)

/-- A text matches tokens. -/
def matchTokens : List Token → List Char → Bool
  | [], s => s.isEmpty
  | .star :: ts, s => s.tails.any (matchTokens ts)
  | .one :: ts, _ :: s => matchTokens ts s
  | .set negated ranges :: ts, c :: s => (inRanges ranges c != negated) && matchTokens ts s
  | .literal x :: ts, c :: s => decide (x = c) && matchTokens ts s
  | _, [] => false

/-- A key matches a pattern. -/
def isMatch (pattern key : String) : Bool :=
  matchTokens (tokens pattern.toList.length pattern.toList) key.toList

example : isMatch "cache:u:c:hr:*" "cache:u:c:hr:employees" = true := by decide

example : isMatch "h[^a-c]?" "hd1" = true := by decide

/-- The characters with a meaning of their own. -/
def special : List Char := ['*', '?', '[', '\\']

theorem tokens_cons_literal {c : Char} (hc : c ∉ special) (n : ℕ) (rest : List Char) :
    tokens (n + 1) (c :: rest) = .literal c :: tokens n rest := by
  simp only [special, List.mem_cons, List.not_mem_nil, or_false, not_or] at hc
  obtain ⟨hstar, hone, hset, hescape⟩ := hc
  rw [tokens]
  · exact hstar
  · exact hone
  · exact fun _ h _ => hset h
  · exact hset
  · exact fun _ _ h _ => hescape h

/-- **A pattern that begins with an ordinary character** only matches texts that begin with it. -/
theorem matches_cons_literal {c : Char} (hc : c ∉ special) {n : ℕ} {rest key : List Char}
    (h : matchTokens (tokens (n + 1) (c :: rest)) key = true) :
    ∃ key', key = c :: key' ∧ matchTokens (tokens n rest) key' = true := by
  rw [tokens_cons_literal hc] at h
  cases key with
  | nil => cases h
  | cons x key =>
      rw [matchTokens, Bool.and_eq_true, decide_eq_true_eq] at h
      exact ⟨key, by rw [h.1], h.2⟩

end Pinnokio.Glob
