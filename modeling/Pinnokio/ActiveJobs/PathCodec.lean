import Mathlib.Algebra.GroupWithZero.Nat
import Pinnokio.ActiveJobs.MandatePath
import Pinnokio.Lib.Base64
import Pinnokio.Lib.Spelling

/-!
# Reading mandate paths back

`ActiveJobManager._decode_mandate_path` reads what `_encode_mandate_path` has written: behind the prefix `b64_` a base64
text, everywhere else a path with the words `_dot_` and `_hash_`, whose other underscores are slashes.

* `toList_encodeMandatePath` — the encoded path, character by character;
* `decode_encode_of_long` — a long path is read back;
* `decode_encode_of_plain_iff` — when a path that is spelled out is;
* `decode_encode_iff` — **which paths are read back**.
-/

namespace Pinnokio.ActiveJobs

open Pinnokio.Text Pinnokio.Spelling

/-! ### The codec -/

/-- The padding that is missing from a base64 text. -/
def b64Padding (b64Part : List Char) : List Char :=
  let padding := 4 - b64Part.length % 4
  if padding ≠ 4 then List.replicate padding '=' else []

/-- `_decode_mandate_path`. -/
def decodeMandatePath (encodedPath : String) : String :=
  if encodedPath = "" ∨ encodedPath = "unknown" then ""
  else if startsWith encodedPath "b64_" then
    let b64Part := encodedPath.toList.drop 4
    match Base64.decode? (b64Part ++ b64Padding b64Part) with
    | some mandatePath => mandatePath
    | none => encodedPath
  else replaceChar (replace (replace encodedPath "_dot_" ".") "_hash_" "#") '_' "/"

example : decodeMandatePath "clients_user123_mandates_mandate456" = "clients/user123/mandates/mandate456" := by
  decide +kernel

/-- What a character is spelled as. -/
def spelledChar (c : Char) : List Char :=
  if c = '/' then ['_']
  else if c = '.' then ['_', 'd', 'o', 't', '_']
  else if c = '#' then ['_', 'h', 'a', 's', 'h', '_']
  else [c]

/-- A path, spelled out. -/
def spelled (path : List Char) : List Char := path.flatMap spelledChar

/-- The length of a path that is spelled out. -/
def spelledLength (mandatePath : String) : ℕ :=
  (mandatePath.toList.map fun c => if c = '.' then 5 else if c = '#' then 6 else 1).sum

/-- The characters that are spelled out. -/
def Special (c : Char) : Prop := c = '/' ∨ c = '.' ∨ c = '#'

instance (c : Char) : Decidable (Special c) := inferInstanceAs (Decidable (c = '/' ∨ c = '.' ∨ c = '#'))

/-- `_dot_`. -/
def dotWord : Marked := ⟨'_', ['d', 'o', 't'], by decide⟩

/-- `_hash_`. -/
def hashWord : Marked := ⟨'_', ['h', 'a', 's', 'h'], by decide⟩

/-- A path with underscores for its slashes. -/
def underscored (path : List Char) : List Char := spell '/' ['_'] path

section Spelled

variable {c : Char} {path : List Char}

@[simp] theorem spelled_nil : spelled [] = [] := rfl

@[simp] theorem spelled_cons (c : Char) (path : List Char) : spelled (c :: path) = spelledChar c ++ spelled path :=
  List.flatMap_cons

@[simp] theorem spelled_append (path path' : List Char) : spelled (path ++ path') = spelled path ++ spelled path' :=
  List.flatMap_append

theorem spelledChar_of_not_special (h : ¬Special c) : spelledChar c = [c] := by
  rw [Special, not_or, not_or] at h
  rw [spelledChar, if_neg h.1, if_neg h.2.1, if_neg h.2.2]

theorem spelled_of_not_special (h : ∀ c ∈ path, ¬Special c) : spelled path = path := by
  induction path with
  | nil => rfl
  | cons c path ih =>
      rw [spelled_cons, spelledChar_of_not_special (h c List.mem_cons_self),
        ih fun d hd => h d (List.mem_cons_of_mem c hd)]
      rfl

theorem not_special_of_mem_spelledChar {d : Char} (h : d ∈ spelledChar c) : ¬Special d := by
  have hword : ∀ word ∈ [['_'], ['_', 'd', 'o', 't', '_'], ['_', 'h', 'a', 's', 'h', '_']],
      ∀ x ∈ word, ¬Special x := by simp [Special]
  unfold spelledChar at h
  split at h
  · exact hword _ (by simp) d h
  · split at h
    · exact hword _ (by simp) d h
    · split at h
      · exact hword _ (by simp) d h
      · next hslash hdot hhash =>
        rw [List.mem_singleton] at h
        subst h
        rintro (rfl | rfl | rfl)
        · exact hslash rfl
        · exact hdot rfl
        · exact hhash rfl

/-- A path that is spelled out has none of the characters. -/
theorem not_special_of_mem_spelled (h : c ∈ spelled path) : ¬Special c := by
  obtain ⟨d, -, hd⟩ := List.mem_flatMap.mp h
  exact not_special_of_mem_spelledChar hd

theorem length_spelled (path : List Char) :
    (spelled path).length = (path.map fun c => if c = '.' then 5 else if c = '#' then 6 else 1).sum := by
  induction path with
  | nil => rfl
  | cons c path ih =>
      have hchar : (spelledChar c).length = if c = '.' then 5 else if c = '#' then 6 else 1 := by
        rw [spelledChar]
        by_cases hslash : c = '/'
        · subst hslash
          rfl
        · rw [if_neg hslash]
          split
          · rfl
          · split <;> rfl
      rw [spelled_cons, List.length_append, ih, hchar, List.map_cons, List.sum_cons]

theorem spelled_eq_nil (h : spelled path = []) : path = [] := by
  cases path with
  | nil => rfl
  | cons c path =>
      have hhead : spelledChar c ≠ [] := by
        unfold spelledChar
        split_ifs <;> exact List.cons_ne_nil _ _
      rw [spelled_cons] at h
      exact absurd (List.append_eq_nil_iff.mp h).1 hhead

/-- The three replacements, one inside the other. -/
theorem spelled_eq (path : List Char) :
    spelled path = spell '.' dotWord.word (spell '#' hashWord.word (underscored path)) := by
  induction path with
  | nil => rfl
  | cons c path ih =>
      simp only [underscored] at ih ⊢
      rw [spelled_cons, ih]
      by_cases hslash : c = '/'
      · subst hslash
        rw [spell_cons_self, spell_append, spell_append]
        rfl
      · rw [spell_cons_of_ne hslash]
        by_cases hdot : c = '.'
        · subst hdot
          rw [spell_cons_of_ne (by decide), spell_cons_self]
          rfl
        · by_cases hhash : c = '#'
          · subst hhash
            rw [spell_cons_self, spell_append]
            rfl
          · rw [spell_cons_of_ne hhash, spell_cons_of_ne hdot, spelledChar, if_neg hslash, if_neg hdot, if_neg hhash]
            rfl

theorem underscored_spell_slash (h : '/' ∉ path) : underscored (spell '_' ['/'] path) = path := spell_spell_singleton h

theorem spell_slash_underscored (h : '_' ∉ path) : spell '_' ['/'] (underscored path) = path := spell_spell_singleton h

end Spelled

/-! ### Places that are read as something else -/

/-- A place that is spelled like a dot. -/
def LikeDot (path : List Char) : Prop :=
  ∃ x y, (x = '/' ∨ x = '#') ∧ (y = '/' ∨ y = '.' ∨ y = '#') ∧ [x, 'd', 'o', 't', y] <:+: path

/-- A place that is spelled like a hash. -/
def LikeHash (path : List Char) : Prop :=
  ∃ y, (y = '/' ∨ y = '#') ∧ ['/', 'h', 'a', 's', 'h', y] <:+: path

/-- A path that is spelled like a base64 text. -/
def LikeBase64 (path : List Char) : Prop := ∃ z, (z = '_' ∨ Special z) ∧ ['b', '6', '4', z] <+: path

section Places

variable {path : List Char}

theorem infix_underscored_iff {u : List Char} (hu : '/' ∉ u) (h : '_' ∉ path) :
    u <:+: underscored path ↔ spell '_' ['/'] u <:+: path := by
  constructor
  · intro hinside
    have hread := hinside.flatMap (spellChar '_' ['/'])
    rwa [← spell, ← spell, spell_slash_underscored h] at hread
  · intro hinside
    have hread := hinside.flatMap (spellChar '/' ['_'])
    rwa [← spell, ← spell, ← underscored, ← underscored, underscored_spell_slash hu] at hread

theorem looksLike_hash_iff (h : '_' ∉ path) : LooksLike hashWord '#' (underscored path) ↔ LikeHash path := by
  constructor
  · rintro ⟨z, rfl | rfl, hinside⟩
    · exact ⟨'/', .inl rfl, (infix_underscored_iff (by decide) h).mp hinside⟩
    · exact ⟨'#', .inr rfl, (infix_underscored_iff (by decide) h).mp hinside⟩
  · rintro ⟨y, rfl | rfl, hinside⟩
    · exact ⟨'_', .inl rfl, (infix_underscored_iff (u := ['_', 'h', 'a', 's', 'h', '_']) (by decide) h).mpr hinside⟩
    · exact ⟨'#', .inr rfl, (infix_underscored_iff (u := ['_', 'h', 'a', 's', 'h', '#']) (by decide) h).mpr hinside⟩

theorem infix_spell_hash_iff {z : Char} (hz : z ≠ '#') {s : List Char} :
    ['_', 'd', 'o', 't', z] <:+: spell '#' hashWord.word s ↔
      ∃ x y, (x = '_' ∨ x = '#') ∧ (y = z ∨ z = '_' ∧ y = '#') ∧ [x, 'd', 'o', 't', y] <:+: s := by
  have hdiff : ∀ rest, ¬['d', 'o', 't'] ++ [z] <+: hashWord.body ++ hashWord.mark :: rest := by
    intro rest h
    exact absurd (List.cons_prefix_cons.mp h).1 (by decide)
  have hdot : '_' ∉ ['d', 'o', 't'] ∧ '#' ∉ ['d', 'o', 't'] := by decide
  exact infix_spell_iff hdot.1 hdot.2 (by decide) hz hdiff

theorem looksLike_dot_iff (h : '_' ∉ path) :
    LooksLike dotWord '.' (spell '#' hashWord.word (underscored path)) ↔ LikeDot path := by
  have hslashed {x y : Char} (hx : x = '_' ∨ x = '#') (hy : y = '_' ∨ y = '.' ∨ y = '#') :
      [x, 'd', 'o', 't', y] <:+: underscored path ↔ spell '_' ['/'] [x, 'd', 'o', 't', y] <:+: path := by
    apply infix_underscored_iff _ h
    rcases hx with rfl | rfl <;> rcases hy with rfl | rfl | rfl <;> decide
  constructor
  · rintro ⟨z, hz, hinside⟩
    have hne : z ≠ '#' := by rcases hz with rfl | rfl <;> decide
    obtain ⟨x, y, hx, hy, hplace⟩ := (infix_spell_hash_iff hne).mp hinside
    have hy' : y = '_' ∨ y = '.' ∨ y = '#' := by
      rcases hy with rfl | ⟨-, rfl⟩
      · exact hz.imp_right .inl
      · exact .inr (.inr rfl)
    have hraw := (hslashed hx hy').mp hplace
    rcases hx with rfl | rfl
    · rcases hy' with rfl | rfl | rfl
      · exact ⟨'/', '/', .inl rfl, .inl rfl, hraw⟩
      · exact ⟨'/', '.', .inl rfl, .inr (.inl rfl), hraw⟩
      · exact ⟨'/', '#', .inl rfl, .inr (.inr rfl), hraw⟩
    · rcases hy' with rfl | rfl | rfl
      · exact ⟨'#', '/', .inr rfl, .inl rfl, hraw⟩
      · exact ⟨'#', '.', .inr rfl, .inr (.inl rfl), hraw⟩
      · exact ⟨'#', '#', .inr rfl, .inr (.inr rfl), hraw⟩
  · rintro ⟨x, y, hx, hy, hinside⟩
    -- The first character and the last, with underscores for slashes.
    obtain ⟨x', hx', hxx'⟩ : ∃ x', (x' = '_' ∨ x' = '#') ∧ spellChar '_' ['/'] x' = [x] := by
      rcases hx with rfl | rfl
      · exact ⟨'_', .inl rfl, rfl⟩
      · exact ⟨'#', .inr rfl, rfl⟩
    obtain ⟨y', z, hz, hy', hyz, hyy'⟩ : ∃ y' z, (z = '_' ∨ z = '.') ∧ (y' = '_' ∨ y' = '.' ∨ y' = '#') ∧
        (y' = z ∨ z = '_' ∧ y' = '#') ∧ spellChar '_' ['/'] y' = [y] := by
      rcases hy with rfl | rfl | rfl
      · exact ⟨'_', '_', .inl rfl, .inl rfl, .inl rfl, rfl⟩
      · exact ⟨'.', '.', .inr rfl, .inr (.inl rfl), .inl rfl, rfl⟩
      · exact ⟨'#', '_', .inl rfl, .inr (.inr rfl), .inr ⟨rfl, rfl⟩, rfl⟩
    have hne : z ≠ '#' := by rcases hz with rfl | rfl <;> decide
    have hspell : spell '_' ['/'] [x', 'd', 'o', 't', y'] = [x, 'd', 'o', 't', y] := by
      show spellChar '_' ['/'] x' ++ ('d' :: 'o' :: 't' :: (spellChar '_' ['/'] y' ++ [])) = _
      rw [hxx', hyy']
      rfl
    exact ⟨z, hz, (infix_spell_hash_iff hne).mpr ⟨x', y', hx', hyz, (hslashed hx' hy').mpr (hspell ▸ hinside)⟩⟩

/-! ### Paths that are spelled out -/

/-- What the decoder's replacements read. -/
def readBack (encoded : List Char) : List Char :=
  spell '_' ['/'] (replaceChars hashWord.word ['#'] 0 (replaceChars dotWord.word ['.'] 0 encoded))

/-- **Which paths the replacements read back.** -/
theorem readBack_spelled_iff : readBack (spelled path) = path ↔ '_' ∉ path ∧ ¬LikeDot path ∧ ¬LikeHash path := by
  have hdot : '.' ∉ spelled path := fun hmem => not_special_of_mem_spelled hmem (.inr (.inl rfl))
  have hhash : '#' ∉ replaceChars dotWord.word ['.'] 0 (spelled path) :=
    not_mem_replace (by decide) hdot fun hmem => not_special_of_mem_spelled hmem (.inr (.inr rfl))
  have hslash : '/' ∉ replaceChars hashWord.word ['#'] 0 (replaceChars dotWord.word ['.'] 0 (spelled path)) :=
    not_mem_replace (by decide) hhash
      (not_mem_replace (by decide) hdot fun hmem => not_special_of_mem_spelled hmem (.inl rfl))
  constructor
  · intro hread
    have hunder : '_' ∉ path := by
      rw [← hread]
      exact self_not_mem_spell (by decide)
    -- From the path back through the three replacements.
    have hhashes : replaceChars hashWord.word ['#'] 0 (replaceChars dotWord.word ['.'] 0 (spelled path)) =
        underscored path := by
      rw [← underscored_spell_slash hslash]
      exact congrArg underscored hread
    have hdots : replaceChars dotWord.word ['.'] 0 (spelled path) = spell '#' hashWord.word (underscored path) := by
      rw [← hhashes, spell_replace hhash]
    have hclearDot : ¬LooksLike dotWord '.' (spell '#' hashWord.word (underscored path)) := by
      rw [← replace_spell_iff (by decide), ← spelled_eq]
      exact hdots
    have hclearHash : ¬LooksLike hashWord '#' (underscored path) := by
      rw [← replace_spell_iff (by decide), ← hdots]
      exact hhashes
    rw [looksLike_dot_iff hunder] at hclearDot
    rw [looksLike_hash_iff hunder] at hclearHash
    exact ⟨hunder, hclearDot, hclearHash⟩
  · rintro ⟨hunder, hclearDot, hclearHash⟩
    rw [← looksLike_dot_iff hunder] at hclearDot
    rw [← looksLike_hash_iff hunder] at hclearHash
    rw [readBack, spelled_eq, replace_spell (by decide) hclearDot, replace_spell (by decide) hclearHash,
      spell_slash_underscored hunder]

end Places

/-! ### What is encoded -/

section Encode

variable {mandatePath : String}

theorem toList_replaceChar (s : String) (c : Char) (r : String) :
    (replaceChar s c r).toList = spell c r.toList s.toList := String.toList_ofList

theorem toList_replacements (mandatePath : String) :
    (replaceChar (replaceChar (replaceChar mandatePath '/' "_") '.' "_dot_") '#' "_hash_").toList =
      spelled mandatePath.toList := by
  rw [toList_replaceChar, toList_replaceChar, toList_replaceChar, spelled_eq]
  exact spell_comm (by decide) (by decide) (by decide)

/-- **The encoded path, character by character.** -/
theorem toList_encodeMandatePath (h : mandatePath ≠ "") :
    (encodeMandatePath mandatePath).toList =
      if 1000 < spelledLength mandatePath then ['b', '6', '4', '_'] ++ urlsafeB64 (Base64.utf8 mandatePath)
      else spelled mandatePath.toList := by
  have hlength : (spelled mandatePath.toList).length = spelledLength mandatePath := length_spelled mandatePath.toList
  simp only [encodeMandatePath, if_neg h, toList_replacements, hlength]
  split
  · rw [String.toList_append, Base64.toList_byteArray]
    exact congrArg (['b', '6', '4', '_'] ++ ·) String.toList_ofList
  · exact toList_replacements mandatePath

theorem toList_decode_plain {encoded : String} (hempty : encoded ≠ "") (hunknown : encoded ≠ "unknown")
    (h : startsWith encoded "b64_" = false) : (decodeMandatePath encoded).toList = readBack encoded.toList := by
  have hreplace (s old new : String) : (replace s old new).toList = replaceChars old.toList new.toList 0 s.toList :=
    String.toList_ofList
  rw [decodeMandatePath, if_neg (not_or.mpr ⟨hempty, hunknown⟩), h, if_neg Bool.false_ne_true, toList_replaceChar,
    hreplace, hreplace]
  rfl

theorem startsWith_b64_iff {encoded : String} :
    startsWith encoded "b64_" = true ↔ ['b', '6', '4', '_'] <+: encoded.toList := List.isPrefixOf_iff_prefix

end Encode

/-! ### Long paths -/

section Long

theorem value?_b64Char {n : ℕ} (h : n < 64) : Base64.value? (b64Char n) = some n := by
  have hall : ∀ n : Fin 64, Base64.value? (b64Char n) = some n.val := by decide +kernel
  exact hall ⟨n, h⟩

/-- The letters of the alphabet are ASCII characters that are not spelled out. -/
theorem b64Char_plain (n : ℕ) : (b64Char n).toNat < 128 ∧ ¬Special (b64Char n) := by
  have hall : ∀ n : Fin 64, (b64Char n).toNat < 128 ∧ ¬Special (b64Char n) := by decide +kernel
  by_cases h : n < 64
  · exact hall ⟨n, h⟩
  · have hlast : b64Char n = '_' := by
      rw [b64Char, if_neg (by omega), if_neg (by omega), if_neg (by omega), if_neg (by omega)]
    rw [hlast]
    decide

theorem mem_urlsafeB64 {bytes : List ℕ} {c : Char} (h : c ∈ urlsafeB64 bytes) : ∃ n, c = b64Char n := by
  induction bytes using urlsafeB64.induct with
  | case1 => cases h
  | case2 a =>
      rw [urlsafeB64] at h
      rcases List.mem_cons.mp h with rfl | h
      · exact ⟨_, rfl⟩
      · exact ⟨_, List.mem_singleton.mp h⟩
  | case3 a b =>
      rw [urlsafeB64] at h
      rcases List.mem_cons.mp h with rfl | h
      · exact ⟨_, rfl⟩
      · rcases List.mem_cons.mp h with rfl | h
        · exact ⟨_, rfl⟩
        · exact ⟨_, List.mem_singleton.mp h⟩
  | case4 a b d rest ih =>
      rw [urlsafeB64] at h
      rcases List.mem_append.mp h with h | h
      · simp only [List.mem_cons, List.not_mem_nil, or_false] at h
        rcases h with rfl | rfl | rfl | rfl <;> exact ⟨_, rfl⟩
      · exact ih h

theorem b64Padding_append_four {a b : List Char} (h : a.length = 4) : b64Padding (a ++ b) = b64Padding b := by
  have hlength : (a ++ b).length % 4 = b.length % 4 := by
    rw [List.length_append, h]
    omega
  rw [b64Padding, hlength, b64Padding]

/-- **The bytes are read back from their base64 text.** -/
theorem decodeFrom_urlsafeB64 {bytes : List ℕ} (h : ∀ b ∈ bytes, b < 256) :
    Base64.decodeFrom 0 0 0 (urlsafeB64 bytes ++ b64Padding (urlsafeB64 bytes)) = some bytes := by
  induction bytes using urlsafeB64.induct with
  | case1 => rfl
  | case2 a =>
      have ha : a < 256 := h a List.mem_cons_self
      show Base64.decodeFrom 0 0 0 (b64Char (a / 4) :: b64Char (a % 4 * 16) :: ['=', '=']) = _
      rw [Base64.decodeFrom_letter (value?_b64Char (by omega)), Base64.decodeFrom_letter (value?_b64Char (by omega))]
      show some [a / 4 * 4 + a % 4 * 16 / 16] = some [a]
      congr 2
      omega
  | case3 a b =>
      have ha : a < 256 := h a List.mem_cons_self
      have hb : b < 256 := h b (by simp)
      show Base64.decodeFrom 0 0 0
        (b64Char (a / 4) :: b64Char (a % 4 * 16 + b / 16) :: b64Char (b % 16 * 4) :: ['=']) = _
      rw [Base64.decodeFrom_letter (value?_b64Char (by omega)), Base64.decodeFrom_letter (value?_b64Char (by omega)),
        Base64.decodeFrom_letter (value?_b64Char (by omega))]
      show some [a / 4 * 4 + (a % 4 * 16 + b / 16) / 16, (a % 4 * 16 + b / 16) % 16 * 16 + b % 16 * 4 / 4] = some [a, b]
      congr 2
      · omega
      · congr 1
        omega
  | case4 a b c rest ih =>
      have ha : a < 256 := h a List.mem_cons_self
      have hb : b < 256 := h b (by simp)
      have hc : c < 256 := h c (by simp)
      have hrest : ∀ x ∈ rest, x < 256 := fun x hx => h x (by simp [hx])
      have hread := ih hrest
      rw [urlsafeB64, b64Padding_append_four rfl, List.append_assoc]
      show Base64.decodeFrom 0 0 0 (b64Char (a / 4) :: b64Char (a % 4 * 16 + b / 16) ::
        b64Char (b % 16 * 4 + c / 64) :: b64Char (c % 64) ::
          (urlsafeB64 rest ++ b64Padding (urlsafeB64 rest))) = _
      rw [Base64.decodeFrom_letter (value?_b64Char (by omega)), Base64.decodeFrom_letter (value?_b64Char (by omega)),
        Base64.decodeFrom_letter (value?_b64Char (by omega)), Base64.decodeFrom_letter (value?_b64Char (by omega))]
      simp only [Base64.carry, Base64.emit, hread, Option.map_some, List.nil_append, List.singleton_append,
        Option.some.injEq, List.cons.injEq, and_true]
      omega

/-- **The path is read back from its base64 text.** -/
theorem decode?_urlsafeB64 (mandatePath : String) :
    Base64.decode? (urlsafeB64 (Base64.utf8 mandatePath) ++ b64Padding (urlsafeB64 (Base64.utf8 mandatePath))) =
      some mandatePath := by
  have hascii : ((urlsafeB64 (Base64.utf8 mandatePath) ++ b64Padding (urlsafeB64 (Base64.utf8 mandatePath))).all
      fun c => c.toNat < 128) = true := by
    rw [List.all_eq_true]
    intro c hc
    rcases List.mem_append.mp hc with hc | hc
    · obtain ⟨n, rfl⟩ := mem_urlsafeB64 hc
      exact decide_eq_true (b64Char_plain n).1
    · rw [b64Padding] at hc
      split at hc
      · rw [List.eq_of_mem_replicate hc]
        decide
      · cases hc
  rw [Base64.decode?, if_pos hascii, decodeFrom_urlsafeB64 (Base64.utf8_lt mandatePath)]
  exact Base64.text?_utf8 mandatePath

/-- **A long path is read back.** -/
theorem decode_encode_of_long {mandatePath : String} (h : 1000 < spelledLength mandatePath) :
    decodeMandatePath (encodeMandatePath mandatePath) = mandatePath := by
  have hne : mandatePath ≠ "" := by
    rintro rfl
    exact absurd h (by decide)
  have hencoded := toList_encodeMandatePath hne
  rw [if_pos h] at hencoded
  have hstart : startsWith (encodeMandatePath mandatePath) "b64_" = true :=
    startsWith_b64_iff.mpr ⟨urlsafeB64 (Base64.utf8 mandatePath), hencoded.symm⟩
  have hplain : ¬(encodeMandatePath mandatePath = "" ∨ encodeMandatePath mandatePath = "unknown") := by
    rintro (heq | heq)
    · rw [heq] at hstart
      exact absurd hstart (by decide)
    · rw [heq] at hstart
      exact absurd hstart (by decide)
  have hdrop : (encodeMandatePath mandatePath).toList.drop 4 = urlsafeB64 (Base64.utf8 mandatePath) := by
    rw [hencoded]
    rfl
  rw [decodeMandatePath, if_neg hplain, if_pos hstart]
  simp only [hdrop, decode?_urlsafeB64]

end Long

/-! ### Paths that are spelled like a base64 text -/

section Lookalikes

variable {path : List Char} {quad left pads : ℕ} {s : List Char} {bytes : List ℕ}

theorem b64Padding_eq (b64Part : List Char) : ∃ n, b64Padding b64Part = List.replicate n '=' := by
  rw [b64Padding]
  split
  · exact ⟨_, rfl⟩
  · exact ⟨0, rfl⟩

/-- A byte that is no ASCII code. -/
def HasHighByte (bytes : List ℕ) : Prop := ∃ b ∈ bytes, 128 ≤ b ∧ b < 256

theorem hasHighByte_of_dotWord (h : Base64.decodeFrom quad left pads ('_' :: 'd' :: 'o' :: 't' :: s) = some bytes) :
    HasHighByte bytes := by
  rw [Base64.decodeFrom_letter (v := 63) (by decide), Base64.decodeFrom_letter (v := 29) (by decide),
    Base64.decodeFrom_letter (v := 40) (by decide), Base64.decodeFrom_letter (v := 45) (by decide)] at h
  simp only [Option.map_eq_some_iff] at h
  obtain ⟨-, ⟨-, ⟨-, ⟨rest, -, rfl⟩, rfl⟩, rfl⟩, rfl⟩ := h
  match quad with
  | 0 => exact ⟨253, by simp [Base64.emit, Base64.carry], by decide⟩
  | 1 => exact ⟨247, by simp [Base64.emit, Base64.carry], by decide⟩
  | 2 => exact ⟨221, by simp [Base64.emit, Base64.carry], by decide⟩
  | _ + 3 => exact ⟨139, by simp [Base64.emit, Base64.carry], by decide⟩

theorem hasHighByte_of_hashWord (h : Base64.decodeFrom quad left pads ('_' :: 'h' :: 'a' :: s) = some bytes) :
    HasHighByte bytes := by
  rw [Base64.decodeFrom_letter (v := 63) (by decide), Base64.decodeFrom_letter (v := 33) (by decide),
    Base64.decodeFrom_letter (v := 26) (by decide)] at h
  simp only [Option.map_eq_some_iff] at h
  obtain ⟨-, ⟨-, ⟨rest, -, rfl⟩, rfl⟩, rfl⟩ := h
  match quad with
  | 0 => exact ⟨254, by simp [Base64.emit, Base64.carry], by decide⟩
  | 1 => exact ⟨248, by simp [Base64.emit, Base64.carry], by decide⟩
  | 2 => exact ⟨225, by simp [Base64.emit, Base64.carry], by decide⟩
  | _ + 3 => exact ⟨133, by simp [Base64.emit, Base64.carry], by decide⟩

/-- **A path that is spelled out is no base64 text of as many ASCII characters.** -/
theorem hasHighByte_or_length_le {n : ℕ}
    (h : Base64.decodeFrom quad left pads (spelled path ++ List.replicate n '=') = some bytes) :
    HasHighByte bytes ∨ bytes.length ≤ path.length := by
  induction path generalizing quad left pads bytes with
  | nil =>
      rw [Base64.decodeFrom_replicate h]
      exact .inr (Nat.le_refl 0)
  | cons c path ih =>
      -- A character that stands for itself, or a slash, is one letter at most.
      have hone {d : Char} (hd : spelledChar c = [d]) : HasHighByte bytes ∨ bytes.length ≤ (c :: path).length := by
        rw [spelled_cons, hd] at h
        rcases Base64.decodeFrom_cons h with rfl | ⟨quad', left', pads', rest, hrest, hmem, hlength⟩
        · exact .inr (Nat.zero_le _)
        · rcases ih hrest with ⟨b, hb, hhigh⟩ | hle
          · exact .inl ⟨b, hmem b hb, hhigh⟩
          · rw [List.length_cons]
            exact .inr (by omega)
      by_cases hdot : c = '.'
      · subst hdot
        exact .inl (hasHighByte_of_dotWord h)
      · by_cases hhash : c = '#'
        · subst hhash
          exact .inl (hasHighByte_of_hashWord h)
        · by_cases hslash : c = '/'
          · subst hslash
            exact hone rfl
          · exact hone (spelledChar_of_not_special (by rw [Special]; tauto))

/-- A text of characters that stand for themselves is found where it stands. -/
theorem append_prefix_spelled_iff {u t : List Char} (hu : ∀ x ∈ u, x ≠ '_' ∧ ¬Special x) :
    u ++ t <+: spelled path ↔ ∃ rest, path = u ++ rest ∧ t <+: spelled rest := by
  induction u generalizing path with
  | nil =>
      constructor
      · intro h
        exact ⟨path, rfl, h⟩
      · rintro ⟨rest, rfl, h⟩
        exact h
  | cons x u ih =>
      obtain ⟨hx, hspecial⟩ := hu x List.mem_cons_self
      have hstep (path : List Char) : u ++ t <+: spelled path ↔ ∃ rest, path = u ++ rest ∧ t <+: spelled rest :=
        ih fun y hy => hu y (List.mem_cons_of_mem x hy)
      constructor
      · intro h
        cases path with
        | nil => cases List.prefix_nil.mp h
        | cons c path =>
            by_cases hc : Special c
            · have hhead : ∃ rest, spelledChar c = '_' :: rest := by
                rcases hc with rfl | rfl | rfl <;> exact ⟨_, rfl⟩
              obtain ⟨rest, hrest⟩ := hhead
              rw [spelled_cons, hrest] at h
              exact absurd (List.cons_prefix_cons.mp h).1 hx
            · rw [spelled_cons, spelledChar_of_not_special hc] at h
              obtain ⟨rfl, htail⟩ := List.cons_prefix_cons.mp h
              obtain ⟨rest, rfl, ht⟩ := (hstep path).mp htail
              exact ⟨rest, rfl, ht⟩
      · rintro ⟨rest, rfl, ht⟩
        rw [List.cons_append, List.cons_append, spelled_cons, spelledChar_of_not_special hspecial]
        exact List.cons_prefix_cons.mpr ⟨rfl, (hstep (u ++ rest)).mpr ⟨rest, rfl, ht⟩⟩

theorem mark_prefix_spelled_iff : ['_'] <+: spelled path ↔ ∃ z, (z = '_' ∨ Special z) ∧ [z] <+: path := by
  cases path with
  | nil =>
      refine iff_of_false (fun h => ?_) ?_
      · cases List.prefix_nil.mp h
      · rintro ⟨z, -, h⟩
        cases List.prefix_nil.mp h
  | cons c path =>
      have hcons : (∃ z, (z = '_' ∨ Special z) ∧ [z] <+: c :: path) ↔ c = '_' ∨ Special c := by
        constructor
        · rintro ⟨z, hz, h⟩
          exact (List.cons_prefix_cons.mp h).1 ▸ hz
        · intro hc
          exact ⟨c, hc, path, rfl⟩
      rw [hcons]
      by_cases hc : Special c
      · refine iff_of_true ?_ (.inr hc)
        rcases hc with rfl | rfl | rfl <;> exact ⟨_, rfl⟩
      · rw [spelled_cons, spelledChar_of_not_special hc, List.singleton_append, List.cons_prefix_cons]
        exact ⟨fun h => .inl h.1.symm, fun h => ⟨(h.resolve_right hc).symm, List.nil_prefix⟩⟩

/-- Which paths are spelled with the prefix of a base64 text. -/
theorem b64_prefix_spelled_iff : ['b', '6', '4', '_'] <+: spelled path ↔ LikeBase64 path := by
  show ['b', '6', '4'] ++ ['_'] <+: spelled path ↔ _
  rw [append_prefix_spelled_iff (by simp [Special])]
  constructor
  · rintro ⟨rest, rfl, h⟩
    obtain ⟨z, hz, hbegins⟩ := mark_prefix_spelled_iff.mp h
    exact ⟨z, hz, List.prefix_append_right_inj ['b', '6', '4'] |>.mpr hbegins⟩
  · rintro ⟨z, hz, rest, rfl⟩
    exact ⟨z :: rest, rfl, mark_prefix_spelled_iff.mpr ⟨z, hz, rest, rfl⟩⟩

/-- A path that is spelled like a base64 text of ASCII characters is one of ASCII characters. -/
theorem ascii_of_spelled {rest : List Char} (hrest : ['b', '6', '4', '_'] ++ rest = spelled path)
    (hall : ∀ c ∈ rest, c.toNat < 128) : ∀ c ∈ path, c.toNat < 128 := by
  intro c hc
  by_cases hspecial : Special c
  · rcases hspecial with rfl | rfl | rfl <;> decide
  · have hmem : c ∈ spelled path := by
      refine List.mem_flatMap.mpr ⟨c, hc, ?_⟩
      rw [spelledChar_of_not_special hspecial]
      exact List.mem_singleton_self c
    rw [← hrest] at hmem
    rcases List.mem_append.mp hmem with hmem | hmem
    · exact (show ∀ x ∈ ['b', '6', '4', '_'], x.toNat < 128 by simp) c hmem
    · exact hall c hmem

/-- The bytes of a text of ASCII characters are their codes. -/
theorem bytes_of_ascii {text : String} {bytes : List ℕ} (hascii : ∀ c ∈ text.toList, c.toNat < 128)
    (htext : Base64.text? bytes = some text) : ¬HasHighByte bytes ∧ bytes.length = text.toList.length := by
  have hcodes : text.toList.map Char.toNat = bytes.map fun b => b % 256 := by
    rw [← Base64.utf8_of_ascii hascii, Base64.utf8_of_text? htext]
  constructor
  · rintro ⟨b, hb, hhigh, hlt⟩
    have hcode : b ∈ text.toList.map Char.toNat := by
      rw [hcodes]
      exact List.mem_map.mpr ⟨b, hb, Nat.mod_eq_of_lt hlt⟩
    obtain ⟨c, hc, rfl⟩ := List.mem_map.mp hcode
    have hc128 := hascii c hc
    omega
  · have hlengths := congrArg List.length hcodes
    rw [List.length_map, List.length_map] at hlengths
    exact hlengths.symm

/-- What follows the prefix is spelled out, or the rest of a word and what is spelled out; its bytes are not those of the
path. -/
theorem hasHighByte_or_length_lt (h : LikeBase64 path) {n : ℕ} {bytes : List ℕ}
    (hbytes : Base64.decodeFrom 0 0 0 ((spelled path).drop 4 ++ List.replicate n '=') = some bytes) :
    HasHighByte bytes ∨ bytes.length < path.length := by
  obtain ⟨z, hz, r, rfl⟩ := h
  have hletter (hz1 : spelledChar z = ['_']) :
      HasHighByte bytes ∨ bytes.length < (['b', '6', '4', z] ++ r).length := by
    have hdrop : (spelled (['b', '6', '4', z] ++ r)).drop 4 = spelled r := by
      rw [spelled_append]
      show (['b', '6', '4'] ++ (spelledChar z ++ []) ++ spelled r).drop 4 = _
      rw [hz1]
      rfl
    rw [hdrop] at hbytes
    refine (hasHighByte_or_length_le hbytes).imp_right fun hle => ?_
    rw [List.length_append]
    exact Nat.lt_of_le_of_lt hle (by simp)
  rcases hz with rfl | rfl | rfl | rfl
  · exact hletter rfl
  · exact hletter rfl
  · have hdot : Base64.decodeFrom 0 0 0 ('d' :: 'o' :: 't' :: ('_' :: spelled r ++ List.replicate n '=')) =
        some bytes := hbytes
    rw [Base64.decodeFrom_letter (v := 29) (by decide), Base64.decodeFrom_letter (v := 40) (by decide),
      Base64.decodeFrom_letter (v := 45) (by decide)] at hdot
    simp only [Option.map_eq_some_iff] at hdot
    obtain ⟨-, ⟨-, ⟨bytes', -, rfl⟩, rfl⟩, rfl⟩ := hdot
    exact .inl ⟨139, by simp [Base64.emit, Base64.carry], by decide⟩
  · have hhash : Base64.decodeFrom 0 0 0 ('h' :: 'a' :: ('s' :: 'h' :: '_' :: spelled r ++ List.replicate n '=')) =
        some bytes := hbytes
    rw [Base64.decodeFrom_letter (v := 33) (by decide), Base64.decodeFrom_letter (v := 26) (by decide)] at hhash
    simp only [Option.map_eq_some_iff] at hhash
    obtain ⟨-, ⟨bytes', -, rfl⟩, rfl⟩ := hhash
    exact .inl ⟨133, by simp [Base64.emit, Base64.carry], by decide⟩

/-- **A path that is spelled like a base64 text is not what the text says.** -/
theorem decode?_ne {mandatePath : String} (h : LikeBase64 mandatePath.toList) :
    Base64.decode? ((spelled mandatePath.toList).drop 4 ++ b64Padding ((spelled mandatePath.toList).drop 4)) ≠
      some mandatePath := by
  intro hread
  obtain ⟨rest, hrest⟩ := b64_prefix_spelled_iff.mpr h
  rw [Base64.decode?] at hread
  split at hread
  · next hall =>
    obtain ⟨bytes, hbytes, htext⟩ := Option.bind_eq_some_iff.mp hread
    have hrestAscii : ∀ c ∈ rest, c.toNat < 128 := by
      intro c hc
      rw [← hrest] at hall
      exact of_decide_eq_true (List.all_eq_true.mp hall c (List.mem_append_left _ hc))
    obtain ⟨hlow, hlength⟩ := bytes_of_ascii (ascii_of_spelled hrest hrestAscii) htext
    obtain ⟨n, hpadding⟩ := b64Padding_eq ((spelled mandatePath.toList).drop 4)
    rw [hpadding] at hbytes
    rcases hasHighByte_or_length_lt h hbytes with hhigh | hlt
    · exact hlow hhigh
    · omega
  · cases hread

end Lookalikes

/-! ### Which paths are read back -/

/-- A path that survives its codec: a long one, one that is spelled like a base64 text and read as none, and any other
one without underscores and without the places that are spelled like a dot or a hash. -/
def RoundTrips (mandatePath : String) : Prop :=
  1000 < spelledLength mandatePath ∨
    LikeBase64 mandatePath.toList ∧ (∀ c ∈ mandatePath.toList, ¬Special c) ∧
      Base64.decode? (mandatePath.toList.drop 4 ++ b64Padding (mandatePath.toList.drop 4)) = none ∨
    ¬LikeBase64 mandatePath.toList ∧ '_' ∉ mandatePath.toList ∧ ¬LikeDot mandatePath.toList ∧
      ¬LikeHash mandatePath.toList

section RoundTrip

variable {mandatePath : String}

theorem encode_ne (h : mandatePath ≠ "") (hunknown : mandatePath ≠ "unknown")
    (hshort : ¬1000 < spelledLength mandatePath) :
    encodeMandatePath mandatePath ≠ "" ∧ encodeMandatePath mandatePath ≠ "unknown" := by
  have hencoded := toList_encodeMandatePath h
  rw [if_neg hshort] at hencoded
  constructor
  · intro heq
    rw [heq] at hencoded
    exact h (String.toList_injective (spelled_eq_nil hencoded.symm))
  · intro heq
    rw [heq] at hencoded
    have hbegins : ['u', 'n', 'k', 'n', 'o', 'w', 'n'] ++ [] <+: spelled mandatePath.toList := by
      rw [← hencoded]
      exact List.prefix_refl _
    obtain ⟨rest, hpath, -⟩ := (append_prefix_spelled_iff (by simp [Special])).mp hbegins
    rw [hpath, spelled_append] at hencoded
    have hcancel : ['u', 'n', 'k', 'n', 'o', 'w', 'n'] ++ [] =
        ['u', 'n', 'k', 'n', 'o', 'w', 'n'] ++ spelled rest := hencoded
    have hrest : rest = [] := spelled_eq_nil (List.append_cancel_left hcancel).symm
    rw [hrest] at hpath
    exact hunknown (String.toList_injective hpath)

theorem decode_encode_of_lookalike_iff (h : mandatePath ≠ "") (hunknown : mandatePath ≠ "unknown")
    (hshort : ¬1000 < spelledLength mandatePath) (hlike : LikeBase64 mandatePath.toList) :
    decodeMandatePath (encodeMandatePath mandatePath) = mandatePath ↔
      (∀ c ∈ mandatePath.toList, ¬Special c) ∧
        Base64.decode? (mandatePath.toList.drop 4 ++ b64Padding (mandatePath.toList.drop 4)) = none := by
  have hencoded := toList_encodeMandatePath h
  rw [if_neg hshort] at hencoded
  have hstart : startsWith (encodeMandatePath mandatePath) "b64_" = true := by
    rw [startsWith_b64_iff, hencoded]
    exact b64_prefix_spelled_iff.mpr hlike
  obtain ⟨hempty, hnot⟩ := encode_ne h hunknown hshort
  rw [decodeMandatePath, if_neg (not_or.mpr ⟨hempty, hnot⟩), if_pos hstart]
  simp only [hencoded]
  constructor
  · intro hread
    cases hdecode : Base64.decode? ((spelled mandatePath.toList).drop 4 ++
        b64Padding ((spelled mandatePath.toList).drop 4)) with
    | some text =>
        rw [hdecode] at hread
        exact absurd (hdecode.trans (congrArg some hread)) (decode?_ne hlike)
    | none =>
        rw [hdecode] at hread
        have hsame : spelled mandatePath.toList = mandatePath.toList := by
          rw [← hencoded]
          exact congrArg String.toList hread
        rw [hsame] at hdecode
        exact ⟨fun c hc => not_special_of_mem_spelled (hsame.symm ▸ hc), hdecode⟩
  · rintro ⟨hplain, hnone⟩
    rw [spelled_of_not_special hplain, hnone]
    rw [spelled_of_not_special hplain] at hencoded
    exact String.toList_injective hencoded

theorem decode_encode_of_plain_iff (h : mandatePath ≠ "") (hunknown : mandatePath ≠ "unknown")
    (hshort : ¬1000 < spelledLength mandatePath) (hlike : ¬LikeBase64 mandatePath.toList) :
    decodeMandatePath (encodeMandatePath mandatePath) = mandatePath ↔
      '_' ∉ mandatePath.toList ∧ ¬LikeDot mandatePath.toList ∧ ¬LikeHash mandatePath.toList := by
  have hencoded := toList_encodeMandatePath h
  rw [if_neg hshort] at hencoded
  have hstart : startsWith (encodeMandatePath mandatePath) "b64_" = false := by
    rw [← Bool.not_eq_true, startsWith_b64_iff, hencoded, b64_prefix_spelled_iff]
    exact hlike
  obtain ⟨hempty, hnot⟩ := encode_ne h hunknown hshort
  rw [← String.toList_inj, toList_decode_plain hempty hnot hstart, hencoded]
  exact readBack_spelled_iff

/-- **The paths that `_decode_mandate_path` reads back.** -/
theorem decode_encode_iff (h : mandatePath ≠ "") (hunknown : mandatePath ≠ "unknown") :
    decodeMandatePath (encodeMandatePath mandatePath) = mandatePath ↔ RoundTrips mandatePath := by
  rw [RoundTrips]
  by_cases hlong : 1000 < spelledLength mandatePath
  · exact iff_of_true (decode_encode_of_long hlong) (.inl hlong)
  · by_cases hlike : LikeBase64 mandatePath.toList
    · rw [decode_encode_of_lookalike_iff h hunknown hlong hlike]
      tauto
    · rw [decode_encode_of_plain_iff h hunknown hlong hlike]
      tauto

/-- A path with a dot comes back; its underscores are those of the encoding. -/
theorem decode_encode_mandate :
    encodeMandatePath "clients/u.1/mandates/m1" = "clients_u_dot_1_mandates_m1" ∧
      decodeMandatePath (encodeMandatePath "clients/u.1/mandates/m1") = "clients/u.1/mandates/m1" ∧
      RoundTrips "clients/u.1/mandates/m1" := by
  have hread : decodeMandatePath (encodeMandatePath "clients/u.1/mandates/m1") = "clients/u.1/mandates/m1" := by
    decide +kernel
  exact ⟨by decide +kernel, hread, (decode_encode_iff (by decide) (by decide)).mp hread⟩

/-- A path with an underscore comes back with a slash. -/
theorem underscore_not_read_back : ¬∀ mandatePath, mandatePath ≠ "" → mandatePath ≠ "unknown" →
    decodeMandatePath (encodeMandatePath mandatePath) = mandatePath := by
  intro h
  have hread := h "clients/u1/bo_clients/c1/mandates/m1" (by decide) (by decide)
  exact absurd hread (by decide +kernel)

end RoundTrip

end Pinnokio.ActiveJobs
