import Mathlib.Data.List.Basic
import Mathlib.Tactic.Common

/-!
# Reading base64 texts leniently

`base64.urlsafe_b64decode` takes a text of ASCII characters, reads the letters of the standard and of the URL-safe
alphabet, six bits each, and passes over everything else.  A padding character counts from the third letter of a group
of four on, and reading ends where the padding fills the group; a text that ends within a group is refused.  The
bytes are then read as UTF-8.

* `decodeFrom_letter` — what a letter does;
* `length_emit_le` — no letter makes more than one byte;
* `utf8_of_ascii`, `utf8_of_text?` — the bytes of the text that is read.
-/

namespace Pinnokio.Base64

/-! ### Letters -/

/-- The value of a letter. -/
def value? (c : Char) : Option ℕ :=
  if 'A' ≤ c ∧ c ≤ 'Z' then some (c.toNat - 65)
  else if 'a' ≤ c ∧ c ≤ 'z' then some (c.toNat - 97 + 26)
  else if '0' ≤ c ∧ c ≤ '9' then some (c.toNat - 48 + 52)
  else if c = '+' ∨ c = '-' then some 62
  else if c = '/' ∨ c = '_' then some 63
  else none

/-- The byte that is complete with a letter; `quad` is the place of the letter in its group, `left` what is left of
the letter before. -/
def emit (quad left v : ℕ) : List ℕ :=
  match quad with
  | 0 => []
  | 1 => [left * 4 + v / 16]
  | 2 => [left * 16 + v / 4]
  | _ => [left * 64 + v]

/-- The place of the next letter, and what is left of this one. -/
def carry (quad v : ℕ) : ℕ × ℕ :=
  match quad with
  | 0 => (1, v)
  | 1 => (2, v % 16)
  | 2 => (3, v % 4)
  | _ => (0, 0)

/-- `binascii.a2b_base64`, from a place within a group on; `none` is the error of a group that is not complete. -/
def decodeFrom (quad left pads : ℕ) : List Char → Option (List ℕ)
  | [] => if quad = 0 then some [] else none
  | c :: cs =>
      if c = '=' then
        if quad < 2 then decodeFrom quad left pads cs
        else if 4 ≤ quad + (pads + 1) then some []
        else decodeFrom quad left (pads + 1) cs
      else
        match value? c with
        | none => decodeFrom quad left pads cs
        | some v => (decodeFrom (carry quad v).1 (carry quad v).2 0 cs).map fun bytes => emit quad left v ++ bytes

/-- `bytes.decode("utf-8")`. -/
def text? (bytes : List ℕ) : Option String := String.fromUTF8? ⟨(bytes.map UInt8.ofNat).toArray⟩

/-- `s.encode("utf-8")`. -/
def utf8 (s : String) : List ℕ := s.toUTF8.data.toList.map UInt8.toNat

/-- `base64.urlsafe_b64decode(s).decode("utf-8")`; `none` stands for the exceptions. -/
def decode? (s : List Char) : Option String :=
  if s.all fun c => c.toNat < 128 then (decodeFrom 0 0 0 s).bind text? else none

example : decode? "Y2xpZW50cw==".toList = some "clients" := by decide +kernel

/-! ### What is read -/

section Read

variable {quad left pads v : ℕ} {c : Char} {s : List Char} {bytes : List ℕ}

theorem decodeFrom_letter (h : value? c = some v) :
    decodeFrom quad left pads (c :: s) =
      (decodeFrom (carry quad v).1 (carry quad v).2 0 s).map fun bytes => emit quad left v ++ bytes := by
  have hpad : c ≠ '=' := by
    rintro rfl
    cases h
  rw [decodeFrom, if_neg hpad, h]

theorem length_emit_le (quad left v : ℕ) : (emit quad left v).length ≤ 1 := by
  unfold emit
  split
  · exact Nat.zero_le 1
  · exact Nat.le_refl 1
  · exact Nat.le_refl 1
  · exact Nat.le_refl 1

/-- Padding makes no byte. -/
theorem decodeFrom_replicate {n : ℕ} (h : decodeFrom quad left pads (List.replicate n '=') = some bytes) :
    bytes = [] := by
  induction n generalizing pads with
  | zero =>
      rw [List.replicate_zero, decodeFrom] at h
      split at h
      · exact (Option.some.inj h).symm
      · cases h
  | succ n ih =>
      rw [List.replicate_succ, decodeFrom, if_pos rfl] at h
      split at h
      · exact ih h
      · split at h
        · exact (Option.some.inj h).symm
        · exact ih h

/-- What a character that is read adds to what follows: nothing at all, or what follows from some place on and at most
one byte before it. -/
theorem decodeFrom_cons (h : decodeFrom quad left pads (c :: s) = some bytes) :
    bytes = [] ∨ ∃ quad' left' pads' rest, decodeFrom quad' left' pads' s = some rest ∧
      (∀ b ∈ rest, b ∈ bytes) ∧ bytes.length ≤ rest.length + 1 := by
  rw [decodeFrom] at h
  split at h
  · split at h
    · exact .inr ⟨quad, left, pads, bytes, h, fun b hb => hb, by omega⟩
    · split at h
      · exact .inl (Option.some.inj h).symm
      · exact .inr ⟨quad, left, pads + 1, bytes, h, fun b hb => hb, by omega⟩
  · split at h
    · exact .inr ⟨quad, left, pads, bytes, h, fun b hb => hb, by omega⟩
    · next v _ =>
      obtain ⟨rest, hrest, rfl⟩ := Option.map_eq_some_iff.mp h
      have hemit := length_emit_le quad left v
      refine .inr ⟨_, _, 0, rest, hrest, fun b hb => List.mem_append_right _ hb, ?_⟩
      rw [List.length_append]
      omega

end Read

/-! ### Bytes and texts -/

/-- The bytes of a text that is read are those that were decoded. -/
theorem utf8_of_text? {bytes : List ℕ} {s : String} (h : text? bytes = some s) :
    utf8 s = bytes.map fun b => b % 256 := by
  rw [text?, String.fromUTF8?] at h
  split at h
  · rw [← Option.some.inj h]
    show ((bytes.map UInt8.ofNat).toArray.toList).map UInt8.toNat = _
    rw [List.toList_toArray, List.map_map]
    exact List.map_congr_left fun b _ => UInt8.toNat_ofNat'
  · cases h

theorem toList_byteArray (b : ByteArray) : b.toList = b.data.toList := by
  have hloop : ∀ n i r, b.size - i = n → ByteArray.toList.loop b i r = r.reverse ++ b.data.toList.drop i := by
    intro n
    induction n with
    | zero =>
        intro i r hn
        have hend : b.data.toList.length ≤ i := by
          show b.size ≤ i
          omega
        rw [ByteArray.toList.loop, if_neg (by omega), List.drop_eq_nil_of_le hend, List.append_nil]
    | succ n ih =>
        intro i r hn
        have hi : i < b.size := by omega
        have hlength : i < b.data.toList.length := hi
        have hbyte : b.get! i = b.data.toList[i] := by
          show b.data[i]! = _
          rw [getElem!_pos b.data i hi]
          rfl
        rw [ByteArray.toList.loop, if_pos hi, ih (i + 1) _ (by omega), List.reverse_cons, List.append_assoc, hbyte,
          List.singleton_append, ← List.drop_eq_getElem_cons hlength]
  exact hloop b.size 0 [] rfl

/-- A text is read back from its bytes. -/
theorem text?_utf8 (s : String) : text? (utf8 s) = some s := by
  have hbytes : ((utf8 s).map UInt8.ofNat) = s.toUTF8.data.toList := by
    rw [utf8, List.map_map]
    conv_rhs => rw [← List.map_id s.toUTF8.data.toList]
    exact List.map_congr_left fun b _ => UInt8.ofNat_toNat
  have harray : (⟨((utf8 s).map UInt8.ofNat).toArray⟩ : ByteArray) = s.toUTF8 := by
    rw [hbytes, Array.toArray_toList]
  have hvalid : s.toUTF8.IsValidUTF8 := s.isValidUTF8
  rw [text?, harray, String.fromUTF8?, dif_pos hvalid]
  rfl

theorem utf8_lt (s : String) : ∀ b ∈ utf8 s, b < 256 := by
  intro b hb
  obtain ⟨byte, -, rfl⟩ := List.mem_map.mp hb
  exact byte.toNat_lt

/-- An ASCII text has the codes of its characters as bytes. -/
theorem utf8_of_ascii {s : String} (h : ∀ c ∈ s.toList, c.toNat < 128) : utf8 s = s.toList.map Char.toNat := by
  have hencode : ∀ cs : List Char, (∀ c ∈ cs, c.toNat < 128) →
      (cs.flatMap String.utf8EncodeChar).map UInt8.toNat = cs.map Char.toNat := by
    intro cs
    induction cs with
    | nil => intro _; rfl
    | cons c cs ih =>
        intro hcs
        have hc : c.toNat < 128 := hcs c List.mem_cons_self
        have hchar : String.utf8EncodeChar c = [UInt8.ofNat c.toNat] := if_pos (by show c.toNat ≤ 127; omega)
        have hbyte : (UInt8.ofNat c.toNat).toNat = c.toNat := by
          rw [UInt8.toNat_ofNat', Nat.mod_eq_of_lt (by omega)]
        rw [List.flatMap_cons, hchar, List.map_append, ih fun d hd => hcs d (List.mem_cons_of_mem c hd)]
        rw [List.map_singleton, hbyte]
        rfl
  have hbytes : s.toUTF8.data.toList = s.toList.flatMap String.utf8EncodeChar := by
    have harray : s.toUTF8 = s.toList.utf8Encode := by
      rw [← String.toByteArray_ofList, String.ofList_toList]
      rfl
    rw [harray, List.utf8Encode, List.toList_data_toByteArray]
  rw [utf8, hbytes, hencode _ h]

end Pinnokio.Base64
