import Mathlib.Logic.Relation
import Pinnokio.ActiveJobs.PathCodec

/-!
# The ids of queue documents

A batch is stored under its encoded mandate path, an underscore and its key.  The encoding does not keep paths apart
that differ in how a slash, a dot or a hash is written, and neither the encoded path nor the key is without underscores,
so that the underscore between them can be read at several places.

* `spelled_eq_iff_alike` — the paths that are spelled out alike;
* `docId_eq_iff` — which batches have the same document id;
* `docId_separates_iff` — **which batches are kept apart**.
-/

namespace Pinnokio.ActiveJobs

open Pinnokio.Text

/-! ### Paths that are spelled alike -/

/-- A slash, a dot or a hash written as a word. -/
inductive Respelled : List Char → List Char → Prop
  | slash (a b : List Char) : Respelled (a ++ '/' :: b) (a ++ '_' :: b)
  | dot (a b : List Char) : Respelled (a ++ '.' :: b) (a ++ (['_', 'd', 'o', 't', '_'] ++ b))
  | hash (a b : List Char) : Respelled (a ++ '#' :: b) (a ++ (['_', 'h', 'a', 's', 'h', '_'] ++ b))

/-- Two paths that differ in how their slashes, dots and hashes are written. -/
def Alike (path path' : List Char) : Prop := Relation.EqvGen Respelled path path'

section Alike

variable {path path' : List Char}

theorem spelled_eq_of_respelled (h : Respelled path path') : spelled path = spelled path' := by
  cases h with
  | slash a b =>
      rw [spelled_append, spelled_append]
      rfl
  | dot a b =>
      rw [spelled_append, spelled_append]
      rfl
  | hash a b =>
      rw [spelled_append, spelled_append]
      rfl

theorem spelled_eq_of_alike (h : Alike path path') : spelled path = spelled path' := by
  induction h with
  | rel path path' hstep => exact spelled_eq_of_respelled hstep
  | refl path => rfl
  | symm path path' _ ih => exact ih.symm
  | trans path middle path' _ _ ih ih' => exact ih.trans ih'

/-- One character is spelled out where it stands. -/
theorem alike_spelledChar (a b : List Char) (c : Char) : Alike (a ++ c :: b) (a ++ (spelledChar c ++ b)) := by
  by_cases hspecial : Special c
  · rcases hspecial with rfl | rfl | rfl
    · exact .rel _ _ (Respelled.slash a b)
    · exact .rel _ _ (Respelled.dot a b)
    · exact .rel _ _ (Respelled.hash a b)
  · rw [spelledChar_of_not_special hspecial]
    exact .refl _

theorem alike_spelled (a path : List Char) : Alike (a ++ path) (a ++ spelled path) := by
  induction path generalizing a with
  | nil => exact .refl _
  | cons c path ih =>
      have hrest : Alike (a ++ spelledChar c ++ path) (a ++ spelledChar c ++ spelled path) := ih (a ++ spelledChar c)
      rw [List.append_assoc, List.append_assoc] at hrest
      exact .trans _ _ _ (alike_spelledChar a path c) hrest

/-- **Which paths are spelled out alike.** -/
theorem spelled_eq_iff_alike : spelled path = spelled path' ↔ Alike path path' := by
  refine ⟨fun h => ?_, spelled_eq_of_alike⟩
  have hright : Alike path' (spelled path) := h ▸ alike_spelled [] path'
  exact .trans _ _ _ (alike_spelled [] path) (.symm _ _ hright)

end Alike

/-! ### Document ids -/

/-- What stands for a mandate path before it is spelled out: a word for the empty one, the base64 text of a long one. -/
def segment (mandatePath : String) : List Char :=
  if mandatePath = "" then ['u', 'n', 'k', 'n', 'o', 'w', 'n']
  else if 1000 < spelledLength mandatePath then ['b', '6', '4', '_'] ++ urlsafeB64 (Base64.utf8 mandatePath)
  else mandatePath.toList

/-- Two batches that the document id does not keep apart: one key on two mandates that are spelled alike, or a key
that begins with what the path of the other mandate has more. -/
inductive Clash (mandatePath jobKey mandatePath' jobKey' : String) : Prop
  | mandates (hne : mandatePath ≠ mandatePath') (hkey : jobKey = jobKey')
      (halike : Alike (segment mandatePath) (segment mandatePath'))
  | left (more : List Char) (hplain : ∀ c ∈ more, ¬Special c) (hkey : jobKey.toList = more ++ '_' :: jobKey'.toList)
      (halike : Alike (segment mandatePath') (segment mandatePath ++ '_' :: more))
  | right (more : List Char) (hplain : ∀ c ∈ more, ¬Special c) (hkey : jobKey'.toList = more ++ '_' :: jobKey.toList)
      (halike : Alike (segment mandatePath) (segment mandatePath' ++ '_' :: more))

section DocId

variable {mandatePath jobKey mandatePath' jobKey' : String}

theorem toList_encode_eq_spelled (mandatePath : String) :
    (encodeMandatePath mandatePath).toList = spelled (segment mandatePath) := by
  by_cases hempty : mandatePath = ""
  · subst hempty
    decide
  · rw [toList_encodeMandatePath hempty, segment, if_neg hempty]
    split
    · have hplain : ∀ c ∈ ['b', '6', '4', '_'] ++ urlsafeB64 (Base64.utf8 mandatePath), ¬Special c := by
        intro c hc
        rcases List.mem_append.mp hc with hc | hc
        · exact (show ∀ x ∈ ['b', '6', '4', '_'], ¬Special x by simp [Special]) c hc
        · obtain ⟨n, rfl⟩ := mem_urlsafeB64 hc
          exact (b64Char_plain n).2
      exact (spelled_of_not_special hplain).symm
    · rfl

theorem toList_docId (mandatePath jobKey : String) :
    (docId mandatePath jobKey).toList = spelled (segment mandatePath) ++ '_' :: jobKey.toList := by
  rw [docId, String.toList_append, String.toList_append, toList_encode_eq_spelled, List.append_assoc]
  rfl

/-- What an encoded path has more than another one. -/
theorem spelled_eq_append_iff {path path' more : List Char} :
    spelled path' = spelled path ++ '_' :: more ↔ (∀ c ∈ more, ¬Special c) ∧ Alike path' (path ++ '_' :: more) := by
  have hspelled (hplain : ∀ c ∈ more, ¬Special c) : spelled (path ++ '_' :: more) = spelled path ++ '_' :: more := by
    rw [spelled_append, spelled_cons, spelled_of_not_special hplain]
    rfl
  constructor
  · intro h
    have hplain : ∀ c ∈ more, ¬Special c := by
      intro c hc
      have hmem : c ∈ spelled path' := by
        rw [h]
        exact List.mem_append_right _ (List.mem_cons_of_mem _ hc)
      exact not_special_of_mem_spelled hmem
    exact ⟨hplain, spelled_eq_iff_alike.mp (h.trans (hspelled hplain).symm)⟩
  · rintro ⟨hplain, halike⟩
    exact (spelled_eq_iff_alike.mpr halike).trans (hspelled hplain)

/-- **Which batches have the same document id.** -/
theorem docId_eq_iff : docId mandatePath jobKey = docId mandatePath' jobKey' ↔
    mandatePath = mandatePath' ∧ jobKey = jobKey' ∨ Clash mandatePath jobKey mandatePath' jobKey' := by
  rw [← String.toList_inj, toList_docId, toList_docId]
  constructor
  · intro h
    rcases List.append_eq_append_iff.mp h with ⟨more, hpath, hkey⟩ | ⟨more, hpath, hkey⟩
    · cases more with
      | nil =>
          have hsame : jobKey = jobKey' := String.toList_injective (List.cons.inj hkey).2
          by_cases hne : mandatePath = mandatePath'
          · exact .inl ⟨hne, hsame⟩
          · rw [List.append_nil] at hpath
            exact .inr (.mandates hne hsame (spelled_eq_iff_alike.mp hpath.symm))
      | cons c more =>
          obtain ⟨rfl, hrest⟩ := List.cons.inj hkey
          obtain ⟨hplain, halike⟩ := spelled_eq_append_iff.mp hpath
          exact .inr (.left more hplain hrest halike)
    · cases more with
      | nil =>
          have hsame : jobKey = jobKey' := String.toList_injective (List.cons.inj hkey).2.symm
          by_cases hne : mandatePath = mandatePath'
          · exact .inl ⟨hne, hsame⟩
          · rw [List.append_nil] at hpath
            exact .inr (.mandates hne hsame (spelled_eq_iff_alike.mp hpath))
      | cons c more =>
          obtain ⟨rfl, hrest⟩ := List.cons.inj hkey
          obtain ⟨hplain, halike⟩ := spelled_eq_append_iff.mp hpath
          exact .inr (.right more hplain hrest halike)
  · rintro (⟨rfl, rfl⟩ | hclash)
    · rfl
    · cases hclash with
      | mandates hne hkey halike => rw [hkey, spelled_eq_iff_alike.mpr halike]
      | left more hplain hkey halike =>
          rw [hkey, spelled_eq_append_iff.mpr ⟨hplain, halike⟩, List.append_assoc]
          rfl
      | right more hplain hkey halike =>
          rw [hkey, spelled_eq_append_iff.mpr ⟨hplain, halike⟩, List.append_assoc]
          rfl

/-- Two batches that clash are two. -/
theorem Clash.ne (h : Clash mandatePath jobKey mandatePath' jobKey') :
    ¬(mandatePath = mandatePath' ∧ jobKey = jobKey') := by
  rintro ⟨rfl, rfl⟩
  cases h with
  | mandates hne => exact hne rfl
  | left more _ hkey | right more _ hkey =>
      have hlength := congrArg List.length hkey
      rw [List.length_append, List.length_cons] at hlength
      omega

/-- **The batches that the document id keeps apart.** -/
theorem docId_separates_iff (mandatePath jobKey mandatePath' jobKey' : String) :
    (docId mandatePath jobKey = docId mandatePath' jobKey' → mandatePath = mandatePath' ∧ jobKey = jobKey') ↔
      ¬Clash mandatePath jobKey mandatePath' jobKey' := by
  rw [docId_eq_iff]
  constructor
  · intro h hclash
    exact hclash.ne (h (.inr hclash))
  · rintro hclear (hsame | hclash)
    · exact hsame
    · exact absurd hclash hclear

/-- Two mandates share the document of a batch. -/
theorem document_shared : ¬∀ mandatePath jobKey mandatePath' jobKey' : String,
    mandatePath ≠ "" → jobKey ≠ "" → mandatePath' ≠ "" → jobKey' ≠ "" →
      docId mandatePath jobKey = docId mandatePath' jobKey' → mandatePath = mandatePath' ∧ jobKey = jobKey' := by
  intro h
  have hleft : docId "clients/u1/mandates/m1" "bank_batch_1" = "clients_u1_mandates_m1_bank_batch_1" := by
    decide +kernel
  have hright : docId "clients/u1/mandates/m1_bank" "batch_1" = "clients_u1_mandates_m1_bank_batch_1" := by
    decide +kernel
  have hsame := h "clients/u1/mandates/m1" "bank_batch_1" "clients/u1/mandates/m1_bank" "batch_1" (by decide)
    (by decide) (by decide) (by decide) (hleft.trans hright.symm)
  exact absurd hsame.2 (by decide)

end DocId

end Pinnokio.ActiveJobs
