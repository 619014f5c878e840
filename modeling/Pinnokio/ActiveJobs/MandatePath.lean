import Pinnokio.Lib.Text

/-!
# Mandate paths as document-id prefixes

`ActiveJobManager._encode_mandate_path` turns a Firestore path such as `clients/u/mandates/m` into a single
path segment.  Slashes, dots and hashes are spelled out; a result of more than 1000 characters is replaced
by the unpadded URL-safe base64 text of the path's UTF-8 bytes, behind the prefix `b64_`.

The queue addresses every document by this prefix and the batch key (`docId`), so on one mandate the key
can be read back from the id (`docId_injective`).
-/

namespace Pinnokio.ActiveJobs

open Pinnokio.Text

/-- The URL-safe base64 alphabet. -/
def b64Char (n : ℕ) : Char :=
  if n < 26 then Char.ofNat (65 + n)
  else if n < 52 then Char.ofNat (97 + (n - 26))
  else if n < 62 then Char.ofNat (48 + (n - 52))
  else if n = 62 then '-' else '_'

/-- `base64.urlsafe_b64encode(bytes)` without its `=` padding. -/
def urlsafeB64 : List ℕ → List Char
  | [] => []
  | [a] => [b64Char (a / 4), b64Char (a % 4 * 16)]
  | [a, b] => [b64Char (a / 4), b64Char (a % 4 * 16 + b / 16), b64Char (b % 16 * 4)]
  | a :: b :: c :: rest =>
      [b64Char (a / 4), b64Char (a % 4 * 16 + b / 16), b64Char (b % 16 * 4 + c / 64),
        b64Char (c % 64)] ++ urlsafeB64 rest

/-- `_encode_mandate_path`. -/
def encodeMandatePath (mandatePath : String) : String :=
  if mandatePath = "" then "unknown"
  else
    let encoded :=
      replaceChar (replaceChar (replaceChar mandatePath '/' "_") '.' "_dot_") '#' "_hash_"
    if encoded.toList.length > 1000 then
      "b64_" ++ String.ofList (urlsafeB64 (mandatePath.toUTF8.toList.map UInt8.toNat))
    else encoded

/-- Document id of a batch: `f"{encoded_mandate}_{job_key}"`. -/
def docId (mandatePath jobKey : String) : String :=
  encodeMandatePath mandatePath ++ "_" ++ jobKey

example : encodeMandatePath "clients/user123/mandates/mandate456"
    = "clients_user123_mandates_mandate456" := by decide

theorem docId_injective {mandatePath k k' : String} (h : docId mandatePath k = docId mandatePath k') :
    k = k' :=
  append_left_cancel h

end Pinnokio.ActiveJobs
