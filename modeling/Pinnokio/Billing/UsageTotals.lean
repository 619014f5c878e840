import Pinnokio.Billing.ChatExpenses
import Pinnokio.Lib.Numbers
import Pinnokio.Lib.Totals

/-!
# The totals of a usage bucket

The tokens and prices of a job are collected in one bucket: a document for each event, and totals on the bucket itself
that are incremented in the same transaction.  An event that is there already is not counted again.  The values of an
event are what its provider reports, whether or not they are numbers.

* `toInt`, `toFloat` — the conversions, which never raise;
* `uploadTokenUsage_cases` — what one call does: it adds an event and counts it, or changes nothing;
* `exact_upload` — one call keeps the totals exact;
* `recorded_upload`, `upload_of_recorded` — an event that is there stays there, and is not counted again;
* `token_usage_exact` — **the totals are those of the events of the bucket**, and repeating a call changes nothing.
-/

namespace Pinnokio.Billing.UsageTotals

open Pinnokio.Runs Pinnokio.Text

/-! ### Values -/

/-- A value of the interpreter; of a value that is no scalar, its text and its truth value. -/
inductive Val (F : Type) where
  | none
  | bool (b : Bool)
  | int (n : ℤ)
  | float (x : F)
  | str (s : String)
  | other (text : String) (truthy : Bool)

/-- The interpreter's floats: their texts, their truth values, the integer part of those that have one, and the floats
of integers and of texts. -/
structure Floats (F : Type) where
  repr : F → String
  truthy : F → Bool
  trunc : F → Option ℤ
  ofInt : ℤ → Option F
  ofText : String → Option F

/-- What a provider reports. -/
abbrev Data (F : Type) := Dict String (Val F)

section Values

variable {F : Type} (I : Floats F)

/-- `data.get(k)`. -/
def get (data : Data F) (k : String) : Val F := (data.get? k).getD .none

namespace Val

/-- The truth value of a value. -/
def truthy : Val F → Bool
  | none => false
  | bool b => b
  | int n => n ≠ 0
  | float x => I.truthy x
  | str s => s ≠ ""
  | other _ truthy => truthy

/-- `str(v)`. -/
def toStr : Val F → String
  | none => "None"
  | bool true => "True"
  | bool false => "False"
  | int n => toString n
  | float x => I.repr x
  | str s => s
  | other text _ => text

/-- `v or w`. -/
def or (v w : Val F) : Val F := if v.truthy I then v else w

/-- `int(v)`; `none` if it raises. -/
def int? : Val F → Option ℤ
  | none => Option.none
  | bool b => some (if b then 1 else 0)
  | int n => some n
  | float x => I.trunc x
  | str s => Numbers.int? s
  | other _ _ => Option.none

/-- `float(v)`; `none` if it raises. -/
def float? : Val F → Option F
  | none => Option.none
  | bool b => I.ofInt (if b then 1 else 0)
  | int n => I.ofInt n
  | float x => some x
  | str s => I.ofText s
  | other _ _ => Option.none

end Val

/-- `_to_int`. -/
def toInt (v : Val F) : ℤ := ((v.int? I).or ((v.float? I).bind I.trunc)).getD 0

/-- `_to_float`. -/
def toFloat [Zero F] (v : Val F) : F := (v.float? I).getD 0

end Values

/-! ### The documents -/

/-- `clients/{user_id}/token_usage/{job_id}`. -/
structure Bucket (F : Type) where
  userId : String
  jobId : Val F
  projectId : Val F
  function : Val F
  collectionName : Val F
  mandatePath : Val F
  billingKind : Val F
  billingDate : Val F
  lastEntryAt : String
  entriesCount : ℕ
  totalInputTokens : ℤ
  totalOutputTokens : ℤ
  totalTokens : ℤ
  totalBuyPrice : F
  totalSalesPrice : F

/-- The bucket documents and the event documents, by path. -/
structure Db (F : Type) where
  buckets : Dict String (Bucket F)
  entries : Dict String (Data F)

/-- `clients/{user_id}/token_usage/{job_id}`, with the text of the job id. -/
def bucketPath (userId jobId : String) : String := "clients/" ++ userId ++ "/token_usage/" ++ jobId

/-- `{bucket}/entries/{entry_id}`. -/
def entryPath (bucket entryId : String) : String := bucket ++ "/entries/" ++ entryId

section Upload

variable {F : Type} [AddCommMonoid F] (I : Floats F)

/-- The tokens that are counted: those reported, or the sum of both directions if none are. -/
def tokensOf (data : Data F) : ℤ :=
  let inputTokens := toInt I (get data "total_input_tokens")
  let outputTokens := toInt I (get data "total_output_tokens")
  let totalTokens := toInt I (get data "total_tokens")
  if totalTokens ≤ 0 then inputTokens + outputTokens else totalTokens

/-- The bucket after one more event; without a bucket the totals start at zero. -/
def increment (bucket : Option (Bucket F)) (userId : String) (data : Data F) (now : String) : Bucket F :=
  let jobId := get data "job_id"
  let billingDate :=
    match jobId with
    | .str s => chatBillingDate s
    | _ => none
  { userId := userId
    jobId := jobId
    projectId := get data "project_id"
    function := (get data "function").or I (get data "department")
    collectionName := get data "collection_name"
    mandatePath := get data "mandate_path"
    billingKind := if billingDate.isSome then .str "chat_daily" else get data "billing_kind"
    billingDate := (billingDate.map Val.str).getD (get data "billing_date")
    lastEntryAt := now
    entriesCount := (bucket.map Bucket.entriesCount).getD 0 + 1
    totalInputTokens := (bucket.map Bucket.totalInputTokens).getD 0 + toInt I (get data "total_input_tokens")
    totalOutputTokens := (bucket.map Bucket.totalOutputTokens).getD 0 + toInt I (get data "total_output_tokens")
    totalTokens := (bucket.map Bucket.totalTokens).getD 0 + tokensOf I data
    totalBuyPrice := (bucket.map Bucket.totalBuyPrice).getD 0 + toFloat I (get data "buy_price")
    totalSalesPrice := (bucket.map Bucket.totalSalesPrice).getD 0 + toFloat I (get data "sales_price") }

/-- A call: the event and its id, the id that is drawn if there is none, the time of the server, and whether the
transaction commits. -/
structure Call (F : Type) where
  data : Data F
  entryId : Option String
  uuid : String
  now : String
  commits : Bool

/-- `entry_id`, `data.get("entry_id")` or a new id. -/
def Call.id (c : Call F) : String :=
  match c.entryId with
  | some entryId => if entryId ≠ "" then entryId else ((get c.data "entry_id").or I (.str c.uuid)).toStr I
  | none => ((get c.data "entry_id").or I (.str c.uuid)).toStr I

/-- `upload_token_usage`. -/
def uploadTokenUsage (db : Db F) (userId : String) (c : Call F) : Db F × Bool :=
  let jobId := get c.data "job_id"
  if jobId.truthy I = false then (db, false)
  else
    let bucket := bucketPath userId (jobId.toStr I)
    let entry := entryPath bucket (c.id I)
    -- an odd number of elements, or an empty one, is an error
    if ¬isDocPath bucket ∨ ¬isDocPath entry ∨ c.commits = false then (db, false)
    else if entry ∈ db.entries.keys then (db, true)
    else
      (⟨db.buckets.set bucket (increment I (db.buckets.get? bucket) userId c.data c.now),
        db.entries.set entry c.data⟩, true)

/-- A call on a bucket. -/
structure BucketCall (userId jobId : String) extends Call F where
  job_eq : (get data "job_id").toStr I = jobId

/-- **The totals of a bucket are those of its events.** -/
structure Exact (bucket : Option (Bucket F)) (entries : Dict String (Data F)) : Prop where
  count : (bucket.map Bucket.entriesCount).getD 0 = entries.entries.length
  input : (bucket.map Bucket.totalInputTokens).getD 0 =
    entries.total fun data => toInt I (get data "total_input_tokens")
  output : (bucket.map Bucket.totalOutputTokens).getD 0 =
    entries.total fun data => toInt I (get data "total_output_tokens")
  tokens : (bucket.map Bucket.totalTokens).getD 0 = entries.total (tokensOf I)
  buyPrice : (bucket.map Bucket.totalBuyPrice).getD 0 =
    entries.total fun data => toFloat I (get data "buy_price")
  salesPrice : (bucket.map Bucket.totalSalesPrice).getD 0 =
    entries.total fun data => toFloat I (get data "sales_price")

variable {I}

/-- **What one call does.** -/
theorem uploadTokenUsage_cases {userId jobId : String} (db : Db F) (c : BucketCall I userId jobId) :
    (uploadTokenUsage I db userId c.toCall).1 = db ∨
      entryPath (bucketPath userId jobId) (c.id I) ∉ db.entries.keys ∧
        (uploadTokenUsage I db userId c.toCall).1 =
          ⟨db.buckets.set (bucketPath userId jobId)
              (increment I (db.buckets.get? (bucketPath userId jobId)) userId c.data c.now),
            db.entries.set (entryPath (bucketPath userId jobId) (c.id I)) c.data⟩ := by
  unfold uploadTokenUsage
  dsimp only
  rw [c.job_eq]
  split
  · exact .inl rfl
  · split
    · exact .inl rfl
    · split
      · exact .inl rfl
      · next hnew => exact .inr ⟨hnew, rfl⟩

/-- **One call keeps the totals exact.** -/
theorem exact_upload {userId jobId : String} {db : Db F}
    (h : Exact I (db.buckets.get? (bucketPath userId jobId)) db.entries) (c : BucketCall I userId jobId) :
    Exact I ((uploadTokenUsage I db userId c.toCall).1.buckets.get? (bucketPath userId jobId))
      (uploadTokenUsage I db userId c.toCall).1.entries := by
  rcases uploadTokenUsage_cases db c with hsame | ⟨hnew, hadded⟩
  · rw [hsame]
    exact h
  · rw [hadded]
    dsimp only
    rw [Dict.get?_set_self]
    constructor
    · rw [Dict.entries_set_of_not_mem _ hnew, List.length_append, ← h.count]
      rfl
    · rw [Dict.total_set_of_not_mem _ _ hnew, ← h.input]
      rfl
    · rw [Dict.total_set_of_not_mem _ _ hnew, ← h.output]
      rfl
    · rw [Dict.total_set_of_not_mem _ _ hnew, ← h.tokens]
      rfl
    · rw [Dict.total_set_of_not_mem _ _ hnew, ← h.buyPrice]
      rfl
    · rw [Dict.total_set_of_not_mem _ _ hnew, ← h.salesPrice]
      rfl

/-- Events are never taken away. -/
theorem recorded_upload {userId jobId entry : String} {db : Db F} (h : entry ∈ db.entries.keys)
    (c : BucketCall I userId jobId) : entry ∈ (uploadTokenUsage I db userId c.toCall).1.entries.keys := by
  rcases uploadTokenUsage_cases db c with hsame | ⟨-, hadded⟩
  · rw [hsame]
    exact h
  · rw [hadded]
    exact Dict.mem_keys_set.mpr (.inr h)

/-- A call that has succeeded has its event in the store. -/
theorem recorded_of_success {userId jobId : String} {db : Db F} {c : BucketCall I userId jobId}
    (hok : (uploadTokenUsage I db userId c.toCall).2 = true) :
    entryPath (bucketPath userId jobId) (c.id I) ∈ (uploadTokenUsage I db userId c.toCall).1.entries.keys := by
  unfold uploadTokenUsage at hok ⊢
  dsimp only at hok ⊢
  rw [c.job_eq] at hok ⊢
  split at hok
  · cases hok
  · next hjob =>
    split at hok
    · cases hok
    · next hpaths =>
      rw [if_neg hjob, if_neg hpaths]
      split
      · next hmem => exact hmem
      · exact Dict.mem_keys_set.mpr (.inl rfl)

/-- An event that is there is not counted again. -/
theorem upload_of_recorded {userId jobId : String} {db : Db F} {c : BucketCall I userId jobId}
    (h : entryPath (bucketPath userId jobId) (c.id I) ∈ db.entries.keys) :
    (uploadTokenUsage I db userId c.toCall).1 = db := by
  rcases uploadTokenUsage_cases db c with hsame | ⟨hnew, -⟩
  · exact hsame
  · exact absurd h hnew

end Upload

/-! ### Runs -/

/-- One call on a bucket. -/
def step {F : Type} [AddCommMonoid F] (I : Floats F) (userId jobId : String) (db : Db F)
    (c : BucketCall I userId jobId) : Db F := (uploadTokenUsage I db userId c.toCall).1

/-- No document. -/
def start (F : Type) : Db F := ⟨∅, ∅⟩

section Runs

variable {F : Type} [AddCommMonoid F] {I : Floats F} {userId jobId : String}

theorem exact_run (calls : List (BucketCall I userId jobId)) :
    let db := run (step I userId jobId) (start F) calls
    Exact I (db.buckets.get? (bucketPath userId jobId)) db.entries := by
  induction calls using List.reverseRecOn with
  | nil => exact ⟨rfl, rfl, rfl, rfl, rfl, rfl⟩
  | append_singleton calls c ih =>
      rw [run_concat]
      exact exact_upload ih c

theorem recorded_run {entry : String} {db : Db F} (h : entry ∈ db.entries.keys)
    (calls : List (BucketCall I userId jobId)) : entry ∈ (run (step I userId jobId) db calls).entries.keys := by
  induction calls generalizing db with
  | nil => exact h
  | cons c calls ih => exact ih (recorded_upload h c)

/-- **The totals of a bucket are those of its events**, after any calls on it; and once a call has succeeded, its
event is there, and a call with the same id changes nothing. -/
theorem token_usage_exact (I : Floats F) (userId jobId : String) (calls : List (BucketCall I userId jobId)) :
    let db := run (step I userId jobId) (start F) calls
    Exact I (db.buckets.get? (bucketPath userId jobId)) db.entries ∧
      ∀ pre c, pre ++ [c] <+: calls →
        (uploadTokenUsage I (run (step I userId jobId) (start F) pre) userId c.toCall).2 = true →
        entryPath (bucketPath userId jobId) (c.id I) ∈ db.entries.keys ∧
          ∀ c' : BucketCall I userId jobId, c'.id I = c.id I → step I userId jobId db c' = db := by
  refine ⟨exact_run calls, ?_⟩
  rintro pre c ⟨later, rfl⟩ hok
  have hrecorded : entryPath (bucketPath userId jobId) (c.id I) ∈
      (run (step I userId jobId) (start F) (pre ++ [c] ++ later)).entries.keys := by
    rw [run_append, run_concat]
    exact recorded_run (recorded_of_success hok) later
  refine ⟨hrecorded, fun c' hid => upload_of_recorded ?_⟩
  rw [hid]
  exact hrecorded

end Runs

/-- Exact floats; a text is a number if it is an integer. -/
def exactFloats : Floats ℚ where
  repr x := toString x.num ++ "/" ++ toString x.den
  truthy x := decide (x ≠ 0)
  trunc x := some (x.num.tdiv x.den)
  ofInt n := some n
  ofText s := (Numbers.int? s).map fun n => (n : ℚ)

/-- An event with a text for a number, no total, and a price that is none. -/
def sampleEvent : BucketCall exactFloats "u" "chat:u:room:2026-01-02" where
  data := Dict.ofList [("job_id", .str "chat:u:room:2026-01-02"), ("total_input_tokens", .str "12"),
    ("total_output_tokens", .int 3), ("buy_price", .other "[]" false), ("sales_price", .float (1 / 2))]
  entryId := some "message:1:provider"
  uuid := "0"
  now := "t"
  commits := true
  job_eq := rfl

/-- The event is uploaded twice and counted once. -/
theorem sample_counted_once :
    let db := run (step exactFloats "u" "chat:u:room:2026-01-02") (start ℚ) [sampleEvent, sampleEvent]
    Exact exactFloats (db.buckets.get? (bucketPath "u" "chat:u:room:2026-01-02")) db.entries ∧
      step exactFloats "u" "chat:u:room:2026-01-02" db sampleEvent = db ∧
      db.entries.keys = ["clients/u/token_usage/chat:u:room:2026-01-02/entries/message:1:provider"] ∧
      (db.buckets.get? (bucketPath "u" "chat:u:room:2026-01-02")).map (fun b =>
        (b.entriesCount, b.totalInputTokens, b.totalOutputTokens, b.totalTokens, b.totalBuyPrice, b.totalSalesPrice)) =
          some (1, 12, 3, 15, 0, 1 / 2) := by
  intro db
  have hexact := token_usage_exact exactFloats "u" "chat:u:room:2026-01-02" [sampleEvent, sampleEvent]
  obtain ⟨-, hagain⟩ := hexact.2 [] sampleEvent ⟨[sampleEvent], rfl⟩ (by decide +kernel)
  exact ⟨hexact.1, hagain sampleEvent rfl, by decide +kernel, by decide +kernel⟩

end Pinnokio.Billing.UsageTotals
