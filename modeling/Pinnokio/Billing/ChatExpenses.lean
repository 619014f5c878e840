import Mathlib.Data.List.Sort
import Pinnokio.Lib.Runs
import Pinnokio.Billing.Wallet

/-!
# Daily chat expenses

Chat usage is collected in one `token_usage` document per user, company and day.  Three callers turn such a bucket
into the expense document that the wallet charges: the hourly task (`finalizeDailyChatBilling`), the catch-up at
the start of a session (`ensureChatDailyExpenses`) and, for the last step, every recomputation of the balance.
The hourly task leaves an expense alone that is already billed; the catch-up does not look.

* `Books` — the documents with the record of what the wallet has been charged for;
* `not_keepsBilled_catchUp` — the catch-up meets what the hourly task has written and the wallet has billed;
* `kept_step` — one operation that does not touch a billed expense keeps every expense charged at most once;
* `charged_at_most_once` — so it is along every sequence of such operations.
-/

namespace Pinnokio.Billing

open Pinnokio.Runs

/-! ### The bucket documents -/

/-- The digits of a date as the job id of a bucket carries it. -/
def isDigits (s : String) (n : ℕ) : Bool := s.toList.length = n && s.toList.all Char.isDigit

/-- `^\d{4}-\d{2}-\d{2}$`. -/
def isIsoDate (s : String) : Bool :=
  match Text.split s '-' with
  | [y, m, d] => isDigits y 4 && isDigits m 2 && isDigits d 2
  | _ => false

/-- The billing date a job id of the form `chat:{user_id}:{collection_name}:{YYYY-MM-DD}` carries. -/
def chatBillingDate (jobId : String) : Option String :=
  let parts := Text.split jobId ':'
  if "chat:".toList.isPrefixOf jobId.toList ∧ 4 ≤ parts.length ∧ isIsoDate (parts.getLastD "") then
    some (parts.getLastD "")
  else none

/-- `data.get(k) or default` for texts. -/
def textOr (a b : String) : String := if a = "" then b else a

/-- The bucket after one more entry: the identifying fields are overwritten, the totals are incremented. -/
def TokenUsage.addEntry (u : TokenUsage) (jobId : String) (data : UsageEntry) : TokenUsage where
  jobId := jobId
  mandatePath := data.mandatePath
  billingKind := if (chatBillingDate jobId).isSome then "chat_daily" else data.billingKind
  billingDate := textOr ((chatBillingDate jobId).getD "") data.billingDate
  entriesCount := u.entriesCount + 1
  totalInputTokens := u.totalInputTokens + data.totalInputTokens
  totalOutputTokens := u.totalOutputTokens + data.totalOutputTokens
  totalTokens := u.totalTokens +
    if data.totalTokens ≤ 0 then data.totalInputTokens + data.totalOutputTokens else data.totalTokens
  totalBuyPrice := u.totalBuyPrice + data.buyPrice
  totalSalesPrice := u.totalSalesPrice + data.salesPrice

/-- A bucket without entries. -/
def TokenUsage.empty : TokenUsage := ⟨"", "", "", "", 0, 0, 0, 0, 0, 0⟩

/-- `upload_token_usage`: one transaction, which counts an entry id once. -/
def uploadTokenUsage (db : Db) (userId jobId entryId : String) (data : UsageEntry) : Db × Bool :=
  if jobId = "" then (db, false)
  else if (userId, jobId, entryId) ∈ db.entries.keys then (db, true)
  else
    let bucket := (db.tokenUsage.get? (userId, jobId)).getD .empty
    ({ db with
        entries := db.entries.set (userId, jobId, entryId) data
        tokenUsage := db.tokenUsage.set (userId, jobId) (bucket.addEntry jobId data) }, true)

/-! ### Expenses and the record of charges -/

/-- One amount added to `current_expenses`, with the expense document it was read from. -/
structure Charge where
  ref : String × String
  amount : ℚ
  deriving DecidableEq

/-- The documents, and what the wallet has been charged for so far. -/
structure Books where
  db : Db
  charges : List Charge

/-- Upsert of an expense document (`set(…, merge=True)` with all its fields). -/
def Books.setExpense (b : Books) (ref : String × String) (e : Expense) : Books :=
  { b with db := { b.db with expenses := b.db.expenses.set ref e } }

/-- `get_user_balance`, with the record of what it charges. -/
def Books.balance (b : Books) (mandatePath : String) : Books where
  db := (getUserBalance b.db mandatePath "").1
  charges := b.charges ++ (charged b.db mandatePath).map fun e => ⟨e.1, e.2.totalSalesPrice⟩

/-- The expense of a bucket. -/
def chatExpense (u : TokenUsage) : Expense := ⟨u.totalSalesPrice, some false⟩

/-- The expense document is there and billed. -/
def isBilled (db : Db) (ref : String × String) : Bool :=
  match db.expenses.get? ref with
  | some e => e.billed == some true
  | none => false

/-! ### The catch-up -/

/-- The days of the catch-up, counted back from `today`; `isoDate` writes a day as `YYYY-MM-DD`. -/
def catchUpDates (isoDate : ℤ → String) (today : ℤ) (daysBack : ℕ) (includeToday : Bool) : List String :=
  let start := if includeToday then 0 else 1
  (List.range' start (max 1 daysBack + 1 - start)).map fun i : ℕ => isoDate (today - i)

/-- `chat:{user_id}:{collection_name}:{date}`. -/
def chatJobId (userId collectionName date : String) : String :=
  "chat:" ++ userId ++ ":" ++ collectionName ++ ":" ++ date

/-- The user whose buckets the catch-up reads. -/
def catchUpUser (mandatePath userId : String) : String :=
  if mandatePath ≠ "" then textOr userId (userIdOf mandatePath) else userId

/-- The loop body of the catch-up: the bucket of the day, if there is one, is written to its expense. -/
def ensureDay (mandatePath collectionName userId : String) (b : Books) (date : String) : Books :=
  match b.db.tokenUsage.get? (userId, chatJobId userId collectionName date) with
  | none => b
  | some u => b.setExpense (mandatePath, chatJobId userId collectionName date) (chatExpense u)

/-- `ensure_chat_daily_expenses` for the days it has computed. -/
def ensureChatDailyExpenses (b : Books) (mandatePath collectionName userId : String)
    (dates : List String) : Books :=
  let mandatePath := normalizeMandatePath mandatePath
  let userId := catchUpUser mandatePath userId
  if userId = "" ∨ mandatePath = "" ∨ collectionName = "" ∨ ¬isDocPath mandatePath then b
  else dates.foldl (ensureDay mandatePath collectionName userId) b

/-! ### The hourly task -/

/-- The days of the hourly task. -/
def targetDates (isoDate : ℤ → String) (today : ℤ) (targetDate : String) (daysBack : ℕ) : List String :=
  if targetDate ≠ "" then [targetDate]
  else (List.range' 1 (max 1 daysBack)).map fun i : ℕ => isoDate (today - i)

/-- Order of the documents in a query result. -/
def pathLe (a b : (String × String) × TokenUsage) : Prop :=
  a.1.1 < b.1.1 ∨ a.1.1 = b.1.1 ∧ a.1.2 ≤ b.1.2

instance : DecidableRel pathLe := fun a b =>
  inferInstanceAs (Decidable (a.1.1 < b.1.1 ∨ a.1.1 = b.1.1 ∧ a.1.2 ≤ b.1.2))

/-- The chat buckets of a day, over all users. -/
def chatBuckets (db : Db) (date : String) : List ((String × String) × TokenUsage) :=
  (db.tokenUsage.entries.filter fun e =>
    e.2.billingKind = "chat_daily" ∧ e.2.billingDate = date).insertionSort pathLe

/-- The expense document of a bucket. -/
def expenseRef (e : (String × String) × TokenUsage) : String × String :=
  (e.2.mandatePath, textOr e.2.jobId e.1.2)

/-- The state of the hourly task within a day: the documents, the mandates whose wallet is to be recomputed,
and whether a malformed path has raised. -/
structure Finalizing where
  books : Books
  mandatePaths : List String
  raised : Bool

/-- The loop body for one bucket. -/
def finalizeBucket (st : Finalizing) (e : (String × String) × TokenUsage) : Finalizing :=
  if st.raised then st
  else if e.2.mandatePath = "" then st
  else if ¬isDocPath e.2.mandatePath then { st with raised := true }
  else if isBilled st.books.db (expenseRef e) then st
  else
    { st with
      books := st.books.setExpense (expenseRef e) (chatExpense e.2)
      mandatePaths := if e.2.mandatePath ∈ st.mandatePaths then st.mandatePaths
        else st.mandatePaths ++ [e.2.mandatePath] }

/-- The order in which the interpreter visits a set of texts: some order of its elements. -/
structure SetOrder where
  visit : List String → List String
  perm : ∀ xs, (visit xs).Perm xs

/-- The buckets of one day, then the wallets of their mandates. -/
def finalizeDay (order : SetOrder) (r : Books × Bool) (date : String) : Books × Bool :=
  if r.2 then r
  else
    let st := (chatBuckets r.1.db date).foldl finalizeBucket ⟨r.1, [], false⟩
    if st.raised then (st.books, true)
    else ((order.visit st.mandatePaths).foldl Books.balance st.books, false)

/-- `finalize_daily_chat_billing` for the days it has computed. -/
def finalizeDailyChatBilling (b : Books) (order : SetOrder) (dates : List String) : Books :=
  (dates.foldl (finalizeDay order) (b, false)).1

/-! ### Sequences of operations -/

/-- An operation on the chat expenses. -/
inductive ChatOp where
  | finalize (order : SetOrder) (dates : List String)
  | ensure (mandatePath collectionName userId : String) (dates : List String)
  | balance (mandatePath : String)

/-- One operation. -/
def applyChat (b : Books) : ChatOp → Books
  | .finalize order dates => finalizeDailyChatBilling b order dates
  | .ensure mandatePath collectionName userId dates =>
      ensureChatDailyExpenses b mandatePath collectionName userId dates
  | .balance mandatePath => b.balance mandatePath

/-- The wallet marks the expenses it reads: the path is normalized, or there is nothing to charge. -/
def marksWhatItReads (db : Db) (mandatePath : String) : Prop :=
  normalizeMandatePath mandatePath = mandatePath ∨ unbilledExpenses db mandatePath = []

/-- The operation touches no billed expense: the catch-up meets no billed expense of its days, and every mandate
path the wallet is called with is normalized. -/
def keepsBilled (db : Db) : ChatOp → Prop
  | .finalize _ dates => ∀ date ∈ dates, ∀ e ∈ chatBuckets db date,
      normalizeMandatePath e.2.mandatePath = e.2.mandatePath
  | .ensure mandatePath collectionName userId dates =>
      let m := normalizeMandatePath mandatePath
      let u := catchUpUser m userId
      ∀ date ∈ dates, (u, chatJobId u collectionName date) ∈ db.tokenUsage.keys →
        isBilled db (m, chatJobId u collectionName date) = false
  | .balance mandatePath => marksWhatItReads db mandatePath

instance : ∀ (db : Db) (op : ChatOp), Decidable (keepsBilled db op)
  | db, .finalize _ dates => inferInstanceAs (Decidable (∀ date ∈ dates, ∀ e ∈ chatBuckets db date,
      normalizeMandatePath e.2.mandatePath = e.2.mandatePath))
  | db, .ensure mandatePath collectionName userId dates => inferInstanceAs (Decidable (∀ date ∈ dates,
      (catchUpUser (normalizeMandatePath mandatePath) userId,
        chatJobId (catchUpUser (normalizeMandatePath mandatePath) userId) collectionName date)
          ∈ db.tokenUsage.keys →
      isBilled db (normalizeMandatePath mandatePath,
        chatJobId (catchUpUser (normalizeMandatePath mandatePath) userId) collectionName date) = false))
  | db, .balance mandatePath => inferInstanceAs (Decidable
      (normalizeMandatePath mandatePath = mandatePath ∨ unbilledExpenses db mandatePath = []))

/-! ### The days of the two callers -/

/-- The catch-up reads every day of an hourly task that counts back as far. -/
theorem targetDates_subset (isoDate : ℤ → String) (today : ℤ) (daysBack : ℕ) (includeToday : Bool) :
    targetDates isoDate today "" daysBack ⊆ catchUpDates isoDate today daysBack includeToday := by
  intro date hdate
  rw [targetDates, if_neg (by simp)] at hdate
  obtain ⟨i, hi, rfl⟩ := List.mem_map.mp hdate
  obtain ⟨hlow, hhigh⟩ := List.mem_range'_1.mp hi
  refine List.mem_map.mpr ⟨i, List.mem_range'_1.mpr ?_, rfl⟩
  cases includeToday <;> simp only [Bool.false_eq_true, if_true, if_false] <;> omega

/-- **So it meets the expenses that the hourly task has written and the wallet has billed.** -/
theorem not_keepsBilled_catchUp {db : Db} {mandatePath collectionName userId date : String} (isoDate : ℤ → String)
    (today : ℤ) (daysBack : ℕ) (includeToday : Bool) (hdate : date ∈ targetDates isoDate today "" daysBack)
    (hbucket : (catchUpUser (normalizeMandatePath mandatePath) userId,
      chatJobId (catchUpUser (normalizeMandatePath mandatePath) userId) collectionName date) ∈ db.tokenUsage.keys)
    (hbilled : isBilled db (normalizeMandatePath mandatePath,
      chatJobId (catchUpUser (normalizeMandatePath mandatePath) userId) collectionName date) = true) :
    ¬keepsBilled db (.ensure mandatePath collectionName userId
      (catchUpDates isoDate today daysBack includeToday)) := by
  intro hkeeps
  have hunbilled := hkeeps date (targetDates_subset isoDate today daysBack includeToday hdate) hbucket
  rw [hbilled] at hunbilled
  cases hunbilled

/-! ### One operation -/

/-- No expense has been charged twice, and every charged expense is billed. -/
structure Sound (b : Books) : Prop where
  once : ∀ ref, (b.charges.map Charge.ref).count ref ≤ 1
  flag : ∀ ref ∈ b.charges.map Charge.ref, isBilled b.db ref = true

/-- What an operation keeps: billed expenses stay billed, buckets stay as they are, and the books stay sound. -/
structure Kept (b b' : Books) : Prop where
  stays : ∀ ref, isBilled b.db ref = true → isBilled b'.db ref = true
  usage : b'.db.tokenUsage = b.db.tokenUsage
  sound : Sound b → Sound b'

theorem Kept.refl (b : Books) : Kept b b := ⟨fun _ h => h, rfl, fun h => h⟩

theorem Kept.trans {b b' b'' : Books} (h : Kept b b') (h' : Kept b' b'') : Kept b b'' :=
  ⟨fun ref hr => h'.stays ref (h.stays ref hr), h'.usage.trans h.usage, fun hs => h'.sound (h.sound hs)⟩

theorem isBilled_setExpense (b : Books) (ref ref' : String × String) (u : TokenUsage) :
    isBilled (b.setExpense ref (chatExpense u)).db ref' =
      if ref' = ref then false else isBilled b.db ref' := by
  unfold isBilled Books.setExpense
  dsimp only
  rw [Dict.get?_set]
  by_cases h : ref' = ref <;> simp [h, chatExpense]

/-- An expense that is not billed may be written again. -/
theorem kept_setExpense {b : Books} {ref : String × String} (u : TokenUsage)
    (h : isBilled b.db ref = false) : Kept b (b.setExpense ref (chatExpense u)) := by
  have hstay : ∀ ref', isBilled b.db ref' = true →
      isBilled (b.setExpense ref (chatExpense u)).db ref' = true := by
    intro ref' hr
    rw [isBilled_setExpense, if_neg]
    · exact hr
    · rintro rfl
      rw [h] at hr
      cases hr
  exact ⟨hstay, rfl, fun hs => ⟨hs.once, fun ref' hr => hstay ref' (hs.flag ref' hr)⟩⟩

theorem isBilled_iff {db : Db} {ref : String × String} :
    isBilled db ref = true ↔ ∃ e, db.expenses.get? ref = some e ∧ e.billed = some true := by
  unfold isBilled
  cases db.expenses.get? ref <;> simp

theorem get?_balance_expenses (b : Books) {mandatePath : String}
    (h : reachesWallet mandatePath = true) (ref : String × String) :
    (b.balance mandatePath).db.expenses.get? ref =
      if billable b.db mandatePath ∧ ref ∈ billedRefs mandatePath (unbilledExpenses b.db mandatePath)
      then (b.db.expenses.get? ref).map fun e => { e with billed := some true }
      else b.db.expenses.get? ref := by
  show (getUserBalance b.db mandatePath "").1.expenses.get? ref = _
  rw [(getUserBalance_recomputed b.db mandatePath "" h).expenses]
  by_cases hb : billable b.db mandatePath = true
  · rw [if_pos hb, Dict.get?_modifyAll]
    · simp [hb]
    · exact fun _ => rfl
  · simp [hb]

/-- A wallet run marks the expenses it reads, and charges each of them once. -/
theorem kept_balance {b : Books} {mandatePath : String} (h : marksWhatItReads b.db mandatePath) :
    Kept b (b.balance mandatePath) := by
  by_cases hreach : reachesWallet mandatePath = true
  · have hrec := getUserBalance_recomputed b.db mandatePath "" hreach
    have hget := get?_balance_expenses b hreach
    have hstay : ∀ ref, isBilled b.db ref = true → isBilled (b.balance mandatePath).db ref = true := by
      intro ref hr
      obtain ⟨e, he, hbt⟩ := isBilled_iff.mp hr
      rw [isBilled_iff, hget, he]
      split
      · exact ⟨_, rfl, rfl⟩
      · exact ⟨e, rfl, hbt⟩
    refine ⟨hstay, hrec.tokenUsage, fun hs => ?_⟩
    -- the expenses charged now are unbilled, so none of them has been charged before
    have hnew : ∀ e ∈ charged b.db mandatePath,
        isBilled b.db e.1 = false ∧ isBilled (b.balance mandatePath).db e.1 = true := by
      intro e he
      unfold charged at he
      split at he
      · rename_i hc
        obtain ⟨hmem, hcond⟩ := List.mem_filter.mp he
        have hcond' : e.1.1 = normalizeMandatePath mandatePath ∧ e.2.billed = some false := by
          simpa using hcond
        have hgete : b.db.expenses.get? e.1 = some e.2 := Dict.mem_entries_iff.mp hmem
        refine ⟨by simp [isBilled, hgete, hcond'.2], ?_⟩
        have hnorm : normalizeMandatePath mandatePath = mandatePath := by
          refine h.resolve_right fun hnil => ?_
          rw [hnil] at he
          cases he
        have href : e.1 ∈ billedRefs mandatePath (unbilledExpenses b.db mandatePath) := by
          refine List.mem_map.mpr ⟨e, he, ?_⟩
          rw [← hnorm, ← hcond'.1]
        rw [isBilled_iff, hget, hgete, if_pos ⟨hc.2.1, href⟩]
        exact ⟨_, rfl, rfl⟩
      · cases he
    have hrefs : (b.balance mandatePath).charges.map Charge.ref =
        b.charges.map Charge.ref ++ (charged b.db mandatePath).map Prod.fst := by
      simp [Books.balance, Function.comp_def]
    have hnodup : ((charged b.db mandatePath).map Prod.fst).Nodup := by
      unfold charged
      split
      · exact b.db.expenses.nodup.sublist (List.filter_sublist.map Prod.fst)
      · exact List.nodup_nil
    refine ⟨fun ref => ?_, fun ref hr => ?_⟩
    · rw [hrefs, List.count_append]
      by_cases hin : ref ∈ (charged b.db mandatePath).map Prod.fst
      · obtain ⟨e, he, rfl⟩ := List.mem_map.mp hin
        have hno : e.1 ∉ b.charges.map Charge.ref := fun hm => by
          have := hs.flag _ hm
          rw [(hnew e he).1] at this
          cases this
        rw [List.count_eq_zero.mpr hno, Nat.zero_add]
        exact List.nodup_iff_count_le_one.mp hnodup _
      · rw [List.count_eq_zero.mpr hin]
        exact hs.once ref
    · rw [hrefs, List.mem_append] at hr
      rcases hr with hr | hr
      · exact hstay ref (hs.flag ref hr)
      · obtain ⟨e, he, rfl⟩ := List.mem_map.mp hr
        exact (hnew e he).2
  · have hidle := getUserBalance_idle b.db mandatePath "" (by simpa using hreach)
    have hnone : charged b.db mandatePath = [] := by simp [charged, hreach]
    have hb : b.balance mandatePath = b := by
      simp [Books.balance, hidle, hnone]
    rw [hb]
    exact Kept.refl b

/-- The catch-up over days without a billed expense. -/
theorem kept_ensureDays (mandatePath collectionName userId : String) (dates : List String) (b : Books)
    (h : ∀ date ∈ dates, (userId, chatJobId userId collectionName date) ∈ b.db.tokenUsage.keys →
      isBilled b.db (mandatePath, chatJobId userId collectionName date) = false) :
    Kept b (dates.foldl (ensureDay mandatePath collectionName userId) b) := by
  induction dates generalizing b with
  | nil => exact Kept.refl b
  | cons date dates ih =>
      rw [List.foldl_cons]
      have hstep : Kept b (ensureDay mandatePath collectionName userId b date) ∧
          ∀ ref, isBilled b.db ref = false →
            isBilled (ensureDay mandatePath collectionName userId b date).db ref = false := by
        unfold ensureDay
        split
        · exact ⟨Kept.refl b, fun _ h => h⟩
        · rename_i u hu
          refine ⟨kept_setExpense u (h date List.mem_cons_self (Dict.mem_keys_of_get? hu)), ?_⟩
          intro ref hr
          rw [isBilled_setExpense]
          split
          · rfl
          · exact hr
      refine hstep.1.trans (ih _ fun d hd hk => hstep.2 _ (h d (List.mem_cons_of_mem _ hd) ?_))
      rwa [hstep.1.usage] at hk

/-- The loop over the buckets of a day writes only expenses that are not billed, and collects the mandates it
has written for. -/
theorem kept_buckets (es : List ((String × String) × TokenUsage)) (st : Finalizing) :
    Kept st.books (es.foldl finalizeBucket st).books ∧
      ∀ m ∈ (es.foldl finalizeBucket st).mandatePaths,
        m ∈ st.mandatePaths ∨ ∃ e ∈ es, e.2.mandatePath = m := by
  induction es generalizing st with
  | nil => exact ⟨Kept.refl _, fun m hm => Or.inl hm⟩
  | cons e es ih =>
      rw [List.foldl_cons]
      have hstep : Kept st.books (finalizeBucket st e).books ∧
          ∀ m ∈ (finalizeBucket st e).mandatePaths, m ∈ st.mandatePaths ∨ e.2.mandatePath = m := by
        unfold finalizeBucket
        split
        · exact ⟨Kept.refl _, fun m hm => Or.inl hm⟩
        · split
          · exact ⟨Kept.refl _, fun m hm => Or.inl hm⟩
          · split
            · exact ⟨Kept.refl _, fun m hm => Or.inl hm⟩
            · split
              · exact ⟨Kept.refl _, fun m hm => Or.inl hm⟩
              · rename_i hb
                refine ⟨kept_setExpense e.2 (by simpa using hb), fun m hm => ?_⟩
                dsimp only at hm
                split at hm
                · exact Or.inl hm
                · rcases List.mem_append.mp hm with hm | hm
                  · exact Or.inl hm
                  · exact Or.inr (List.mem_singleton.mp hm).symm
      obtain ⟨hk, hm⟩ := ih (finalizeBucket st e)
      refine ⟨hstep.1.trans hk, fun m h => ?_⟩
      rcases hm m h with h | ⟨e', he', h⟩
      · rcases hstep.2 m h with h | h
        · exact Or.inl h
        · exact Or.inr ⟨e, List.mem_cons_self, h⟩
      · exact Or.inr ⟨e', List.mem_cons_of_mem _ he', h⟩

theorem kept_balances (ms : List String) (b : Books)
    (h : ∀ m ∈ ms, normalizeMandatePath m = m) : Kept b (ms.foldl Books.balance b) := by
  induction ms generalizing b with
  | nil => exact Kept.refl b
  | cons m ms ih =>
      exact (kept_balance (Or.inl (h m List.mem_cons_self))).trans
        (ih _ fun m' hm' => h m' (List.mem_cons_of_mem _ hm'))

theorem kept_finalizeDay (order : SetOrder) (r : Books × Bool) (date : String)
    (h : ∀ e ∈ chatBuckets r.1.db date, normalizeMandatePath e.2.mandatePath = e.2.mandatePath) :
    Kept r.1 (finalizeDay order r date).1 := by
  unfold finalizeDay
  split
  · exact Kept.refl _
  · obtain ⟨hk, hm⟩ := kept_buckets (chatBuckets r.1.db date) ⟨r.1, [], false⟩
    dsimp only
    split
    · exact hk
    · refine hk.trans (kept_balances _ _ fun m hmem => ?_)
      rcases hm m ((order.perm _).mem_iff.mp hmem) with hno | ⟨e, he, rfl⟩
      · cases hno
      · exact h e he

theorem chatBuckets_congr {db db' : Db} (h : db'.tokenUsage = db.tokenUsage) (date : String) :
    chatBuckets db' date = chatBuckets db date := by
  rw [chatBuckets, chatBuckets, h]

theorem kept_finalizeDays (order : SetOrder) (dates : List String) (r : Books × Bool)
    (h : ∀ date ∈ dates, ∀ e ∈ chatBuckets r.1.db date,
      normalizeMandatePath e.2.mandatePath = e.2.mandatePath) :
    Kept r.1 (dates.foldl (finalizeDay order) r).1 := by
  induction dates generalizing r with
  | nil => exact Kept.refl _
  | cons date dates ih =>
      have hstep := kept_finalizeDay order r date (h date List.mem_cons_self)
      refine hstep.trans (ih _ fun d hd => ?_)
      rw [chatBuckets_congr hstep.usage]
      exact h d (List.mem_cons_of_mem _ hd)

/-- **One operation** that touches no billed expense keeps the books. -/
theorem kept_step {b : Books} {op : ChatOp} (h : keepsBilled b.db op) : Kept b (applyChat b op) := by
  cases op with
  | finalize order dates => exact kept_finalizeDays order dates (b, false) h
  | ensure mandatePath collectionName userId dates =>
      simp only [applyChat, ensureChatDailyExpenses]
      split
      · exact Kept.refl b
      · exact kept_ensureDays _ _ _ _ _ h
  | balance mandatePath => exact kept_balance h

/-! ### Whole sequences -/

theorem kept_run (b : Books) (ops : List ChatOp)
    (h : Guarded applyChat (fun b op => keepsBilled b.db op) b ops) :
    ∀ pre, pre <+: ops → Kept (run applyChat b pre) (run applyChat b ops) := by
  refine run_invariant (fun ops b' => ∀ pre, pre <+: ops → Kept (run applyChat b pre) b') ?_ ops
    (fun ops' op _ ih hop => ?_) h
  · intro pre hp
    rw [List.prefix_nil.mp hp]
    exact Kept.refl _
  · rw [forall_prefix_concat, run_concat]
    exact ⟨fun pre hp => (ih pre hp).trans (kept_step hop), Kept.refl _⟩

/-- **No chat expense is charged twice.**  For any documents and any sequence of the hourly task, the catch-up
and recomputations, none of which writes a billed expense or calls the wallet with a path that is not
normalized: every expense is charged at most once, and once it is billed it stays billed. -/
theorem charged_at_most_once (db : Db) (ops : List ChatOp)
    (h : Guarded applyChat (fun b op => keepsBilled b.db op) ⟨db, []⟩ ops) :
    (∀ ref, ((run applyChat ⟨db, []⟩ ops).charges.map Charge.ref).count ref ≤ 1) ∧
      ∀ pre, pre <+: ops → ∀ ref, isBilled (run applyChat ⟨db, []⟩ pre).db ref = true →
        isBilled (run applyChat ⟨db, []⟩ ops).db ref = true := by
  have hk := kept_run ⟨db, []⟩ ops h
  refine ⟨((hk [] (List.nil_prefix)).sound ⟨fun _ => Nat.zero_le _, nofun⟩).once, ?_⟩
  exact fun pre hp => (hk pre hp).stays

/-- One bucket with a price of 5. -/
def oneBucket : Db :=
  ⟨fun _ => ⟨20, 0, 20⟩, ∅, ∅,
    Dict.ofList [(("u", "chat:u:co:2026-01-10"),
      ⟨"chat:u:co:2026-01-10", "clients/u/mandates/m", "chat_daily", "2026-01-10", 1, 10, 10, 20, 1, 5⟩)],
    ∅⟩

/-- The order of insertion. -/
def insertionOrder : SetOrder := ⟨id, fun xs => List.Perm.refl xs⟩

/-- The hourly task runs twice over the same day, with a recomputation between: the bucket is charged once. -/
theorem charged_at_most_once_hourly :
    ((run applyChat ⟨oneBucket, []⟩ [.finalize insertionOrder ["2026-01-10"],
      .balance "clients/u/mandates/m", .finalize insertionOrder ["2026-01-10"]]).charges.map
        Charge.ref).count ("clients/u/mandates/m", "chat:u:co:2026-01-10") ≤ 1 :=
  (charged_at_most_once oneBucket _ (by decide +kernel)).1 _

/-- The catch-up runs after the hourly task: the expense is unbilled again, and charged again. -/
theorem charged_twice_after_catch_up :
    (run applyChat ⟨oneBucket, []⟩ [.finalize insertionOrder ["2026-01-10"],
      .ensure "clients/u/mandates/m" "co" "" ["2026-01-10"],
      .balance "clients/u/mandates/m"]).charges =
        [⟨("clients/u/mandates/m", "chat:u:co:2026-01-10"), 5⟩,
         ⟨("clients/u/mandates/m", "chat:u:co:2026-01-10"), 5⟩] ∧
    ((run applyChat ⟨oneBucket, []⟩ [.finalize insertionOrder ["2026-01-10"],
      .ensure "clients/u/mandates/m" "co" "" ["2026-01-10"],
      .balance "clients/u/mandates/m"]).db.wallets "u").currentExpenses = 10 := by
  decide +kernel

end Pinnokio.Billing
