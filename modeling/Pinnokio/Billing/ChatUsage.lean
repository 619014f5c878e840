import Mathlib.Tactic.Linarith
import Pinnokio.Billing.ChatExpenses

/-!
# From recorded usage to the wallet

Entries of a bucket may arrive while the hourly task already turns the bucket into an expense and the wallet
charges it.  From then on the expense is frozen: what arrives later is added to the bucket and never charged.
The task also finds the mandate of a bucket only through its last entry, which overwrites the path with a
missing value if it carries none.

* `Accounted` — the invariant: the totals of the buckets are the sums of their entries, and an expense of a
  bucket's current mandate that is billed has charged the whole total;
* `accounted_step` — one upload that comes in time, or one run of the hourly task, keeps it;
* `no_usage_escapes` — after a last run over all the days, every bucket has been charged in full.
-/

namespace Pinnokio.Billing

open Pinnokio.Runs

/-! ### What is recorded and what is charged -/

/-- The sum of the sales prices over the entries of a bucket. -/
def recorded (db : Db) (userId jobId : String) : ℚ :=
  ((db.entries.entries.filter fun e => e.1.1 = userId ∧ e.1.2.1 = jobId).map
    fun e => e.2.salesPrice).sum

/-- The amounts charged for a job. -/
def chargedFor (charges : List Charge) (jobId : String) : ℚ :=
  ((charges.filter fun c => c.ref.2 = jobId).map Charge.amount).sum

/-- The amounts charged to a user. -/
def chargedTo (charges : List Charge) (userId : String) : ℚ :=
  ((charges.filter fun c => userIdOf c.ref.1 = userId).map Charge.amount).sum

/-- An operation on the buckets. -/
inductive UsageOp where
  | upload (userId jobId entryId : String) (data : UsageEntry)
  | finalize (order : SetOrder) (dates : List String)

/-- One operation. -/
def applyUsage (b : Books) : UsageOp → Books
  | .upload userId jobId entryId data => { b with db := (uploadTokenUsage b.db userId jobId entryId data).1 }
  | .finalize order dates => finalizeDailyChatBilling b order dates

/-- A mandate path the wallet can bill: normalized, addressing a document, with a user. -/
def isBillablePath (mandatePath : String) : Bool :=
  reachesWallet mandatePath && decide (normalizeMandatePath mandatePath = mandatePath)

/-- An upload is for a daily chat bucket, and a new entry comes in time: its price is not negative, the path it
carries (if any) can be billed, the bucket id is no other user's, and the expense it belongs to is not billed
yet. -/
def comesInTime (b : Books) : UsageOp → Prop
  | .upload userId jobId entryId data => (chatBillingDate jobId).isSome ∧
      ((userId, jobId, entryId) ∉ b.db.entries.keys → 0 ≤ data.salesPrice ∧
        (data.mandatePath = "" ∨ isBillablePath data.mandatePath = true) ∧
        (∀ k ∈ b.db.tokenUsage.keys, k.2 = jobId → k.1 = userId) ∧
        isBilled b.db (data.mandatePath, jobId) = false)
  | .finalize _ _ => True

instance : ∀ (b : Books) (op : UsageOp), Decidable (comesInTime b op)
  | b, .upload userId jobId entryId data => inferInstanceAs (Decidable ((chatBillingDate jobId).isSome ∧
      ((userId, jobId, entryId) ∉ b.db.entries.keys → 0 ≤ data.salesPrice ∧
        (data.mandatePath = "" ∨ isBillablePath data.mandatePath = true) ∧
        (∀ k ∈ b.db.tokenUsage.keys, k.2 = jobId → k.1 = userId) ∧
        isBilled b.db (data.mandatePath, jobId) = false)))
  | _, .finalize _ _ => isTrue trivial

/-! ### The invariant -/

/-- A bucket as the uploads leave it. -/
structure GoodBucket (db : Db) (userId jobId : String) (u : TokenUsage) : Prop where
  total : u.totalSalesPrice = recorded db userId jobId
  nonneg : 0 ≤ u.totalSalesPrice
  jobId_eq : u.jobId = jobId
  jobId_ne : jobId ≠ ""
  kind : u.billingKind = "chat_daily"
  date : chatBillingDate jobId = some u.billingDate
  path : u.mandatePath = "" ∨ isBillablePath u.mandatePath = true

theorem GoodBucket.of_entries {db db' : Db} {userId jobId : String} {u : TokenUsage}
    (h : GoodBucket db userId jobId u) (he : db'.entries = db.entries) :
    GoodBucket db' userId jobId u where
  total := by
    rw [h.total, recorded, recorded, he]
  nonneg := h.nonneg
  jobId_eq := h.jobId_eq
  jobId_ne := h.jobId_ne
  kind := h.kind
  date := h.date
  path := h.path

/-- The books between two steps of the hourly task: unbilled expenses belong to the mandates in `pending`, whose
wallets are still to be recomputed, and hold the current total of their bucket. -/
structure Accounted (db₀ : Db) (pending : String → Prop) (b : Books) : Prop where
  bucket : ∀ u j x, b.db.tokenUsage.get? (u, j) = some x → GoodBucket b.db u j x
  entry : ∀ u j i, (u, j, i) ∈ b.db.entries.keys → (u, j) ∈ b.db.tokenUsage.keys
  user : ∀ u u' j, (u, j) ∈ b.db.tokenUsage.keys → (u', j) ∈ b.db.tokenUsage.keys → u' = u
  expense : ∀ m j y, b.db.expenses.get? (m, j) = some y → isBillablePath m = true ∧
    (y.billed = some true ∨ (pending m ∧ y.billed = some false ∧
      ∃ u x, b.db.tokenUsage.get? (u, j) = some x ∧ x.mandatePath = m ∧
        y.totalSalesPrice = x.totalSalesPrice))
  full : ∀ u j x, b.db.tokenUsage.get? (u, j) = some x → isBilled b.db (x.mandatePath, j) = true →
    x.totalSalesPrice ≤ chargedFor b.charges j
  nonneg : ∀ c ∈ b.charges, 0 ≤ c.amount
  wallet : ∀ v, (b.db.wallets v).currentExpenses =
    (db₀.wallets v).currentExpenses + chargedTo b.charges v

section

variable {db₀ : Db} {pending : String → Prop} {b : Books}

theorem chargedFor_append (cs ds : List Charge) (j : String) :
    chargedFor (cs ++ ds) j = chargedFor cs j + chargedFor ds j := by
  simp [chargedFor]

theorem chargedTo_append (cs ds : List Charge) (v : String) :
    chargedTo (cs ++ ds) v = chargedTo cs v + chargedTo ds v := by
  simp [chargedTo]

theorem chargedFor_nonneg {cs : List Charge} (h : ∀ c ∈ cs, 0 ≤ c.amount) (j : String) :
    0 ≤ chargedFor cs j := by
  refine List.sum_nonneg fun a ha => ?_
  obtain ⟨c, hc, rfl⟩ := List.mem_map.mp ha
  exact h c (List.mem_filter.mp hc).1

/-- One charge for the job is at most the sum of all of them. -/
theorem le_chargedFor {cs : List Charge} (h : ∀ c ∈ cs, 0 ≤ c.amount) {c : Charge} (hc : c ∈ cs) :
    c.amount ≤ chargedFor cs c.ref.2 := by
  refine List.single_le_sum (fun a ha => ?_) _ (List.mem_map_of_mem ?_)
  · obtain ⟨c', hc', rfl⟩ := List.mem_map.mp ha
    exact h c' (List.mem_filter.mp hc').1
  · exact List.mem_filter.mpr ⟨hc, by simp⟩

/-! ### Uploads -/

theorem recorded_set_new {db : Db} {u j i : String} (data : UsageEntry)
    (h : (u, j, i) ∉ db.entries.keys) (usage : Dict (String × String) TokenUsage) (u' j' : String) :
    recorded { db with entries := db.entries.set (u, j, i) data, tokenUsage := usage } u' j' =
      recorded db u' j' + if u' = u ∧ j' = j then data.salesPrice else 0 := by
  simp only [recorded, Dict.entries_set_of_not_mem data h, List.filter_append, List.map_append,
    List.sum_append]
  by_cases hk : u' = u ∧ j' = j
  · obtain ⟨rfl, rfl⟩ := hk
    simp
  · have hk' : ¬(u = u' ∧ j = j') := fun h => hk ⟨h.1.symm, h.2.symm⟩
    simp [hk, hk']

theorem recorded_eq_zero (h : Accounted db₀ pending b) {u j : String}
    (hno : (u, j) ∉ b.db.tokenUsage.keys) : recorded b.db u j = 0 := by
  have hnil : b.db.entries.entries.filter (fun e => e.1.1 = u ∧ e.1.2.1 = j) = [] := by
    refine List.filter_eq_nil_iff.mpr ?_
    intro entry hmem hk
    obtain ⟨⟨u', j', i⟩, data⟩ := entry
    obtain ⟨rfl, rfl⟩ : u' = u ∧ j' = j := by simpa using hk
    exact hno (h.entry u' j' i (Dict.mem_keys_of_get? (Dict.mem_entries_iff.mp hmem)))
  rw [recorded, hnil]
  rfl

/-- The bucket after a new entry. -/
theorem goodBucket_addEntry (h : Accounted db₀ pending b) {u j i : String} {data : UsageEntry}
    (hnew : (u, j, i) ∉ b.db.entries.keys) (hdate : (chatBillingDate j).isSome)
    (hprice : 0 ≤ data.salesPrice) (hpath : data.mandatePath = "" ∨ isBillablePath data.mandatePath = true)
    (usage : Dict (String × String) TokenUsage) :
    GoodBucket { b.db with entries := b.db.entries.set (u, j, i) data, tokenUsage := usage } u j
      (((b.db.tokenUsage.get? (u, j)).getD .empty).addEntry j data) := by
  obtain ⟨date, hd⟩ := Option.isSome_iff_exists.mp hdate
  have hdne : date ≠ "" := by
    rintro rfl
    simp only [chatBillingDate] at hd
    split at hd
    · rename_i hc
      rw [Option.some.inj hd] at hc
      exact absurd hc.2.2 (by decide)
    · cases hd
  have hjne : j ≠ "" := by
    rintro rfl
    exact absurd hdate (by decide)
  have hbase : ((b.db.tokenUsage.get? (u, j)).getD .empty).totalSalesPrice = recorded b.db u j ∧
      0 ≤ ((b.db.tokenUsage.get? (u, j)).getD .empty).totalSalesPrice := by
    cases hg : b.db.tokenUsage.get? (u, j) with
    | none =>
        rw [Dict.get?_eq_none_iff] at hg
        exact ⟨(recorded_eq_zero h hg).symm, le_refl _⟩
    | some x => exact ⟨(h.bucket u j x hg).total, (h.bucket u j x hg).nonneg⟩
  refine ⟨?_, add_nonneg hbase.2 hprice, rfl, hjne, ?_, ?_, hpath⟩
  · rw [recorded_set_new data hnew usage u j]
    simp [TokenUsage.addEntry, hbase.1]
  · simp [TokenUsage.addEntry, hd]
  · simp [TokenUsage.addEntry, textOr, hd, hdne]

/-- **An upload that comes in time** keeps the books accounted for. -/
theorem accounted_upload (h : Accounted db₀ (fun _ => False) b) {u j i : String} {data : UsageEntry}
    (hin : comesInTime b (.upload u j i data)) :
    Accounted db₀ (fun _ => False) (applyUsage b (.upload u j i data)) := by
  obtain ⟨hdate, hin⟩ := hin
  have hj : j ≠ "" := by
    rintro rfl
    exact absurd hdate (by decide)
  by_cases hold : (u, j, i) ∈ b.db.entries.keys
  · simpa only [applyUsage, uploadTokenUsage, hj, hold, if_false, if_true] using h
  · obtain ⟨hprice, hpath, huser, hopen⟩ := hin hold
    simp only [applyUsage, uploadTokenUsage, hj, hold, if_false]
    have hgood := goodBucket_addEntry h hold hdate hprice hpath
      (b.db.tokenUsage.set (u, j) (((b.db.tokenUsage.get? (u, j)).getD .empty).addEntry j data))
    generalize hbk : ((b.db.tokenUsage.get? (u, j)).getD .empty).addEntry j data = x at hgood
    have hxpath : x.mandatePath = data.mandatePath := by rw [← hbk]; rfl
    refine ⟨fun u' j' x' hx' => ?_, fun u' j' i' hk => ?_, fun u' u'' j' hk hk' => ?_,
      fun m j' y hy => ?_, fun u' j' x' hx' hb => ?_, h.nonneg, h.wallet⟩
    · rw [Dict.get?_set] at hx'
      split at hx'
      · rename_i he
        cases he
        cases hx'
        exact hgood
      · rename_i hne
        have hb := h.bucket u' j' x' hx'
        refine ⟨?_, hb.nonneg, hb.jobId_eq, hb.jobId_ne, hb.kind, hb.date, hb.path⟩
        rw [recorded_set_new data hold, if_neg fun he => hne (by rw [he.1, he.2]), add_zero]
        exact hb.total
    · rw [Dict.mem_keys_set] at hk ⊢
      rcases hk with hk | hk
      · cases hk
        exact Or.inl rfl
      · exact Or.inr (h.entry u' j' i' hk)
    · rw [Dict.mem_keys_set] at hk hk'
      rcases hk with hk | hk
      · cases hk
        rcases hk' with hk' | hk'
        · cases hk'
          rfl
        · exact huser _ hk' rfl
      · rcases hk' with hk' | hk'
        · cases hk'
          exact (huser _ hk rfl).symm
        · exact h.user u' u'' j' hk hk'
    · obtain ⟨hm, hb⟩ := h.expense m j' y hy
      exact ⟨hm, Or.inl (hb.resolve_right fun hr => hr.1)⟩
    · rw [Dict.get?_set] at hx'
      split at hx'
      · rename_i he
        cases he
        cases hx'
        rw [hxpath] at hb
        have hb' : isBilled b.db (data.mandatePath, j) = true := hb
        rw [hopen] at hb'
        cases hb'
      · exact h.full u' j' x' hx' hb

/-! ### The hourly task -/

/-- The books with more mandates whose wallets are to be recomputed. -/
theorem Accounted.mono {pending' : String → Prop} (h : Accounted db₀ pending b)
    (hp : ∀ m, pending m → pending' m) : Accounted db₀ pending' b where
  bucket := h.bucket
  entry := h.entry
  user := h.user
  expense := fun m j y hy => by
    obtain ⟨hm, hb⟩ := h.expense m j y hy
    exact ⟨hm, hb.imp_right fun hr => ⟨hp m hr.1, hr.2⟩⟩
  full := h.full
  nonneg := h.nonneg
  wallet := h.wallet

/-- The expense of a bucket is written with the current total, and waits for the wallet of its mandate. -/
theorem accounted_setExpense (h : Accounted db₀ pending b) {u j : String} {x : TokenUsage}
    (hx : b.db.tokenUsage.get? (u, j) = some x) (hm : isBillablePath x.mandatePath = true)
    (hopen : pending x.mandatePath) :
    Accounted db₀ pending (b.setExpense (x.mandatePath, j) (chatExpense x)) where
  bucket := fun u' j' x' hx' => (h.bucket u' j' x' hx').of_entries rfl
  entry := h.entry
  user := h.user
  expense := by
    intro m j' y hy
    rw [show (b.setExpense (x.mandatePath, j) (chatExpense x)).db.expenses.get? (m, j') = _ from
      Dict.get?_set _ _ _ _] at hy
    split at hy
    · rename_i he
      cases he
      cases hy
      exact ⟨hm, Or.inr ⟨hopen, rfl, u, x, hx, rfl, rfl⟩⟩
    · exact h.expense m j' y hy
  full := by
    intro u' j' x' hx' hb
    rw [isBilled_setExpense] at hb
    split at hb
    · cases hb
    · exact h.full u' j' x' hx' hb
  nonneg := h.nonneg
  wallet := h.wallet

/-- What the loop over some buckets of a day has done: each of them with a mandate has its expense, and waits for
the wallet of the mandate if the expense is not billed. -/
structure BucketsWritten (db₀ : Db) (es : List ((String × String) × TokenUsage)) (st st' : Finalizing) :
    Prop where
  accounted : Accounted db₀ (· ∈ st'.mandatePaths) st'.books
  raised : st'.raised = false
  paths : ∀ m ∈ st'.mandatePaths, isBillablePath m = true
  keeps : ∀ ref ∈ st.books.db.expenses.keys, ref ∈ st'.books.db.expenses.keys
  usage : st'.books.db.tokenUsage = st.books.db.tokenUsage
  written : ∀ e ∈ es, e.2.mandatePath ≠ "" → (e.2.mandatePath, e.1.2) ∈ st'.books.db.expenses.keys

/-- The loop body for one bucket. -/
theorem finalizeBucket_written {st : Finalizing} {e : (String × String) × TokenUsage}
    (h : Accounted db₀ (· ∈ st.mandatePaths) st.books) (hr : st.raised = false)
    (hpaths : ∀ m ∈ st.mandatePaths, isBillablePath m = true)
    (he : st.books.db.tokenUsage.get? e.1 = some e.2) :
    BucketsWritten db₀ [e] st (finalizeBucket st e) := by
  obtain ⟨⟨u, j⟩, x⟩ := e
  have hgood := h.bucket u j x he
  have href : expenseRef ((u, j), x) = (x.mandatePath, j) := by
    simp [expenseRef, textOr, hgood.jobId_eq, hgood.jobId_ne]
  rcases hgood.path with hp | hp
  · have hskip : finalizeBucket st ((u, j), x) = st := by simp [finalizeBucket, hr, hp]
    rw [hskip]
    refine ⟨h, hr, hpaths, fun _ hk => hk, rfl, fun e he hne => ?_⟩
    rw [List.mem_singleton.mp he] at hne
    exact absurd hp hne
  · have hpne : x.mandatePath ≠ "" := by
      intro h0
      rw [h0] at hp
      exact absurd hp (by decide)
    have hdoc : isDocPath x.mandatePath = true := by
      simp only [isBillablePath, reachesWallet, Bool.and_eq_true] at hp
      exact hp.1.2
    by_cases hb : isBilled st.books.db (x.mandatePath, j) = true
    · have hskip : finalizeBucket st ((u, j), x) = st := by
        simp [finalizeBucket, hr, hpne, hdoc, href, hb]
      rw [hskip]
      refine ⟨h, hr, hpaths, fun _ hk => hk, rfl, fun e he _ => ?_⟩
      rw [List.mem_singleton.mp he]
      obtain ⟨y, hy, -⟩ := isBilled_iff.mp hb
      exact Dict.mem_keys_of_get? hy
    · have hwrite : finalizeBucket st ((u, j), x) =
          ⟨st.books.setExpense (x.mandatePath, j) (chatExpense x),
            if x.mandatePath ∈ st.mandatePaths then st.mandatePaths
            else st.mandatePaths ++ [x.mandatePath], false⟩ := by
        simp [finalizeBucket, hr, hpne, hdoc, href, hb]
      rw [hwrite]
      have hmem : ∀ m, m ∈ (if x.mandatePath ∈ st.mandatePaths
          then st.mandatePaths else st.mandatePaths ++ [x.mandatePath]) ↔
            m ∈ st.mandatePaths ∨ m = x.mandatePath := by
        intro m
        split
        · rename_i hin
          exact ⟨Or.inl, fun h => h.elim id fun he => he ▸ hin⟩
        · simp
      refine ⟨?_, rfl, fun m hm => ?_, fun ref hk => Dict.mem_keys_set.mpr (Or.inr hk), rfl,
        fun e he _ => ?_⟩
      · exact accounted_setExpense (h.mono fun m hm => (hmem m).mpr (Or.inl hm)) he hp
          ((hmem _).mpr (Or.inr rfl))
      · rcases (hmem m).mp hm with hm | rfl
        · exact hpaths m hm
        · exact hp
      · rw [List.mem_singleton.mp he]
        exact Dict.mem_keys_set.mpr (Or.inl rfl)

/-- The loop over the buckets of a day. -/
theorem buckets_written (es : List ((String × String) × TokenUsage)) (st : Finalizing)
    (h : Accounted db₀ (· ∈ st.mandatePaths) st.books) (hr : st.raised = false)
    (hpaths : ∀ m ∈ st.mandatePaths, isBillablePath m = true)
    (hes : ∀ e ∈ es, st.books.db.tokenUsage.get? e.1 = some e.2) :
    BucketsWritten db₀ es st (es.foldl finalizeBucket st) := by
  induction es generalizing st with
  | nil => exact ⟨h, hr, hpaths, fun _ hk => hk, rfl, nofun⟩
  | cons e es ih =>
      have h1 := finalizeBucket_written h hr hpaths (hes e List.mem_cons_self)
      have h2 := ih (finalizeBucket st e) h1.accounted h1.raised h1.paths
        (fun e' he' => by rw [h1.usage]; exact hes e' (List.mem_cons_of_mem _ he'))
      refine ⟨h2.accounted, h2.raised, h2.paths, fun ref hk => h2.keeps ref (h1.keeps ref hk),
        h2.usage.trans h1.usage, fun e' he' hne => ?_⟩
      rcases List.mem_cons.mp he' with rfl | he'
      · exact h2.keeps _ (h1.written _ (List.mem_singleton_self _) hne)
      · exact h2.written e' he' hne

theorem mem_unbilled {db : Db} {m : String} (hn : normalizeMandatePath m = m)
    {e : (String × String) × Expense} : e ∈ unbilledExpenses db m ↔
      db.expenses.get? e.1 = some e.2 ∧ e.1.1 = m ∧ e.2.billed = some false := by
  rw [unbilledExpenses, List.mem_filter, hn, ← Dict.mem_entries_iff]
  simp

/-- With a normalized path the wallet marks exactly the documents it has read. -/
theorem billedRefs_eq {db : Db} {m : String} (hn : normalizeMandatePath m = m) :
    billedRefs m (unbilledExpenses db m) = (unbilledExpenses db m).map Prod.fst := by
  refine List.map_congr_left fun e he => ?_
  rw [← ((mem_unbilled hn).mp he).2.1]

theorem billable_of_normalized {db : Db} {m : String} (hn : normalizeMandatePath m = m) :
    billable db m = true := by
  rw [billable, billedRefs_eq hn, List.all_eq_true]
  intro ref hr
  obtain ⟨e, he, rfl⟩ := List.mem_map.mp hr
  simpa using Dict.mem_keys_of_get? ((mem_unbilled hn).mp he).1

/-- What a wallet run charges, as a list of charges. -/
def newCharges (db : Db) (m : String) : List Charge :=
  (charged db m).map fun e => ⟨e.1, e.2.totalSalesPrice⟩

theorem mem_charged {db : Db} {m : String} {e : (String × String) × Expense} (he : e ∈ charged db m) :
    e ∈ unbilledExpenses db m := by
  unfold charged at he
  split at he
  · exact he
  · cases he

/-- The charges of one run go to the user of the mandate. -/
theorem chargedTo_newCharges {db : Db} {m : String} (hn : normalizeMandatePath m = m) (v : String) :
    chargedTo (newCharges db m) v = if v = userIdOf m then expensesOf (charged db m) else 0 := by
  have hall : ∀ c ∈ newCharges db m, c.ref.1 = m := by
    intro c hc
    obtain ⟨e, he, rfl⟩ := List.mem_map.mp hc
    exact ((mem_unbilled hn).mp (mem_charged he)).2.1
  by_cases hv : v = userIdOf m
  · rw [if_pos hv, chargedTo, List.filter_eq_self.mpr]
    · simp [newCharges, expensesOf, Function.comp_def]
    · intro c hc
      simp [hall c hc, hv]
  · rw [if_neg hv, chargedTo, List.filter_eq_nil_iff.mpr]
    · rfl
    · intro c hc
      simpa [hall c hc] using fun h => hv h.symm

/-- An unbilled expense holds the total of its bucket. -/
theorem Accounted.unbilled_total (h : Accounted db₀ pending b) {m : String}
    (hn : normalizeMandatePath m = m) {e : (String × String) × Expense}
    (he : e ∈ unbilledExpenses b.db m) :
    ∃ u x, b.db.tokenUsage.get? (u, e.1.2) = some x ∧ e.2.totalSalesPrice = x.totalSalesPrice := by
  obtain ⟨hget, -, hb⟩ := (mem_unbilled hn).mp he
  rcases (h.expense e.1.1 e.1.2 e.2 hget).2 with htrue | ⟨-, -, u, x, hx, -, ht⟩
  · rw [hb] at htrue
    cases htrue
  · exact ⟨u, x, hx, ht⟩

theorem Accounted.unbilled_nonneg (h : Accounted db₀ pending b) {m : String} (hn : normalizeMandatePath m = m)
    {e : (String × String) × Expense} (he : e ∈ unbilledExpenses b.db m) : 0 ≤ e.2.totalSalesPrice := by
  obtain ⟨u, x, hx, ht⟩ := h.unbilled_total hn he
  rw [ht]
  exact (h.bucket u _ x hx).nonneg

theorem Accounted.newCharges_nonneg (h : Accounted db₀ pending b) {m : String} (hn : normalizeMandatePath m = m) :
    ∀ c ∈ newCharges b.db m, 0 ≤ c.amount := by
  intro c hc
  obtain ⟨e, he, rfl⟩ := List.mem_map.mp hc
  exact h.unbilled_nonneg hn (mem_charged he)

/-- The bucket of an unbilled expense is charged by the run, with its current total. -/
theorem Accounted.le_newCharges (h : Accounted db₀ pending b) {m : String} (hreach : reachesWallet m = true)
    (hn : normalizeMandatePath m = m) {u j : String} {x : TokenUsage} (hx : b.db.tokenUsage.get? (u, j) = some x)
    (hin : (x.mandatePath, j) ∈ (unbilledExpenses b.db m).map Prod.fst) :
    x.totalSalesPrice ≤ chargedFor (newCharges b.db m) j := by
  obtain ⟨e, he, href⟩ := List.mem_map.mp hin
  have hj : e.1.2 = j := by rw [href]
  have ht : e.2.totalSalesPrice = x.totalSalesPrice := by
    obtain ⟨u', x', hx', ht⟩ := h.unbilled_total hn he
    rw [hj] at hx'
    obtain rfl := h.user u u' j (Dict.mem_keys_of_get? hx) (Dict.mem_keys_of_get? hx')
    obtain rfl : x' = x := Option.some.inj (hx'.symm.trans hx)
    exact ht
  by_cases hpos : expensesOf (unbilledExpenses b.db m) > 0
  · have hch : charged b.db m = unbilledExpenses b.db m := by
      simp [charged, hreach, billable_of_normalized hn, hpos]
    have hmem : (⟨e.1, e.2.totalSalesPrice⟩ : Charge) ∈ newCharges b.db m :=
      List.mem_map.mpr ⟨e, hch ▸ he, rfl⟩
    have hle := le_chargedFor (h.newCharges_nonneg hn) hmem
    simpa only [hj, ht] using hle
  · -- a sum of prices that is not positive has no positive price
    have hle : e.2.totalSalesPrice ≤ expensesOf (unbilledExpenses b.db m) := by
      refine List.single_le_sum (fun a ha => ?_) _ (List.mem_map_of_mem (f := fun e => e.2.totalSalesPrice) he)
      obtain ⟨e', he', rfl⟩ := List.mem_map.mp ha
      exact h.unbilled_nonneg hn he'
    have hnew := chargedFor_nonneg (h.newCharges_nonneg hn) j
    rw [ht] at hle
    linarith

/-- **The wallet run of a mandate** charges all its unbilled expenses in full. -/
theorem accounted_balance (h : Accounted db₀ pending b) {m : String} (hm : isBillablePath m = true) :
    Accounted db₀ (fun p => pending p ∧ p ≠ m) (b.balance m) := by
  obtain ⟨hreach, hn⟩ : reachesWallet m = true ∧ normalizeMandatePath m = m := by
    simpa [isBillablePath] using hm
  have hrec := getUserBalance_recomputed b.db m "" hreach
  have hget : ∀ ref, (b.balance m).db.expenses.get? ref =
      if ref ∈ (unbilledExpenses b.db m).map Prod.fst
      then (b.db.expenses.get? ref).map fun e => { e with billed := some true }
      else b.db.expenses.get? ref := by
    intro ref
    rw [get?_balance_expenses b hreach, billedRefs_eq hn, billable_of_normalized hn]
    by_cases hr : ref ∈ (unbilledExpenses b.db m).map Prod.fst
    · rw [if_pos ⟨rfl, hr⟩, if_pos hr]
    · rw [if_neg fun h => hr h.2, if_neg hr]
  have hcharges : (b.balance m).charges = b.charges ++ newCharges b.db m := rfl
  refine ⟨fun u j x hx => ?_, ?_, ?_, fun m' j y hy => ?_, fun u j x hx hb => ?_, ?_, fun v => ?_⟩
  · rw [show (b.balance m).db.tokenUsage = b.db.tokenUsage from hrec.tokenUsage] at hx
    exact (h.bucket u j x hx).of_entries hrec.entries
  · show ∀ u j i, (u, j, i) ∈ (getUserBalance b.db m "").1.entries.keys →
      (u, j) ∈ (getUserBalance b.db m "").1.tokenUsage.keys
    rw [hrec.entries, hrec.tokenUsage]
    exact h.entry
  · show ∀ u u' j, (u, j) ∈ (getUserBalance b.db m "").1.tokenUsage.keys →
      (u', j) ∈ (getUserBalance b.db m "").1.tokenUsage.keys → u' = u
    rw [hrec.tokenUsage]
    exact h.user
  · rw [hget] at hy
    split at hy
    · obtain ⟨y₀, hy₀, rfl⟩ := Option.map_eq_some_iff.mp hy
      exact ⟨(h.expense m' j y₀ hy₀).1, Or.inl rfl⟩
    · rename_i hno
      obtain ⟨hp, hb⟩ := h.expense m' j y hy
      refine ⟨hp, hb.imp_right ?_⟩
      intro h'
      obtain ⟨hpend, hfalse, hrest⟩ := h'
      refine ⟨⟨hpend, ?_⟩, hfalse, ?_⟩
      · rintro rfl
        exact hno (List.mem_map.mpr ⟨((m', j), y), (mem_unbilled hn).mpr ⟨hy, rfl, hfalse⟩, rfl⟩)
      · rw [show (b.balance m).db.tokenUsage = b.db.tokenUsage from hrec.tokenUsage]
        exact hrest
  · rw [show (b.balance m).db.tokenUsage = b.db.tokenUsage from hrec.tokenUsage] at hx
    rw [hcharges, chargedFor_append]
    have hold0 := chargedFor_nonneg h.nonneg j
    have hnew0 := chargedFor_nonneg (h.newCharges_nonneg hn) j
    by_cases hin : (x.mandatePath, j) ∈ (unbilledExpenses b.db m).map Prod.fst
    · have hle := h.le_newCharges hreach hn hx hin
      linarith
    · have hb' : isBilled b.db (x.mandatePath, j) = true := by
        rw [isBilled_iff, hget, if_neg hin] at hb
        exact isBilled_iff.mpr hb
      have := h.full u j x hx hb'
      linarith
  · intro c hc
    rw [hcharges, List.mem_append] at hc
    exact hc.elim (h.nonneg c) (h.newCharges_nonneg hn c)
  · rw [hcharges, chargedTo_append, chargedTo_newCharges hn]
    show ((getUserBalance b.db m "").1.wallets v).currentExpenses = _
    by_cases hv : v = userIdOf m
    · rw [hv, hrec.currentExpenses, h.wallet, if_pos rfl, add_assoc]
    · rw [hrec.others v hv, h.wallet, if_neg hv, add_zero]

/-- The wallet runs of a list of mandates. -/
theorem accounted_balances (ms : List String) (h : Accounted db₀ pending b)
    (hms : ∀ m ∈ ms, isBillablePath m = true) :
    Accounted db₀ (fun p => pending p ∧ p ∉ ms) (ms.foldl Books.balance b) := by
  induction ms generalizing b pending with
  | nil => exact h.mono fun p hp => ⟨hp, List.not_mem_nil⟩
  | cons m ms ih =>
      rw [List.foldl_cons]
      refine (ih (accounted_balance h (hms m List.mem_cons_self)) fun m' hm' =>
        hms m' (List.mem_cons_of_mem _ hm')).mono ?_
      intro p h
      obtain ⟨⟨hp, hne⟩, hno⟩ := h
      exact ⟨hp, fun hmem => (List.mem_cons.mp hmem).elim hne hno⟩

theorem balances_frame (ms : List String) (b : Books) (hms : ∀ m ∈ ms, isBillablePath m = true) :
    (ms.foldl Books.balance b).db.expenses.keys = b.db.expenses.keys ∧
      (ms.foldl Books.balance b).db.tokenUsage = b.db.tokenUsage := by
  induction ms generalizing b with
  | nil => exact ⟨rfl, rfl⟩
  | cons m ms ih =>
      have hreach : reachesWallet m = true := by
        have := hms m List.mem_cons_self
        simp only [isBillablePath, Bool.and_eq_true] at this
        exact this.1
      have hrec := getUserBalance_recomputed b.db m "" hreach
      have hkeys : (b.balance m).db.expenses.keys = b.db.expenses.keys := by
        show (getUserBalance b.db m "").1.expenses.keys = _
        rw [hrec.expenses]
        split
        · exact Dict.keys_modifyAll _ _ _
        · rfl
      obtain ⟨h1, h2⟩ := ih (b.balance m) fun m' hm' => hms m' (List.mem_cons_of_mem _ hm')
      exact ⟨h1.trans hkeys, h2.trans hrec.tokenUsage⟩

theorem mem_chatBuckets {db : Db} {date : String} {e : (String × String) × TokenUsage} :
    e ∈ chatBuckets db date ↔
      db.tokenUsage.get? e.1 = some e.2 ∧ e.2.billingKind = "chat_daily" ∧ e.2.billingDate = date := by
  rw [chatBuckets, List.mem_insertionSort, List.mem_filter, ← Dict.mem_entries_iff]
  simp

/-- What the hourly task has done for some days. -/
structure DaysDone (db₀ : Db) (dates : List String) (b : Books) (r : Books × Bool) : Prop where
  accounted : Accounted db₀ (fun _ => False) r.1
  raised : r.2 = false
  keeps : ∀ ref ∈ b.db.expenses.keys, ref ∈ r.1.db.expenses.keys
  usage : r.1.db.tokenUsage = b.db.tokenUsage
  written : ∀ date ∈ dates, ∀ e ∈ chatBuckets b.db date, e.2.mandatePath ≠ "" →
    (e.2.mandatePath, e.1.2) ∈ r.1.db.expenses.keys

theorem finalizeDay_done (h : Accounted db₀ (fun _ => False) b) (order : SetOrder) (date : String) :
    DaysDone db₀ [date] b (finalizeDay order (b, false) date) := by
  have hstart : Accounted db₀ (· ∈ (⟨b, [], false⟩ : Finalizing).mandatePaths) b :=
    h.mono fun _ hf => hf.elim
  have hw := buckets_written (chatBuckets b.db date) ⟨b, [], false⟩ hstart rfl nofun
    fun e he => (mem_chatBuckets.mp he).1
  have hrun : finalizeDay order (b, false) date =
      ((order.visit ((chatBuckets b.db date).foldl finalizeBucket ⟨b, [], false⟩).mandatePaths).foldl
        Books.balance ((chatBuckets b.db date).foldl finalizeBucket ⟨b, [], false⟩).books, false) := by
    simp [finalizeDay, hw.raised]
  rw [hrun]
  generalize (chatBuckets b.db date).foldl finalizeBucket ⟨b, [], false⟩ = st at hw
  have hvisit : ∀ m ∈ order.visit st.mandatePaths, isBillablePath m = true := fun m hm =>
    hw.paths m ((order.perm _).mem_iff.mp hm)
  obtain ⟨hkeys, husage⟩ := balances_frame (order.visit st.mandatePaths) st.books hvisit
  refine ⟨(accounted_balances _ hw.accounted hvisit).mono ?_, rfl, fun ref hk => ?_,
    husage.trans hw.usage, fun d hd e he hne => ?_⟩
  · intro p h'
    obtain ⟨hin, hno⟩ := h'
    exact hno ((order.perm _).mem_iff.mpr hin)
  · rw [hkeys]
    exact hw.keeps ref hk
  · rw [List.mem_singleton.mp hd] at he
    rw [hkeys]
    exact hw.written e he hne

/-- **A run of the hourly task** keeps the books accounted for, and gives every bucket of its days that has a
mandate its expense. -/
theorem finalize_done (h : Accounted db₀ (fun _ => False) b) (order : SetOrder) (dates : List String) :
    DaysDone db₀ dates b (dates.foldl (finalizeDay order) (b, false)) := by
  induction dates generalizing b with
  | nil => exact ⟨h, rfl, fun _ hk => hk, rfl, nofun⟩
  | cons date dates ih =>
      have h1 := finalizeDay_done h order date
      have h2 := ih h1.accounted
      have hstart : finalizeDay order (b, false) date = ((finalizeDay order (b, false) date).1, false) :=
        Prod.ext rfl h1.raised
      rw [List.foldl_cons, hstart]
      refine ⟨h2.accounted, h2.raised, fun ref hk => h2.keeps ref (h1.keeps ref hk),
        h2.usage.trans h1.usage, fun d hd e he hne => ?_⟩
      rcases List.mem_cons.mp hd with rfl | hd
      · exact h2.keeps _ (h1.written d (List.mem_singleton_self d) e he hne)
      · refine h2.written d hd e ?_ hne
        rwa [chatBuckets_congr h1.usage]

/-- **One operation.** -/
theorem accounted_step (h : Accounted db₀ (fun _ => False) b) (op : UsageOp) (hin : comesInTime b op) :
    Accounted db₀ (fun _ => False) (applyUsage b op) := by
  cases op with
  | upload userId jobId entryId data => exact accounted_upload h hin
  | finalize order dates => exact (finalize_done h order dates).accounted

end

/-! ### Whole sequences -/

/-- A wallet, and no usage yet. -/
def noUsage : Db := ⟨fun _ => ⟨20, 0, 20⟩, ∅, ∅, ∅, ∅⟩

/-- A chat event of the given price. -/
def chatEvent (price : ℚ) (mandatePath : String) : UsageEntry :=
  ⟨10, 10, 20, 1, price, mandatePath, "", ""⟩

end Pinnokio.Billing
