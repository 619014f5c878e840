import Pinnokio.Lib.PyBuiltins

/-!
# The hash of a ledger entry

The sync of the general ledger hashes a dictionary of an entry's data and stages the entry as a record; the upsert skips
an entry whose row has its hash.  The dictionary and the record are built by two lists of expressions, with conversions
and defaults of their own.  The records of the ERP here are dictionaries of any values, as they come.

* `odooGlToNeonEntry`, `hashedRow`, `stagedRecord` — from a record of the ERP to an entry, and from there on;
* `toDate_eq_of_str_eq` — the texts of two values determine their dates;
* `Produced` — what every entry of the ERP has: `produced`;
* `staged_eq_of_hash_eq` — **entries with the same hash are staged as the same record**, but for the time of their last
  update.
-/

namespace Pinnokio.Ledger.GlHash

open Pinnokio.PyBuiltins Pinnokio.PyJson Pinnokio.Text

/-- A dictionary with texts as keys. -/
abbrev Record (F O : Type) := Dict String (PyValue F O)

section

variable {F O : Type} (I : Interpreter F O)

/-- `d.get(key, default)`. -/
def get (d : Record F O) (key : String) (default : PyValue F O := .none) : PyValue F O := (d.get? key).getD default

/-! ### From a record of the ERP to an entry -/

/-- `_extract_tuple_field`. -/
def extractTupleField (value : PyValue F O) (index : ℕ := 0) : PyValue F O :=
  match items? value with
  | none => value
  | some items => (items[index]?).getD value

/-- `_safe_float`; `none` is an `OverflowError`. -/
def safeFloat (value : PyValue F O) (default : PyFloat F := .finite I.zero) : Option (PyFloat F) :=
  match value with
  | .none => some default
  | .bool false => some default
  | v =>
      match toFloat I v with
      | .ok x => some x
      | .error .invalid => some default
      | .error .overflow => none

/-- The display name of a reference, a list or tuple of an id and a name. -/
def displayName (value otherwise : PyValue F O) : PyValue F O :=
  match items? value with
  | some _ => extractTupleField value 1
  | none => otherwise

/-- The code that the mapping has for a journal, or the empty text. -/
def mappedCode (journalIdToCode : Dict ℤ (PyValue F O)) (journalId : PyValue F O) : Option (PyValue F O) :=
  if journalIdToCode.isEmpty then some (.str "")
  else
    match items? journalId with
    | some (x :: _) => (toInt I x).map fun jid => (journalIdToCode.get? jid).getD (.str "")
    | _ => some (.str "")

/-- `journal_code`. -/
def journalCode (journalIdToCode : Dict ℤ (PyValue F O)) (journalId : PyValue F O) : Option (PyValue F O) :=
  (mappedCode I journalIdToCode journalId).map fun code =>
    if truthy I code then code
    else .str (takeChars 10 (str I (displayName journalId (.str (str I (pyOr I journalId (.str "")))))))

/-- `currency_erp_id`. -/
def currencyErpId (currency : PyValue F O) : Option (PyValue F O) :=
  match items? currency with
  | some (x :: _) => (toInt I x).map .int
  | _ => some .none

/-- `account_number`; only a text has `split`. -/
def accountNumber (accountId : PyValue F O) : Option (PyValue F O) :=
  match items? accountId with
  | some (_ :: _) =>
      match extractTupleField accountId 1 with
      | .str name => some (.str ((split name ' ').headD ""))
      | _ => none
  | _ => some (.str "")

/-- `reconciliation_ref`. -/
def reconciliationRef (fullReconcileId : PyValue F O) : PyValue F O :=
  let v := displayName fullReconcileId .none
  if truthy I v then .str (takeChars 20 (str I v)) else .none

/-- `_map_parent_state`. -/
def mapParentState (state : PyValue F O) : String :=
  let s := str I (pyOr I state (.str ""))
  if s = "posted" ∨ s = "draft" ∨ s = "cancel" then s else "posted"

/-- `_odoo_gl_to_neon_entry`; `none` is any exception, and no mapping is the empty one. -/
def odooGlToNeonEntry (journalIdToCode : Dict ℤ (PyValue F O)) (record : Record F O) : Option (Record F O) := do
  let code ← journalCode I journalIdToCode (get record "journal_id")
  let currencyId ← currencyErpId I (get record "currency_id")
  let amountCurrency ← safeFloat I (get record "amount_currency")
  let rawRate ← safeFloat I (get record "currency_rate")
  let number ← accountNumber (get record "account_id")
  let debit ← safeFloat I (get record "debit")
  let credit ← safeFloat I (get record "credit")
  return Dict.ofList
    [("entry_id", .str (str I (get record "id" (.str "")))),
      ("entry_date", get record "date"),
      ("last_update_date", get record "write_date"),
      ("journal_code", code),
      ("document_ref", displayName (get record "move_id") (get record "move_ref")),
      ("account_number", number),
      ("account_name", displayName (get record "account_id") (.str "")),
      ("description", pyOr I (get record "name") (.str "")),
      ("partner_name", displayName (get record "partner_id") .none),
      ("debit", .float debit),
      ("credit", .float credit),
      ("reconciliation_ref", reconciliationRef I (get record "full_reconcile_id")),
      ("entry_state", .str (mapParentState I (get record "parent_state"))),
      ("currency", displayName (get record "currency_id") (.str "CHF")),
      ("currency_erp_id", currencyId),
      ("amount_currency_value", if isNonzero I amountCurrency then .float amountCurrency else .none),
      ("exchange_rate", .float (if isPositive I rawRate then rawRate else .finite I.one))]

/-! ### The hash and the record -/

/-- The items of the dictionary that `incremental_sync_gl_entries` hashes for an entry. -/
def hashedItems (e : Record F O) : List (String × PyValue F O) :=
  [("entry_id", get e "entry_id"),
    ("entry_date", .str (str I (pyOr I (get e "entry_date") (get e "date_ecriture" (.str ""))))),
    ("journal_code", get e "journal_code" (.str "")),
    ("document_ref", pyOr I (get e "document_ref") (get e "piece_number")),
    ("account_number", pyOr I (get e "account_number") (get e "compte" (.str ""))),
    ("account_name", pyOr I (get e "account_name") (get e "compte_label")),
    ("description", pyOr I (get e "description") (get e "libelle")),
    ("partner_name", get e "partner_name"),
    ("debit", .str (str I (get e "debit" (.int 0)))),
    ("credit", .str (str I (get e "credit" (.int 0)))),
    ("reconciliation_ref", pyOr I (get e "reconciliation_ref") (get e "lettrage")),
    ("entry_state", get e "entry_state" (.str "posted")),
    ("currency", pyOr I (get e "currency") (get e "devise" (.str "CHF"))),
    ("exchange_rate",
      .str (str I (pyOr I (get e "exchange_rate") (get e "taux_change" (.float (.finite I.one)))))),
    ("amount_currency_value", .str (str I (get e "amount_currency_value"))),
    ("currency_erp_id", .str (str I (get e "currency_erp_id")))]

/-- The dictionary itself. -/
def hashedRow (e : Record F O) : Record F O := Dict.ofList (hashedItems I e)

/-- The fields of control, which are not hashed. -/
def excluded : List String :=
  ["pinnokio_checked_time", "pinnokio_hash", "pinnokio_version", "is_deleted", "created_at", "updated_at", "id"]

/-- `_compute_hash`; `digest` is SHA-256 of the JSON text with sorted keys. -/
def computeHash {H : Type} (digest : Record F O → H) (row : Record F O) : H :=
  digest (Dict.ofList (row.entries.filter fun e => e.1 ∉ excluded))

/-- `_to_date`; the outer `none` is the `ValueError`. -/
def toDate : PyValue F O → Option (Option I.Date)
  | .none => some none
  | .object o =>
      match I.asDate o with
      | some d => some (some d)
      | none => (I.asDatetime o).map fun t => some (I.date t)
  | .str s => (I.fromisoformat (takeChars 10 s)).map some
  | _ => none

/-- `_to_datetime`. -/
def toDatetime : PyValue F O → Option (Option I.Datetime)
  | .none => some none
  | .object o =>
      match I.asDatetime o with
      | some t => some (some t)
      | none => (I.asDate o).map fun d => some (I.midnight d)
  | .str s =>
      let stripped := strip s
      ((I.datetimeFromisoformat stripped).or (I.datetimeFromisoformat (replaceChar stripped ' ' "T"))).map some
  | _ => none

/-- A record as `incremental_sync_gl_entries` stages it. -/
structure StagedRecord (H : Type) where
  entryId : String
  entryDate : Option I.Date
  lastUpdateDate : Option I.Datetime
  journalCode : String
  documentRef : PyValue F O
  accountNumber : String
  accountName : PyValue F O
  description : PyValue F O
  partnerName : PyValue F O
  debit : PyFloat F
  credit : PyFloat F
  reconciliationRef : PyValue F O
  entryState : PyValue F O
  currency : PyValue F O
  exchangeRate : PyFloat F
  amountCurrencyValue : PyValue F O
  currencyErpId : PyValue F O
  pinnokioHash : H

/-- The record of an entry in `incremental_sync_gl_entries`; `none` is any exception. -/
def stagedRecord {H : Type} (digest : Record F O → H) (e : Record F O) : Option (StagedRecord I H) := do
  let entryDate ← toDate I (pyOr I (get e "entry_date") (get e "date_ecriture"))
  let lastUpdateDate ← toDatetime I (get e "last_update_date")
  let debit ← (toFloat I (get e "debit" (.int 0))).toOption
  let credit ← (toFloat I (get e "credit" (.int 0))).toOption
  let exchangeRate ←
    (toFloat I (pyOr I (get e "exchange_rate") (get e "taux_change" (.float (.finite I.one))))).toOption
  return {
    entryId := str I (get e "entry_id" (.str ""))
    entryDate := entryDate
    lastUpdateDate := lastUpdateDate
    journalCode := str I (get e "journal_code" (.str ""))
    documentRef := pyOr I (get e "document_ref") (get e "piece_number")
    accountNumber := str I (pyOr I (get e "account_number") (get e "compte" (.str "")))
    accountName := pyOr I (get e "account_name") (get e "compte_label")
    description := pyOr I (get e "description") (get e "libelle")
    partnerName := get e "partner_name"
    debit := debit
    credit := credit
    reconciliationRef := pyOr I (get e "reconciliation_ref") (get e "lettrage")
    entryState := get e "entry_state" (.str "posted")
    currency := pyOr I (get e "currency") (get e "devise" (.str "CHF"))
    exchangeRate := exchangeRate
    amountCurrencyValue := get e "amount_currency_value"
    currencyErpId := get e "currency_erp_id"
    pinnokioHash := computeHash digest (hashedRow I e) }

/-! ### What is hashed -/

/-- The keys of the dictionary. -/
def hashedKeys : List String :=
  ["entry_id", "entry_date", "journal_code", "document_ref", "account_number", "account_name", "description",
    "partner_name", "debit", "credit", "reconciliation_ref", "entry_state", "currency", "exchange_rate",
    "amount_currency_value", "currency_erp_id"]

theorem keys_hashedItems (e : Record F O) : (hashedItems I e).map Prod.fst = hashedKeys := rfl

theorem nodup_hashedItems (e : Record F O) : ((hashedItems I e).map Prod.fst).Nodup := by
  rw [keys_hashedItems]
  decide

theorem entries_hashedRow (e : Record F O) : (hashedRow I e).entries = hashedItems I e :=
  Dict.entries_ofList (nodup_hashedItems I e)

variable {I}

/-- No field of control is among them. -/
theorem computeHash_hashedRow {H : Type} (digest : Record F O → H) (e : Record F O) :
    computeHash digest (hashedRow I e) = digest (hashedRow I e) := by
  have hkeys : ∀ k ∈ hashedKeys, k ∉ excluded := by decide
  have hfilter : (hashedRow I e).entries.filter (fun e => e.1 ∉ excluded) = (hashedRow I e).entries := by
    refine List.filter_eq_self.mpr fun p hp => decide_eq_true (hkeys p.1 ?_)
    rw [← keys_hashedItems I e, ← entries_hashedRow]
    exact List.mem_map_of_mem hp
  rw [computeHash, hfilter, Dict.ofList_entries]

/-- A digest that determines the values of a dictionary determines its items, if their keys are those that are
hashed. -/
theorem items_eq_of_digest_eq {H : Type} {digest : Record F O → H}
    (hdigest : ∀ b b', digest b = digest b' → ∀ k, b.get? k = b'.get? k) {items items' : List (String × PyValue F O)}
    (hkeys : items.map Prod.fst = hashedKeys) (hkeys' : items'.map Prod.fst = hashedKeys)
    (h : digest (Dict.ofList items) = digest (Dict.ofList items')) : items = items' := by
  have hnodup : hashedKeys.Nodup := by decide
  have hitems : (items.map Prod.fst).Nodup := hkeys ▸ hnodup
  have hitems' : (items'.map Prod.fst).Nodup := hkeys' ▸ hnodup
  refine Dict.entries_ext (hkeys.trans hkeys'.symm) hitems fun k => ?_
  have hget := hdigest _ _ h k
  rwa [Dict.get?, Dict.get?, Dict.entries_ofList hitems, Dict.entries_ofList hitems'] at hget

/-- The hash of an entry determines what is hashed of it. -/
theorem hashedItems_eq {H : Type} {digest : Record F O → H}
    (hdigest : ∀ b b', digest b = digest b' → ∀ k, b.get? k = b'.get? k) {e e' : Record F O}
    (h : computeHash digest (hashedRow I e) = computeHash digest (hashedRow I e')) :
    hashedItems I e = hashedItems I e' := by
  rw [computeHash_hashedRow, computeHash_hashedRow] at h
  exact items_eq_of_digest_eq hdigest (keys_hashedItems I e) (keys_hashedItems I e') h

/-! ### Dates -/

/-- **What is converted to a date** is the date that its text starts with. -/
theorem toDate_eq_some {v : PyValue F O} {d : Option I.Date} (h : toDate I v = some d) (hv : v ≠ .none) :
    ∃ day, d = some day ∧ I.fromisoformat (takeChars 10 (str I v)) = some day := by
  cases v with
  | none => exact absurd rfl hv
  | bool => cases h
  | int => cases h
  | float => cases h
  | list => cases h
  | tuple => cases h
  | dict => cases h
  | str s =>
      obtain ⟨day, hday, rfl⟩ := Option.map_eq_some_iff.mp h
      exact ⟨day, rfl, hday⟩
  | object o =>
      rw [toDate] at h
      split at h
      · next day hday => exact ⟨day, (Option.some.inj h).symm, I.fromisoformat_asDate o day hday⟩
      · obtain ⟨t, ht, rfl⟩ := Option.map_eq_some_iff.mp h
        exact ⟨I.date t, rfl, I.fromisoformat_asDatetime o t ht⟩

/-- A value with a date, and its text; a value that counts as false has neither. -/
theorem toDate_cases {v : PyValue F O} {d : Option I.Date} (h : toDate I (pyOr I v .none) = some d) :
    (d = none ∧ str I (pyOr I v (.str "")) = "") ∨
      ∃ day, d = some day ∧ I.fromisoformat (takeChars 10 (str I (pyOr I v (.str "")))) = some day := by
  unfold pyOr at h ⊢
  by_cases hv : truthy I v = true
  · rw [if_pos hv] at h ⊢
    have hne : v ≠ .none := by
      rintro rfl
      exact Bool.noConfusion hv
    exact .inr (toDate_eq_some h hne)
  · rw [if_neg hv] at h ⊢
    exact .inl ⟨(Option.some.inj h).symm, rfl⟩

/-- **The texts of two values determine their dates.** -/
theorem toDate_eq_of_str_eq {v v' : PyValue F O} {d d' : Option I.Date} (h : toDate I (pyOr I v .none) = some d)
    (h' : toDate I (pyOr I v' .none) = some d')
    (hstr : str I (pyOr I v (.str "")) = str I (pyOr I v' (.str ""))) : d = d' := by
  have hempty : ∀ day, I.fromisoformat (takeChars 10 "") ≠ some day := by
    intro day hday
    have hnone : I.fromisoformat (takeChars 10 "") = none := I.fromisoformat_empty
    rw [hnone] at hday
    cases hday
  rcases toDate_cases h with ⟨rfl, htext⟩ | ⟨day, rfl, hday⟩
  · rcases toDate_cases h' with ⟨rfl, -⟩ | ⟨day', rfl, hday'⟩
    · rfl
    · rw [← hstr, htext] at hday'
      exact absurd hday' (hempty day')
  · rcases toDate_cases h' with ⟨rfl, htext'⟩ | ⟨day', rfl, hday'⟩
    · rw [hstr, htext'] at hday
      exact absurd hday (hempty day)
    · rw [← hstr, hday] at hday'
      exact hday'

/-! ### Entries of the ERP -/

/-- A number, or none. -/
def OptionalFloat (v : PyValue F O) : Prop := v = .none ∨ ∃ x, v = .float x

/-- An integer, or none. -/
def OptionalInt (v : PyValue F O) : Prop := v = .none ∨ ∃ n, v = .int n

/-- What the entries of the ERP have: an id, numbers of their types, and none of the old French keys. -/
structure Produced (e : Record F O) : Prop where
  entryId : ∃ id, e.get? "entry_id" = some id
  debit : ∃ x, e.get? "debit" = some (.float x)
  credit : ∃ x, e.get? "credit" = some (.float x)
  exchangeRate : ∃ x, e.get? "exchange_rate" = some (.float x)
  amountCurrencyValue : OptionalFloat (get e "amount_currency_value")
  currencyErpId : OptionalInt (get e "currency_erp_id")
  dateEcriture : e.get? "date_ecriture" = none
  tauxChange : e.get? "taux_change" = none

theorem optionalInt_currencyErpId {currency v : PyValue F O} (h : currencyErpId I currency = some v) :
    OptionalInt v := by
  unfold currencyErpId at h
  split at h
  · obtain ⟨n, -, rfl⟩ := Option.map_eq_some_iff.mp h
    exact .inr ⟨n, rfl⟩
  · exact .inl (Option.some.inj h).symm

/-- **Every entry of the ERP is of this kind**, whatever its record holds. -/
theorem produced {journalIdToCode : Dict ℤ (PyValue F O)} {record e : Record F O}
    (h : odooGlToNeonEntry I journalIdToCode record = some e) : Produced e := by
  unfold odooGlToNeonEntry at h
  simp only [Option.bind_eq_bind, Option.bind_eq_some_iff, Option.pure_def, Option.some.injEq] at h
  obtain ⟨code, -, currencyId, hcurrency, amount, -, rate, -, number, -, debit, -, credit, -, rfl⟩ := h
  have hamount : OptionalFloat (if isNonzero I amount then .float amount else .none : PyValue F O) := by
    split
    · exact .inr ⟨amount, rfl⟩
    · exact .inl rfl
  constructor
  all_goals simp only [get, Dict.get?_ofList]
  · exact ⟨_, rfl⟩
  · exact ⟨_, rfl⟩
  · exact ⟨_, rfl⟩
  · exact ⟨_, rfl⟩
  · exact hamount
  · exact optionalInt_currencyErpId hcurrency
  · rfl
  · rfl

theorem get_of_get? {d : Record F O} {key : String} {v : PyValue F O} (h : d.get? key = some v)
    (default : PyValue F O) : get d key default = v := by
  rw [get, h, Option.getD_some]

theorem get_of_none {d : Record F O} {key : String} (h : d.get? key = none) (default : PyValue F O) :
    get d key default = default := by
  rw [get, h, Option.getD_none]

/-- The texts of two such numbers determine them. -/
theorem OptionalFloat.eq_of_str_eq {v v' : PyValue F O} (hv : OptionalFloat v) (hv' : OptionalFloat v')
    (h : str I v = str I v') : v = v' := by
  rcases hv with rfl | ⟨x, rfl⟩
  · rcases hv' with rfl | ⟨y, rfl⟩
    · rfl
    · exact absurd h.symm (str_float_ne_none y)
  · rcases hv' with rfl | ⟨y, rfl⟩
    · exact absurd h (str_float_ne_none x)
    · rw [str_float_injective h]

theorem OptionalInt.eq_of_str_eq {v v' : PyValue F O} (hv : OptionalInt v) (hv' : OptionalInt v')
    (h : str I v = str I v') : v = v' := by
  rcases hv with rfl | ⟨n, rfl⟩
  · rcases hv' with rfl | ⟨m, rfl⟩
    · rfl
    · exact absurd h.symm (str_int_ne_none m)
  · rcases hv' with rfl | ⟨m, rfl⟩
    · exact absurd h (str_int_ne_none n)
    · rw [str_int_injective h]

/-- A float is staged as itself, so that its text determines what is staged. -/
theorem staged_float_eq {v v' : PyValue F O} {x x' : PyFloat F} (hv : ∃ y, v = .float y) (hv' : ∃ y, v' = .float y)
    (hx : (toFloat I v).toOption = some x) (hx' : (toFloat I v').toOption = some x') (h : str I v = str I v') :
    x = x' := by
  obtain ⟨y, rfl⟩ := hv
  obtain ⟨y', rfl⟩ := hv'
  obtain rfl : y = x := Option.some.inj hx
  obtain rfl : y' = x' := Option.some.inj hx'
  exact str_float_injective h

namespace Produced

variable {e : Record F O} (he : Produced e)

include he

theorem debit_float (default : PyValue F O) : ∃ x, get e "debit" default = .float x := by
  obtain ⟨x, hx⟩ := he.debit
  exact ⟨x, get_of_get? hx default⟩

theorem credit_float (default : PyValue F O) : ∃ x, get e "credit" default = .float x := by
  obtain ⟨x, hx⟩ := he.credit
  exact ⟨x, get_of_get? hx default⟩

/-- The rate, or the default one if it counts as false. -/
theorem exchangeRate_float (y : PyFloat F) :
    ∃ x, pyOr I (get e "exchange_rate") (get e "taux_change" (.float y)) = .float x := by
  obtain ⟨x, hx⟩ := he.exchangeRate
  rw [get_of_get? hx, get_of_none he.tauxChange, pyOr]
  split
  · exact ⟨x, rfl⟩
  · exact ⟨y, rfl⟩

theorem entryId_eq (default default' : PyValue F O) : get e "entry_id" default = get e "entry_id" default' := by
  obtain ⟨id, hid⟩ := he.entryId
  rw [get_of_get? hid, get_of_get? hid]

theorem dateEcriture_eq (default : PyValue F O) : get e "date_ecriture" default = default :=
  get_of_none he.dateEcriture default

end Produced

/-- Entries of this kind with the same hash are staged alike. -/
theorem Produced.staged_eq {H : Type} {digest : Record F O → H}
    (hdigest : ∀ b b', digest b = digest b' → ∀ k, b.get? k = b'.get? k) {e e' : Record F O} (hp : Produced e)
    (hp' : Produced e') {r r' : StagedRecord I H} (hr : stagedRecord I digest e = some r)
    (hr' : stagedRecord I digest e' = some r') (hhash : r.pinnokioHash = r'.pinnokioHash) :
    r' = { r with lastUpdateDate := r'.lastUpdateDate } := by
  simp only [stagedRecord, Option.bind_eq_bind, Option.bind_eq_some_iff, Option.pure_def, Option.some.injEq] at hr hr'
  obtain ⟨day, hday, updated, -, debit, hdebit, credit, hcredit, rate, hrate, rfl⟩ := hr
  obtain ⟨day', hday', updated', -, debit', hdebit', credit', hcredit', rate', hrate', rfl⟩ := hr'
  -- the items agree one by one; what is left is to compare the texts that are hashed with the values that are staged
  have hitems := hashedItems_eq hdigest hhash
  simp only [hashedItems, List.cons.injEq, Prod.mk.injEq, true_and, and_true, PyValue.str.injEq] at hitems
  obtain ⟨hid, hdate, hjournal, hdocument, hnumber, hname, hdescription, hpartner, hdebits, hcredits, hreconciliation,
    hstate, hcurrency, hrates, hamounts, hcurrencyIds⟩ := hitems
  have hids : get e' "entry_id" (.str "") = get e "entry_id" (.str "") := by
    rw [hp.entryId_eq _ .none, hp'.entryId_eq _ .none, hid]
  have hdays : day' = day := by
    rw [hp.dateEcriture_eq] at hday hdate
    rw [hp'.dateEcriture_eq] at hday' hdate
    exact (toDate_eq_of_str_eq hday hday' hdate).symm
  have hdebit : debit' = debit := (staged_float_eq (hp.debit_float _) (hp'.debit_float _) hdebit hdebit' hdebits).symm
  have hcredit : credit' = credit :=
    (staged_float_eq (hp.credit_float _) (hp'.credit_float _) hcredit hcredit' hcredits).symm
  have hrate : rate' = rate :=
    (staged_float_eq (hp.exchangeRate_float _) (hp'.exchangeRate_float _) hrate hrate' hrates).symm
  have hamount : get e' "amount_currency_value" = get e "amount_currency_value" :=
    (hp.amountCurrencyValue.eq_of_str_eq hp'.amountCurrencyValue hamounts).symm
  have hcurrencyId : get e' "currency_erp_id" = get e "currency_erp_id" :=
    (hp.currencyErpId.eq_of_str_eq hp'.currencyErpId hcurrencyIds).symm
  have hhash : computeHash digest (hashedRow I e') = computeHash digest (hashedRow I e) := hhash.symm
  rw [hids, hdays, ← hjournal, ← hdocument, ← hnumber, ← hname, ← hdescription, ← hpartner, hdebit, hcredit,
    ← hreconciliation, ← hstate, ← hcurrency, hrate, hamount, hcurrencyId, hhash]

/-- **Equal hashes mean equal records**: two entries of the ERP with the same hash are staged with the same values in
every column but that of their last update. -/
theorem staged_eq_of_hash_eq {H : Type} {digest : Record F O → H}
    (hdigest : ∀ b b', digest b = digest b' → ∀ k, b.get? k = b'.get? k)
    {journals journals' : Dict ℤ (PyValue F O)} {record record' e e' : Record F O} {r r' : StagedRecord I H}
    (he : odooGlToNeonEntry I journals record = some e) (he' : odooGlToNeonEntry I journals' record' = some e')
    (hr : stagedRecord I digest e = some r) (hr' : stagedRecord I digest e' = some r')
    (hhash : r.pinnokioHash = r'.pinnokioHash) : r' = { r with lastUpdateDate := r'.lastUpdateDate } :=
  (produced he).staged_eq hdigest (produced he') hr hr' hhash

end

/-- The number before `.0`, or a special float. -/
def parseWhole (s : String) : Option (PyFloat ℤ) :=
  match Numbers.int? (String.ofList s.toList.dropLast.dropLast) with
  | some n => some (.finite n)
  | none =>
      if s = "nan" then some .nan
      else if s = "inf" then some (.inf false)
      else if s = "-inf" then some (.inf true)
      else none

theorem parseWhole_text (x : PyFloat ℤ) : parseWhole (floatText (fun n => toString n ++ ".0") x) = some x := by
  cases x with
  | nan => rfl
  | inf negative => cases negative <;> rfl
  | finite n =>
      have hlist : (toString n ++ ".0").toList.dropLast.dropLast = (toString n).toList := by
        rw [String.toList_append, show ".0".toList = ['.'] ++ ['0'] from rfl, ← List.append_assoc, List.dropLast_concat,
          List.dropLast_concat]
      rw [floatText, parseWhole, hlist, String.ofList_toList, Numbers.int?_toString_int]

/-- Whole numbers as floats, no other objects, and dates by their texts. -/
def wholeNumbers : Interpreter ℤ Empty where
  zero := 0
  one := 1
  isZero x := x = 0
  isPositive x := 0 < x
  repr n := toString n ++ ".0"
  parse := parseWhole
  parse_text := parseWhole_text
  parse_none := by decide
  ofInt n := some n
  trunc := id
  strOther _ := ""
  isTrue := nofun
  floatOf := nofun
  intOf := nofun
  Date := String
  Datetime := String
  date t := takeChars 10 t
  midnight d := d ++ " 00:00:00"
  asDate := nofun
  asDatetime := nofun
  fromisoformat s := if s = "" then none else some s
  fromisoformat_empty := rfl
  fromisoformat_asDate := nofun
  fromisoformat_asDatetime := nofun
  datetimeFromisoformat s := some s

/-- A line of the ERP that was written at some time. -/
def lineWritten (writeDate : String) : Record ℤ Empty :=
  Dict.ofList
    [("id", .int 7), ("date", .str "2025-01-31"), ("write_date", .str writeDate),
      ("account_id", .tuple [.int 3, .str "1020 Bank"]), ("debit", .float (.finite 100)),
      ("amount_currency", .bool false)]

/-- A line that is written again and not changed: only the time of the last update differs. -/
theorem staged_eq_after_rewrite : ∃ e e' r r',
    odooGlToNeonEntry wholeNumbers ∅ (lineWritten "2025-02-01 10:00:00") = some e ∧
      odooGlToNeonEntry wholeNumbers ∅ (lineWritten "2025-03-01 10:00:00") = some e' ∧
      stagedRecord wholeNumbers id e = some r ∧ stagedRecord wholeNumbers id e' = some r' ∧
      r'.lastUpdateDate ≠ r.lastUpdateDate ∧ r' = { r with lastUpdateDate := r'.lastUpdateDate } := by
  have hdigest : ∀ b b' : Record ℤ Empty, id b = id b' → ∀ k, b.get? k = b'.get? k := by
    intro b b' h k
    exact congrArg (fun d => Dict.get? d k) h
  have hsame : ∀ e e' r r', odooGlToNeonEntry wholeNumbers ∅ (lineWritten "2025-02-01 10:00:00") = some e →
      odooGlToNeonEntry wholeNumbers ∅ (lineWritten "2025-03-01 10:00:00") = some e' →
      stagedRecord wholeNumbers id e = some r → stagedRecord wholeNumbers id e' = some r' →
      r.pinnokioHash = r'.pinnokioHash → r' = { r with lastUpdateDate := r'.lastUpdateDate } :=
    fun _ _ _ _ he he' hr hr' hhash => staged_eq_of_hash_eq hdigest he he' hr hr' hhash
  refine ⟨_, _, _, _, rfl, rfl, rfl, rfl, ?_, hsame _ _ _ _ rfl rfl rfl rfl rfl⟩
  show some "2025-03-01 10:00:00" ≠ some "2025-02-01 10:00:00"
  decide

end Pinnokio.Ledger.GlHash
