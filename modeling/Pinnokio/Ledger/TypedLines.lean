import Pinnokio.Ledger.GlEntries
import Pinnokio.Ledger.GlHash

/-!
# Typed lines and records of the ERP

The model of the general-ledger table has lines and entries with fields of their types; the source has dictionaries.
A line is sent as a record, with `False` for what is missing; the entry that the source makes of it is that of the
typed model, and so are the data that are hashed.

* `entry_of_line` — **the source makes of a line what the typed model makes of it**;
* `computeHash_of_entry` — **the hash of an entry is that of its data** in the typed model;
* `businessHash_injective` — that hash is injective if the digest is.
-/

namespace Pinnokio.Ledger.GlHash

open Pinnokio.PyBuiltins Pinnokio.PyJson Pinnokio.Text

section

variable {O : Type}

/-- A value, or `None`. -/
def orNoneValue {A : Type} (f : A → PyValue ℚ O) : Option A → PyValue ℚ O
  | none => .none
  | some a => f a

/-- A value, or `False`, which the ERP sends for what is missing. -/
def orFalse {A : Type} (f : A → PyValue ℚ O) : Option A → PyValue ℚ O
  | none => .bool false
  | some a => f a

/-- A reference as the ERP sends it. -/
def refValue (ref : OdooRef) : PyValue ℚ O := .list [.int ref.1, .str ref.2]

/-- A number as the ERP sends it. -/
def numberValue (x : ℚ) : PyValue ℚ O := .float (.finite x)

variable (isoformat : Date → String)

/-- The record of a line; the entry of its move has the id `moveId`. -/
def recordOf (moveId : ℤ) (line : OdooLine) : Record ℚ O :=
  Dict.ofList
    [("id", .int line.id),
      ("date", orFalse (fun d => .str (isoformat d)) line.date),
      ("write_date", orFalse .str line.writeDate),
      ("journal_id", orFalse refValue line.journalId),
      ("move_id", orFalse refValue (line.moveRef.map (Prod.mk moveId))),
      ("account_id", orFalse refValue line.accountId),
      ("partner_id", orFalse refValue line.partnerId),
      ("name", .str line.name),
      ("debit", numberValue line.debit),
      ("credit", numberValue line.credit),
      ("full_reconcile_id", orFalse refValue line.fullReconcileId),
      ("parent_state", .str line.parentState),
      ("currency_id", orFalse refValue line.currencyId),
      ("amount_currency", numberValue line.amountCurrency),
      ("currency_rate", numberValue line.currencyRate)]

/-- The dictionary of a typed entry. -/
def entryRecord (e : GlEntry) : Record ℚ O :=
  Dict.ofList
    [("entry_id", .str e.entryId),
      ("entry_date", orFalse (fun d => .str (isoformat d)) e.entryDate),
      ("last_update_date", orFalse .str e.lastUpdateDate),
      ("journal_code", .str e.journalCode),
      ("document_ref", orNoneValue .str e.documentRef),
      ("account_number", .str e.accountNumber),
      ("account_name", .str e.accountName),
      ("description", .str e.description),
      ("partner_name", orNoneValue .str e.partnerName),
      ("debit", numberValue e.debit),
      ("credit", numberValue e.credit),
      ("reconciliation_ref", orNoneValue .str e.reconciliationRef),
      ("entry_state", .str e.entryState),
      ("currency", .str e.currency),
      ("currency_erp_id", orNoneValue .int e.currencyErpId),
      ("amount_currency_value", orNoneValue numberValue e.amountCurrencyValue),
      ("exchange_rate", numberValue e.exchangeRate)]

/-- The mapping of the journals as a dictionary of values. -/
def journalValues (journalIdToCode : Dict ℤ String) : Dict ℤ (PyValue ℚ O) where
  entries := journalIdToCode.entries.map fun e => (e.1, .str e.2)
  nodup := by
    rw [List.map_map]
    exact journalIdToCode.nodup

theorem get?_journalValues (journalIdToCode : Dict ℤ String) (jid : ℤ) :
    (journalValues journalIdToCode : Dict ℤ (PyValue ℚ O)).get? jid = (journalIdToCode.get? jid).map .str :=
  Dict.getList_map_values PyValue.str jid journalIdToCode.entries

/-- The floats of the interpreter are numbers. -/
structure Exact (I : Interpreter ℚ O) : Prop where
  one : I.one = 1
  isZero : ∀ x, I.isZero x = decide (x = 0)
  isPositive : ∀ x, I.isPositive x = decide (0 < x)

variable {I : Interpreter ℚ O} {isoformat}

/-! ### The values of an entry -/

theorem pyOr_str (s t : String) : pyOr I (.str s) (.str t) = .str (Text.orElse s t) := by
  rw [pyOr, truthy, Text.orElse]
  by_cases hs : s = "" <;> simp [hs]

theorem pyOr_empty (s : String) : pyOr I (.str s) (.str "") = .str s := by
  rw [pyOr_str, Text.orElse]
  split
  · next hempty => rw [hempty]
  · rfl

theorem safeFloat_number (x : ℚ) : safeFloat I (numberValue x) = some (.finite x) := rfl

theorem mappedCode_ref (journalIdToCode : Dict ℤ String) (ref : OdooRef) :
    mappedCode I (journalValues journalIdToCode) (refValue ref) =
      some (.str ((journalIdToCode.get? ref.1).getD "")) := by
  unfold mappedCode
  split
  · next hempty =>
    have hnone : (journalValues journalIdToCode : Dict ℤ (PyValue ℚ O)).get? ref.1 = none :=
      Dict.get?_eq_none_iff.mpr (Dict.isEmpty_iff.mp hempty ref.1)
    rw [get?_journalValues, Option.map_eq_none_iff] at hnone
    rw [hnone]
    rfl
  · show some (((journalValues journalIdToCode).get? ref.1).getD (.str "")) = _
    rw [get?_journalValues]
    cases journalIdToCode.get? ref.1 <;> rfl

theorem journalCode_ref (journalIdToCode : Dict ℤ String) (ref : Option OdooRef) :
    journalCode I (journalValues journalIdToCode) (orFalse refValue ref) =
      some (.str (journalCodeOf journalIdToCode ref)) := by
  cases ref with
  | none =>
      have hmapped : mappedCode I (journalValues journalIdToCode) (.bool false) = some (.str "") := ite_self _
      rw [orFalse, journalCode, hmapped]
      rfl
  | some ref =>
      rw [orFalse, journalCode, mappedCode_ref, Option.map_some]
      show some (pyOr I (.str _) (.str (takeChars 10 ref.2))) = _
      rw [pyOr_str]
      rfl

theorem accountNumber_ref (ref : Option OdooRef) : accountNumber (orFalse refValue ref : PyValue ℚ O) =
    some (.str (match ref with
      | none => ""
      | some (_, name) => (split name ' ').headD "")) := by
  cases ref with
  | none => rfl
  | some ref => rfl

theorem currencyErpId_ref (ref : Option OdooRef) :
    currencyErpId I (orFalse refValue ref) = some (orNoneValue .int (ref.map Prod.fst)) := by
  cases ref with
  | none => rfl
  | some ref => rfl

theorem displayName_ref (ref : Option OdooRef) :
    displayName (orFalse refValue ref : PyValue ℚ O) .none = orNoneValue .str (ref.map Prod.snd) := by
  cases ref with
  | none => rfl
  | some ref => rfl

theorem displayName_ref_str (ref : Option OdooRef) (otherwise : String) :
    displayName (orFalse refValue ref : PyValue ℚ O) (.str otherwise) = .str ((ref.map Prod.snd).getD otherwise) := by
  cases ref with
  | none => rfl
  | some ref => rfl

theorem reconciliationRef_ref (ref : Option OdooRef) :
    reconciliationRef I (orFalse refValue ref) = orNoneValue .str (match ref with
      | none => none
      | some (_, name) => if name = "" then none else some (firstChars 20 name)) := by
  cases ref with
  | none => rfl
  | some ref =>
      show (if decide (ref.2 ≠ "") then PyValue.str (takeChars 20 ref.2) else PyValue.none) = _
      by_cases hname : ref.2 = ""
      · simp [hname, orNoneValue]
      · simp [hname, orNoneValue]
        rfl

theorem mapParentState_str (state : String) : mapParentState I (.str state) = Ledger.mapParentState state := by
  rw [mapParentState, pyOr_empty]
  rfl

theorem amount_number (hI : Exact I) (x : ℚ) :
    (if isNonzero I (.finite x) then PyValue.float (.finite x) else .none : PyValue ℚ O) =
      orNoneValue numberValue (if x ≠ 0 then some x else none) := by
  rw [isNonzero, hI.isZero]
  by_cases hx : x = 0 <;> simp [hx, orNoneValue, numberValue]

theorem rate_number (hI : Exact I) (x : ℚ) :
    (.float (if isPositive I (.finite x) then .finite x else .finite I.one) : PyValue ℚ O) =
      numberValue (if 0 < x then x else 1) := by
  rw [isPositive, hI.isPositive, hI.one]
  by_cases hx : 0 < x <;> simp [hx, numberValue]

/-- **The source makes of a line what the typed model makes of it.** -/
theorem entry_of_line (hI : Exact I) (journalIdToCode : Dict ℤ String) (moveId : ℤ) (line : OdooLine) :
    odooGlToNeonEntry I (journalValues journalIdToCode) (recordOf isoformat moveId line) =
      some (entryRecord isoformat (Ledger.odooGlToNeonEntry journalIdToCode line)) := by
  have hdocument : (line.moveRef.map (Prod.mk moveId)).map Prod.snd = line.moveRef := by
    rw [Option.map_map]
    exact Option.map_id'
  have hcurrency : (line.currencyId.map Prod.snd).getD "CHF" = (Ledger.odooGlToNeonEntry ∅ line).currency := by
    rw [Ledger.odooGlToNeonEntry]
    cases line.currencyId with
    | none => rfl
    | some ref => rfl
  unfold odooGlToNeonEntry
  simp only [get, recordOf, Dict.get?_ofList, Dict.lastOf, String.reduceEq, if_false, if_true, Option.or_none,
    Option.none_or, Option.getD_some, Option.getD_none]
  simp only [journalCode_ref, currencyErpId_ref, safeFloat_number, accountNumber_ref, Option.bind_eq_bind,
    Option.bind_some, Option.pure_def, displayName_ref, displayName_ref_str, hdocument, hcurrency, pyOr_empty,
    reconciliationRef_ref, mapParentState_str, amount_number hI, rate_number hI]
  rfl

/-! ### What is hashed -/

/-- The items that are hashed, by the data of the typed model. -/
def businessItems (I : Interpreter ℚ O) (isoformat : Date → String) (b : Business) : List (String × PyValue ℚ O) :=
  [("entry_id", .str b.entryId),
    ("entry_date", .str ((b.entryDate.map isoformat).getD "")),
    ("journal_code", .str b.journalCode),
    ("document_ref", orNoneValue .str b.documentRef),
    ("account_number", .str b.accountNumber),
    ("account_name", orNoneValue .str b.accountName),
    ("description", orNoneValue .str b.description),
    ("partner_name", orNoneValue .str b.partnerName),
    ("debit", .str (str I (numberValue b.debit))),
    ("credit", .str (str I (numberValue b.credit))),
    ("reconciliation_ref", orNoneValue .str b.reconciliationRef),
    ("entry_state", .str b.entryState),
    ("currency", .str b.currency),
    ("exchange_rate", .str (str I (numberValue b.exchangeRate))),
    ("amount_currency_value", .str (str I (orNoneValue numberValue b.amountCurrencyValue))),
    ("currency_erp_id", .str (str I (orNoneValue .int b.currencyErpId)))]

theorem pyOr_none (s : Option String) : pyOr I (orNoneValue .str s) .none = orNoneValue .str (orNone s) := by
  cases s with
  | none => rfl
  | some s =>
      rw [orNoneValue, pyOr, truthy]
      by_cases hs : s = ""
      · subst hs
        rfl
      · simp [hs, orNone, orNoneValue]

theorem pyOr_rate (hI : Exact I) (x : ℚ) :
    pyOr I (numberValue x) (.float (.finite I.one)) = numberValue (if x = 0 then 1 else x) := by
  rw [numberValue, pyOr, truthy, hI.isZero, hI.one]
  by_cases hx : x = 0 <;> simp [hx, numberValue]

theorem pyOr_date (day : Option Date) :
    str I (pyOr I (orFalse (fun d => .str (isoformat d)) day) (.str "")) = (day.map isoformat).getD "" := by
  cases day with
  | none => rfl
  | some day =>
      rw [orFalse, pyOr_empty]
      rfl

/-- **The source hashes the data of the typed entry.** -/
theorem hashedItems_of_entry (hI : Exact I) (e : GlEntry) :
    hashedItems I (entryRecord isoformat e) = businessItems I isoformat e.business := by
  have hnumber : pyOr I (.str e.accountNumber) (.str "") = .str e.accountNumber := pyOr_empty e.accountNumber
  have hname : pyOr I (.str e.accountName) .none = orNoneValue .str (orNone (some e.accountName)) :=
    pyOr_none (some e.accountName)
  have hdescription : pyOr I (.str e.description) .none = orNoneValue .str (orNone (some e.description)) :=
    pyOr_none (some e.description)
  have hcurrency : pyOr I (.str e.currency) (.str "CHF") = .str (Text.orElse e.currency "CHF") :=
    pyOr_str e.currency "CHF"
  simp only [hashedItems, get, entryRecord, Dict.get?_ofList, Dict.lastOf, String.reduceEq, if_false, if_true,
    Option.or_none, Option.none_or, Option.getD_some, Option.getD_none]
  simp only [pyOr_none, pyOr_rate hI, pyOr_date, hnumber, hname, hdescription, hcurrency]
  rfl

theorem orNoneValue_injective {A : Type} {f : A → PyValue ℚ O} (hf : Function.Injective f) (hnone : ∀ a, f a ≠ .none) :
    Function.Injective (orNoneValue f) := by
  intro a b h
  cases a with
  | none =>
      cases b with
      | none => rfl
      | some b => exact absurd h.symm (hnone b)
  | some a =>
      cases b with
      | none => exact absurd h (hnone a)
      | some b => exact congrArg some (hf h)

theorem orNoneValue_str_injective : Function.Injective (orNoneValue (PyValue.str : String → PyValue ℚ O)) :=
  orNoneValue_injective (fun _ _ h => PyValue.str.inj h) fun _ h => by cases h

theorem optionalFloat_orNoneValue (x : Option ℚ) : OptionalFloat (orNoneValue numberValue x : PyValue ℚ O) := by
  cases x with
  | none => exact .inl rfl
  | some x => exact .inr ⟨.finite x, rfl⟩

theorem optionalInt_orNoneValue (n : Option ℤ) : OptionalInt (orNoneValue .int n : PyValue ℚ O) := by
  cases n with
  | none => exact .inl rfl
  | some n => exact .inr ⟨n, rfl⟩

theorem numberValue_injective : Function.Injective (numberValue : ℚ → PyValue ℚ O) := by
  intro x y h
  cases h
  rfl

/-- The text of a date, or none, determines it. -/
theorem dateText_injective (hiso : Function.Injective isoformat) (hne : ∀ d, isoformat d ≠ "") :
    Function.Injective fun day : Option Date => (day.map isoformat).getD "" := by
  intro day day' h
  cases day with
  | none =>
      cases day' with
      | none => rfl
      | some day' => exact absurd h.symm (hne day')
  | some day =>
      cases day' with
      | none => exact absurd h (hne day)
      | some day' => exact congrArg some (hiso h)

/-- **What is hashed determines the data.** -/
theorem businessItems_injective (hiso : Function.Injective isoformat) (hne : ∀ d, isoformat d ≠ "") :
    Function.Injective (businessItems I isoformat) := by
  intro b b' h
  simp only [businessItems, List.cons.injEq, Prod.mk.injEq, true_and, and_true, PyValue.str.injEq] at h
  obtain ⟨hid, hday, hjournal, hdocument, hnumber, hname, hdescription, hpartner, hdebit, hcredit, hreconciliation,
    hstate, hcurrency, hrate, hamount, hcurrencyId⟩ := h
  have hnumbers : ∀ {x y : ℚ}, str I (numberValue x) = str I (numberValue y) → x = y := by
    intro x y hxy
    exact PyFloat.finite.inj (str_float_injective hxy)
  have hamounts := (optionalFloat_orNoneValue b.amountCurrencyValue).eq_of_str_eq
    (optionalFloat_orNoneValue b'.amountCurrencyValue) hamount
  have hcurrencyIds := (optionalInt_orNoneValue b.currencyErpId).eq_of_str_eq
    (optionalInt_orNoneValue b'.currencyErpId) hcurrencyId
  have hnumberNone : ∀ x : ℚ, (numberValue x : PyValue ℚ O) ≠ .none := fun _ h => by cases h
  have hintNone : ∀ n : ℤ, (PyValue.int n : PyValue ℚ O) ≠ .none := fun _ h => by cases h
  cases b
  cases b'
  rw [Business.mk.injEq]
  exact ⟨hid, dateText_injective hiso hne hday, hjournal, orNoneValue_str_injective hdocument, hnumber,
    orNoneValue_str_injective hname, orNoneValue_str_injective hdescription, orNoneValue_str_injective hpartner,
    hnumbers hdebit, hnumbers hcredit, orNoneValue_str_injective hreconciliation, hstate, hcurrency, hnumbers hrate,
    orNoneValue_injective numberValue_injective hnumberNone hamounts,
    orNoneValue_injective (fun _ _ h => PyValue.int.inj h) hintNone hcurrencyIds⟩

/-- The hash of the typed model: the digest of what the source hashes. -/
def businessHash {H : Type} (I : Interpreter ℚ O) (isoformat : Date → String) (digest : Record ℚ O → H)
    (b : Business) : H :=
  digest (Dict.ofList (businessItems I isoformat b))

/-- **The hash of an entry is that of its data.** -/
theorem computeHash_of_entry {H : Type} (digest : Record ℚ O → H) (hI : Exact I) (e : GlEntry) :
    computeHash digest (hashedRow I (entryRecord isoformat e)) = businessHash I isoformat digest e.business := by
  rw [computeHash_hashedRow, hashedRow, hashedItems_of_entry hI, businessHash]

/-- **It is injective**, as the typed model takes it to be, if the digest determines the values of a dictionary. -/
theorem businessHash_injective {H : Type} {digest : Record ℚ O → H}
    (hdigest : ∀ b b', digest b = digest b' → ∀ k, b.get? k = b'.get? k) (hiso : Function.Injective isoformat)
    (hne : ∀ d, isoformat d ≠ "") : Function.Injective (businessHash I isoformat digest) := by
  intro b b' h
  exact businessItems_injective hiso hne (items_eq_of_digest_eq hdigest rfl rfl h)

end

end Pinnokio.Ledger.GlHash
