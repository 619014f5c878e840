import Pinnokio.Lib.Runs
import Pinnokio.Matching.Scoring

/-!
# The cache of exchange rates

`get_fx_rates_cached` answers with the table cached under the base and the month of the first day when that table has
the requested currencies on its first day, and asks the Frankfurter API otherwise.  The API is a parameter: a fixed
rate for each base, target and business day.

* `rateOn_response` — what the API answers for a range;
* `remembers_run` — what is cached are the answers to the earlier calls that `ask` remembers, by their bases, targets
  and ranges alone;
* `exact_iff_within` — a call returns the rates of the API iff the earlier call that serves it has asked for the days
  of its range;
* `all_exact_iff` — the same for every sequence of calls.
-/

namespace Pinnokio.Matching.FxCache

open Pinnokio Pinnokio.Matching Pinnokio.Runs

/-- `FRANKFURTER_CURRENCIES`. -/
def frankfurterCurrencies : List String :=
  ["AUD", "BGN", "BRL", "CAD", "CHF", "CNY", "CZK", "DKK", "EUR", "GBP",
    "HKD", "HUF", "IDR", "ILS", "INR", "ISK", "JPY", "KRW", "MXN", "MYR",
    "NOK", "NZD", "PHP", "PLN", "RON", "SEK", "SGD", "THB", "TRY", "USD", "ZAR"]

/-- The Frankfurter API: its business days, in order, and its rates, which it has for its own currencies only.  A
range without a rate is answered with an error status or with an empty table. -/
structure Api where
  days : List String
  rate : (base target day : String) → Option ℚ
  supported : ∀ base target day, rate base target day ≠ none → base ∈ frankfurterCurrencies
  emptyRaises : Bool

/-- The days of a table that lie in a range. -/
def inRange (dateFrom dateTo day : String) : Bool := decide (dateFrom ≤ day) && decide (day ≤ dateTo)

/-- The rates of a day, `none` when it has no rate. -/
def Api.dayRates (api : Api) (base : String) (targets : List String) (day : String) : Option (Dict String ℚ) :=
  let rates := Dict.tabulate targets fun target => api.rate base target day
  if rates.isEmpty then none else some rates

/-- The `rates` of the API's answer. -/
def Api.response (api : Api) (base : String) (targets : List String) (dateFrom dateTo : String) : FxRates :=
  Dict.tabulate (api.days.filter (inRange dateFrom dateTo)) (api.dayRates base targets)

/-- A call of `get_fx_rates_cached`; an empty text stands for a missing date. -/
structure Call where
  baseCurrency : String
  targetCurrencies : List String
  dateFrom : String
  dateTo : String

/-- The normalized base. -/
def Call.base (c : Call) : String := normalizeCurrency c.baseCurrency

/-- `frankfurter_targets`. -/
def Call.frankfurterTargets (c : Call) : List String :=
  ((c.targetCurrencies.map normalizeCurrency).filter fun t => t ≠ c.base).filter fun t => t ∈ frankfurterCurrencies

/-- `cache_key`. -/
def cacheKey (base dateFrom : String) : String := "fx_rates:" ++ (base ++ (":" ++ String.ofList (dateFrom.toList.take 7)))

/-- `_covers_targets`. -/
def coversTargets (rates : FxRates) (targets : List String) : Bool :=
  match rates.entries with
  | [] => false
  | firstDay :: _ => targets.all fun t => t ∈ firstDay.2.keys

/-- `get_fx_rates_cached`, with the cache after it.  No target at all is no Frankfurter target. -/
def getFxRatesCached (api : Api) (cache : Dict String FxRates) (c : Call) : FxRates × Dict String FxRates :=
  if c.dateFrom = "" ∨ c.dateTo = "" ∨ c.frankfurterTargets = [] then (∅, cache)
  else
    match (cache.get? (cacheKey c.base c.dateFrom)).filter fun rates => coversTargets rates c.frankfurterTargets with
    | some rates => (rates, cache)
    | none =>
        let rates := api.response c.base c.frankfurterTargets c.dateFrom c.dateTo
        if rates.isEmpty ∧ api.emptyRaises then (∅, cache)
        else (rates, cache.set (cacheKey c.base c.dateFrom) rates)

/-- The cache after a call. -/
def step (api : Api) (cache : Dict String FxRates) (c : Call) : Dict String FxRates := (getFxRatesCached api cache c).2

/-- The business days of a call. -/
def Call.businessDays (api : Api) (c : Call) : List String :=
  if c.dateFrom = "" ∨ c.dateTo = "" then [] else api.days.filter (inRange c.dateFrom c.dateTo)

/-- A table has, for the targets and the business days of a call, the rates of the API. -/
def Exact (api : Api) (c : Call) (rates : FxRates) : Prop :=
  ∀ target ∈ c.frankfurterTargets, ∀ day ∈ c.businessDays api,
    rateOn rates target day = api.rate c.base target day

/-! ### What is remembered of the earlier calls -/

/-- A call with two dates and a target of Frankfurter. -/
def Call.Asks (c : Call) : Prop := ¬(c.dateFrom = "" ∨ c.dateTo = "" ∨ c.frankfurterTargets = [])

instance (c : Call) : Decidable c.Asks := inferInstanceAs (Decidable (¬_))

/-- The first day of the range of a call with a rate for one of its targets. -/
def Call.firstDay (api : Api) (c : Call) : Option String :=
  (c.businessDays api).dedup.find? fun day => c.frankfurterTargets.any fun target => (api.rate c.base target day).isSome

/-- An earlier call serves another one that asks for no other targets, if they all have a rate on its first day. -/
def Call.serves (api : Api) (earlier c : Call) : Bool :=
  (earlier.firstDay api).any fun day => c.frankfurterTargets.all fun target =>
    decide (target ∈ earlier.frankfurterTargets) && (api.rate earlier.base target day).isSome

/-- The calls that are remembered under the keys of the cache, after a further call: it is remembered if no call serves
it, unless an answer without rates is an error. -/
def ask (api : Api) (asked : Dict String Call) (c : Call) : Dict String Call :=
  if ¬c.Asks ∨ (asked.get? (cacheKey c.base c.dateFrom)).any (fun earlier => earlier.serves api c) = true ∨
      (c.firstDay api = none ∧ api.emptyRaises = true) then asked
  else asked.set (cacheKey c.base c.dateFrom) c

/-- If an earlier call serves a call, then the business days on which there is a rate for a target are, in the range of
the call, the same as in the range of the earlier one. -/
def Within (api : Api) (asked : Dict String Call) (c : Call) : Prop :=
  ∀ earlier ∈ asked.get? (cacheKey c.base c.dateFrom), earlier.serves api c = true →
    ∀ target ∈ c.frankfurterTargets, ∀ day ∈ c.businessDays api,
      ((api.rate c.base target day).isSome = true ↔
        inRange earlier.dateFrom earlier.dateTo day = true ∧ (api.rate earlier.base target day).isSome = true)

instance (api : Api) (asked : Dict String Call) (c : Call) : Decidable (Within api asked c) :=
  inferInstanceAs (Decidable (∀ earlier ∈ asked.get? (cacheKey c.base c.dateFrom), earlier.serves api c = true →
    ∀ target ∈ c.frankfurterTargets, ∀ day ∈ c.businessDays api, (_ ↔ _)))

/-- What the API answers to a call. -/
def Call.answer (api : Api) (c : Call) : FxRates := api.response c.base c.frankfurterTargets c.dateFrom c.dateTo

/-! ### The answers of the API -/

variable {api : Api} {asked : Dict String Call} {cache : Dict String FxRates} {c earlier : Call}

theorem rateOn_response (base : String) (targets : List String) (dateFrom dateTo target day : String) :
    rateOn (api.response base targets dateFrom dateTo) target day =
      if (day ∈ api.days ∧ inRange dateFrom dateTo day = true) ∧ target ∈ targets then api.rate base target day
      else none := by
  rw [rateOn, Api.response, Dict.get?_tabulate]
  simp only [List.mem_filter]
  by_cases hday : day ∈ api.days ∧ inRange dateFrom dateTo day = true
  · rw [if_pos hday]
    have hget : (api.dayRates base targets day).bind (fun rates => rates.get? target) =
        (Dict.tabulate targets fun target => api.rate base target day).get? target := by
      simp only [Api.dayRates]
      split
      · next hempty => exact (Dict.get?_eq_none_iff.mpr (Dict.isEmpty_iff.mp hempty target)).symm
      · rfl
    rw [hget, Dict.get?_tabulate]
    simp only [hday, true_and]
  · rw [if_neg hday, if_neg fun h => hday h.1]
    rfl

theorem length_of_mem {base : String} (h : base ∈ frankfurterCurrencies) : base.toList.length = 3 := by
  have hall : ∀ b ∈ frankfurterCurrencies, b.toList.length = 3 := by decide
  exact hall base h

/-- The key of a cached table says its base. -/
theorem base_of_cacheKey {base base' dateFrom dateFrom' : String} (hbase : base ∈ frankfurterCurrencies)
    (hbase' : base' ∈ frankfurterCurrencies) (h : cacheKey base dateFrom = cacheKey base' dateFrom') : base = base' := by
  have htail := congrArg String.toList (Text.append_left_cancel h)
  simp only [String.toList_append] at htail
  have hlen : base.toList.length = base'.toList.length := (length_of_mem hbase).trans (length_of_mem hbase').symm
  exact String.toList_injective (List.append_inj_left htail hlen)

/-- A day without a rate is not answered. -/
theorem dayRates_eq_none_iff {base day : String} {targets : List String} :
    api.dayRates base targets day = none ↔ targets.any (fun target => (api.rate base target day).isSome) = false := by
  rw [Api.dayRates]
  split
  · next hempty =>
    refine iff_of_true rfl (List.any_eq_false.mpr fun target ht hsome => ?_)
    obtain ⟨rate, hrate⟩ := Option.isSome_iff_exists.mp hsome
    refine Dict.isEmpty_iff.mp hempty target (Dict.mem_keys_of_get? (v := rate) ?_)
    rw [Dict.get?_tabulate, if_pos ht]
    exact hrate
  · next hne =>
    refine iff_of_false nofun fun hany => hne (Dict.isEmpty_iff.mpr fun target hmem => ?_)
    obtain ⟨rate, hrate⟩ := Dict.mem_keys_iff.mp hmem
    rw [Dict.get?_tabulate] at hrate
    split at hrate
    · next ht => exact List.any_eq_false.mp hany target ht (Option.isSome_iff_exists.mpr ⟨rate, hrate⟩)
    · cases hrate

/-- The first day that is answered, with its rates. -/
theorem head?_entries_answer (h : c.Asks) :
    (c.answer api).entries.head? = (c.firstDay api).map fun day =>
      (day, Dict.tabulate c.frankfurterTargets fun target => api.rate c.base target day) := by
  have hdays : c.businessDays api = api.days.filter (inRange c.dateFrom c.dateTo) := by
    rw [Call.businessDays, if_neg fun hnone => h (hnone.elim Or.inl fun hto => Or.inr (Or.inl hto))]
  have hentries : (c.answer api).entries =
      (c.businessDays api).dedup.filterMap fun day =>
        (api.dayRates c.base c.frankfurterTargets day).map (Prod.mk day) := by
    rw [hdays]
    rfl
  rw [hentries, Call.firstDay]
  induction (c.businessDays api).dedup with
  | nil => rfl
  | cons day days ih =>
      rw [List.filterMap_cons, List.find?_cons]
      cases hday : api.dayRates c.base c.frankfurterTargets day with
      | none =>
          rw [dayRates_eq_none_iff.mp hday]
          exact ih
      | some rates =>
          have hany : c.frankfurterTargets.any (fun target => (api.rate c.base target day).isSome) = true := by
            rw [← Bool.not_eq_false, ← dayRates_eq_none_iff, hday]
            nofun
          rw [hany]
          rw [Api.dayRates] at hday
          split at hday
          · cases hday
          · cases hday
            rfl

/-- **The test of the cached table is one of the earlier call.** -/
theorem coversTargets_answer (h : earlier.Asks) :
    coversTargets (earlier.answer api) c.frankfurterTargets = earlier.serves api c := by
  have hhead : (earlier.answer api).entries.head? = (earlier.firstDay api).map fun day =>
      (day, Dict.tabulate earlier.frankfurterTargets fun target => api.rate earlier.base target day) :=
    head?_entries_answer h
  rw [coversTargets, Call.serves]
  cases hday : earlier.firstDay api with
  | none =>
      rw [hday, Option.map_none, List.head?_eq_none_iff] at hhead
      rw [hhead]
      rfl
  | some day =>
      rw [hday, Option.map_some] at hhead
      obtain ⟨rest, hentries⟩ := List.head?_eq_some_iff.mp hhead
      rw [hentries, Option.any_some, Bool.eq_iff_iff, List.all_eq_true, List.all_eq_true]
      refine forall₂_congr fun target _ => ?_
      rw [decide_eq_true_eq, Bool.and_eq_true, decide_eq_true_eq, Dict.mem_keys_iff, Option.isSome_iff_exists,
        ← exists_and_left]
      refine exists_congr fun rate => ?_
      rw [Dict.get?_tabulate]
      split
      · next ht => exact (and_iff_right ht).symm
      · next ht => exact iff_of_false nofun fun hand => ht hand.1

/-- An answer is empty if there is no day with a rate. -/
theorem isEmpty_answer (h : c.Asks) : (c.answer api).isEmpty = true ↔ c.firstDay api = none := by
  rw [Dict.isEmpty, List.isEmpty_iff, ← List.head?_eq_none_iff, head?_entries_answer h, Option.map_eq_none_iff]

/-! ### The cache and the earlier calls -/

/-- The cache has the answers to the calls that are remembered. -/
structure Remembers (api : Api) (asked : Dict String Call) (cache : Dict String FxRates) : Prop where
  table : ∀ key, cache.get? key = (asked.get? key).map (Call.answer api)
  asks : ∀ key, ∀ earlier ∈ asked.get? key, earlier.Asks ∧ key = cacheKey earlier.base earlier.dateFrom

theorem remembers_empty (api : Api) : Remembers api ∅ ∅ := ⟨fun _ => rfl, fun _ _ h => nomatch h⟩

/-- The call whose answer is taken. -/
def servedBy (api : Api) (asked : Dict String Call) (c : Call) : Option Call :=
  (asked.get? (cacheKey c.base c.dateFrom)).filter fun earlier => earlier.serves api c

/-- A table that passes the test is the answer to a call that serves. -/
theorem Remembers.hit (h : Remembers api asked cache) :
    (cache.get? (cacheKey c.base c.dateFrom)).filter (fun rates => coversTargets rates c.frankfurterTargets) =
      (servedBy api asked c).map (Call.answer api) := by
  rw [h.table, servedBy]
  cases hget : asked.get? (cacheKey c.base c.dateFrom) with
  | none => rfl
  | some earlier =>
      rw [Option.map_some, Option.filter_some, Option.filter_some, coversTargets_answer (h.asks _ earlier hget).1]
      split <;> rfl

/-- **What a call returns and remembers**: the answer to the call that serves it, or the answer to itself. -/
theorem getFxRatesCached_of_asks (h : Remembers api asked cache) (hasks : c.Asks) :
    (∃ earlier ∈ servedBy api asked c, getFxRatesCached api cache c = (earlier.answer api, cache) ∧
        ask api asked c = asked) ∨
      servedBy api asked c = none ∧
        ((c.firstDay api = none ∧ getFxRatesCached api cache c = (∅, cache) ∧ ask api asked c = asked) ∨
          getFxRatesCached api cache c =
              (c.answer api, cache.set (cacheKey c.base c.dateFrom) (c.answer api)) ∧
            ask api asked c = asked.set (cacheKey c.base c.dateFrom) c) := by
  have hget : getFxRatesCached api cache c =
      match (servedBy api asked c).map (Call.answer api) with
      | some rates => (rates, cache)
      | none =>
          if (c.answer api).isEmpty ∧ api.emptyRaises then (∅, cache)
          else (c.answer api, cache.set (cacheKey c.base c.dateFrom) (c.answer api)) := by
    rw [getFxRatesCached, if_neg hasks, h.hit]
    rfl
  cases hserved : servedBy api asked c with
  | some earlier =>
      have hmem := Option.filter_eq_some_iff.mp hserved
      refine Or.inl ⟨earlier, rfl, by rw [hget, hserved]; rfl, ?_⟩
      rw [ask, if_pos (Or.inr (Or.inl (by rw [hmem.1]; exact hmem.2)))]
  | none =>
      have hnot : ¬(asked.get? (cacheKey c.base c.dateFrom)).any (fun earlier => earlier.serves api c) = true := by
        intro hany
        obtain ⟨earlier, hmem, hserves⟩ := (Option.any_eq_true _ _).mp hany
        rw [servedBy, hmem, Option.filter_some, if_pos hserves] at hserved
        cases hserved
      refine Or.inr ⟨rfl, ?_⟩
      rw [hget, hserved, Option.map_none]
      by_cases hempty : (c.answer api).isEmpty = true ∧ api.emptyRaises = true
      · have hday := (isEmpty_answer hasks).mp hempty.1
        refine Or.inl ⟨hday, if_pos hempty, ?_⟩
        rw [ask, if_pos (Or.inr (Or.inr ⟨hday, hempty.2⟩))]
      · refine Or.inr ⟨if_neg hempty, ?_⟩
        rw [ask, if_neg]
        intro hor
        obtain hno | hany | hraises := hor
        · exact hno hasks
        · exact hnot hany
        · exact hempty ⟨(isEmpty_answer hasks).mpr hraises.1, hraises.2⟩

/-- A call that does not ask returns nothing and leaves the cache. -/
theorem getFxRatesCached_of_not_asks (h : ¬c.Asks) :
    getFxRatesCached api cache c = (∅, cache) ∧ ask api asked c = asked :=
  ⟨by rw [getFxRatesCached, if_pos (not_not.mp h)], by rw [ask, if_pos (Or.inl h)]⟩

theorem remembers_step (h : Remembers api asked cache) (c : Call) :
    Remembers api (ask api asked c) (step api cache c) := by
  by_cases hasks : c.Asks
  · obtain ⟨earlier, -, hget, hask⟩ | ⟨-, ⟨-, hget, hask⟩ | ⟨hget, hask⟩⟩ := getFxRatesCached_of_asks h hasks
    · rw [step, hget, hask]
      exact h
    · rw [step, hget, hask]
      exact h
    · rw [step, hget, hask]
      constructor
      · intro key
        rw [Dict.get?_set, Dict.get?_set]
        split
        · rfl
        · exact h.table key
      · intro key earlier hmem
        rw [Dict.get?_set] at hmem
        split at hmem
        · next hkey =>
          cases hmem
          exact ⟨hasks, hkey⟩
        · exact h.asks key earlier hmem
  · obtain ⟨hget, hask⟩ : getFxRatesCached api cache c = (∅, cache) ∧ ask api asked c = asked :=
      getFxRatesCached_of_not_asks hasks
    rw [step, hget, hask]
    exact h

/-- **The cache after a sequence of calls** has the answers to the calls that are remembered. -/
theorem remembers_run (calls : List Call) : Remembers api (run (ask api) ∅ calls) (run (step api) ∅ calls) := by
  induction calls using List.reverseRecOn with
  | nil => exact remembers_empty api
  | append_singleton calls c ih =>
      rw [run_concat, run_concat]
      exact remembers_step ih c

/-- The answer to a call has the rates it asks for. -/
theorem exact_answer : Exact api c (c.answer api) := by
  intro target ht day hd
  rw [Call.answer, rateOn_response, if_pos]
  rw [Call.businessDays] at hd
  split at hd
  · cases hd
  · exact ⟨List.mem_filter.mp hd, ht⟩

/-- **When the answer to an earlier call will do.** -/
theorem exact_answer_iff (hkey : cacheKey c.base c.dateFrom = cacheKey earlier.base earlier.dateFrom)
    (hserves : earlier.serves api c = true) :
    Exact api c (earlier.answer api) ↔ ∀ target ∈ c.frankfurterTargets, ∀ day ∈ c.businessDays api,
      ((api.rate c.base target day).isSome = true ↔
        inRange earlier.dateFrom earlier.dateTo day = true ∧ (api.rate earlier.base target day).isSome = true) := by
  refine forall₂_congr fun target ht => forall₂_congr fun day hd => ?_
  obtain ⟨judged, -, hall⟩ := (Option.any_eq_true _ _).mp hserves
  have htarget : target ∈ earlier.frankfurterTargets :=
    of_decide_eq_true (Bool.and_eq_true _ _ ▸ List.all_eq_true.mp hall target ht).1
  have hday : day ∈ api.days := by
    rw [Call.businessDays] at hd
    split at hd
    · cases hd
    · exact (List.mem_filter.mp hd).1
  rw [Call.answer, rateOn_response]
  by_cases hin : inRange earlier.dateFrom earlier.dateTo day = true
  · rw [if_pos ⟨⟨hday, hin⟩, htarget⟩]
    constructor
    · intro heq
      rw [heq]
      exact ⟨fun h => ⟨hin, h⟩, fun h => h.2⟩
    · intro hiff
      cases hrate : api.rate c.base target day with
      | none =>
          rw [hrate] at hiff
          exact Option.not_isSome_iff_eq_none.mp fun h => Bool.noConfusion (hiff.mpr ⟨hin, h⟩)
      | some rate =>
          have hearlier := (hiff.mp (hrate ▸ rfl)).2
          -- Both bases have rates, so they are the same.
          have hbase := base_of_cacheKey
            (api.supported c.base target day (by rw [hrate]; exact Option.some_ne_none rate))
            (api.supported earlier.base target day (Option.isSome_iff_ne_none.mp hearlier)) hkey
          rw [← hbase]
          exact hrate
  · rw [if_neg fun h => hin h.1.2, eq_comm, ← Option.not_isSome_iff_eq_none]
    exact ⟨fun hno => iff_of_false hno fun h => hin h.1, fun hiff hsome => hin (hiff.mp hsome).1⟩

/-- **A call returns the rates of the API iff the earlier call that serves it has asked for the days of its range.** -/
theorem exact_iff_within (h : Remembers api asked cache) (c : Call) :
    Exact api c (getFxRatesCached api cache c).1 ↔ Within api asked c := by
  by_cases hasks : c.Asks
  · obtain ⟨earlier, hserved, hget, -⟩ | ⟨hserved, hrest⟩ := getFxRatesCached_of_asks h hasks
    · obtain ⟨hmem, hserves⟩ := Option.filter_eq_some_iff.mp hserved
      rw [hget, exact_answer_iff (h.asks _ earlier hmem).2 hserves]
      constructor
      · intro hdays other hother _
        cases hmem.symm.trans hother
        exact hdays
      · exact fun hwithin => hwithin earlier hmem hserves
    · have hwithin : Within api asked c := by
        intro earlier hmem hserves
        rw [servedBy, hmem, Option.filter_some, if_pos hserves] at hserved
        cases hserved
      refine iff_of_true ?_ hwithin
      obtain ⟨hday, hget, -⟩ | ⟨hget, -⟩ := hrest
      · -- an empty answer is an empty table, with or without the error
        rw [hget]
        intro target ht day hd
        rw [← exact_answer target ht day hd, rateOn, rateOn,
          Dict.get?_eq_none_iff.mpr (Dict.isEmpty_iff.mp ((isEmpty_answer hasks).mpr hday) day)]
        rfl
      · rw [hget]
        exact exact_answer
  · have hvoid : ∀ target ∈ c.frankfurterTargets, ∀ day, day ∉ c.businessDays api := by
      intro target ht day hd
      obtain hfrom | hto | htargets := not_not.mp hasks
      · rw [Call.businessDays, if_pos (Or.inl hfrom)] at hd
        cases hd
      · rw [Call.businessDays, if_pos (Or.inr hto)] at hd
        cases hd
      · cases htargets ▸ ht
    exact iff_of_true (fun target ht day hd => absurd hd (hvoid target ht day))
      fun _ _ _ target ht day hd => absurd hd (hvoid target ht day)

/-- **Every call of a sequence returns the rates of the API iff each of them asks for no other days with a rate than the
earlier call that serves it.** -/
theorem all_exact_iff (api : Api) (calls : List Call) :
    (∀ pre c, pre ++ [c] <+: calls → Exact api c (getFxRatesCached api (run (step api) ∅ pre) c).1) ↔
      Guarded (ask api) (Within api) ∅ calls := by
  rw [guarded_iff_at_prefixes]
  exact forall₂_congr fun pre c => imp_congr_right fun _ => exact_iff_within (remembers_run pre) c

/-- Rates from francs to euros on two days. -/
def twoDays : Api where
  days := ["2026-01-05", "2026-01-20"]
  rate := fun base target day => if base = "CHF" ∧ target = "EUR" then some (if day = "2026-01-05" then 1 else 2) else none
  supported := by
    intro base target day h
    split at h
    · next hbase =>
      rw [hbase.1]
      decide
    · exact absurd rfl h
  emptyRaises := true

-- A longer range is served if it has no more days with a rate.
example : Guarded (ask twoDays) (Within twoDays) ∅
    [⟨"CHF", ["EUR"], "2026-01-01", "2026-01-10"⟩, ⟨"CHF", ["EUR"], "2026-01-04", "2026-01-19"⟩] := by
  decide +kernel

/-- A second range of the month is answered with the table of the first. -/
theorem range_not_covered : ¬∀ (api : Api) (calls pre : List Call) (c : Call), pre ++ [c] <+: calls →
    Exact api c (getFxRatesCached api (run (step api) ∅ pre) c).1 := by
  intro h
  have hexact := h twoDays _ [⟨"CHF", ["EUR"], "2026-01-01", "2026-01-10"⟩]
    ⟨"CHF", ["EUR"], "2026-01-01", "2026-01-31"⟩ (List.prefix_refl _)
  have hrate := hexact "EUR" (by decide) "2026-01-20" (by decide)
  exact absurd hrate (by decide +kernel)

end Pinnokio.Matching.FxCache
