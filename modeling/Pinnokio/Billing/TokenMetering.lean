import Mathlib.Algebra.Group.Prod
import Pinnokio.Billing.UsageTotals
import Pinnokio.Lib.Meters

/-!
# Metering of the agents' tokens

Every agent counts the tokens of its providers' answers, model by model, until `load_token_usage_to_db` uploads one
event for each provider and resets the counters.  An event carries the tokens of the provider's current model only,
the counters are reset when all uploads went well, and some instances have nothing to reset.

* `Load.event` — the event of a provider;
* `recorded_uploadEach` — what the uploads of one load add to the events of a provider;
* `balanced_step_iff` — the operations that neither lose tokens nor count them twice;
* `tokens_accounted_iff` — every token is recorded once or still waiting, throughout a run, exactly when all operations
  are of this kind.
-/

namespace Pinnokio.TokenMetering

open Meters Billing.UsageTotals
open Billing (textOr)

/-! ### The instances of an agent -/

/-- Tokens in both directions. -/
abbrev Tokens := ℤ × ℤ

/-- The counters of a provider's instance.  `reset_token_counters` and `flush_chat_history` are not there, or do not
touch the counters, for every provider. -/
structure Instance where
  resets : Bool
  flushResets : Bool
  currentModel : Option String
  tokenUsage : Dict String Tokens

/-- A new instance. -/
def Instance.new (resets flushResets : Bool) : Instance := ⟨resets, flushResets, none, ∅⟩

/-- All tokens on the counters. -/
def Instance.waiting (m : Instance) : Tokens := m.tokenUsage.total id

/-- `update_token_usage`: the tokens of an answer, under the model that gave it. -/
def Instance.updateTokenUsage (m : Instance) (model : String) (tokens : Tokens) : Instance :=
  { m with
    currentModel := some model
    tokenUsage := m.tokenUsage.set model ((m.tokenUsage.get? model).getD 0 + tokens) }

/-- `reset_token_counters`. -/
def Instance.reset (m : Instance) : Instance := { m with tokenUsage := ∅ }

/-- The model that `get_token_usage_by_provider` reports. -/
def Instance.model (m : Instance) : Option String := if m.tokenUsage.isEmpty then none else m.currentModel

/-- The tokens that `get_token_usage_by_provider` reports: those of the current model. -/
def Instance.reported (m : Instance) : Tokens :=
  match m.model with
  | some model => (m.tokenUsage.get? model).getD 0
  | none => 0

/-! ### Uploads -/

variable {F : Type} [AddCommMonoid F] (I : Floats F)
  -- `ModelPricing.calculate_token_cost`: the buying price, the selling price and the mode
  (cost : String → Tokens → String × String × String)

/-- The arguments of `load_token_usage_to_db`; a text that is empty is not given.  The ids that are drawn and the
transactions that commit are those of each provider. -/
structure Load (F : Type) where
  projectId : Val F
  jobId : Val F
  workflowStep : Val F
  fileName : String
  entryId : String
  department : String
  function : String
  threadKey : String
  messageId : String
  collectionName : String
  mandatePath : String
  now : String
  serverNow : String
  uuid : String → String
  commits : String → Bool

/-- An optional field. -/
def setIf (d : Data F) (k v : String) : Data F := if v = "" then d else d.set k (.str v)

/-- The fields that every event has. -/
def Load.base (l : Load F) (provider : String) (m : Instance) (prices : String × String × String) : Data F :=
  Dict.ofList
    [("function", .str (textOr (textOr l.function l.department) "router")), ("project_id", l.projectId),
      ("job_id", l.jobId), ("provider_name", .str provider), ("timestamp", .str l.now),
      ("workflow_step", l.workflowStep), ("total_input_tokens", .int m.reported.1),
      ("total_output_tokens", .int m.reported.2), ("total_tokens", .int (m.reported.1 + m.reported.2)),
      ("provider_model_name", (m.model.map Val.str).getD .none), ("buy_price", .str prices.1),
      ("sales_price", .str prices.2.1), ("output_mode", .str prices.2.2)]

/-- The event of a provider. -/
def Load.event (l : Load F) (provider : String) (m : Instance) : Data F :=
  let prices := (m.model.map fun model => cost model m.reported).getD ("0.000000", "0.000000", "unknown")
  let data := setIf (setIf (setIf (setIf (setIf (l.base provider m prices) "file_name" l.fileName) "thread_key"
    l.threadKey) "message_id" l.messageId) "collection_name" l.collectionName) "mandate_path" l.mandatePath
  if l.entryId = "" then data else data.set "entry_id" (.str (l.entryId ++ ":" ++ provider))

/-- The upload of a provider. -/
def Load.call (l : Load F) (provider : String) (m : Instance) : Call F where
  data := l.event cost provider m
  entryId := if l.entryId = "" then none else some (l.entryId ++ ":" ++ provider)
  uuid := l.uuid provider
  now := l.serverNow
  commits := l.commits provider

/-- Where the event of a call is kept. -/
def eventPath (userId : String) (c : Call F) : String :=
  entryPath (bucketPath userId ((get c.data "job_id").toStr I)) (c.id I)

/-- A call adds an event: it is there afterwards, and was not before. -/
def adds (userId : String) (db : Db F) (c : Call F) : Bool :=
  eventPath I userId c ∉ db.entries.keys ∧ eventPath I userId c ∈ (uploadTokenUsage I db userId c).1.entries.keys

/-- The uploads of one load, provider by provider: the store, whether all of them went well, and the providers for
which an event was added. -/
def uploadEach (userId : String) (l : Load F) : Db F → List (String × Instance) → Db F × Bool × List String
  | db, [] => (db, true, [])
  | db, (provider, m) :: rest =>
      let r := uploadTokenUsage I db userId (l.call cost provider m)
      let later := uploadEach userId l r.1 rest
      (later.1, r.2 && later.2.1,
        if adds I userId db (l.call cost provider m) then provider :: later.2.2 else later.2.2)

/-! ### The agent -/

/-- The store and the instances of an agent, with what its providers have used. -/
structure State (F : Type) where
  db : Db F
  instances : Dict String Instance
  used : String → Tokens

/-- What happens to an agent. -/
inductive Op (F : Type)
  | register (provider : String) (resets flushResets : Bool)
  | answer (provider model : String) (tokens : Tokens)
  | flush (provider : String)
  | load (l : Load F)

/-- One operation; an answer or a flush of a provider that is not registered raises. -/
def step (userId : String) (s : State F) : Op F → State F
  | .register provider resets flushResets =>
      { s with instances := s.instances.set provider (.new resets flushResets) }
  | .answer provider model tokens =>
      match s.instances.get? provider with
      | none => s
      | some m =>
          { s with
            instances := s.instances.set provider (m.updateTokenUsage model tokens)
            used := Function.update s.used provider (s.used provider + tokens) }
  | .flush provider =>
      match s.instances.get? provider with
      | none => s
      | some m => if m.flushResets then { s with instances := s.instances.set provider m.reset } else s
  | .load l =>
      let r := uploadEach I cost userId l s.db s.instances.entries
      { s with
        db := r.1
        instances := if r.2.1 then s.instances.mapValues fun m => if m.resets then m.reset else m else s.instances }

/-! ### The tokens of an event -/

/-- The tokens that an event records for a provider. -/
def tokensFor (provider : String) (data : Data F) : Tokens :=
  match get data "provider_name" with
  | .str name =>
      if name = provider then (toInt I (get data "total_input_tokens"), toInt I (get data "total_output_tokens")) else 0
  | _ => 0

/-- The tokens recorded for a provider. -/
def recorded (db : Db F) (provider : String) : Tokens := db.entries.total (tokensFor I provider)

section Events

variable {cost} (l : Load F) (provider : String) (m : Instance)

omit [AddCommMonoid F] in
theorem get_setIf {d : Data F} {k k' v : String} (h : k' ≠ k) : get (setIf d k v) k' = get d k' := by
  show ((setIf d k v).get? k').getD .none = (d.get? k').getD .none
  rw [setIf]
  split
  · rfl
  · rw [Dict.get?_set_ne d _ h]

omit [AddCommMonoid F] in
/-- The optional fields do not touch the others. -/
theorem get_event {k : String} (hk : k ∉ ["file_name", "thread_key", "message_id", "collection_name", "mandate_path",
    "entry_id"]) {v : Val F} (hv : ∀ prices, get (l.base provider m prices) k = v) :
    get (l.event cost provider m) k = v := by
  simp only [List.mem_cons, List.not_mem_nil, or_false, not_or] at hk
  obtain ⟨h1, h2, h3, h4, h5, h6⟩ := hk
  have hset : ∀ prices, get (setIf (setIf (setIf (setIf (setIf (l.base provider m prices) "file_name" l.fileName)
      "thread_key" l.threadKey) "message_id" l.messageId) "collection_name" l.collectionName) "mandate_path"
      l.mandatePath) k = v := fun prices => by
    rw [get_setIf h5, get_setIf h4, get_setIf h3, get_setIf h2, get_setIf h1]
    exact hv prices
  show get (if l.entryId = "" then _ else _) k = v
  split
  · exact hset _
  · show (Dict.get? (Dict.set _ _ _) k).getD .none = v
    rw [Dict.get?_set_ne _ _ h6]
    exact hset _

omit [AddCommMonoid F] in
/-- An event records the reported tokens, for its provider. -/
theorem tokensFor_event (provider' : String) :
    tokensFor I provider' (l.event cost provider m) = if provider = provider' then m.reported else 0 := by
  have hname : get (l.event cost provider m) "provider_name" = .str provider :=
    get_event l provider m (by decide) fun _ => by
      simp [Billing.UsageTotals.get, Load.base, Dict.get?_ofList, Dict.lastOf]
  have hin : get (l.event cost provider m) "total_input_tokens" = .int m.reported.1 :=
    get_event l provider m (by decide) fun _ => by
      simp [Billing.UsageTotals.get, Load.base, Dict.get?_ofList, Dict.lastOf]
  have hout : get (l.event cost provider m) "total_output_tokens" = .int m.reported.2 :=
    get_event l provider m (by decide) fun _ => by
      simp [Billing.UsageTotals.get, Load.base, Dict.get?_ofList, Dict.lastOf]
  rw [tokensFor, hname, hin, hout]
  rfl

end Events

/-! ### What the uploads record -/

section Uploads

variable {cost} {userId : String} {db : Db F}

/-- A call adds its event, or leaves the events as they are. -/
theorem entries_upload (c : Call F) :
    adds I userId db c = true ∧ eventPath I userId c ∉ db.entries.keys ∧
        (uploadTokenUsage I db userId c).1.entries = db.entries.set (eventPath I userId c) c.data ∨
      adds I userId db c = false ∧ (uploadTokenUsage I db userId c).1 = db := by
  have hcases := uploadTokenUsage_cases db (⟨c, rfl⟩ : BucketCall I userId ((get c.data "job_id").toStr I))
  rcases hcases with hsame | ⟨hnew, hadded⟩
  · refine Or.inr ⟨decide_eq_false ?_, hsame⟩
    rintro ⟨hnew, hthere⟩
    rw [hsame] at hthere
    exact hnew hthere
  · refine Or.inl ⟨decide_eq_true ⟨hnew, ?_⟩, hnew, congrArg Db.entries hadded⟩
    rw [hadded]
    exact Dict.mem_keys_set.mpr (Or.inl rfl)

/-- An upload adds the reported tokens to those of its provider. -/
theorem recorded_upload (l : Load F) (provider : String) (m : Instance) (provider' : String) :
    recorded I (uploadTokenUsage I db userId (l.call cost provider m)).1 provider' =
      recorded I db provider' +
        if adds I userId db (l.call cost provider m) = true ∧ provider = provider' then m.reported else 0 := by
  rcases entries_upload I (l.call cost provider m) with ⟨hadds, hnew, hentries⟩ | ⟨hadds, hsame⟩
  · rw [recorded, hentries, Dict.total_set_of_not_mem _ _ hnew, recorded]
    show _ + tokensFor I provider' (l.event cost provider m) = _
    rw [tokensFor_event, hadds]
    by_cases hp : provider = provider'
    · rw [if_pos hp, if_pos ⟨rfl, hp⟩]
    · rw [if_neg hp, if_neg fun h => hp h.2]
  · rw [hsame, hadds, if_neg fun h => Bool.false_ne_true h.1, add_zero]

/-- The providers for which an event was added are among those of the load. -/
theorem added_subset (l : Load F) (ps : List (String × Instance)) (db : Db F) :
    ∀ p ∈ (uploadEach I cost userId l db ps).2.2, p ∈ ps.map Prod.fst := by
  induction ps generalizing db with
  | nil => exact fun p hp => absurd hp List.not_mem_nil
  | cons e ps ih =>
      obtain ⟨provider, m⟩ := e
      intro p hp
      have hp : p ∈ (if adds I userId db (l.call cost provider m) = true then provider :: _ else _ : List String) := hp
      rw [List.map_cons, List.mem_cons]
      split at hp
      · exact (List.mem_cons.mp hp).imp id (ih _ p)
      · exact Or.inr (ih _ p hp)

/-- **The uploads of a load** add, for each provider with a new event, what its instance reports. -/
theorem recorded_uploadEach (l : Load F) (ps : List (String × Instance)) (hn : (ps.map Prod.fst).Nodup) (db : Db F)
    (provider : String) :
    recorded I (uploadEach I cost userId l db ps).1 provider =
      recorded I db provider +
        if provider ∈ (uploadEach I cost userId l db ps).2.2 then
          ((Dict.getList provider ps).map Instance.reported).getD 0
        else 0 := by
  induction ps generalizing db with
  | nil =>
      show recorded I db provider = _ + if provider ∈ ([] : List String) then _ else 0
      rw [if_neg List.not_mem_nil, add_zero]
  | cons e ps ih =>
      obtain ⟨p, m⟩ := e
      obtain ⟨hp, hn⟩ := List.nodup_cons.mp hn
      show recorded I (uploadEach I cost userId l _ ps).1 provider = _ + if provider ∈
        (if adds I userId db (l.call cost p m) = true then p :: _ else _ : List String) then _ else 0
      rw [ih hn, recorded_upload, add_assoc]
      congr 1
      have hlater : p ∉ (uploadEach I cost userId l (uploadTokenUsage I db userId (l.call cost p m)).1 ps).2.2 :=
        fun h => hp (added_subset I l ps _ p h)
      rw [Dict.getList]
      by_cases hprov : p = provider
      · subst hprov
        rw [if_neg hlater, add_zero, if_pos rfl]
        cases adds I userId db (l.call cost p m) with
        | true => rw [if_pos ⟨rfl, rfl⟩, if_pos rfl, if_pos (List.mem_cons_self ..)]; rfl
        | false => rw [if_neg fun h => Bool.false_ne_true h.1, if_neg Bool.false_ne_true, if_neg hlater]
      · rw [if_neg fun h => hprov h.2, zero_add, if_neg hprov]
        cases adds I userId db (l.call cost p m) with
        | true =>
            rw [if_pos rfl]
            congr 1
            refine propext ⟨fun h => List.mem_cons_of_mem _ h, fun h => ?_⟩
            exact (List.mem_cons.mp h).resolve_left (Ne.symm hprov)
        | false => rw [if_neg Bool.false_ne_true]

end Uploads

/-! ### The books of an agent -/

section Accounts

variable {cost} {userId : String} {s : State F}

/-- What has been recorded, what is waiting on the counters, and what was used. -/
def State.books (s : State F) : Books String Tokens :=
  ⟨recorded I s.db, fun p => ((s.instances.get? p).map Instance.waiting).getD 0, s.used⟩

variable (cost userId) in
/-- The operation neither loses tokens nor counts them twice.  Counters that are reset have been recorded in full, or
were empty; counters that are not have not been recorded. -/
def Accounts (s : State F) : Op F → Prop
  | .register provider _ _ => ∀ m, s.instances.get? provider = some m → m.waiting = 0
  | .answer _ _ _ => True
  | .flush provider => ∀ m, s.instances.get? provider = some m → m.flushResets = true → m.waiting = 0
  | .load l =>
      ∀ provider m, s.instances.get? provider = some m →
        if (uploadEach I cost userId l s.db s.instances.entries).2.1 = true ∧ m.resets = true then
          if provider ∈ (uploadEach I cost userId l s.db s.instances.entries).2.2 then m.reported = m.waiting
          else m.waiting = 0
        else provider ∈ (uploadEach I cost userId l s.db s.instances.entries).2.2 → m.reported = 0

/-- A condition on the counters of a provider, if it is registered. -/
def decidableRegistered (d : Dict String Instance) (P : Instance → Prop) [DecidablePred P] (provider : String) :
    Decidable (∀ m, d.get? provider = some m → P m) :=
  match d.get? provider with
  | none => isTrue fun _ h => nomatch h
  | some m => decidable_of_iff (P m) ⟨fun h _ he => Option.some_inj.mp he ▸ h, fun h => h m rfl⟩

instance Accounts.decidable (s : State F) : ∀ op, Decidable (Accounts I cost userId s op)
  | .register provider _ _ => decidableRegistered s.instances (fun m => m.waiting = 0) provider
  | .answer _ _ _ => isTrue trivial
  | .flush provider => decidableRegistered s.instances (fun m => m.flushResets = true → m.waiting = 0) provider
  | .load l =>
      decidable_of_iff (∀ e ∈ s.instances.entries,
          if (uploadEach I cost userId l s.db s.instances.entries).2.1 = true ∧ e.2.resets = true then
            if e.1 ∈ (uploadEach I cost userId l s.db s.instances.entries).2.2 then e.2.reported = e.2.waiting
            else e.2.waiting = 0
          else e.1 ∈ (uploadEach I cost userId l s.db s.instances.entries).2.2 → e.2.reported = 0)
        ⟨fun h provider m hm => h (provider, m) (Dict.mem_entries_iff.mpr hm),
          fun h e he => h e.1 e.2 (Dict.mem_entries_iff.mp he)⟩

omit [AddCommMonoid F] in
/-- An answer is on the counters. -/
theorem waiting_updateTokenUsage (m : Instance) (model : String) (tokens : Tokens) :
    (m.updateTokenUsage model tokens).waiting = m.waiting + tokens := by
  have htotal := Dict.total_set m.tokenUsage model ((m.tokenUsage.get? model).getD 0 + tokens) id
  show (m.tokenUsage.set model _).total id = m.tokenUsage.total id + tokens
  rw [Option.map_id] at htotal
  refine add_right_cancel (htotal.trans ?_)
  show m.tokenUsage.total id + ((m.tokenUsage.get? model).getD 0 + tokens) = _
  rw [add_comm _ tokens, add_assoc]
  rfl

/-- Counters that were reset are empty. -/
theorem waiting_reset (m : Instance) : m.reset.waiting = 0 := rfl

/-- A provider gets other counters. -/
theorem waiting_set (d : Dict String Instance) (provider : String) (m : Instance) (p : String) :
    (((d.set provider m).get? p).map Instance.waiting).getD 0 =
      if p = provider then m.waiting else ((d.get? p).map Instance.waiting).getD 0 := by
  rw [Dict.get?_set]
  split
  · rfl
  · rfl

omit [AddCommMonoid F] in
/-- An operation that sets the counters of one provider to zero. -/
theorem balanced_cleared_iff (h : Balanced (s.books I)) (provider : String) {m' : Instance} (hm' : m'.waiting = 0) :
    Balanced (({ s with instances := s.instances.set provider m' } : State F).books I) ↔
      ∀ m, s.instances.get? provider = some m → m.waiting = 0 := by
  have hbooks : ({ s with instances := s.instances.set provider m' } : State F).books I =
      (s.books I).post (fun _ => 0) (fun p => if p = provider then 0 else (s.books I).waiting p) := by
    show Books.mk _ _ _ = Books.mk _ _ _
    congr 1
    · funext p
      exact (add_zero _).symm
    · funext p
      rw [waiting_set, hm']
      rfl
  rw [hbooks, balanced_post_iff h]
  constructor
  · intro hall m hm
    have hp := hall provider
    rw [if_pos rfl, add_zero] at hp
    have hw : (s.books I).waiting provider = m.waiting := by
      show ((s.instances.get? provider).map Instance.waiting).getD 0 = m.waiting
      rw [hm]
      rfl
    exact (hp.trans hw).symm
  · intro hm p
    rw [zero_add]
    split
    next hp =>
      subst hp
      show 0 = ((s.instances.get? p).map Instance.waiting).getD 0
      cases hget : s.instances.get? p with
      | none => rfl
      | some m => exact (hm m hget).symm
    next _ => rfl

/-- The counters after a load. -/
theorem waiting_load (d : Dict String Instance) (success : Bool) (p : String) :
    (((if success = true then d.mapValues fun m => if m.resets then m.reset else m else d).get? p).map
        Instance.waiting).getD 0 =
      ((d.get? p).map fun m => if success = true ∧ m.resets = true then 0 else m.waiting).getD 0 := by
  cases success with
  | false =>
      rw [if_neg Bool.false_ne_true]
      cases d.get? p with
      | none => rfl
      | some m =>
          show m.waiting = if false = true ∧ m.resets = true then 0 else m.waiting
          rw [if_neg fun h => Bool.false_ne_true h.1]
  | true =>
      rw [if_pos rfl, Dict.get?_mapValues]
      cases d.get? p with
      | none => rfl
      | some m =>
          show (if m.resets then m.reset else m).waiting = if true = true ∧ m.resets = true then 0 else m.waiting
          cases m.resets with
          | true => rw [if_pos rfl, if_pos ⟨rfl, rfl⟩, waiting_reset]
          | false => rw [if_neg Bool.false_ne_true, if_neg fun h => Bool.false_ne_true h.2]

/-- **One operation** keeps the books balanced exactly when it neither loses tokens nor counts them twice. -/
theorem balanced_step_iff (h : Balanced (s.books I)) (op : Op F) :
    Balanced ((step I cost userId s op).books I) ↔ Accounts I cost userId s op := by
  cases op with
  | register provider resets flushResets => exact balanced_cleared_iff I h provider rfl
  | answer provider model tokens =>
      refine iff_of_true ?_ trivial
      show Balanced (State.books I (match s.instances.get? provider with | none => s | some m => _))
      cases hm : s.instances.get? provider with
      | none => exact h
      | some m =>
          have hbooks : State.books I ({ s with
              instances := s.instances.set provider (m.updateTokenUsage model tokens)
              used := Function.update s.used provider (s.used provider + tokens) } : State F) =
              (s.books I).consume fun p => if p = provider then tokens else 0 := by
            show Books.mk _ _ _ = Books.mk _ _ _
            congr 1
            · funext p
              show _ = ((s.instances.get? p).map Instance.waiting).getD 0 + if p = provider then tokens else 0
              rw [waiting_set, waiting_updateTokenUsage]
              by_cases hp : p = provider
              · rw [if_pos hp, if_pos hp, hp, hm]
                rfl
              · rw [if_neg hp, if_neg hp, add_zero]
            · funext p
              show Function.update s.used provider (s.used provider + tokens) p =
                s.used p + if p = provider then tokens else 0
              by_cases hp : p = provider
              · rw [hp, Function.update_self, if_pos rfl]
              · rw [Function.update_of_ne hp, if_neg hp, add_zero]
          show Balanced (State.books I _)
          rw [hbooks]
          exact (balanced_consume _).mpr h
  | flush provider =>
      show Balanced (State.books I (match s.instances.get? provider with | none => s | some m => _)) ↔
        ∀ m, s.instances.get? provider = some m → m.flushResets = true → m.waiting = 0
      cases hm : s.instances.get? provider with
      | none => exact iff_of_true h fun m he => nomatch he
      | some m =>
          show Balanced (State.books I (if m.flushResets = true then _ else s)) ↔ _
          cases hf : m.flushResets with
          | false =>
              rw [if_neg Bool.false_ne_true]
              refine iff_of_true h fun m' he hf' => ?_
              cases he
              exact absurd (hf.symm.trans hf') Bool.false_ne_true
          | true =>
              rw [if_pos rfl, balanced_cleared_iff I h provider (waiting_reset m)]
              constructor
              · intro hall m' he _
                exact hall m' (hm.trans he)
              · intro hall m' he
                rw [hm] at he
                cases he
                exact hall m rfl hf
  | load l =>
      have hentries : ∀ p, Dict.getList p s.instances.entries = s.instances.get? p := fun _ => rfl
      have hbooks : (step I cost userId s (.load l)).books I =
          (s.books I).post
            (fun p => if p ∈ (uploadEach I cost userId l s.db s.instances.entries).2.2 then
              ((s.instances.get? p).map Instance.reported).getD 0 else 0)
            (fun p => ((s.instances.get? p).map fun m =>
              if (uploadEach I cost userId l s.db s.instances.entries).2.1 = true ∧ m.resets = true then 0
              else m.waiting).getD 0) := by
        show Books.mk _ _ _ = Books.mk _ _ _
        congr 1
        · funext p
          exact recorded_uploadEach I l _ s.instances.nodup s.db p
        · funext p
          exact waiting_load s.instances _ p
      rw [hbooks, balanced_post_iff h]
      refine forall_congr' fun p => ?_
      show (if p ∈ _ then _ else (0 : Tokens)) + _ = ((s.instances.get? p).map Instance.waiting).getD 0 ↔ _
      cases hm : s.instances.get? p with
      | none =>
          refine iff_of_true ?_ fun m he => nomatch he
          rw [Option.map_none, Option.map_none, Option.map_none, Option.getD_none, ite_self, add_zero]
      | some m =>
          rw [Option.map_some, Option.map_some, Option.map_some, Option.getD_some, Option.getD_some, Option.getD_some]
          generalize (uploadEach I cost userId l s.db s.instances.entries).2.1 = success
          generalize (uploadEach I cost userId l s.db s.instances.entries).2.2 = added
          have hone : (∀ m', some m = some m' → if success = true ∧ m'.resets = true then
              if p ∈ added then m'.reported = m'.waiting else m'.waiting = 0 else p ∈ added → m'.reported = 0) ↔
              if success = true ∧ m.resets = true then
                if p ∈ added then m.reported = m.waiting else m.waiting = 0 else p ∈ added → m.reported = 0 :=
            ⟨fun hall => hall m rfl, fun hm' m' he => Option.some_inj.mp he ▸ hm'⟩
          rw [hone]
          by_cases hreset : success = true ∧ m.resets = true
          · rw [if_pos hreset, if_pos hreset, add_zero]
            split
            · exact Iff.rfl
            · exact eq_comm
          · rw [if_neg hreset, if_neg hreset, add_eq_right]
            split
            next hp => exact ⟨fun he _ => he, fun he => he hp⟩
            next hp => exact iff_of_true rfl fun he => absurd he hp

end Accounts

/-- An agent without providers, and an empty store. -/
def idle : State ℚ := ⟨⟨∅, ∅⟩, ∅, fun _ => 0⟩

/-- The arguments of a workflow, which gives no entry id. -/
def workflowLoad (turn : String) : Load ℚ :=
  ⟨.str "p", .str "job_1", .str "analyse", "", "", "", "", "", "", "", "", "t", "t", fun provider => provider ++ turn,
    fun _ => true⟩

/-- Two turns of an agent with one provider. -/
def twoTurns : List (Op ℚ) :=
  [.register "openai" true true, .flush "openai", .answer "openai" "gpt-4.1" (120, 30), .load (workflowLoad "1"),
    .answer "openai" "gpt-4.1" (200, 10), .load (workflowLoad "2"), .answer "openai" "gpt-4.1" (50, 5)]

/-- **Every token is recorded once or still waiting**, at every point of a run of an agent whose books balance, exactly
when no operation loses tokens or counts them twice. -/
theorem tokens_accounted_iff (userId : String) {s : State F} (h : Balanced (s.books I)) (ops : List (Op F)) :
    (∀ pre, pre <+: ops → ∀ provider,
        let s' := Runs.run (step I cost userId) s pre
        recorded I s'.db provider + ((s'.instances.get? provider).map Instance.waiting).getD 0 = s'.used provider) ↔
      Runs.Guarded (step I cost userId) (Accounts I cost userId) s ops := by
  have hrule : (∀ pre, pre <+: ops → Balanced ((Runs.run (step I cost userId) s pre).books I)) ↔
      Balanced (s.books I) ∧ Runs.Guarded (step I cost userId) (Accounts I cost userId) s ops :=
    Runs.forall_prefix_iff_guarded (fun s => Balanced (s.books I)) s ops fun s op _ hs => balanced_step_iff I hs op
  exact hrule.trans ⟨fun hg => hg.2, fun hg => ⟨h, hg⟩⟩

/-- The tokens of two turns are recorded, those of the summary are waiting. -/
theorem tokens_accounted_two_turns :
    let s := Runs.run (step exactFloats (fun _ _ => ("0", "0", "text")) "u") idle twoTurns
    recorded exactFloats s.db "openai" + ((s.instances.get? "openai").map Instance.waiting).getD 0 = s.used "openai" :=
  (tokens_accounted_iff exactFloats (fun _ _ => ("0", "0", "text")) "u" (s := idle) (fun _ => rfl) twoTurns).mpr
    (by decide +kernel) twoTurns (List.prefix_refl _) "openai"

end Pinnokio.TokenMetering
