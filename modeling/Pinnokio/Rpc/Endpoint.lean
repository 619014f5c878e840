import Pinnokio.Lib.Documents
import Pinnokio.Lib.Interleaving
import Pinnokio.Lib.Text

/-!
# The RPC endpoint and its idempotency keys

A request carries an idempotency key.  The endpoint marks the key in Redis with one command, `SET NX EX`, and only the
request that has marked it goes on to its method; the others are told that they are duplicates.  Requests run side by
side, since a method may wait, and a mark may expire at any moment.

* `next` — the endpoint: its checks, the mark, the method with its injected arguments, the answer;
* `Counts` — what holds of a key in every state: a request has passed for each time its mark has expired, and one more
  while it is marked;
* `called_once` — **without an expiry exactly one of the requests with a key is let through**, whatever the
  interleaving; it calls its method if it has one, and the others are answered as duplicates.
-/

namespace Pinnokio.Rpc

open Pinnokio.Interleaving

/-! ### Requests and answers -/

/-- `RpcRequest`, with the header of the request, and whether Redis raises for it. -/
structure Request where
  authorization : Option String
  apiVersion : String
  method : String
  args : List Value
  kwargs : Dict String Value
  userId : Option String
  idempotencyKey : String
  redisRaises : Bool

/-- `RpcResponse`. -/
structure Response where
  ok : Bool
  data : Option Value
  error : Option (String × String)

/-- What a request gets: an HTTP error with its status and detail, or a response. -/
inductive Reply where
  | http (status : ℕ) (detail : String)
  | rpc (r : Response)

/-- `RpcResponse(ok=False, error=..)`. -/
def Reply.error (code message : String) : Reply := .rpc ⟨false, none, some (code, message)⟩

/-- `RpcResponse(ok=True, data=..)`. -/
def Reply.data (v : Value) : Reply := .rpc ⟨true, some v, none⟩

/-- The environment of the service. -/
structure Config where
  /-- `LISTENERS_SERVICE_TOKEN`. -/
  serviceToken : Option String
  /-- `RPC_API_VERSION`. -/
  apiVersion : String
  /-- `RPC_IDEMP_TTL`. -/
  ttl : ℕ
  /-- `RPC_IDEMP_DISABLE`. -/
  idempDisable : String
  /-- `RPC_IDEMP_DISABLE_METHODS`. -/
  idempDisableMethods : String

/-- `_require_auth`. -/
def requireAuth (cfg : Config) (authorization : Option String) : Option Reply :=
  match cfg.serviceToken with
  | none => none
  | some expected =>
      if expected = "" then none
      else
        match authorization with
        | none => some (.http 401 "missing_bearer_token")
        | some header =>
            if !Text.startsWith header "Bearer " then some (.http 401 "missing_bearer_token")
            else if (Text.splitAtMost header ' ' 1)[1]? = some expected then none
            else some (.http 403 "invalid_token")

/-- `_idemp_disabled`. -/
def idempDisabled (cfg : Config) (method : String) : Bool :=
  decide (Text.lower cfg.idempDisable ∈ ["1", "true", "yes", "on"]) ||
    (Text.split cfg.idempDisableMethods ',').any fun m => Text.strip m ≠ "" && Text.strip m = method

/-- The checks before the mark. -/
def check (cfg : Config) (req : Request) : Option Reply :=
  match requireAuth cfg req.authorization with
  | some reply => some reply
  | none =>
      if req.apiVersion ≠ cfg.apiVersion then
        some (.error "INVALID_API_VERSION" ("expected " ++ cfg.apiVersion))
      else if req.idempotencyKey = "" then some (.error "INVALID_ARGS" "idempotency_key required")
      else none

/-! ### The method -/

/-- The namespaces of the methods, with the names they admit if not all. -/
def namespaces : List (String × Option (List String)) :=
  [("FIREBASE_MANAGEMENT", none), ("FIREBASE_REALTIME", none),
    ("REGISTRY", some ["register_user", "unregister_session", "check_listener_status", "register_listener",
      "unregister_listener", "list_user_listeners", "cleanup_user_listeners", "update_listener_heartbeat"]),
    ("LISTENERS", some ["start_workflow_listener_for_job", "stop_workflow_listener_for_job"]),
    ("TASK", some ["start_document_analysis", "start_llm_conversation", "get_task_status"]),
    ("DMS", none), ("HR", none), ("FIREBASE_CACHE", none), ("DRIVE_CACHE", none), ("ACCOUNTING", none),
    ("ERP", none), ("DASHBOARD", none)]

/-- What a method resolves to; an accounting method that its handlers lack ends in the import of a module that does not
exist. -/
inductive Resolved where
  | found (ns : String)
  | missing
  | importError
  deriving DecidableEq

/-- `_resolve_method`, where `callable` tells the names a namespace has a function for. -/
def resolveMethod (callable : String → String → Bool) (method : String) : Resolved :=
  match Text.splitAtMost method '.' 1 with
  | [ns, name] =>
      match namespaces.find? fun e => e.1 = ns with
      | none => .missing
      | some (_, names) =>
          if (names.all fun ns => name ∈ ns) && callable ns name then .found ns
          else if ns = "ACCOUNTING" then .importError
          else .missing
  | _ => .missing

/-- `user_id` as an argument. -/
def userArg (req : Request) : Option Value :=
  match req.userId with
  | none => none
  | some u => if u = "" then none else some (.text u)

/-- `kwargs[name] = req.user_id`, unless the caller has given one. -/
def injectUser (name : String) (req : Request) : Dict String Value :=
  match userArg req with
  | none => req.kwargs
  | some u => if name ∈ req.kwargs.keys then req.kwargs else req.kwargs.set name u

/-- A test of a connection with credentials of its own. -/
def isTestConnectionDirect (req : Request) : Bool :=
  req.method = "ERP.test_connection" &&
    ["url", "db", "username", "password"].any fun k => ((req.kwargs.get? k).map Value.truthy).getD false

/-- The arguments of the call; the error is the `ValueError` of an ERP method without a company. -/
def injectArgs (ns : String) (req : Request) : Except String (List Value × Dict String Value) :=
  if ns = "DMS" then
    match userArg req with
    | none => .ok (req.args, req.kwargs)
    | some u => .ok (u :: req.args, req.kwargs)
  else if ns = "ERP" then
    let kwargs := injectUser "user_id" req
    if "company_id" ∉ kwargs.keys && !isTestConnectionDirect req then
      .error "company_id is required for ERP methods"
    else .ok (req.args, kwargs)
  else if ns = "HR" then .ok (req.args, injectUser "firebase_user_id" req)
  else if ns ∈ ["FIREBASE_CACHE", "DRIVE_CACHE", "DASHBOARD"] then .ok (req.args, injectUser "user_id" req)
  else .ok (req.args, req.kwargs)

/-- How a call ends. -/
inductive Outcome where
  | value (v : Value)
  | keyError
  | typeError (message : String)
  | raised (message : String)

/-- The functions behind the methods. -/
structure Service where
  callable : String → String → Bool
  /-- The text of the import error. -/
  importMessage : String
  call : Request → List Value → Dict String Value → Outcome

/-- The arguments that the method of a request is called with, or the answer if none is called. -/
def invocation (service : Service) (req : Request) : Except Reply (List Value × Dict String Value) :=
  match resolveMethod service.callable req.method with
  | .missing => .error (.error "METHOD_NOT_FOUND" req.method)
  | .importError => .error (.error "INTERNAL" service.importMessage)
  | .found ns =>
      match injectArgs ns req with
      | .error message => .error (.error "INTERNAL" message)
      | .ok arguments => .ok arguments

/-- The answer of a request that is let through: a `KeyError` of the method counts as a method that is missing. -/
def answer (service : Service) (req : Request) : Reply :=
  match invocation service req with
  | .error reply => reply
  | .ok (args, kwargs) =>
      match service.call req args kwargs with
      | .value v => .data v
      | .keyError => .error "METHOD_NOT_FOUND" req.method
      | .typeError message => .error "INVALID_ARGS" message
      | .raised message => .error "INTERNAL" message

/-! ### The endpoint -/

/-- The marks, with their times to live. -/
abbrev Redis := Dict String ℕ

/-- `f"idemp:{key}"`. -/
def idempKey (key : String) : String := "idemp:" ++ key

/-- A request on its way, or the expiry of a mark. -/
inductive Pc where
  | arrived (req : Request)
  | passed (req : Request)
  | refused (req : Request) (reply : Reply)
  | duplicate (req : Request)
  | answered (req : Request) (reply : Reply)
  | expiry (key : String)
  /-- The expiry is over; there was a mark, or none. -/
  | expired (key : String) (marked : Bool)

/-- The response of a duplicate. -/
def duplicateReply : Reply := .data (.map [("duplicate", .scalar (.bool true))])

/-- What a request has been answered. -/
def Pc.reply? : Pc → Option Reply
  | refused _ reply | answered _ reply => some reply
  | duplicate _ => some duplicateReply
  | _ => none

section Steps

variable (cfg : Config) (service : Service)

/-- The request passes the checks and takes part in the marking: `_idempotency_mark_if_new` lets every request pass
when Redis raises. -/
def Request.marks (req : Request) : Bool :=
  (check cfg req).isNone && !idempDisabled cfg req.method && !req.redisRaises

/-- One request up to its first wait, the rest of a request, or an expiry. -/
def next (r : Redis) : Pc → Option (Redis × Pc)
  | .arrived req =>
      match check cfg req with
      | some reply => some (r, .refused req reply)
      | none =>
          if idempDisabled cfg req.method || req.redisRaises then some (r, .passed req)
          else if idempKey req.idempotencyKey ∈ r.keys then some (r, .duplicate req)
          else some (r.set (idempKey req.idempotencyKey) cfg.ttl, .passed req)
  | .passed req => some (r, .answered req (answer service req))
  | .expiry key => some (r.erase (idempKey key), .expired key (decide (idempKey key ∈ r.keys)))
  | .refused .. | .duplicate _ | .answered .. | .expired .. => none

/-- Any requests and expiries. -/
def start (r : Redis) (arrivals : List Pc) : Pool Redis Pc := ⟨r, arrivals⟩

/-- A request that has not been looked at yet, or an expiry to come. -/
def Pc.fresh : Pc → Bool
  | arrived _ | expiry _ => true
  | _ => false

/-- A request with the key takes part in the marking. -/
def Request.asks (req : Request) (key : String) : Bool := req.marks cfg && decide (req.idempotencyKey = key)

/-- Such a request, wherever it is. -/
def Pc.asks (key : String) : Pc → Bool
  | arrived req | passed req | duplicate req | answered req _ => req.asks cfg key
  | _ => false

/-- Such a request has passed the mark. -/
def Pc.passes (key : String) : Pc → Bool
  | passed req | answered req _ => req.asks cfg key
  | _ => false

/-- Such a request has called its method. -/
def Pc.calls (key : String) : Pc → Bool
  | answered req _ => req.asks cfg key && (invocation service req).isOk
  | _ => false

/-- Such a request has been told that it is a duplicate. -/
def Pc.repeats (key : String) : Pc → Bool
  | duplicate req => req.asks cfg key
  | _ => false

/-- Nothing is left to do. -/
def Pc.over : Pc → Bool
  | refused .. | duplicate _ | answered .. | expired .. => true
  | _ => false

/-- The mark of the key has expired. -/
def Pc.expires (key : String) : Pc → Bool
  | expired k marked => marked && decide (k = key)
  | _ => false

/-- What has been let through has its own answer. -/
def Pc.Faithful : Pc → Prop
  | answered req reply => reply = answer service req
  | _ => True

/-- The key is marked. -/
def marked (r : Redis) (key : String) : ℕ := if idempKey key ∈ r.keys then 1 else 0

end Steps

/-! ### What a step does to a key -/

theorem idempKey_inj {key key' : String} : idempKey key = idempKey key' ↔ key = key' :=
  ⟨Text.append_left_cancel, fun h => by rw [h]⟩

theorem marked_set (r : Redis) (key key' : String) (ttl : ℕ) :
    marked (r.set (idempKey key) ttl) key' = if key' = key then 1 else marked r key' := by
  unfold marked
  simp only [Dict.mem_keys_set, idempKey_inj]
  by_cases h : key' = key <;> simp [h]

theorem marked_erase (r : Redis) (key key' : String) :
    marked (r.erase (idempKey key)) key' = if key' = key then 0 else marked r key' := by
  unfold marked
  simp only [Dict.mem_keys_erase, ne_eq, idempKey_inj]
  by_cases h : key' = key <;> simp [h]

section Invariant

variable {cfg : Config} {service : Service}

/-- **One step**: the requests that have passed with a key and its expiries change together with its mark. -/
theorem balance_step {r r' : Redis} {l l' : Pc} (h : next cfg service r l = some (r', l')) (key : String) :
    (l'.passes cfg key).toNat + ((l.expires key).toNat + marked r key) =
      (l.passes cfg key).toNat + ((l'.expires key).toNat + marked r' key) := by
  cases l with
  | arrived req =>
      simp only [next] at h
      cases hc : check cfg req with
      | some reply =>
          rw [hc] at h
          cases h
          simp [Pc.passes, Pc.expires]
      | none =>
          rw [hc] at h
          dsimp only at h
          split at h
          · next hskip =>
            cases h
            have hmarks : req.marks cfg = false := by
              simp only [Bool.or_eq_true] at hskip
              rcases hskip with hskip | hskip <;> simp [Request.marks, hskip]
            simp [Pc.passes, Pc.expires, Request.asks, hmarks]
          · next hskip =>
            have hmarks : req.marks cfg = true := by
              simp only [Bool.or_eq_true, not_or, Bool.not_eq_true] at hskip
              simp [Request.marks, hc, hskip.1, hskip.2]
            split at h
            · cases h
              simp [Pc.passes, Pc.expires]
            · next hnew =>
              cases h
              by_cases hk : req.idempotencyKey = key
              · subst hk
                simp [Pc.passes, Pc.expires, Request.asks, hmarks, marked_set]
                simp [marked, hnew]
              · simp [Pc.passes, Pc.expires, Request.asks, marked_set, hk, Ne.symm hk]
  | passed req =>
      cases h
      simp [Pc.passes, Pc.expires]
  | expiry k =>
      cases h
      by_cases hk : k = key
      · subst hk
        by_cases hm : idempKey k ∈ r.keys <;> simp [Pc.passes, Pc.expires, marked_erase, hm]
        · simp [marked, hm]
        · simp [marked, hm]
      · simp [Pc.passes, Pc.expires, marked_erase, hk, Ne.symm hk]
  | refused req reply => cases h
  | duplicate req => cases h
  | answered req reply => cases h
  | expired k m => cases h

/-- A step keeps the request it is about. -/
theorem asks_step {r r' : Redis} {l l' : Pc} (h : next cfg service r l = some (r', l')) (key : String) :
    l'.asks cfg key = l.asks cfg key := by
  cases l with
  | arrived req =>
      simp only [next] at h
      cases hc : check cfg req with
      | some reply =>
          rw [hc] at h
          cases h
          simp [Pc.asks, Request.asks, Request.marks, hc]
      | none =>
          rw [hc] at h
          dsimp only at h
          split at h
          · cases h
            rfl
          · split at h <;> cases h <;> rfl
  | passed req =>
      cases h
      rfl
  | expiry k =>
      cases h
      rfl
  | refused req reply => cases h
  | duplicate req => cases h
  | answered req reply => cases h
  | expired k m => cases h

/-- A request that is told that it is a duplicate has met the mark of its key. -/
theorem repeats_step {r r' : Redis} {l l' : Pc} (h : next cfg service r l = some (r', l')) {key : String}
    (hrep : l'.repeats cfg key = true) : marked r key = 1 := by
  cases l with
  | arrived req =>
      simp only [next] at h
      cases hc : check cfg req with
      | some reply =>
          rw [hc] at h
          cases h
          cases hrep
      | none =>
          rw [hc] at h
          dsimp only at h
          split at h
          · cases h
            cases hrep
          · split at h
            · next hin =>
              cases h
              have hk : req.idempotencyKey = key := by
                have hboth : (req.marks cfg && decide (req.idempotencyKey = key)) = true := hrep
                rw [Bool.and_eq_true, decide_eq_true_eq] at hboth
                exact hboth.2
              subst hk
              simp [marked, hin]
            · cases h
              cases hrep
  | passed req =>
      cases h
      cases hrep
  | expiry k =>
      cases h
      cases hrep
  | refused req reply => cases h
  | duplicate req => cases h
  | answered req reply => cases h
  | expired k m => cases h

/-- A request that has passed the mark has passed it for good. -/
theorem passes_step {r r' : Redis} {l l' : Pc} (h : next cfg service r l = some (r', l')) (key : String)
    (hpasses : l.passes cfg key = true) : l'.passes cfg key = true := by
  cases l with
  | passed req =>
      cases h
      exact hpasses
  | arrived req => cases hpasses
  | expiry k => cases hpasses
  | refused req reply => cases h
  | duplicate req => cases h
  | answered req reply => cases h
  | expired k m => cases h

/-- What holds of a key in every state; `n` requests have come with it. -/
structure Counts (cfg : Config) (key : String) (n : ℕ) (p : Pool Redis Pc) : Prop where
  balance : p.threads.countP (Pc.passes cfg key) = p.threads.countP (Pc.expires key) + marked p.shared key
  asks : p.threads.countP (Pc.asks cfg key) = n
  after : 0 < p.threads.countP (Pc.repeats cfg key) → 0 < p.threads.countP (Pc.passes cfg key)

theorem Counts.step {key : String} {n : ℕ} {p q : Pool Redis Pc} {i : ℕ} (hp : Counts cfg key n p)
    (h : p.stepAt (next cfg service) i = some q) : Counts cfg key n q := by
  obtain ⟨l, r', l', hl, hnext, rfl⟩ := stepAt_eq_some h
  have hpasses := countP_set_add (Pc.passes cfg key) l' hl
  have hexpires := countP_set_add (Pc.expires key) l' hl
  have hasks := countP_set_add (Pc.asks cfg key) l' hl
  have hrepeats := countP_set_add (Pc.repeats cfg key) l' hl
  have hbalance := balance_step hnext key
  have hb := hp.balance
  constructor
  · show (p.threads.set i l').countP _ = (p.threads.set i l').countP _ + marked r' key
    omega
  · show (p.threads.set i l').countP _ = n
    rw [asks_step hnext] at hasks
    rw [← hp.asks]
    omega
  · show 0 < (p.threads.set i l').countP _ → 0 < (p.threads.set i l').countP _
    intro hpos
    -- a request that has passed has passed for good
    have hmono : (l.passes cfg key).toNat ≤ (l'.passes cfg key).toNat := by
      cases hc : l.passes cfg key with
      | false => exact Nat.zero_le _
      | true => simp [passes_step hnext key hc]
    cases hr : l'.repeats cfg key with
    | false =>
        rw [hr] at hrepeats
        have hbefore := hp.after (by simp only [Bool.toNat_false] at hrepeats; omega)
        omega
    | true =>
        -- the duplicate has met a mark, so a request has passed before it
        have hmark := repeats_step hnext hr
        omega

theorem Counts.start {arrivals : List Pc} (hfresh : ∀ l ∈ arrivals, l.fresh = true) {r : Redis} {key : String}
    (hkey : idempKey key ∉ r.keys) :
    Counts cfg key (arrivals.countP (Pc.asks cfg key)) (start r arrivals) := by
  have hnone : ∀ f : Pc → Bool, (∀ l : Pc, l.fresh = true → f l = false) → arrivals.countP f = 0 := by
    intro f hf
    rw [List.countP_eq_zero]
    intro l hl
    simp [hf l (hfresh l hl)]
  have hpasses : arrivals.countP (Pc.passes cfg key) = 0 :=
    hnone _ fun l hl => by cases l <;> first | rfl | cases hl
  have hexpires : arrivals.countP (Pc.expires key) = 0 :=
    hnone _ fun l hl => by cases l <;> first | rfl | cases hl
  have hrepeats : arrivals.countP (Pc.repeats cfg key) = 0 :=
    hnone _ fun l hl => by cases l <;> first | rfl | cases hl
  constructor
  · show arrivals.countP _ = arrivals.countP _ + marked r key
    rw [hpasses, hexpires]
    simp [marked, hkey]
  · rfl
  · show 0 < arrivals.countP _ → 0 < arrivals.countP _
    omega

/-- In every state that requests and expiries lead to, whatever their order. -/
theorem counts_exec {arrivals : List Pc} (hfresh : ∀ l ∈ arrivals, l.fresh = true) {r : Redis} {sched : List ℕ}
    {q : Pool Redis Pc} (hq : exec (next cfg service) (start r arrivals) sched = some q) {key : String}
    (hkey : idempKey key ∉ r.keys) : Counts cfg key (arrivals.countP (Pc.asks cfg key)) q :=
  exec_induction _ (fun _ _ _ hp h => hp.step h) sched _ q (Counts.start hfresh hkey) hq

/-- When nothing is left to do, the requests with a key have passed or been told that they are duplicates. -/
theorem asks_of_over (cfg : Config) {ls : List Pc} (hover : ∀ l ∈ ls, l.over = true) (key : String) :
    ls.countP (Pc.asks cfg key) = ls.countP (Pc.passes cfg key) + ls.countP (Pc.repeats cfg key) := by
  induction ls with
  | nil => rfl
  | cons l ls ih =>
      have hl : (l.asks cfg key).toNat = (l.passes cfg key).toNat + (l.repeats cfg key).toNat := by
        have hthis := hover l List.mem_cons_self
        cases l with
        | refused req reply => rfl
        | duplicate req =>
            show _ = 0 + _
            rw [Nat.zero_add]
            rfl
        | answered req reply => rfl
        | expired k m => rfl
        | arrived req => cases hthis
        | passed req => cases hthis
        | expiry k => cases hthis
      have hrest := ih fun x hx => hover x (List.mem_cons_of_mem l hx)
      have hcount : ∀ f : Pc → Bool, (l :: ls).countP f = ls.countP f + (f l).toNat := by
        intro f
        rw [List.countP_cons]
        cases f l <;> rfl
      rw [hcount, hcount, hcount]
      omega

/-- A step answers with what the method of the request returns. -/
theorem faithful_step {r r' : Redis} {l l' : Pc} (h : next cfg service r l = some (r', l')) : l'.Faithful service := by
  cases l with
  | arrived req =>
      simp only [next] at h
      split at h
      · cases h
        trivial
      · split at h
        · cases h
          trivial
        · split at h <;> cases h <;> trivial
  | passed req =>
      cases h
      rfl
  | expiry k =>
      cases h
      trivial
  | refused req reply => cases h
  | duplicate req => cases h
  | answered req reply => cases h
  | expired k m => cases h

theorem faithful_exec {arrivals : List Pc} (hfresh : ∀ l ∈ arrivals, l.fresh = true) {r : Redis} {sched : List ℕ}
    {q : Pool Redis Pc} (hq : exec (next cfg service) (start r arrivals) sched = some q) :
    ∀ l ∈ q.threads, l.Faithful service := by
  refine exec_induction (fun p => ∀ l ∈ p.threads, l.Faithful service) (fun p q i hp h => ?_) sched _ q ?_ hq
  · obtain ⟨l, r', l', -, hnext, rfl⟩ := stepAt_eq_some h
    intro x hx
    rcases List.mem_or_eq_of_mem_set hx with hx | rfl
    · exact hp x hx
    · exact faithful_step hnext
  · intro l hl
    have hfresh := hfresh l hl
    cases l with
    | answered req reply => cases hfresh
    | _ => trivial

/-- Only a request that has passed the mark calls its method. -/
theorem calls_eq_false {l : Pc} {key : String} (h : l.passes cfg key = false) : l.calls cfg service key = false := by
  cases l with
  | answered req reply =>
      rw [Pc.passes] at h
      rw [Pc.calls, h, Bool.false_and]
  | _ => rfl

/-- A request with the key that is over and has not passed has been told that it is a duplicate. -/
theorem reply_of_asks {l : Pc} {key : String} (hover : l.over = true) (hpasses : l.passes cfg key = false)
    (hasks : l.asks cfg key = true) : l.reply? = some duplicateReply := by
  cases l with
  | duplicate req => rfl
  | answered req reply => exact absurd (hpasses.symm.trans hasks) Bool.false_ne_true
  | refused req reply => cases hasks
  | expired k m => cases hasks
  | arrived req => cases hover
  | passed req => cases hover
  | expiry k => cases hover

/-- Exactly one request with the key has passed, once they are all over. -/
theorem passed_once {arrivals : List Pc} (hfresh : ∀ l ∈ arrivals, l.fresh = true) {r : Redis} {sched : List ℕ}
    {q : Pool Redis Pc} (hq : exec (next cfg service) (start r arrivals) sched = some q)
    (hover : ∀ l ∈ q.threads, l.over = true) {key : String} (hkey : idempKey key ∉ r.keys)
    (hlive : ∀ l ∈ q.threads, l.expires key = false) (hasked : ∃ l ∈ arrivals, l.asks cfg key = true) :
    q.threads.countP (Pc.passes cfg key) = 1 := by
  have hcounts := counts_exec hfresh hq hkey
  have hsplit := asks_of_over cfg hover key
  have hpos : 0 < arrivals.countP (Pc.asks cfg key) := by
    obtain ⟨l, hl, ha⟩ := hasked
    exact List.countP_pos_iff.mpr ⟨l, hl, ha⟩
  have hexpires : q.threads.countP (Pc.expires key) = 0 := by
    rw [List.countP_eq_zero]
    intro l hl
    simp [hlive l hl]
  have hmark : marked q.shared key ≤ 1 := by
    show (if _ then 1 else 0) ≤ 1
    split <;> omega
  have hb := hcounts.balance
  have ha := hcounts.asks
  have hafter := hcounts.after
  omega

/-- **Idempotency**: once the requests are all answered, exactly one of those with a key that had not been marked, and
whose mark has not expired, has been let through.  It has the answer of its method, and all the others with the key have
been told that they are duplicates; the methods have been called once for the key, or not at all if that request has no
method that can be called.  The requests come in any number and any order, some with other keys, and the call may end as
it will. -/
theorem called_once {arrivals : List Pc} (hfresh : ∀ l ∈ arrivals, l.fresh = true) {r : Redis} {sched : List ℕ}
    {q : Pool Redis Pc} (hq : exec (next cfg service) (start r arrivals) sched = some q)
    (hover : ∀ l ∈ q.threads, l.over = true) {key : String} (hkey : idempKey key ∉ r.keys)
    (hlive : ∀ l ∈ q.threads, l.expires key = false) (hasked : ∃ l ∈ arrivals, l.asks cfg key = true) :
    ∃ before req after, q.threads = before ++ .answered req (answer service req) :: after ∧
      req.asks cfg key = true ∧
      (∀ l ∈ before ++ after, l.asks cfg key = true → l.reply? = some duplicateReply) ∧
      q.threads.countP (Pc.calls cfg service key) = if (invocation service req).isOk then 1 else 0 := by
  obtain ⟨before, l, after, hthreads, hpasses, hothers⟩ :=
    exists_split_of_countP_eq_one (passed_once hfresh hq hover hkey hlive hasked)
  have hover' : ∀ x ∈ before ++ l :: after, x.over = true := hthreads ▸ hover
  have hfaithful : l.Faithful service :=
    faithful_exec hfresh hq l (hthreads ▸ List.mem_append_right _ List.mem_cons_self)
  obtain ⟨req, reply, rfl⟩ : ∃ req reply, l = .answered req reply := by
    have hl := hover' l (List.mem_append_right _ List.mem_cons_self)
    cases l with
    | answered req reply => exact ⟨req, reply, rfl⟩
    | passed req => cases hl
    | _ => cases hpasses
  obtain rfl : reply = answer service req := hfaithful
  refine ⟨before, req, after, hthreads, hpasses, fun x hx hasks => ?_, ?_⟩
  · refine reply_of_asks (hover' x ?_) (hothers x hx) hasks
    rcases List.mem_append.mp hx with hx | hx
    · exact List.mem_append_left _ hx
    · exact List.mem_append_right _ (List.mem_cons_of_mem _ hx)
  · have hnone : (before ++ after).countP (Pc.calls cfg service key) = 0 :=
      List.countP_eq_zero.mpr fun x hx => by rw [calls_eq_false (hothers x hx)]; exact Bool.false_ne_true
    have hself : (Pc.answered req (answer service req)).calls cfg service key = (invocation service req).isOk := by
      show (req.asks cfg key && _) = _
      rw [show req.asks cfg key = true from hpasses, Bool.true_and]
    rw [List.countP_append] at hnone
    rw [hthreads, List.countP_append, List.countP_cons, hself]
    omega

/-- A service without a token, whose only function times out. -/
def timeouts : Service := ⟨fun _ name => name = "save", "", fun _ _ _ => .raised "timeout"⟩

/-- Its environment. -/
def environment : Config := ⟨none, "v1", 900, "false", ""⟩

/-- A request with a key. -/
def requestOf (method key : String) : Request := ⟨none, "v1", method, [], ∅, none, key, false⟩

/-- Two requests with one key, and one with another key whose method does not exist. -/
def threeRequests : List Pc :=
  [.arrived (requestOf "FIREBASE_MANAGEMENT.save" "a"), .arrived (requestOf "FOO.bar" "b"),
    .arrived (requestOf "FIREBASE_MANAGEMENT.save" "a")]

/-- The last of them is served first, and the first one is its duplicate. -/
def allAnswered : Pool Redis Pc where
  shared := Dict.ofList [("idemp:a", 900), ("idemp:b", 900)]
  threads := [.duplicate (requestOf "FIREBASE_MANAGEMENT.save" "a"),
    .answered (requestOf "FOO.bar" "b") (.error "METHOD_NOT_FOUND" "FOO.bar"),
    .answered (requestOf "FIREBASE_MANAGEMENT.save" "a") (.error "INTERNAL" "timeout")]

/-- One call for the first key, although it fails; none for the other. -/
theorem called_once_three_requests :
    exec (next environment timeouts) (start ∅ threeRequests) [2, 0, 1, 2, 1] = some allAnswered ∧
      (∃ before req after, allAnswered.threads = before ++ .answered req (answer timeouts req) :: after ∧
        req.asks environment "a" = true ∧
        (∀ l ∈ before ++ after, l.asks environment "a" = true → l.reply? = some duplicateReply) ∧
        allAnswered.threads.countP (Pc.calls environment timeouts "a") =
          if (invocation timeouts req).isOk then 1 else 0) ∧
      allAnswered.threads.countP (Pc.calls environment timeouts "a") = 1 ∧
      allAnswered.threads.countP (Pc.calls environment timeouts "b") = 0 := by
  have hrun : exec (next environment timeouts) (start ∅ threeRequests) [2, 0, 1, 2, 1] = some allAnswered := rfl
  refine ⟨hrun, called_once ?_ hrun ?_ (by decide) ?_ ⟨_, List.mem_cons_self, by decide +kernel⟩, by decide +kernel,
    by decide +kernel⟩
  · simp [threeRequests, Pc.fresh]
  · simp [allAnswered, Pc.over]
  · simp [allAnswered, Pc.expires]

end Invariant

end Pinnokio.Rpc
