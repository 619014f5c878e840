import Pinnokio.Lib.PyJson
import Pinnokio.Sockets.MessageBuffer

/-!
# Replay of buffered messages

A message is sent to a live connection as the text of `safe_json_dumps`, which writes `null` for a float that is not a
number, and the text of a date or of a number of numpy.  Without a connection it is buffered as the text of plain
`json.dumps`, which writes tokens for such floats and raises for the others, and then nothing is buffered.

* `standard_of_dumps`, `dumps_of_standard` — what plain `json.dumps` raises for;
* `loads_eq_iff` — when the two texts read as the same value;
* `replay_eq_live_iff` — **a buffered message reads as the text sent live** exactly when it has no object that needs the
  encoder of `safe_json_dumps` and no float that is not a number, those under a repeated key apart.
-/

namespace Pinnokio.Sockets.Replay

open Pinnokio.PyJson
open Pinnokio.Sockets.MessageBuffer (generateKey lrange rpush lrange_rpush)

variable {F : Type}

/-! ### The encoder -/

/-- The objects the encoder has a case for, and the others.  An array is given by what its `tolist()` is written as. -/
inductive Special (F : Type) where
  | npInteger (n : Int)
  | npFloating (x : PyFloat F)
  | ndarray (tolist : Option (Json F))
  | dated (isoformat : String)
  | other

/-- A value of a message. -/
abbrev Payload (F : Type) := PyValue F (Special F)

/-- `SafeJSONEncoder.default`. -/
def default : Special F → Option (Json F)
  | .npInteger n => some (.int n)
  | .npFloating x => some (if x.isFinite then .float x else .null)
  | .ndarray tolist => tolist
  | .dated isoformat => some (.str isoformat)
  | .other => none

mutual

/-- `_sanitize`. -/
def sanitize : Payload F → Payload F
  | .float x => if x.isFinite then .float x else .none
  | .dict entries => .dict (sanitizeEntries entries)
  | .list items => .list (sanitizeItems items)
  | .tuple items => .list (sanitizeItems items)
  | v => v

/-- The items of a list. -/
def sanitizeItems : List (Payload F) → List (Payload F)
  | [] => []
  | v :: vs => sanitize v :: sanitizeItems vs

/-- The entries of a dictionary. -/
def sanitizeEntries : List (Key F × Payload F) → List (Key F × Payload F)
  | [] => []
  | (k, v) :: es => (k, sanitize v) :: sanitizeEntries es

end

section Messages

variable (repr : F → String)

/-- `safe_json_dumps`. -/
def safeJsonDumps (v : Payload F) : Option (Json F) := dumps repr default (sanitize v)

/-- `json.dumps` without a hook. -/
def jsonDumps (v : Payload F) : Option (Json F) := dumps repr (fun _ => none) v

/-! ### Messages -/

/-- `EVENT_TYPE_NORMALIZATION`. -/
def eventTypeNormalization : List (String × String) :=
  [("llm_stream_start", "llm.stream_start"), ("llm_stream_chunk", "llm.stream_delta"),
   ("llm_stream_delta", "llm.stream_delta"), ("llm_stream_complete", "llm.stream_end"),
   ("llm_stream_end", "llm.stream_end"), ("llm_stream_error", "llm.error"), ("llm_stream_interrupted", "llm.error"),
   ("tool_use_start", "llm.tool_use_start"), ("tool_use_progress", "llm.tool_use_progress"),
   ("tool_use_complete", "llm.tool_use_complete"), ("tool_use_error", "llm.tool_use_error"),
   ("thinking_start", "llm.thinking_start"), ("thinking_delta", "llm.thinking_delta"),
   ("thinking_chunk", "llm.thinking_delta"), ("thinking_end", "llm.thinking_end")]

mutual

/-- A value that can be looked up in a table. -/
def hashable : Payload F → Bool
  | .list _ => false
  | .dict _ => false
  | .tuple items => hashableItems items
  | .object (.ndarray _) => false
  | _ => true

/-- The items of a tuple. -/
def hashableItems : List (Payload F) → Bool
  | [] => true
  | v :: vs => hashable v && hashableItems vs

end

/-- The message with its event type in the standard notation; `none` is the `TypeError` of a type that cannot be looked
up. -/
def normalized (message : List (Key F × Payload F)) : Option (List (Key F × Payload F)) :=
  match getStr "type" message with
  | some (.str originalType) =>
      let normalizedType := (Dict.getList originalType eventTypeNormalization).getD originalType
      some (if normalizedType = originalType then message else setStr "type" (.str normalizedType) message)
  | some originalType => if hashable originalType then some message else none
  | none => some message

/-- The text that `broadcast` sends to a live connection; `none` is an error. -/
def liveText (message : List (Key F × Payload F)) : Option (Json F) :=
  (normalized message).bind fun message => safeJsonDumps repr (.dict message)

/-- `store_pending_message`. -/
def storePendingMessage (r : MessageBuffer.Lists (Json F)) (userId threadKey : String) (message : Payload F) :
    MessageBuffer.Lists (Json F) × Bool :=
  match jsonDumps repr message with
  | none => (r, false)
  | some messageJson => (rpush r (generateKey userId threadKey) messageJson, true)

/-- `get_pending_messages`. -/
def getPendingMessages (r : MessageBuffer.Lists (Json F)) (userId threadKey : String) (deleteAfter : Bool) :
    MessageBuffer.Lists (Json F) × List (Json F) :=
  let messages := (lrange r (generateKey userId threadKey)).map loads
  (if deleteAfter && !messages.isEmpty then r.erase (generateKey userId threadKey) else r, messages)

/-- What `broadcast` stores of a message when there is no connection. -/
def buffer (r : MessageBuffer.Lists (Json F)) (userId threadKey : String) (message : List (Key F × Payload F)) :
    MessageBuffer.Lists (Json F) :=
  match normalized message with
  | none => r
  | some message => (storePendingMessage repr r userId threadKey (.dict message)).1

/-- The message is read back as the text sent live. -/
def Replayed (r : MessageBuffer.Lists (Json F)) (userId threadKey : String) (message : List (Key F × Payload F))
    (live : Json F) :
    Prop :=
  ∀ deleteAfter, (getPendingMessages (buffer repr r userId threadKey message) userId threadKey deleteAfter).2 =
    (getPendingMessages r userId threadKey deleteAfter).2 ++ [loads live]

/-! ### The messages that are replayed -/

mutual

/-- No object in the value needs a hook. -/
def Standard : Payload F → Prop
  | .list items => StandardItems items
  | .tuple items => StandardItems items
  | .dict entries => StandardEntries entries
  | .object _ => False
  | _ => True

/-- The items of a list. -/
def StandardItems : List (Payload F) → Prop
  | [] => True
  | v :: vs => Standard v ∧ StandardItems vs

/-- The entries of a dictionary. -/
def StandardEntries : List (Key F × Payload F) → Prop
  | [] => True
  | (_, v) :: es => Standard v ∧ StandardEntries es

end

mutual

/-- The floats in the value are numbers, except under a key that is repeated. -/
def VisiblyFinite : Payload F → Prop
  | .float x => x.isFinite = true
  | .list items => VisiblyFiniteItems items
  | .tuple items => VisiblyFiniteItems items
  | .dict entries => VisiblyFiniteEntries entries
  | _ => True

/-- The items of a list. -/
def VisiblyFiniteItems : List (Payload F) → Prop
  | [] => True
  | v :: vs => VisiblyFinite v ∧ VisiblyFiniteItems vs

/-- The entries of a dictionary. -/
def VisiblyFiniteEntries : List (Key F × Payload F) → Prop
  | [] => True
  | (k, v) :: es =>
      (k.text repr ∉ es.map (fun e => e.1.text repr) → VisiblyFinite v) ∧ VisiblyFiniteEntries es

end

end Messages

/-! ### When plain `json.dumps` raises -/

section Plain

variable {repr : F → String}

mutual

/-- What is written needs no hook. -/
theorem standard_of_dumps : ∀ {v : Payload F} {p : Json F}, jsonDumps repr v = some p → Standard v
  | .none, _, _ => trivial
  | .bool _, _, _ => trivial
  | .int _, _, _ => trivial
  | .float _, _, _ => trivial
  | .str _, _, _ => trivial
  | .list items, p, h => by
      obtain ⟨ps, hps, -⟩ := Option.map_eq_some_iff.mp h
      exact standardItems_of_dumps hps
  | .tuple items, p, h => by
      obtain ⟨ps, hps, -⟩ := Option.map_eq_some_iff.mp h
      exact standardItems_of_dumps hps
  | .dict entries, p, h => by
      obtain ⟨ps, hps, -⟩ := Option.map_eq_some_iff.mp h
      exact standardEntries_of_dumps hps
  | .object _, _, h => by cases h

theorem standardItems_of_dumps : ∀ {vs : List (Payload F)} {ps : List (Json F)},
    dumpsItems repr (fun _ => none) vs = some ps → StandardItems vs
  | [], _, _ => trivial
  | v :: vs, ps, h => by
      obtain ⟨p, ps', hv, hvs, -⟩ := dumpsItems_cons.mp h
      exact ⟨standard_of_dumps hv, standardItems_of_dumps hvs⟩

theorem standardEntries_of_dumps : ∀ {es : List (Key F × Payload F)} {ps : List (String × Json F)},
    dumpsEntries repr (fun _ => none) es = some ps → StandardEntries es
  | [], _, _ => trivial
  | (k, v) :: es, ps, h => by
      obtain ⟨t, p, ps', -, hv, hes, -⟩ := dumpsEntries_cons.mp h
      exact ⟨standard_of_dumps hv, standardEntries_of_dumps hes⟩

end

mutual

/-- What needs no hook is written, if the keys can be. -/
theorem dumps_of_standard : ∀ {v : Payload F} {q : Json F}, Standard v → safeJsonDumps repr v = some q →
    ∃ p, jsonDumps repr v = some p
  | .none, _, _, _ => ⟨_, rfl⟩
  | .bool _, _, _, _ => ⟨_, rfl⟩
  | .int _, _, _, _ => ⟨_, rfl⟩
  | .float _, _, _, _ => ⟨_, rfl⟩
  | .str _, _, _, _ => ⟨_, rfl⟩
  | .list items, q, hs, h => by
      obtain ⟨qs, hqs, -⟩ := Option.map_eq_some_iff.mp h
      obtain ⟨ps, hps⟩ := dumpsItems_of_standard hs hqs
      exact ⟨_, Option.map_eq_some_iff.mpr ⟨ps, hps, rfl⟩⟩
  | .tuple items, q, hs, h => by
      obtain ⟨qs, hqs, -⟩ := Option.map_eq_some_iff.mp h
      obtain ⟨ps, hps⟩ := dumpsItems_of_standard hs hqs
      exact ⟨_, Option.map_eq_some_iff.mpr ⟨ps, hps, rfl⟩⟩
  | .dict entries, q, hs, h => by
      obtain ⟨qs, hqs, -⟩ := Option.map_eq_some_iff.mp h
      obtain ⟨ps, hps⟩ := dumpsEntries_of_standard hs hqs
      exact ⟨_, Option.map_eq_some_iff.mpr ⟨ps, hps, rfl⟩⟩
  | .object _, _, hs, _ => hs.elim

theorem dumpsItems_of_standard : ∀ {vs : List (Payload F)} {qs : List (Json F)}, StandardItems vs →
    dumpsItems repr default (sanitizeItems vs) = some qs → ∃ ps, dumpsItems repr (fun _ => none) vs = some ps
  | [], _, _, _ => ⟨[], rfl⟩
  | v :: vs, qs, hs, h => by
      obtain ⟨q, qs', hv, hvs, -⟩ := dumpsItems_cons.mp h
      obtain ⟨p, hp⟩ := dumps_of_standard hs.1 hv
      obtain ⟨ps, hps⟩ := dumpsItems_of_standard hs.2 hvs
      exact ⟨p :: ps, dumpsItems_cons.mpr ⟨p, ps, hp, hps, rfl⟩⟩

theorem dumpsEntries_of_standard : ∀ {es : List (Key F × Payload F)} {qs : List (String × Json F)},
    StandardEntries es → dumpsEntries repr default (sanitizeEntries es) = some qs →
    ∃ ps, dumpsEntries repr (fun _ => none) es = some ps
  | [], _, _, _ => ⟨[], rfl⟩
  | (k, v) :: es, qs, hs, h => by
      obtain ⟨t, q, qs', hk, hv, hes, -⟩ := dumpsEntries_cons.mp h
      obtain ⟨p, hp⟩ := dumps_of_standard hs.1 hv
      obtain ⟨ps, hps⟩ := dumpsEntries_of_standard hs.2 hes
      exact ⟨(t, p) :: ps, dumpsEntries_cons.mpr ⟨t, p, ps, hk, hp, hps, rfl⟩⟩

end

end Plain

/-! ### When the texts read as the same value -/

section Same

variable {repr : F → String}

theorem map_some_inj {A : Type} {xs ys : List A} (h : xs.map some = ys.map some) : xs = ys :=
  List.map_injective_iff.mpr (Option.some_injective A) h

theorem keys_sanitizeEntries (es : List (Key F × Payload F)) :
    (sanitizeEntries es).map (fun e => e.1.text repr) = es.map fun e => e.1.text repr := by
  induction es with
  | nil => rfl
  | cons e es ih =>
      obtain ⟨k, v⟩ := e
      rw [sanitizeEntries, List.map_cons, List.map_cons, ih]

/-- Both serialisers write the same keys. -/
theorem keys_eq {es : List (Key F × Payload F)} {ps qs : List (String × Json F)}
    (hp : dumpsEntries repr (fun _ => none) es = some ps)
    (hq : dumpsEntries repr default (sanitizeEntries es) = some qs) : ps.map Prod.fst = qs.map Prod.fst := by
  have hps := keys_dumpsEntries hp
  have hqs := (keys_sanitizeEntries es).symm.trans (keys_dumpsEntries hq)
  refine map_some_inj ?_
  rw [List.map_map, List.map_map]
  exact hps.symm.trans hqs

/-- The last values agree when those of the first entry do, unless its key is repeated, and those of the others. -/
theorem lastOf_cons_eq_iff {t : String} {p q : Json F} {ps qs : List (String × Json F)}
    (hkeys : ps.map Prod.fst = qs.map Prod.fst) :
    (∀ k, Dict.lastOf k ((t, p) :: ps) = Dict.lastOf k ((t, q) :: qs)) ↔
      (t ∉ ps.map Prod.fst → p = q) ∧ ∀ k, Dict.lastOf k ps = Dict.lastOf k qs := by
  constructor
  · intro h
    constructor
    · intro hnew
      have hfirst := h t
      rw [Dict.lastOf, Dict.lastOf, Dict.lastOf_eq_none_iff.mpr hnew, Dict.lastOf_eq_none_iff.mpr (hkeys ▸ hnew),
        Option.none_or, Option.none_or, if_pos rfl, if_pos rfl] at hfirst
      exact Option.some.inj hfirst
    · intro k
      have hk := h k
      rw [Dict.lastOf, Dict.lastOf] at hk
      by_cases hmem : k ∈ ps.map Prod.fst
      · -- there are later values under the key
        cases hp : Dict.lastOf k ps with
        | none => exact absurd hmem (Dict.lastOf_eq_none_iff.mp hp)
        | some j =>
            cases hq : Dict.lastOf k qs with
            | none => exact absurd (hkeys ▸ hmem) (Dict.lastOf_eq_none_iff.mp hq)
            | some j' => rwa [hp, hq, Option.some_or, Option.some_or] at hk
      · rw [Dict.lastOf_eq_none_iff.mpr hmem, Dict.lastOf_eq_none_iff.mpr (hkeys ▸ hmem)]
  · intro h k
    obtain ⟨hfirst, hrest⟩ := h
    rw [Dict.lastOf, Dict.lastOf, hrest k]
    by_cases hmem : t ∈ ps.map Prod.fst
    · by_cases hk : t = k
      · subst hk
        cases hq : Dict.lastOf t qs with
        | none => exact absurd (hkeys ▸ hmem) (Dict.lastOf_eq_none_iff.mp hq)
        | some j => rw [Option.some_or, Option.some_or]
      · rw [if_neg hk, if_neg hk]
    · rw [hfirst hmem]

mutual

/-- **The texts read as the same value** exactly when the floats that can be seen are numbers. -/
theorem loads_eq_iff : ∀ {v : Payload F} {p q : Json F}, jsonDumps repr v = some p → safeJsonDumps repr v = some q →
    (loads p = loads q ↔ VisiblyFinite repr v)
  | .none, _, _, hp, hq => by
      cases hp
      cases hq
      exact iff_of_true rfl trivial
  | .bool _, _, _, hp, hq => by
      cases hp
      cases hq
      exact iff_of_true rfl trivial
  | .int _, _, _, hp, hq => by
      cases hp
      cases hq
      exact iff_of_true rfl trivial
  | .str _, _, _, hp, hq => by
      cases hp
      cases hq
      exact iff_of_true rfl trivial
  | .float x, _, _, hp, hq => by
      cases hp
      unfold safeJsonDumps sanitize at hq
      cases x with
      | finite x =>
          cases hq
          exact iff_of_true rfl rfl
      | nan =>
          cases hq
          exact iff_of_false (fun h => by cases h) Bool.false_ne_true
      | inf negative =>
          cases hq
          exact iff_of_false (fun h => by cases h) Bool.false_ne_true
  | .list items, _, _, hp, hq => by
      obtain ⟨ps, hps, rfl⟩ := Option.map_eq_some_iff.mp hp
      obtain ⟨qs, hqs, rfl⟩ := Option.map_eq_some_iff.mp hq
      rw [loads, loads, Json.array.injEq, VisiblyFinite]
      exact loadsItems_eq_iff hps hqs
  | .tuple items, _, _, hp, hq => by
      obtain ⟨ps, hps, rfl⟩ := Option.map_eq_some_iff.mp hp
      obtain ⟨qs, hqs, rfl⟩ := Option.map_eq_some_iff.mp hq
      rw [loads, loads, Json.array.injEq, VisiblyFinite]
      exact loadsItems_eq_iff hps hqs
  | .dict entries, _, _, hp, hq => by
      obtain ⟨ps, hps, rfl⟩ := Option.map_eq_some_iff.mp hp
      obtain ⟨qs, hqs, rfl⟩ := Option.map_eq_some_iff.mp hq
      rw [loads_object_eq_iff (keys_eq hps hqs), VisiblyFinite]
      exact lastOf_eq_iff hps hqs
  | .object _, _, _, hp, _ => by cases hp

theorem loadsItems_eq_iff : ∀ {vs : List (Payload F)} {ps qs : List (Json F)},
    dumpsItems repr (fun _ => none) vs = some ps → dumpsItems repr default (sanitizeItems vs) = some qs →
    (loadsItems ps = loadsItems qs ↔ VisiblyFiniteItems repr vs)
  | [], _, _, hp, hq => by
      cases hp
      cases hq
      exact iff_of_true rfl trivial
  | v :: vs, _, _, hp, hq => by
      obtain ⟨p, ps, hv, hvs, rfl⟩ := dumpsItems_cons.mp hp
      obtain ⟨q, qs, hv', hvs', rfl⟩ := dumpsItems_cons.mp hq
      rw [loadsItems, loadsItems, List.cons.injEq, VisiblyFiniteItems]
      exact and_congr (loads_eq_iff hv hv') (loadsItems_eq_iff hvs hvs')

theorem lastOf_eq_iff : ∀ {es : List (Key F × Payload F)} {ps qs : List (String × Json F)},
    dumpsEntries repr (fun _ => none) es = some ps → dumpsEntries repr default (sanitizeEntries es) = some qs →
    ((∀ k, Dict.lastOf k (loadsEntries ps) = Dict.lastOf k (loadsEntries qs)) ↔ VisiblyFiniteEntries repr es)
  | [], _, _, hp, hq => by
      cases hp
      cases hq
      exact iff_of_true (fun _ => rfl) trivial
  | (k, v) :: es, _, _, hp, hq => by
      obtain ⟨t, p, ps, hk, hv, hes, rfl⟩ := dumpsEntries_cons.mp hp
      obtain ⟨t', q, qs, hk', hv', hes', rfl⟩ := dumpsEntries_cons.mp hq
      obtain rfl : t = t' := Option.some.inj (hk.symm.trans hk')
      have hkeys := keys_eq hes hes'
      have hnew : t ∉ (loadsEntries ps).map Prod.fst ↔ k.text repr ∉ es.map fun e => e.1.text repr := by
        rw [keys_loadsEntries, hk, keys_dumpsEntries hes]
        simp
      rw [loadsEntries, loadsEntries, lastOf_cons_eq_iff (by rw [keys_loadsEntries, keys_loadsEntries, hkeys]),
        VisiblyFiniteEntries, hnew, loads_eq_iff hv hv', lastOf_eq_iff hes hes']

end

end Same

/-! ### The event type -/

section EventType

variable {repr : F → String}

/-- A text that is replaced by another one changes neither. -/
theorem setStr_spec {k s s' : String} : ∀ {es : List (Key F × Payload F)}, getStr k es = some (.str s) →
    (setStr k (.str s') es).map (fun e => e.1.text repr) = es.map (fun e => e.1.text repr) ∧
    (StandardEntries (setStr k (.str s') es) ↔ StandardEntries es) ∧
    (VisiblyFiniteEntries repr (setStr k (.str s') es) ↔ VisiblyFiniteEntries repr es) := by
  intro es
  induction es with
  | nil => exact fun h => by cases h
  | cons e es ih =>
      intro h
      obtain ⟨key, v⟩ := e
      by_cases hkey : key = .str k
      · subst hkey
        rw [getStr, if_pos rfl] at h
        cases h
        rw [setStr, if_pos rfl]
        exact ⟨rfl, Iff.rfl, Iff.rfl⟩
      · have hget : getStr k es = some (.str s) := by
          cases key with
          | str t =>
              rw [getStr, if_neg fun heq => hkey (by rw [heq])] at h
              exact h
          | none => exact h
          | bool b => exact h
          | int n => exact h
          | float x => exact h
          | other => exact h
        have hset : setStr k (.str s') ((key, v) :: es) = (key, v) :: setStr k (.str s') es := by
          cases key with
          | str t => rw [setStr, if_neg fun heq => hkey (by rw [heq])]
          | none => rfl
          | bool b => rfl
          | int n => rfl
          | float x => rfl
          | other => rfl
        obtain ⟨hkeys, hstandard, hfinite⟩ := ih hget
        rw [hset]
        refine ⟨by rw [List.map_cons, List.map_cons, hkeys], ?_, ?_⟩
        · rw [StandardEntries, StandardEntries, hstandard]
        · rw [VisiblyFiniteEntries, VisiblyFiniteEntries, hkeys, hfinite]

/-- Normalising the event type changes neither. -/
theorem normalized_spec {message message' : List (Key F × Payload F)} (h : normalized message = some message') :
    (StandardEntries message' ↔ StandardEntries message) ∧
    (VisiblyFiniteEntries repr message' ↔ VisiblyFiniteEntries repr message) := by
  unfold normalized at h
  split at h
  · next originalType htype =>
    dsimp only at h
    split at h
    · cases h
      exact ⟨Iff.rfl, Iff.rfl⟩
    · cases h
      exact (setStr_spec htype).2
  · split at h
    · cases h
      exact ⟨Iff.rfl, Iff.rfl⟩
    · cases h
  · cases h
    exact ⟨Iff.rfl, Iff.rfl⟩

end EventType

/-- **A buffered message is replayed as it would have been sent live** exactly when no object in it needs the encoder of
`safe_json_dumps` and its floats are numbers, those under a repeated key apart. -/
theorem replay_eq_live_iff (repr : F → String) (r : MessageBuffer.Lists (Json F)) (userId threadKey : String)
    {message : List (Key F × Payload F)} {live : Json F} (hlive : liveText repr message = some live) :
    Replayed repr r userId threadKey message live ↔
      StandardEntries message ∧ VisiblyFiniteEntries repr message := by
  obtain ⟨message', hnormalized, hlive⟩ := Option.bind_eq_some_iff.mp hlive
  obtain ⟨hstandard, hfinite⟩ : (StandardEntries message' ↔ StandardEntries message) ∧
      (VisiblyFiniteEntries repr message' ↔ VisiblyFiniteEntries repr message) := normalized_spec hnormalized
  rw [← hstandard, ← hfinite]
  have hbuffer : buffer repr r userId threadKey message =
      (storePendingMessage repr r userId threadKey (.dict message')).1 := by
    rw [buffer, hnormalized]
  unfold Replayed
  rw [hbuffer]
  unfold storePendingMessage getPendingMessages
  cases hstored : jsonDumps repr (.dict message') with
  | none =>
      -- nothing is buffered
      refine iff_of_false (fun h => ?_) fun h => ?_
      · have hlength := congrArg List.length (h false)
        simp at hlength
      · obtain ⟨p, hp⟩ := dumps_of_standard (v := .dict message') h.1 hlive
        rw [hstored] at hp
        cases hp
  | some stored =>
      have hread : (∀ deleteAfter : Bool,
          (lrange (rpush r (generateKey userId threadKey) stored) (generateKey userId threadKey)).map loads =
            (lrange r (generateKey userId threadKey)).map loads ++ [loads live]) ↔ loads stored = loads live := by
        rw [lrange_rpush, List.map_append, List.map_singleton]
        simp
      refine hread.trans ((loads_eq_iff hstored hlive).trans ?_)
      exact (and_iff_right (standard_of_dumps (v := .dict message') hstored)).symm

/-- A message with one value. -/
def message (v : Payload Empty) : List (Key Empty × Payload Empty) := [(.str "type", .str "chat.table"), (.str "v", v)]

theorem replay_eq_live_text :
    Replayed Empty.elim ∅ "u" "t" (message (.str "a")) (.object [("type", .str "chat.table"), ("v", .str "a")]) := by
  have hstandard : StandardEntries (message (.str "a")) := ⟨trivial, trivial, trivial⟩
  have hfinite : VisiblyFiniteEntries Empty.elim (message (.str "a")) := ⟨fun _ => trivial, fun _ => trivial, trivial⟩
  exact (replay_eq_live_iff Empty.elim ∅ "u" "t" rfl).mpr ⟨hstandard, hfinite⟩

/-- **A float that is not a number is replayed as such**, where `null` is sent live; and a message with a date is not
replayed. -/
theorem not_replayed :
    (liveText Empty.elim (message (.float .nan)) = some (.object [("type", .str "chat.table"), ("v", .null)]) ∧
      (getPendingMessages (buffer Empty.elim ∅ "u" "t" (message (.float .nan))) "u" "t" true).2 =
        [.object [("type", .str "chat.table"), ("v", .float .nan)]]) ∧
    (liveText Empty.elim (message (.object (.dated "2026-02-04"))) =
        some (.object [("type", .str "chat.table"), ("v", .str "2026-02-04")]) ∧
      (getPendingMessages (buffer Empty.elim ∅ "u" "t" (message (.object (.dated "2026-02-04")))) "u" "t" true).2 = []) ∧
    ¬∀ message live, liveText Empty.elim message = some live → Replayed Empty.elim ∅ "u" "t" message live := by
  refine ⟨⟨rfl, rfl⟩, ⟨rfl, rfl⟩, fun h => ?_⟩
  have hreplayed := h (message (.object (.dated "2026-02-04"))) _ rfl true
  have hlength := congrArg List.length hreplayed
  cases hlength

end Pinnokio.Sockets.Replay
