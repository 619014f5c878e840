import Mathlib.Algebra.Order.Group.Multiset
import Mathlib.Tactic.Abel
import Pinnokio.Lib.Dict
import Pinnokio.Lib.Interleaving

/-!
# The buffer of WebSocket messages

Messages for a thread without a connection are kept in a Redis list.  `store_pending_message` appends one, and
`get_pending_messages` reads the list and then deletes it.  Any number of calls run side by side, one Redis command at
a time, and any command may raise.

* `step_cases` — everything a command can do;
* `in_order_iff` — the messages are returned once each, in the order they were stored, in every run in which no message
  is stored, and no other call reads messages to delete, while a call is between its read and its deletion; and in a
  run that is over, of different messages, only then.
-/

namespace Pinnokio.Sockets.MessageBuffer

open Pinnokio.Interleaving

variable {M : Type}

/-- The lists of Redis. -/
abbrev Lists (M : Type) := Dict String (List M)

/-- `_generate_key`. -/
def generateKey (userId threadKey : String) : String := "pending_ws_messages:" ++ userId ++ ":" ++ threadKey

/-- `LRANGE key 0 -1`; a missing key is an empty list. -/
def lrange (r : Lists M) (key : String) : List M := (r.get? key).getD []

/-- `RPUSH`. -/
def rpush (r : Lists M) (key : String) (message : M) : Lists M := r.set key (lrange r key ++ [message])

/-- The commands of a store that raise. -/
structure StoreFaults where
  pushRaises : Bool := false
  expireRaises : Bool := false
  deriving DecidableEq

/-- The commands of a read that raise. -/
structure GetFaults where
  rangeRaises : Bool := false
  deleteRaises : Bool := false
  deriving DecidableEq

/-- The lists, and what has happened so far: the messages in the order they were appended, and what the calls of
`get_pending_messages` have returned. -/
structure World (M : Type) where
  redis : Lists M
  stored : List M
  returned : List (List M)

/-- Local state of a call. -/
inductive Pc (M : Type) where
  | store (message : M) (faults : StoreFaults)
  | expire (faults : StoreFaults)
  | stored (success : Bool)
  | get (faults : GetFaults)
  | delete (messages : List M) (faults : GetFaults)
  | got (messages : List M)
  deriving DecidableEq

section Calls

variable (userId threadKey : String)

/-- The call returns its messages. -/
def answer (w : World M) (messages : List M) : World M × Pc M :=
  ({ w with returned := w.returned ++ [messages] }, .got messages)

/-- The next Redis command of `store_pending_message` or `get_pending_messages(delete_after=True)`. -/
def next (w : World M) : Pc M → Option (World M × Pc M)
  | .store message faults =>
      if faults.pushRaises then some (w, .stored false)
      else some ({ w with
        redis := rpush w.redis (generateKey userId threadKey) message, stored := w.stored ++ [message] },
        .expire faults)
  | .expire faults => some (w, .stored (!faults.expireRaises))
  | .stored _ => none
  | .get faults =>
      let messages := lrange w.redis (generateKey userId threadKey)
      if faults.rangeRaises ∨ messages = [] then some (answer w [])
      else some (w, .delete messages faults)
  | .delete messages faults =>
      if faults.deleteRaises then some (answer w [])
      else some (answer { w with redis := w.redis.erase (generateKey userId threadKey) } messages)
  | .got _ => none

/-- Every message that was stored is still in the list or was returned, by one call, and in the order of the list. -/
def InOrder (w : World M) : Prop :=
  w.stored = w.returned.flatten ++ lrange w.redis (generateKey userId threadKey)

/-- The call is between its read and its deletion. -/
def Pc.deletes : Pc M → Bool
  | .delete _ faults => !faults.deleteRaises
  | _ => false

/-- A step that appends a message, or reads messages to delete them, is taken while no call is between its read and
its deletion. -/
def undisturbed (p : Pool (World M) (Pc M)) (i : ℕ) : Prop :=
  match p.threads[i]? with
  | some (.store _ faults) => faults.pushRaises = true ∨ ∀ l ∈ p.threads, l.deletes = false
  | some (.get faults) =>
      faults.rangeRaises = true ∨ faults.deleteRaises = true ∨
        lrange p.shared.redis (generateKey userId threadKey) = [] ∨ ∀ l ∈ p.threads, l.deletes = false
  | _ => True

end Calls

section Steps

variable {userId threadKey : String} {p q : Pool (World M) (Pc M)} {i : ℕ}

@[simp] theorem lrange_rpush (r : Lists M) (key : String) (m : M) : lrange (rpush r key m) key = lrange r key ++ [m] := by
  rw [lrange, rpush, Dict.get?_set_self]
  rfl

@[simp] theorem lrange_erase (r : Lists M) (key : String) : lrange (r.erase key) key = [] := by
  rw [lrange, Dict.get?_erase_self]
  rfl

/-- **Everything a command can do**: nothing that counts, an append, a read of messages, or a deletion. -/
theorem step_cases (h : p.stepAt (next userId threadKey) i = some q) :
    (∃ l l' w, p.threads[i]? = some l ∧ q = ⟨w, p.threads.set i l'⟩ ∧ w.redis = p.shared.redis ∧
      w.stored = p.shared.stored ∧ w.returned.flatten = p.shared.returned.flatten ∧ l.deletes = false ∧
      l'.deletes = false ∧ (∀ m f, l = .store m f → f.pushRaises = true) ∧ ∀ m f, l' ≠ .store m f) ∨
    (∃ m f, p.threads[i]? = some (.store m f) ∧ f.pushRaises = false ∧
      q = ⟨⟨rpush p.shared.redis (generateKey userId threadKey) m, p.shared.stored ++ [m], p.shared.returned⟩,
        p.threads.set i (.expire f)⟩) ∨
    (∃ f, p.threads[i]? = some (.get f) ∧ f.rangeRaises = false ∧
      lrange p.shared.redis (generateKey userId threadKey) ≠ [] ∧
      q = ⟨p.shared, p.threads.set i (.delete (lrange p.shared.redis (generateKey userId threadKey)) f)⟩) ∨
    (∃ msgs f, p.threads[i]? = some (.delete msgs f) ∧ f.deleteRaises = false ∧
      q = ⟨⟨p.shared.redis.erase (generateKey userId threadKey), p.shared.stored, p.shared.returned ++ [msgs]⟩,
        p.threads.set i (.got msgs)⟩) := by
  obtain ⟨l, w, l', hl, hn, rfl⟩ := stepAt_eq_some h
  cases l with
  | store m f =>
      simp only [next] at hn
      split at hn
      · next hraises =>
        cases hn
        refine Or.inl ⟨_, _, _, hl, rfl, rfl, rfl, rfl, rfl, rfl, fun m' f' heq => ?_, nofun⟩
        cases heq
        exact hraises
      · next hraises =>
        cases hn
        exact Or.inr (Or.inl ⟨m, f, hl, Bool.eq_false_iff.mpr hraises, rfl⟩)
  | expire f =>
      cases hn
      exact Or.inl ⟨_, _, _, hl, rfl, rfl, rfl, rfl, rfl, rfl, nofun, nofun⟩
  | stored ok => cases hn
  | get f =>
      simp only [next, answer] at hn
      split at hn
      · cases hn
        exact Or.inl ⟨_, _, _, hl, rfl, rfl, rfl, by simp, rfl, rfl, nofun, nofun⟩
      · next hread =>
        cases hn
        rw [not_or] at hread
        exact Or.inr (Or.inr (Or.inl ⟨f, hl, Bool.eq_false_iff.mpr hread.1, hread.2, rfl⟩))
  | delete msgs f =>
      simp only [next, answer] at hn
      split at hn
      · next hraises =>
        cases hn
        exact Or.inl ⟨_, _, _, hl, rfl, rfl, rfl, by simp, by simp [Pc.deletes, hraises], rfl, nofun, nofun⟩
      · next hraises =>
        cases hn
        exact Or.inr (Or.inr (Or.inr ⟨msgs, f, hl, Bool.eq_false_iff.mpr hraises, rfl⟩))
  | got msgs => cases hn

/-- As long as the calls are undisturbed: one call at most is about to delete, and what it has read is the list. -/
structure Sound (userId threadKey : String) (p : Pool (World M) (Pc M)) : Prop where
  inOrder : InOrder userId threadKey p.shared
  single : p.threads.countP Pc.deletes ≤ 1
  reads : ∀ msgs f, Pc.delete msgs f ∈ p.threads → f.deleteRaises = false →
    msgs = lrange p.shared.redis (generateKey userId threadKey) ∧ msgs ≠ []

theorem Pc.deletes_delete {msgs : List M} {f : GetFaults} (h : f.deleteRaises = false) :
    (Pc.delete msgs f).deletes = true := by
  rw [Pc.deletes, h]
  rfl

/-- Without a call about to delete there is nothing to say about what was read. -/
theorem reads_of_none {ts : List (Pc M)} {msgs : List M} {f : GetFaults} (hnone : ∀ l ∈ ts, l.deletes = false)
    (hmem : Pc.delete msgs f ∈ ts) (hf : f.deleteRaises = false) : False := by
  have hdel := hnone _ hmem
  rw [Pc.deletes_delete hf] at hdel
  cases hdel

theorem deletes_eq_false_of_countP {ts : List (Pc M)} (h : ts.countP Pc.deletes = 0) :
    ∀ l ∈ ts, l.deletes = false :=
  fun l hl => Bool.eq_false_iff.mpr (List.countP_eq_zero.mp h l hl)

/-- The invariant of undisturbed steps. -/
theorem sound_step (hp : Sound userId threadKey p) (hg : undisturbed userId threadKey p i)
    (h : p.stepAt (next userId threadKey) i = some q) : Sound userId threadKey q := by
  unfold undisturbed at hg
  rcases step_cases h with ⟨l, l', w, hl, rfl, hredis, hstored, hreturned, hdel, hdel', -, -⟩ | ⟨m, f, hl, hf, rfl⟩ |
    ⟨f, hl, hf, hne, rfl⟩ | ⟨msgs, f, hl, hf, rfl⟩
  · have hcount : (p.threads.set i l').countP Pc.deletes + l.deletes.toNat =
        p.threads.countP Pc.deletes + l'.deletes.toNat := countP_set_add Pc.deletes l' hl
    rw [hdel, hdel'] at hcount
    refine ⟨?_, hcount.trans_le hp.single, fun msgs f hmem hf => ?_⟩
    · show w.stored = _
      rw [hstored, hreturned, hredis]
      exact hp.inOrder
    · rw [hredis]
      rcases mem_set_cases hmem with rfl | ⟨j, -, hj⟩
      · rw [Pc.deletes_delete hf] at hdel'
        cases hdel'
      · exact hp.reads msgs f (List.mem_of_getElem? hj) hf
  · rw [hl] at hg
    have hnone : ∀ l ∈ p.threads, l.deletes = false := hg.resolve_left (by rw [hf]; exact Bool.false_ne_true)
    have hnone' : ∀ l ∈ p.threads.set i (.expire f), l.deletes = false := by
      intro l hmem
      rcases mem_set_cases hmem with rfl | ⟨j, -, hj⟩
      · rfl
      · exact hnone l (List.mem_of_getElem? hj)
    refine ⟨?_, ?_, fun msgs f' hmem hf' => (reads_of_none hnone' hmem hf').elim⟩
    · show p.shared.stored ++ [m] = p.shared.returned.flatten ++ lrange (rpush _ _ m) _
      rw [lrange_rpush, ← List.append_assoc, hp.inOrder]
    · exact (List.countP_eq_zero.mpr fun l hmem => Bool.eq_false_iff.mp (hnone' l hmem)).trans_le (Nat.zero_le _)
  · rw [hl] at hg
    have hcount : (p.threads.set i (.delete (lrange p.shared.redis (generateKey userId threadKey)) f)).countP
        Pc.deletes + 0 = p.threads.countP Pc.deletes + (!f.deleteRaises).toNat := countP_set_add Pc.deletes _ hl
    have hsingle : p.threads.countP Pc.deletes + (!f.deleteRaises).toNat ≤ 1 := by
      cases hdel : f.deleteRaises with
      | true => exact hp.single
      | false =>
          simp only [hf, hdel, hne, Bool.false_eq_true, false_or] at hg
          rw [List.countP_eq_zero.mpr fun l hmem => Bool.eq_false_iff.mp (hg l hmem)]
          exact le_refl 1
    refine ⟨hp.inOrder, hcount.trans_le hsingle, fun msgs f' hmem hf' => ?_⟩
    rcases mem_set_cases hmem with heq | ⟨j, -, hj⟩
    · cases heq
      exact ⟨rfl, hne⟩
    · exact hp.reads msgs f' (List.mem_of_getElem? hj) hf'
  · have hcount : (p.threads.set i (.got msgs)).countP Pc.deletes + (!f.deleteRaises).toNat =
        p.threads.countP Pc.deletes + 0 := countP_set_add Pc.deletes _ hl
    have hzero : (p.threads.set i (.got msgs)).countP Pc.deletes = 0 := by
      have hsingle := hp.single
      rw [hf] at hcount
      simp only [Bool.not_false, Bool.toNat_true] at hcount
      omega
    obtain ⟨hmsgs, -⟩ := hp.reads msgs f (List.mem_of_getElem? hl) hf
    refine ⟨?_, hzero.trans_le (Nat.zero_le _), fun msgs' f' hmem hf' =>
      (reads_of_none (deletes_eq_false_of_countP hzero) hmem hf').elim⟩
    show p.shared.stored = (p.shared.returned ++ [msgs]).flatten ++ lrange (p.shared.redis.erase _) _
    rw [lrange_erase, List.append_nil, List.flatten_append, List.flatten_singleton, hmsgs]
    exact hp.inOrder

/-! ### What a disturbed step leads to -/

/-- The messages a call will return. -/
def Pc.held : Pc M → Multiset M
  | .delete msgs faults => if faults.deleteRaises then 0 else msgs
  | _ => 0

/-- The message a call will append. -/
def Pc.toStore : Pc M → Multiset M
  | .store m faults => if faults.pushRaises then 0 else {m}
  | _ => 0

/-- The messages that were returned or will be. -/
def leaving (p : Pool (World M) (Pc M)) : Multiset M := p.shared.returned.flatten + (p.threads.map Pc.held).sum

/-- The messages that were appended or will be. -/
def incoming (p : Pool (World M) (Pc M)) : Multiset M := p.shared.stored + (p.threads.map Pc.toStore).sum

/-- All messages are different, and those of the list were appended. -/
structure Fresh (userId threadKey : String) (p : Pool (World M) (Pc M)) : Prop where
  nodup : (incoming p).Nodup
  listed : ∀ m ∈ lrange p.shared.redis (generateKey userId threadKey), m ∈ p.shared.stored

theorem mem_sum_map {L : Type} (f : L → Multiset M) (ts : List L) (m : M) :
    m ∈ (ts.map f).sum ↔ ∃ l ∈ ts, m ∈ f l := by
  induction ts with
  | nil => simp
  | cons l ts ih => simp [ih]

theorem incoming_eq {w : World M} {l l' : Pc M} (hl : p.threads[i]? = some l)
    (h : (w.stored : Multiset M) + l'.toStore = p.shared.stored + l.toStore) :
    incoming ⟨w, p.threads.set i l'⟩ = incoming p := by
  have hsum := sum_map_set Pc.toStore l' hl
  refine add_right_cancel (b := l.toStore + l'.toStore) ?_
  calc incoming ⟨w, p.threads.set i l'⟩ + (l.toStore + l'.toStore)
      = (w.stored + l'.toStore) + (((p.threads.set i l').map Pc.toStore).sum + l.toStore) := by
        simp only [incoming]
        abel
    _ = (p.shared.stored + l.toStore) + ((p.threads.map Pc.toStore).sum + l'.toStore) := by rw [h, hsum]
    _ = incoming p + (l.toStore + l'.toStore) := by
        simp only [incoming]
        abel

theorem leaving_eq {w : World M} {l l' : Pc M} {x : Multiset M} (hl : p.threads[i]? = some l)
    (h : (w.returned.flatten : Multiset M) + l'.held = p.shared.returned.flatten + l.held + x) :
    leaving ⟨w, p.threads.set i l'⟩ = leaving p + x := by
  have hsum := sum_map_set Pc.held l' hl
  refine add_right_cancel (b := l.held + l'.held) ?_
  calc leaving ⟨w, p.threads.set i l'⟩ + (l.held + l'.held)
      = (w.returned.flatten + l'.held) + (((p.threads.set i l').map Pc.held).sum + l.held) := by
        simp only [leaving]
        abel
    _ = (p.shared.returned.flatten + l.held + x) + ((p.threads.map Pc.held).sum + l'.held) := by rw [h, hsum]
    _ = leaving p + x + (l.held + l'.held) := by
        simp only [leaving]
        abel

theorem leaving_same {w : World M} {l l' : Pc M} (hl : p.threads[i]? = some l)
    (h : (w.returned.flatten : Multiset M) + l'.held = p.shared.returned.flatten + l.held) :
    leaving ⟨w, p.threads.set i l'⟩ = leaving p := by
  rw [leaving_eq hl (h.trans (add_zero _).symm), add_zero]

theorem Pc.held_delete {msgs : List M} {f : GetFaults} (h : f.deleteRaises = false) :
    (Pc.delete msgs f).held = msgs := by
  rw [Pc.held, h]
  rfl

theorem Pc.held_of_not_deletes {l : Pc M} (h : l.deletes = false) : l.held = 0 := by
  cases l with
  | delete msgs f =>
      rw [Pc.deletes, Bool.not_eq_false'] at h
      rw [Pc.held, if_pos h]
  | _ => rfl

/-- The messages, after a step. -/
theorem messages_step (hp : Fresh userId threadKey p) (h : p.stepAt (next userId threadKey) i = some q) :
    incoming q = incoming p ∧
      ((leaving q = leaving p ∧ q.shared.stored = p.shared.stored ∧
          (lrange q.shared.redis (generateKey userId threadKey) = lrange p.shared.redis (generateKey userId threadKey) ∨
            lrange q.shared.redis (generateKey userId threadKey) = [])) ∨
        (∃ m, m ∉ p.shared.stored ∧ leaving q = leaving p ∧ q.shared.stored = p.shared.stored ++ [m] ∧
          lrange q.shared.redis (generateKey userId threadKey) =
            lrange p.shared.redis (generateKey userId threadKey) ++ [m]) ∨
        (leaving q = leaving p + lrange p.shared.redis (generateKey userId threadKey) ∧
          q.shared.stored = p.shared.stored ∧
          lrange q.shared.redis (generateKey userId threadKey) =
            lrange p.shared.redis (generateKey userId threadKey))) := by
  rcases step_cases h with ⟨l, l', w, hl, rfl, hredis, hstored, hreturned, hdel, hdel', hpush, hpush'⟩ |
    ⟨m, f, hl, hf, rfl⟩ | ⟨f, hl, hf, hne, rfl⟩ | ⟨msgs, f, hl, hf, rfl⟩
  · have htoStore : l.toStore = l'.toStore := by
      have hl' : l'.toStore = 0 := by
        cases l' with
        | store m f => exact absurd rfl (hpush' m f)
        | _ => rfl
      cases l with
      | store m f => rw [hl', Pc.toStore, if_pos (hpush m f rfl)]
      | _ => exact hl'.symm
    refine ⟨incoming_eq hl (by rw [hstored, htoStore]), Or.inl ⟨?_, hstored, Or.inl (by rw [hredis])⟩⟩
    exact leaving_same hl (by rw [hreturned, Pc.held_of_not_deletes hdel, Pc.held_of_not_deletes hdel'])
  · have hone : (Pc.store m f).toStore = {m} := by simp [Pc.toStore, hf]
    refine ⟨incoming_eq hl ?_, Or.inr (Or.inl ⟨m, fun hmem => ?_, ?_, rfl, lrange_rpush _ _ _⟩)⟩
    · rw [hone, ← Multiset.coe_add, add_assoc]
      rfl
    · have hnodup := hp.nodup
      rw [incoming, Multiset.nodup_add, Multiset.disjoint_left] at hnodup
      refine hnodup.2.2 (Multiset.mem_coe.mpr hmem) ((mem_sum_map _ _ _).mpr ⟨_, List.mem_of_getElem? hl, ?_⟩)
      rw [hone]
      exact Multiset.mem_singleton_self m
    · exact leaving_same hl rfl
  · refine ⟨incoming_eq hl rfl, ?_⟩
    cases hraises : f.deleteRaises with
    | true =>
        refine Or.inl ⟨?_, rfl, Or.inl rfl⟩
        exact leaving_same hl (by rw [Pc.held, if_pos hraises]; rfl)
    | false =>
        refine Or.inr (Or.inr ⟨leaving_eq hl ?_, rfl, rfl⟩)
        rw [Pc.held_delete hraises]
        exact congrArg (· + _) (add_zero _).symm
  · refine ⟨incoming_eq hl rfl, Or.inl ⟨?_, rfl, Or.inr (lrange_erase _ _)⟩⟩
    refine leaving_same hl ?_
    rw [List.flatten_append, List.flatten_singleton, ← Multiset.coe_add, Pc.held_delete hf]
    exact add_zero _

theorem fresh_step (hp : Fresh userId threadKey p) (h : p.stepAt (next userId threadKey) i = some q) :
    Fresh userId threadKey q := by
  obtain ⟨hin, hcases⟩ := messages_step hp h
  refine ⟨hin ▸ hp.nodup, fun m hm => ?_⟩
  rcases hcases with ⟨-, hstored, hlist | hlist⟩ | ⟨m', -, -, hstored, hlist⟩ | ⟨-, hstored, hlist⟩
  · rw [hlist] at hm
    exact hstored ▸ hp.listed m hm
  · rw [hlist] at hm
    cases hm
  · rw [hlist, List.mem_append] at hm
    rw [hstored, List.mem_append]
    exact hm.imp_left (hp.listed m)
  · rw [hlist] at hm
    exact hstored ▸ hp.listed m hm

/-- A message is lost, is returned twice, or will be: some but not all messages of the list are leaving. -/
def Astray (userId threadKey : String) (p : Pool (World M) (Pc M)) : Prop :=
  let list := lrange p.shared.redis (generateKey userId threadKey)
  (∃ m ∈ p.shared.stored, m ∉ list ∧ m ∉ leaving p) ∨ ¬(leaving p).Nodup ∨
    ((∃ m ∈ list, m ∈ leaving p) ∧ ∃ m ∈ list, m ∉ leaving p)

/-- Nothing sets it right again. -/
theorem astray_step (hp : Fresh userId threadKey p) (hbad : Astray userId threadKey p)
    (h : p.stepAt (next userId threadKey) i = some q) : Astray userId threadKey q := by
  obtain ⟨-, hcases⟩ := messages_step hp h
  unfold Astray at hbad ⊢
  dsimp only at hbad ⊢
  rcases hcases with ⟨hleave, hstored, hlist | hlist⟩ | ⟨m', hnew, hleave, hstored, hlist⟩ | ⟨hleave, hstored, hlist⟩
  · rwa [hleave, hstored, hlist]
  · rw [hleave, hstored, hlist]
    rcases hbad with ⟨m, hm, -, hout⟩ | htwice | ⟨-, m, hm, hout⟩
    · exact Or.inl ⟨m, hm, List.not_mem_nil, hout⟩
    · exact Or.inr (Or.inl htwice)
    · exact Or.inl ⟨m, hp.listed m hm, List.not_mem_nil, hout⟩
  · rw [hleave, hstored, hlist]
    rcases hbad with ⟨m, hm, hnot, hout⟩ | htwice | ⟨⟨m, hm, hin⟩, m₂, hm₂, hout⟩
    · refine Or.inl ⟨m, List.mem_append_left _ hm, fun hmem => ?_, hout⟩
      rcases List.mem_append.mp hmem with hmem | hmem
      · exact hnot hmem
      · exact hnew (List.mem_singleton.mp hmem ▸ hm)
    · exact Or.inr (Or.inl htwice)
    · exact Or.inr (Or.inr ⟨⟨m, List.mem_append_left _ hm, hin⟩, m₂, List.mem_append_left _ hm₂, hout⟩)
  · rw [hleave, hstored, hlist]
    rcases hbad with ⟨m, hm, hnot, hout⟩ | htwice | ⟨⟨m, hm, hin⟩, -⟩
    · refine Or.inl ⟨m, hm, hnot, fun hmem => ?_⟩
      rcases Multiset.mem_add.mp hmem with hmem | hmem
      · exact hout hmem
      · exact hnot (Multiset.mem_coe.mp hmem)
    · exact Or.inr (Or.inl fun hnodup => htwice (Multiset.nodup_add.mp hnodup).1)
    · refine Or.inr (Or.inl fun hnodup => ?_)
      exact Multiset.disjoint_left.mp (Multiset.nodup_add.mp hnodup).2.2 hin (Multiset.mem_coe.mpr hm)

theorem mem_stored_of_leaving (hp : Sound userId threadKey p) {m : M} (hm : m ∈ leaving p) : m ∈ p.shared.stored := by
  rw [show p.shared.stored = _ from hp.inOrder, List.mem_append]
  rcases Multiset.mem_add.mp hm with hm | hm
  · exact Or.inl (Multiset.mem_coe.mp hm)
  · obtain ⟨l, hl, hm⟩ := (mem_sum_map _ _ _).mp hm
    cases l with
    | delete msgs f =>
        cases hf : f.deleteRaises with
        | true =>
            rw [Pc.held, if_pos hf] at hm
            cases Multiset.notMem_zero _ hm
        | false =>
            rw [Pc.held_delete hf, Multiset.mem_coe, (hp.reads msgs f hl hf).1] at hm
            exact Or.inr hm
    | _ => cases Multiset.notMem_zero _ hm

/-- A call that is about to delete has the messages of the list. -/
theorem exists_leaving (hp : Sound userId threadKey p) (hdel : ∃ l ∈ p.threads, l.deletes = true) :
    ∃ m ∈ lrange p.shared.redis (generateKey userId threadKey), m ∈ leaving p := by
  obtain ⟨l, hl, hdel⟩ := hdel
  cases l with
  | delete msgs f =>
      have hf : f.deleteRaises = false := by simpa [Pc.deletes] using hdel
      obtain ⟨hmsgs, hne⟩ := hp.reads msgs f hl hf
      obtain ⟨m, hm⟩ := List.exists_mem_of_ne_nil _ hne
      refine ⟨m, hmsgs ▸ hm, Multiset.mem_add.mpr (Or.inr ((mem_sum_map _ _ _).mpr ⟨_, hl, ?_⟩))⟩
      rw [Pc.held_delete hf]
      exact Multiset.mem_coe.mpr hm
  | _ => cases hdel

/-- A disturbed step leads astray. -/
theorem astray_of_disturbed (hp : Sound userId threadKey p) (hfresh : Fresh userId threadKey p)
    (hg : ¬undisturbed userId threadKey p i) (h : p.stepAt (next userId threadKey) i = some q) :
    Astray userId threadKey q := by
  have hsome : (¬∀ l ∈ p.threads, l.deletes = false) → ∃ l ∈ p.threads, l.deletes = true := by
    intro hnot
    by_contra hnone
    exact hnot fun l hl => Bool.eq_false_iff.mpr fun hdel => hnone ⟨l, hl, hdel⟩
  obtain ⟨l, w, l', hl, hn, rfl⟩ := stepAt_eq_some h
  unfold undisturbed at hg
  rw [hl] at hg
  cases l with
  | store m f =>
      rw [not_or, Bool.not_eq_true] at hg
      obtain ⟨x, hx, hleaves⟩ := exists_leaving hp (hsome hg.2)
      simp only [next, hg.1] at hn
      cases hn
      have hnew : m ∉ p.shared.stored := by
        intro hmem
        have hnodup := hfresh.nodup
        rw [incoming, Multiset.nodup_add, Multiset.disjoint_left] at hnodup
        refine hnodup.2.2 (Multiset.mem_coe.mpr hmem) ((mem_sum_map _ _ _).mpr ⟨_, List.mem_of_getElem? hl, ?_⟩)
        rw [Pc.toStore, hg.1]
        exact Multiset.mem_singleton_self m
      have hleave : leaving ⟨⟨rpush p.shared.redis (generateKey userId threadKey) m, p.shared.stored ++ [m],
          p.shared.returned⟩, p.threads.set i (.expire f)⟩ = leaving p := leaving_same hl rfl
      unfold Astray
      dsimp only
      rw [lrange_rpush, hleave]
      refine Or.inr (Or.inr ⟨⟨x, List.mem_append_left _ hx, hleaves⟩, m, by simp, fun hmem => ?_⟩)
      exact hnew (mem_stored_of_leaving hp hmem)
  | get f =>
      rw [not_or, not_or, not_or, Bool.not_eq_true, Bool.not_eq_true] at hg
      obtain ⟨hrange, hdelete, hne, hdel⟩ := hg
      obtain ⟨x, hx, hleaves⟩ := exists_leaving hp (hsome hdel)
      simp only [next, hrange, hne, Bool.false_eq_true, or_self, if_false] at hn
      cases hn
      refine Or.inr (Or.inl fun hnodup => ?_)
      rw [leaving_eq (x := lrange p.shared.redis (generateKey userId threadKey)) hl
        (by rw [Pc.held_delete hdelete]; exact congrArg (· + _) (add_zero _).symm)] at hnodup
      exact Multiset.disjoint_left.mp (Multiset.nodup_add.mp hnodup).2.2 hleaves (Multiset.mem_coe.mpr hx)
  | _ => exact absurd trivial hg

/-- The call is over. -/
def Pc.over : Pc M → Bool
  | .stored _ | .got _ => true
  | _ => false

/-- A run that is over and in order has not gone astray. -/
theorem not_astray_of_over (hfresh : Fresh userId threadKey p) (hover : ∀ l ∈ p.threads, l.over = true)
    (horder : InOrder userId threadKey p.shared) : ¬Astray userId threadKey p := by
  have hheld : (p.threads.map Pc.held).sum = 0 := by
    refine Multiset.eq_zero_of_forall_notMem fun m hm => ?_
    obtain ⟨l, hl, hm⟩ := (mem_sum_map _ _ _).mp hm
    have hend := hover l hl
    cases l with
    | stored ok => cases Multiset.notMem_zero _ hm
    | got msgs => cases Multiset.notMem_zero _ hm
    | _ => cases hend
  have hleave : leaving p = p.shared.returned.flatten := by
    rw [leaving, hheld, add_zero]
  have hnodup : p.shared.stored.Nodup := Multiset.coe_nodup.mp (Multiset.nodup_add.mp hfresh.nodup).1
  rw [show p.shared.stored = _ from horder, List.nodup_append] at hnodup
  unfold Astray
  dsimp only
  rw [hleave]
  intro hbad
  rcases hbad with ⟨m, hm, hnot, hout⟩ | htwice | ⟨⟨m, hm, hin⟩, -⟩
  · rw [show p.shared.stored = _ from horder, List.mem_append] at hm
    rcases hm with hm | hm
    · exact hout (Multiset.mem_coe.mpr hm)
    · exact hnot hm
  · exact htwice (Multiset.coe_nodup.mpr hnodup.1)
  · exact hnodup.2.2 m (Multiset.mem_coe.mp hin) m hm rfl

end Steps

/-- A call of `store_pending_message` or of `get_pending_messages`. -/
inductive Call (M : Type) where
  | store (message : M) (faults : StoreFaults := {})
  | get (faults : GetFaults := {})

/-- Before the first command. -/
def Call.start : Call M → Pc M
  | .store message faults => .store message faults
  | .get faults => .get faults

/-- The message a call brings. -/
def Call.message? : Call M → Option M
  | .store message _ => some message
  | .get _ => none

/-- The calls before any of them has begun; `r` may hold messages of earlier calls. -/
def start (userId threadKey : String) (r : Lists M) (calls : List (Call M)) : Pool (World M) (Pc M) :=
  ⟨⟨r, lrange r (generateKey userId threadKey), []⟩, calls.map Call.start⟩

section Run

variable (userId threadKey : String) (r : Lists M) (calls : List (Call M))

theorem sound_start : Sound userId threadKey (start userId threadKey r calls) := by
  have hnone : ∀ l ∈ calls.map Call.start, l.deletes = false := by
    intro l hl
    obtain ⟨c, -, rfl⟩ := List.mem_map.mp hl
    cases c <;> rfl
  refine ⟨rfl, ?_, fun msgs f hmem hf => (reads_of_none hnone hmem hf).elim⟩
  exact (List.countP_eq_zero.mpr fun l hl => Bool.eq_false_iff.mp (hnone l hl)).trans_le (Nat.zero_le _)

theorem fresh_start (hdistinct : (lrange r (generateKey userId threadKey) ++ calls.filterMap Call.message?).Nodup) :
    Fresh userId threadKey (start userId threadKey r calls) := by
  have hle : ((calls.map Call.start).map Pc.toStore).sum ≤ (calls.filterMap Call.message? : Multiset M) := by
    clear hdistinct
    induction calls with
    | nil => exact le_refl _
    | cons c calls ih =>
        cases c with
        | store m f =>
            show _ ≤ ((m :: calls.filterMap Call.message? : List M) : Multiset M)
            rw [← Multiset.cons_coe, List.map_cons, List.map_cons, List.sum_cons, ← Multiset.singleton_add]
            refine add_le_add ?_ ih
            rw [Call.start, Pc.toStore]
            split
            · exact Multiset.zero_le _
            · exact le_refl _
        | get f =>
            show _ ≤ (calls.filterMap Call.message? : Multiset M)
            rw [List.map_cons, List.map_cons, List.sum_cons]
            exact (zero_add _).trans_le ih
  refine ⟨?_, fun m hm => hm⟩
  refine Multiset.nodup_of_le (add_le_add (le_refl _) hle) ?_
  rw [Multiset.coe_add]
  exact Multiset.coe_nodup.mpr hdistinct

/-- **Messages are neither lost nor duplicated**, and are returned in the order they were stored, in every run in which
no call is disturbed between its read and its deletion; and in a run that is over, of different messages, only then. -/
theorem in_order_iff (sched : List ℕ) (p : Pool (World M) (Pc M))
    (hrun : exec (next userId threadKey) (start userId threadKey r calls) sched = some p) :
    (Guarded (next userId threadKey) (undisturbed userId threadKey) (start userId threadKey r calls) sched →
        InOrder userId threadKey p.shared) ∧
      ((lrange r (generateKey userId threadKey) ++ calls.filterMap Call.message?).Nodup →
        (∀ l ∈ p.threads, l.over = true) → InOrder userId threadKey p.shared →
        Guarded (next userId threadKey) (undisturbed userId threadKey) (start userId threadKey r calls) sched) := by
  constructor
  · intro hg
    exact (exec_invariant (Sound userId threadKey) (fun p i q hp hstep h => sound_step hp hstep h) sched _ p
      (sound_start userId threadKey r calls) hg hrun).inOrder
  · intro hdistinct hover horder
    have hfresh := fresh_start userId threadKey r calls hdistinct
    -- along any run the messages stay different, and it is sound or astray
    refine guarded_of_exec
      (fun p => Fresh userId threadKey p ∧ (Sound userId threadKey p ∨ Astray userId threadKey p))
      (fun p => Fresh userId threadKey p ∧ Astray userId threadKey p) ?_ ?_ ?_ sched _ p
      ⟨hfresh, Or.inl (sound_start userId threadKey r calls)⟩ hrun
      (fun hbad => not_astray_of_over hbad.1 hover horder hbad.2)
    · intro p i q hp h
      refine ⟨fresh_step hp.1 h, ?_⟩
      rcases hp.2 with hsound | hbad
      · by_cases hg : undisturbed userId threadKey p i
        · exact Or.inl (sound_step hsound hg h)
        · exact Or.inr (astray_of_disturbed hsound hp.1 hg h)
      · exact Or.inr (astray_step hp.1 hbad h)
    · intro p i q hp hg h
      refine ⟨fresh_step hp.1 h, ?_⟩
      rcases hp.2 with hsound | hbad
      · exact astray_of_disturbed hsound hp.1 hg h
      · exact astray_step hp.1 hbad h
    · exact fun p i q hp h => ⟨fresh_step hp.1 h, astray_step hp.1 hp.2 h⟩

end Run

/-- Two stores, and a tab that connects. -/
def twoStores : List (Call ℕ) := [.store 1, .get, .store 2]

/-- The second message comes when the first one has been fetched. -/
theorem in_order_in_turn :
    ∃ p, exec (next "u" "t") (start "u" "t" ∅ twoStores) [0, 0, 1, 1, 2, 2] = some p ∧ InOrder "u" "t" p.shared ∧
      Guarded (next "u" "t") (undisturbed "u" "t") (start "u" "t" ∅ twoStores) [0, 0, 1, 1, 2, 2] := by
  have hrun : ∃ p, exec (next "u" "t") (start "u" "t" ∅ twoStores) [0, 0, 1, 1, 2, 2] = some p := ⟨_, rfl⟩
  obtain ⟨p, hp⟩ := hrun
  have hg : Guarded (next "u" "t") (undisturbed "u" "t") (start "u" "t" ∅ twoStores) [0, 0, 1, 1, 2, 2] :=
    ⟨Or.inr (by decide), trivial, Or.inr (Or.inr (Or.inr (by decide))), trivial, Or.inr (by decide), trivial, trivial⟩
  exact ⟨p, hp, (in_order_iff "u" "t" ∅ twoStores _ p hp).1 hg, hg⟩

/-- A message that is stored between the read and the deletion is lost. -/
theorem message_lost : ¬∀ (userId threadKey : String) (r : Lists ℕ) (calls : List (Call ℕ)) (sched : List ℕ)
    (p : Pool (World ℕ) (Pc ℕ)), exec (next userId threadKey) (start userId threadKey r calls) sched = some p →
      InOrder userId threadKey p.shared := by
  intro h
  have hlost := h "u" "t" ∅ twoStores [0, 0, 1, 2, 2, 1] _ rfl
  exact absurd hlost (by unfold InOrder; decide)

end Pinnokio.Sockets.MessageBuffer
