import Mathlib.Data.List.Chain
import Mathlib.Tactic.Ring
import Pinnokio.Lib.Interleaving

/-!
# The hub of WebSocket connections

`WebSocketHub` keeps the connections of a uid.  `register` and `unregister` decide under the lock whether the uid has
just come or gone, and run the callbacks of the subscriber after it is released; `broadcast` sends to the connections
it has copied and then drops those whose send has failed.  The sends of a broadcast fail arbitrarily.

* `step_cases` — everything a step can do;
* `tracks_iff` — the callbacks alternate and the subscription follows the connections in every run in which the
  callbacks start in the order they were decided and no broadcast drops the last connection; and in a run that is over,
  only then.
-/

namespace Pinnokio.Sockets.Hub

open Pinnokio.Interleaving

/-- The callbacks of the subscriber: `subscribe_user` and `unsubscribe_user`. -/
inductive Callback where
  | firstConnect
  | lastDisconnect
  deriving DecidableEq

/-- The connections of the uid (none when it is not in `_uid_to_conns`) and whether it is in `_subscribed_uids`, with
the callbacks started so far and those decided and not yet started, in the order they were decided. -/
structure World where
  conns : List ℕ
  subscribed : Bool
  started : List Callback
  waiting : List Callback
  deriving DecidableEq

/-- Local state of a call; the sends of a broadcast fail on the connections `fails` says. -/
inductive Pc where
  | register (ws : ℕ)
  | unregister (ws : ℕ)
  | callback (c : Callback)
  | broadcast (fails : ℕ → Bool)
  | sending (fails : ℕ → Bool) (todo dead : List ℕ)
  | done

/-- `conns.add(ws)`. -/
def add (conns : List ℕ) (ws : ℕ) : List ℕ := if ws ∈ conns then conns else conns ++ [ws]

/-- `conns.discard(ws)` for each of the connections `dead`. -/
def discard (conns dead : List ℕ) : List ℕ := conns.filter fun ws => ws ∉ dead

/-- `subscribe_user` or `unsubscribe_user`, with a connection to Redis that is up: both leave `_subscribed_uids` as it
is when there is none or the command fails. -/
def World.run (w : World) (c : Callback) : World :=
  { w with subscribed := c == .firstConnect, started := w.started ++ [c], waiting := w.waiting.erase c }

/-- The next lock-protected block, callback or send of a call. -/
def next (w : World) : Pc → Option (World × Pc)
  | .register ws =>
      if w.conns = [] then
        some ({ w with conns := add w.conns ws, waiting := w.waiting ++ [.firstConnect] }, .callback .firstConnect)
      else some ({ w with conns := add w.conns ws }, .done)
  | .unregister ws =>
      if ws ∈ w.conns then
        let conns := discard w.conns [ws]
        if conns = [] then
          some ({ w with conns := conns, waiting := w.waiting ++ [.lastDisconnect] }, .callback .lastDisconnect)
        else some ({ w with conns := conns }, .done)
      else some (w, .done)
  | .callback c => some (w.run c, .done)
  | .broadcast fails => if w.conns = [] then some (w, .done) else some (w, .sending fails w.conns [])
  | .sending fails (ws :: todo) dead => some (w, .sending fails todo (if fails ws then dead ++ [ws] else dead))
  -- the dead connections are dropped under the lock, and no callback is run for them
  | .sending _ [] dead => some ({ w with conns := discard w.conns dead }, .done)
  | .done => none

/-- The callbacks are started alternately. -/
def Alternates (log : List Callback) : Prop := log.IsChain (· ≠ ·)

/-- The call has not begun or has returned. -/
def Pc.idle : Pc → Bool
  | .register _ | .unregister _ | .broadcast _ | .done => true
  | _ => false

/-- When no call is in progress, the uid is subscribed iff it has a connection. -/
def Tracks (p : Pool World Pc) : Prop :=
  (∀ l ∈ p.threads, l.idle = true) → (p.shared.subscribed = true ↔ p.shared.conns ≠ [])

/-- A callback starts when it is the first of those decided, and a broadcast does not drop the last connections. -/
def inTurn (p : Pool World Pc) (i : ℕ) : Prop :=
  match p.threads[i]? with
  | some (.callback c) => p.shared.waiting.head? = some c
  | some (.sending _ [] dead) => p.shared.conns = [] ∨ discard p.shared.conns dead ≠ []
  | _ => True

/-! ### Sequences of callbacks -/

/-- First connects less last disconnects. -/
def balance (log : List Callback) : ℤ := log.count .firstConnect - log.count .lastDisconnect

/-- Whether the uid is there after the callback. -/
def Callback.up : Callback → ℤ
  | .firstConnect => 1
  | .lastDisconnect => 0

/-- Alternating, and a first connect is the first. -/
def Turn (log : List Callback) : Prop := (Callback.lastDisconnect :: log).IsChain (· ≠ ·)

theorem balance_append (a b : List Callback) : balance (a ++ b) = balance a + balance b := by
  simp only [balance, List.count_append, Nat.cast_add]
  ring

theorem balance_singleton (c : Callback) : balance [c] = 2 * c.up - 1 := by
  cases c <;> rfl

theorem balance_perm {a b : List Callback} (h : a.Perm b) : balance a = balance b := by
  rw [balance, balance, h.count_eq, h.count_eq]

theorem Callback.up_add_of_ne {c k : Callback} (h : c ≠ k) : c.up + k.up = 1 := by
  cases c <;> cases k
  · exact absurd rfl h
  · rfl
  · rfl
  · exact absurd rfl h

/-- The last of an alternating sequence says how often the uid came more than it went. -/
theorem balance_of_chain {k : Callback} {log : List Callback} (h : (k :: log).IsChain (· ≠ ·)) :
    balance log = (log.getLast?.getD k).up - k.up := by
  induction log generalizing k with
  | nil => exact (sub_self _).symm
  | cons c log ih =>
      rw [List.isChain_cons_cons] at h
      have hup := Callback.up_add_of_ne h.1
      rw [show c :: log = [c] ++ log from rfl, balance_append, balance_singleton, ih h.2, List.singleton_append,
        List.getLast?_cons, Option.getD_some]
      omega

theorem turn_append_singleton {log : List Callback} {c : Callback} :
    Turn (log ++ [c]) ↔ Turn log ∧ log.getLast?.getD .lastDisconnect ≠ c := by
  rw [Turn, ← List.cons_append, List.isChain_append]
  simp only [List.isChain_singleton, true_and, List.getLast?_cons, List.head?_cons, Option.mem_def, Option.some.injEq,
    forall_eq']
  rfl

theorem turn_left {a b : List Callback} (h : Turn (a ++ b)) : Turn a := by
  rw [Turn, ← List.cons_append] at h
  exact h.left_of_append

theorem up_getLast (log : List Callback) :
    (log.getLast?.getD .lastDisconnect).up = 1 ↔ log.getLast? = some .firstConnect := by
  cases log.getLast? with
  | none => decide
  | some c => cases c <;> decide

/-! ### One step -/

/-- The callback a call is about to run. -/
def Pc.pending : Pc → Option Callback
  | .callback c => some c
  | _ => none

/-- `1` while the uid has a connection. -/
def connected (conns : List ℕ) : ℤ := if conns = [] then 0 else 1

section Steps

variable {p q : Pool World Pc} {i : ℕ}

theorem add_ne_nil (conns : List ℕ) (ws : ℕ) : add conns ws ≠ [] := by
  unfold add
  split
  · next hmem => exact List.ne_nil_of_mem hmem
  · exact List.append_ne_nil_of_right_ne_nil _ (List.cons_ne_nil _ _)

/-- **Everything a step can do**: change the connections but not whether there are any, decide on a callback, drop the
last connections, or run a callback. -/
theorem step_cases (h : p.stepAt next i = some q) :
    ∃ l l', p.threads[i]? = some l ∧ q.threads = p.threads.set i l' ∧
      ((∃ conns, inTurn p i ∧ l.pending = none ∧ l'.pending = none ∧ q.shared = { p.shared with conns := conns } ∧
          (conns = [] ↔ p.shared.conns = [])) ∨
        (∃ c conns, inTurn p i ∧ l.pending = none ∧ l' = .callback c ∧
          q.shared = { p.shared with conns := conns, waiting := p.shared.waiting ++ [c] } ∧
          connected p.shared.conns = 1 - c.up ∧ connected conns = c.up) ∨
        (∃ fails dead, l = .sending fails [] dead ∧ l' = .done ∧ q.shared = { p.shared with conns := [] } ∧
          p.shared.conns ≠ [] ∧ discard p.shared.conns dead = []) ∨
        ∃ c, l = .callback c ∧ l' = .done ∧ q.shared = p.shared.run c) := by
  obtain ⟨l, w, l', hl, hn, rfl⟩ := stepAt_eq_some h
  refine ⟨l, l', hl, rfl, ?_⟩
  unfold inTurn
  rw [hl]
  cases l with
  | register ws =>
      simp only [next] at hn
      split at hn
      · next hnone =>
        cases hn
        refine Or.inr (Or.inl ⟨.firstConnect, _, trivial, rfl, rfl, rfl, ?_, if_neg (add_ne_nil _ _)⟩)
        rw [connected, if_pos hnone]
        rfl
      · next hsome =>
        cases hn
        exact Or.inl ⟨_, trivial, rfl, rfl, rfl, iff_of_false (add_ne_nil _ _) hsome⟩
  | unregister ws =>
      simp only [next] at hn
      split at hn
      · next hmem =>
        have hsome : p.shared.conns ≠ [] := List.ne_nil_of_mem hmem
        split at hn
        · next hlast =>
          cases hn
          refine Or.inr (Or.inl ⟨.lastDisconnect, _, trivial, rfl, rfl, rfl, ?_, if_pos hlast⟩)
          rw [connected, if_neg hsome]
          rfl
        · next hmore =>
          cases hn
          exact Or.inl ⟨_, trivial, rfl, rfl, rfl, iff_of_false hmore hsome⟩
      · cases hn
        exact Or.inl ⟨_, trivial, rfl, rfl, rfl, Iff.rfl⟩
  | callback c =>
      cases hn
      exact Or.inr (Or.inr (Or.inr ⟨c, rfl, rfl, rfl⟩))
  | broadcast fails =>
      simp only [next] at hn
      split at hn <;> cases hn <;> exact Or.inl ⟨_, trivial, rfl, rfl, rfl, Iff.rfl⟩
  | sending fails todo dead =>
      cases todo with
      | nil =>
          cases hn
          by_cases hdrop : p.shared.conns ≠ [] ∧ discard p.shared.conns dead = []
          · refine Or.inr (Or.inr (Or.inl ⟨fails, dead, rfl, rfl, ?_, hdrop.1, hdrop.2⟩))
            rw [hdrop.2]
          · rw [not_and_or, not_not] at hdrop
            refine Or.inl ⟨_, hdrop, rfl, rfl, rfl, fun hnil => hdrop.resolve_right fun hne => hne hnil, fun hnil => ?_⟩
            rw [hnil]
            rfl
      | cons ws todo =>
          cases hn
          exact Or.inl ⟨_, trivial, rfl, rfl, rfl, Iff.rfl⟩
  | done => cases hn

/-- What every step keeps: the uid is subscribed iff the last callback was a first connect, each decided callback has
its call, and the uid came at least as often as it went. -/
structure Accounted (p : Pool World Pc) : Prop where
  subscribed : p.shared.subscribed = true ↔ p.shared.started.getLast? = some .firstConnect
  waiting : ∀ c, p.shared.waiting.count c = p.threads.countP fun l => l.pending == some c
  balance : connected p.shared.conns ≤ balance (p.shared.started ++ p.shared.waiting)

/-- Besides, the callbacks started and decided alternate, and the last of them says whether there is a connection. -/
structure Sound (p : Pool World Pc) : Prop where
  turn : Turn (p.shared.started ++ p.shared.waiting)
  balance : balance (p.shared.started ++ p.shared.waiting) = connected p.shared.conns

theorem connected_congr {a b : List ℕ} (h : a = [] ↔ b = []) : connected a = connected b := by
  unfold connected
  simp only [h]

/-- Running a callback takes it from the waiting ones. -/
theorem run_perm {w : World} {c : Callback} (hc : c ∈ w.waiting) :
    ((w.run c).started ++ (w.run c).waiting).Perm (w.started ++ w.waiting) := by
  show ((w.started ++ [c]) ++ w.waiting.erase c).Perm _
  rw [List.append_assoc]
  exact (List.perm_cons_erase hc).symm.append_left _

theorem mem_waiting (hp : Accounted p) {c : Callback} (hl : p.threads[i]? = some (.callback c)) :
    c ∈ p.shared.waiting := by
  rw [← List.count_pos_iff, hp.waiting c, List.countP_pos_iff]
  exact ⟨_, List.mem_of_getElem? hl, beq_self_eq_true _⟩

/-- The calls about to run a callback, after one of them has moved. -/
theorem countP_pending {l l' : Pc} (hl : p.threads[i]? = some l) (c : Callback) :
    (p.threads.set i l').countP (fun l => l.pending == some c) + (l.pending == some c).toNat =
      p.threads.countP (fun l => l.pending == some c) + (l'.pending == some c).toNat :=
  countP_set_add _ l' hl

theorem count_pending (c d : Callback) : ((Pc.callback c).pending == some d).toNat = [c].count d := by
  cases c <;> cases d <;> rfl

theorem accounted_step (hp : Accounted p) (h : p.stepAt next i = some q) : Accounted q := by
  obtain ⟨l, l', hl, hthreads, hcases⟩ := step_cases h
  have hcount : ∀ c, q.threads.countP (fun l => l.pending == some c) + (l.pending == some c).toNat =
      p.threads.countP (fun l => l.pending == some c) + (l'.pending == some c).toNat :=
    fun c => hthreads ▸ countP_pending hl c
  rcases hcases with ⟨conns, -, hpend, hpend', hq, hconns⟩ | ⟨c, conns, -, hpend, rfl, hq, hbefore, hafter⟩ |
    ⟨fails, dead, rfl, rfl, hq, hsome, -⟩ | ⟨c, rfl, rfl, hq⟩
  · rw [hpend, hpend'] at hcount
    refine ⟨?_, fun c => ?_, ?_⟩ <;> rw [hq]
    · exact hp.subscribed
    · exact (hp.waiting c).trans (hcount c).symm
    · exact (connected_congr hconns).trans_le hp.balance
  · refine ⟨?_, fun d => ?_, ?_⟩ <;> rw [hq]
    · exact hp.subscribed
    · have hd := hcount d
      rw [hpend] at hd
      show (p.shared.waiting ++ [c]).count d = _
      rw [List.count_append, hp.waiting d, ← count_pending c d]
      exact hd.symm
    · show connected conns ≤ Hub.balance (p.shared.started ++ (p.shared.waiting ++ [c]))
      have hbal := hp.balance
      rw [← List.append_assoc, balance_append, balance_singleton]
      omega
  · refine ⟨?_, fun c => ?_, ?_⟩ <;> rw [hq]
    · exact hp.subscribed
    · exact (hp.waiting c).trans (hcount c).symm
    · have hbal := hp.balance
      rw [connected, if_neg hsome] at hbal
      exact Int.le_trans zero_le_one hbal
  · refine ⟨?_, fun d => ?_, ?_⟩ <;> rw [hq]
    · show (c == .firstConnect) = true ↔ (p.shared.started ++ [c]).getLast? = some .firstConnect
      rw [List.getLast?_concat, beq_iff_eq, Option.some.injEq]
    · have hd := hcount d
      have hmem := mem_waiting hp hl
      show (p.shared.waiting.erase c).count d = _
      have hwait := (List.perm_cons_erase hmem).count_eq d
      rw [List.count_cons, ← List.count_singleton, hp.waiting d] at hwait
      rw [count_pending c d] at hd
      exact Nat.add_right_cancel (hwait.symm.trans hd.symm)
    · rw [balance_perm (run_perm (mem_waiting hp hl))]
      exact hp.balance

/-- The next callback to decide on is the one that follows the last. -/
theorem turn_decide (hp : Sound p) {c : Callback} (hc : connected p.shared.conns = 1 - c.up) :
    Turn (p.shared.started ++ p.shared.waiting ++ [c]) := by
  refine turn_append_singleton.mpr ⟨hp.turn, fun heq => ?_⟩
  have hlast := balance_of_chain hp.turn
  have hbal := hp.balance
  rw [heq, Callback.up] at hlast
  cases c <;> simp only [Callback.up] at hlast hc <;> omega

/-- The invariant of steps taken in turn. -/
theorem sound_step (hp : Sound p) (hg : inTurn p i) (h : p.stepAt next i = some q) : Sound q := by
  unfold inTurn at hg
  obtain ⟨l, l', hl, -, hcases⟩ := step_cases h
  rw [hl] at hg
  rcases hcases with ⟨conns, -, -, -, hq, hconns⟩ | ⟨c, conns, -, -, rfl, hq, hbefore, hafter⟩ |
    ⟨fails, dead, rfl, rfl, -, hsome, hdrop⟩ | ⟨c, rfl, rfl, hq⟩
  · refine ⟨?_, ?_⟩ <;> rw [hq]
    · exact hp.turn
    · exact hp.balance.trans (connected_congr hconns).symm
  · refine ⟨?_, ?_⟩ <;> rw [hq]
    · show Turn (p.shared.started ++ (p.shared.waiting ++ [c]))
      rw [← List.append_assoc]
      exact turn_decide hp hbefore
    · show Hub.balance (p.shared.started ++ (p.shared.waiting ++ [c])) = connected conns
      rw [← List.append_assoc, balance_append, balance_singleton, hp.balance]
      omega
  · exact absurd hdrop (hg.resolve_left hsome)
  · -- the callback only moves from the waiting ones to the started ones
    obtain ⟨rest, hrest⟩ := List.head?_eq_some_iff.mp hg
    have hsame : q.shared.started ++ q.shared.waiting = p.shared.started ++ p.shared.waiting := by
      rw [hq]
      show (p.shared.started ++ [c]) ++ p.shared.waiting.erase c = _
      rw [hrest, List.erase_cons_head, List.append_assoc]
      rfl
    refine ⟨?_, ?_⟩ <;> rw [hsame]
    · exact hp.turn
    · rw [hq]
      exact hp.balance

/-- The callbacks have started out of turn, or the uid has gone without a callback. -/
def Astray (p : Pool World Pc) : Prop :=
  ¬Turn p.shared.started ∨ connected p.shared.conns < balance (p.shared.started ++ p.shared.waiting)

/-- Nothing sets it right again. -/
theorem astray_step (hp : Accounted p) (hbad : Astray p) (h : p.stepAt next i = some q) : Astray q := by
  obtain ⟨l, l', hl, -, hcases⟩ := step_cases h
  rcases hcases with ⟨conns, -, -, -, hq, hconns⟩ | ⟨c, conns, -, -, rfl, hq, hbefore, hafter⟩ |
    ⟨fails, dead, rfl, rfl, hq, hsome, -⟩ | ⟨c, rfl, rfl, hq⟩
  · unfold Astray
    rw [hq]
    show _ ∨ connected conns < _
    rw [connected_congr hconns]
    exact hbad
  · unfold Astray
    rw [hq]
    refine hbad.imp_right fun hmore => ?_
    show connected conns < balance (p.shared.started ++ (p.shared.waiting ++ [c]))
    rw [← List.append_assoc, balance_append, balance_singleton]
    omega
  · unfold Astray
    rw [hq]
    have hbal := hp.balance
    rw [connected, if_neg hsome] at hbal
    exact Or.inr (Int.lt_of_lt_of_le zero_lt_one hbal)
  · unfold Astray
    rw [hq]
    refine hbad.imp (fun hout hturn => hout (turn_left hturn)) fun hmore => ?_
    rw [balance_perm (run_perm (mem_waiting hp hl))]
    exact hmore

/-- A step out of turn leads astray. -/
theorem astray_of_not_inTurn (hp : Accounted p) (hsound : Sound p) (hg : ¬inTurn p i)
    (h : p.stepAt next i = some q) : Astray q := by
  obtain ⟨l, l', hl, -, hcases⟩ := step_cases h
  rcases hcases with ⟨conns, hturn, -⟩ | ⟨c, conns, hturn, -⟩ | ⟨fails, dead, rfl, rfl, hq, hsome, -⟩ | ⟨c, rfl, rfl, hq⟩
  · exact absurd hturn hg
  · exact absurd hturn hg
  · unfold Astray
    rw [hq]
    have hbal := hp.balance
    rw [connected, if_neg hsome] at hbal
    exact Or.inr (Int.lt_of_lt_of_le zero_lt_one hbal)
  · refine Or.inl fun hturn => ?_
    rw [hq] at hturn
    -- the callback is waiting, but behind the one whose turn it is: that one differs from both it and the last
    cases hwait : p.shared.waiting with
    | nil =>
        have hmem := mem_waiting hp hl
        rw [hwait] at hmem
        cases hmem
    | cons d rest =>
        have hdc : d ≠ c := by
          unfold inTurn at hg
          rw [hl, hwait] at hg
          exact fun heq => hg (congrArg some heq)
        have hd : Turn (p.shared.started ++ [d]) := by
          have hall := hsound.turn
          rw [hwait, ← List.singleton_append, ← List.append_assoc] at hall
          exact turn_left hall
        have hlast := Callback.up_add_of_ne (turn_append_singleton.mp hturn).2
        have hlast' := Callback.up_add_of_ne (turn_append_singleton.mp hd).2
        have hup := Callback.up_add_of_ne hdc
        omega

theorem waiting_eq_nil (hp : Accounted p) (hidle : ∀ l ∈ p.threads, l.idle = true) : p.shared.waiting = [] := by
  refine List.eq_nil_iff_forall_not_mem.mpr fun c hc => ?_
  rw [← List.count_pos_iff, hp.waiting c, List.countP_pos_iff] at hc
  obtain ⟨l, hl, hpend⟩ := hc
  have hl' := hidle l hl
  cases l with
  | callback d => cases hl'
  | _ => cases hpend

/-- When no call is in progress, the last callback says whether there is a connection. -/
theorem tracks_of_sound (hp : Accounted p) (hsound : Sound p) : Tracks p := by
  intro hidle
  have hturn := hsound.turn
  have hbal := hsound.balance
  rw [waiting_eq_nil hp hidle, List.append_nil] at hturn hbal
  rw [hp.subscribed, ← up_getLast, ← sub_zero (Callback.up _)]
  rw [balance_of_chain hturn] at hbal
  show _ - Callback.lastDisconnect.up = 1 ↔ _
  rw [hbal, connected]
  split
  · next hnil => simp [hnil]
  · next hsome => simp [hsome]

theorem alternates_of_turn {log : List Callback} (h : Turn log) : Alternates log := h.tail

/-- A run that is over and shows what it should has not gone astray. -/
theorem not_astray_of_idle (hp : Accounted p) (hidle : ∀ l ∈ p.threads, l.idle = true)
    (halt : Alternates p.shared.started) (htracks : Tracks p) : ¬Astray p := by
  have hsub := htracks hidle
  have hbal := hp.balance
  unfold Astray
  rw [waiting_eq_nil hp hidle, List.append_nil] at hbal ⊢
  rw [hp.subscribed, ← up_getLast] at hsub
  have hconn : connected p.shared.conns = (p.shared.started.getLast?.getD .lastDisconnect).up := by
    unfold connected
    split
    · next hnil =>
      have hdown := mt hsub.mp (fun hne => hne hnil)
      cases hx : p.shared.started.getLast?.getD .lastDisconnect with
      | firstConnect => exact absurd (by rw [hx]; rfl) hdown
      | lastDisconnect => rfl
    · next hsome => exact (hsub.mpr hsome).symm
  cases hstarted : p.shared.started with
  | nil =>
      rw [hstarted] at hconn
      intro hbad
      rcases hbad with hout | hmore
      · exact hout (List.isChain_singleton _)
      · rw [hconn] at hmore
        exact absurd hmore (lt_irrefl _)
  | cons c log =>
      rw [hstarted] at halt hbal hconn
      have hlog := balance_of_chain halt
      rw [show c :: log = [c] ++ log from rfl, balance_append, balance_singleton, hlog] at hbal ⊢
      rw [List.getLast?_cons, Option.getD_some] at hconn
      intro hbad
      cases c with
      | lastDisconnect =>
          have hup : Callback.lastDisconnect.up = 0 := rfl
          omega
      | firstConnect =>
          have hup : Callback.firstConnect.up = 1 := rfl
          rcases hbad with hout | hmore
          · exact hout (List.isChain_cons_cons.mpr ⟨nofun, halt⟩)
          · omega

end Steps

/-- A call of `register`, `unregister` or `broadcast`. -/
inductive Call where
  | register (ws : ℕ)
  | unregister (ws : ℕ)
  | broadcast (fails : ℕ → Bool)

/-- Before the first block. -/
def Call.start : Call → Pc
  | .register ws => .register ws
  | .unregister ws => .unregister ws
  | .broadcast fails => .broadcast fails

/-- The hub without a connection of the uid, and the calls before any of them has begun. -/
def start (calls : List Call) : Pool World Pc := ⟨⟨[], false, [], []⟩, calls.map Call.start⟩

/-- The call has returned. -/
def Pc.over : Pc → Bool
  | .done => true
  | _ => false

theorem accounted_start (calls : List Call) : Accounted (start calls) := by
  refine ⟨iff_of_false Bool.false_ne_true nofun, fun c => ?_, le_refl _⟩
  symm
  refine List.countP_eq_zero.mpr fun l hl => ?_
  obtain ⟨call, -, rfl⟩ := List.mem_map.mp hl
  cases call <;> exact Bool.false_ne_true

theorem sound_start (calls : List Call) : Sound (start calls) := ⟨List.isChain_singleton _, rfl⟩

/-- **The callbacks track connectivity** in every run whose steps are taken in turn; and in a run that is over, only
then. -/
theorem tracks_iff (calls : List Call) (sched : List ℕ) (p : Pool World Pc)
    (hrun : exec next (start calls) sched = some p) :
    (Guarded next inTurn (start calls) sched → Alternates p.shared.started ∧ Tracks p) ∧
      ((∀ l ∈ p.threads, l.over = true) → Alternates p.shared.started → Tracks p →
        Guarded next inTurn (start calls) sched) := by
  have hstart : Accounted (start calls) ∧ Sound (start calls) := ⟨accounted_start calls, sound_start calls⟩
  constructor
  · intro hg
    obtain ⟨hacc, hsound⟩ := exec_invariant (fun p => Accounted p ∧ Sound p)
      (fun p i q hp hg h => ⟨accounted_step hp.1 h, sound_step hp.2 hg h⟩) sched _ p hstart hg hrun
    exact ⟨alternates_of_turn (turn_left hsound.turn), tracks_of_sound hacc hsound⟩
  · intro hover halt htracks
    have hidle : ∀ l ∈ p.threads, l.idle = true := by
      intro l hl
      have hl' := hover l hl
      cases l with
      | done => rfl
      | _ => cases hl'
    have hmiss : ∀ p i q, Accounted p ∧ (Sound p ∨ Astray p) → ¬inTurn p i → p.stepAt next i = some q →
        Accounted q ∧ Astray q := by
      intro p i q hp hg h
      refine ⟨accounted_step hp.1 h, ?_⟩
      rcases hp.2 with hsound | hbad
      · exact astray_of_not_inTurn hp.1 hsound hg h
      · exact astray_step hp.1 hbad h
    refine guarded_of_exec (fun p => Accounted p ∧ (Sound p ∨ Astray p)) (fun p => Accounted p ∧ Astray p) ?_ hmiss
      (fun p i q hp h => ⟨accounted_step hp.1 h, astray_step hp.1 hp.2 h⟩) sched _ p ⟨hstart.1, Or.inl hstart.2⟩ hrun
      (fun hbad => not_astray_of_idle hbad.1 hidle halt htracks hbad.2)
    intro p i q hp h
    refine ⟨accounted_step hp.1 h, ?_⟩
    rcases hp.2 with hsound | hbad
    · by_cases hg : inTurn p i
      · exact Or.inl (sound_step hsound hg h)
      · exact Or.inr (hmiss p i q hp hg h).2
    · exact Or.inr (astray_step hp.1 hbad h)

/-- A tab connects, gets a message and disconnects. -/
theorem tracks_one_tab : ∃ p,
    exec next (start [.register 1, .broadcast fun _ => false, .unregister 1]) [0, 0, 1, 1, 1, 2, 2] = some p ∧
      Alternates p.shared.started ∧ Tracks p := by
  have hrun : ∃ p, exec next (start [.register 1, .broadcast fun _ => false, .unregister 1])
      [0, 0, 1, 1, 1, 2, 2] = some p := ⟨_, rfl⟩
  obtain ⟨p, hp⟩ := hrun
  have hg : Guarded next inTurn (start [.register 1, .broadcast fun _ => false, .unregister 1])
      [0, 0, 1, 1, 1, 2, 2] :=
    ⟨trivial, rfl, trivial, trivial, Or.inr (List.cons_ne_nil _ _), trivial, rfl, trivial⟩
  exact ⟨p, hp, (tracks_iff _ _ p hp).1 hg⟩

/-- A broadcast that drops the only connection leaves the uid subscribed. -/
theorem subscribed_without_connection : ¬∀ (calls : List Call) (sched : List ℕ) (p : Pool World Pc),
    exec next (start calls) sched = some p → Alternates p.shared.started ∧ Tracks p := by
  intro h
  obtain ⟨-, htracks⟩ := h [.register 1, .broadcast fun _ => true] [0, 0, 1, 1, 1] _ rfl
  have hidle := htracks (by decide)
  exact hidle.mp rfl rfl

end Pinnokio.Sockets.Hub
