import Pinnokio.Lib.Dict
import Pinnokio.Lib.Interleaving
import Pinnokio.Lib.Text

/-!
# Approval of journal entries

A worker stores a journal entry that waits for approval under `je_approval:{approval_id}`.  The user's answer to
the approval card reads it; an approval posts the entry to the ERP and then deletes the key, a rejection only
deletes the key.  The key is what makes the approval a one-time matter, but it is deleted after the post and not
before it, so two answers that have both read it are both carried out.

* `next` — one Redis command, or one post, of a `handle_card_response` call;
* `Unique` — the entry is posted at most once, and not after a rejection;
* `unique_iff_guarded` — that holds of a run exactly when every successful post is made while the key is still
  stored and no other call is between its post and its deletion of the key.
-/

namespace Pinnokio.Approval

open Pinnokio.Interleaving Pinnokio.Text

/-- What the handler reads of the stored payload. -/
structure Payload where
  mandatePath : String
  erpJournalId : String

/-- What `provider.post_journal_entry` does: it posts the entry, reports an error, or raises. -/
inductive PostOutcome where
  | posted (erpEntryId erpEntryName : String)
  | refused (error : String)
  | raised (error : String)

/-- A call of `handle_card_response`, with the outcome of its post if it comes to one. -/
structure CardResponse where
  approvalId : String
  decision : String
  widgetDecision : String
  rejectionReason : String
  widgetRejectionReason : String
  outcome : PostOutcome

/-- The answer to the frontend. -/
inductive Response where
  | error (error : String)
  | approved (erpEntryId erpEntryName message : String)
  | rejected (message : String)

/-- What the ERP and the user have seen. -/
inductive Event where
  | posted
  | rejected
  deriving DecidableEq

/-- Redis, with the payload of an approval or the error its JSON text gives, and the events so far. -/
structure World where
  redis : Dict String (Except String Payload)
  history : List Event

namespace CardResponse

/-- `decision` may come in `params` or in its `widget_values`. -/
def chosen (c : CardResponse) : String := orElse c.decision c.widgetDecision

/-- The reason of a rejection. -/
def reason (c : CardResponse) : String := orElse c.rejectionReason c.widgetRejectionReason

/-- The post of this call will succeed. -/
def posts (c : CardResponse) : Bool :=
  match c.outcome with
  | .posted _ _ => true
  | _ => false

/-- `je_approval:{approval_id}`. -/
def redisKey (c : CardResponse) : String := "je_approval:" ++ c.approvalId

end CardResponse

/-- Local state of a call: the next command, with the payload it has read. -/
inductive Pc where
  | call (c : CardResponse)
  | post (c : CardResponse) (payload : Payload)
  | cleanUp (c : CardResponse) (erpEntryId erpEntryName : String)
  | reject (c : CardResponse)
  | done (r : Response)

/-- `_handle_approval` up to its post. -/
def handleApproval (c : CardResponse) (payload : Payload) : Pc :=
  if payload.mandatePath = "" then .done (.error "mandate_path manquant dans le payload")
  else if payload.erpJournalId = "" then
    .done (.error "_erp_journal_id manquant — le payload n'a pas ete resolu correctement")
  else .post c payload

/-- `handle_card_response` after it has read the payload. -/
def route (c : CardResponse) : Option (Except String Payload) → Pc
  | none => .done (.error "Approbation expiree (TTL 24h)")
  | some (.error e) => .done (.error ("Payload invalide: " ++ e))
  | some (.ok payload) =>
      if c.chosen = "reject" then .reject c
      else if c.chosen = "approve" then handleApproval c payload
      else .done (.error ("Decision inconnue: " ++ c.chosen))

/-- The next command of a call. -/
def next (w : World) : Pc → Option (World × Pc)
  | .call c =>
      if c.approvalId = "" then some (w, .done (.error "approval_id manquant dans les parametres"))
      else if c.chosen = "" then some (w, .done (.error "decision manquante (approve/reject)"))
      else some (w, route c (w.redis.get? c.redisKey))
  | .post c _ =>
      match c.outcome with
      | .posted erpEntryId erpEntryName =>
          some ({ w with history := w.history ++ [.posted] }, .cleanUp c erpEntryId erpEntryName)
      | .refused e => some (w, .done (.error ("Erreur posting ERP: " ++ e)))
      | .raised e => some (w, .done (.error e))
  | .cleanUp c erpEntryId erpEntryName =>
      some ({ w with redis := w.redis.erase c.redisKey },
        .done (.approved erpEntryId erpEntryName ("Ecriture postee: " ++ erpEntryName)))
  | .reject c =>
      some ({ redis := w.redis.erase c.redisKey, history := w.history ++ [.rejected] },
        .done (.rejected ("Ecriture rejetee: " ++ orElse c.reason "sans motif")))
  | .done _ => none

/-- The card a call in progress answers to. -/
def Pc.card? : Pc → Option CardResponse
  | .call c => some c
  | .post c _ => some c
  | .cleanUp c _ _ => some c
  | .reject c => some c
  | .done _ => none

/-- The call has posted and has not deleted the key yet. -/
def Pc.cleaning : Pc → Bool
  | .cleanUp _ _ _ => true
  | _ => false

/-- Everything a command can do to the world. -/
inductive Moves (w : World) : Pc → World → Pc → Prop where
  | quiet {l l' : Pc} (hc : ∀ c, l'.card? = some c → l.card? = some c) (hl : l.cleaning = false)
      (hl' : l'.cleaning = false) (hp : ∀ c pl, l = .post c pl → c.posts = false) : Moves w l w l'
  | posted {c : CardResponse} (payload : Payload) {i n : String} (ho : c.outcome = .posted i n) :
      Moves w (.post c payload) { w with history := w.history ++ [.posted] } (.cleanUp c i n)
  | cleanUp (c : CardResponse) (i n : String) (r : Response) :
      Moves w (.cleanUp c i n) { w with redis := w.redis.erase c.redisKey } (.done r)
  | rejected (c : CardResponse) (r : Response) :
      Moves w (.reject c) { redis := w.redis.erase c.redisKey, history := w.history ++ [.rejected] }
        (.done r)

/-- A command that is over has no card. -/
theorem card?_done {l : Pc} (r : Response) (c : CardResponse) (h : (Pc.done r).card? = some c) :
    l.card? = some c := by
  cases h

theorem route_quiet (w : World) (c : CardResponse) (o : Option (Except String Payload)) :
    Moves w (.call c) w (route c o) := by
  have hr : (route c o = .reject c ∨ (∃ pl, route c o = .post c pl) ∨ ∃ r, route c o = .done r) := by
    unfold route handleApproval
    split
    · exact Or.inr (Or.inr ⟨_, rfl⟩)
    · exact Or.inr (Or.inr ⟨_, rfl⟩)
    · split
      · exact Or.inl rfl
      · split
        · split
          · exact Or.inr (Or.inr ⟨_, rfl⟩)
          · split
            · exact Or.inr (Or.inr ⟨_, rfl⟩)
            · exact Or.inr (Or.inl ⟨_, rfl⟩)
        · exact Or.inr (Or.inr ⟨_, rfl⟩)
  rcases hr with hr | ⟨pl, hr⟩ | ⟨r, hr⟩ <;> rw [hr]
  · exact .quiet (fun _ h => h) rfl rfl nofun
  · exact .quiet (fun _ h => h) rfl rfl nofun
  · exact .quiet (card?_done r) rfl rfl nofun

theorem next_moves {w w' : World} {l l' : Pc} (h : next w l = some (w', l')) : Moves w l w' l' := by
  cases l with
  | call c =>
      simp only [next] at h
      split at h
      · cases h
        exact .quiet (card?_done _) rfl rfl (by simp)
      · split at h
        · cases h
          exact .quiet (card?_done _) rfl rfl (by simp)
        · cases h
          exact route_quiet w c _
  | post c payload =>
      have hfail : ∀ r, c.posts = false → Moves w (.post c payload) w (.done r) := fun r hp =>
        .quiet (card?_done r) rfl rfl fun c' pl he => by cases he; exact hp
      simp only [next] at h
      split at h
      · rename_i i n ho
        cases h
        exact .posted payload ho
      · rename_i e ho
        cases h
        exact hfail _ (by simp [CardResponse.posts, ho])
      · rename_i e ho
        cases h
        exact hfail _ (by simp [CardResponse.posts, ho])
  | cleanUp c i n =>
      cases h
      exact .cleanUp c i n _
  | reject c =>
      cases h
      exact .rejected c _
  | done r => cases h

/-! ### The property -/

/-- The entry is posted at most once, and never after a rejection. -/
def Unique (history : List Event) : Prop :=
  history.count .posted ≤ 1 ∧ history.Pairwise fun a b => ¬(a = .rejected ∧ b = .posted)

/-- A successful post is made while the key is stored and no call is between its post and its deletion of
the key. -/
def tokenHeld (key : String) (p : Pool World Pc) (i : ℕ) : Bool :=
  match p.threads[i]? with
  | some (.post c _) =>
      !c.posts || ((p.shared.redis.get? key).isSome && p.threads.all fun l => !l.cleaning)
  | _ => true

/-- The calls before any of them has begun. -/
def start (redis : Dict String (Except String Payload)) (calls : List CardResponse) : Pool World Pc :=
  ⟨⟨redis, []⟩, calls.map Pc.call⟩

theorem unique_append_posted {history : List Event} :
    Unique (history ++ [.posted]) ↔ .posted ∉ history ∧ .rejected ∉ history := by
  simp only [Unique, List.count_append, List.pairwise_append, List.mem_singleton, forall_eq,
    List.count_singleton_self, and_true, ← List.count_eq_zero]
  constructor
  · intro h'
    obtain ⟨hc, -, -, hr⟩ := h'
    refine ⟨by omega, ?_⟩
    rw [List.count_eq_zero]
    exact fun hm => hr _ hm rfl
  · intro h'
    obtain ⟨hp, hr⟩ := h'
    rw [List.count_eq_zero] at hp hr
    refine ⟨by simp [List.count_eq_zero.mpr hp], ?_, List.pairwise_singleton _ _, ?_⟩
    · refine List.pairwise_of_forall_mem_list fun a _ b hb => ?_
      intro h'
      obtain ⟨-, rfl⟩ := h'
      exact hp hb
    · rintro a ha rfl
      exact hr ha

theorem unique_of_append {history : List Event} {e : Event} (h : Unique (history ++ [e])) :
    Unique history := by
  obtain ⟨hc, hp⟩ := h
  rw [List.count_append] at hc
  exact ⟨by omega, (List.pairwise_append.mp hp).1⟩

theorem unique_append_rejected {history : List Event} (h : Unique history) :
    Unique (history ++ [.rejected]) := by
  refine ⟨by simpa [List.count_append] using h.1, ?_⟩
  rw [List.pairwise_append]
  refine ⟨h.2, List.pairwise_singleton _ _, ?_⟩
  rintro a - b hb ⟨-, rfl⟩
  simp at hb

/-! ### The key and the events -/

/-- The calls in progress are answers to one card. -/
def OneCard (key : String) (p : Pool World Pc) : Prop :=
  ∀ l ∈ p.threads, ∀ c, l.card? = some c → c.redisKey = key

/-- What the key says about the events: a missing key has been deleted after one, and a call that is about to
delete it has posted. -/
structure Tracked (key : String) (p : Pool World Pc) : Prop where
  card : OneCard key p
  missing : p.shared.redis.get? key = none → p.shared.history ≠ []
  cleaning : ∀ l ∈ p.threads, l.cleaning = true → .posted ∈ p.shared.history

/-- What the events say about the key, while every post is made with the key in hand. -/
structure Spent (key : String) (p : Pool World Pc) : Prop where
  card : OneCard key p
  unique : Unique p.shared.history
  posted : .posted ∈ p.shared.history →
    p.shared.redis.get? key = none ∨ ∃ l ∈ p.threads, l.cleaning = true
  rejected : .rejected ∈ p.shared.history → p.shared.redis.get? key = none

section

variable {key : String} {p q : Pool World Pc} {i : ℕ}

theorem oneCard_set {w : World} {l l' : Pc} (h : OneCard key p) (hl : p.threads[i]? = some l)
    (hc : ∀ c, l'.card? = some c → l.card? = some c) : OneCard key ⟨w, p.threads.set i l'⟩ := by
  intro x hx c hxc
  rcases mem_set_cases hx with rfl | ⟨j, -, hj⟩
  · exact h l (List.mem_of_getElem? hl) c (hc c hxc)
  · exact h x (List.mem_of_getElem? hj) c hxc

theorem tracked_step (hp : Tracked key p) (h : p.stepAt next i = some q) : Tracked key q := by
  obtain ⟨l, w', l', hl, hn, rfl⟩ := stepAt_eq_some h
  have hmem := List.mem_of_getElem? hl
  have hold : ∀ x ∈ p.threads.set i l', x.cleaning = true → l'.cleaning = false →
      .posted ∈ p.shared.history := by
    intro x hx hcl hl'
    rcases mem_set_cases hx with rfl | ⟨j, -, hj⟩
    · rw [hl'] at hcl
      cases hcl
    · exact hp.cleaning x (List.mem_of_getElem? hj) hcl
  cases next_moves hn with
  | quiet hc _ hl' _ =>
      exact ⟨oneCard_set hp.card hl hc, hp.missing, fun x hx hcl => hold x hx hcl hl'⟩
  | posted payload ho =>
      refine ⟨oneCard_set hp.card hl fun _ h => h, fun _ => by simp, fun x hx hcl => by simp⟩
  | cleanUp c i n r =>
      have hposted := hp.cleaning _ hmem rfl
      refine ⟨oneCard_set hp.card hl (card?_done r), fun _ hnil => ?_, fun x hx hcl => hold x hx hcl rfl⟩
      rw [show p.shared.history = [] from hnil] at hposted
      cases hposted
  | rejected c r =>
      refine ⟨oneCard_set hp.card hl (card?_done r), fun _ => by simp, fun x hx hcl => ?_⟩
      exact List.mem_append_left _ (hold x hx hcl rfl)

theorem spent_step (hp : Spent key p) (hg : tokenHeld key p i = true)
    (h : p.stepAt next i = some q) : Spent key q := by
  obtain ⟨l, w', l', hl, hn, rfl⟩ := stepAt_eq_some h
  have hmem := List.mem_of_getElem? hl
  have hkeep : l.cleaning = false → (∃ x ∈ p.threads, x.cleaning = true) →
      ∃ x ∈ p.threads.set i l', x.cleaning = true := by
    intro hlc h
    obtain ⟨x, hx, hcl⟩ := h
    obtain ⟨j, hj, rfl⟩ := List.mem_iff_getElem.mp hx
    have hji : j ≠ i := by
      rintro rfl
      rw [List.getElem?_eq_getElem hj] at hl
      rw [Option.some.inj hl, hlc] at hcl
      cases hcl
    refine ⟨p.threads[j], ?_, hcl⟩
    refine List.mem_of_getElem? (i := j) ?_
    rw [getElem?_set_of_some hl, if_neg hji, List.getElem?_eq_getElem hj]
  cases next_moves hn with
  | quiet hc hlc _ _ =>
      exact ⟨oneCard_set hp.card hl hc, hp.unique, fun hm => (hp.posted hm).imp_right (hkeep hlc),
        hp.rejected⟩
  | posted payload ho =>
      rename_i c i' n
      simp only [tokenHeld, hl, CardResponse.posts, ho, Bool.not_true, Bool.false_or, Bool.and_eq_true,
        List.all_eq_true, Bool.not_eq_true', Option.isSome_iff_ne_none, ne_eq] at hg
      obtain ⟨htoken, hnone⟩ := hg
      have hpost : Event.posted ∉ p.shared.history := by
        intro hm
        rcases hp.posted hm with ht | ⟨x, hx, hcl⟩
        · exact htoken ht
        · rw [hnone x hx] at hcl
          cases hcl
      have hrej : Event.rejected ∉ p.shared.history := fun hm => htoken (hp.rejected hm)
      refine ⟨oneCard_set hp.card hl fun _ h => h, unique_append_posted.mpr ⟨hpost, hrej⟩,
        fun _ => Or.inr ⟨.cleanUp c i' n, ?_, rfl⟩, fun hm => ?_⟩
      · exact List.mem_of_getElem? (i := i) (by rw [getElem?_set_of_some hl, if_pos rfl])
      · simp only [List.mem_append, List.mem_singleton, reduceCtorEq, or_false] at hm
        exact absurd hm hrej
  | cleanUp c i' n r =>
      have hgone : (p.shared.redis.erase c.redisKey).get? key = none := by
        rw [hp.card _ hmem c rfl, Dict.get?_erase_self]
      exact ⟨oneCard_set hp.card hl (card?_done r), hp.unique, fun _ => Or.inl hgone, fun _ => hgone⟩
  | rejected c r =>
      have hgone : (p.shared.redis.erase c.redisKey).get? key = none := by
        rw [hp.card _ hmem c rfl, Dict.get?_erase_self]
      exact ⟨oneCard_set hp.card hl (card?_done r), unique_append_rejected hp.unique, fun _ => Or.inl hgone,
        fun _ => hgone⟩

/-- A post without the key in hand is a second post, or comes after a rejection. -/
theorem not_unique_of_miss (hp : Tracked key p) (hg : ¬tokenHeld key p i = true)
    (h : p.stepAt next i = some q) : ¬Unique q.shared.history := by
  obtain ⟨l, w', l', hl, hn, rfl⟩ := stepAt_eq_some h
  cases next_moves hn with
  | quiet _ _ _ hq =>
      exfalso
      apply hg
      simp only [tokenHeld, hl]
      split
      · rename_i c pl he
        rw [hq c pl (Option.some.inj he)]
        rfl
      · rfl
  | posted payload ho =>
      show ¬Unique (p.shared.history ++ [.posted])
      rw [unique_append_posted]
      intro h'
      obtain ⟨hpost, hrej⟩ := h'
      apply hg
      simp only [tokenHeld, hl, Bool.or_eq_true, Bool.and_eq_true, List.all_eq_true,
        Bool.not_eq_true', Option.isSome_iff_ne_none, ne_eq]
      right
      constructor
      · intro ht
        obtain ⟨e, es, he⟩ := List.exists_cons_of_ne_nil (hp.missing ht)
        cases e with
        | posted => exact hpost (by rw [he]; exact List.mem_cons_self)
        | rejected => exact hrej (by rw [he]; exact List.mem_cons_self)
      · intro x hx
        rw [← Bool.not_eq_true]
        exact fun hcl => hpost (hp.cleaning x hx hcl)
  | cleanUp c i' n r => exact absurd (by simp [tokenHeld, hl]) hg
  | rejected c r => exact absurd (by simp [tokenHeld, hl]) hg

theorem not_unique_stays (hp : ¬Unique p.shared.history) (h : p.stepAt next i = some q) :
    ¬Unique q.shared.history := by
  obtain ⟨l, w', l', hl, hn, rfl⟩ := stepAt_eq_some h
  cases next_moves hn with
  | quiet _ _ _ _ => exact hp
  | posted payload ho => exact fun hu => hp (unique_of_append hu)
  | cleanUp c i' n r => exact hp
  | rejected c r => exact fun hu => hp (unique_of_append hu)

end

/-- **When an approval is carried out once.**  For a stored approval, any number of answers to its card and
any interleaving: the entry is posted at most once and never after a rejection, exactly when every successful
post is made while the key is still stored and no call is between its post and its deletion of the key. -/
theorem unique_iff_guarded (redis : Dict String (Except String Payload)) (approvalId : String)
    (hstored : redis.get? ("je_approval:" ++ approvalId) ≠ none) (calls : List CardResponse)
    (hcalls : ∀ c ∈ calls, c.approvalId = approvalId) (sched : List ℕ) (p : Pool World Pc)
    (h : exec next (start redis calls) sched = some p) :
    Unique p.shared.history ↔
      Guarded next (fun p i => tokenHeld ("je_approval:" ++ approvalId) p i = true)
        (start redis calls) sched := by
  have hcard : OneCard ("je_approval:" ++ approvalId) (start redis calls) := by
    intro l hl c hc
    obtain ⟨c', hc', rfl⟩ := List.mem_map.mp hl
    obtain rfl : c' = c := Option.some.inj hc
    rw [CardResponse.redisKey, hcalls c' hc']
  have hquiet : ∀ l ∈ (start redis calls).threads, l.cleaning = false := by
    intro l hl
    obtain ⟨c', -, rfl⟩ := List.mem_map.mp hl
    rfl
  constructor
  · intro hu
    refine guarded_of_exec (Tracked _) (fun p => ¬Unique p.shared.history)
      (fun _ _ _ hp => tracked_step hp) (fun _ _ _ hp => not_unique_of_miss hp)
      (fun _ _ _ hp => not_unique_stays hp) sched _ p ⟨hcard, fun hno => absurd hno hstored, ?_⟩ h
      (not_not.mpr hu)
    intro l hl hcl
    rw [hquiet l hl] at hcl
    cases hcl
  · intro hg
    refine (exec_invariant (Spent _) (fun _ _ _ hp hg => spent_step hp hg) sched _ p
      ⟨hcard, ?_, fun hm => ?_, fun hm => ?_⟩ hg h).unique
    · exact ⟨Nat.zero_le _, List.Pairwise.nil⟩
    · cases hm
    · cases hm

/-- One stored approval. -/
def oneApproval : Dict String (Except String Payload) :=
  Dict.ofList [("je_approval:a1", .ok ⟨"clients/u/mandates/m", "12"⟩)]

/-- The user clicks twice on approve, and once on reject in another tab. -/
def threeClicks : List CardResponse :=
  [⟨"a1", "approve", "", "", "", .posted "501" "MISC/2026/0001"⟩,
   ⟨"a1", "approve", "", "", "", .posted "502" "MISC/2026/0002"⟩,
   ⟨"a1", "reject", "", "", "", .refused ""⟩]

/-- One click after the other: the entry is posted once, and the later clicks find no approval. -/
theorem unique_of_clicks_in_turn : ∃ p,
    exec next (start oneApproval threeClicks) [0, 0, 0, 1, 2] = some p ∧ Unique p.shared.history := by
  obtain ⟨p, hp⟩ := Option.isSome_iff_exists.mp
    (by decide : (exec next (start oneApproval threeClicks) [0, 0, 0, 1, 2]).isSome = true)
  exact ⟨p, hp, (unique_iff_guarded oneApproval "a1" (by decide) threeClicks (by decide) _ p hp).mpr
    (by decide)⟩

/-- All clicks read the approval before the first post: the entry is posted after the rejection, and posted
again. -/
theorem posted_twice_after_rejection :
    (exec next (start oneApproval threeClicks) [0, 1, 2, 2, 0, 0, 1, 1]).map
      (fun p => p.shared.history) = some [.rejected, .posted, .posted] ∧
      ¬Unique [.rejected, .posted, .posted] :=
  ⟨by decide, fun h => absurd h.1 (by decide)⟩

end Pinnokio.Approval
