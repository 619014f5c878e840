import Pinnokio.Communication.Wizard

/-!
# The texts of a chat with several wizards

A text names no wizard, so it is for the one that the pointer of the chat is at.  The pointer is set when a wizard is
opened and when a callback leads to a step that waits for a text, and it is deleted when any wizard of the chat is
completed.  Whom the user answers is another question: the wizard whose step message came last.

* `answering`, `inbound_cases` — whose current step an event answers, and what it then does to Redis;
* `outbound_of_asks`, `outbound_of_asks_none` — `asks` names the wizard whose step message an event sends;
* `aimed_of_reaches`, `reaches_of_aimed` — texts reach the wizard that asked last exactly when the pointer is at it;
* `KeepsAim`, `aimed_step` — an event takes the pointer away from a wizard that waits for a text when it completes
  another one, or points to another one whose message is not delivered;
* `text_reaches_asker_iff` — **texts reach the wizard that asked last** exactly in the runs without such an event.
-/

namespace Pinnokio.Communication

open Pinnokio.Runs Pinnokio.Text

/-- `uuid.uuid4().hex[:6]`, which is never empty. -/
structure WizardId where
  id : String
  ne_empty : id ≠ ""

/-- A chat, with the wizard whose step message was sent most recently. -/
structure Chat where
  world : World
  asked : Option String

/-- What happens in a chat: a card opens a wizard, or an event comes in. -/
inductive ChatEvent where
  | opened (card : Card) (wizardId : WizardId) (delivers : Bool)
  | inbound (i : Inbound)

/-- A chat without wizards. -/
def Chat.start : Chat := ⟨⟨⟨Dict.empty, Dict.empty⟩, [], [], []⟩, none⟩

/-! ### Whose step an event answers -/

/-- The wizard that a text answers. -/
def answeringText (chatId : ℤ) (w : World) : Option (String × WizardState) :=
  match w.redis.active.get? (activeKey chatId) with
  | none => none
  | some wizardId =>
      if wizardId = "" then none
      else
        match w.redis.wizards.get? (wizardKey chatId wizardId) with
        | none => none
        | some state => if state.awaitsText then some (wizardId, state) else none

/-- The wizard that a callback answers. -/
def answeringCallback (chatId : ℤ) (w : World) (callbackData : String) : Option (String × WizardState) :=
  match parseCallback callbackData with
  | none => none
  | some (wizardId, stepIdx, _) =>
      match w.redis.wizards.get? (wizardKey chatId wizardId) with
      | none => none
      | some state =>
          if stepIdx = state.currentStep ∧ state.currentStep < state.steps.length then some (wizardId, state) else none

/-- The wizard that an event answers, as it is before. -/
def answering (chatId : ℤ) (w : World) (i : Inbound) : Option (String × WizardState) :=
  match i.sender? chatId with
  | none => none
  | some _ =>
      match i.content with
      | .message _ => answeringText chatId w
      | .callback data => if startsWith data "w:" then answeringCallback chatId w data else none

/-- The wizard whose step message an event sends. -/
def asks (chatId : ℤ) (w : World) : ChatEvent → Option String
  | .opened card wizardId delivers => if card.steps ≠ [] ∧ delivers = true then some wizardId.id else none
  | .inbound i =>
      match answering chatId w i with
      | none => none
      | some (wizardId, state) =>
          if state.currentStep + 1 < state.steps.length ∧ i.delivers = true then some wizardId else none

/-- One event of a chat. -/
def Chat.step (chatId : ℤ) (c : Chat) (e : ChatEvent) : Chat where
  world := match e with
    | .opened card wizardId delivers => sendTelegramWizard c.world chatId card wizardId.id delivers
    | .inbound i => handleTelegramInbound c.world chatId i
  asked := (asks chatId c.world e).or c.asked

/-- The wizard that asked last waits for a text. -/
structure Chat.Waits (chatId : ℤ) (c : Chat) (wizardId : String) (state : WizardState) : Prop where
  asked : c.asked = some wizardId
  get : c.world.redis.wizards.get? (wizardKey chatId wizardId) = some state
  awaits : state.awaitsText = true

/-- **Texts reach the wizard that asked last**: if it waits for one, the next text of the chat, whoever of its users
sends it, is recorded as the answer of the current step. -/
def TextReachesAsker (chatId : ℤ) (c : Chat) : Prop :=
  ∀ wizardId state, c.Waits chatId wizardId state → ∀ (i : Inbound) (text : String), i.content = .message text →
    (i.sender? chatId).isSome → Moves chatId wizardId i c.world (handleTelegramInbound c.world chatId i) (some text)

/-- An event leaves the pointer at the wizard that asked last, if that one waits for a text: it opens no other wizard
whose message is not delivered, and it does not answer the last step of another wizard, or lead it to a text without
delivering the message. -/
def KeepsAim (chatId : ℤ) (c : Chat) (e : ChatEvent) : Prop :=
  chatId ≠ 0 → ∀ wizardId state, c.Waits chatId wizardId state →
    match e with
    | .opened card id delivers => card.steps = [] ∨ id.id = wizardId ∨ delivers = true
    | .inbound i =>
        ∀ id other, answering chatId c.world i = some (id, other) → id ≠ wizardId →
          other.currentStep + 1 < other.steps.length ∧
            (i.delivers = true ∨ other.steps[other.currentStep + 1]?.any Step.isText = false)

section Event

variable {chatId : ℤ} {w : World} {i : Inbound}

/-- The pointer is at no wizard. -/
def Dangles (chatId : ℤ) (w : World) : Prop :=
  ∃ id, w.redis.active.get? (activeKey chatId) = some id ∧ w.redis.wizards.get? (wizardKey chatId id) = none

/-- What an event does to Redis when it answers a wizard; a text answers the one that the pointer is at. -/
structure Answers (chatId : ℤ) (w w' : World) (i : Inbound) (wizardId : String) (state : WizardState)
    (user : User) (answer : String) (points : Bool) : Prop where
  get : w.redis.wizards.get? (wizardKey chatId wizardId) = some state
  lt : state.currentStep < state.steps.length
  pointed : points = false → w.redis.active.get? (activeKey chatId) = some wizardId
  redis : w'.redis = (advance w chatId wizardId state answer i user points).redis
  outbound : w'.outbound = (advance w chatId wizardId state answer i user points).outbound

/-- An event that answers no wizard may take a pointer away that is at none. -/
structure Ignores (chatId : ℤ) (w w' : World) : Prop where
  wizards : w'.redis.wizards = w.redis.wizards
  active : w'.redis.active = w.redis.active ∨ Dangles chatId w
  outbound : w'.outbound = w.outbound

/-- What an event does, by the wizard that it answers. -/
def Does (chatId : ℤ) (w w' : World) (i : Inbound) : Option (String × WizardState) → Prop
  | none => Ignores chatId w w'
  | some (wizardId, state) => ∃ user answer points, Answers chatId w w' i wizardId state user answer points

theorem text_does (text : String) (user : User) :
    Does chatId w (checkWizardTextInput w chatId text i user).1 i (answeringText chatId w) := by
  unfold checkWizardTextInput answeringText
  cases hactive : w.redis.active.get? (activeKey chatId) with
  | none => exact ⟨rfl, .inl rfl, rfl⟩
  | some id =>
      dsimp only
      by_cases hempty : id = ""
      · rw [if_pos hempty, if_pos hempty]
        exact ⟨rfl, .inl rfl, rfl⟩
      · rw [if_neg hempty, if_neg hempty]
        cases hget : w.redis.wizards.get? (wizardKey chatId id) with
        | none => exact ⟨rfl, .inr ⟨id, hactive, hget⟩, rfl⟩
        | some state =>
            dsimp only
            by_cases hawaits : state.awaitsText = true
            · rw [if_pos hawaits, if_pos hawaits]
              exact ⟨user, text, false, hget, lt_of_awaitsText hawaits, fun _ => hactive, rfl, rfl⟩
            · rw [if_neg hawaits, if_neg hawaits]
              exact ⟨rfl, .inl rfl, rfl⟩

theorem callback_does (callbackData : String) (user : User) :
    Does chatId w (handleWizardCallback w chatId callbackData i user) i
      (answeringCallback chatId w callbackData) := by
  unfold handleWizardCallback answeringCallback
  cases hparse : parseCallback callbackData with
  | none => exact ⟨rfl, .inl rfl, rfl⟩
  | some parsed =>
      obtain ⟨id, stepIdx, value⟩ := parsed
      dsimp only
      cases hget : w.redis.wizards.get? (wizardKey chatId id) with
      | none => exact ⟨rfl, .inl rfl, rfl⟩
      | some state =>
          dsimp only
          by_cases hcurrent : stepIdx = state.currentStep ∧ state.currentStep < state.steps.length
          · rw [if_pos hcurrent, if_neg (not_not_intro hcurrent.1), if_neg (Nat.not_le_of_lt hcurrent.2)]
            exact ⟨user, answerOf value, true, hget, hcurrent.2, Bool.noConfusion, rfl, rfl⟩
          · rw [if_neg hcurrent]
            by_cases hstep : stepIdx = state.currentStep
            · have hle : state.steps.length ≤ state.currentStep := by
                by_contra hlt
                exact hcurrent ⟨hstep, by omega⟩
              rw [if_neg (not_not_intro hstep), if_pos hle]
              exact ⟨rfl, .inl rfl, rfl⟩
            · rw [if_pos hstep]
              exact ⟨rfl, .inl rfl, rfl⟩

/-- **What an event does to Redis and to the outbound topic.** -/
theorem inbound_cases (w : World) (i : Inbound) :
    Does chatId w (handleTelegramInbound w chatId i) i (answering chatId w i) := by
  unfold handleTelegramInbound answering
  cases i.sender? chatId with
  | none => exact ⟨rfl, .inl rfl, rfl⟩
  | some user =>
      cases i.content with
      | message text =>
          have hdoes : Does chatId w (checkWizardTextInput w chatId text i user).1 i (answeringText chatId w) :=
            text_does text user
          dsimp only
          split
          · exact hdoes
          · -- what is passed on changes neither Redis nor the topic
            revert hdoes
            cases answeringText chatId w with
            | none => exact fun h => ⟨h.wizards, h.active, h.outbound⟩
            | some answered => exact fun ⟨user, answer, points, h⟩ =>
                ⟨user, answer, points, h.get, h.lt, h.pointed, h.redis, h.outbound⟩
      | callback data =>
          dsimp only
          split
          · exact callback_does data user
          · exact ⟨rfl, .inl rfl, rfl⟩

end Event

/-! ### The wizards and the pointer after an event -/

section Redis

variable {chatId : ℤ} {w w' : World} {i : Inbound} {wizardId : String} {state : WizardState} {user : User}
  {answer : String} {points : Bool}

/-- What the next step waits for. -/
theorem awaitsText_record (state : WizardState) (answer : String) :
    (state.record answer).awaitsText = state.steps[state.currentStep + 1]?.any Step.isText := by
  have hnext : (state.steps.modify state.currentStep fun step => { step with selected := some answer })[
      state.currentStep + 1]? = state.steps[state.currentStep + 1]? :=
    List.getElem?_modify_ne _ _ (Nat.succ_ne_self _).symm
  unfold WizardState.awaitsText WizardState.record
  dsimp only
  rw [hnext]

/-- Redis after the answer to a step that is not the last one. -/
theorem redis_advance_of_lt (h : state.currentStep + 1 < state.steps.length) (answer : String) (points : Bool) :
    (advance w chatId wizardId state answer i user points).redis =
      ⟨w.redis.wizards.set (wizardKey chatId wizardId) (state.record answer),
        if points && (state.record answer).awaitsText then w.redis.active.set (activeKey chatId) wizardId
        else w.redis.active⟩ := by
  have hmore : ¬(state.record answer).steps.length ≤ (state.record answer).currentStep := by
    rw [length_record]
    exact Nat.not_le_of_lt h
  rw [advance, if_neg hmore]

namespace Answers

/-- The last answer takes the wizard and the pointer away. -/
theorem of_last (h : Answers chatId w w' i wizardId state user answer points)
    (hlast : ¬state.currentStep + 1 < state.steps.length) :
    w'.redis = ⟨w.redis.wizards.erase (wizardKey chatId wizardId), w.redis.active.erase (activeKey chatId)⟩ := by
  have hle : state.steps.length ≤ state.currentStep + 1 := Nat.le_of_not_lt hlast
  rw [h.redis]
  obtain ⟨outbound, hw⟩ := advance_of_last hle answer points
  rw [hw]

/-- Any other answer leaves the pointer at the wizard if the next step waits for a text. -/
theorem active_of_lt (h : Answers chatId w w' i wizardId state user answer points)
    (hlt : state.currentStep + 1 < state.steps.length) (hnext : (state.record answer).awaitsText = true) :
    w'.redis.active.get? (activeKey chatId) = some wizardId := by
  rw [h.redis, redis_advance_of_lt hlt, hnext]
  cases points with
  | true => exact Dict.get?_set_self ..
  | false => exact h.pointed rfl

/-- Otherwise the pointer stays where it is. -/
theorem active_of_not_awaits (h : Answers chatId w w' i wizardId state user answer points)
    (hlt : state.currentStep + 1 < state.steps.length) (hnext : (state.record answer).awaitsText = false) :
    w'.redis.active = w.redis.active := by
  rw [h.redis, redis_advance_of_lt hlt, hnext, Bool.and_false]
  rfl

/-- The wizard that is answered. -/
theorem get_of_lt (h : Answers chatId w w' i wizardId state user answer points)
    (hlt : state.currentStep + 1 < state.steps.length) :
    w'.redis.wizards.get? (wizardKey chatId wizardId) = some (state.record answer) := by
  rw [h.redis, redis_advance_of_lt hlt]
  exact Dict.get?_set_self ..

/-- The other wizards. -/
theorem get_of_ne (h : Answers chatId w w' i wizardId state user answer points) {id : String}
    (hne : id ≠ wizardId) :
    w'.redis.wizards.get? (wizardKey chatId id) = w.redis.wizards.get? (wizardKey chatId id) := by
  rw [h.redis]
  exact (advance_ne hne.symm answer points).1

end Answers

end Redis

/-! ### The pointer and the wizard that asked last -/

/-- The pointer is at the wizard that asked last, if that one waits for a text. -/
def Aimed (chatId : ℤ) (c : Chat) : Prop :=
  ∀ wizardId state, c.Waits chatId wizardId state → c.world.redis.active.get? (activeKey chatId) = some wizardId

/-- No wizard has the empty string for an id. -/
def Named (chatId : ℤ) (c : Chat) : Prop := c.world.redis.wizards.get? (wizardKey chatId "") = none

section Aim

variable {chatId : ℤ} {c : Chat}

/-- **The pointer at the wizard that asked last** is enough for its text. -/
theorem reaches_of_aimed (hnamed : Named chatId c) (haimed : Aimed chatId c) : TextReachesAsker chatId c := by
  intro wizardId state hwaits i text hcontent hsender
  have hempty : wizardId ≠ "" := by
    rintro rfl
    cases hnamed.symm.trans hwaits.get
  have htext : acceptedText chatId wizardId c.world text = some text := by
    rw [acceptedText, hwaits.get]
    exact if_pos ⟨haimed wizardId state hwaits, hempty, hwaits.awaits⟩
  have haccepted : accepted chatId wizardId c.world i = some text := by
    obtain ⟨user, hsome⟩ := Option.isSome_iff_exists.mp hsender
    rw [accepted, hsome, hcontent]
    exact htext
  rw [← haccepted]
  exact inbound_moves c.world i

/-- An event that answers a wizard does not leave it alone. -/
theorem not_moves_some {wizardId answer : String} {w w' : World} (h : Moves chatId wizardId i w w' none) :
    ¬Moves chatId wizardId i w w' (some answer) := by
  rintro ⟨state, hget, -, hmoves⟩
  have hsame : w'.redis.wizards.get? (wizardKey chatId wizardId) = some state := h.1.trans hget
  split at hmoves
  · cases hmoves.1.symm.trans hsame
  · have hrecord : state.record answer = state := Option.some.inj (hmoves.1.symm.trans hsame)
    exact Nat.succ_ne_self _ (congrArg WizardState.currentStep hrecord)

/-- The pointer has to be there. -/
theorem aimed_of_reaches (hchat : chatId ≠ 0) (h : TextReachesAsker chatId c) : Aimed chatId c := by
  intro wizardId state hwaits
  by_contra hactive
  let text : Inbound := ⟨.message "", "mandate", some ⟨"user", "company"⟩, true⟩
  have hsender : text.sender? chatId = some ⟨"user", "company"⟩ := by
    simp [text, Inbound.sender?, hchat]
  have hmoves : Moves chatId wizardId text c.world (handleTelegramInbound c.world chatId text)
      (accepted chatId wizardId c.world text) := inbound_moves c.world text
  rw [accepted, hsender] at hmoves
  dsimp only [text] at hmoves
  rw [acceptedText_of_ne hactive] at hmoves
  exact not_moves_some hmoves (h wizardId state hwaits text "" rfl (by rw [hsender]; rfl))

end Aim

/-! ### One event -/

section Step

variable {chatId : ℤ} {c : Chat}

/-- A wizard that waits and is not touched. -/
theorem waits_congr {c' : Chat} {wizardId : String} {state : WizardState} (hasked : c'.asked = c.asked)
    (hget : c'.world.redis.wizards.get? (wizardKey chatId wizardId) =
      c.world.redis.wizards.get? (wizardKey chatId wizardId)) :
    c'.Waits chatId wizardId state ↔ c.Waits chatId wizardId state :=
  ⟨fun h => ⟨hasked ▸ h.asked, hget ▸ h.get, h.awaits⟩, fun h => ⟨hasked ▸ h.asked, hget ▸ h.get, h.awaits⟩⟩

/-- An event that sends no step message. -/
theorem asked_of_asks_none {e : ChatEvent} (h : asks chatId c.world e = none) : (c.step chatId e).asked = c.asked := by
  show (asks chatId c.world e).or c.asked = c.asked
  rw [h, Option.none_or]

/-- A card without steps opens nothing. -/
theorem step_opened_nil {card : Card} (h : card.steps = []) (wizardId : WizardId) (delivers : Bool) :
    c.step chatId (.opened card wizardId delivers) = c := by
  have hasks : asks chatId c.world (.opened card wizardId delivers) = none := if_neg fun hne => hne.1 h
  rw [Chat.step, hasks, Option.none_or, sendTelegramWizard, if_pos h]

/-- Redis after a wizard is opened. -/
theorem redis_opened {card : Card} (h : card.steps ≠ []) (wizardId : WizardId) (delivers : Bool) :
    (c.step chatId (.opened card wizardId delivers)).world.redis =
      ⟨c.world.redis.wizards.set (wizardKey chatId wizardId.id) (card.wizard chatId wizardId.id),
        c.world.redis.active.set (activeKey chatId) wizardId.id⟩ := by
  rw [Chat.step, sendTelegramWizard, if_neg h]

/-- **A wizard is opened.** -/
theorem aimed_opened (hchat : chatId ≠ 0) (card : Card) (wizardId : WizardId) (delivers : Bool)
    (h : Aimed chatId c) :
    Aimed chatId (c.step chatId (.opened card wizardId delivers)) ↔
      KeepsAim chatId c (.opened card wizardId delivers) := by
  by_cases hsteps : card.steps = []
  · rw [step_opened_nil hsteps]
    exact ⟨fun _ _ _ _ _ => .inl hsteps, fun _ => h⟩
  · have hredis : (c.step chatId (.opened card wizardId delivers)).world.redis =
        ⟨c.world.redis.wizards.set (wizardKey chatId wizardId.id) (card.wizard chatId wizardId.id),
          c.world.redis.active.set (activeKey chatId) wizardId.id⟩ := redis_opened hsteps wizardId delivers
    have hactive : (c.step chatId (.opened card wizardId delivers)).world.redis.active.get? (activeKey chatId) =
        some wizardId.id := by
      rw [hredis]
      exact Dict.get?_set_self ..
    have hother {id : String} (hne : wizardId.id ≠ id) :
        (c.step chatId (.opened card wizardId delivers)).world.redis.wizards.get? (wizardKey chatId id) =
          c.world.redis.wizards.get? (wizardKey chatId id) := by
      rw [hredis]
      exact Dict.get?_set_ne _ _ (wizardKey_ne hne).symm
    have hquiet (hdelivers : ¬delivers = true) :
        (c.step chatId (.opened card wizardId delivers)).asked = c.asked :=
      asked_of_asks_none (if_neg fun hboth => hdelivers hboth.2)
    constructor
    · intro haimed _ id state hwaits
      by_contra hmiss
      obtain ⟨-, hne, hdelivers⟩ : card.steps ≠ [] ∧ wizardId.id ≠ id ∧ ¬delivers = true := by
        simpa only [not_or] using hmiss
      have hkept : (c.step chatId (.opened card wizardId delivers)).Waits chatId id state :=
        (waits_congr (hquiet hdelivers) (hother hne)).mpr hwaits
      exact hne (Option.some.inj (hactive.symm.trans (haimed id state hkept)))
    · intro hkeeps id state hwaits
      rw [hactive]
      by_contra hne
      have hne : wizardId.id ≠ id := fun heq => hne (congrArg some heq)
      by_cases hdelivers : delivers = true
      · have hasks : asks chatId c.world (.opened card wizardId delivers) = some wizardId.id :=
          if_pos ⟨hsteps, hdelivers⟩
        have hasked := hwaits.asked
        rw [Chat.step, hasks] at hasked
        exact hne (Option.some.inj hasked)
      · have hbefore : c.Waits chatId id state := (waits_congr (hquiet hdelivers) (hother hne)).mp hwaits
        rcases hkeeps hchat id state hbefore with hnil | heq | hsent
        · exact hsteps hnil
        · exact hne heq
        · exact hdelivers hsent

/-- What an inbound event asks, by the wizard that it answers. -/
theorem asks_inbound {i : Inbound} {wizardId : String} {state : WizardState}
    (h : answering chatId c.world i = some (wizardId, state)) :
    asks chatId c.world (.inbound i) =
      if state.currentStep + 1 < state.steps.length ∧ i.delivers = true then some wizardId else none := by
  rw [asks, h]

/-- An event that sends one. -/
theorem asked_of_asks_some {e : ChatEvent} {wizardId : String} (h : asks chatId c.world e = some wizardId) :
    (c.step chatId e).asked = some wizardId := by
  change (asks chatId c.world e).or c.asked = some wizardId
  rw [h, Option.some_or]

/-- An event that answers no wizard. -/
theorem aimed_ignored {i : Inbound} (hnone : answering chatId c.world i = none) (h : Aimed chatId c) :
    Aimed chatId (c.step chatId (.inbound i)) := by
  have hdoes : Does chatId c.world (c.step chatId (.inbound i)).world i (answering chatId c.world i) :=
    inbound_cases c.world i
  rw [hnone] at hdoes
  have hignores : Ignores chatId c.world (c.step chatId (.inbound i)).world := hdoes
  have hasks : asks chatId c.world (.inbound i) = none := by rw [asks, hnone]
  intro wizardId state hwaits
  have hbefore : c.Waits chatId wizardId state :=
    (waits_congr (asked_of_asks_none hasks) (by rw [hignores.wizards])).mp hwaits
  rcases hignores.active with hsame | ⟨id, hid, hgone⟩
  · rw [hsame]
    exact h wizardId state hbefore
  · -- the pointer is at the wizard that waits, which is there
    obtain rfl : wizardId = id := Option.some.inj ((h wizardId state hbefore).symm.trans hid)
    cases hgone.symm.trans hbefore.get

/-- **A wizard is completed**: no text reaches any wizard until the next one is opened or answered. -/
theorem aimed_completed {i : Inbound} {wizardId : String} {other : WizardState}
    (hsome : answering chatId c.world i = some (wizardId, other))
    (hlast : ¬other.currentStep + 1 < other.steps.length) :
    Aimed chatId (c.step chatId (.inbound i)) ↔ ∀ id state, c.Waits chatId id state → id = wizardId := by
  have hdoes : Does chatId c.world (c.step chatId (.inbound i)).world i (answering chatId c.world i) :=
    inbound_cases c.world i
  rw [hsome] at hdoes
  obtain ⟨user, answer, points, hanswers⟩ := hdoes
  have hactive : (c.step chatId (.inbound i)).world.redis.active.get? (activeKey chatId) = none := by
    rw [hanswers.of_last hlast]
    exact Dict.get?_erase_self ..
  have hasks : asks chatId c.world (.inbound i) = none := by
    rw [asks_inbound hsome, if_neg fun hboth => hlast hboth.1]
  constructor
  · intro haimed id state hwaits
    by_contra hne
    have hkept : (c.step chatId (.inbound i)).Waits chatId id state :=
      (waits_congr (asked_of_asks_none hasks) (hanswers.get_of_ne hne)).mpr hwaits
    cases hactive.symm.trans (haimed id state hkept)
  · intro honly id state hwaits
    by_cases heq : id = wizardId
    · subst heq
      have hgone : (c.step chatId (.inbound i)).world.redis.wizards.get? (wizardKey chatId id) = none := by
        rw [hanswers.of_last hlast]
        exact Dict.get?_erase_self ..
      cases hgone.symm.trans hwaits.get
    · exact absurd (honly id state ((waits_congr (asked_of_asks_none hasks) (hanswers.get_of_ne heq)).mp hwaits)) heq

/-- **A wizard goes on**, and its message is delivered. -/
theorem aimed_delivered {i : Inbound} {wizardId : String} {other : WizardState}
    (hsome : answering chatId c.world i = some (wizardId, other))
    (hlt : other.currentStep + 1 < other.steps.length) (hdelivers : i.delivers = true) :
    Aimed chatId (c.step chatId (.inbound i)) := by
  have hdoes : Does chatId c.world (c.step chatId (.inbound i)).world i (answering chatId c.world i) :=
    inbound_cases c.world i
  rw [hsome] at hdoes
  obtain ⟨user, answer, points, hanswers⟩ := hdoes
  have hasks : asks chatId c.world (.inbound i) = some wizardId := by
    rw [asks_inbound hsome, if_pos ⟨hlt, hdelivers⟩]
  intro id state hwaits
  obtain rfl : wizardId = id := Option.some.inj ((asked_of_asks_some hasks).symm.trans hwaits.asked)
  obtain rfl : other.record answer = state := Option.some.inj ((hanswers.get_of_lt hlt).symm.trans hwaits.get)
  exact hanswers.active_of_lt hlt hwaits.awaits

/-- **A wizard goes on**, and its message is not delivered. -/
theorem aimed_undelivered {i : Inbound} {wizardId : String} {other : WizardState}
    (hsome : answering chatId c.world i = some (wizardId, other))
    (hlt : other.currentStep + 1 < other.steps.length) (hdelivers : ¬i.delivers = true) (h : Aimed chatId c) :
    Aimed chatId (c.step chatId (.inbound i)) ↔ ∀ id state, c.Waits chatId id state → wizardId ≠ id →
      other.steps[other.currentStep + 1]?.any Step.isText = false := by
  have hdoes : Does chatId c.world (c.step chatId (.inbound i)).world i (answering chatId c.world i) :=
    inbound_cases c.world i
  rw [hsome] at hdoes
  obtain ⟨user, answer, points, hanswers⟩ := hdoes
  have hasks : asks chatId c.world (.inbound i) = none := by
    rw [asks_inbound hsome, if_neg fun hboth => hdelivers hboth.2]
  rw [← awaitsText_record other answer]
  constructor
  · intro haimed id state hwaits hne
    by_contra hnext
    have hkept : (c.step chatId (.inbound i)).Waits chatId id state :=
      (waits_congr (asked_of_asks_none hasks) (hanswers.get_of_ne hne.symm)).mpr hwaits
    have hactive := hanswers.active_of_lt hlt (Bool.eq_true_of_not_eq_false hnext)
    exact hne (Option.some.inj (hactive.symm.trans (haimed id state hkept)))
  · intro hkeeps id state hwaits
    by_cases heq : id = wizardId
    · subst heq
      obtain rfl : other.record answer = state := Option.some.inj ((hanswers.get_of_lt hlt).symm.trans hwaits.get)
      exact hanswers.active_of_lt hlt hwaits.awaits
    · have hbefore : c.Waits chatId id state :=
        (waits_congr (asked_of_asks_none hasks) (hanswers.get_of_ne heq)).mp hwaits
      rw [hanswers.active_of_not_awaits hlt (hkeeps id state hbefore (Ne.symm heq))]
      exact h id state hbefore

/-- **An event comes in.** -/
theorem aimed_inbound (hchat : chatId ≠ 0) (i : Inbound) (h : Aimed chatId c) :
    Aimed chatId (c.step chatId (.inbound i)) ↔ KeepsAim chatId c (.inbound i) := by
  cases hanswering : answering chatId c.world i with
  | none =>
      refine ⟨fun _ _ _ _ _ id other hsome => ?_, fun _ => aimed_ignored hanswering h⟩
      cases hanswering.symm.trans hsome
  | some answered =>
      obtain ⟨wizardId, other⟩ := answered
      have hkeeps : KeepsAim chatId c (.inbound i) ↔ ∀ id state, c.Waits chatId id state → wizardId ≠ id →
          other.currentStep + 1 < other.steps.length ∧
            (i.delivers = true ∨ other.steps[other.currentStep + 1]?.any Step.isText = false) := by
        constructor
        · exact fun hkeeps id state hwaits => hkeeps hchat id state hwaits wizardId other hanswering
        · intro hall _ id state hwaits id' other' hsome
          cases hanswering.symm.trans hsome
          exact hall id state hwaits
      rw [hkeeps]
      by_cases hlt : other.currentStep + 1 < other.steps.length
      · by_cases hdelivers : i.delivers = true
        · exact ⟨fun _ _ _ _ _ => ⟨hlt, .inl hdelivers⟩, fun _ => aimed_delivered hanswering hlt hdelivers⟩
        · rw [aimed_undelivered hanswering hlt hdelivers h]
          simp only [hlt, eq_false_of_ne_true hdelivers, Bool.false_eq_true, true_and, false_or]
      · rw [aimed_completed hanswering hlt]
        constructor
        · exact fun honly id state hwaits hne => absurd (honly id state hwaits).symm hne
        · intro hall id state hwaits
          by_contra hne
          exact hlt (hall id state hwaits (Ne.symm hne)).1

/-- **The pointer stays at the wizard that asked last** exactly when the event leaves it there. -/
theorem aimed_step (hchat : chatId ≠ 0) (e : ChatEvent) (h : Aimed chatId c) :
    Aimed chatId (c.step chatId e) ↔ KeepsAim chatId c e := by
  cases e with
  | opened card wizardId delivers => exact aimed_opened hchat card wizardId delivers h
  | inbound i => exact aimed_inbound hchat i h

theorem named_step (e : ChatEvent) (h : Named chatId c) : Named chatId (c.step chatId e) := by
  cases e with
  | opened card wizardId delivers =>
      by_cases hsteps : card.steps = []
      · rw [step_opened_nil hsteps]
        exact h
      · rw [Named, redis_opened hsteps]
        exact (Dict.get?_set_ne _ _ (wizardKey_ne wizardId.ne_empty).symm).trans h
  | inbound i =>
      have hmoves : Moves chatId "" i c.world (c.step chatId (.inbound i)).world (accepted chatId "" c.world i) :=
        inbound_moves c.world i
      cases haccepted : accepted chatId "" c.world i with
      | none =>
          rw [haccepted] at hmoves
          exact hmoves.1.trans h
      | some answer =>
          rw [haccepted] at hmoves
          obtain ⟨state, hget, -⟩ := hmoves
          cases h.symm.trans hget

/-- A wizard with a current step has a message for it. -/
theorem exists_sendWizardStep {state : WizardState} (h : state.currentStep < state.steps.length) :
    ∃ message, sendWizardStep state = some message := by
  rw [sendWizardStep, List.getElem?_eq_getElem h]
  exact ⟨_, rfl⟩

/-- A confirmation is a message without buttons. -/
theorem completeWizard_confirms {state : WizardState} {user : User} {mandatePath : String} {delivers : Bool}
    {message : Outbound} (h : message ∈ (completeWizard state user mandatePath delivers).1) :
    ∃ text, message = .message state.chatId text mandatePath := by
  unfold completeWizard at h
  split at h
  · cases h
  · split at h
    · cases h
      exact ⟨_, rfl⟩
    · cases h

/-- **What an event publishes**: the step message of the wizard that it asks. -/
theorem outbound_of_asks {e : ChatEvent} {wizardId : String} (h : asks chatId c.world e = some wizardId) :
    ∃ state message, (c.step chatId e).world.redis.wizards.get? (wizardKey chatId wizardId) = some state ∧
      sendWizardStep state = some message ∧
      (c.step chatId e).world.outbound = c.world.outbound ++ [message] := by
  cases e with
  | opened card id delivers =>
      have hopens : card.steps ≠ [] ∧ delivers = true := by
        by_contra hnot
        cases (if_neg hnot).symm.trans h
      obtain rfl : id.id = wizardId := Option.some.inj ((if_pos hopens).symm.trans h)
      obtain ⟨message, hmessage⟩ := exists_sendWizardStep
        (show (card.wizard chatId id.id).currentStep < (card.wizard chatId id.id).steps.length from
          List.length_pos_of_ne_nil hopens.1)
      refine ⟨card.wizard chatId id.id, message, ?_, hmessage, ?_⟩
      · rw [redis_opened hopens.1]
        exact Dict.get?_set_self ..
      · rw [Chat.step, sendTelegramWizard, if_neg hopens.1]
        dsimp only
        rw [if_pos hopens.2, hmessage]
        rfl
  | inbound i =>
      cases hanswering : answering chatId c.world i with
      | none =>
          rw [asks, hanswering] at h
          cases h
      | some answered =>
          obtain ⟨id, other⟩ := answered
          rw [asks_inbound hanswering] at h
          split at h
          · next hlt =>
            cases h
            have hdoes : Does chatId c.world (c.step chatId (.inbound i)).world i (answering chatId c.world i) :=
              inbound_cases c.world i
            rw [hanswering] at hdoes
            obtain ⟨user, answer, points, hanswers⟩ := hdoes
            have hmore : (other.record answer).currentStep < (other.record answer).steps.length := by
              rw [length_record]
              exact hlt.1
            obtain ⟨message, hmessage⟩ := exists_sendWizardStep hmore
            refine ⟨other.record answer, message, hanswers.get_of_lt hlt.1, hmessage, ?_⟩
            rw [hanswers.outbound, advance, if_neg (Nat.not_le_of_lt hmore)]
            dsimp only
            rw [if_pos hlt.2, hmessage]
            rfl
          · cases h

/-- Any other event publishes confirmations only. -/
theorem outbound_of_asks_none {e : ChatEvent} (h : asks chatId c.world e = none) :
    ∃ confirmations, (c.step chatId e).world.outbound = c.world.outbound ++ confirmations ∧
      ∀ message ∈ confirmations, ∃ chat text mandatePath, message = .message chat text mandatePath := by
  cases e with
  | opened card id delivers =>
      refine ⟨[], ?_, by simp⟩
      by_cases hsteps : card.steps = []
      · rw [step_opened_nil hsteps, List.append_nil]
      · have hnot : ¬delivers = true := by
          intro hdelivers
          cases (if_pos ⟨hsteps, hdelivers⟩).symm.trans h
        rw [Chat.step, sendTelegramWizard, if_neg hsteps]
        dsimp only
        rw [if_neg hnot]
  | inbound i =>
      have hdoes : Does chatId c.world (c.step chatId (.inbound i)).world i (answering chatId c.world i) :=
        inbound_cases c.world i
      cases hanswering : answering chatId c.world i with
      | none =>
          rw [hanswering] at hdoes
          have hignores : Ignores chatId c.world (c.step chatId (.inbound i)).world := hdoes
          exact ⟨[], by rw [hignores.outbound, List.append_nil], by simp⟩
      | some answered =>
          obtain ⟨id, other⟩ := answered
          rw [hanswering] at hdoes
          obtain ⟨user, answer, points, hanswers⟩ := hdoes
          rw [asks_inbound hanswering] at h
          rw [hanswers.outbound, advance, length_record]
          by_cases hlast : other.steps.length ≤ (other.record answer).currentStep
          · rw [if_pos hlast]
            refine ⟨_, rfl, fun message hmem => ?_⟩
            obtain ⟨text, rfl⟩ := completeWizard_confirms (Option.mem_toList.mp hmem)
            exact ⟨_, _, _, rfl⟩
          · have hnot : ¬i.delivers = true := by
              intro hdelivers
              cases (if_pos ⟨Nat.lt_of_not_le hlast, hdelivers⟩).symm.trans h
            rw [if_neg hlast]
            dsimp only
            rw [if_neg hnot]
            exact ⟨[], rfl, by simp⟩

end Step

/-! ### Runs -/

/-- **Texts reach the wizard that asked last**, at every point of a run, exactly when no event of the run takes the
pointer away from a wizard that waits for a text. -/
theorem text_reaches_asker_iff (chatId : ℤ) (events : List ChatEvent) :
    (∀ pre, pre <+: events → TextReachesAsker chatId (run (Chat.step chatId) Chat.start pre)) ↔
      Guarded (Chat.step chatId) (KeepsAim chatId) Chat.start events := by
  apply forall_prefix_iff_guarded_of_invariant fun c => Named chatId c ∧ (chatId ≠ 0 → Aimed chatId c)
  · exact ⟨Dict.get?_empty _, fun _ wizardId state hwaits => by cases hwaits.asked⟩
  · intro c ⟨hnamed, haimed⟩
    by_cases hchat : chatId = 0
    · intro wizardId state _ i text _ hsender
      -- the handler ignores what comes from no chat
      rw [Inbound.sender?, if_pos (.inr hchat)] at hsender
      cases hsender
    · exact reaches_of_aimed hnamed (haimed hchat)
  · intro c e ⟨hnamed, haimed⟩ hkeeps
    exact ⟨named_step e hnamed, fun hchat => (aimed_step hchat e (haimed hchat)).mpr hkeeps⟩
  · intro c e ⟨_, haimed⟩ hreaches hchat
    exact (aimed_step hchat e (haimed hchat)).mp (aimed_of_reaches hchat hreaches) hchat

/-- A card that only has a choice. -/
def choiceCard : Card := { routerCard with widgets := [.dropdown "pinnokio_func" "Action" [⟨"Yes", "yes"⟩] none] }

/-- The first wizard is completed while the second one waits for a text: it has asked for it last and does not get
it. -/
theorem completed_wizard_takes_text :
    ¬TextReachesAsker 7 (run (Chat.step 7) Chat.start
      [.opened choiceCard ⟨"a1b2c3", by decide⟩ true,
        .opened routerCard ⟨"d4e5f6", by decide⟩ true,
        .inbound ⟨.callback "w:d4e5f6:0:yes", "m", some ⟨"u", "c"⟩, true⟩,
        .inbound ⟨.callback "w:a1b2c3:0:yes", "m", some ⟨"u", "c"⟩, true⟩]) := by
  intro hreaches
  have hpointer := aimed_of_reaches (by decide) hreaches "d4e5f6" _ ⟨rfl, rfl, rfl⟩
  cases hpointer

end Pinnokio.Communication
