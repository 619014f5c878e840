import Pinnokio.Communication.CardTransformer
import Pinnokio.Lib.Numbers
import Pinnokio.Lib.Runs
import Pinnokio.Lib.Text

/-!
# Wizards in a chat

A card with dropdowns is answered in a chat step by step: one message with buttons for each dropdown, one prompt for
each text.  The state of the wizard is kept in Redis, and next to it the wizard that a text message of the chat is for.
Answers come in as the callbacks of buttons, which name the wizard and the step, and as texts.

* `advance_self`, `advance_ne` — what an answer does to its wizard, and to the others;
* `inbound_moves` — **an event answers the current step of a wizard or leaves it alone**, whatever it says;
* `progress_run` — the invariant: the wizard holds the answers accepted so far, or has been completed with them, or its
  key has expired;
* `values_completeWizard` — a wizard with all its answers publishes them under the names of their steps;
* `completeWizard_isSome_iff` — it does publish something unless a widget is called `widget_values`;
* `steps_answered` — the steps of every wizard are answered one by one;
* `exists_completed` — a wizard can be answered to its end;
* `wizard_well_formed_iff` — **wizard runs are well formed** for the cards whose answers can be published.
-/

namespace Pinnokio.Communication

open Pinnokio.Runs Pinnokio.Text

/-! ### The state of a wizard -/

/-- What a step asks for. -/
inductive StepType where
  | choice (items : List Item) (default : Option String)
  | textInput (hint : String)

/-- A step of a wizard. -/
structure Step where
  field : String
  type : StepType
  label : String
  selected : Option String

/-- `steps[current]["type"] == "text_input"`. -/
def Step.isText (step : Step) : Bool :=
  match step.type with
  | .choice _ _ => false
  | .textInput _ => true

/-- A wizard as it is stored. -/
structure WizardState where
  cardId : String
  mandatePath : String
  chatId : ℤ
  threadKey : String
  department : String
  contextText : String
  steps : List Step
  currentStep : ℕ
  wizardId : String

/-- `card_wizard:{chat_id}:{wizard_id}`. -/
def wizardKey (chatId : ℤ) (wizardId : String) : String := "card_wizard:" ++ toString chatId ++ ":" ++ wizardId

/-- `card_wizard_active:{chat_id}`. -/
def activeKey (chatId : ℤ) : String := "card_wizard_active:" ++ toString chatId

/-- The keys of the wizards, and those of the wizards that texts are for. -/
structure Redis where
  wizards : Dict String WizardState
  active : Dict String String

/-- A button, with the data that comes back when it is pressed. -/
structure Button where
  text : String
  callbackData : String

/-- What is published for the chat. -/
inductive Outbound where
  | message (chatId : ℤ) (text mandatePath : String)
  | withButtons (chatId : ℤ) (text : String) (buttons : List (List Button)) (mandatePath : String)

/-- What a completed wizard publishes: to the worker of the card, or to the Worker LLM. -/
inductive Response where
  | worker (uid spaceCode threadKey : String) (message : CardClicked)
  | llm (userId collectionName threadKey cardName : String) (action : WidgetValues) (externalThreadId : String)

/-- The user that the sender of an event is. -/
structure User where
  uid : String
  companyId : String

/-- What comes in. -/
inductive Content where
  | message (text : String)
  | callback (data : String)

/-- An event of the chat, with its sender if it can be resolved; publishing on the outbound topic may raise. -/
structure Inbound where
  content : Content
  mandatePath : String
  user : Option User
  delivers : Bool := true

/-- A run of `_complete_wizard` on an event, for the wizard that was stored under a key; no response if it raises. -/
structure Completion where
  key : String
  inbound : Inbound
  response : Option Response

/-- Redis, and what has happened so far. -/
structure World where
  redis : Redis
  outbound : List Outbound
  completions : List Completion
  passedOn : List Inbound

/-- A card for a chat. -/
structure Card where
  cardId : String
  widgets : List Widget
  contextText : String
  mandatePath : String
  threadKey : String
  department : String

namespace Card

/-- `any(w["type"] in ("dropdown", "multi_select") for w in widgets)`. -/
def hasDropdowns (card : Card) : Bool := card.widgets.any Widget.isDropdown

/-- The step for a widget. -/
def stepOf : Widget → Option Step
  | .dropdown name label items defaultValue => some ⟨name, .choice items defaultValue, label, none⟩
  | .multiSelect name label items defaultValue => some ⟨name, .choice items defaultValue, label, none⟩
  | .textInput name label hintText => some ⟨name, .textInput hintText, label, none⟩
  | .buttonList => none
  | .textParagraph _ => none

/-- The steps of a card. -/
def steps (card : Card) : List Step := card.widgets.filterMap stepOf

/-- The text of a paragraph. -/
def paragraph? : Widget → Option String
  | .textParagraph text => some text
  | _ => none

/-- A widget may be called `widget_values` only where no form fields are looked up in it. -/
def Answerable (card : Card) : Prop :=
  formFields card.cardId = [] ∨ "widget_values" ∉ card.widgets.filterMap Widget.name?

/-- The texts of a card. -/
def context (card : Card) : String :=
  "\n".intercalate ((card.contextText :: card.widgets.filterMap paragraph?).filter fun text => text ≠ "")

/-- The wizard of a card. -/
def wizard (card : Card) (chatId : ℤ) (wizardId : String) : WizardState where
  cardId := card.cardId
  mandatePath := card.mandatePath
  chatId := chatId
  threadKey := card.threadKey
  department := card.department
  contextText := card.context
  steps := card.steps
  currentStep := 0
  wizardId := wizardId

end Card

namespace WizardState

/-- Whether the current step waits for a text. -/
def awaitsText (state : WizardState) : Bool := state.steps[state.currentStep]?.any Step.isText

/-- The answer to the current step. -/
def record (state : WizardState) (answer : String) : WizardState :=
  { state with
    steps := state.steps.modify state.currentStep fun step => { step with selected := some answer }
    currentStep := state.currentStep + 1 }

/-- The answers, over the action. -/
def widgetValues (state : WizardState) : WidgetValues :=
  (Dict.ofList [("action", some "approve")]).setAll (state.steps.map fun step => (step.field, step.selected))

end WizardState

/-! ### What is sent and published -/

/-- `send_wizard_step`. -/
def sendWizardStep (state : WizardState) : Option Outbound :=
  state.steps[state.currentStep]?.map fun step =>
    let callback := "w:" ++ state.wizardId ++ ":" ++ toString state.currentStep ++ ":"
    let progress := "[" ++ toString (state.currentStep + 1) ++ "/" ++ toString state.steps.length ++ "]"
    match step.type with
    | .choice items default =>
        let header := if state.currentStep = 0 ∧ state.contextText ≠ "" then state.contextText ++ "\n\n" else ""
        let buttons := items.map fun item =>
          [⟨if some item.value = default then ">> " ++ item.text else item.text,
            -- a callback has at most 64 code points
            String.ofList ((callback ++ item.value).toList.take 64)⟩]
        .withButtons state.chatId (header ++ progress ++ " " ++ step.label ++ " :") buttons state.mandatePath
    | .textInput hint =>
        let hint := if hint = "" then "" else "\n" ++ hint
        let text := progress ++ " " ++ step.label ++ " :" ++ hint ++ "\n\nTapez votre texte ou appuyez sur 'Passer'"
        .withButtons state.chatId text [[⟨"Passer", callback ++ "__skip__"⟩]] state.mandatePath

/-- A step in the confirmation. -/
def summaryLine (step : Step) : String :=
  let val := step.selected.getD ""
  "- " ++ step.label ++ ": " ++ if val = "" then "(vide)" else val

/-- `_complete_wizard`: the confirmation, and the response. -/
def completeWizard (state : WizardState) (user : User) (mandatePath : String) (delivers : Bool) :
    Option Outbound × Option Response :=
  match buildCardClickedPayload state.cardId state.widgetValues state.threadKey user.uid with
  | none => (none, none)
  | some standard =>
      let externalThreadId := toString state.chatId
      let standard := { standard with
        communicationChatType := some "telegram"
        externalThreadId := some externalThreadId }
      let confirmation := "Reponse enregistree:\n" ++ "\n".intercalate (state.steps.map summaryLine)
      if delivers then
        (some (.message state.chatId confirmation mandatePath),
          if state.cardId ∈ externalWorkerCardIds then
            some (.worker user.uid user.companyId state.threadKey standard)
          else
            some (.llm user.uid user.companyId state.threadKey state.cardId state.widgetValues externalThreadId))
      else (none, none)

/-- `_send_telegram_wizard`, with the id that it draws. -/
def sendTelegramWizard (w : World) (chatId : ℤ) (card : Card) (wizardId : String) (delivers : Bool) : World :=
  if card.steps = [] then w
  else
    let state := card.wizard chatId wizardId
    { w with
      redis := ⟨w.redis.wizards.set (wizardKey chatId wizardId) state,
        w.redis.active.set (activeKey chatId) wizardId⟩
      outbound := w.outbound ++ if delivers then (sendWizardStep state).toList else [] }

/-! ### Events -/

/-- An answer to the current step, which completes the wizard or sends the next step; a callback also makes the wizard
the one that texts are for, if they are waited for next. -/
def advance (w : World) (chatId : ℤ) (wizardId : String) (state : WizardState) (answer : String) (i : Inbound)
    (user : User) (points : Bool) : World :=
  let key := wizardKey chatId wizardId
  let state := state.record answer
  if state.steps.length ≤ state.currentStep then
    let completed := completeWizard state user i.mandatePath i.delivers
    { w with
      redis := ⟨w.redis.wizards.erase key, w.redis.active.erase (activeKey chatId)⟩
      outbound := w.outbound ++ completed.1.toList
      completions := w.completions ++ [⟨key, i, completed.2⟩] }
  else
    { w with
      redis := ⟨w.redis.wizards.set key state,
        if points && state.awaitsText then w.redis.active.set (activeKey chatId) wizardId else w.redis.active⟩
      outbound := w.outbound ++ if i.delivers then (sendWizardStep state).toList else [] }

/-- The wizard, the step and the value of a callback. -/
def parseCallback (callbackData : String) : Option (String × ℤ × String) :=
  match splitAtMost callbackData ':' 3 with
  | [_, wizardId, stepIdx, value] => (Numbers.int? stepIdx).map fun stepIdx => (wizardId, stepIdx, value)
  | _ => none

/-- What is recorded for a value. -/
def answerOf (value : String) : String := if value = "__skip__" then "" else value

/-- `_handle_wizard_callback`. -/
def handleWizardCallback (w : World) (chatId : ℤ) (callbackData : String) (i : Inbound) (user : User) : World :=
  match parseCallback callbackData with
  | none => w
  | some (wizardId, stepIdx, value) =>
      match w.redis.wizards.get? (wizardKey chatId wizardId) with
      | none => w
      | some state =>
          if stepIdx ≠ state.currentStep then w
          -- there is no such step: an `IndexError`
          else if state.steps.length ≤ state.currentStep then w
          else advance w chatId wizardId state (answerOf value) i user true

/-- `_check_wizard_text_input`: whether a wizard has taken the text. -/
def checkWizardTextInput (w : World) (chatId : ℤ) (text : String) (i : Inbound) (user : User) : World × Bool :=
  match w.redis.active.get? (activeKey chatId) with
  | none => (w, false)
  | some wizardId =>
      if wizardId = "" then (w, false)
      else
        match w.redis.wizards.get? (wizardKey chatId wizardId) with
        | none => ({ w with redis := { w.redis with active := w.redis.active.erase (activeKey chatId) } }, false)
        | some state =>
            if state.awaitsText then (advance w chatId wizardId state text i user false, true) else (w, false)

/-- The user of an event that can be handled. -/
def Inbound.sender? (i : Inbound) (chatId : ℤ) : Option User :=
  if i.mandatePath = "" ∨ chatId = 0 then none else i.user.filter fun user => user.uid ≠ ""

/-- `_handle_telegram_inbound`; what no wizard takes is passed on. -/
def handleTelegramInbound (w : World) (chatId : ℤ) (i : Inbound) : World :=
  match i.sender? chatId with
  | none => w
  | some user =>
      match i.content with
      | .message text =>
          let (w, handled) := checkWizardTextInput w chatId text i user
          if handled then w else { w with passedOn := w.passedOn ++ [i] }
      | .callback data =>
          if startsWith data "w:" then handleWizardCallback w chatId data i user
          else { w with passedOn := w.passedOn ++ [i] }

/-- Something that happens in a chat: an event comes in, or a key expires. -/
inductive Event where
  | inbound (i : Inbound)
  | expired (key : String)

/-- One event. -/
def step (chatId : ℤ) (w : World) : Event → World
  | .inbound i => handleTelegramInbound w chatId i
  | .expired key => { w with redis := ⟨w.redis.wizards.erase key, w.redis.active.erase key⟩ }

/-! ### What an event means for a wizard -/

/-- A text is an answer to the current step of the wizard that texts are for, if it waits for one. -/
def acceptedText (chatId : ℤ) (wizardId : String) (w : World) (text : String) : Option String :=
  match w.redis.wizards.get? (wizardKey chatId wizardId) with
  | none => none
  | some state =>
      if w.redis.active.get? (activeKey chatId) = some wizardId ∧ wizardId ≠ "" ∧ state.awaitsText then some text
      else none

/-- A callback is an answer to the current step of the wizard that it names, if it names the step as well. -/
def acceptedCallback (chatId : ℤ) (wizardId : String) (w : World) (callbackData : String) : Option String :=
  match parseCallback callbackData, w.redis.wizards.get? (wizardKey chatId wizardId) with
  | some (id, stepIdx, value), some state =>
      if id = wizardId ∧ stepIdx = state.currentStep ∧ state.currentStep < state.steps.length then
        some (answerOf value)
      else none
  | _, _ => none

/-- The answer of an event to the current step of a wizard, if it is one. -/
def accepted (chatId : ℤ) (wizardId : String) (w : World) (i : Inbound) : Option String :=
  match i.sender? chatId with
  | none => none
  | some _ =>
      match i.content with
      | .message text => acceptedText chatId wizardId w text
      | .callback data => if startsWith data "w:" then acceptedCallback chatId wizardId w data else none

/-- The answers of a sequence of events. -/
def answers (chatId : ℤ) (wizardId : String) : World → List Event → List String
  | _, [] => []
  | w, .inbound i :: events =>
      (accepted chatId wizardId w i).toList ++ answers chatId wizardId (step chatId w (.inbound i)) events
  | w, .expired key :: events => answers chatId wizardId (step chatId w (.expired key)) events

/-- The completions of a wizard. -/
def completionsOf (key : String) (w : World) : List Completion := w.completions.filter fun c => c.key = key

/-- The field that a card publishes: of the Worker LLM's cards all, of an external worker's those that it expects. -/
def publishes (cardId field : String) : Bool := cardId ∉ externalWorkerCardIds ∨ field ∈ formFields cardId

/-- What is published under the name of a field. -/
def Response.values : Response → String → Option (List (Option String))
  | .worker _ _ _ message, field => (message.formInputs.get? field).map (List.map some)
  | .llm _ _ _ _ action _, field => (action.get? field).map fun value => [value]

/-- The steps of a wizard run: the current one is the number of accepted answers, which are recorded; the wizard is
completed once, when every step is answered, and what it publishes under the names of the steps are the answers. -/
structure StepsAnswered (chatId : ℤ) (card : Card) (wizardId : String) (given : List String) (w : World) : Prop where
  bounded : given.length ≤ card.steps.length
  current : ∀ state, w.redis.wizards.get? (wizardKey chatId wizardId) = some state →
    state.currentStep = given.length ∧ given.length < card.steps.length ∧
      ∀ (k : ℕ) (answer : String), given[k]? = some answer → state.steps[k]?.bind Step.selected = some answer
  completions : (completionsOf (wizardKey chatId wizardId) w).length =
    if given.length = card.steps.length then 1 else 0
  published : ∀ c ∈ completionsOf (wizardKey chatId wizardId) w, ∀ response, c.response = some response →
    ∀ (k : ℕ) (step : Step) (answer : String), card.steps[k]? = some step → given[k]? = some answer →
      response.values step.field = if publishes card.cardId step.field then some [some answer] else none

/-- **A wizard run is well formed**: besides, it does publish the answers when it is completed, if the confirmation can
be sent. -/
structure WellFormed (chatId : ℤ) (card : Card) (wizardId : String) (given : List String) (w : World) : Prop
    extends StepsAnswered chatId card wizardId given w where
  responds : ∀ c ∈ completionsOf (wizardKey chatId wizardId) w, c.inbound.delivers = true → c.response.isSome

/-! ### One event -/

/-- What an event does to a wizard that it answers, or does not answer. -/
def Moves (chatId : ℤ) (wizardId : String) (i : Inbound) (w w' : World) : Option String → Prop
  | none =>
      w'.redis.wizards.get? (wizardKey chatId wizardId) = w.redis.wizards.get? (wizardKey chatId wizardId) ∧
        completionsOf (wizardKey chatId wizardId) w' = completionsOf (wizardKey chatId wizardId) w
  | some answer =>
      ∃ state, w.redis.wizards.get? (wizardKey chatId wizardId) = some state ∧
        state.currentStep < state.steps.length ∧
        if state.steps.length ≤ state.currentStep + 1 then
          w'.redis.wizards.get? (wizardKey chatId wizardId) = none ∧ ∃ user,
            completionsOf (wizardKey chatId wizardId) w' = completionsOf (wizardKey chatId wizardId) w ++
              [⟨wizardKey chatId wizardId, i, (completeWizard (state.record answer) user i.mandatePath i.delivers).2⟩]
        else
          w'.redis.wizards.get? (wizardKey chatId wizardId) = some (state.record answer) ∧
            completionsOf (wizardKey chatId wizardId) w' = completionsOf (wizardKey chatId wizardId) w

section Step

variable {chatId : ℤ} {wizardId wizardId' : String} {w : World} {state : WizardState} {i : Inbound} {user : User}

/-- Wizards of one chat have keys of their own. -/
theorem wizardKey_ne (h : wizardId' ≠ wizardId) : wizardKey chatId wizardId' ≠ wizardKey chatId wizardId :=
  fun heq => h (append_left_cancel heq)

theorem length_record (answer : String) : (state.record answer).steps.length = state.steps.length :=
  List.length_modify ..

/-- The answer to the last step. -/
theorem advance_of_last (h : state.steps.length ≤ state.currentStep + 1) (answer : String) (points : Bool) :
    ∃ outbound, advance w chatId wizardId state answer i user points =
      ⟨⟨w.redis.wizards.erase (wizardKey chatId wizardId), w.redis.active.erase (activeKey chatId)⟩, outbound,
        w.completions ++ [⟨wizardKey chatId wizardId, i,
          (completeWizard (state.record answer) user i.mandatePath i.delivers).2⟩], w.passedOn⟩ := by
  have hlast : (state.record answer).steps.length ≤ (state.record answer).currentStep := by
    rw [length_record]
    exact h
  exact ⟨_, if_pos hlast⟩

/-- The answer to any other step. -/
theorem advance_of_lt (h : ¬state.steps.length ≤ state.currentStep + 1) (answer : String) (points : Bool) :
    ∃ active outbound, advance w chatId wizardId state answer i user points =
      ⟨⟨w.redis.wizards.set (wizardKey chatId wizardId) (state.record answer), active⟩, outbound, w.completions,
        w.passedOn⟩ := by
  have hmore : ¬(state.record answer).steps.length ≤ (state.record answer).currentStep := by
    rw [length_record]
    exact h
  exact ⟨_, _, if_neg hmore⟩

/-- The wizard that is answered. -/
theorem advance_self (hget : w.redis.wizards.get? (wizardKey chatId wizardId) = some state)
    (hlt : state.currentStep < state.steps.length) (answer : String) (points : Bool) :
    Moves chatId wizardId i w (advance w chatId wizardId state answer i user points) (some answer) := by
  refine ⟨state, hget, hlt, ?_⟩
  by_cases hlast : state.steps.length ≤ state.currentStep + 1
  · obtain ⟨outbound, hw⟩ := advance_of_last (w := w) (i := i) hlast answer points
    rw [if_pos hlast, hw]
    refine ⟨?_, user, ?_⟩
    · rw [Dict.get?_erase, if_pos rfl]
    · rw [completionsOf, List.filter_append, List.filter_cons_of_pos (by simp), List.filter_nil]
      rfl
  · obtain ⟨active, outbound, hw⟩ := advance_of_lt (w := w) (i := i) hlast answer points
    rw [if_neg hlast, hw]
    refine ⟨?_, rfl⟩
    rw [Dict.get?_set, if_pos rfl]

/-- The other wizards. -/
theorem advance_ne (h : wizardId' ≠ wizardId) (answer : String) (points : Bool) :
    Moves chatId wizardId i w (advance w chatId wizardId' state answer i user points) none := by
  have hkey : wizardKey chatId wizardId' ≠ wizardKey chatId wizardId := wizardKey_ne h
  by_cases hlast : state.steps.length ≤ state.currentStep + 1
  · obtain ⟨outbound, hw⟩ := advance_of_last (w := w) (i := i) hlast answer points
    rw [hw]
    refine ⟨?_, ?_⟩
    · rw [Dict.get?_erase, if_neg hkey.symm]
    · rw [completionsOf, List.filter_append, List.filter_cons_of_neg (by simpa using hkey), List.filter_nil,
        List.append_nil]
      rfl
  · obtain ⟨active, outbound, hw⟩ := advance_of_lt (w := w) (i := i) hlast answer points
    rw [hw]
    refine ⟨?_, rfl⟩
    rw [Dict.get?_set_ne _ _ hkey.symm]

/-- A wizard that waits for a text has a step to answer. -/
theorem lt_of_awaitsText (h : state.awaitsText = true) : state.currentStep < state.steps.length := by
  by_contra hle
  rw [WizardState.awaitsText, List.getElem?_eq_none (by omega)] at h
  cases h

/-- A callback for another wizard is no answer. -/
theorem acceptedCallback_of_ne {callbackData value : String} {stepIdx : ℤ}
    (hparse : parseCallback callbackData = some (wizardId', stepIdx, value)) (h : wizardId' ≠ wizardId) :
    acceptedCallback chatId wizardId w callbackData = none := by
  unfold acceptedCallback
  rw [hparse]
  cases w.redis.wizards.get? (wizardKey chatId wizardId) with
  | none => rfl
  | some state => exact if_neg fun hfor => h hfor.1

/-- A text for another wizard is no answer. -/
theorem acceptedText_of_ne (h : w.redis.active.get? (activeKey chatId) ≠ some wizardId) (text : String) :
    acceptedText chatId wizardId w text = none := by
  unfold acceptedText
  split
  · rfl
  · exact if_neg fun hfor => h hfor.1

theorem text_moves (text : String) :
    Moves chatId wizardId i w (checkWizardTextInput w chatId text i user).1 (acceptedText chatId wizardId w text) := by
  unfold checkWizardTextInput
  cases hactive : w.redis.active.get? (activeKey chatId) with
  | none =>
      rw [acceptedText_of_ne (by rw [hactive]; exact Option.some_ne_none _ |>.symm)]
      exact ⟨rfl, rfl⟩
  | some id =>
      dsimp only
      by_cases hid : id = wizardId
      · subst hid
        unfold acceptedText
        rw [hactive]
        by_cases hempty : id = ""
        · rw [if_pos hempty]
          split
          · exact ⟨rfl, rfl⟩
          · rw [if_neg fun hfor => hfor.2.1 hempty]
            exact ⟨rfl, rfl⟩
        · rw [if_neg hempty]
          cases hget : w.redis.wizards.get? (wizardKey chatId id) with
          | none => exact ⟨rfl, rfl⟩
          | some state =>
              dsimp only
              by_cases hawaits : state.awaitsText = true
              · rw [if_pos hawaits, if_pos ⟨rfl, hempty, hawaits⟩]
                exact advance_self hget (lt_of_awaitsText hawaits) text false
              · rw [if_neg hawaits, if_neg fun hfor => hawaits hfor.2.2]
                exact ⟨rfl, rfl⟩
      · rw [acceptedText_of_ne (by rw [hactive]; exact fun heq => hid (Option.some.inj heq))]
        split
        · exact ⟨rfl, rfl⟩
        · split
          · exact ⟨rfl, rfl⟩
          · split
            · exact advance_ne hid text false
            · exact ⟨rfl, rfl⟩

theorem callback_moves (callbackData : String) :
    Moves chatId wizardId i w (handleWizardCallback w chatId callbackData i user)
      (acceptedCallback chatId wizardId w callbackData) := by
  unfold handleWizardCallback
  cases hparse : parseCallback callbackData with
  | none =>
      unfold acceptedCallback
      rw [hparse]
      exact ⟨rfl, rfl⟩
  | some parsed =>
      obtain ⟨id, stepIdx, value⟩ := parsed
      dsimp only
      by_cases hid : id = wizardId
      · subst hid
        unfold acceptedCallback
        rw [hparse]
        cases hget : w.redis.wizards.get? (wizardKey chatId id) with
        | none => exact ⟨rfl, rfl⟩
        | some state =>
            dsimp only
            by_cases hstep : stepIdx = state.currentStep
            · rw [if_neg (not_not_intro hstep)]
              by_cases hlt : state.currentStep < state.steps.length
              · rw [if_neg (by omega), if_pos ⟨rfl, hstep, hlt⟩]
                exact advance_self hget hlt (answerOf value) true
              · rw [if_pos (by omega), if_neg fun hfor => hlt hfor.2.2]
                exact ⟨rfl, rfl⟩
            · rw [if_pos hstep, if_neg fun hfor => hstep hfor.2.1]
              exact ⟨rfl, rfl⟩
      · rw [acceptedCallback_of_ne hparse hid]
        split
        · exact ⟨rfl, rfl⟩
        · split
          · exact ⟨rfl, rfl⟩
          · split
            · exact ⟨rfl, rfl⟩
            · exact advance_ne hid (answerOf value) true

/-- **An event answers the current step of a wizard or leaves it alone.** -/
theorem inbound_moves (w : World) (i : Inbound) :
    Moves chatId wizardId i w (handleTelegramInbound w chatId i) (accepted chatId wizardId w i) := by
  unfold handleTelegramInbound accepted
  cases hsender : i.sender? chatId with
  | none => exact ⟨rfl, rfl⟩
  | some user =>
      cases hcontent : i.content with
      | message text =>
          have hmoves : Moves chatId wizardId i w (checkWizardTextInput w chatId text i user).1
              (acceptedText chatId wizardId w text) := text_moves text
          dsimp only
          split
          · exact hmoves
          · exact hmoves
      | callback data =>
          dsimp only
          split
          · exact callback_moves data
          · exact ⟨rfl, rfl⟩

end Step

/-! ### The answers of a wizard -/

/-- The steps with the answers given so far. -/
def fill : List Step → List String → List Step
  | step :: steps, answer :: given => { step with selected := some answer } :: fill steps given
  | steps, _ => steps

/-- The wizard of a card with the answers given so far. -/
def answered (chatId : ℤ) (card : Card) (wizardId : String) (given : List String) : WizardState :=
  { card.wizard chatId wizardId with steps := fill card.steps given, currentStep := given.length }

/-- The state of a wizard in a run: it has the answers, has been completed with all of them, or has expired. -/
inductive Progress (chatId : ℤ) (card : Card) (wizardId : String) (given : List String) (w : World) : Prop
  | waiting (hlt : given.length < card.steps.length)
      (hget : w.redis.wizards.get? (wizardKey chatId wizardId) = some (answered chatId card wizardId given))
      (hnone : completionsOf (wizardKey chatId wizardId) w = [])
  | completed (hall : given.length = card.steps.length)
      (hget : w.redis.wizards.get? (wizardKey chatId wizardId) = none) (user : User) (i : Inbound)
      (hone : completionsOf (wizardKey chatId wizardId) w = [⟨wizardKey chatId wizardId, i,
        (completeWizard (answered chatId card wizardId given) user i.mandatePath i.delivers).2⟩])
  | expired (hlt : given.length < card.steps.length)
      (hget : w.redis.wizards.get? (wizardKey chatId wizardId) = none)
      (hnone : completionsOf (wizardKey chatId wizardId) w = [])

section Answers

variable {chatId : ℤ} {card : Card} {wizardId : String} {given : List String} {w w' : World}

theorem fill_nil (steps : List Step) : fill steps [] = steps := by
  cases steps <;> rfl

theorem length_fill (steps : List Step) (given : List String) : (fill steps given).length = steps.length := by
  induction given generalizing steps with
  | nil => rw [fill_nil]
  | cons answer given ih =>
      cases steps with
      | nil => rfl
      | cons step steps => rw [fill, List.length_cons, List.length_cons, ih]

theorem map_field_fill (steps : List Step) (given : List String) :
    (fill steps given).map Step.field = steps.map Step.field := by
  induction given generalizing steps with
  | nil => rw [fill_nil]
  | cons answer given ih =>
      cases steps with
      | nil => rfl
      | cons step steps => rw [fill, List.map_cons, List.map_cons, ih]

/-- A step that has been answered. -/
theorem getElem?_fill {steps : List Step} {k : ℕ} {step : Step} {answer : String} (hstep : steps[k]? = some step)
    (hanswer : given[k]? = some answer) : (fill steps given)[k]? = some { step with selected := some answer } := by
  induction given generalizing steps k with
  | nil => cases hanswer
  | cons first given ih =>
      cases steps with
      | nil => cases hstep
      | cons head steps =>
          cases k with
          | zero =>
              cases hstep
              cases hanswer
              rfl
          | succ k => exact ih hstep hanswer

/-- One more answer. -/
theorem fill_concat {steps : List Step} (h : given.length < steps.length) (answer : String) :
    (fill steps given).modify given.length (fun step => { step with selected := some answer }) =
      fill steps (given ++ [answer]) := by
  induction given generalizing steps with
  | nil =>
      cases steps with
      | nil => cases h
      | cons step steps =>
          rw [List.nil_append, fill, fill_nil, fill_nil]
          rfl
  | cons first given ih =>
      cases steps with
      | nil => cases h
      | cons step steps =>
          rw [List.cons_append, fill, fill, List.length_cons, List.modify_succ_cons, ih (Nat.lt_of_succ_lt_succ h)]

theorem record_answered (h : given.length < card.steps.length) (answer : String) :
    (answered chatId card wizardId given).record answer = answered chatId card wizardId (given ++ [answer]) := by
  unfold WizardState.record answered
  dsimp only
  rw [fill_concat h, List.length_append, List.length_singleton]

/-- **One answer, or none.** -/
theorem progress_moves {i : Inbound} {answer : Option String} (hp : Progress chatId card wizardId given w)
    (h : Moves chatId wizardId i w w' answer) : Progress chatId card wizardId (given ++ answer.toList) w' := by
  cases answer with
  | none =>
      obtain ⟨hsame, hcompletions⟩ := h
      rw [Option.toList_none, List.append_nil]
      cases hp with
      | waiting hlt hget hnone => exact .waiting hlt (hsame.trans hget) (hcompletions.trans hnone)
      | completed hall hget user i hone =>
          exact .completed hall (hsame.trans hget) user i (hcompletions.trans hone)
      | expired hlt hget hnone => exact .expired hlt (hsame.trans hget) (hcompletions.trans hnone)
  | some answer =>
      obtain ⟨state, hstate, -, hmoves⟩ := h
      rw [Option.toList_some]
      have hlength : (given ++ [answer]).length = given.length + 1 := List.length_append ..
      cases hp with
      | waiting hlt hget hnone =>
          obtain rfl : answered chatId card wizardId given = state := Option.some.inj (hget.symm.trans hstate)
          have hsteps : (answered chatId card wizardId given).steps.length = card.steps.length := length_fill ..
          have hcurrent : (answered chatId card wizardId given).currentStep = given.length := rfl
          rw [record_answered hlt, hsteps, hcurrent] at hmoves
          split at hmoves
          · obtain ⟨hgone, user, hone⟩ := hmoves
            rw [hnone, List.nil_append] at hone
            exact .completed (by omega) hgone user i hone
          · obtain ⟨hnext, hsame⟩ := hmoves
            exact .waiting (by omega) hnext (hsame.trans hnone)
      | completed hall hget user i hone =>
          rw [hget] at hstate
          cases hstate
      | expired hlt hget hnone =>
          rw [hget] at hstate
          cases hstate

/-- A key expires. -/
theorem progress_expired (hp : Progress chatId card wizardId given w) (key : String) :
    Progress chatId card wizardId given (step chatId w (.expired key)) := by
  have hget : (step chatId w (.expired key)).redis.wizards.get? (wizardKey chatId wizardId) =
      if wizardKey chatId wizardId = key then none else w.redis.wizards.get? (wizardKey chatId wizardId) :=
    Dict.get?_erase ..
  cases hp with
  | waiting hlt hwaiting hnone =>
      split at hget
      · exact .expired hlt hget hnone
      · exact .waiting hlt (hget.trans hwaiting) hnone
  | completed hall hgone user i hone =>
      rw [hgone, ite_self] at hget
      exact .completed hall hget user i hone
  | expired hlt hgone hnone =>
      rw [hgone, ite_self] at hget
      exact .expired hlt hget hnone

/-- **Every run of a wizard.** -/
theorem progress_run (hp : Progress chatId card wizardId given w) (events : List Event) :
    Progress chatId card wizardId (given ++ answers chatId wizardId w events) (run (step chatId) w events) := by
  induction events generalizing given w with
  | nil =>
      rw [answers, List.append_nil]
      exact hp
  | cons event events ih =>
      cases event with
      | inbound i =>
          rw [answers, ← List.append_assoc]
          exact ih (progress_moves hp (inbound_moves w i))
      | expired key => exact ih (progress_expired hp key)

/-! ### The card -/

/-- The fields of the steps are the names of the widgets. -/
theorem map_field_steps (card : Card) : card.steps.map Step.field = card.widgets.filterMap Widget.name? := by
  rw [Card.steps, List.map_filterMap]
  congr 1
  funext widget
  cases widget <;> rfl

theorem steps_ne_nil (h : card.hasDropdowns = true) : card.steps ≠ [] := by
  obtain ⟨widget, hmem, hdropdown⟩ := List.any_eq_true.mp h
  have hstep : ∃ step, Card.stepOf widget = some step := by
    cases widget <;> first | exact ⟨_, rfl⟩ | cases hdropdown
  obtain ⟨step, hstep⟩ := hstep
  exact List.ne_nil_of_mem (List.mem_filterMap.mpr ⟨widget, hmem, hstep⟩)

/-- The wizard of a card that has been sent. -/
theorem get?_sent (h : card.steps ≠ []) (redis : Redis) (delivers : Bool) :
    (sendTelegramWizard ⟨redis, [], [], []⟩ chatId card wizardId delivers).redis.wizards.get?
      (wizardKey chatId wizardId) = some (answered chatId card wizardId []) := by
  rw [sendTelegramWizard, if_neg h]
  dsimp only
  rw [Dict.get?_set_self, answered, fill_nil]
  rfl

theorem completionsOf_sent (redis : Redis) (delivers : Bool) (key : String) :
    completionsOf key (sendTelegramWizard ⟨redis, [], [], []⟩ chatId card wizardId delivers) = [] := by
  rw [sendTelegramWizard]
  split_ifs <;> rfl

theorem progress_begin (h : card.steps ≠ []) (redis : Redis) (delivers : Bool) :
    Progress chatId card wizardId [] (sendTelegramWizard ⟨redis, [], [], []⟩ chatId card wizardId delivers) :=
  .waiting (List.length_pos_of_ne_nil h) (get?_sent h redis delivers) (completionsOf_sent redis delivers _)

/-! ### What is published -/

/-- The fields of the answers. -/
theorem map_fst_fill (steps : List Step) (given : List String) :
    ((fill steps given).map fun step => (step.field, step.selected)).map Prod.fst = steps.map Step.field := by
  rw [← map_field_fill steps given, List.map_map]
  rfl

/-- The value of a step that has been answered. -/
theorem get?_widgetValues (hn : (card.steps.map Step.field).Nodup) {k : ℕ} {step : Step} {answer : String}
    (hstep : card.steps[k]? = some step) (hanswer : given[k]? = some answer) :
    (answered chatId card wizardId given).widgetValues.get? step.field = some (some answer) := by
  have hkeys : (((fill card.steps given).map fun step => (step.field, step.selected)).map Prod.fst).Nodup := by
    rw [map_fst_fill]
    exact hn
  have hmem : (step.field, some answer) ∈ (fill card.steps given).map fun step => (step.field, step.selected) :=
    List.mem_map.mpr ⟨_, List.mem_of_getElem? (getElem?_fill hstep hanswer), rfl⟩
  unfold WizardState.widgetValues answered
  rw [Dict.get?_setAll _ hkeys, (Dict.getList_eq_some_iff hkeys).mpr hmem]
  rfl

/-- **What a completed wizard publishes** under the names of its steps. -/
theorem values_completeWizard (hn : (card.steps.map Step.field).Nodup) {user : User} {mandatePath : String}
    {delivers : Bool} {response : Response}
    (h : (completeWizard (answered chatId card wizardId given) user mandatePath delivers).2 = some response) {k : ℕ}
    {step : Step} {answer : String} (hstep : card.steps[k]? = some step) (hanswer : given[k]? = some answer) :
    response.values step.field = if publishes card.cardId step.field then some [some answer] else none := by
  have hvalue : (answered chatId card wizardId given).widgetValues.get? step.field = some (some answer) :=
    get?_widgetValues hn hstep hanswer
  unfold completeWizard at h
  split at h
  · cases h
  · next standard hpayload =>
    have hinputs : standard.formInputs.get? step.field =
        if step.field ∈ formFields card.cardId then some [answer] else none := by
      rw [← fieldValue_of_text hvalue]
      exact get?_buildFormInputs (formInputs_of_payload hpayload) step.field
    split at h
    · dsimp only at h
      split at h
      · next hexternal =>
        -- an external worker gets the fields that it expects
        have hpublishes : publishes card.cardId step.field = true ↔ step.field ∈ formFields card.cardId := by
          rw [publishes, decide_eq_true_iff]
          exact or_iff_right (not_not_intro hexternal)
        cases h
        show (standard.formInputs.get? step.field).map (List.map some) = _
        rw [hinputs]
        by_cases hfield : step.field ∈ formFields card.cardId
        · rw [if_pos hfield, if_pos (hpublishes.mpr hfield)]
          rfl
        · rw [if_neg hfield, if_neg fun h => hfield (hpublishes.mp h)]
          rfl
      · next hexternal =>
        -- the Worker LLM gets all of them
        have hpublishes : publishes card.cardId step.field = true := decide_eq_true (Or.inl hexternal)
        cases h
        show ((answered chatId card wizardId given).widgetValues.get? step.field).map (fun value => [value]) = _
        rw [hvalue, if_pos hpublishes]
        rfl
    · cases h

/-- A value has been stored under a name other than the one of the action just if a step has that name. -/
theorem get?_widgetValues_eq_none_iff (hn : (card.steps.map Step.field).Nodup) {name : String} (h : name ≠ "action") :
    (answered chatId card wizardId given).widgetValues.get? name = none ↔ name ∉ card.steps.map Step.field := by
  have haction : (Dict.ofList [("action", some "approve")]).get? name = none := by
    show (Dict.empty.set "action" (some "approve")).get? name = none
    rw [Dict.get?_set_ne _ _ h]
    rfl
  unfold WizardState.widgetValues answered
  rw [Dict.get?_setAll _ (by rw [map_fst_fill]; exact hn), haction, Option.or_none, Dict.getList_eq_none_iff,
    map_fst_fill]

/-- **A wizard publishes something**, if the confirmation can be sent, just if no widget has taken the name of the
answers. -/
theorem completeWizard_isSome_iff (hn : (card.steps.map Step.field).Nodup) (user : User) (mandatePath : String) :
    ((completeWizard (answered chatId card wizardId given) user mandatePath true).2).isSome ↔ card.Answerable := by
  have hinputs : (buildFormInputs card.cardId (answered chatId card wizardId given).widgetValues).isSome ↔
      card.Answerable := by
    rw [buildFormInputs_isSome_iff, get?_widgetValues_eq_none_iff hn (by decide), map_field_steps]
    rfl
  rw [← hinputs, completeWizard, buildCardClickedPayload,
    show (answered chatId card wizardId given).cardId = card.cardId from rfl]
  cases buildFormInputs card.cardId (answered chatId card wizardId given).widgetValues with
  | none => rfl
  | some formInputs =>
      dsimp only [Option.map_some]
      rw [if_pos rfl]
      split_ifs <;> exact iff_of_true rfl rfl

/-- What follows for the whole run. -/
theorem stepsAnswered_of_progress (hn : (card.steps.map Step.field).Nodup)
    (hp : Progress chatId card wizardId given w) : StepsAnswered chatId card wizardId given w := by
  cases hp with
  | waiting hlt hget hnone =>
      refine ⟨by omega, fun state hstate => ?_, ?_, fun c hc => ?_⟩
      · obtain rfl : answered chatId card wizardId given = state := Option.some.inj (hget.symm.trans hstate)
        refine ⟨rfl, hlt, fun k answer hanswer => ?_⟩
        have hk : k < card.steps.length := by
          have := (List.getElem?_eq_some_iff.mp hanswer).1
          omega
        show (fill card.steps given)[k]?.bind Step.selected = some answer
        rw [getElem?_fill (List.getElem?_eq_getElem hk) hanswer]
        rfl
      · rw [hnone, if_neg (by omega)]
        rfl
      · rw [hnone] at hc
        cases hc
  | completed hall hget user i hone =>
      refine ⟨by omega, fun state hstate => ?_, ?_, fun c hc response hresponse k step answer hstep hanswer => ?_⟩
      · rw [hget] at hstate
        cases hstate
      · rw [hone, if_pos hall]
        rfl
      · rw [hone] at hc
        obtain rfl := List.mem_singleton.mp hc
        exact values_completeWizard hn hresponse hstep hanswer
  | expired hlt hget hnone =>
      refine ⟨by omega, fun state hstate => ?_, ?_, fun c hc => ?_⟩
      · rw [hget] at hstate
        cases hstate
      · rw [hnone, if_neg (by omega)]
        rfl
      · rw [hnone] at hc
        cases hc

/-- It does publish the answers. -/
theorem wellFormed_of_progress (hn : (card.steps.map Step.field).Nodup) (hcard : card.Answerable)
    (hp : Progress chatId card wizardId given w) : WellFormed chatId card wizardId given w := by
  refine ⟨stepsAnswered_of_progress hn hp, fun c hc hdelivers => ?_⟩
  cases hp with
  | waiting hlt hget hnone =>
      rw [hnone] at hc
      cases hc
  | completed hall hget user i hone =>
      rw [hone] at hc
      obtain rfl := List.mem_singleton.mp hc
      dsimp only at hdelivers ⊢
      rw [hdelivers]
      exact (completeWizard_isSome_iff hn user i.mandatePath).mpr hcard
  | expired hlt hget hnone =>
      rw [hnone] at hc
      cases hc

end Answers

/-! ### Every run -/

section Runs

variable {chatId : ℤ} {card : Card} {wizardId : String} {w : World}

theorem progress_sent (hdropdown : card.hasDropdowns = true) (redis : Redis) (delivers : Bool) (events : List Event) :
    Progress chatId card wizardId
      (answers chatId wizardId (sendTelegramWizard ⟨redis, [], [], []⟩ chatId card wizardId delivers) events)
      (run (step chatId) (sendTelegramWizard ⟨redis, [], [], []⟩ chatId card wizardId delivers) events) :=
  progress_run (progress_begin (steps_ne_nil hdropdown) redis delivers) events

/-- **The steps of a wizard are answered one by one**, whatever its widgets are called. -/
theorem steps_answered (redis : Redis) (chatId : ℤ) (card : Card) (wizardId : String) (delivers : Bool)
    (hdropdown : card.hasDropdowns = true) (hnames : (card.widgets.filterMap Widget.name?).Nodup)
    (events : List Event) :
    let w := sendTelegramWizard ⟨redis, [], [], []⟩ chatId card wizardId delivers
    StepsAnswered chatId card wizardId (answers chatId wizardId w events) (run (step chatId) w events) := by
  intro w
  rw [← map_field_steps] at hnames
  exact stepsAnswered_of_progress hnames (progress_sent hdropdown redis delivers events)

/-- The number of a step has no colon. -/
theorem colon_not_mem_toString (n : ℕ) : ':' ∉ (toString n).toList := fun h =>
  absurd (Numbers.isDigit_of_mem_toString h) (by decide)

/-- The callback of a choice of a step. -/
def press (k : ℕ) : Inbound := ⟨.callback ("w:a1b2c3:" ++ toString k ++ ":yes"), "m", some ⟨"u", "c"⟩, true⟩

theorem parseCallback_press (k : ℕ) :
    parseCallback ("w:a1b2c3:" ++ toString k ++ ":yes") = some ("a1b2c3", (k : ℤ), "yes") := by
  have hchars : ("w:a1b2c3:" ++ toString k ++ ":yes").toList =
      ['w'] ++ ':' :: ("a1b2c3".toList ++ ':' :: ((toString k).toList ++ ':' :: "yes".toList)) := by simp
  rw [parseCallback, splitAtMost, hchars, splitCharsAtMost_append (by decide), splitCharsAtMost_append (by decide),
    splitCharsAtMost_append (colon_not_mem_toString k)]
  simp only [splitCharsAtMost, List.map_cons, List.map_nil, String.ofList_toList, Numbers.int?_toString,
    Option.map_some]

/-- It answers the step that the wizard is at. -/
theorem accepted_press {state : WizardState} (hget : w.redis.wizards.get? (wizardKey 1 "a1b2c3") = some state) {k : ℕ}
    (hcurrent : state.currentStep = k) (hlt : k < state.steps.length) :
    accepted 1 "a1b2c3" w (press k) = some "yes" := by
  subst hcurrent
  have hstarts : startsWith ("w:a1b2c3:" ++ toString state.currentStep ++ ":yes") "w:" = true := by
    simp [startsWith]
  show (if startsWith ("w:a1b2c3:" ++ toString state.currentStep ++ ":yes") "w:" then
    acceptedCallback 1 "a1b2c3" w ("w:a1b2c3:" ++ toString state.currentStep ++ ":yes") else none) = some "yes"
  rw [if_pos hstarts, acceptedCallback, parseCallback_press, hget]
  exact if_pos ⟨rfl, rfl, hlt⟩

/-- What the choice does to a wizard with the answers given so far. -/
theorem press_moves {given : List String}
    (hget : w.redis.wizards.get? (wizardKey 1 "a1b2c3") = some (answered 1 card "a1b2c3" given))
    (hlt : given.length < card.steps.length) :
    if card.steps.length ≤ given.length + 1 then
      ∃ user, completionsOf (wizardKey 1 "a1b2c3") (step 1 w (.inbound (press given.length))) =
        completionsOf (wizardKey 1 "a1b2c3") w ++ [⟨wizardKey 1 "a1b2c3", press given.length,
          (completeWizard (answered 1 card "a1b2c3" (given ++ ["yes"])) user "m" true).2⟩]
    else
      (step 1 w (.inbound (press given.length))).redis.wizards.get? (wizardKey 1 "a1b2c3") =
        some (answered 1 card "a1b2c3" (given ++ ["yes"])) := by
  have hsteps : (answered 1 card "a1b2c3" given).steps.length = card.steps.length := length_fill ..
  have hcurrent : (answered 1 card "a1b2c3" given).currentStep = given.length := rfl
  have haccepted : accepted 1 "a1b2c3" w (press given.length) = some "yes" :=
    accepted_press hget rfl (by rw [hsteps]; exact hlt)
  have hmoves : Moves 1 "a1b2c3" (press given.length) w (step 1 w (.inbound (press given.length)))
      (accepted 1 "a1b2c3" w (press given.length)) := inbound_moves w (press given.length)
  rw [haccepted] at hmoves
  obtain ⟨state, hstate, -, hmoves⟩ := hmoves
  obtain rfl := Option.some.inj (hget.symm.trans hstate)
  rw [hsteps, hcurrent, record_answered hlt] at hmoves
  split_ifs at hmoves ⊢ with hlast
  · exact hmoves.2
  · exact hmoves.1

/-- Any number of steps short of all can be answered. -/
theorem exists_waiting (hget : w.redis.wizards.get? (wizardKey 1 "a1b2c3") = some (answered 1 card "a1b2c3" []))
    {n : ℕ} (hn : n < card.steps.length) : ∃ events given, given.length = n ∧
      (run (step 1) w events).redis.wizards.get? (wizardKey 1 "a1b2c3") = some (answered 1 card "a1b2c3" given) := by
  induction n with
  | zero => exact ⟨[], [], rfl, hget⟩
  | succ n ih =>
      obtain ⟨events, given, rfl, hwaiting⟩ := ih (by omega)
      have hmoves := press_moves hwaiting (by omega)
      rw [if_neg (by omega)] at hmoves
      refine ⟨events ++ [.inbound (press given.length)], given ++ ["yes"], List.length_append .., ?_⟩
      rw [run_concat]
      exact hmoves

/-- All of them can be answered. -/
theorem exists_completed (hget : w.redis.wizards.get? (wizardKey 1 "a1b2c3") = some (answered 1 card "a1b2c3" []))
    (hsteps : card.steps ≠ []) : ∃ events given user k,
      ⟨wizardKey 1 "a1b2c3", press k, (completeWizard (answered 1 card "a1b2c3" given) user "m" true).2⟩ ∈
        completionsOf (wizardKey 1 "a1b2c3") (run (step 1) w events) := by
  have hpos : 0 < card.steps.length := List.length_pos_of_ne_nil hsteps
  obtain ⟨events, given, hlength, hwaiting⟩ := exists_waiting hget (Nat.sub_lt hpos Nat.one_pos)
  have hmoves := press_moves hwaiting (by omega)
  rw [if_pos (by omega)] at hmoves
  obtain ⟨user, hone⟩ := hmoves
  refine ⟨events ++ [.inbound (press given.length)], given ++ ["yes"], user, given.length, ?_⟩
  rw [run_concat, hone]
  exact List.mem_append_right _ (List.mem_singleton_self _)

end Runs

/-- **Wizard runs are well formed**, from any content of Redis, whatever events come in and whatever keys expire, just
for the cards without a widget called `widget_values`, and for those without form fields. -/
theorem wizard_well_formed_iff (card : Card) (hdropdown : card.hasDropdowns = true)
    (hnames : (card.widgets.filterMap Widget.name?).Nodup) :
    (∀ (redis : Redis) (chatId : ℤ) (wizardId : String) (delivers : Bool) (events : List Event),
      let w := sendTelegramWizard ⟨redis, [], [], []⟩ chatId card wizardId delivers
      WellFormed chatId card wizardId (answers chatId wizardId w events) (run (step chatId) w events)) ↔
      card.Answerable := by
  have hfields : (card.steps.map Step.field).Nodup := by
    rw [map_field_steps]
    exact hnames
  have hsteps : card.steps ≠ [] := steps_ne_nil hdropdown
  constructor
  · intro h
    -- a wizard of the card is answered to its end
    obtain ⟨events, given, user, k, hmem⟩ := exists_completed (get?_sent hsteps ⟨∅, ∅⟩ true) hsteps
    exact (completeWizard_isSome_iff hfields user "m").mp ((h ⟨∅, ∅⟩ 1 "a1b2c3" true events).responds _ hmem rfl)
  · intro hcard redis chatId wizardId delivers events
    exact wellFormed_of_progress hfields hcard (progress_sent hdropdown redis delivers events)

/-- A choice and a text. -/
def routerCard : Card where
  cardId := "klk_router_card"
  widgets := [.dropdown "pinnokio_func" "Action" [⟨"Yes", "yes"⟩] none, .textInput "instructions" "Instructions" ""]
  contextText := ""
  mandatePath := "m"
  threadKey := "t"
  department := "Router"

/-- Its answers, with a callback in between that is stale. -/
def twoAnswers : List Event :=
  [.inbound (press 0),
    .inbound ⟨.callback "w:a1b2c3:0:no", "m", some ⟨"u", "c"⟩, true⟩,
    .inbound ⟨.message "now", "m", some ⟨"u", "c"⟩, true⟩]

/-- The stale one is no answer, and the wizard is completed with the others, which it publishes. -/
theorem router_well_formed :
    let w := sendTelegramWizard ⟨⟨∅, ∅⟩, [], [], []⟩ 1 routerCard "a1b2c3" true
    answers 1 "a1b2c3" w twoAnswers = ["yes", "now"] ∧
      WellFormed 1 routerCard "a1b2c3" (answers 1 "a1b2c3" w twoAnswers) (run (step 1) w twoAnswers) ∧
      (completionsOf (wizardKey 1 "a1b2c3") (run (step 1) w twoAnswers)).map (fun c =>
        c.response.map fun response => (response.values "pinnokio_func", response.values "instructions")) =
          [some (some [some "yes"], some [some "now"])] :=
  ⟨rfl, (wizard_well_formed_iff routerCard rfl (by decide)).mpr (.inr (by decide)) ⟨∅, ∅⟩ 1 "a1b2c3" true twoAnswers,
    rfl⟩

/-- A choice that is called as the answers are. -/
def valuesCard : Card where
  cardId := "klk_router_card"
  widgets := [.dropdown "widget_values" "Action" [⟨"Yes", "yes"⟩] none]
  contextText := ""
  mandatePath := "m"
  threadKey := "t"
  department := "Router"

/-- **Its answer is not published**, although all of its steps are answered. -/
theorem values_unpublished :
    let w := sendTelegramWizard ⟨⟨∅, ∅⟩, [], [], []⟩ 1 valuesCard "a1b2c3" true
    valuesCard.hasDropdowns = true ∧ valuesCard.widgets.filterMap Widget.name? = ["widget_values"] ∧
      answers 1 "a1b2c3" w [.inbound (press 0)] = ["yes"] ∧
      (completionsOf (wizardKey 1 "a1b2c3") (run (step 1) w [.inbound (press 0)])).map Completion.response = [none] ∧
      ¬WellFormed 1 valuesCard "a1b2c3" ["yes"] (run (step 1) w [.inbound (press 0)]) := by
  intro w
  have hone : completionsOf (wizardKey 1 "a1b2c3") (run (step 1) w [.inbound (press 0)]) =
      [⟨wizardKey 1 "a1b2c3", press 0, none⟩] := rfl
  refine ⟨rfl, rfl, rfl, rfl, fun h => ?_⟩
  have hresponds := h.responds ⟨wizardKey 1 "a1b2c3", press 0, none⟩ (by rw [hone]; exact List.mem_singleton_self _) rfl
  exact Bool.false_ne_true hresponds

end Pinnokio.Communication
