import Pinnokio.Lib.Dict

/-!
# Cards of the workers

A worker sends a card of widgets; what the user answers goes back as the form inputs of a click on the card.  Each card
of an external worker has its own form fields (`FORM_FIELDS_BY_CARD`), and the values of the widgets with these names
fill them in.

* `get?_buildFormInputs` — the form inputs are the fields of the card, each with its value;
* `fieldValue_of_text` — the value of a field that a widget has answered is the answer;
* `buildFormInputs_isSome_iff` — they can be built unless a widget of a card with form fields is called
  `widget_values`.
-/

namespace Pinnokio.Communication

/-- `EXTERNAL_WORKER_CARD_IDS`. -/
def externalWorkerCardIds : List String :=
  ["klk_router_card", "klk_router_approval_card", "four_eyes_approval_card", "approval_card", "job_menu_card",
    "bank_list_file_card", "bank_file_list_card", "email_draft_approval_card", "journal_entry_approval_card"]

/-- `DEFAULT_INVOKED_FUNCTION`. -/
def defaultInvokedFunction : Dict String String :=
  Dict.ofList [
    ("klk_router_card", "answer_pinnokio"),
    ("klk_router_approval_card", "answer_pinnokio"),
    ("four_eyes_approval_card", "approve_four_eyes"),
    ("approval_card", "approve_four_eyes"),
    ("job_menu_card", "navigate"),
    ("bank_list_file_card", "start_router_job"),
    ("bank_file_list_card", "start_router_job"),
    ("email_draft_approval_card", "email_draft_decision"),
    ("journal_entry_approval_card", "journal_entry_decision")]

/-- `FORM_FIELDS_BY_CARD`. -/
def formFieldsByCard : Dict String (List String) :=
  Dict.ofList [
    ("klk_router_card", ["pinnokio_func", "instructions"]),
    ("klk_router_approval_card", ["pinnokio_func", "second_dropdown", "instructions"]),
    ("four_eyes_approval_card", ["user_message"]),
    ("approval_card", ["user_message"]),
    ("job_menu_card", ["next_step"]),
    ("bank_list_file_card", ["selected_files", "methode"]),
    ("bank_file_list_card", ["selected_files", "methode"]),
    ("email_draft_approval_card", ["decision", "modified_body"]),
    ("journal_entry_approval_card", ["decision", "rejection_reason"])]

/-- `FORM_FIELDS_BY_CARD.get(card_id, [])`. -/
def formFields (cardId : String) : List String := (formFieldsByCard.get? cardId).getD []

/-- A choice of a dropdown. -/
structure Item where
  text : String
  value : String

/-- A widget as `parse_widget` returns it; the buttons of a card are of no use to a wizard. -/
inductive Widget where
  | dropdown (name label : String) (items : List Item) (defaultValue : Option String)
  | multiSelect (name label : String) (items : List Item) (defaultValue : Option String)
  | textInput (name label hintText : String)
  | buttonList
  | textParagraph (text : String)

namespace Widget

/-- The name under which a widget is answered. -/
def name? : Widget → Option String
  | dropdown name _ _ _ => some name
  | multiSelect name _ _ _ => some name
  | textInput name _ _ => some name
  | buttonList => none
  | textParagraph _ => none

/-- `w["type"] in ("dropdown", "multi_select")`. -/
def isDropdown : Widget → Bool
  | dropdown _ _ _ _ => true
  | multiSelect _ _ _ _ => true
  | _ => false

end Widget

/-- The answers to the widgets of a card, by their names; `none` is `None`. -/
abbrev WidgetValues := Dict String (Option String)

/-- `values.get(k) or ""`. -/
def WidgetValues.text (values : WidgetValues) (k : String) : String := (values.get? k).join.getD ""

/-- The value of a form field. -/
def fieldValue (values : WidgetValues) (fieldName : String) : String :=
  match (values.get? fieldName).join with
  | some rawValue => rawValue
  | none =>
      if fieldName = "instructions" ∨ fieldName = "user_message" then
        if values.text "comment" = "" then values.text "user_message" else values.text "comment"
      else ""

/-- `_build_form_inputs` on the answers of a wizard; `none` is the `AttributeError` of a text under `widget_values`,
where the answers themselves may stand. -/
def buildFormInputs (cardId : String) (widgetValues : WidgetValues) : Option (Dict String (List String)) :=
  if (widgetValues.get? "widget_values").isSome ∧ formFields cardId ≠ [] then none
  else some (Dict.tabulate (formFields cardId) fun fieldName => some [fieldValue widgetValues fieldName])

/-- `_determine_invoked_function`. -/
def determineInvokedFunction (cardId action : String) : String :=
  if cardId = "four_eyes_approval_card" ∨ cardId = "approval_card" then
    if action = "reject" ∨ action = "rejected" ∨ action = "reject_four_eyes" then "reject_four_eyes"
    else "approve_four_eyes"
  else if cardId = "job_menu_card" then "navigate"
  else (defaultInvokedFunction.get? cardId).getD "answer_pinnokio"

/-- A `CARD_CLICKED_PINNOKIO` message, but for its time. -/
structure CardClicked where
  threadKey : String
  cardId : String
  subtitle : String
  invokedFunction : String
  formInputs : Dict String (List String)
  senderId : String
  communicationChatType : Option String := none
  externalThreadId : Option String := none

/-- `build_card_clicked_payload`. -/
def buildCardClickedPayload (cardId : String) (widgetValues : WidgetValues) (threadKey userId : String) :
    Option CardClicked :=
  let action := match widgetValues.get? "action" with
    | none => "approve"
    | some none => "None"
    | some (some action) => action
  (buildFormInputs cardId widgetValues).map fun formInputs =>
    { threadKey := threadKey
      cardId := cardId
      subtitle := "Action: " ++ action
      invokedFunction := determineInvokedFunction cardId action
      formInputs := formInputs
      senderId := userId }

/-! ### What is filled in -/

section FormInputs

variable {cardId : String} {values : WidgetValues}

/-- The value of a field that a widget has answered. -/
theorem fieldValue_of_text {fieldName value : String} (h : values.get? fieldName = some (some value)) :
    fieldValue values fieldName = value := by
  unfold fieldValue
  rw [h]
  rfl

/-- The form inputs are the fields of the card. -/
theorem get?_buildFormInputs {formInputs : Dict String (List String)}
    (h : buildFormInputs cardId values = some formInputs) (fieldName : String) :
    formInputs.get? fieldName = if fieldName ∈ formFields cardId then some [fieldValue values fieldName] else none := by
  unfold buildFormInputs at h
  split at h
  · cases h
  · cases h
    exact Dict.get?_tabulate _ _ _

/-- They can be built unless a widget has taken the name of the answers, and there is a field to be looked up in it. -/
theorem buildFormInputs_isSome_iff :
    (buildFormInputs cardId values).isSome ↔ formFields cardId = [] ∨ values.get? "widget_values" = none := by
  rw [buildFormInputs]
  split_ifs with h
  · refine iff_of_false Bool.false_ne_true ?_
    rintro (hfields | hnone)
    · exact h.2 hfields
    · rw [hnone] at h
      exact Bool.false_ne_true h.1
  · refine iff_of_true rfl ?_
    rw [not_and_or, not_not, Bool.not_eq_true, Option.isSome_eq_false_iff, Option.isNone_iff_eq_none] at h
    exact h.symm

/-- A payload has the form inputs. -/
theorem formInputs_of_payload {threadKey userId : String} {standard : CardClicked}
    (h : buildCardClickedPayload cardId values threadKey userId = some standard) :
    buildFormInputs cardId values = some standard.formInputs := by
  obtain ⟨formInputs, hformInputs, rfl⟩ := Option.map_eq_some_iff.mp h
  exact hformInputs

end FormInputs

end Pinnokio.Communication
