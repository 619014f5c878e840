import Pinnokio.Communication.Wizard

/-!
# The buttons of a wizard

The button of an item carries the wizard, the step and the value of the item in one text, of which only the first 64
characters are sent.  When it comes back the text is split at its first three colons, and one value stands for no
answer.

* `handleWizardCallback_of_recordedBy` — what a callback does once its answer is recorded;
* `parseCallback_button` — what is read from the text of a button;
* `button_records_iff` — **a button records the value of its item** exactly when the value is not `__skip__` and is not
  cut off.
-/

namespace Pinnokio.Communication

open Pinnokio.Text

/-! ### What a callback records -/

/-- The wizard that a callback names, with the value that `_handle_wizard_callback` stores in its current step; `none`
if it stores none. -/
def recordedBy (w : World) (chatId : ℤ) (callbackData : String) : Option (String × WizardState) :=
  match parseCallback callbackData with
  | none => none
  | some (wizardId, stepIdx, value) =>
      match w.redis.wizards.get? (wizardKey chatId wizardId) with
      | none => none
      | some state =>
          if stepIdx ≠ state.currentStep then none
          else if state.steps.length ≤ state.currentStep then none
          else some (wizardId, state.record (answerOf value))

/-- The data of the button of an item. -/
def buttonData (state : WizardState) (j : ℕ) : Option String :=
  match sendWizardStep state with
  | some (.withButtons _ _ buttons _) => buttons[j]?.bind fun row => row.head?.map Button.callbackData
  | _ => none

/-- Six characters of `uuid.uuid4().hex`. -/
def IsWizardId (id : String) : Prop := id.toList.length = 6 ∧ ∀ c ∈ id.toList, c ∈ "0123456789abcdef".toList

section Recorded

variable {w : World} {chatId : ℤ} {callbackData wizardId : String} {state : WizardState} {i : Inbound} {user : User}

/-- A callback that records an answer goes on with the wizard that has it. -/
theorem handleWizardCallback_of_recordedBy (h : recordedBy w chatId callbackData = some (wizardId, state)) :
    ∃ before answer, w.redis.wizards.get? (wizardKey chatId wizardId) = some before ∧ state = before.record answer ∧
      handleWizardCallback w chatId callbackData i user = advance w chatId wizardId before answer i user true := by
  unfold recordedBy at h
  unfold handleWizardCallback
  cases hparse : parseCallback callbackData with
  | none =>
      rw [hparse] at h
      cases h
  | some parsed =>
      obtain ⟨id, stepIdx, value⟩ := parsed
      rw [hparse] at h
      dsimp only at h ⊢
      cases hget : w.redis.wizards.get? (wizardKey chatId id) with
      | none =>
          rw [hget] at h
          cases h
      | some before =>
          rw [hget] at h
          dsimp only at h ⊢
          split_ifs at h with hstep hlast
          cases h
          refine ⟨before, answerOf value, hget, rfl, ?_⟩
          rw [if_neg hstep, if_neg hlast]

/-- Any other one does nothing. -/
theorem handleWizardCallback_of_none (h : recordedBy w chatId callbackData = none) :
    handleWizardCallback w chatId callbackData i user = w := by
  unfold recordedBy at h
  unfold handleWizardCallback
  cases hparse : parseCallback callbackData with
  | none => rfl
  | some parsed =>
      obtain ⟨id, stepIdx, value⟩ := parsed
      rw [hparse] at h
      dsimp only at h ⊢
      cases hget : w.redis.wizards.get? (wizardKey chatId id) with
      | none => rfl
      | some before =>
          rw [hget] at h
          dsimp only at h ⊢
          split_ifs at h with hstep hlast
          · rw [if_pos hstep]
          · rw [if_neg hstep, if_pos hlast]

end Recorded

/-! ### The text of a button -/

section Button

variable {state : WizardState} {step : Step} {items : List Item} {default : Option String} {j : ℕ} {item : Item}

/-- The text of a button, before it is cut. -/
def buttonChars (wizardId : String) (stepIdx : ℕ) (value : List Char) : List Char :=
  'w' :: ':' :: (wizardId.toList ++ ':' :: ((toString stepIdx).toList ++ ':' :: value))

theorem toList_callback (wizardId value : String) (stepIdx : ℕ) :
    ("w:" ++ wizardId ++ ":" ++ toString stepIdx ++ ":" ++ value).toList =
      buttonChars wizardId stepIdx value.toList := by
  simp [buttonChars]

theorem buttonData_eq (hstep : state.steps[state.currentStep]? = some step) (htype : step.type = .choice items default)
    (hitem : items[j]? = some item) : buttonData state j =
      some (String.ofList ((buttonChars state.wizardId state.currentStep item.value.toList).take 64)) := by
  rw [buttonData, sendWizardStep, hstep, Option.map_some]
  dsimp only
  rw [htype]
  dsimp only
  rw [List.getElem?_map, hitem, ← toList_callback]
  rfl

theorem IsWizardId.colon_not_mem {id : String} (h : IsWizardId id) : ':' ∉ id.toList := fun hmem =>
  absurd (h.2 ':' hmem) (by decide)

/-- **What is read from the text of a button**: all but what was cut off, or nothing if the number of the step was. -/
theorem parseCallback_button {wizardId : String} (hid : IsWizardId wizardId) (stepIdx : ℕ) (value : List Char) :
    parseCallback (String.ofList ((buttonChars wizardId stepIdx value).take 64)) =
      if (toString stepIdx).toList.length ≤ 54 then
        some (wizardId, (stepIdx : ℤ), String.ofList (value.take (54 - (toString stepIdx).toList.length)))
      else none := by
  have hw : ':' ∉ ['w'] := by decide
  have hnumber := colon_not_mem_toString stepIdx
  have hsplit : ∀ rest, splitCharsAtMost ':' 3 ('w' :: ':' :: (wizardId.toList ++ ':' :: rest)) =
      ['w'] :: wizardId.toList :: splitCharsAtMost ':' 1 rest := fun rest => by
    rw [← splitCharsAtMost_append hid.colon_not_mem]
    exact splitCharsAtMost_append hw 2 _
  have htake : (buttonChars wizardId stepIdx value).take 64 =
      'w' :: ':' :: (wizardId.toList ++ ':' :: ((toString stepIdx).toList ++ ':' :: value).take 55) := by
    rw [buttonChars, List.take_succ_cons, List.take_succ_cons, List.take_append, hid.1,
      List.take_of_length_le (by rw [hid.1]; decide), List.take_succ_cons]
  rw [parseCallback, splitAtMost, String.toList_ofList, htake, hsplit]
  split_ifs with hlength
  · obtain ⟨room, hroom⟩ : ∃ room, 55 - (toString stepIdx).toList.length = room + 1 :=
      Nat.exists_eq_succ_of_ne_zero (by omega)
    have hrest : 54 - (toString stepIdx).toList.length = room := by omega
    rw [List.take_append, List.take_of_length_le (by omega), hroom, List.take_succ_cons,
      splitCharsAtMost_append hnumber, splitCharsAtMost, hrest]
    simp only [List.map_cons, List.map_nil, String.ofList_toList, Numbers.int?_toString, Option.map_some]
  · -- the number itself is cut, and no colon is left behind it
    rw [List.take_append_of_le_length (by omega),
      splitCharsAtMost_of_not_mem fun hmem => hnumber (List.mem_of_mem_take hmem)]
    simp only [List.map_cons, List.map_nil]

theorem record_inj {answer answer' : String} (h : state.currentStep < state.steps.length) :
    state.record answer = state.record answer' ↔ answer = answer' := by
  refine ⟨fun heq => ?_, fun heq => by rw [heq]⟩
  have hsteps := congrArg (fun s => s.steps[state.currentStep]?.bind Step.selected) heq
  simpa [WizardState.record, List.getElem?_modify, List.getElem?_eq_getElem h] using hsteps

/-- What is recorded for what is left of a value is the value, if that is not the mark of no answer and is not cut. -/
theorem answerOf_take_iff (value : String) (n : ℕ) :
    answerOf (String.ofList (value.toList.take n)) = value ↔ value ≠ "__skip__" ∧ value.toList.length ≤ n := by
  rw [answerOf]
  constructor
  · intro h
    split_ifs at h with hskip
    · have hempty : String.ofList ("".toList.take n) = "" := by simp
      rw [← h, hempty] at hskip
      exact absurd hskip (by decide)
    · have hlength := congrArg (fun s => s.toList.length) h
      simp only [String.toList_ofList, List.length_take] at hlength
      exact ⟨fun hvalue => hskip (h.trans hvalue), by omega⟩
  · rintro ⟨hskip, hlength⟩
    rw [List.take_of_length_le hlength, String.ofList_toList, if_neg hskip]

/-- **A button records the value of its item** exactly when the value is not the mark of no answer, and it has room
behind the number of the step: with the six characters of the wizard and the colons, 54 characters for both. -/
theorem button_records_iff {w : World} {chatId : ℤ} (hid : IsWizardId state.wizardId)
    (hstored : w.redis.wizards.get? (wizardKey chatId state.wizardId) = some state)
    (hstep : state.steps[state.currentStep]? = some step) (htype : step.type = .choice items default)
    (hitem : items[j]? = some item) :
    (∃ data, buttonData state j = some data ∧
        recordedBy w chatId data = some (state.wizardId, state.record item.value)) ↔
      item.value ≠ "__skip__" ∧ item.value.toList.length + (toString state.currentStep).toList.length ≤ 54 := by
  have hlt : state.currentStep < state.steps.length := (List.getElem?_eq_some_iff.mp hstep).1
  rw [buttonData_eq hstep htype hitem]
  simp only [Option.some.injEq, exists_eq_left', recordedBy, parseCallback_button hid]
  by_cases hlength : (toString state.currentStep).toList.length ≤ 54
  · rw [if_pos hlength]
    dsimp only
    rw [hstored]
    dsimp only
    rw [if_neg (not_not_intro rfl), if_neg (Nat.not_le_of_lt hlt), Option.some_inj, Prod.mk.injEq,
      and_iff_right rfl, record_inj hlt, answerOf_take_iff]
    refine and_congr_right fun _ => ?_
    omega
  · rw [if_neg hlength]
    refine iff_of_false (fun h => ?_) fun h => hlength (by omega)
    cases h

end Button

/-! ### Values that are not recorded -/

/-- A wizard that asks for a folder. -/
def folderWizard (value : String) : WizardState where
  cardId := "klk_router_card"
  mandatePath := "m"
  chatId := 1
  threadKey := "t"
  department := "Router"
  contextText := ""
  steps := [⟨"folder", .choice [⟨"Folder", value⟩] none, "Folder", none⟩]
  currentStep := 0
  wizardId := "a1b2c3"

/-- The wizard is stored. -/
def storing (state : WizardState) : World :=
  ⟨⟨Dict.empty.set (wizardKey 1 state.wizardId) state, Dict.empty⟩, [], [], []⟩

theorem isWizardId_folder (value : String) : IsWizardId (folderWizard value).wizardId := by
  simp [IsWizardId, folderWizard]

/-- A value with a colon is recorded. -/
theorem folder_recorded : ∃ data, buttonData (folderWizard "drive:invoices") 0 = some data ∧
    recordedBy (storing (folderWizard "drive:invoices")) 1 data =
      some ("a1b2c3", (folderWizard "drive:invoices").record "drive:invoices") := by
  have hitem : [(⟨"Folder", "drive:invoices"⟩ : Item)][0]? = some ⟨"Folder", "drive:invoices"⟩ := rfl
  refine (button_records_iff (isWizardId_folder "drive:invoices") (Dict.get?_set_self ..) rfl rfl hitem).mpr ?_
  exact ⟨by decide, by decide⟩

/-- **The mark of no answer and a long path are not recorded** when they are the values of items. -/
theorem folder_lost :
    (∃ data, buttonData (folderWizard "__skip__") 0 = some data ∧
      (recordedBy (storing (folderWizard "__skip__")) 1 data).map (fun r => r.2.steps.map Step.selected) =
        some [some ""]) ∧
      ∃ data, buttonData (folderWizard "clients/2024/suppliers/international/invoices/to_process") 0 = some data ∧
        (recordedBy (storing (folderWizard "clients/2024/suppliers/international/invoices/to_process")) 1 data).map
          (fun r => r.2.steps.map Step.selected) =
            some [some "clients/2024/suppliers/international/invoices/to_proc"] :=
  ⟨⟨_, rfl, rfl⟩, _, rfl, rfl⟩

end Pinnokio.Communication
