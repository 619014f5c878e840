import Pinnokio.Lib.MergeSave
import Pinnokio.Lib.Roster
import Pinnokio.Lib.Text

/-!
# Telegram rooms of a company

People register for the rooms of a company from Telegram.  Two places say who they are: the company's mandate document,
with the users of each room and the list of all authorized users, and the `telegram_users` collection, with the
companies of each user; messages are let in by the second one.  Three handlers write both: a registration that
succeeded, the removal of a user from a room, and the reset of a room.

The mandate document is saved by merging, so that a room which is deleted from the map of rooms comes back with its
users unless it was the last one.  The handlers are compared with the rosters of `Lib/Roster.lean`.

* `Consistent` and its step lemma — a user is authorized for a company exactly when the document lists them;
* `covers_step` — every handler leaves at least the memberships that were asked for, and exactly the grants;
* `view_step_iff` — it leaves exactly these memberships when it does not empty one of several rooms.
-/

namespace Pinnokio.Telegram

open Dict (mergeSaved)

/-! ### The documents -/

/-- `username.replace("@", "").strip()`. -/
def cleanName (username : String) : String := Text.strip (Text.replaceChar username '@' "")

/-- The users of a room: a list, or the single name that older documents hold. -/
inductive Assigned
  | one (username : String)
  | many (usernames : List String)
  deriving DecidableEq

/-- Legacy migration: a string becomes a list. -/
def Assigned.toList : Assigned → List String
  | .one u => if u = "" then [] else [u]
  | .many us => us

/-- The fields of a mandate document that the rooms use. -/
structure MandateDoc where
  telegramUsersMapping : Dict String String
  telegramRoomAssignments : Dict String Assigned
  telegramAuthUsers : List String
  deriving DecidableEq

/-- What an authorization of a user for a mandate records. -/
structure MandateData where
  firebaseUserId : String
  mandatePath : String
  companyName : String
  clientName : String
  mandateDocId : String
  telegramChatId : String
  roomName : String
  deriving DecidableEq

/-- A document of `telegram_users`. -/
structure TelegramUser where
  isActive : Bool
  authorizedMandates : Dict String MandateData
  deriving DecidableEq

/-- The two collections. -/
structure Store where
  mandates : Dict String MandateDoc
  telegramUsers : Dict String TelegramUser
  deriving DecidableEq

/-- Nothing is stored. -/
def Store.empty : Store := ⟨∅, ∅⟩

/-- `get_document(path) or {}`. -/
def Store.getDocument (s : Store) (path : String) : MandateDoc := (s.mandates.get? path).getD ⟨∅, ∅, []⟩

/-- The data of `set_document(path, …, merge=True)`: the map fields merge, the list is replaced when it is there. -/
structure MandateUpdate where
  telegramUsersMapping : Dict String String
  telegramRoomAssignments : Dict String Assigned
  telegramAuthUsers : Option (List String)

/-- A document after a merge. -/
def MandateDoc.merged (d : MandateDoc) (u : MandateUpdate) : MandateDoc :=
  ⟨mergeSaved d.telegramUsersMapping u.telegramUsersMapping,
    mergeSaved d.telegramRoomAssignments u.telegramRoomAssignments, u.telegramAuthUsers.getD d.telegramAuthUsers⟩

/-- `set_document` with `merge=True`. -/
def Store.setDocument (s : Store) (path : String) (u : MandateUpdate) : Store :=
  { s with mandates := s.mandates.set path ((s.getDocument path).merged u) }

/-! ### The collection of users -/

/-- The authorization of a user for a mandate. -/
def Store.authorization (s : Store) (username path : String) : Option MandateData :=
  (s.telegramUsers.get? username).bind fun d => d.authorizedMandates.get? path

/-- `create_telegram_user`: an authorization that exists stays as it is. -/
def Store.createTelegramUser (s : Store) (username path : String) (data : MandateData) : Store :=
  match s.telegramUsers.get? username with
  | some d =>
      if (d.authorizedMandates.get? path).isSome then s
      else { s with telegramUsers :=
        s.telegramUsers.set username { d with authorizedMandates := d.authorizedMandates.set path data } }
  | none => { s with telegramUsers := s.telegramUsers.set username ⟨true, (∅ : Dict String MandateData).set path data⟩ }

/-- `delete_telegram_user`: a user without authorizations is deleted altogether. -/
def Store.deleteTelegramUser (s : Store) (username path : String) : Store :=
  match s.telegramUsers.get? username with
  | none => s
  | some d =>
      if (d.authorizedMandates.get? path).isSome then
        let authorizedMandates := d.authorizedMandates.erase path
        if authorizedMandates.isEmpty then { s with telegramUsers := s.telegramUsers.erase username }
        else { s with telegramUsers :=
          s.telegramUsers.set username { d with authorizedMandates := authorizedMandates } }
      else s

/-- `is_telegram_user_authorized`. -/
def Store.isTelegramUserAuthorized (s : Store) (username path : String) : Bool :=
  match s.telegramUsers.get? username with
  | some d => d.isActive && (d.authorizedMandates.get? path).isSome
  | none => false

/-! ### The handlers -/

/-- The user name of a Telegram account, as its messages carry it: not empty, without `@` or blanks around it. -/
structure Username where
  text : String
  clean : cleanName text = text
  ne : text ≠ ""

/-- What `on_success` of a registration is called with. -/
structure Registration where
  uid : String
  companyId : String
  mandatePath : String
  roomName : String
  companyName : String
  clientName : String
  chatId : String
  sender : Username

/-- The users of a room, or nobody. -/
def assignedTo (assignments : Dict String Assigned) (room : String) : List String :=
  ((assignments.get? room).map Assigned.toList).getD []

/-- `append` of what a list does not have yet. -/
def addNew (xs : List String) (x : String) : List String := if x ∈ xs then xs else xs ++ [x]

/-- `on_success` of `handle_telegram_start_registration`. -/
def Store.onSuccess (s : Store) (r : Registration) : Store :=
  let s := s.createTelegramUser r.sender.text r.mandatePath
    ⟨r.uid, r.mandatePath, r.companyName, r.clientName, r.companyId, r.chatId, r.roomName⟩
  let d := s.getDocument r.mandatePath
  let authUsers := addNew d.telegramAuthUsers (cleanName r.sender.text)
  let existing := addNew (assignedTo d.telegramRoomAssignments r.roomName) r.sender.text
  s.setDocument r.mandatePath
    ⟨(∅ : Dict String String).set r.roomName r.chatId, (∅ : Dict String Assigned).set r.roomName (.many existing),
      some authUsers⟩

/-- The payload of `company_settings.telegram_remove_user`: no room name, or an empty one, is `none`. -/
structure Removal where
  mandatePath : String
  roomName : Option String
  username : String

/-- The users of a room without one of them, with or without `@`. -/
def withoutUser (a : Assigned) (clean : String) : List String := a.toList.filter fun u => cleanName u ≠ clean

/-- The last user is removed from a room. -/
def clearsRoom (assignments : Dict String Assigned) (room clean : String) : Bool :=
  match assignments.get? room with
  | some a => (withoutUser a clean).isEmpty
  | none => false

/-- Step 1: the rooms after the removal from the target room only. -/
def roomsWithout (assignments : Dict String Assigned) (room : Option String) (clean : String) : Dict String Assigned :=
  match room with
  | none => assignments
  | some room =>
      match assignments.get? room with
      | none => assignments
      | some a =>
          if (withoutUser a clean).isEmpty then assignments.erase room
          else assignments.set room (.many (withoutUser a clean))

/-- Step 1: the chats of the rooms, where a room without users loses its chat. -/
def mappingWithout (mapping : Dict String String) (assignments : Dict String Assigned) (room : Option String)
    (clean : String) : Dict String String :=
  match room with
  | none => mapping
  | some room => if clearsRoom assignments room clean then mapping.erase room else mapping

/-- The users of a room where step 2 looks for one: here an empty legacy name counts. -/
def Assigned.searched : Assigned → List String
  | .one u => [u]
  | .many us => us

/-- Step 2: whether a user is still in any room. -/
def userStillInRooms (assignments : Dict String Assigned) (clean : String) : Bool :=
  assignments.entries.any fun e => e.2.searched.any fun u => cleanName u = clean

/-- `handle_telegram_remove_user`. -/
def Store.removeUser (s : Store) (p : Removal) : Store :=
  let clean := cleanName p.username
  let d := s.getDocument p.mandatePath
  let mapping := mappingWithout d.telegramUsersMapping d.telegramRoomAssignments p.roomName clean
  let assignments := roomsWithout d.telegramRoomAssignments p.roomName clean
  if userStillInRooms assignments clean then
    s.setDocument p.mandatePath ⟨mapping, assignments, some d.telegramAuthUsers⟩
  else
    (s.deleteTelegramUser clean p.mandatePath).setDocument p.mandatePath
      ⟨mapping, assignments, some (d.telegramAuthUsers.erase clean)⟩

/-- `handle_telegram_reset_room`. -/
def Store.resetRoom (s : Store) (path room : String) : Store :=
  let d := s.getDocument path
  s.setDocument path ⟨d.telegramUsersMapping.erase room, d.telegramRoomAssignments.erase room, none⟩

/-- The requests that reach the handlers. -/
inductive Op
  | register (r : Registration)
  | remove (p : Removal)
  | reset (mandatePath roomName : String)

/-- One request. -/
def step (s : Store) : Op → Store
  | .register r => s.onSuccess r
  | .remove p => s.removeUser p
  | .reset path room => s.resetRoom path room

/-! ### What the two collections say -/

/-- The users of all rooms. -/
def membersOf (assignments : Dict String Assigned) : Set (String × String) :=
  {p | ∃ u ∈ assignedTo assignments p.1, cleanName u = p.2}

/-- The roster of a mandate: the users that its rooms list, and where the replies of an authorized user go. -/
def Store.view (s : Store) (path : String) : Roster String String String :=
  ⟨membersOf (s.getDocument path).telegramRoomAssignments,
    fun u => (s.authorization u path).map MandateData.firebaseUserId⟩

/-- The two collections agree on who is authorized. -/
structure Consistent (s : Store) : Prop where
  nodup : ∀ path, (s.getDocument path).telegramAuthUsers.Nodup
  listed : ∀ path u, u ∈ (s.getDocument path).telegramAuthUsers ↔ (s.authorization u path).isSome = true
  active : ∀ u d, s.telegramUsers.get? u = some d → d.isActive = true
  named : ∀ path, s.authorization "" path = none

theorem consistent_empty : Consistent Store.empty :=
  ⟨fun _ => List.nodup_nil, fun _ _ => ⟨fun h => absurd h List.not_mem_nil, fun h => absurd h Bool.false_ne_true⟩,
    fun _ _ h => absurd h (Option.some_ne_none _).symm, fun _ => rfl⟩

/-- Authorized means that the authorization is there. -/
theorem authorized_iff {s : Store} (hs : Consistent s) (u path : String) :
    s.isTelegramUserAuthorized u path = true ↔ (s.authorization u path).isSome = true := by
  rw [Store.isTelegramUserAuthorized, Store.authorization]
  cases hd : s.telegramUsers.get? u with
  | none => exact Iff.rfl
  | some d =>
      show (d.isActive && (d.authorizedMandates.get? path).isSome) = true ↔ (d.authorizedMandates.get? path).isSome = true
      rw [hs.active u d hd, Bool.true_and]

/-! ### What the writes change -/

section Writes

variable (s : Store)

theorem getDocument_setDocument (path : String) (u : MandateUpdate) (path' : String) :
    (s.setDocument path u).getDocument path' =
      if path' = path then (s.getDocument path).merged u else s.getDocument path' := by
  show ((s.mandates.set path ((s.getDocument path).merged u)).get? path').getD ⟨∅, ∅, []⟩ = _
  rw [Dict.get?_set]
  by_cases h : path' = path
  · rw [if_pos h, if_pos h]
    rfl
  · rw [if_neg h, if_neg h]
    rfl

theorem authorization_setDocument (path : String) (u : MandateUpdate) (w path' : String) :
    (s.setDocument path u).authorization w path' = s.authorization w path' := rfl

theorem getDocument_createTelegramUser (u path : String) (a : MandateData) (path' : String) :
    (s.createTelegramUser u path a).getDocument path' = s.getDocument path' := by
  unfold Store.createTelegramUser
  split
  · split <;> rfl
  · rfl

theorem getDocument_deleteTelegramUser (u path path' : String) :
    (s.deleteTelegramUser u path).getDocument path' = s.getDocument path' := by
  unfold Store.deleteTelegramUser
  split
  · rfl
  · split
    · dsimp only
      split <;> rfl
    · rfl

theorem authorization_createTelegramUser (u path : String) (a : MandateData) (w path' : String) :
    (s.createTelegramUser u path a).authorization w path' =
      if w = u ∧ path' = path then some ((s.authorization u path).getD a) else s.authorization w path' := by
  unfold Store.createTelegramUser
  cases hd : s.telegramUsers.get? u with
  | none =>
      show ((s.telegramUsers.set u ⟨true, (∅ : Dict String MandateData).set path a⟩).get? w).bind _ = _
      rw [Dict.get?_set]
      by_cases hw : w = u
      · subst hw
        rw [if_pos rfl, Option.bind_some, Dict.get?_set, Store.authorization, Store.authorization, hd]
        by_cases hp : path' = path
        · rw [if_pos hp, if_pos ⟨rfl, hp⟩]
          rfl
        · rw [if_neg hp, if_neg fun h => hp h.2]
          rfl
      · rw [if_neg hw, if_neg fun h => hw h.1]
        rfl
  | some d =>
      show Store.authorization (if (d.authorizedMandates.get? path).isSome then s else _) w path' = _
      have hu : s.authorization u path = d.authorizedMandates.get? path := by
        rw [Store.authorization, hd]
        rfl
      cases ha : d.authorizedMandates.get? path with
      | some b =>
          rw [Option.isSome_some, if_pos rfl, hu, ha]
          by_cases hw : w = u ∧ path' = path
          · obtain ⟨rfl, rfl⟩ := hw
            rw [if_pos ⟨rfl, rfl⟩, hu, ha]
            rfl
          · rw [if_neg hw]
      | none =>
          rw [hu, ha]
          show ((s.telegramUsers.set u _).get? w).bind _ = _
          rw [Dict.get?_set]
          by_cases hw : w = u
          · subst hw
            rw [if_pos rfl, Option.bind_some, Dict.get?_set, Store.authorization, hd]
            by_cases hp : path' = path
            · rw [if_pos hp, if_pos ⟨rfl, hp⟩]
              rfl
            · rw [if_neg hp, if_neg fun h => hp h.2]
              rfl
          · rw [if_neg hw, if_neg fun h => hw h.1]
            rfl

theorem authorization_deleteTelegramUser (u path w path' : String) :
    (s.deleteTelegramUser u path).authorization w path' =
      if w = u ∧ path' = path then none else s.authorization w path' := by
  unfold Store.deleteTelegramUser
  cases hd : s.telegramUsers.get? u with
  | none =>
      by_cases hw : w = u ∧ path' = path
      · obtain ⟨rfl, rfl⟩ := hw
        rw [if_pos ⟨rfl, rfl⟩]
        show s.authorization w path' = none
        rw [Store.authorization, hd]
        rfl
      · rw [if_neg hw]
  | some d =>
      have hu : ∀ path, s.authorization u path = d.authorizedMandates.get? path := fun path => by
        rw [Store.authorization, hd]
        rfl
      show Store.authorization (if (d.authorizedMandates.get? path).isSome then _ else s) w path' = _
      cases ha : d.authorizedMandates.get? path with
      | none =>
          rw [Option.isSome_none, if_neg Bool.false_ne_true]
          by_cases hw : w = u ∧ path' = path
          · obtain ⟨rfl, rfl⟩ := hw
            rw [if_pos ⟨rfl, rfl⟩]
            exact (hu path').trans ha
          · rw [if_neg hw]
      | some b =>
          rw [Option.isSome_some, if_pos rfl]
          dsimp only
          by_cases hw : w = u
          · subst hw
            rw [hu]
            by_cases he : (d.authorizedMandates.erase path).isEmpty = true
            · rw [if_pos he]
              show ((s.telegramUsers.erase w).get? w).bind _ = _
              rw [Dict.get?_erase_self]
              by_cases hp : path' = path
              · rw [if_pos ⟨rfl, hp⟩]
                rfl
              · have hnone := Dict.get?_eq_none_of_isEmpty he path'
                rw [Dict.get?_erase, if_neg hp] at hnone
                rw [if_neg fun h => hp h.2, hnone]
                rfl
            · rw [if_neg he]
              show ((s.telegramUsers.set w _).get? w).bind _ = _
              rw [Dict.get?_set, if_pos rfl, Option.bind_some, Dict.get?_erase]
              by_cases hp : path' = path
              · rw [if_pos hp, if_pos ⟨rfl, hp⟩]
              · rw [if_neg hp, if_neg fun h => hp h.2]
          · have hne : ¬(w = u ∧ path' = path) := fun h => hw h.1
            rw [if_neg hne]
            by_cases he : (d.authorizedMandates.erase path).isEmpty = true
            · rw [if_pos he]
              show ((s.telegramUsers.erase u).get? w).bind _ = _
              rw [Dict.get?_erase, if_neg hw]
              rfl
            · rw [if_neg he]
              show ((s.telegramUsers.set u _).get? w).bind _ = _
              rw [Dict.get?_set, if_neg hw]
              rfl

end Writes

/-! ### The rooms that the handlers compute -/

section Rooms

variable {d d' : Dict String Assigned}

theorem mem_addNew {xs : List String} {x y : String} : y ∈ addNew xs x ↔ y ∈ xs ∨ y = x := by
  rw [addNew]
  split
  next h => exact ⟨Or.inl, fun hy => hy.elim id fun he => he ▸ h⟩
  next h => rw [List.mem_append, List.mem_singleton]

theorem nodup_addNew {xs : List String} (h : xs.Nodup) (x : String) : (addNew xs x).Nodup := by
  rw [addNew]
  split
  next _ => exact h
  next hx =>
    refine List.nodup_append.mpr ⟨h, List.nodup_singleton x, fun y hy z hz => ?_⟩
    rw [List.mem_singleton.mp hz]
    exact fun he => hx (he ▸ hy)

theorem assignedTo_of_get? {r : String} {a : Assigned} (h : d.get? r = some a) : assignedTo d r = a.toList := by
  rw [assignedTo, h]
  rfl

theorem assignedTo_of_none {r : String} (h : d.get? r = none) : assignedTo d r = [] := by
  rw [assignedTo, h]
  rfl

theorem membersOf_congr (h : ∀ r, assignedTo d r = assignedTo d' r) : membersOf d = membersOf d' := by
  ext p
  show (∃ u ∈ assignedTo d p.1, cleanName u = p.2) ↔ ∃ u ∈ assignedTo d' p.1, cleanName u = p.2
  rw [h]

/-- A registration that is saved adds one user to one room. -/
theorem membersOf_registered (d : Dict String Assigned) (r x : String) :
    membersOf (mergeSaved d ((∅ : Dict String Assigned).set r (.many (addNew (assignedTo d r) x)))) =
      insert (r, cleanName x) (membersOf d) := by
  have hassigned : ∀ r', assignedTo (mergeSaved d
      ((∅ : Dict String Assigned).set r (.many (addNew (assignedTo d r) x)))) r' =
        if r' = r then addNew (assignedTo d r) x else assignedTo d r' := by
    intro r'
    rw [assignedTo, Dict.get?_mergeSaved_single]
    by_cases h : r' = r
    · rw [if_pos h, if_pos h]
      rfl
    · rw [if_neg h, if_neg h]
      rfl
  ext ⟨r', u⟩
  show (∃ y ∈ _, cleanName y = u) ↔ (r', u) = (r, cleanName x) ∨ ∃ y ∈ assignedTo d r', cleanName y = u
  rw [hassigned, Prod.mk.injEq]
  by_cases h : r' = r
  · subst h
    rw [if_pos rfl]
    constructor
    · rintro ⟨y, hy, hu⟩
      rcases mem_addNew.mp hy with hy | rfl
      · exact Or.inr ⟨y, hy, hu⟩
      · exact Or.inl ⟨rfl, hu.symm⟩
    · rintro (⟨-, hu⟩ | ⟨y, hy, hu⟩)
      · exact ⟨x, mem_addNew.mpr (Or.inr rfl), hu.symm⟩
      · exact ⟨y, mem_addNew.mpr (Or.inl hy), hu⟩
  · rw [if_neg h]
    exact ⟨Or.inr, fun hp => hp.resolve_left fun he => h he.1⟩

theorem assignedTo_erase (d : Dict String Assigned) (r r' : String) :
    assignedTo (d.erase r) r' = if r' = r then [] else assignedTo d r' := by
  rw [assignedTo, Dict.get?_erase]
  by_cases h : r' = r
  · rw [if_pos h, if_pos h]
    rfl
  · rw [if_neg h, if_neg h]
    rfl

theorem assignedTo_set (d : Dict String Assigned) (r r' : String) (a : Assigned) :
    assignedTo (d.set r a) r' = if r' = r then a.toList else assignedTo d r' := by
  rw [assignedTo, Dict.get?_set]
  by_cases h : r' = r
  · rw [if_pos h, if_pos h]
    rfl
  · rw [if_neg h, if_neg h]
    rfl

/-- Step 1 of a removal takes one user out of one room. -/
theorem assignedTo_roomsWithout (d : Dict String Assigned) (room : Option String) (u r' : String) :
    assignedTo (roomsWithout d room u) r' =
      if room = some r' then (assignedTo d r').filter fun x => cleanName x ≠ u else assignedTo d r' := by
  cases room with
  | none => rfl
  | some r =>
      show assignedTo (match d.get? r with | none => d | some a => _) r' = _
      cases ha : d.get? r with
      | none =>
          by_cases h : r = r'
          · subst h
            rw [if_pos rfl, assignedTo_of_none ha]
            rfl
          · rw [if_neg fun he => h (Option.some_inj.mp he)]
      | some a =>
          show assignedTo (if (withoutUser a u).isEmpty = true then d.erase r
            else d.set r (.many (withoutUser a u))) r' = _
          by_cases he : (withoutUser a u).isEmpty = true
          · rw [if_pos he, assignedTo_erase]
            by_cases h : r' = r
            · subst h
              rw [if_pos rfl, if_pos rfl, assignedTo_of_get? ha]
              exact (List.isEmpty_iff.mp he).symm
            · rw [if_neg h, if_neg fun he => h (Option.some_inj.mp he).symm]
          · rw [if_neg he, assignedTo_set]
            by_cases h : r' = r
            · subst h
              rw [if_pos rfl, if_pos rfl, assignedTo_of_get? ha]
              rfl
            · rw [if_neg h, if_neg fun he => h (Option.some_inj.mp he).symm]

theorem membersOf_roomsWithout (d : Dict String Assigned) (room : Option String) (u : String) :
    membersOf (roomsWithout d room u) = {p ∈ membersOf d | ¬(room = some p.1 ∧ p.2 = u)} := by
  ext ⟨r', w⟩
  show (∃ x ∈ assignedTo (roomsWithout d room u) r', cleanName x = w) ↔
    (∃ x ∈ assignedTo d r', cleanName x = w) ∧ ¬(room = some r' ∧ w = u)
  rw [assignedTo_roomsWithout]
  by_cases h : room = some r'
  · rw [if_pos h]
    constructor
    · rintro ⟨x, hx, rfl⟩
      obtain ⟨hx, hne⟩ := List.mem_filter.mp hx
      exact ⟨⟨x, hx, rfl⟩, fun hp => of_decide_eq_true hne hp.2⟩
    · rintro ⟨⟨x, hx, rfl⟩, hne⟩
      exact ⟨x, List.mem_filter.mpr ⟨hx, decide_eq_true fun he => hne ⟨h, he⟩⟩, rfl⟩
  · rw [if_neg h]
    exact ⟨fun hx => ⟨hx, fun hp => h hp.1⟩, fun hx => hx.1⟩

/-- A reset takes one room away. -/
theorem membersOf_erase (d : Dict String Assigned) (r : String) :
    membersOf (d.erase r) = {p ∈ membersOf d | p.1 ≠ r} := by
  ext ⟨r', w⟩
  show (∃ x ∈ assignedTo (d.erase r) r', cleanName x = w) ↔ (∃ x ∈ assignedTo d r', cleanName x = w) ∧ r' ≠ r
  rw [assignedTo_erase]
  by_cases h : r' = r
  · rw [if_pos h]
    exact ⟨fun ⟨_, hx, _⟩ => absurd hx List.not_mem_nil, fun hx => absurd h hx.2⟩
  · rw [if_neg h]
    exact ⟨fun hx => ⟨hx, h⟩, fun hx => hx.1⟩

/-- Step 2 of a removal looks for a user in all rooms. -/
theorem userStillInRooms_iff {u : String} (hu : u ≠ "") :
    userStillInRooms d u = true ↔ ∃ r, (r, u) ∈ membersOf d := by
  have hclean : cleanName "" = "" := by decide
  have hsearched : ∀ a : Assigned, (a.searched.any fun x => cleanName x = u) = true ↔ ∃ x ∈ a.toList, cleanName x = u := by
    intro a
    rw [List.any_eq_true]
    simp only [decide_eq_true_eq]
    cases a with
    | many us => rfl
    | one x =>
        show (∃ y ∈ [x], cleanName y = u) ↔ ∃ y ∈ (if x = "" then [] else [x]), cleanName y = u
        split
        next hx =>
          rw [hx]
          refine ⟨fun ⟨y, hy, he⟩ => ?_, fun ⟨y, hy, _⟩ => absurd hy List.not_mem_nil⟩
          rw [List.mem_singleton.mp hy, hclean] at he
          exact absurd he.symm hu
        next hx => rfl
  rw [userStillInRooms, List.any_eq_true]
  constructor
  · rintro ⟨⟨r, a⟩, he, ha⟩
    obtain ⟨x, hx, hxu⟩ := (hsearched a).mp ha
    refine ⟨r, x, ?_, hxu⟩
    show x ∈ assignedTo d r
    rw [assignedTo_of_get? (Dict.mem_entries_iff.mp he)]
    exact hx
  · rintro ⟨r, x, hx, hxu⟩
    have hx : x ∈ assignedTo d r := hx
    cases ha : d.get? r with
    | none =>
        rw [assignedTo_of_none ha] at hx
        exact absurd hx List.not_mem_nil
    | some a =>
        rw [assignedTo_of_get? ha] at hx
        exact ⟨(r, a), Dict.mem_entries_iff.mpr ha, (hsearched a).mpr ⟨x, hx, hxu⟩⟩

/-! ### The rooms that are saved -/

/-- Every member of the rooms that were computed is there when they have been saved. -/
theorem membersOf_subset_mergeSaved (d d' : Dict String Assigned) : membersOf d' ⊆ membersOf (mergeSaved d d') := by
  rintro ⟨r, w⟩ ⟨x, hx, hxw⟩
  have hx : x ∈ assignedTo d' r := hx
  refine ⟨x, ?_, hxw⟩
  show x ∈ assignedTo (mergeSaved d d') r
  cases ha : d'.get? r with
  | none =>
      rw [assignedTo_of_none ha] at hx
      exact absurd hx List.not_mem_nil
  | some a =>
      rw [assignedTo_of_get? ha] at hx
      rw [assignedTo_of_get? (Dict.get?_mergeSaved_of_some ha d)]
      exact hx

/-- The save is exact when there is no room left, or no room with users is missing from what is saved. -/
theorem membersOf_mergeSaved_iff (d d' : Dict String Assigned) :
    membersOf (mergeSaved d d') = membersOf d' ↔
      d'.isEmpty = true ∨ ∀ r, d'.get? r = none → assignedTo d r = [] := by
  cases he : d'.isEmpty with
  | true =>
      refine ⟨fun _ => Or.inl rfl, fun _ => ?_⟩
      rw [Dict.mergeSaved_of_isEmpty he]
      apply membersOf_congr
      intro r
      rw [assignedTo_of_none (Dict.get?_eq_none_of_isEmpty he r)]
      rfl
  | false =>
      have hmissing : ∀ r, d'.get? r = none → assignedTo (mergeSaved d d') r = assignedTo d r := fun r hr => by
        rw [assignedTo, Dict.get?_mergeSaved he, hr]
        rfl
      constructor
      · refine fun h => Or.inr fun r hr => List.eq_nil_iff_forall_not_mem.mpr fun x hx => ?_
        have hmem : (r, cleanName x) ∈ membersOf (mergeSaved d d') := ⟨x, (hmissing r hr).symm ▸ hx, rfl⟩
        rw [h] at hmem
        obtain ⟨y, hy, -⟩ := hmem
        have hy : y ∈ assignedTo d' r := hy
        rw [assignedTo_of_none hr] at hy
        exact absurd hy List.not_mem_nil
      · intro h
        have h := h.resolve_left Bool.false_ne_true
        apply membersOf_congr
        intro r
        cases ha : d'.get? r with
        | none => rw [hmissing r ha, h r ha, assignedTo_of_none ha]
        | some a => rw [assignedTo_of_get? (Dict.get?_mergeSaved_of_some ha d), assignedTo_of_get? ha]

end Rooms

/-! ### One request -/

section Requests

variable (s : Store)

/-- What a request asks of the roster of its mandate. -/
def request : Op → String × Roster.Request String String String
  | .register r => (r.mandatePath, .join r.roomName r.sender.text r.uid)
  | .remove p => (p.mandatePath, .leave p.roomName (cleanName p.username))
  | .reset path room => (path, .clear room)

/-- The authorization that a registration writes. -/
def Registration.data (r : Registration) : MandateData :=
  ⟨r.uid, r.mandatePath, r.companyName, r.clientName, r.companyId, r.chatId, r.roomName⟩

theorem getDocument_onSuccess (r : Registration) (path : String) :
    (s.onSuccess r).getDocument path =
      if path = r.mandatePath then
        (s.getDocument r.mandatePath).merged ⟨(∅ : Dict String String).set r.roomName r.chatId,
          (∅ : Dict String Assigned).set r.roomName
            (.many (addNew (assignedTo (s.getDocument r.mandatePath).telegramRoomAssignments r.roomName) r.sender.text)),
          some (addNew (s.getDocument r.mandatePath).telegramAuthUsers r.sender.text)⟩
      else s.getDocument path := by
  show (Store.setDocument _ _ _).getDocument path = _
  rw [getDocument_setDocument, getDocument_createTelegramUser, getDocument_createTelegramUser, r.sender.clean]

theorem authorization_onSuccess (r : Registration) (w path : String) :
    (s.onSuccess r).authorization w path =
      if w = r.sender.text ∧ path = r.mandatePath then some ((s.authorization r.sender.text r.mandatePath).getD r.data)
      else s.authorization w path :=
  authorization_createTelegramUser s r.sender.text r.mandatePath r.data w path

/-- The rooms of a removal, as the handler computes them. -/
def roomsAfter (p : Removal) : Dict String Assigned :=
  roomsWithout (s.getDocument p.mandatePath).telegramRoomAssignments p.roomName (cleanName p.username)

/-- The user of a removal is still in a room. -/
def staysIn (p : Removal) : Bool := userStillInRooms (roomsAfter s p) (cleanName p.username)

theorem getDocument_removeUser (p : Removal) (path : String) :
    (s.removeUser p).getDocument path =
      if path = p.mandatePath then
        (s.getDocument p.mandatePath).merged
          ⟨mappingWithout (s.getDocument p.mandatePath).telegramUsersMapping
            (s.getDocument p.mandatePath).telegramRoomAssignments p.roomName (cleanName p.username),
          roomsAfter s p,
          some (if staysIn s p then (s.getDocument p.mandatePath).telegramAuthUsers
            else (s.getDocument p.mandatePath).telegramAuthUsers.erase (cleanName p.username))⟩
      else s.getDocument path := by
  show Store.getDocument (if staysIn s p = true then _ else _) path = _
  cases staysIn s p with
  | true =>
      rw [if_pos rfl, if_pos rfl, getDocument_setDocument]
      rfl
  | false =>
      rw [if_neg Bool.false_ne_true, if_neg Bool.false_ne_true, getDocument_setDocument, getDocument_deleteTelegramUser,
        getDocument_deleteTelegramUser]
      rfl

theorem authorization_removeUser (p : Removal) (w path : String) :
    (s.removeUser p).authorization w path =
      if staysIn s p = false ∧ w = cleanName p.username ∧ path = p.mandatePath then none
      else s.authorization w path := by
  show Store.authorization (if staysIn s p = true then _ else _) w path = _
  cases staysIn s p with
  | true =>
      rw [if_pos rfl, if_neg fun h => Bool.false_ne_true h.1.symm]
      rfl
  | false =>
      rw [if_neg Bool.false_ne_true, authorization_setDocument, authorization_deleteTelegramUser]
      by_cases h : w = cleanName p.username ∧ path = p.mandatePath
      · rw [if_pos h, if_pos ⟨rfl, h⟩]
      · rw [if_neg h, if_neg fun hp => h hp.2]

/-- Whether a user stays is what the rosters say. -/
theorem staysIn_iff (p : Removal) (hu : cleanName p.username ≠ "") :
    staysIn s p = true ↔
      ∃ r, (r, cleanName p.username) ∈ (s.view p.mandatePath).without p.roomName (cleanName p.username) := by
  rw [staysIn, userStillInRooms_iff hu, roomsAfter, membersOf_roomsWithout]
  rfl

end Requests

/-! ### Every request keeps the collections consistent -/

section Consistency

variable {s : Store}

theorem active_createTelegramUser (h : ∀ u d, s.telegramUsers.get? u = some d → d.isActive = true) (v path : String)
    (a : MandateData) (u : String) (d : TelegramUser)
    (hd : (s.createTelegramUser v path a).telegramUsers.get? u = some d) : d.isActive = true := by
  unfold Store.createTelegramUser at hd
  cases hv : s.telegramUsers.get? v with
  | none =>
      rw [hv] at hd
      have hd : (s.telegramUsers.set v _).get? u = some d := hd
      rw [Dict.get?_set] at hd
      by_cases hu : u = v
      · rw [if_pos hu] at hd
        cases hd
        rfl
      · rw [if_neg hu] at hd
        exact h u d hd
  | some e =>
      rw [hv] at hd
      dsimp only at hd
      by_cases ha : (e.authorizedMandates.get? path).isSome = true
      · rw [if_pos ha] at hd
        exact h u d hd
      · rw [if_neg ha] at hd
        dsimp only at hd
        rw [Dict.get?_set] at hd
        by_cases hu : u = v
        · rw [if_pos hu] at hd
          cases hd
          exact h v e hv
        · rw [if_neg hu] at hd
          exact h u d hd

theorem active_deleteTelegramUser (h : ∀ u d, s.telegramUsers.get? u = some d → d.isActive = true) (v path : String)
    (u : String) (d : TelegramUser) (hd : (s.deleteTelegramUser v path).telegramUsers.get? u = some d) :
    d.isActive = true := by
  unfold Store.deleteTelegramUser at hd
  cases hv : s.telegramUsers.get? v with
  | none =>
      rw [hv] at hd
      exact h u d hd
  | some e =>
      rw [hv] at hd
      dsimp only at hd
      by_cases ha : (e.authorizedMandates.get? path).isSome = true
      · rw [if_pos ha] at hd
        by_cases he : (e.authorizedMandates.erase path).isEmpty = true
        · rw [if_pos he] at hd
          dsimp only at hd
          rw [Dict.get?_erase] at hd
          by_cases hu : u = v
          · rw [if_pos hu] at hd
            cases hd
          · rw [if_neg hu] at hd
            exact h u d hd
        · rw [if_neg he] at hd
          dsimp only at hd
          rw [Dict.get?_set] at hd
          by_cases hu : u = v
          · rw [if_pos hu] at hd
            cases hd
            exact h v e hv
          · rw [if_neg hu] at hd
            exact h u d hd
      · rw [if_neg ha] at hd
        exact h u d hd

theorem Consistent.onSuccess (h : Consistent s) (r : Registration) : Consistent (s.onSuccess r) := by
  refine ⟨fun path => ?_, fun path u => ?_, ?_, fun path => ?_⟩
  · rw [getDocument_onSuccess]
    split
    · exact nodup_addNew (h.nodup _) _
    · exact h.nodup path
  · rw [getDocument_onSuccess, authorization_onSuccess]
    by_cases hp : path = r.mandatePath
    · subst hp
      rw [if_pos rfl]
      show u ∈ addNew _ _ ↔ _
      rw [mem_addNew, h.listed]
      by_cases hu : u = r.sender.text
      · rw [if_pos ⟨hu, rfl⟩]
        exact ⟨fun _ => rfl, fun _ => Or.inr hu⟩
      · rw [if_neg fun hp => hu hp.1]
        exact ⟨fun hp => hp.resolve_right hu, Or.inl⟩
    · rw [if_neg hp, if_neg fun he => hp he.2]
      exact h.listed path u
  · exact active_createTelegramUser h.active r.sender.text r.mandatePath r.data
  · rw [authorization_onSuccess, if_neg fun he => r.sender.ne he.1.symm]
    exact h.named path

theorem Consistent.removeUser (h : Consistent s) (p : Removal) : Consistent (s.removeUser p) := by
  refine ⟨fun path => ?_, fun path u => ?_, fun u d hd => ?_, fun path => ?_⟩
  · rw [getDocument_removeUser]
    split
    · show (if staysIn s p = true then _ else _ : List String).Nodup
      split
      · exact h.nodup _
      · exact (h.nodup _).erase _
    · exact h.nodup path
  · rw [getDocument_removeUser, authorization_removeUser]
    by_cases hp : path = p.mandatePath
    · subst hp
      rw [if_pos rfl]
      show u ∈ (if staysIn s p = true then _ else _ : List String) ↔ _
      cases staysIn s p with
      | true =>
          rw [if_pos rfl, if_neg fun he => Bool.false_ne_true he.1.symm]
          exact h.listed _ u
      | false =>
          rw [if_neg Bool.false_ne_true, (h.nodup _).mem_erase_iff]
          by_cases hu : u = cleanName p.username
          · rw [if_pos ⟨rfl, hu, rfl⟩]
            exact ⟨fun hm => absurd hu hm.1, fun he => absurd he Bool.false_ne_true⟩
          · rw [if_neg fun he => hu he.2.1, ← h.listed]
            exact ⟨fun hm => hm.2, fun hm => ⟨hu, hm⟩⟩
    · rw [if_neg hp, if_neg fun he => hp he.2.2]
      exact h.listed path u
  · have hd : Dict.get? (Store.telegramUsers (if staysIn s p = true then _ else _)) u = some d := hd
    cases hst : staysIn s p with
    | true =>
        rw [hst, if_pos rfl] at hd
        exact h.active u d hd
    | false =>
        rw [hst, if_neg Bool.false_ne_true] at hd
        exact active_deleteTelegramUser h.active _ _ u d hd
  · rw [authorization_removeUser]
    split
    · rfl
    · exact h.named path

theorem getDocument_resetRoom (s : Store) (path room path' : String) :
    (s.resetRoom path room).getDocument path' =
      if path' = path then (s.getDocument path).merged ⟨(s.getDocument path).telegramUsersMapping.erase room,
        (s.getDocument path).telegramRoomAssignments.erase room, none⟩
      else s.getDocument path' :=
  getDocument_setDocument s path _ path'

theorem Consistent.resetRoom (h : Consistent s) (path room : String) : Consistent (s.resetRoom path room) := by
  have hauth : ∀ path', ((s.resetRoom path room).getDocument path').telegramAuthUsers =
      (s.getDocument path').telegramAuthUsers := by
    intro path'
    rw [getDocument_resetRoom]
    by_cases hp : path' = path
    · rw [if_pos hp, hp]
      rfl
    · rw [if_neg hp]
  exact ⟨fun path' => by rw [hauth]; exact h.nodup path', fun path' u => by rw [hauth]; exact h.listed path' u, h.active,
    h.named⟩

theorem Consistent.step (h : Consistent s) (op : Op) : Consistent (step s op) := by
  cases op with
  | register r => exact h.onSuccess r
  | remove p => exact h.removeUser p
  | reset path room => exact h.resetRoom path room

end Consistency

/-! ### Every request follows the rosters -/

section Rosters

variable {s : Store}

/-- A removal or a reset that takes the last users out of a room takes it out of the last room. -/
def Saved (s : Store) : Op → Prop
  | .register _ => True
  | .remove p =>
      ∀ r, p.roomName = some r → assignedTo (s.getDocument p.mandatePath).telegramRoomAssignments r ≠ [] →
        (∀ u ∈ assignedTo (s.getDocument p.mandatePath).telegramRoomAssignments r,
          cleanName u = cleanName p.username) →
        ∀ r' ∈ (s.getDocument p.mandatePath).telegramRoomAssignments.keys, r' = r
  | .reset path r =>
      assignedTo (s.getDocument path).telegramRoomAssignments r ≠ [] →
        ∀ r' ∈ (s.getDocument path).telegramRoomAssignments.keys, r' = r

instance Saved.decidable (s : Store) : ∀ op, Decidable (Saved s op)
  | .register _ => isTrue trivial
  | .remove ⟨_, none, _⟩ => isTrue fun _ h => nomatch h
  | .remove ⟨path, some r, username⟩ =>
      decidable_of_iff (assignedTo (s.getDocument path).telegramRoomAssignments r ≠ [] →
          (∀ u ∈ assignedTo (s.getDocument path).telegramRoomAssignments r, cleanName u = cleanName username) →
          ∀ r' ∈ (s.getDocument path).telegramRoomAssignments.keys, r' = r)
        ⟨fun h _ hr => Option.some_inj.mp hr ▸ h, fun h => h r rfl⟩
  | .reset path r =>
      inferInstanceAs (Decidable (assignedTo (s.getDocument path).telegramRoomAssignments r ≠ [] →
        ∀ r' ∈ (s.getDocument path).telegramRoomAssignments.keys, r' = r))

theorem serve_self (f : String → Roster String String String) (path : String) (q : Roster.Request String String String) :
    Roster.serve f (path, q) path = (f path).step q := Function.update_self ..

theorem serve_other (f : String → Roster String String String) {path path' : String} (h : path' ≠ path)
    (q : Roster.Request String String String) : Roster.serve f (path, q) path' = f path' := Function.update_of_ne h ..

theorem view_of_same {s' : Store} {path : String} (hd : s'.getDocument path = s.getDocument path)
    (ha : ∀ u, s'.authorization u path = s.authorization u path) : s'.view path = s.view path := by
  rw [Store.view, Store.view, hd]
  congr 1
  funext u
  rw [ha]

/-- **A registration** is a member who joins. -/
theorem view_onSuccess (s : Store) (r : Registration) :
    (s.onSuccess r).view = Roster.serve s.view (request (.register r)) := by
  funext path
  by_cases hp : path = r.mandatePath
  · subst hp
    show _ = Roster.serve s.view (r.mandatePath, _) r.mandatePath
    rw [serve_self]
    apply Roster.ext
    · show membersOf ((s.onSuccess r).getDocument r.mandatePath).telegramRoomAssignments = insert _ _
      rw [getDocument_onSuccess, if_pos rfl]
      show membersOf (mergeSaved _ _) = _
      rw [membersOf_registered, r.sender.clean]
      rfl
    · funext u
      show ((s.onSuccess r).authorization u r.mandatePath).map MandateData.firebaseUserId =
        Function.update (s.view r.mandatePath).granted r.sender.text _ u
      rw [authorization_onSuccess]
      by_cases hu : u = r.sender.text
      · subst hu
        rw [if_pos ⟨rfl, rfl⟩, Function.update_self]
        show some _ = some (((s.authorization r.sender.text r.mandatePath).map MandateData.firebaseUserId).getD r.uid)
        cases s.authorization r.sender.text r.mandatePath with
        | none => rfl
        | some a => rfl
      · rw [if_neg fun h => hu h.1, Function.update_of_ne hu]
        rfl
  · show _ = Roster.serve s.view (r.mandatePath, _) path
    rw [serve_other _ hp]
    refine view_of_same ?_ fun u => ?_
    · rw [getDocument_onSuccess, if_neg hp]
    · rw [authorization_onSuccess, if_neg fun h => hp h.2]

/-- **A removal** leaves exactly the grants that the rosters leave. -/
theorem granted_removeUser (hs : Consistent s) (p : Removal) :
    ((s.removeUser p).view p.mandatePath).granted =
      (s.view p.mandatePath).grantedWithout p.roomName (cleanName p.username) := by
  have hnamed : (s.view p.mandatePath).granted "" = none := by
    show (s.authorization "" p.mandatePath).map _ = none
    rw [hs.named]
    rfl
  funext u
  show ((s.removeUser p).authorization u p.mandatePath).map MandateData.firebaseUserId = _
  rw [authorization_removeUser, Roster.grantedWithout]
  by_cases hclean : cleanName p.username = ""
  · rw [hclean]
    by_cases hu : u = ""
    · subst hu
      rw [hs.named, ite_self]
      show none = _
      split
      · exact hnamed.symm
      · rw [Function.update_self]
    · rw [if_neg fun h => hu h.2.1]
      split
      · rfl
      · rw [Function.update_of_ne hu]
        rfl
  · cases hst : staysIn s p with
    | true =>
        rw [if_neg fun h => Bool.false_ne_true h.1.symm, if_pos ((staysIn_iff s p hclean).mp hst)]
        rfl
    | false =>
        have hgone : ¬∃ r, (r, cleanName p.username) ∈
            (s.view p.mandatePath).without p.roomName (cleanName p.username) := fun h =>
          Bool.false_ne_true (hst.symm.trans ((staysIn_iff s p hclean).mpr h))
        rw [if_neg hgone]
        by_cases hu : u = cleanName p.username
        · rw [if_pos ⟨rfl, hu, rfl⟩, hu, Function.update_self]
          rfl
        · rw [if_neg fun h => hu h.2.1, Function.update_of_ne hu]
          rfl

theorem view_removeUser_other (s : Store) (p : Removal) {path : String} (hp : path ≠ p.mandatePath) :
    (s.removeUser p).view path = s.view path := by
  refine view_of_same ?_ fun u => ?_
  · rw [getDocument_removeUser, if_neg hp]
  · rw [authorization_removeUser, if_neg fun h => hp h.2.2]

theorem members_removeUser (s : Store) (p : Removal) :
    ((s.removeUser p).view p.mandatePath).members =
      membersOf (mergeSaved (s.getDocument p.mandatePath).telegramRoomAssignments (roomsAfter s p)) := by
  show membersOf ((s.removeUser p).getDocument p.mandatePath).telegramRoomAssignments = _
  rw [getDocument_removeUser, if_pos rfl]
  rfl

theorem members_resetRoom (s : Store) (path room : String) :
    ((s.resetRoom path room).view path).members =
      membersOf (mergeSaved (s.getDocument path).telegramRoomAssignments
        ((s.getDocument path).telegramRoomAssignments.erase room)) := by
  show membersOf ((s.resetRoom path room).getDocument path).telegramRoomAssignments = _
  rw [getDocument_resetRoom, if_pos rfl]
  rfl

theorem view_resetRoom_other (s : Store) {path path' : String} (room : String) (hp : path' ≠ path) :
    (s.resetRoom path room).view path' = s.view path' := by
  refine view_of_same ?_ fun u => rfl
  rw [getDocument_resetRoom, if_neg hp]

/-- **Every request** leaves at least the members that were asked for, and exactly the grants. -/
theorem covers_step (s : Store) (op : Op) (hs : Consistent s) (path : String) :
    Roster.Covers ((step s op).view path) (Roster.serve s.view (request op) path) := by
  cases op with
  | register r =>
      show Roster.Covers ((s.onSuccess r).view path) _
      rw [view_onSuccess]
      exact Roster.Covers.refl _
  | remove p =>
      show Roster.Covers ((s.removeUser p).view path) (Roster.serve s.view (p.mandatePath, _) path)
      by_cases hp : path = p.mandatePath
      · subst hp
        rw [serve_self]
        refine Roster.Covers.of_members ?_ (granted_removeUser hs p)
        rw [members_removeUser]
        show (s.view p.mandatePath).without _ _ ⊆ _
        have hrooms : membersOf (roomsAfter s p) =
            (s.view p.mandatePath).without p.roomName (cleanName p.username) := membersOf_roomsWithout _ _ _
        rw [← hrooms]
        exact membersOf_subset_mergeSaved _ _
      · rw [serve_other _ hp, view_removeUser_other s p hp]
        exact Roster.Covers.refl _
  | reset q room =>
      show Roster.Covers ((s.resetRoom q room).view path) (Roster.serve s.view (q, _) path)
      by_cases hp : path = q
      · subst hp
        rw [serve_self]
        refine Roster.Covers.of_members ?_ rfl
        rw [members_resetRoom]
        show (s.view path).cleared room ⊆ _
        have hrooms : membersOf ((s.getDocument path).telegramRoomAssignments.erase room) = (s.view path).cleared room :=
          membersOf_erase _ _
        rw [← hrooms]
        exact membersOf_subset_mergeSaved _ _
      · rw [serve_other _ hp, view_resetRoom_other s room hp]
        exact Roster.Covers.refl _

/-- A room that is deleted stays away exactly when it has no users or is the only one. -/
theorem saved_erase_iff (d : Dict String Assigned) (room : String) :
    membersOf (mergeSaved d (d.erase room)) = membersOf (d.erase room) ↔
      (assignedTo d room ≠ [] → ∀ r ∈ d.keys, r = room) := by
  rw [membersOf_mergeSaved_iff, Dict.isEmpty_erase_iff]
  constructor
  · intro h hne
    exact h.resolve_right fun hnone => hne (hnone room (Dict.get?_erase_self d room))
  · intro h
    by_cases hne : assignedTo d room = []
    · refine Or.inr fun r hr => ?_
      rw [Dict.get?_erase] at hr
      by_cases hroom : r = room
      · rw [hroom, hne]
      · rw [if_neg hroom] at hr
        exact assignedTo_of_none hr
    · exact Or.inl (h hne)

/-- What a removal saves is what it computed exactly when it does not empty one of several rooms. -/
theorem saved_remove_iff (s : Store) (p : Removal) :
    membersOf (mergeSaved (s.getDocument p.mandatePath).telegramRoomAssignments (roomsAfter s p)) =
      membersOf (roomsAfter s p) ↔ Saved s (.remove p) := by
  obtain ⟨path, room, username⟩ := p
  show membersOf (mergeSaved (s.getDocument path).telegramRoomAssignments
      (roomsWithout (s.getDocument path).telegramRoomAssignments room (cleanName username))) =
    membersOf (roomsWithout (s.getDocument path).telegramRoomAssignments room (cleanName username)) ↔
    ∀ r, room = some r → assignedTo (s.getDocument path).telegramRoomAssignments r ≠ [] →
      (∀ u ∈ assignedTo (s.getDocument path).telegramRoomAssignments r, cleanName u = cleanName username) →
      ∀ r' ∈ (s.getDocument path).telegramRoomAssignments.keys, r' = r
  generalize (s.getDocument path).telegramRoomAssignments = d
  generalize cleanName username = u
  cases room with
  | none =>
      refine ⟨fun _ r hr => (nomatch hr), fun _ => (membersOf_mergeSaved_iff _ _).mpr (Or.inr ?_)⟩
      exact fun r hr => assignedTo_of_none hr
  | some r =>
      show membersOf (mergeSaved d (match d.get? r with | none => d | some a => _)) =
        membersOf (match d.get? r with | none => d | some a => _) ↔ _
      cases ha : d.get? r with
      | none =>
          refine ⟨fun _ r' hr' hne => ?_, fun _ => (membersOf_mergeSaved_iff _ _).mpr (Or.inr ?_)⟩
          · cases hr'
            exact absurd (assignedTo_of_none ha) hne
          · exact fun r hr => assignedTo_of_none hr
      | some a =>
          have hassigned : assignedTo d r = a.toList := assignedTo_of_get? ha
          have hall : (withoutUser a u).isEmpty = true ↔ ∀ x ∈ assignedTo d r, cleanName x = u := by
            rw [hassigned, List.isEmpty_iff, withoutUser, List.filter_eq_nil_iff]
            exact forall₂_congr fun x _ => by rw [decide_eq_true_iff, not_not]
          dsimp only
          by_cases he : (withoutUser a u).isEmpty = true
          · -- the room is emptied
            rw [if_pos he, saved_erase_iff]
            constructor
            · intro h r' hr' hne _
              cases hr'
              exact h hne
            · exact fun h hne => h r rfl hne (hall.mp he)
          · -- somebody stays in the room
            rw [if_neg he]
            refine ⟨fun _ r' hr' _ hx => ?_, fun _ => (membersOf_mergeSaved_iff _ _).mpr (Or.inr fun r' hr' => ?_)⟩
            · cases hr'
              exact absurd (hall.mpr hx) he
            · rw [Dict.get?_set] at hr'
              by_cases hr : r' = r
              · rw [if_pos hr] at hr'
                cases hr'
              · rw [if_neg hr] at hr'
                exact assignedTo_of_none hr'

/-- **A request** leaves exactly the rosters that were asked for when it does not empty one of several rooms. -/
theorem view_step_iff (s : Store) (op : Op) (hs : Consistent s) :
    (step s op).view = Roster.serve s.view (request op) ↔ Saved s op := by
  cases op with
  | register r => exact ⟨fun _ => trivial, fun _ => view_onSuccess s r⟩
  | remove p =>
      have hrooms : membersOf (roomsAfter s p) =
          (s.view p.mandatePath).without p.roomName (cleanName p.username) := membersOf_roomsWithout _ _ _
      rw [← saved_remove_iff, hrooms, ← members_removeUser]
      show (s.removeUser p).view = Roster.serve s.view (p.mandatePath, _) ↔ _
      constructor
      · intro h
        have hpath := congrFun h p.mandatePath
        rw [serve_self] at hpath
        exact congrArg Roster.members hpath
      · intro h
        funext path
        by_cases hp : path = p.mandatePath
        · subst hp
          rw [serve_self]
          exact Roster.ext h (granted_removeUser hs p)
        · rw [serve_other _ hp, view_removeUser_other s p hp]
  | reset path room =>
      have hrooms : membersOf ((s.getDocument path).telegramRoomAssignments.erase room) = (s.view path).cleared room :=
        membersOf_erase _ _
      have hsaved : (((s.resetRoom path room).view path).members = (s.view path).cleared room) ↔
          Saved s (.reset path room) := by
        rw [members_resetRoom, ← hrooms]
        exact saved_erase_iff _ _
      rw [← hsaved]
      show (s.resetRoom path room).view = Roster.serve s.view (path, _) ↔ _
      constructor
      · intro h
        have hpath := congrFun h path
        rw [serve_self] at hpath
        exact congrArg Roster.members hpath
      · intro h
        funext path'
        by_cases hp : path' = path
        · subst hp
          rw [serve_self]
          exact Roster.ext h rfl
        · rw [serve_other _ hp, view_resetRoom_other s room hp]

end Rosters

/-! ### Whole runs -/

/-- The rosters after the requests of a run. -/
noncomputable def intended (s : Store) (ops : List Op) : String → Roster String String String :=
  Roster.served request s.view ops

/-- Three requests for one room: two users register, and one of them is removed. -/
def threeRequests : List Op :=
  [.register ⟨"uid", "company", "clients/a", "router_room", "", "", "12", ⟨"ann", by decide +kernel, by decide⟩⟩,
    .register ⟨"uid", "company", "clients/a", "router_room", "", "", "34", ⟨"bob", by decide +kernel, by decide⟩⟩,
    .remove ⟨"clients/a", some "router_room", "@ann"⟩]

/-- **The two collections agree throughout, and nobody is locked out**: who is authorized by the rosters is authorized, and
who has registered for a room, and has neither been removed from it nor seen it reset since, is one of them and is
listed in the room. -/
theorem members_authorized {s : Store} (hs : Consistent s) (hmembers : ∀ path, (s.view path).Entitled) (ops : List Op)
    (path u : String) :
    ((Runs.run step s ops).isTelegramUserAuthorized u path = true ↔
        u ∈ ((Runs.run step s ops).getDocument path).telegramAuthUsers) ∧
      (((intended s ops path).granted u).isSome = true →
        (Runs.run step s ops).isTelegramUserAuthorized u path = true) ∧
      ∀ room, (room, u) ∈ (intended s ops path).members →
        (Runs.run step s ops).isTelegramUserAuthorized u path = true ∧
          (room, u) ∈ membersOf ((Runs.run step s ops).getDocument path).telegramRoomAssignments := by
  have hkeep : ∀ s op, Consistent s → Consistent (step s op) := fun _ op h => h.step op
  have hend : Consistent (Runs.run step s ops) := Runs.run_keeps hkeep hs ops
  have hcovers : Roster.Covers ((Runs.run step s ops).view path) (intended s ops path) :=
    Roster.covers_run hkeep (fun s op h => covers_step s op h) hs ops path
  have hentitled : (intended s ops path).Entitled := Roster.entitled_served hmembers ops path
  have hgranted : ((intended s ops path).granted u).isSome = true →
      (Runs.run step s ops).isTelegramUserAuthorized u path = true := by
    intro hu
    rw [authorized_iff hend]
    exact Option.isSome_map.symm.trans (hcovers.granted u hu)
  refine ⟨(authorized_iff hend u path).trans (hend.listed path u).symm, hgranted, fun room hroom => ⟨?_, ?_⟩⟩
  · exact hgranted (hentitled room u hroom)
  · exact hcovers.members hroom

/-- Nothing is stored at first, and somebody registers with two others around. -/
theorem members_authorized_three_requests :
    (Runs.run step Store.empty threeRequests).isTelegramUserAuthorized "ann" "clients/a" = true ↔
      "ann" ∈ ((Runs.run step Store.empty threeRequests).getDocument "clients/a").telegramAuthUsers :=
  (members_authorized consistent_empty (fun _ _ _ h => nomatch h) threeRequests "clients/a" "ann").1

/-- **The rooms and the authorizations are the intended ones at every point exactly when no request empties one of
several rooms.** -/
theorem rooms_intended_iff {s : Store} (hs : Consistent s) (ops : List Op) :
    (∀ pre, pre <+: ops → (Runs.run step s pre).view = intended s pre) ↔ Runs.Guarded step Saved s ops :=
  Runs.forall_prefix_follows_iff_guarded (fun _ op h => h.step op) (fun s op h => view_step_iff s op h) hs ops

/-- The removal takes one of two users out of the only room. -/
theorem rooms_intended_three_requests :
    (Runs.run step Store.empty threeRequests).view = intended Store.empty threeRequests :=
  (rooms_intended_iff consistent_empty threeRequests).mpr (by decide +kernel) threeRequests (List.prefix_refl _)

end Pinnokio.Telegram
