import Mathlib.Data.Int.Notation
import TradingHarness.Library.Dict
import TradingHarness.Library.Runs

set_option autoImplicit false

/-! # Group membership

`group-sync.mjs`: a refresh of the directory asks for the membership of every bound and archived chat, archives the
routes whose chats are all gone, and restores those with a chat that the account is back in. -/

namespace TradingHarness

/-! ## Membership after a check -/

inductive GroupMembership
  | member
  | left
  | dissolved
  deriving DecidableEq

/-- A row of `feishu_group_chat_state`, as far as a refresh reads or writes it. -/
structure ChatState where
  chatName : List Char := []
  memberCount : Option ℤ := none
  membership : GroupMembership := .member
  missCount : ℕ := 0
  leftAt : Option ℤ := none
  checkedAt : Option ℤ := none
  historyFirstPosition : Option ℤ := none
  historyLastPosition : Option ℤ := none

/-- The answer for a chat. `member` is `none` where the check itself has failed. -/
structure MembershipReport where
  member : Option Bool
  dissolved : Bool := false
  name : List Char := []
  firstPosition : Option ℤ := none
  lastPosition : Option ℤ := none

structure MembershipAfter where
  membership : GroupMembership
  missCount : ℕ
  leftAt : Option ℤ

def leftAfterMisses : ℕ := 2

def archiveAfterMisses : ℕ := 3

/-- `membershipTransition`, less the text for the log. -/
def membershipTransition (previous : ChatState) (report : Option MembershipReport) (now : ℤ) : MembershipAfter :=
  match report.bind MembershipReport.member with
  | some true => ⟨.member, 0, none⟩
  | none => ⟨previous.membership, previous.missCount, previous.leftAt⟩
  | some false =>
    let misses := previous.missCount + 1
    if misses < leftAfterMisses then ⟨previous.membership, misses, previous.leftAt⟩
    else ⟨if report.any MembershipReport.dissolved then .dissolved else .left, misses,
      some (previous.leftAt.getD now)⟩

/-- A bound chat with its membership after the check. -/
structure CheckedChat where
  chatId : List Char
  sourceKey : List Char
  membership : GroupMembership
  missCount : ℕ

def routesToArchive (items : List CheckedChat) : List (List Char) :=
  ((items.map CheckedChat.sourceKey).filter (fun key => decide (key ≠ []))).eraseDups.filter (fun key =>
    (items.filter (fun item => decide (item.sourceKey = key))).all (fun chat =>
      decide (chat.membership ≠ .member ∧ archiveAfterMisses ≤ chat.missCount)))

/-! ## The ledger -/

abbrev ChatStates := List (List Char × ChatState)

def chatState (states : ChatStates) (chatId : List Char) : ChatState := (states.lookup chatId).getD {}

/-- `saveGroupChatState`: a chat without a row gets one. -/
def saveGroupChatState (chatId : List Char) (patch : ChatState → ChatState) (states : ChatStates) : ChatStates :=
  Dict.set states chatId (patch (chatState states chatId))

structure JoinedGroup where
  chatId : List Char
  name : List Char := []
  memberCount : Option ℤ := none

def isNumericId (chatId : List Char) : Bool := chatId != [] && chatId.all Char.isDigit

def recordJoinedGroups (groups : List JoinedGroup) (states : ChatStates) : ChatStates :=
  (groups.filter (fun group => isNumericId group.chatId)).foldl (fun states group =>
    saveGroupChatState group.chatId (fun state =>
      { state with
        chatName := if group.name = [] then state.chatName else group.name
        memberCount := group.memberCount.or state.memberCount }) states) states

/-! ## A refresh -/

/-- A chat of a route, bound or archived. -/
structure RouteChat where
  chatId : List Char
  sourceKey : List Char
  chatName : List Char := []

/-- What `archiveRoute` or `restoreRoute` does: it answers with the route, with nothing, or throws. -/
inductive RouteAnswer
  | done
  | nothing
  | throws
  deriving DecidableEq

/-- What a refresh is given: the directory, the membership answers, and what the calls for the routes answer.
    `restoreRoute` is asked at the place of the chat in the archived list. -/
structure Refresh where
  now : ℤ
  groups : List JoinedGroup := []
  bound : List RouteChat
  archived : List RouteChat
  reports : List Char → Option MembershipReport
  archiveRoute : Option (List Char → RouteAnswer)
  restoreRoute : Option (ℕ → RouteAnswer)

/-- A call of `archiveRoute`. -/
structure ArchiveCall where
  sourceKey : List Char
  dissolved : Bool
  chatIds : List (List Char)

structure SyncWorld where
  states : ChatStates := []
  groups : List JoinedGroup := []
  bound : List RouteChat := []
  archived : List RouteChat := []

variable (refresh : Refresh) (world : SyncWorld)

def checkedState (states : ChatStates) (item : RouteChat) (state : ChatState) : ChatState :=
  let previous := chatState states item.chatId
  let report := refresh.reports item.chatId
  let next := membershipTransition previous report refresh.now
  let checked := { state with
    membership := next.membership
    missCount := next.missCount
    leftAt := next.leftAt
    checkedAt := some refresh.now }
  match report with
  | some ⟨some true, _, name, firstPosition, lastPosition⟩ =>
    { checked with
      historyFirstPosition := firstPosition.or checked.historyFirstPosition
      historyLastPosition := lastPosition.or checked.historyLastPosition
      chatName := if name = [] then checked.chatName else name }
  | _ => if previous.chatName = [] ∧ item.chatName ≠ [] then { checked with chatName := item.chatName } else checked

/-- The bound chats. Every transition starts from the rows read before the first of them. -/
def checkBound (states : ChatStates) : ChatStates :=
  refresh.bound.foldl (fun saved item => saveGroupChatState item.chatId (checkedState refresh states item) saved) states

def checkedChat (states : ChatStates) (item : RouteChat) : CheckedChat :=
  let next := membershipTransition (chatState states item.chatId) (refresh.reports item.chatId) refresh.now
  ⟨item.chatId, item.sourceKey, next.membership, next.missCount⟩

/-- The calls of `archiveRoute`, where it is configured. -/
def archiveCalls (checked : List CheckedChat) : List ArchiveCall :=
  if refresh.archiveRoute.isSome then
    (routesToArchive checked).map (fun key =>
      let chats := checked.filter (fun item => decide (item.sourceKey = key))
      ⟨key, chats.any (fun chat => decide (chat.membership = .dissolved)), chats.map CheckedChat.chatId⟩)
  else []

def isBack (chatId : List Char) : Bool :=
  (refresh.reports chatId).bind MembershipReport.member == some true

def restoredState (chatId : List Char) (state : ChatState) : ChatState :=
  let report := (refresh.reports chatId).getD ⟨none, false, [], none, none⟩
  { state with
    membership := .member
    missCount := 0
    leftAt := none
    checkedAt := some refresh.now
    historyFirstPosition := report.firstPosition.or state.historyFirstPosition
    historyLastPosition := report.lastPosition.or state.historyLastPosition }

/-- The archived chats that the account is back in: the first whose route is restored stands for the route. -/
def restoreArchived (refresh : Refresh) (answers : ℕ → RouteAnswer) :
    ℕ → List RouteChat → List (List Char) → ChatStates → List (List Char) × ChatStates
  | _, [], restored, states => (restored, states)
  | place, item :: rest, restored, states =>
    if isBack refresh item.chatId = true ∧ restored.contains item.sourceKey = false ∧ answers place = .done then
      restoreArchived refresh answers (place + 1) rest (item.sourceKey :: restored)
        (saveGroupChatState item.chatId (restoredState refresh item.chatId) states)
    else restoreArchived refresh answers (place + 1) rest restored states

/-- `refreshDirectory`: the world behind it, and the calls of `archiveRoute`. -/
def refreshDirectory : SyncWorld × List ArchiveCall :=
  let states := recordJoinedGroups refresh.groups world.states
  let checked := refresh.bound.map (checkedChat refresh states)
  let calls := archiveCalls refresh checked
  let archivedKeys := (calls.map ArchiveCall.sourceKey).filter (fun key =>
    decide ((refresh.archiveRoute.map (fun answer => answer key)) = some .done))
  let answers := refresh.restoreRoute.getD (fun _ => .nothing)
  let (restoredKeys, saved) :=
    restoreArchived refresh answers 0 refresh.archived [] (checkBound refresh states)
  ({ states := saved
     groups := refresh.groups
     bound := refresh.bound.filter (fun item => !archivedKeys.contains item.sourceKey)
       ++ refresh.archived.filter (fun item => restoredKeys.contains item.sourceKey)
     archived := refresh.archived.filter (fun item => !restoredKeys.contains item.sourceKey) }, calls)

end TradingHarness
