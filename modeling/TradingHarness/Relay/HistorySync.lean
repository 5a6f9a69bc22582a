import Mathlib.Data.List.Sort
import TradingHarness.Relay.GroupSync

set_option autoImplicit false

/-! # History of the bound groups

`group-sync.mjs`: behind the refresh of the directory, a tick reads a bounded number of pages of the chats' own
history. Progress is one position for each chat, up to which its pages have been stored. -/

namespace TradingHarness

/-! ## Progress of a chat -/

inductive HistoryStatus
  | idle
  | running
  | complete
  | failed
  deriving DecidableEq

/-- The columns of `feishu_group_chat_state` that the history pass writes. -/
structure HistoryColumns where
  historyStatus : HistoryStatus := .idle
  historySyncedPosition : Option ℤ := none
  historyMessageCount : ℕ := 0
  historyError : Option (List Char) := none
  historySyncedAt : Option ℤ := none

/-- A row as the history pass reads it. -/
structure HistoryState extends HistoryColumns where
  historyFirstPosition : Option ℤ
  historyLastPosition : Option ℤ

structure HistoryPage where
  start : ℤ
  finish : ℤ
  deriving DecidableEq

variable (state : HistoryState) (page : HistoryPage)

/-- The first position of the chat that the account can see. -/
def HistoryState.first : ℤ := max 1 (state.historyFirstPosition.getD 1)

def HistoryState.synced : ℤ := state.historySyncedPosition.getD (state.first - 1)

def historyPageSize : ℤ := 50

def nextHistoryPage (pageSize : ℤ) : Option HistoryPage :=
  let last := state.historyLastPosition.getD 0
  if state.synced < last then
    let start := max state.first (state.synced + 1)
    some ⟨start, min last (start + pageSize - 1)⟩
  else none

structure HistoryReport where
  status : HistoryStatus
  syncedPosition : Option ℤ := none
  lastPosition : Option ℤ := none
  messages : ℕ := 0
  error : Option (List Char) := none
  syncedAt : Option ℤ := none

/-- `historyProgress`, less the percentage. -/
def historyProgress : HistoryReport :=
  match state.historyLastPosition with
  | none => { status := .idle }
  | some last =>
    { status :=
        if state.historyStatus = .failed then .failed
        else if (nextHistoryPage state historyPageSize).isSome then .running else .complete
      syncedPosition := some state.synced
      lastPosition := some last
      messages := state.historyMessageCount
      error := state.historyError
      syncedAt := state.historySyncedAt }

/-! ## The pages of a chat -/

/-- A page that was read and whose rows are in the ledger, with the first position reported at that time. -/
structure StoredPage extends HistoryPage where
  chatId : List Char
  first : ℤ
  deriving DecidableEq

/-- How the reading of a page ends. A failure can come before its rows are stored or after. -/
inductive PageAnswer
  | kept (count : ℕ) (time : ℤ)
  | failed (stored : Bool) (error : List Char)

/-- What the loop over one chat leaves. -/
structure ChatRead where
  columns : HistoryColumns
  stored : List StoredPage
  budget : ℕ
  reads : ℕ

/-- The row behind a page that was kept. -/
def HistoryState.keepPage (count : ℕ) (time : ℤ) : HistoryState :=
  { state with
    historyStatus := if state.historyLastPosition.getD 0 ≤ page.finish then .complete else .running
    historySyncedPosition := some page.finish
    historyMessageCount := count
    historyError := none
    historySyncedAt := some time }

def ChatRead.behind (stored : List StoredPage) (read : ChatRead) : ChatRead :=
  { read with stored := stored ++ read.stored }

/-- The loop over the pages of one chat. The answers are numbered over the whole pass. -/
def readChat (answers : ℕ → PageAnswer) (chatId : List Char) : ℕ → ℕ → HistoryState → ChatRead
  | 0, reads, state => ⟨state.toHistoryColumns, [], 0, reads⟩
  | budget + 1, reads, state =>
    match nextHistoryPage state historyPageSize with
    | none =>
      if state.historyLastPosition.isSome ∧ state.historyStatus ≠ .complete then
        ⟨{ state.toHistoryColumns with historyStatus := .complete, historyError := none }, [], budget + 1, reads⟩
      else ⟨state.toHistoryColumns, [], budget + 1, reads⟩
    | some page =>
      match answers reads with
      | .kept count time =>
        (readChat answers chatId budget (reads + 1) (state.keepPage page count time)).behind
          [⟨page, chatId, state.first⟩]
      | .failed stored error =>
        ⟨{ state.toHistoryColumns with historyStatus := .failed, historyError := some (error.take 300) },
          if stored then [⟨page, chatId, state.first⟩] else [], budget, reads + 1⟩

/-! ## A pass -/

/-- The ledger and what the process keeps between its ticks. -/
structure HistoryWorld where
  sync : SyncWorld := {}
  columns : List (List Char × HistoryColumns) := []
  pages : List StoredPage := []
  directoryAt : ℤ := 0
  forceDirectory : Bool := false

variable (directoryIntervalMs : ℤ) (world : HistoryWorld)

def historyColumns (chatId : List Char) : HistoryColumns :=
  (world.columns.lookup chatId).getD {}

def historyState (chatId : List Char) : HistoryState :=
  { historyColumns world chatId with
    historyFirstPosition := (chatState world.sync.states chatId).historyFirstPosition
    historyLastPosition := (chatState world.sync.states chatId).historyLastPosition }

/-- What is left to read. -/
def remaining : ℤ :=
  match nextHistoryPage state historyPageSize with
  | some page => state.historyLastPosition.getD 0 - page.start + 1
  | none => 0

/-- `ORDER BY chat_name, chat_id` under the collation of the database. -/
def rowLe (collation : List Char → List Char → Bool) (states : ChatStates) (left right : List Char) : Bool :=
  if (chatState states left).chatName = (chatState states right).chatName then collation left right
  else collation (chatState states left).chatName (chatState states right).chatName

/-- The chats in the order of the pass: least left to read first. -/
def passOrder (collation : List Char → List Char → Bool) (world : HistoryWorld) : List (List Char) :=
  let listed := (world.sync.states.map Prod.fst).insertionSort (fun left right =>
    rowLe collation world.sync.states left right = true)
  listed.insertionSort (fun left right =>
    remaining (historyState world left) ≤ remaining (historyState world right))

structure HistoryPass where
  world : HistoryWorld
  budget : ℕ
  reads : ℕ

/-- A chat's turn in the pass. -/
def readInTurn (answers : ℕ → PageAnswer) (retryFailed : Bool) (pass : HistoryPass) (chatId : List Char) :
    HistoryPass :=
  if pass.budget = 0 then pass
  else if ¬ (pass.world.sync.bound.any (fun item => item.chatId == chatId)
      ∧ (chatState pass.world.sync.states chatId).membership = .member) then pass
  else if (historyState pass.world chatId).historyStatus = .failed ∧ retryFailed = false then pass
  else
    let read := readChat answers chatId pass.budget pass.reads (historyState pass.world chatId)
    { world := { pass.world with
        columns := Dict.set pass.world.columns chatId read.columns
        pages := pass.world.pages ++ read.stored }
      budget := read.budget
      reads := read.reads }

/-- What a refresh gets from the bridge: nothing, the joined groups without the membership answers, or both. -/
inductive DirectoryAnswer
  | unreachable
  | unchecked (groups : List JoinedGroup)
  | read (refresh : Refresh)

/-- What a tick is given: the readings of the clock, what the bridge answers, and the budget. -/
structure SyncTick where
  now : ℤ
  directory : DirectoryAnswer
  refreshedAt : ℤ
  collation : List Char → List Char → Bool
  pagesPerTick : ℕ
  answers : ℕ → PageAnswer

def syncHistory (tick : SyncTick) (retryFailed : Bool) (world : HistoryWorld) : HistoryWorld :=
  ((passOrder tick.collation world).foldl (readInTurn tick.answers retryFailed) ⟨world, tick.pagesPerTick, 0⟩).world

/-! ## Runs -/

/-- `requestRefresh` is called between two ticks or during one, and then counts for the next. A restart loses what
    is not in the ledger. -/
inductive SyncEvent
  | tick (tick : SyncTick)
  | requestRefresh
  | restart

/-- `tick` -/
def syncTick (tick : SyncTick) (world : HistoryWorld) : HistoryWorld :=
  if world.forceDirectory = true ∨ directoryIntervalMs ≤ tick.now - world.directoryAt then
    match tick.directory with
    | .unreachable => { world with forceDirectory := false }
    | .unchecked groups =>
      { world with
        forceDirectory := false
        sync := { world.sync with states := recordJoinedGroups groups world.sync.states } }
    | .read refresh =>
      syncHistory tick true
        { world with
          forceDirectory := false
          sync := (refreshDirectory refresh world.sync).1
          directoryAt := tick.refreshedAt }
  else syncHistory tick false world

def syncStep : SyncEvent → HistoryWorld
  | .tick tick => syncTick directoryIntervalMs tick world
  | .requestRefresh => { world with forceDirectory := true }
  | .restart => { sync := { states := world.sync.states }, columns := world.columns, pages := world.pages }

def historyAfter (events : List SyncEvent) : HistoryWorld :=
  events.foldl (syncStep directoryIntervalMs) {}

end TradingHarness
