import TradingHarness.Relay.HistorySync

set_option autoImplicit false

/-! # Complete histories

A page begins where the last one ended, or at the first position that the account can see. Up to the synced position
every position is then in a stored page, or was hidden when a page was read. -/

namespace TradingHarness

/-! ## Positions -/

def StoredPage.Holds (page : StoredPage) (position : ℤ) : Prop := page.start ≤ position ∧ position ≤ page.finish

/-- The position lay before the first one that the account could see when the page was read. -/
def StoredPage.Hides (page : StoredPage) (position : ℤ) : Prop := position < page.first

def Accounted (pages : List StoredPage) (chatId : List Char) (position : ℤ) : Prop :=
  ∃ page ∈ pages, page.chatId = chatId ∧ (page.Holds position ∨ page.Hides position)

/-- Every position from the reported first one to the reported last one is accounted for. -/
def HistoryAccounted (world : HistoryWorld) (chatId : List Char) : Prop :=
  ∀ last, (historyState world chatId).historyLastPosition = some last →
    ∀ position, (historyState world chatId).first ≤ position → position ≤ last →
      Accounted world.pages chatId position

/-- Everything up to a mark is accounted for. -/
def MarkAccounted (pages : List StoredPage) (chatId : List Char) (mark : Option ℤ) : Prop :=
  ∀ synced, mark = some synced → ∀ position, 1 ≤ position → position ≤ synced → Accounted pages chatId position

variable {pages : List StoredPage} {chatId : List Char} {state : HistoryState} {page : HistoryPage}

theorem Accounted.mono {position : ℤ} (h : Accounted pages chatId position) (more : List StoredPage) :
    Accounted (pages ++ more) chatId position := by
  obtain ⟨page, hpage, hchat⟩ := h
  exact ⟨page, List.mem_append_left _ hpage, hchat⟩

theorem MarkAccounted.mono {mark : Option ℤ} (h : MarkAccounted pages chatId mark) (more : List StoredPage) :
    MarkAccounted (pages ++ more) chatId mark :=
  fun synced hmark position hone hle => (h synced hmark position hone hle).mono more

theorem one_le_first (state : HistoryState) : 1 ≤ state.first := le_max_left _ _

/-! ## A page -/

theorem nextHistoryPage_eq_none {pageSize : ℤ} :
    nextHistoryPage state pageSize = none ↔ state.historyLastPosition.getD 0 ≤ state.synced := by
  simp [nextHistoryPage]

theorem nextHistoryPage_eq_some {pageSize : ℤ} (h : nextHistoryPage state pageSize = some page) :
    state.synced < state.historyLastPosition.getD 0 ∧ page.start = max state.first (state.synced + 1)
      ∧ page.finish = min (state.historyLastPosition.getD 0) (page.start + pageSize - 1) := by
  unfold nextHistoryPage at h
  dsimp only at h
  split at h
  next hleft =>
    obtain rfl := Option.some.inj h
    exact ⟨hleft, rfl, rfl⟩
  next => exact absurd h (by simp)

section

variable (hmark : MarkAccounted pages chatId state.historySyncedPosition)

include hmark

theorem accounted_of_no_page {pageSize : ℤ}
    (hnone : nextHistoryPage state pageSize = none) {last : ℤ} (hlast : state.historyLastPosition = some last)
    {position : ℤ} (hfirst : state.first ≤ position) (hle : position ≤ last) : Accounted pages chatId position := by
  rw [nextHistoryPage_eq_none, hlast, Option.getD_some] at hnone
  have hone := one_le_first state
  rcases hsynced : state.historySyncedPosition with - | synced
  · -- nothing was read yet, and the chat reports no position
    rw [HistoryState.synced, hsynced, Option.getD_none] at hnone
    omega
  · rw [HistoryState.synced, hsynced, Option.getD_some] at hnone
    exact hmark synced hsynced position (by omega) (by omega)

/-- **A stored page carries the mark to its end.** Between the mark and the start of the page lie only positions
    that the account could not see. -/
theorem MarkAccounted.keepPage {pageSize : ℤ}
    (hpage : nextHistoryPage state pageSize = some page) :
    MarkAccounted (pages ++ [⟨page, chatId, state.first⟩]) chatId (some page.finish) := by
  obtain ⟨-, hstart, -⟩ := nextHistoryPage_eq_some hpage
  rintro - ⟨⟩ position hone hle
  by_cases hheld : page.start ≤ position
  · exact ⟨_, List.mem_append_right _ (List.mem_singleton_self _), rfl, Or.inl ⟨hheld, hle⟩⟩
  by_cases hhidden : position < state.first
  · exact ⟨_, List.mem_append_right _ (List.mem_singleton_self _), rfl, Or.inr hhidden⟩
  -- the position is visible and before the page, so the mark had passed it
  have hbefore : position ≤ state.synced := by omega
  rcases hsynced : state.historySyncedPosition with - | synced
  · rw [HistoryState.synced, hsynced, Option.getD_none] at hbefore
    omega
  · rw [HistoryState.synced, hsynced, Option.getD_some] at hbefore
    exact (hmark synced hsynced position hone hbefore).mono _

end

/-! ## The pages of a chat -/

variable {answers : ℕ → PageAnswer}

theorem MarkAccounted.readChat (budget reads : ℕ) (pages : List StoredPage) (state : HistoryState)
    (hmark : MarkAccounted pages chatId state.historySyncedPosition) :
    MarkAccounted (pages ++ (readChat answers chatId budget reads state).stored) chatId
      (readChat answers chatId budget reads state).columns.historySyncedPosition := by
  induction budget generalizing reads pages state with
  | zero => exact hmark.mono _
  | succ budget ih =>
      rw [TradingHarness.readChat]
      rcases hpage : nextHistoryPage state historyPageSize with - | page
      · dsimp only
        split_ifs
        · exact hmark.mono _
        · exact hmark.mono _
      · rcases answers reads with ⟨count, time⟩ | ⟨stored, error⟩
        · have hkept := ih (reads + 1) _ (state.keepPage page count time) (hmark.keepPage hpage)
          rw [List.append_assoc] at hkept
          exact hkept
        · exact hmark.mono _

theorem readChat_complete (budget reads : ℕ) (state : HistoryState)
    (hcomplete : (readChat answers chatId budget reads state).columns.historyStatus = .complete) :
    (readChat answers chatId budget reads state).columns = state.toHistoryColumns
      ∨ nextHistoryPage { state with toHistoryColumns := (readChat answers chatId budget reads state).columns }
          historyPageSize = none := by
  induction budget generalizing reads state with
  | zero => exact Or.inl rfl
  | succ budget ih =>
      rw [readChat] at hcomplete ⊢
      rcases hpage : nextHistoryPage state historyPageSize with - | page
      · right
        dsimp only
        split_ifs
        · exact hpage
        · exact hpage
      · right
        rw [hpage] at hcomplete
        rcases hanswer : answers reads with ⟨count, time⟩ | ⟨stored, error⟩
        · rw [hanswer] at hcomplete
          rcases ih (reads + 1) (state.keepPage page count time) hcomplete with hsame | hnone
          · -- the page was the last one read, and its status compares its end with the last position
            have hstatus : (state.keepPage page count time).historyStatus = .complete := by
              rw [← hsame]
              exact hcomplete
            have hlast : state.historyLastPosition.getD 0 ≤ page.finish := by
              by_contra hless
              simp [HistoryState.keepPage, hless] at hstatus
            rw [nextHistoryPage_eq_none]
            dsimp only [ChatRead.behind]
            rw [hsame]
            exact hlast
          · exact hnone
        · rw [hanswer] at hcomplete
          simp at hcomplete

/-! ## A pass -/

/-- The synced position of every chat is accounted for. -/
def HistorySound (world : HistoryWorld) : Prop :=
  ∀ chatId, MarkAccounted world.pages chatId (historyColumns world chatId).historySyncedPosition

/-- Where the columns of a chat differ from those of another world and are `complete`, nothing is left to read. -/
def FreshlyComplete (before after : HistoryWorld) : Prop :=
  ∀ chatId, historyColumns after chatId ≠ historyColumns before chatId →
    (historyColumns after chatId).historyStatus = .complete →
      nextHistoryPage (historyState after chatId) historyPageSize = none

variable {retryFailed : Bool} {pass : HistoryPass} {world : HistoryWorld}

theorem historyColumns_set (columns : HistoryColumns) (pages : List StoredPage) (chatId other : List Char) :
    historyColumns { world with columns := Dict.set world.columns chatId columns, pages := pages } other
      = if other = chatId then columns else historyColumns world other := by
  unfold historyColumns
  rw [Dict.lookup_set]
  by_cases hsame : other = chatId
  · rw [if_pos hsame, if_pos (by rw [hsame]; exact beq_self_eq_true chatId)]
    rfl
  · rw [if_neg hsame, if_neg (by simpa using hsame)]

/-- A chat's turn leaves the world alone, or changes the columns of this chat to those of its loop. -/
theorem readInTurn_cases (answers : ℕ → PageAnswer) (retryFailed : Bool) (pass : HistoryPass) (chatId : List Char) :
    readInTurn answers retryFailed pass chatId = pass ∨
      ∃ read, read = readChat answers chatId pass.budget pass.reads (historyState pass.world chatId) ∧
        (readInTurn answers retryFailed pass chatId).world
          = { pass.world with
              columns := Dict.set pass.world.columns chatId read.columns
              pages := pass.world.pages ++ read.stored } := by
  unfold readInTurn
  split
  next => exact Or.inl rfl
  next =>
    split
    next => exact Or.inl rfl
    next =>
      split
      next => exact Or.inl rfl
      next => exact Or.inr ⟨_, rfl, rfl⟩

theorem HistorySound.readInTurn (h : HistorySound pass.world) (chatId : List Char) :
    HistorySound (readInTurn answers retryFailed pass chatId).world := by
  rcases readInTurn_cases answers retryFailed pass chatId with hsame | ⟨read, hread, hworld⟩
  · rw [hsame]
    exact h
  · rw [hworld]
    intro other
    rw [historyColumns_set]
    by_cases hother : other = chatId
    · rw [if_pos hother, hother, hread]
      exact (h chatId).readChat pass.budget pass.reads pass.world.pages (historyState pass.world chatId)
    · rw [if_neg hother]
      exact (h other).mono _

theorem FreshlyComplete.readInTurn {before : HistoryWorld} (h : FreshlyComplete before pass.world)
    (chatId : List Char) : FreshlyComplete before (readInTurn answers retryFailed pass chatId).world := by
  rcases readInTurn_cases answers retryFailed pass chatId with hsame | ⟨read, hread, hworld⟩
  · rw [hsame]
    exact h
  · rw [hworld]
    intro other hchanged hcomplete
    rw [historyColumns_set] at hchanged hcomplete
    unfold historyState
    rw [historyColumns_set]
    by_cases hother : other = chatId
    · rw [if_pos hother] at hchanged hcomplete ⊢
      rw [hread] at hcomplete
      rcases readChat_complete pass.budget pass.reads (historyState pass.world chatId) hcomplete with hkept | hnone
      · -- the loop has changed nothing, so an earlier turn of the pass has
        rw [hother, hread, hkept] at hchanged ⊢
        rw [hkept] at hcomplete
        exact h chatId hchanged hcomplete
      · rw [hother, hread]
        exact hnone
    · rw [if_neg hother] at hchanged hcomplete ⊢
      exact h other hchanged hcomplete

/-- **A pass keeps the synced positions accounted for, and writes `complete` only where nothing is left.** -/
theorem syncHistory_keeps (tick : SyncTick) (h : HistorySound world) :
    HistorySound (syncHistory tick retryFailed world)
      ∧ FreshlyComplete world (syncHistory tick retryFailed world) := by
  unfold syncHistory
  suffices hall : ∀ (order : List (List Char)) (pass : HistoryPass),
      HistorySound pass.world → FreshlyComplete world pass.world →
        HistorySound (order.foldl (readInTurn tick.answers retryFailed) pass).world
          ∧ FreshlyComplete world (order.foldl (readInTurn tick.answers retryFailed) pass).world from
    hall _ _ h (fun _ hchanged _ => absurd rfl hchanged)
  intro order
  induction order with
  | nil => exact fun _ hsound hfresh => ⟨hsound, hfresh⟩
  | cons chatId rest ih => exact fun _ hsound hfresh => ih _ (hsound.readInTurn chatId) (hfresh.readInTurn chatId)

/-! ## Runs -/

variable {directoryIntervalMs : ℤ}

/-- **A step keeps the synced positions accounted for, and writes `complete` only where nothing is left.** -/
theorem syncStep_keeps (event : SyncEvent) (h : HistorySound world) :
    HistorySound (syncStep directoryIntervalMs world event)
      ∧ FreshlyComplete world (syncStep directoryIntervalMs world event) := by
  cases event with
  | requestRefresh => exact ⟨h, fun _ hchanged _ => absurd rfl hchanged⟩
  | restart => exact ⟨h, fun _ hchanged _ => absurd rfl hchanged⟩
  | tick tick =>
      unfold syncStep syncTick
      dsimp only
      split
      · cases tick.directory with
        | unreachable => exact ⟨h, fun _ hchanged _ => absurd rfl hchanged⟩
        | unchecked groups => exact ⟨h, fun _ hchanged _ => absurd rfl hchanged⟩
        | read refresh => exact syncHistory_keeps tick h
      · exact syncHistory_keeps tick h

theorem historySound_after (directoryIntervalMs : ℤ) (events : List SyncEvent) :
    HistorySound (historyAfter directoryIntervalMs events) := by
  unfold historyAfter
  suffices hall : ∀ (events : List SyncEvent) (world : HistoryWorld), HistorySound world →
      HistorySound (events.foldl (syncStep directoryIntervalMs) world) from
    hall events {} (fun _ _ hmark => absurd hmark (by simp [historyColumns]))
  intro events
  induction events with
  | nil => exact fun _ h => h
  | cons event rest ih => exact fun _ h => ih _ (syncStep_keeps event h).1

theorem HistorySound.accounted (h : HistorySound world)
    (hnone : nextHistoryPage (historyState world chatId) historyPageSize = none) : HistoryAccounted world chatId :=
  fun _ hlast _ hfirst hle => accounted_of_no_page (h chatId) hnone hlast hfirst hle

/-- **Whenever `historyProgress` reports a chat complete, and whenever a step has changed its columns and left them
    at `complete`, every position from the reported first to the reported last one is in a page that was stored, or
    was hidden from the account when one of its pages was read.** -/
theorem complete_history_accounted (directoryIntervalMs : ℤ) (events : List SyncEvent) (chatId : List Char) :
    ((historyProgress (historyState (historyAfter directoryIntervalMs events) chatId)).status = .complete →
        HistoryAccounted (historyAfter directoryIntervalMs events) chatId)
      ∧ ∀ event,
        historyColumns (historyAfter directoryIntervalMs (events ++ [event])) chatId
            ≠ historyColumns (historyAfter directoryIntervalMs events) chatId →
          (historyColumns (historyAfter directoryIntervalMs (events ++ [event])) chatId).historyStatus = .complete →
            HistoryAccounted (historyAfter directoryIntervalMs (events ++ [event])) chatId := by
  have hsound := historySound_after directoryIntervalMs events
  constructor
  · intro hcomplete
    apply hsound.accounted
    unfold historyProgress at hcomplete
    split at hcomplete
    next => exact absurd hcomplete (by simp)
    next =>
      dsimp only at hcomplete
      split_ifs at hcomplete with hfailed hpage
      simpa using hpage
  · intro event hchanged hcomplete
    have hafter : historyAfter directoryIntervalMs (events ++ [event])
        = syncStep directoryIntervalMs (historyAfter directoryIntervalMs events) event := by
      unfold historyAfter
      rw [List.foldl_concat]
    rw [hafter] at hchanged hcomplete ⊢
    obtain ⟨hkept, hfresh⟩ : _ ∧ FreshlyComplete _ (syncStep directoryIntervalMs _ event) := syncStep_keeps event hsound
    exact hkept.accounted (hfresh chatId hchanged hcomplete)

/-- A refresh in which the account is in every bound chat, with the positions reported for each. -/
def positionsReported (bound : List RouteChat) (first last : List Char → ℤ) : DirectoryAnswer :=
  .read
    { now := 0
      bound := bound
      archived := []
      reports := fun chatId =>
        some { member := some true, firstPosition := some (first chatId), lastPosition := some (last chatId) }
      archiveRoute := none
      restoreRoute := none }

/-- A tick that is due and whose pages are all stored. -/
def dueTick (now : ℤ) (directory : DirectoryAnswer) : SyncEvent :=
  .tick
    { now := now
      directory := directory
      refreshedAt := now
      collation := fun _ _ => true
      pagesPerTick := 2
      answers := fun _ => .kept 0 now }

/-- The chat hides what came before position 100, is read to its end, and then shows everything. -/
def shownLater : List SyncEvent :=
  [dueTick 300000 (positionsReported [⟨['1'], ['a'], []⟩] (fun _ => 100) (fun _ => 150)),
    dueTick 600000 (positionsReported [⟨['1'], ['a'], []⟩] (fun _ => 1) (fun _ => 150))]

/-- Two chats are read to their end. Both grow, and the pages of the next tick go to the smaller one. -/
def grownLater : List SyncEvent :=
  [dueTick 300000 (positionsReported [⟨['1'], ['a'], []⟩, ⟨['2'], ['b'], []⟩] (fun _ => 1) (fun _ => 1)),
    dueTick 600000 (positionsReported [⟨['1'], ['a'], []⟩, ⟨['2'], ['b'], []⟩] (fun _ => 1)
      (fun chatId => if chatId = ['1'] then 100 else 52))]

theorem pages_shownLater :
    (historyAfter 300000 shownLater).pages = [⟨⟨100, 149⟩, ['1'], 100⟩, ⟨⟨150, 150⟩, ['1'], 100⟩] := by
  decide +kernel

theorem pages_grownLater :
    (historyAfter 300000 grownLater).pages
      = [⟨⟨1, 1⟩, ['1'], 1⟩, ⟨⟨1, 1⟩, ['2'], 1⟩, ⟨⟨2, 51⟩, ['2'], 1⟩, ⟨⟨52, 52⟩, ['2'], 1⟩] := by
  decide +kernel

/-- A chat that shows more than before is reported complete with its first positions unread, and one that has grown
    keeps its status until its turn comes. -/
theorem complete_history_unread :
    (¬ ∀ events chatId, (historyProgress (historyState (historyAfter 300000 events) chatId)).status = .complete →
        ∀ last, (historyState (historyAfter 300000 events) chatId).historyLastPosition = some last →
          ∀ position, (historyState (historyAfter 300000 events) chatId).first ≤ position → position ≤ last →
            ∃ page ∈ (historyAfter 300000 events).pages, page.chatId = chatId ∧ page.Holds position)
      ∧ ¬ ∀ events chatId, (historyColumns (historyAfter 300000 events) chatId).historyStatus = .complete →
        ∀ last, (historyState (historyAfter 300000 events) chatId).historyLastPosition = some last →
          ∀ position, (historyState (historyAfter 300000 events) chatId).first ≤ position → position ≤ last →
            ∃ page ∈ (historyAfter 300000 events).pages, page.chatId = chatId ∧ page.Holds position := by
  constructor
  · intro h
    obtain ⟨page, hpage, -, hholds⟩ := h shownLater ['1'] (by decide +kernel) 150 (by decide +kernel) 1
      (by decide +kernel) (by decide)
    rw [pages_shownLater] at hpage
    simp only [List.mem_cons, List.not_mem_nil, or_false] at hpage
    rcases hpage with rfl | rfl
    · exact absurd hholds.1 (by decide)
    · exact absurd hholds.1 (by decide)
  · intro h
    obtain ⟨page, hpage, hchat, hholds⟩ := h grownLater ['1'] (by decide +kernel) 100 (by decide +kernel) 100
      (by decide +kernel) (by decide)
    rw [pages_grownLater] at hpage
    simp only [List.mem_cons, List.not_mem_nil, or_false] at hpage
    rcases hpage with rfl | rfl | rfl | rfl
    · exact absurd hholds.2 (by decide)
    · exact absurd hchat (by decide)
    · exact absurd hchat (by decide)
    · exact absurd hchat (by decide)

end TradingHarness
