import Mathlib.Data.List.DropRight
import Mathlib.Data.List.Sort
import TradingHarness.Library.Dict
import TradingHarness.Library.Keyed

set_option autoImplicit false

/-! # The event spool of the bridge

`EventSpool` (`event_spool.py`): a queue of events with leases and retries, the counters of the chats and the
drain cursor. A call is one transaction, so an operation takes the tables to the tables it commits. -/

namespace TradingHarness

/-! ## Tables -/

/-- What the spool reads of a payload: `chat_id` and the message type as texts, stripped, and how many bytes
    it is written in. -/
structure SpoolPayload where
  chatId : List Char
  messageType : List Char
  content : List Char
  size : ℕ

inductive EventStatus
  | queued
  | processing
  | delivered
  | failed
  deriving DecidableEq

/-- A row of `events`. Times are in microseconds. -/
structure SpoolEvent where
  sequence : ℕ
  eventId : List Char
  payload : SpoolPayload
  status : EventStatus
  attempts : ℕ
  availableAt : ℤ
  leaseUntil : Option ℤ
  lastError : Option (List Char)
  createdAt : ℤ
  updatedAt : ℤ
  deliveredAt : Option ℤ

/-- A row of `chat_stats`. -/
structure ChatStats where
  chatId : List Char
  observedCount : ℕ := 0
  forwardedCount : ℕ := 0
  failedCount : ℕ := 0
  failureCount : ℕ := 0
  lastObservedAt : Option ℤ := none
  lastForwardedAt : Option ℤ := none
  lastMessageType : List Char := []

/-- The tables, and the sequence of the drain cursor. -/
structure EventSpool where
  events : List SpoolEvent := []
  chatStats : List ChatStats := []
  cursor : ℕ := 0

/-- `str.isspace` of a character, and the limit of the constructor. -/
structure SpoolSettings where
  isspace : Char → Bool
  maxEventBytes : ℕ

def seconds (count : ℤ) : ℤ := count * 1000000

def findEvent (eventId : List Char) (events : List SpoolEvent) : Option SpoolEvent :=
  Keyed.find SpoolEvent.eventId eventId events

def updateEvent (eventId : List Char) (change : SpoolEvent → SpoolEvent) (events : List SpoolEvent) :
    List SpoolEvent :=
  Keyed.update SpoolEvent.eventId eventId change events

/-- `UPDATE chat_stats SET … WHERE chat_id=?`, for a chat that has an identifier. -/
def updateChat (chatId : List Char) (change : ChatStats → ChatStats) (rows : List ChatStats) :
    List ChatStats :=
  if chatId = [] then rows else Keyed.update ChatStats.chatId chatId change rows

variable (settings : SpoolSettings) (now : ℤ)

/-! ## Enqueuing -/

def SpoolSettings.strip (text : List Char) : List Char :=
  (text.dropWhile settings.isspace).rdropWhile settings.isspace

/-- One more event of a chat is observed. -/
def observeChat (payload : SpoolPayload) (row : ChatStats) : ChatStats :=
  { row with
    observedCount := row.observedCount + 1
    lastObservedAt := some now
    lastMessageType := payload.messageType }

/-- `_record_observed_locked`. -/
def recordObserved (payload : SpoolPayload) (rows : List ChatStats) : List ChatStats :=
  if payload.chatId = [] then rows
  else if (Keyed.find ChatStats.chatId payload.chatId rows).isSome then
    Keyed.update ChatStats.chatId payload.chatId (observeChat now payload) rows
  else
    rows ++ [{
      chatId := payload.chatId
      observedCount := 1
      lastObservedAt := some now
      lastMessageType := payload.messageType }]

/-- `COALESCE(MAX(sequence),0)+1` -/
def nextEventSequence (events : List SpoolEvent) : ℕ := (events.map SpoolEvent.sequence).max?.getD 0 + 1

def newEvent (eventId : List Char) (payload : SpoolPayload) (sequence : ℕ) : SpoolEvent where
  sequence := sequence
  eventId := eventId
  payload := payload
  status := .queued
  attempts := 0
  availableAt := now
  leaseUntil := none
  lastError := none
  createdAt := now
  updatedAt := now
  deliveredAt := none

/-- A payload that is decoded anew replaces that of an event that waits or has failed. -/
def refreshEvent (payload : SpoolPayload) (event : SpoolEvent) : SpoolEvent :=
  if event.status = .queued ∨ event.status = .failed then
    { event with payload := payload, availableAt := now, updatedAt := now }
  else event

/-- A correction queues a delivered event again. -/
def reopenEvent (payload : SpoolPayload) (event : SpoolEvent) : SpoolEvent :=
  if event.status = .delivered then
    { event with
      payload := payload
      status := .queued
      deliveredAt := none
      leaseUntil := none
      availableAt := now
      updatedAt := now
      lastError := none }
  else event

/-- `enqueue`, with the status it returns. -/
def enqueue (eventId : List Char) (payload : SpoolPayload) (refresh reopen : Bool) (spool : EventSpool) :
    Except String (EventStatus × EventSpool) :=
  let eventId := settings.strip eventId
  if eventId = [] ∨ 256 < eventId.length then .error "event_id is empty or too long"
  else if settings.maxEventBytes < payload.size then .error "event payload exceeds spool limit"
  else
    let spool' :=
      if (findEvent eventId spool.events).isNone then
        { spool with
          events := spool.events ++ [newEvent now eventId payload (nextEventSequence spool.events)]
          chatStats := recordObserved now payload spool.chatStats }
      else if refresh then
        let events := updateEvent eventId (refreshEvent now payload) spool.events
        { spool with
          events := if reopen then updateEvent eventId (reopenEvent now payload) events else events }
      else spool
    .ok (((findEvent eventId spool'.events).map SpoolEvent.status).getD .queued, spool')

/-! ## Claims and outcomes -/

inductive ClaimState
  | delivered
  | inFlight
  | claimed

/-- `failed_count=MAX(0,failed_count-1)` -/
def oneFailureLess (row : ChatStats) : ChatStats := { row with failedCount := row.failedCount - 1 }

/-- The end of a lease that is taken now. -/
def leaseEnd (leaseSeconds : ℤ) : ℤ := now + seconds (max 30 (min 1800 leaseSeconds))

def claimEvent (leaseSeconds : ℤ) (event : SpoolEvent) : SpoolEvent :=
  { event with
    status := .processing
    attempts := event.attempts + 1
    leaseUntil := some (leaseEnd now leaseSeconds)
    updatedAt := now
    lastError := none }

/-- `status == "processing" and lease_until is not None and lease_until > now` -/
def inFlight (event : SpoolEvent) : Bool :=
  event.status == .processing && event.leaseUntil.any (fun lease => now < lease)

/-- `claim`. An unknown event is a `KeyError`. -/
def claim (eventId : List Char) (leaseSeconds : ℤ) (spool : EventSpool) :
    Except String (ClaimState × EventSpool) :=
  match findEvent eventId spool.events with
  | none => .error "KeyError"
  | some event =>
    if event.status = .delivered then .ok (.delivered, spool)
    else if inFlight now event then .ok (.inFlight, spool)
    else
      .ok (.claimed, { spool with
        events := updateEvent eventId (claimEvent now leaseSeconds) spool.events
        chatStats :=
          if event.status = .failed then updateChat event.payload.chatId oneFailureLess spool.chatStats
          else spool.chatStats })

/-- The order of the queue. -/
def eventLe (first second : SpoolEvent) : Prop := first.sequence ≤ second.sequence

instance : DecidableRel eventLe := fun first second =>
  inferInstanceAs (Decidable (first.sequence ≤ second.sequence))

instance : Std.Total eventLe := ⟨fun first second => Nat.le_total first.sequence second.sequence⟩

instance : IsTrans SpoolEvent eventLe := ⟨fun _ _ _ hfirst hsecond => Nat.le_trans hfirst hsecond⟩

/-- The delivered events that follow the cursor, up to the first that is not delivered. -/
def drained (events : List SpoolEvent) (cursor : ℕ) : List SpoolEvent :=
  ((events.filter (fun event => cursor < event.sequence)).insertionSort eventLe).takeWhile
    (fun event => event.status == .delivered)

/-- `_advance_cursor_locked`. -/
def advanceCursor (spool : EventSpool) : EventSpool :=
  { spool with
    cursor := ((drained spool.events spool.cursor).getLast?.map SpoolEvent.sequence).getD spool.cursor }

def deliverEvent (event : SpoolEvent) : SpoolEvent :=
  { event with status := .delivered, leaseUntil := none, deliveredAt := some now, updatedAt := now }

/-- The counters of a chat behind a delivery, where the event had a status before. -/
def forwardChat (status : EventStatus) (row : ChatStats) : ChatStats :=
  { row with
    forwardedCount := row.forwardedCount + 1
    failedCount := row.failedCount - (if status = .failed then 1 else 0)
    lastForwardedAt := some now }

def markDelivered (eventId : List Char) (spool : EventSpool) : EventSpool :=
  let chatStats :=
    match findEvent eventId spool.events with
    | some event =>
      if event.status = .delivered then spool.chatStats
      else updateChat event.payload.chatId (forwardChat now event.status) spool.chatStats
    | none => spool.chatStats
  advanceCursor { spool with
    events := updateEvent eventId (deliverEvent now) spool.events
    chatStats := chatStats }

def failEvent (error : List Char) (retryAfter : ℤ) (event : SpoolEvent) : SpoolEvent :=
  { event with
    status := .failed
    leaseUntil := none
    availableAt := now + seconds (max 1 (min 3600 retryAfter))
    lastError := some (error.take 1000)
    updatedAt := now }

def oneFailureMore (row : ChatStats) : ChatStats :=
  { row with failedCount := row.failedCount + 1, failureCount := row.failureCount + 1 }

/-- `mark_failed`. Its update asks for no status. -/
def markFailed (eventId error : List Char) (retryAfter : ℤ) (spool : EventSpool) : EventSpool :=
  let chatStats :=
    match findEvent eventId spool.events with
    | some event =>
      if event.status = .failed then spool.chatStats
      else updateChat event.payload.chatId oneFailureMore spool.chatStats
    | none => spool.chatStats
  { spool with
    events := updateEvent eventId (failEvent now error retryAfter) spool.events
    chatStats := chatStats }

def ignoreEvent (reason : List Char) (event : SpoolEvent) : SpoolEvent :=
  { deliverEvent now event with
    lastError := some ("ignored:".toList ++ ((if reason = [] then "ignored".toList else reason).take 120)) }

/-- `mark_ignored`, with what it returns. -/
def markIgnored (eventId reason : List Char) (spool : EventSpool) : Bool × EventSpool :=
  let eventId := settings.strip eventId
  match findEvent eventId spool.events with
  | some event =>
    if event.status = .delivered ∨ event.payload.chatId = [] then (false, spool)
    else
      (true, advanceCursor { spool with
        events := updateEvent eventId (ignoreEvent now reason) spool.events
        chatStats :=
          if event.status = .failed then updateChat event.payload.chatId oneFailureLess spool.chatStats
          else spool.chatStats })
  | none => (false, spool)

/-! ## Events that are due -/

/-- The condition of `due`. -/
def isDue (event : SpoolEvent) : Bool :=
  ((event.status == .queued || event.status == .failed) && decide (event.availableAt ≤ now))
    || (event.status == .processing && event.leaseUntil.any (fun lease => lease ≤ now))

def createdLe (first second : SpoolEvent) : Prop := first.createdAt ≤ second.createdAt

instance : DecidableRel createdLe := fun first second =>
  inferInstanceAs (Decidable (first.createdAt ≤ second.createdAt))

def due (limit : ℤ) (spool : EventSpool) : List SpoolEvent :=
  ((spool.events.filter (isDue now)).insertionSort createdLe).take (max 1 (min 100 limit)).toNat

def IsDelivered (spool : EventSpool) (eventId : List Char) : Prop :=
  ∃ event, findEvent eventId spool.events = some event ∧ event.status = .delivered

/-! ## The next start -/

/-- The failed events of each chat. -/
def failedCounts (events : List SpoolEvent) : List (List Char × ℕ) :=
  (events.filter (fun event => event.status == .failed && !event.payload.chatId.isEmpty)).foldl
    (fun counts event =>
      Dict.set counts event.payload.chatId ((counts.lookup event.payload.chatId).getD 0 + 1)) []

/-- `_reconcile_active_failure_counts_locked`. -/
def reconcile (spool : EventSpool) : EventSpool :=
  { spool with
    chatStats := (failedCounts spool.events).foldl
      (fun rows entry =>
        Keyed.update ChatStats.chatId entry.1 (fun row => { row with failedCount := entry.2 }) rows)
      (spool.chatStats.map (fun row => { row with failedCount := 0 })) }

/-! ## What an operation does to the events -/

section Effects

variable {settings : SpoolSettings} {now : ℤ} {eventId : List Char} {spool : EventSpool}

/-- The spool that a result leaves: an exception leaves it as it was. -/
def kept {α : Type} (spool : EventSpool) : Except String (α × EventSpool) → EventSpool
  | .ok result => result.2
  | .error _ => spool

/-- An enqueue changes nothing, adds an event, or changes the payload of the one that is there and perhaps its
    status. -/
theorem enqueue_cases (settings : SpoolSettings) (now : ℤ) (eventId : List Char) (payload : SpoolPayload)
    (refresh reopen : Bool) (spool : EventSpool) :
    (kept spool (enqueue settings now eventId payload refresh reopen spool)).cursor = spool.cursor ∧
      ((kept spool (enqueue settings now eventId payload refresh reopen spool)).events = spool.events ∨
      (findEvent (settings.strip eventId) spool.events = none ∧
        (kept spool (enqueue settings now eventId payload refresh reopen spool)).events = spool.events ++
          [newEvent now (settings.strip eventId) payload (nextEventSequence spool.events)]) ∨
      (refresh = true ∧ reopen = false ∧
        (kept spool (enqueue settings now eventId payload refresh reopen spool)).events
          = updateEvent (settings.strip eventId) (refreshEvent now payload) spool.events) ∨
      (refresh = true ∧ reopen = true ∧
        (kept spool (enqueue settings now eventId payload refresh reopen spool)).events
          = updateEvent (settings.strip eventId) (reopenEvent now payload)
              (updateEvent (settings.strip eventId) (refreshEvent now payload) spool.events))) := by
  unfold enqueue
  dsimp only
  split
  · exact ⟨rfl, Or.inl rfl⟩
  split
  · exact ⟨rfl, Or.inl rfl⟩
  rcases hfind : findEvent (settings.strip eventId) spool.events with _ | event
  · exact ⟨rfl, Or.inr (Or.inl ⟨rfl, rfl⟩)⟩
  rw [if_neg (by simp)]
  cases refresh with
  | false => exact ⟨rfl, Or.inl rfl⟩
  | true =>
      cases reopen with
      | false => exact ⟨rfl, Or.inr (Or.inr (Or.inl ⟨rfl, rfl, rfl⟩))⟩
      | true => exact ⟨rfl, Or.inr (Or.inr (Or.inr ⟨rfl, rfl, rfl⟩))⟩

/-- A claim that is granted finds the event neither delivered nor in flight. -/
theorem claim_claimed {leaseSeconds : ℤ} {result : EventSpool}
    (h : claim now eventId leaseSeconds spool = .ok (.claimed, result)) :
    ∃ event, findEvent eventId spool.events = some event ∧ event.status ≠ .delivered ∧
      inFlight now event = false ∧
      result.events = updateEvent eventId (claimEvent now leaseSeconds) spool.events ∧
      result.cursor = spool.cursor := by
  unfold claim at h
  rcases hfind : findEvent eventId spool.events with _ | event
  · rw [hfind] at h
    exact absurd h (by simp)
  rw [hfind] at h
  dsimp only at h
  split at h
  · exact absurd (congrArg Prod.fst (Except.ok.inj h)) (by simp)
  next hdelivered =>
    split at h
    · exact absurd (congrArg Prod.fst (Except.ok.inj h)) (by simp)
    next hflight =>
      have hresult := (Prod.mk.inj (Except.ok.inj h)).2
      refine ⟨event, rfl, hdelivered, by simpa using hflight, ?_, ?_⟩
      · rw [← hresult]
      · rw [← hresult]

theorem claim_cases (now leaseSeconds : ℤ) (eventId : List Char) (spool : EventSpool) :
    (∃ result, claim now eventId leaseSeconds spool = .ok (.claimed, result)) ∨
      kept spool (claim now eventId leaseSeconds spool) = spool := by
  unfold claim
  rcases findEvent eventId spool.events with _ | event
  · exact Or.inr rfl
  dsimp only
  split
  · exact Or.inr rfl
  split
  · exact Or.inr rfl
  · exact Or.inl ⟨_, rfl⟩

theorem claim_delivered {leaseSeconds : ℤ} {event : SpoolEvent}
    (hfind : findEvent eventId spool.events = some event) (hdelivered : event.status = .delivered) :
    claim now eventId leaseSeconds spool = .ok (.delivered, spool) := by
  unfold claim
  rw [hfind]
  exact if_pos hdelivered

theorem markIgnored_cases (settings : SpoolSettings) (now : ℤ) (eventId reason : List Char)
    (spool : EventSpool) :
    (markIgnored settings now eventId reason spool).2 = spool ∨
      ∃ chatStats, (markIgnored settings now eventId reason spool).2 = advanceCursor { spool with
        events := updateEvent (settings.strip eventId) (ignoreEvent now reason) spool.events
        chatStats := chatStats } := by
  unfold markIgnored
  dsimp only
  rcases findEvent (settings.strip eventId) spool.events with _ | event
  · exact Or.inl rfl
  dsimp only
  split
  · exact Or.inl rfl
  · exact Or.inr ⟨_, rfl⟩

section

variable (payload : SpoolPayload)

section

variable (event : SpoolEvent)

theorem refreshEvent_eventId :
    (refreshEvent now payload event).eventId = event.eventId := by
  unfold refreshEvent
  split <;> rfl

theorem reopenEvent_eventId :
    (reopenEvent now payload event).eventId = event.eventId := by
  unfold reopenEvent
  split <;> rfl

theorem refreshEvent_status :
    (refreshEvent now payload event).status = event.status := by
  unfold refreshEvent
  split <;> rfl

theorem refreshEvent_sequence :
    (refreshEvent now payload event).sequence = event.sequence := by
  unfold refreshEvent
  split <;> rfl

theorem refreshEvent_leaseUntil :
    (refreshEvent now payload event).leaseUntil = event.leaseUntil := by
  unfold refreshEvent
  split <;> rfl

theorem reopenEvent_sequence :
    (reopenEvent now payload event).sequence = event.sequence := by
  unfold reopenEvent
  split <;> rfl

end

end

theorem reopenEvent_cases (now : ℤ) (payload : SpoolPayload) (event : SpoolEvent) :
    (event.status = .delivered ∧ (reopenEvent now payload event).status = .queued) ∨
      (event.status ≠ .delivered ∧ reopenEvent now payload event = event) := by
  unfold reopenEvent
  by_cases hdelivered : event.status = .delivered
  · rw [if_pos hdelivered]
    exact Or.inl ⟨hdelivered, rfl⟩
  · rw [if_neg hdelivered]
    exact Or.inr ⟨hdelivered, rfl⟩

section

variable (change : SpoolEvent → SpoolEvent)

theorem findEvent_update {other : List Char} {events : List SpoolEvent}
    (hid : ∀ event, (change event).eventId = event.eventId) :
    findEvent other (updateEvent eventId change events)
      = if other = eventId then (findEvent other events).map change else findEvent other events := by
  unfold findEvent updateEvent
  by_cases hsame : other = eventId
  · rw [if_pos hsame, hsame]
    exact Keyed.find_update_self change hid
  · rw [if_neg hsame]
    exact Keyed.find_update_of_ne change hid hsame

theorem ids_update {events : List SpoolEvent}
    (hid : ∀ event, (change event).eventId = event.eventId) :
    (updateEvent eventId change events).map SpoolEvent.eventId = events.map SpoolEvent.eventId :=
  Keyed.map_update change _ (fun event _ _ => hid event)

end

theorem nodup_ids_concat {events : List SpoolEvent} {added : SpoolEvent}
    (hnodup : (events.map SpoolEvent.eventId).Nodup) (hfresh : findEvent added.eventId events = none) :
    ((events ++ [added]).map SpoolEvent.eventId).Nodup := by
  rw [List.map_append, List.map_singleton]
  refine List.Nodup.append hnodup (List.nodup_singleton _) ?_
  rw [List.disjoint_singleton]
  exact Keyed.find_eq_none.mp hfresh

theorem findEvent_concat {events : List SpoolEvent} {event : SpoolEvent}
    (added : SpoolEvent) (h : findEvent eventId events = some event) :
    findEvent eventId (events ++ [added]) = some event := by
  unfold findEvent Keyed.find at h ⊢
  rw [List.find?_append, h]
  rfl

end Effects

/-! ## Runs -/

inductive SpoolOp
  | enqueue (eventId : List Char) (payload : SpoolPayload) (refresh reopen : Bool)
  | claim (eventId : List Char) (leaseSeconds : ℤ)
  | markDelivered (eventId : List Char)
  | markFailed (eventId error : List Char) (retryAfter : ℤ)
  | markIgnored (eventId reason : List Char)
  | advanceCursor

def applyOp (op : SpoolOp) (spool : EventSpool) : EventSpool :=
  match op with
  | .enqueue eventId payload refresh reopen =>
    kept spool (enqueue settings now eventId payload refresh reopen spool)
  | .claim eventId leaseSeconds => kept spool (claim now eventId leaseSeconds spool)
  | .markDelivered eventId => markDelivered now eventId spool
  | .markFailed eventId error retryAfter => markFailed now eventId error retryAfter spool
  | .markIgnored eventId reason => (markIgnored settings now eventId reason spool).2
  | .advanceCursor => advanceCursor spool

/-- An empty spool behind operations, each at its time. -/
def spoolAfter (ops : List (ℤ × SpoolOp)) : EventSpool :=
  ops.foldl (fun spool op => applyOp settings op.1 op.2 spool) {}

/-- The settings of the bridge. -/
def bridgeSettings : SpoolSettings where
  isspace := Char.isWhitespace
  maxEventBytes := 512 * 1024

def textPayload (chatId content : String) : SpoolPayload where
  chatId := chatId.toList
  messageType := "TEXT".toList
  content := content.toList
  size := 64

theorem spoolAfter_concat (ops : List (ℤ × SpoolOp)) (op : ℤ × SpoolOp) :
    spoolAfter settings (ops ++ [op]) = applyOp settings op.1 op.2 (spoolAfter settings ops) := by
  unfold spoolAfter
  rw [List.foldl_append, List.foldl_cons, List.foldl_nil]

end TradingHarness
