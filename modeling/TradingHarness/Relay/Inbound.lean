import Mathlib
import TradingHarness.Relay.Outboxes

set_option autoImplicit false

/-! # Inbound messages

`processInbound` of the group relay over the table of relayed messages: what it filters, when it reopens a row
that was sent, when it answers that the message is a duplicate, and what it claims and delivers. -/

namespace TradingHarness

/-! ## The table -/

/-- `status` of `feishu_group_relay_messages`. -/
inductive RelayStatus
  | processing
  | sent
  | failed
  | filteredSystem
  | skippedBootstrap
  | unsupported
  deriving DecidableEq

/-- A source message. What is read of its content is in the rules below. -/
structure SourceMessage (μ : Type) where
  messageId : List Char
  createTime : Option ℤ
  updateTime : Option ℤ
  deleted : Bool
  content : μ

/-- A message that was delivered to a target. -/
structure TargetMessage where
  targetChatId : Option (List Char)
  messageId : List Char
  msgType : Option (List Char) := none
  deriving DecidableEq

/-- A row of `feishu_group_relay_messages`. -/
structure RelayRow (μ : Type) where
  sourceMessageId : List Char
  sourceKey : List Char
  sourceChatId : List Char
  sourceCreateTime : ℤ
  targetChatId : List Char
  routeTag : List Char
  message : SourceMessage μ
  status : RelayStatus
  attemptCount : ℕ := 0
  targetMessageIds : List TargetMessage := []
  errorMessage : Option (List Char) := none
  sourceUpdateTime : Option ℤ
  sourceDeleted : Bool := false
  updatedAt : ℤ

/-- The table, with one row for a message. -/
structure RelayTable (μ : Type) where
  rows : List (RelayRow μ)
  nodup : (rows.map RelayRow.sourceMessageId).Nodup

section Ledger

variable {μ : Type}

def getRelayMessage (messageId : List Char) (table : RelayTable μ) : Option (RelayRow μ) :=
  Keyed.find RelayRow.sourceMessageId messageId table.rows

theorem nodup_update (messageId : List Char) (change : RelayRow μ → RelayRow μ)
    (hkey : ∀ row, (change row).sourceMessageId = row.sourceMessageId) (table : RelayTable μ) :
    ((Keyed.update RelayRow.sourceMessageId messageId change table.rows).map RelayRow.sourceMessageId).Nodup := by
  rw [Keyed.map_update change RelayRow.sourceMessageId (fun row _ _ => hkey row)]
  exact table.nodup

theorem nodup_concat (row : RelayRow μ) (table : RelayTable μ)
    (h : getRelayMessage row.sourceMessageId table = none) :
    ((table.rows ++ [row]).map RelayRow.sourceMessageId).Nodup := by
  rw [List.map_append, List.map_singleton]
  exact List.nodup_append.mpr ⟨table.nodup, List.nodup_singleton _, by
    intro one hone other hother hsame
    rw [List.mem_singleton] at hother
    exact Keyed.find_eq_none.mp h (hother ▸ hsame ▸ hone)⟩

/-- A change of the row of a message that leaves its key. -/
def RelayTable.change (table : RelayTable μ) (messageId : List Char) (change : RelayRow μ → RelayRow μ)
    (hkey : ∀ row, (change row).sourceMessageId = row.sourceMessageId) : RelayTable μ :=
  ⟨Keyed.update RelayRow.sourceMessageId messageId change table.rows, nodup_update messageId change hkey table⟩

/-- `INSERT … ON CONFLICT(source_message_id) DO UPDATE`. -/
def RelayTable.upsert (table : RelayTable μ) (row : RelayRow μ) (change : RelayRow μ → RelayRow μ)
    (hkey : ∀ row, (change row).sourceMessageId = row.sourceMessageId) : RelayTable μ :=
  if h : getRelayMessage row.sourceMessageId table = none then ⟨table.rows ++ [row], nodup_concat row table h⟩
  else table.change row.sourceMessageId change hkey

/-! ## The operations of the ledger -/

/-- The record that a call of the relay writes. -/
structure RelayRecord (μ : Type) where
  sourceMessageId : List Char
  sourceKey : List Char
  sourceChatId : List Char
  sourceCreateTime : ℤ
  sourceUpdateTime : Option ℤ
  targetChatId : List Char
  routeTag : List Char
  message : SourceMessage μ

/-- The columns that a record sets in the row it meets. -/
def RelayRecord.setIn (record : RelayRecord μ) (row : RelayRow μ) : RelayRow μ :=
  { row with
    sourceKey := record.sourceKey
    sourceChatId := record.sourceChatId
    sourceCreateTime := record.sourceCreateTime
    targetChatId := record.targetChatId
    routeTag := record.routeTag
    message := record.message
    sourceUpdateTime := record.sourceUpdateTime.or row.sourceUpdateTime }

/-- A new row of a record. -/
def RelayRecord.newRow (record : RelayRecord μ) (status : RelayStatus) (now : ℤ) : RelayRow μ where
  sourceMessageId := record.sourceMessageId
  sourceKey := record.sourceKey
  sourceChatId := record.sourceChatId
  sourceCreateTime := record.sourceCreateTime
  targetChatId := record.targetChatId
  routeTag := record.routeTag
  message := record.message
  status := status
  sourceUpdateTime := record.sourceUpdateTime
  updatedAt := now

def filterRelayMessage (now : ℤ) (record : RelayRecord μ) (reason : List Char) (table : RelayTable μ) :
    RelayTable μ :=
  table.upsert
    { record.newRow .filteredSystem now with
      errorMessage := some reason, sourceDeleted := record.message.deleted }
    (fun row => { record.setIn row with
      status := .filteredSystem, sourceDeleted := record.message.deleted, errorMessage := some reason,
      updatedAt := now })
    (fun _ => rfl)

/-- The wait of a failed row before it is tried again: `interval '10 seconds' * power(2, least(…, 5))`. -/
def retryWait (attemptCount : ℕ) : ℤ := interval (10 * 2 ^ min (attemptCount - 1) 5)

/-- A failed row has waited long enough. -/
def retryElapsed (now : ℤ) (row : RelayRow μ) : Bool :=
  row.status == .failed && decide (row.updatedAt ≤ now - retryWait row.attemptCount)

def claimRelayMessage (now : ℤ) (record : RelayRecord μ) (table : RelayTable μ) :
    Option (RelayRow μ) × RelayTable μ :=
  match getRelayMessage record.sourceMessageId table with
  | none =>
    let table := table.upsert { record.newRow .processing now with attemptCount := 1 } id (fun _ => rfl)
    (getRelayMessage record.sourceMessageId table, table)
  | some row =>
    if retryElapsed now row ∨ row.status = .processing ∧ row.updatedAt < now - interval (5 * 60) then
      let table := table.change record.sourceMessageId
        (fun row => { record.setIn row with
          status := .processing, attemptCount := row.attemptCount + 1, errorMessage := none, updatedAt := now })
        (fun _ => rfl)
      (getRelayMessage record.sourceMessageId table, table)
    else (none, table)

/-- `WHERE source_message_id=$1 AND status='sent'` finds a row. -/
def isSent (messageId : List Char) (table : RelayTable μ) : Bool :=
  ((getRelayMessage messageId table).map RelayRow.status) == some .sent

/-- The columns that `resetRelayMessageForRetry` sets. -/
def resetRow (now : ℤ) (reason : List Char) (row : RelayRow μ) : RelayRow μ :=
  { row with status := .failed, targetMessageIds := [], errorMessage := some reason, updatedAt := now }

/-- The columns that `correctRelayMessage` sets. -/
def correctRow (now : ℤ) (message : SourceMessage μ) (reason : List Char) (row : RelayRow μ) : RelayRow μ :=
  { row with
    status := .failed, message := message, targetMessageIds := [], errorMessage := some reason,
    attemptCount := 0, updatedAt := now - interval 3600 }

/-- `resetRelayMessageForRetry`: whether it changed a row. -/
def resetRelayMessageForRetry (now : ℤ) (messageId reason : List Char) (table : RelayTable μ) :
    Bool × RelayTable μ :=
  if isSent messageId table then
    (true, table.change messageId (resetRow now reason) (fun _ => rfl))
  else (false, table)

/-- `correctRelayMessage`: the corrected content is stored, and the row can be claimed at once. -/
def correctRelayMessage (now : ℤ) (messageId : List Char) (message : SourceMessage μ) (reason : List Char)
    (table : RelayTable μ) : Bool × RelayTable μ :=
  if isSent messageId table then
    (true, table.change messageId (correctRow now message reason) (fun _ => rfl))
  else (false, table)

def markRelayMessage (now : ℤ) (messageId : List Char) (status : RelayStatus)
    (targetMessageIds : List TargetMessage) (errorMessage : Option (List Char)) (table : RelayTable μ) :
    RelayTable μ :=
  table.change messageId
    (fun row => { row with
      status := status, targetMessageIds := targetMessageIds, errorMessage := errorMessage, updatedAt := now })
    (fun _ => rfl)

/-- `relayMessagesBySourceWindow`. Rows of one time keep the order of the table. -/
def relayMessagesBySourceWindow (sourceKey : List Char) (fromCreateTime toCreateTime : ℤ)
    (table : RelayTable μ) : List (RelayRow μ) :=
  let first := max 0 fromCreateTime
  let last := max first (if toCreateTime = 0 then first else toCreateTime)
  ((table.rows.filter (fun row => row.sourceKey == sourceKey && decide (first ≤ row.sourceCreateTime)
    && decide (row.sourceCreateTime ≤ last))).insertionSort
      (fun one other => one.sourceCreateTime ≤ other.sourceCreateTime)).take 2000

/-- The rows of `relayRetryQueue` before its order and limit. -/
def dueForRetry (now : ℤ) (sourceKeys : List (List Char)) (table : RelayTable μ) : List (RelayRow μ) :=
  table.rows.filter (fun row => retryElapsed now row && !row.sourceDeleted
    && (sourceKeys.isEmpty || sourceKeys.contains row.sourceKey))

def relayRetryQueue (now limit : ℤ) (sourceKeys : List (List Char)) (table : RelayTable μ) : List (RelayRow μ) :=
  ((dueForRetry now sourceKeys table).insertionSort (fun one other => one.updatedAt ≤ other.updatedAt)).take
    (boundedOr 1 100 20 limit).toNat

end Ledger

/-! ## The call -/

/-- A source of the relay. -/
structure RelaySource where
  key : List Char
  resolvedChatId : Option (List Char)
  targetChatId : List Char
  targetChatIds : List (List Char)
  tag : List Char

/-- What the relay reads of the content of a message: `isSystemMessage`, `blockedMessageReason` with the options
    of the source, `isPlaceholderCardRelay` and `relayContentFingerprint`. -/
structure ContentRules (μ φ : Type) where
  isSystem : μ → Bool
  blocked : RelaySource → μ → Option (List Char)
  isPlaceholder : μ → Bool
  fingerprint : μ → φ

/-- What a call raises. -/
inductive InboundError
  | unsupported (text : String)
  | error (text : String)

/-- The status that a call answers. -/
inductive InboundAnswer
  | filtered
  | duplicate
  | inFlight
  | row (status : RelayStatus)
  deriving DecidableEq

/-- `asCreateTimeMs` of a number, or of nothing that is one. -/
def asCreateTimeMs (value : Option ℤ) (fallback : ℤ) : ℤ :=
  match value with
  | none => fallback
  | some parsed =>
    if parsed ≤ 0 then fallback else if parsed < 100000000000 then parsed * 1000 else parsed

/-- How the delivery of a claimed message ends: with the targets reached so far and what failed, or with an
    exception. -/
inductive Delivery
  | delivered (targetMessageIds : List TargetMessage) (failures : List (List Char × List Char))
  | raised (unsupported : Bool) (errorMessage : List Char)

/-- `failures.map((failure) => …).join('; ')`. -/
def failuresText (failures : List (List Char × List Char)) : List Char :=
  "; ".toList.intercalate (failures.map (fun failure => failure.1 ++ ": ".toList ++ failure.2))

/-- `/Key Words Not Found/i`. -/
def rejectsKeywords (errorMessage : List Char) : Bool :=
  decide ("key words not found".toList <:+: errorMessage.map Char.toLower)

def processClaimed {μ : Type} (now : ℤ) (messageId : List Char) (delivery : Delivery) (table : RelayTable μ) :
    RelayTable μ :=
  match delivery with
  | .delivered targetMessageIds [] => markRelayMessage now messageId .sent targetMessageIds none table
  | .delivered targetMessageIds (failure :: failures) =>
    let errorMessage := failuresText (failure :: failures)
    markRelayMessage now messageId (if rejectsKeywords errorMessage then .filteredSystem else .failed)
      targetMessageIds (some errorMessage) table
  | .raised unsupported errorMessage =>
    markRelayMessage now messageId (if unsupported then .unsupported else .failed) [] (some errorMessage) table

section Call

variable {μ φ : Type} [DecidableEq φ] (rules : ContentRules μ φ)

/-- `relayMessagesEquivalent` of a row and a record. -/
def relayMessagesEquivalent (row : RelayRow μ) (record : RelayRecord μ) : Bool :=
  let rowTime := asCreateTimeMs (some row.sourceCreateTime) 0
  let recordTime := asCreateTimeMs (some record.sourceCreateTime) 0
  decide (rowTime ≠ 0) && decide (recordTime ≠ 0) && decide ((rowTime - recordTime).natAbs ≤ 3000)
    && decide (rules.fingerprint row.message.content = rules.fingerprint record.message.content)

/-- A row that a duplicate may be the copy of. -/
def isSettled (status : RelayStatus) : Bool :=
  status == .sent || status == .skippedBootstrap || status == .filteredSystem

/-- The row of another message, sent or passed over, that is the copy of the record on another transport. -/
def equivalentRow (record : RelayRecord μ) (table : RelayTable μ) : Option (RelayRow μ) :=
  (relayMessagesBySourceWindow record.sourceKey (record.sourceCreateTime - 3000) (record.sourceCreateTime + 3000)
    table).find? (fun row => row.sourceMessageId != record.sourceMessageId && isSettled row.status
      && relayMessagesEquivalent rules row record)

/-- `replaceExistingPlaceholder`. -/
def replacesPlaceholder (replacePlaceholder : Bool) (existing : Option (RelayRow μ)) : Bool :=
  replacePlaceholder && existing.any (fun row => row.status == .sent && rules.isPlaceholder row.message.content)

/-- `correctExisting`. -/
def correctsExisting (replacePlaceholder correction : Bool) (existing : Option (RelayRow μ))
    (message : SourceMessage μ) : Bool :=
  correction && !replacesPlaceholder rules replacePlaceholder existing
    && existing.any (fun row => row.status == .sent
      && decide (rules.fingerprint row.message.content ≠ rules.fingerprint message.content))

/-- The record of a message. -/
def inboundRecord (now : ℤ) (message : SourceMessage μ) (source : RelaySource) (chatId : List Char) :
    RelayRecord μ :=
  let sourceCreateTime := asCreateTimeMs message.createTime (now / 1000)
  { sourceMessageId := message.messageId
    sourceKey := source.key
    sourceChatId := chatId
    sourceCreateTime := sourceCreateTime
    sourceUpdateTime := message.updateTime.map (fun value => asCreateTimeMs (some value) sourceCreateTime)
    targetChatId := source.targetChatId
    routeTag := source.tag
    message := message }

/-- What a call does to a row that exists: it is reopened, or the call ends with a duplicate. -/
inductive Reopening (μ : Type)
  | duplicate (table : RelayTable μ)
  | goesOn (table : RelayTable μ)

/-- The three early ends of `processInbound`, in the order of the source. -/
def reopen (now : ℤ) (message : SourceMessage μ) (replacePlaceholder correction : Bool) (table : RelayTable μ) :
    Reopening μ :=
  let existing := getRelayMessage message.messageId table
  let replaces := replacesPlaceholder rules replacePlaceholder existing
  let corrects := correctsExisting rules replacePlaceholder correction existing message
  if existing.any (fun row => isSettled row.status) && !replaces && !corrects then .duplicate table
  else if replaces then
    let (reset, table) := resetRelayMessageForRetry now message.messageId "LarkAgentX 历史卡片回放替换占位内容".toList
      table
    if reset then .goesOn table else .duplicate table
  else if corrects then
    let (corrected, table) := correctRelayMessage now message.messageId message "LarkAgentX 历史重读更正内容".toList
      table
    if corrected then .goesOn table else .duplicate table
  else .goesOn table

/-- The rest of `processInbound`, from the search for a copy on. `relayOne` is how the delivery of the claimed row
    ends. -/
def relayInbound (relayOne : RelayRow μ → Delivery) (now : ℤ) (record : RelayRecord μ)
    (table : RelayTable μ) : InboundAnswer × RelayTable μ :=
  match equivalentRow rules record table with
  | some _ => (.duplicate, table)
  | none =>
    match claimRelayMessage now record table with
    | (none, table) => (.inFlight, table)
    | (some claimed, table) =>
      let table := processClaimed now record.sourceMessageId (relayOne claimed) table
      (.row (((getRelayMessage record.sourceMessageId table).map RelayRow.status).getD .processing), table)

def processInbound (relayOne : RelayRow μ → Delivery) (now : ℤ) (message : SourceMessage μ)
    (source : RelaySource) (replacePlaceholder correction : Bool) (table : RelayTable μ) :
    Except InboundError (InboundAnswer × RelayTable μ) :=
  if message.messageId = [] then .error (.unsupported "实时源消息没有 message_id")
  else match source.resolvedChatId with
    | none => .error (.error "实时源消息缺少已映射的 source 或 chat_id")
    | some chatId =>
      if source.key = [] ∨ chatId = [] then .error (.error "实时源消息缺少已映射的 source 或 chat_id")
      else if source.targetChatIds.contains chatId then
        .error (.error ("源群 " ++ String.ofList source.key ++ " 与目标群相同，拒绝实时转发以避免循环"))
      else
        let record := inboundRecord now message source chatId
        if rules.isSystem message.content then
          .ok (.filtered, filterRelayMessage now record "系统消息已过滤（LarkAgentX 实时入口）".toList table)
        else match rules.blocked source message.content with
          | some reason => .ok (.filtered, filterRelayMessage now record reason table)
          | none =>
            match reopen rules now message replacePlaceholder correction table with
            | .duplicate table => .ok (.duplicate, table)
            | .goesOn table => .ok (relayInbound rules relayOne now record table)

end Call

end TradingHarness
