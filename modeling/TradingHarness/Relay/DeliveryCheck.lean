import Mathlib.Data.Int.Notation
import Mathlib.Data.List.Basic
import TradingHarness.Library.Keyed

set_option autoImplicit false

/-! # The delivery check

`delivery-check.mjs`: a text that a webhook has sent is recorded with its fingerprint, a text that is observed in a
target group is matched to the one record it can belong to, and a recall removes the matched copies. Between two
queries of a call the other calls may run. -/

namespace TradingHarness

/-! ## Fingerprints -/

/-- The white space of `\s` and `trim`. -/
def isJsSpace (char : Char) : Bool :=
  let code := char.toNat
  (9 ≤ code && code ≤ 13) || code == 32 || code == 160 || code == 5760 || (8192 ≤ code && code ≤ 8202) ||
    code == 8232 || code == 8233 || code == 8239 || code == 8287 || code == 12288 || code == 65279

def trimJs (text : List Char) : List Char :=
  ((text.dropWhile isJsSpace).reverse.dropWhile isJsSpace).reverse

/-- `text.split(part).join('')`: `skip` characters of a part that was met are still to be passed over. -/
def removePart (part : List Char) : ℕ → List Char → List Char
  | _, [] => []
  | skip + 1, _ :: rest => removePart part skip rest
  | 0, char :: rest =>
    if part ≠ [] ∧ part.isPrefixOf (char :: rest) then removePart part (part.length - 1) rest
    else char :: removePart part 0 rest

/-- The text that `fingerprint` takes the digest of: 80 characters without the keyword and without white space. -/
def fingerprintSample (text keyword : List Char) : List Char :=
  ((removePart (trimJs keyword) 0 text).filter (fun char => !isJsSpace char)).take 80

/-! ## Tables -/

/-- A target of the registry. -/
structure TargetGroup where
  chatId : List Char
  websocketChatId : List Char := []
  keyword : List Char := []
  owned : Bool := false

/-- A row of `feishu_group_relay_target_deliveries`. `send` is the webhook send that it records: the table does
    not have it. -/
structure DeliveryRow (δ : Type) where
  deliveryId : ℕ
  sourceMessageId : List Char
  targetChatId : List Char
  fingerprint : δ
  sentAt : ℤ
  targetMessageId : Option (List Char) := none
  observedAt : Option ℤ := none
  recalledAt : Option ℤ := none
  recallError : Option String := none
  send : ℕ

/-- A webhook send that has succeeded, and the message that it has produced in the target group. -/
structure WebhookSend where
  sourceMessageId : List Char
  targetChatId : List Char
  isText : Bool
  text : List Char
  produced : List Char

/-- The body of an observation. -/
structure ObservedMessage where
  chatId : List Char
  messageId : List Char
  isText : Bool
  text : List Char
  deriving DecidableEq

/-- An observation whose one candidate has been read. -/
structure FoundCandidate where
  messageId : List Char
  deliveryId : ℕ
  observedAt : ℤ
  deriving DecidableEq

/-- A row that a recall of the source message has read. -/
structure RecallRow where
  sourceMessageId : List Char
  deliveryId : ℕ
  targetChatId : List Char
  targetMessageId : List Char
  deriving DecidableEq

/-- The table, the sends so far, the calls that wait for their next query, and the recalls the bridge was asked
    for, each with the source message it was for. -/
structure CheckWorld (δ : Type) where
  now : ℤ := 0
  sends : List WebhookSend := []
  nextId : ℕ := 0
  rows : List (DeliveryRow δ) := []
  checked : List ObservedMessage := []
  found : List FoundCandidate := []
  recalls : List RecallRow := []
  asked : List (List Char × List Char) := []

/-! ## Steps -/

/-- One query of a call, or what happens outside: the time, a send. `targets` is the registry as the call reads
    it, and `answer` what the bridge answers. -/
inductive CheckOp
  | wait (duration : ℕ)
  | send (sent : WebhookSend)
  | record (send : ℕ) (targets : List TargetGroup)
  | observe (message : ObservedMessage)
  | lookup (message : ObservedMessage) (targets : List TargetGroup)
  | write (candidate : FoundCandidate)
  | startRecall (sourceMessageId : List Char)
  | recallNext (row : RecallRow) (targets : List TargetGroup) (answer : Except String Unit)

section Steps

variable {δ : Type} [DecidableEq δ] (digest : List Char → δ)

def findTarget (chatId : List Char) (targets : List TargetGroup) : Option TargetGroup :=
  targets.find? (fun target => decide (target.chatId = chatId))

/-- The target of the group an observation comes from. -/
def observedTarget (chatId : List Char) (targets : List TargetGroup) : Option TargetGroup :=
  targets.find? (fun target => decide (target.websocketChatId = chatId))

/-- The row that `recordWebhookDelivery` inserts. -/
def deliveryRow (world : CheckWorld δ) (index : ℕ) (sent : WebhookSend) (targets : List TargetGroup) :
    DeliveryRow δ where
  deliveryId := world.nextId
  sourceMessageId := sent.sourceMessageId
  targetChatId := sent.targetChatId
  fingerprint := digest (fingerprintSample sent.text (((findTarget sent.targetChatId targets).map
    TargetGroup.keyword).getD []))
  sentAt := world.now
  send := index

/-- `target_message_id IS NULL AND sent_at >= … AND sent_at <= … AND fingerprint=…`. Times are in milliseconds. -/
def isCandidate (now : ℤ) (target : TargetGroup) (text : List Char) (row : DeliveryRow δ) : Bool :=
  decide (row.targetChatId = target.chatId) && row.targetMessageId.isNone &&
    decide (now - 120000 ≤ row.sentAt) && decide (row.sentAt ≤ now) &&
    decide (row.fingerprint = digest (fingerprintSample text target.keyword))

/-- The rows an observation can belong to. -/
def candidates (world : CheckWorld δ) (message : ObservedMessage) (targets : List TargetGroup) :
    List (DeliveryRow δ) :=
  match observedTarget message.chatId targets with
  | some target => world.rows.filter (isCandidate digest world.now target message.text)
  | none => []

def updateDelivery (deliveryId : ℕ) (change : DeliveryRow δ → DeliveryRow δ) (rows : List (DeliveryRow δ)) :
    List (DeliveryRow δ) :=
  Keyed.update DeliveryRow.deliveryId deliveryId change rows

/-- `… WHERE delivery_id=$1 AND target_message_id IS NULL` -/
def matchRow (candidate : FoundCandidate) (row : DeliveryRow δ) : DeliveryRow δ :=
  if row.targetMessageId.isNone then
    { row with targetMessageId := some candidate.messageId, observedAt := some candidate.observedAt }
  else row

/-- The rows of a recall. -/
def recallRows (sourceMessageId : List Char) (rows : List (DeliveryRow δ)) : List RecallRow :=
  rows.filterMap (fun row =>
    if row.sourceMessageId = sourceMessageId ∧ row.recalledAt = none ∧ row.recallError = none then
      row.targetMessageId.map (fun messageId => ⟨sourceMessageId, row.deliveryId, row.targetChatId, messageId⟩)
    else none)

def isRecallable (target : TargetGroup) : Bool :=
  target.owned && target.websocketChatId != [] && target.websocketChatId.all Char.isDigit

def recalledRow (now : ℤ) (answer : Except String Unit) (row : DeliveryRow δ) : DeliveryRow δ :=
  match answer with
  | .ok _ => { row with recalledAt := some now }
  | .error error => { row with recallError := some error }

def checkStep (op : CheckOp) (world : CheckWorld δ) : CheckWorld δ :=
  match op with
  | .wait duration => { world with now := world.now + duration }
  | .send sent => { world with sends := world.sends ++ [sent] }
  | .record index targets =>
    match world.sends[index]? with
    | some sent =>
      if sent.isText then
        { world with rows := world.rows ++ [deliveryRow digest world index sent targets], nextId := world.nextId + 1 }
      else world
    | none => world
  | .observe message =>
    if message.isText = false ∨ ∃ row ∈ world.rows, row.targetMessageId = some message.messageId then world
    else { world with checked := message :: world.checked }
  | .lookup message targets =>
    if message ∈ world.checked then
      match candidates digest world message targets with
      | [row] =>
        { world with
          checked := world.checked.erase message
          found := ⟨message.messageId, row.deliveryId, world.now⟩ :: world.found }
      | _ => { world with checked := world.checked.erase message }
    else world
  | .write candidate =>
    if candidate ∈ world.found then
      { world with
        found := world.found.erase candidate
        rows := updateDelivery candidate.deliveryId (matchRow candidate) world.rows }
    else world
  | .startRecall sourceMessageId => { world with recalls := recallRows sourceMessageId world.rows ++ world.recalls }
  | .recallNext row targets answer =>
    if row ∈ world.recalls then
      match findTarget row.targetChatId targets with
      | some target =>
        if isRecallable target then
          { world with
            recalls := world.recalls.erase row
            asked := (row.sourceMessageId, row.targetMessageId) :: world.asked
            rows := updateDelivery row.deliveryId (recalledRow world.now answer) world.rows }
        else { world with recalls := world.recalls.erase row }
      | none => { world with recalls := world.recalls.erase row }
    else world

end Steps

end TradingHarness
