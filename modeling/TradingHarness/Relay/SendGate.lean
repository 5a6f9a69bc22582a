import Mathlib.Data.Int.Notation
import TradingHarness.Library.Keyed

set_option autoImplicit false

/-! # The send gate

The audit table of outgoing texts in `send_gate.py`, which admits a send within the limits of its chat and of all chats,
and the two callers that send: `Bridge.send` and `send_urgent`. Times are microseconds. -/

namespace TradingHarness.SendGate

/-! ## Rows -/

inductive SendResult
  | pending
  | accepted
  | unknown
  | failed
  deriving DecidableEq

/-- A row of `send_audit`. -/
structure AuditRow (δ : Type) where
  id : ℕ
  idempotencyKey : Option String
  chatId : String
  textSha256 : δ
  textLength : ℕ
  rootId : Option String
  result : SendResult := .pending
  error : Option String := none
  createdAt : ℤ
  finishedAt : Option ℤ := none

/-- The limits of a `SendGate`. -/
structure SendLimits where
  perChatPerMin : ℕ
  globalPerHour : ℕ
  idempotencyTtl : ℤ

/-- `SendGate.__init__`, with the lifetime in seconds. -/
def sendLimits (perChatPerMin globalPerHour idempotencyTtlSeconds : ℤ) : SendLimits where
  perChatPerMin := (max 1 perChatPerMin).toNat
  globalPerHour := (max 1 globalPerHour).toNat
  idempotencyTtl := max 60 idempotencyTtlSeconds * 1000000

def minuteSpan : ℤ := 60 * 1000000

def hourSpan : ℤ := 3600 * 1000000

inductive SendRefusal
  | conflict (message : String)
  | rateLimited (scope : String) (retryAfter : ℤ)
  | valueError

/-- What is to be sent. -/
structure SendRequest where
  chatId : String
  text : String
  rootId : Option String := none
  idempotencyKey : Option String := none

/-- `x or None` -/
def orNone (text : Option String) : Option String := text.filter (fun given => given != "")

section Gate

variable {δ : Type} [DecidableEq δ]

/-! ## Admission -/

/-- A row that takes budget. -/
def AuditRow.counts (row : AuditRow δ) : Bool := decide (row.result ≠ .failed)

/-- `_count_locked`: the rows that count since a time, in one chat or in all, and the time of the oldest. -/
def countLocked (since : ℤ) (chatId : Option String) (rows : List (AuditRow δ)) : ℕ × Option ℤ :=
  let counted := rows.filter (fun row =>
    decide (since ≤ row.createdAt) && row.counts && chatId.all (fun chat => row.chatId == chat))
  (counted.length, (counted.map AuditRow.createdAt).min?)

/-- `max(1, int((oldest or now) + window - now) + 1)` -/
def retryAfter (oldest : Option ℤ) (span now : ℤ) : ℤ :=
  max 1 (Int.tdiv ((oldest.filter (fun time => time != 0)).getD now + span - now) 1000000 + 1)

/-- The last row of the key within its lifetime. Rows are held the newest first. -/
def priorSend (limits : SendLimits) (key : String) (now : ℤ) (rows : List (AuditRow δ)) : Option (AuditRow δ) :=
  rows.find? (fun row => decide (row.idempotencyKey = some key ∧ now - limits.idempotencyTtl ≤ row.createdAt))

/-- What the last row of the key makes of a request: a conflict, the first send's row, or nothing where that failed. -/
def priorAnswer (digest : String → δ) (request : SendRequest) (prior : AuditRow δ) :
    Except SendRefusal (Option (AuditRow δ)) :=
  if prior.chatId ≠ request.chatId ∨ prior.textSha256 ≠ digest request.text ∨ orNone prior.rootId ≠ request.rootId then
    .error (.conflict "idempotency_key 已被另一份内容使用")
  else
    match prior.result with
    | .accepted => .ok (some prior)
    | .unknown => .ok (some prior)
    | .pending => .error (.conflict "相同 idempotency_key 的发送仍在进行")
    | .failed => .ok none

def replayOf (limits : SendLimits) (digest : String → δ) (request : SendRequest) (now : ℤ) (rows : List (AuditRow δ)) :
    Except SendRefusal (Option (AuditRow δ)) :=
  match orNone request.idempotencyKey with
  | none => .ok none
  | some key =>
    match priorSend limits key now rows with
    | none => .ok none
    | some prior => priorAnswer digest request prior

def newAudit (digest : String → δ) (request : SendRequest) (now : ℤ) (id : ℕ) : AuditRow δ where
  id := id
  idempotencyKey := orNone request.idempotencyKey
  chatId := request.chatId
  textSha256 := digest request.text
  textLength := request.text.length
  rootId := request.rootId
  createdAt := now

inductive Admitted (δ : Type)
  | replay (row : AuditRow δ)
  | auditId (id : ℕ)

def SendLimits.begin (limits : SendLimits) (digest : String → δ) (request : SendRequest) (now : ℤ)
    (rows : List (AuditRow δ)) : Except SendRefusal (Admitted δ × List (AuditRow δ)) :=
  match replayOf limits digest request now rows with
  | .error refusal => .error refusal
  | .ok (some prior) => .ok (.replay prior, rows)
  | .ok none =>
    let chat := countLocked (now - minuteSpan) (some request.chatId) rows
    if limits.perChatPerMin ≤ chat.1 then .error (.rateLimited "chat" (retryAfter chat.2 minuteSpan now))
    else
      let hour := countLocked (now - hourSpan) none rows
      if limits.globalPerHour ≤ hour.1 then .error (.rateLimited "global" (retryAfter hour.2 hourSpan now))
      else .ok (.auditId (rows.length + 1), newAudit digest request now (rows.length + 1) :: rows)

/-! ## Ends -/

def withEnd (ok : Bool) (error : String) (now : ℤ) (row : AuditRow δ) : AuditRow δ :=
  { row with
    result := if ok then .accepted else .failed
    error := if ok then none else some (String.ofList (error.toList.take 240))
    finishedAt := some now }

/-- `SendGate.finish` -/
def finishSend (id : ℕ) (ok : Bool) (error : String) (now : ℤ) (rows : List (AuditRow δ)) : List (AuditRow δ) :=
  Keyed.update AuditRow.id id (withEnd ok error now) rows

/-- A pending row, when the gate is opened again. -/
def asUnknown (now : ℤ) (row : AuditRow δ) : AuditRow δ :=
  if row.result = .pending then
    { row with result := .unknown, error := some "bridge restarted mid-send", finishedAt := some now }
  else row

/-! ## The slots of urgent sends -/

def checkHourlyLimit (timestamps : List ℤ) (now : ℤ) : Except SendRefusal (List ℤ) :=
  let active := timestamps.filter (fun timestamp => decide (now - hourSpan < timestamp))
  if 6 ≤ active.length then
    .error (.rateLimited "urgent" (max 1 (Int.tdiv (active.min?.getD now + hourSpan - now) 1000000 + 1)))
  else .ok (active ++ [now])

/-- `release_urgent_slot`: removing a slot that is gone raises. -/
def releaseUrgentSlot (timestamps : List ℤ) (timestamp : ℤ) : Except SendRefusal (List ℤ) :=
  if timestamps.contains timestamp then .ok (timestamps.erase timestamp) else .error .valueError

/-! ## Callers -/

/-- A call of `Bridge.send` or `send_urgent` under way. An urgent one holds the slot that it has reserved. -/
structure Sending where
  thread : ℕ
  request : SendRequest
  slot : Option ℤ := none
  auditId : Option ℕ := none
  posted : Bool := false

/-- A message that the gateway has accepted. -/
structure Reached where
  auditId : ℕ
  chatId : String
  moment : ℤ

/-- The bridge with its table, its calls under way, the packets in the air and the messages that reached a chat. -/
structure SendWorld (δ : Type) where
  now : ℤ := 0
  rows : List (AuditRow δ) := []
  slots : List ℤ := []
  threads : ℕ := 0
  sendings : List Sending := []
  inAir : List ℕ := []
  reached : List Reached := []

variable (world : SendWorld δ) (sending : Sending) (error : String)

/-- A call is over. -/
def SendWorld.leave (thread : ℕ) : SendWorld δ :=
  { world with sendings := world.sendings.filter (fun sending => sending.thread != thread) }

/-- The rows once the attempt of a call, if it has one, is recorded as failed. -/
def SendWorld.recorded : List (AuditRow δ) :=
  match sending.auditId with
  | none => world.rows
  | some id => finishSend id false error world.now world.rows

/-- The handler of `send_urgent` and of `Bridge.send`: the slot is given back, the failure is recorded. Where the slot is
    gone, the handler itself raises before it records anything. -/
def SendWorld.handle : SendWorld δ :=
  match sending.slot with
  | none => { world with rows := world.recorded sending error }
  | some slot =>
    match releaseUrgentSlot world.slots slot with
    | .error _ => world
    | .ok slots => { world with slots := slots, rows := world.recorded sending error }

/-- A call begins its attempt: it is admitted, is a repetition of an earlier one, or ends as `begin` raises. -/
def SendWorld.enter (limits : SendLimits) (digest : String → δ) (world : SendWorld δ) (sending : Sending) : SendWorld δ :=
  match limits.begin digest sending.request world.now world.rows with
  | .ok (.auditId id, rows) =>
    { world with
      rows := rows
      sendings := Keyed.update Sending.thread sending.thread (fun sending => { sending with auditId := some id }) world.sendings }
  | .ok (.replay _, _) => world.leave sending.thread
  | .error _ => (world.handle sending "").leave sending.thread

def SendWorld.started (request : SendRequest) (slot : Option ℤ) : SendWorld δ :=
  { world with
    threads := world.threads + 1
    sendings := { thread := world.threads, request := request, slot := slot } :: world.sendings }

/-- What can happen. A second bridge that is started opens the gate before it finds the owner lock taken. -/
inductive SendOp
  | tick (elapsed : ℕ)
  | restart
  | secondStart
  | send (request : SendRequest)
  | reserve (chatId text : String)
  | begin (thread : ℕ)
  | post (thread : ℕ)
  | answer (auditId : ℕ)
  | drop (auditId : ℕ)
  | succeed (thread : ℕ)
  | raise (thread : ℕ) (error : String)

def SendWorld.find (thread : ℕ) : Option Sending := Keyed.find Sending.thread thread world.sendings

/-- One step. The gateway answers for a packet in the air whatever has become of the call. -/
def sendStep (limits : SendLimits) (digest : String → δ) (op : SendOp) (world : SendWorld δ) : SendWorld δ :=
  match op with
  | .tick elapsed => { world with now := world.now + elapsed }
  | .restart => { world with rows := world.rows.map (asUnknown world.now), slots := [], sendings := [] }
  | .secondStart => { world with rows := world.rows.map (asUnknown world.now) }
  | .send request =>
    (world.started request none).enter limits digest { thread := world.threads, request := request }
  | .reserve chatId text =>
    match checkHourlyLimit world.slots world.now with
    | .error _ => world
    | .ok slots => { world with slots := slots }.started { chatId := chatId, text := text } (some world.now)
  | .begin thread =>
    match world.find thread with
    | none => world
    | some sending => if sending.auditId = none then world.enter limits digest sending else world
  | .post thread =>
    match world.find thread with
    | some { auditId := some id, posted := false, .. } =>
      { world with
        inAir := id :: world.inAir
        sendings := Keyed.update Sending.thread thread (fun sending => { sending with posted := true }) world.sendings }
    | _ => world
  | .answer id =>
    match Keyed.find AuditRow.id id world.rows with
    | none => world
    | some row =>
      if id ∈ world.inAir then
        { world with inAir := world.inAir.erase id, reached := ⟨id, row.chatId, world.now⟩ :: world.reached }
      else world
  | .drop id => { world with inAir := world.inAir.erase id }
  | .succeed thread =>
    match world.find thread with
    | some { auditId := some id, .. } =>
      if id ∈ world.reached.map Reached.auditId then
        { world with rows := finishSend id true "" world.now world.rows }.leave thread
      else world
    | _ => world
  | .raise thread error =>
    match world.find thread with
    | none => world
    | some sending => (world.handle sending error).leave thread

end Gate

end TradingHarness.SendGate
