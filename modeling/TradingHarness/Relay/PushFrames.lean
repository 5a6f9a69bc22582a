import TradingHarness.Library.Utf8
import TradingHarness.Relay.WireRoundTrip

set_option autoImplicit false

/-! # Push frames

`tolerant_websocket_decode_with_meta` of the relay's `proto_wire.py`: the messages of a push frame, read entry by
entry, and the telemetry that asks for a repair of the history. -/

namespace TradingHarness.Push

open Utf8 (decodeReplace)

/-! ## Layers -/

theorem readProtoFields_isSome (raw : List UInt8) (layer : String) (telemetry : Telemetry) :
    (readProtoFields (raw.length + 1) 17 raw layer telemetry).isSome = true := by
  obtain ⟨outcome, houtcome⟩ := fieldsLoop_total raw layer (raw.length + 1) 17 0 none 0 [] telemetry
    (by omega) (by omega) (by omega)
  unfold readProtoFields readProtoFieldsUntil enterAt
  rw [if_neg (by omega), houtcome]
  rcases outcome with ⟨error | ⟨fields, offset⟩, telemetry'⟩
  · rfl
  · simp only
    split
    · rfl
    · rfl

/-- `_read_proto_fields` of a payload, with bounds that suffice. -/
def readFields (raw : List UInt8) (layer : String) (telemetry : Telemetry) :
    Except TolerantProtoError (List ProtoField) × Telemetry :=
  (readProtoFields (raw.length + 1) 17 raw layer telemetry).get (readProtoFields_isSome raw layer telemetry)

variable (fields : List ProtoField) (number : ℕ)

/-- `_first_proto_field` with a wire type. -/
def firstProtoField (wireType : ℕ) : Option ProtoValue :=
  (fields.find? (fun field => field.fieldNumber = number && field.wireType = wireType)).map ProtoField.value

/-- The bytes of the first field of a number, where it is length-delimited. -/
def firstBytes : Option (List UInt8) :=
  match firstProtoField fields number 2 with
  | some (.bytes value) => some value
  | _ => none

/-- `_proto_text` of bytes. -/
def protoText (value : List UInt8) : List Char := decodeReplace none value

/-! ## Entities -/

/-- `strings` -/
def entityStrings : List (ℕ × String) :=
  [(1, "id"), (3, "from_id"), (8, "root_id"), (9, "parent_id"), (10, "chat_id"), (12, "cid"), (20, "thread_id"),
    (24, "channel_id")]

/-- `integers` -/
def entityIntegers : List (ℕ × String) :=
  [(2, "msg_type"), (4, "create_time"), (13, "position"), (14, "update_time"), (46, "chat_type")]

/-- What is kept of the fields of an entity. -/
structure Entity where
  texts : List (String × List Char) := []
  integers : List (String × ℕ) := []
  contentBytes : List UInt8 := []

/-- One field of an entity. -/
def Entity.put (entity : Entity) (field : ProtoField) : Entity :=
  match field.value with
  | .bytes value =>
    if field.wireType = 2 then
      match entityStrings.lookup field.fieldNumber with
      | some name => { entity with texts := Dict.set entity.texts name (protoText value) }
      | none => if field.fieldNumber = 5 then { entity with contentBytes := value } else entity
    else entity
  | .int value =>
    if field.wireType = 0 then
      match entityIntegers.lookup field.fieldNumber with
      | some name => { entity with integers := Dict.set entity.integers name value }
      | none => entity
    else entity

def Entity.text (entity : Entity) (name : String) : List Char := (entity.texts.lookup name).getD []

/-- What the decoder takes from its libraries. `Data` is the content of a message. -/
structure ContentHost (Data : Type) where
  /-- The hexadecimal digest of an ASCII text. -/
  sha256 : String → List Char
  msgTypeNames : ℕ → Option String
  chatTypeNames : ℕ → Option String
  /-- `decode_message_content`: the summary and the content, or the text of what it raises. -/
  decodeMessageContent : ℕ → List UInt8 → Except String (String × Option Data)
  /-- `_enrich_card_content`: `none` where it returns the content that it was given. -/
  enrichCardContent : List UInt8 → Option Data → Except String (Option (Option String × Option Data))

variable {Data : Type}

variable (host : ContentHost Data)

/-- The `try` block: the summary and the content, with those of a card recovered. -/
def decodeContent (msgType : ℕ) (contentBytes : List UInt8) :
    Except String (String × Option Data) := do
  let (summary, contentData) ← host.decodeMessageContent msgType contentBytes
  if msgType = 14 then
    match ← host.enrichCardContent contentBytes contentData with
    | none => return (summary, contentData)
    | some (some recovered, contentData) => return (if recovered = "" then summary else recovered, contentData)
    | some (none, contentData) => return (summary, contentData)
  else return (summary, contentData)

structure Message (Data : Type) where
  msgId : List Char
  msgType : ℕ
  msgTypeName : String
  fromId : List Char
  chatId : List Char
  chatType : ℕ
  chatTypeName : String
  scope : String
  anchor : List Char
  atMe : Bool
  rootId : List Char
  parentId : List Char
  cid : List Char
  position : Option ℕ
  createTime : Option ℕ
  updateTime : Option ℕ
  content : String
  contentData : Option Data
  contentStatus : String

/-- The scope and the anchor of a message. -/
def scopeOf (entity : Entity) (chatType : ℕ) : String × List Char :=
  let rootId := entity.text "root_id"
  let threadId := entity.text "thread_id"
  if chatType = 1 then ("chat", [])
  else if rootId ≠ [] ∧ rootId ≠ ['0'] then ("topic", if threadId = [] then rootId else threadId)
  else if chatType = 3 then ("chat", entity.text "chat_id")
  else ("chat", [])

/-- The message of the fields of an entity. -/
def messageOf (fields : List ProtoField) : Message Data :=
  let entity := fields.foldl Entity.put {}
  let msgType := (entity.integers.lookup "msg_type").getD 0
  let chatType := (entity.integers.lookup "chat_type").getD 0
  let typeName := (host.msgTypeNames msgType).getD (toString msgType)
  let decoded := decodeContent host msgType entity.contentBytes
  let scope := scopeOf entity chatType
  let chatId := entity.text "chat_id"
  { msgId := entity.text "id",
    msgType := msgType,
    msgTypeName := typeName,
    fromId := entity.text "from_id",
    chatId := if chatId = [] then entity.text "channel_id" else chatId,
    chatType := chatType,
    chatTypeName := (host.chatTypeNames chatType).getD (toString chatType),
    scope := scope.1,
    anchor := scope.2,
    atMe := false,
    rootId := entity.text "root_id",
    parentId := entity.text "parent_id",
    cid := entity.text "cid",
    position := entity.integers.lookup "position",
    createTime := entity.integers.lookup "create_time",
    updateTime := entity.integers.lookup "update_time",
    content := match decoded with
      | .ok (summary, _) => summary
      | .error error => "[" ++ typeName ++ "消息解析失败: " ++ error ++ "]",
    contentData := match decoded with
      | .ok (_, contentData) => contentData
      | .error _ => none,
    contentStatus := if decoded.isOk && (host.msgTypeNames msgType).isSome then "decoded" else "unsupported" }

def tolerantEntityMessage (raw : List UInt8) (telemetry : Telemetry) :
    Except TolerantProtoError (Message Data) × Telemetry :=
  match readFields raw "entity" telemetry with
  | (.error error, telemetry) => (.error error, telemetry)
  | (.ok fields, telemetry) => (.ok (messageOf host fields), telemetry)

/-! ## Pushes -/

/-- An item of `entry_errors`. -/
structure EntryError where
  layer : String
  fieldNumber : Option ℕ := none
  wireType : Option ℕ := none
  offset : Option ℕ := none
  message : List Char

/-- `error.telemetry()` -/
def errorTelemetry (error : TolerantProtoError) : EntryError where
  layer := error.layer
  fieldNumber := error.fieldNumber
  wireType := error.wireType
  offset := error.offset
  message := error.message.toList.take 240

/-- What the loop over the fields of a push has. -/
structure PushState (Data : Type) where
  messages : List (Message Data) := []
  entryErrors : List EntryError := []
  telemetry : Telemetry

/-- The `except` clause. -/
def PushState.caught (state : PushState Data) (error : TolerantProtoError) (telemetry : Telemetry) :
    PushState Data :=
  { state with
    entryErrors :=
      if state.entryErrors.length < 32 then state.entryErrors ++ [errorTelemetry error] else state.entryErrors
    telemetry := telemetry }

/-- The `try` block, of one entry. -/
def PushState.entry (state : PushState Data) (entryRaw : List UInt8) : PushState Data :=
  match readFields entryRaw "entry" state.telemetry with
  | (.error error, telemetry) => state.caught error telemetry
  | (.ok entry, telemetry) =>
    match firstBytes entry 2 with
    | none =>
      { state with
        entryErrors := state.entryErrors ++ [{ layer := "entry", message := "missing message payload".toList }]
        telemetry := telemetry }
    | some messageRaw =>
      match tolerantEntityMessage host messageRaw telemetry with
      | (.error error, telemetry) => state.caught error telemetry
      | (.ok message, telemetry) =>
        { state with
          messages := if message.msgId ≠ [] then state.messages ++ [message] else state.messages
          telemetry := telemetry }

/-- The bytes of a field of a number, where it is length-delimited. -/
def lengthDelimited (field : ProtoField) : Option (List UInt8) :=
  match field.value with
  | .bytes value => if field.fieldNumber = number ∧ field.wireType = 2 then some value else none
  | .int _ => none

/-- One round of the loop. -/
def PushState.step (state : PushState Data) (field : ProtoField) : PushState Data :=
  match lengthDelimited 1 field with
  | some entryRaw => state.entry host entryRaw
  | none => state

def tolerantPushMessages (raw : List UInt8) (telemetry : Telemetry) :
    Except TolerantProtoError (PushState Data) :=
  match readFields raw "push" telemetry with
  | (.error error, _) => .error error
  | (.ok fields, telemetry) => .ok (fields.foldl (PushState.step host) { telemetry := telemetry })

/-! ## Frames -/

/-- The telemetry that is returned. -/
structure FrameTelemetry where
  unknownFields : List (String × ℕ)
  wireMismatches : List (String × ℕ)
  groupsSkipped : ℕ
  entryErrors : List EntryError
  fieldFingerprint : Option (List Char)
  isPartial : Bool

def finalizeTelemetry (telemetry : Telemetry) (entryErrors : List EntryError) :
    FrameTelemetry where
  unknownFields := telemetry.unknownFields
  wireMismatches := telemetry.wireMismatches
  groupsSkipped := telemetry.groupsSkipped
  entryErrors := entryErrors
  fieldFingerprint :=
    if telemetry.fieldSignatures.isEmpty then none
    else some ((host.sha256 (String.intercalate "|" telemetry.fieldSignatures)).take 16)
  isPartial := !entryErrors.isEmpty

structure Packet where
  sid : List Char
  cmd : ℕ

/-- The packet of its fields. -/
def packetOf : Packet where
  sid := protoText ((firstBytes fields 1).getD [])
  cmd := match firstProtoField fields 3 0 with
    | some (.int value) => value
    | _ => 0

def tolerantWebsocketDecodeWithMeta (raw : List UInt8) :
    Except TolerantProtoError (Packet × List (Message Data) × FrameTelemetry) :=
  match readFields raw "frame" {} with
  | (.error error, _) => .error error
  | (.ok frame, telemetry) =>
    match firstBytes frame 8 with
    | none => .error { message := "WebSocket frame has no packet payload", layer := "frame" }
    | some packetRaw =>
      match readFields packetRaw "packet" telemetry with
      | (.error error, _) => .error error
      | (.ok packetFields, telemetry) =>
        match firstBytes packetFields 5 with
        | none => .ok (packetOf packetFields, [], finalizeTelemetry host telemetry [])
        | some pushRaw =>
          match tolerantPushMessages host pushRaw telemetry with
          | .error error => .error error
          | .ok state =>
            .ok (packetOf packetFields, state.messages, finalizeTelemetry host state.telemetry state.entryErrors)

end TradingHarness.Push
