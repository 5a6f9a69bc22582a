import TradingHarness.Library.Dict
import TradingHarness.Library.Wire

set_option autoImplicit false

/-! # The protobuf wire parser

`_read_proto_fields` of the relay's `proto_wire.py`: the fields of a wire payload with their wire types,
groups skipped, and the telemetry of what was met. -/

namespace TradingHarness

structure TolerantProtoError where
  message : String
  layer : String
  fieldNumber : Option ℕ := none
  wireType : Option ℕ := none
  offset : Option ℕ := none

/-! ## Telemetry -/

def expectedFields : List (String × List ℕ) :=
  [("frame", [8]), ("packet", [1, 3, 5]), ("push", [1]), ("entry", [1, 2]),
    ("entity", [1, 2, 3, 4, 5, 8, 9, 10, 12, 13, 14, 20, 24, 46])]

def expectedWires : List (String × List (ℕ × List ℕ)) :=
  [("frame", [(8, [2])]), ("packet", [(1, [2]), (3, [0]), (5, [2])]), ("push", [(1, [2])]),
    ("entry", [(1, [2]), (2, [2])]),
    ("entity", [(1, [2]), (2, [0]), (3, [2]), (4, [0]), (5, [2]), (8, [2]), (9, [2]), (10, [2]), (12, [2]),
      (13, [0]), (14, [0]), (20, [2]), (24, [2]), (46, [0])])]

/-- The telemetry as far as the parser writes it. -/
structure Telemetry where
  unknownFields : List (String × ℕ) := []
  wireMismatches : List (String × ℕ) := []
  groupsSkipped : ℕ := 0
  fieldSignatures : List String := []

/-- A counter of a dictionary, raised by one. -/
def countUp (counts : List (String × ℕ)) (key : String) : List (String × ℕ) :=
  Dict.set counts key ((counts.lookup key).getD 0 + 1)

variable (rounds frames : ℕ) (raw : List UInt8) (layer : String) (telemetry : Telemetry)

def recordField (layer : String) (fieldNumber wireType : ℕ) : Telemetry :=
  let key := layer ++ ":" ++ toString fieldNumber ++ ":" ++ toString wireType
  let telemetry := { telemetry with fieldSignatures := telemetry.fieldSignatures ++ [key] }
  if fieldNumber ∉ (expectedFields.lookup layer).getD [] then
    { telemetry with unknownFields := countUp telemetry.unknownFields key }
  else if wireType ∉ (((expectedWires.lookup layer).getD []).lookup fieldNumber).getD [] then
    { telemetry with wireMismatches := countUp telemetry.wireMismatches key }
  else telemetry

/-! ## One field -/

/-- The loop of `_read_proto_varint` on the bytes from its position: the value and the position after it. -/
def varintLoop (value shift pos : ℕ) : List UInt8 → Option (ℕ × ℕ)
  | [] => none
  | byte :: rest =>
    if shift ≤ 63 then
      let value := value ||| ((byte &&& 0x7F).toNat <<< shift)
      if byte &&& 0x80 = 0 then some (value, pos + 1) else varintLoop value (shift + 7) (pos + 1) rest
    else none

def readProtoVarint (offset : ℕ) (layer : String) :
    Except TolerantProtoError (ℕ × ℕ) :=
  match varintLoop 0 0 offset (raw.drop offset) with
  | some result => .ok result
  | none => .error { message := "truncated protobuf varint", layer := layer, offset := some offset }

/-- The value of a field. -/
inductive ProtoValue
  | int (value : ℕ)
  | bytes (value : List UInt8)
  deriving DecidableEq

/-- A field of the result. -/
structure ProtoField where
  fieldNumber : ℕ
  wireType : ℕ
  value : ProtoValue
  deriving DecidableEq

/-- The bytes of a length at an offset, or the error of a payload that ends before. -/
def readSlice (offset length : ℕ) (error : TolerantProtoError) :
    Except TolerantProtoError (ProtoValue × ℕ) :=
  if raw.length < offset + length then .error error
  else .ok (.bytes ((raw.drop offset).take length), offset + length)

/-- The value behind a tag, by its wire type, and the position after it. -/
def readPayload (tag offset : ℕ) :
    Except TolerantProtoError (ProtoValue × ℕ) :=
  let fieldNumber := tag >>> 3
  let wireType := tag &&& 0x07
  let fieldOffset := offset - 1
  let failed (message : String) : TolerantProtoError :=
    { message := message, layer := layer, fieldNumber := some fieldNumber, wireType := some wireType,
      offset := some fieldOffset }
  match wireType with
  | 0 =>
    match readProtoVarint raw offset layer with
    | .ok (value, offset) => .ok (.int value, offset)
    | .error error => .error error
  | 1 => readSlice raw offset 8 (failed "truncated fixed64 protobuf field")
  | 2 =>
    match readProtoVarint raw offset layer with
    | .ok (length, offset) => readSlice raw offset length (failed "truncated protobuf bytes field")
    | .error error => .error error
  | 5 => readSlice raw offset 4 (failed "truncated fixed32 protobuf field")
  | _ => .error (failed ("unsupported protobuf wire type field=" ++ toString fieldNumber ++ " wire=" ++
      toString wireType ++ " offset=" ++ toString fieldOffset ++ " tag=" ++ toString tag))

/-- What stands next in a payload. -/
inductive Next
  | close (offset : ℕ)
  | group (fieldNumber offset : ℕ)
  | field (field : ProtoField) (offset : ℕ)

/-- One round of the loop up to a group: the tag, the record of it, and the value of a field. -/
def readNext (offset : ℕ) (endGroup : Option ℕ)
    (telemetry : Telemetry) : Except TolerantProtoError Next × Telemetry :=
  match readProtoVarint raw offset layer with
  | .error error => (.error error, telemetry)
  | .ok (tag, offset) =>
    let fieldNumber := tag >>> 3
    let wireType := tag &&& 0x07
    let fieldOffset := offset - 1
    if fieldNumber = 0 then
      (.error { message := "invalid protobuf field number", layer := layer, offset := some fieldOffset },
        telemetry)
    else if wireType = 4 then
      if endGroup = some fieldNumber then (.ok (.close offset), telemetry)
      else
        (.error
          { message := "unexpected protobuf end-group tag", layer := layer, fieldNumber := some fieldNumber,
            wireType := some wireType, offset := some fieldOffset }, telemetry)
    else
      let telemetry := recordField telemetry layer fieldNumber wireType
      if wireType = 3 then
        (.ok (.group fieldNumber offset), { telemetry with groupsSkipped := telemetry.groupsSkipped + 1 })
      else
        match readPayload raw layer tag offset with
        | .ok (value, offset) => (.ok (.field ⟨fieldNumber, wireType, value⟩ offset), telemetry)
        | .error error => (.error error, telemetry)

/-! ## The fields of a payload -/

/-- What a call comes to: fields and position, or the error, and the telemetry either way. -/
abbrev WireOutcome := Except TolerantProtoError (List ProtoField × ℕ) × Telemetry

/-- The depth check at the entry of `_read_proto_fields_until`. -/
def enterAt (depth : ℕ) (layer : String) (offset : ℕ) (telemetry : Telemetry)
    (body : Option WireOutcome) : Option WireOutcome :=
  if 16 < depth then
    some (.error { message := "protobuf nesting depth exceeded", layer := layer, offset := some offset },
      telemetry)
  else body

/-- The loop of `_read_proto_fields_until`. `rounds` bounds the rounds of the loop (a group has those that
    are left) and `frames` the calls nested in this one; `none` when either runs out. -/
def fieldsLoop (raw : List UInt8) (layer : String) : (rounds frames : ℕ) → (offset : ℕ) →
    (endGroup : Option ℕ) → (depth : ℕ) → List ProtoField → Telemetry → Option WireOutcome
  | 0, _, _, _, _, _, _ => none
  | rounds + 1, frames, offset, endGroup, depth, fields, telemetry =>
    if raw.length ≤ offset then
      match endGroup with
      | some number =>
        some (.error
          { message := "unterminated protobuf group", layer := layer, fieldNumber := some number,
            wireType := some 3, offset := some offset }, telemetry)
      | none => some (.ok (fields, offset), telemetry)
    else
      match readNext raw layer offset endGroup telemetry with
      | (.error error, telemetry) => some (.error error, telemetry)
      | (.ok (.close offset), telemetry) => some (.ok (fields, offset), telemetry)
      | (.ok (.field field offset), telemetry) =>
        fieldsLoop raw layer rounds frames offset endGroup depth (fields ++ [field]) telemetry
      | (.ok (.group number offset), telemetry) =>
        match frames with
        | 0 => none
        | inner + 1 =>
          match enterAt (depth + 1) layer offset telemetry
            (fieldsLoop raw layer rounds inner offset (some number) (depth + 1) [] telemetry) with
          | none => none
          | some (.error error, telemetry) => some (.error error, telemetry)
          | some (.ok (_, offset), telemetry) =>
            fieldsLoop raw layer rounds (inner + 1) offset endGroup depth fields telemetry

/-- `_read_proto_fields_until` from the top. -/
def readProtoFieldsUntil :
    Option WireOutcome :=
  enterAt 0 layer 0 telemetry (fieldsLoop raw layer rounds frames 0 none 0 [] telemetry)

def readProtoFields :
    Option (Except TolerantProtoError (List ProtoField) × Telemetry) :=
  match readProtoFieldsUntil rounds frames raw layer telemetry with
  | none => none
  | some (.error error, telemetry) => some (.error error, telemetry)
  | some (.ok (fields, offset), telemetry) =>
    if offset ≠ raw.length then
      some (.error { message := "trailing protobuf bytes", layer := layer, offset := some offset }, telemetry)
    else some (.ok fields, telemetry)

end TradingHarness
