import TradingHarness.Library.JsonLines
import TradingHarness.Spool.Envelope

set_option autoImplicit false

/-! # Evidence segments

A segment is a text file of one JSON text per line: a header, a record for each observation, and a footer
with the number of the records and the digest of their texts, which is written when the segment is sealed. -/

namespace TradingHarness

open JsonText (Value)
open JsonLines (lineOf parseLines)
open Lines (readText splitLines)

/-! ## Lines -/

def segmentSchema : List Char := "evidence-segment-v1".toList

/-- The value under a key of an observation. -/
def fieldOf (fields : List (List Char × Value)) (key : String) : Value :=
  (fields.lookup key.toList).getD nullWord

variable (host : Host) (moment : Moment) (segmentId : List Char) (observation : List (List Char × Value))

/-- The id of a new segment. -/
def newSegmentId : List Char :=
  tradeDate host moment.today observation ++ '-' :: moment.uuid.val

def segmentHeader : List (List Char × Value) :=
  [("type".toList, .str "header".toList), ("schema".toList, .str segmentSchema),
    ("segment_id".toList, .str segmentId), ("target_stream".toList, fieldOf observation "target_stream"),
    ("provider_key".toList, fieldOf observation "provider_key"),
    ("capability".toList, fieldOf observation "capability"),
    ("trade_date".toList, .str (tradeDate host moment.today observation)),
    ("created_at".toList, .str moment.now.val)]

def recordValue (digest : List Char) : Value :=
  .obj [("type".toList, .str "record".toList), ("record_id".toList, .str digest),
    ("observation".toList, .obj observation)]

def recordLine (digest : List Char) : List Char :=
  lineOf (recordValue observation digest)

/-! ## Sealing -/

/-- `record.get("record_id")`, and `None` where there is no record. -/
def recordIdOf (record : Option Value) : Except SpoolError Value :=
  match record with
  | none => .ok nullWord
  | some record =>
    match asObject record with
    | .error error => .error error
    | .ok fields => .ok (fieldOf fields "record_id")

/-- The digest of the texts of the records. -/
def contentHash (records : List Value) : List Char := host.sha256 (records.flatMap lineOf)

def decimal (number : ℕ) : Value := .word (Nat.toDigits 10 number)

/-- The footer that `_seal` writes behind the text of an open segment, where the table counts `records`
    records. A file that is gone or does not parse is an `OSError`. -/
def sealFooter (name : String) (file : Option (List Char)) (records : ℕ) (closedAt : Stamp) :
    Except SpoolError Value :=
  match file.bind (fun text => parseLines ((splitLines (readText text)).drop 1)) with
  | none => .error (.os ("cannot seal evidence segment " ++ name))
  | some values =>
    match recordIdOf values.head?, recordIdOf values.getLast? with
    | .ok first, .ok last =>
      .ok (.obj [("type".toList, .str "footer".toList), ("row_count".toList, decimal records),
        ("first_record_id".toList, first), ("last_record_id".toList, last),
        ("content_sha256".toList, .str (contentHash host values)),
        ("closed_at".toList, .str closedAt.val)])
    | .error error, _ => .error error
    | _, .error error => .error error

/-! ## Reading -/

/-- `value == number`. -/
def isNumber (value : Option Value) (number : ℕ) : Bool :=
  match value with
  | some (.word text) => text == Nat.toDigits 10 number
  | _ => false

/-- Lists and mappings are not hashable. -/
def isContainer : Value → Bool
  | .arr _ => true
  | .obj _ => true
  | _ => false

/-- What `_envelope` takes of `record.get("observation") or {}`: the fields of a mapping. Of a list it takes
    the items as keys, and fails on it in the end. -/
def observationFields (value : Option Value) : Except SpoolError (List (List Char × Value)) :=
  match orElse value (.obj []) with
  | .obj fields => .ok fields
  | .str _ => .ok []
  | .arr items =>
    let missing := missingKeys (items.filterMap (fun item => match item with
      | .str text => some text
      | _ => none))
    if items.any isContainer then .error .other
    else if missing ≠ [] then .error (.value (missingMessage missing))
    else .error (.value "dictionary update sequence")
  | .word _ => .error .other

/-- A record of `read_segment`. -/
def readRecord (record : Value) : Except SpoolError (List (List Char × Value) × List Char) := do
  let fields ← asObject record
  match observationFields (fields.lookup "observation".toList) >>= envelope host with
  | .error (.value message) => .error (.corrupt message)
  | .error error => .error error
  | .ok (body, digest) =>
    if isText (fields.lookup "record_id".toList) digest then .ok (body, digest)
    else .error (.corrupt "evidence segment record hash mismatch")

/-- `read_segment`: the envelopes and their digests, of the file `name`. -/
def readSegment (name : String) (file : Option (List Char)) :
    Except SpoolError (List (List (List Char × Value) × List Char)) :=
  match file.bind (fun text => parseLines (splitLines (readText text))) with
  | none => .error (.corrupt ("cannot read evidence spool file " ++ name))
  | some lines =>
    if lines.length < 3 then .error (.corrupt "unknown evidence segment schema")
    else do
      let header ← asObject (lines.headD nullWord)
      if !isText (header.lookup "type".toList) "header".toList
          || !isText (header.lookup "schema".toList) segmentSchema then
        .error (.corrupt "unknown evidence segment schema")
      else
        let footer ← asObject (lines.getLastD nullWord)
        let records := (lines.drop 1).dropLast
        if !isText (footer.lookup "type".toList) "footer".toList
            || !isNumber (footer.lookup "row_count".toList) records.length then
          .error (.corrupt "evidence segment footer does not match records")
        else if !isText (footer.lookup "content_sha256".toList) (contentHash host records) then
          .error (.corrupt "evidence segment content hash mismatch")
        else records.mapM (readRecord host)

/-! ## Writing -/

/-- The settings of the spool. -/
structure SpoolConfig where
  memoryItems : ℕ := 2048
  maxBatch : ℕ := 100
  segmentMaxBytes : ℕ := 1024 * 1024
  segmentMaxRecords : ℕ := 500
  replayStreams : List String := ["raw_market_observations"]

/-- The remembered entries once one more is remembered, the oldest first. -/
def remember {α : Type} (items : ℕ) (memory : List (List Char × α)) (digest : List Char) (place : α) :
    List (List Char × α) :=
  let memory := memory.filter (fun entry => entry.1 ≠ digest) ++ [(digest, place)]
  memory.drop (memory.length - items)

/-- An open segment: the text of its file, the `records` of its entry in the table, and the digests that
    `_memory_paths` has for it. -/
structure OpenText where
  text : List Char
  records : ℕ
  memory : List (List Char × Unit)

variable {host : Host}

/-- `write` to a segment that is open. A digest that is remembered is not written again. -/
def OpenText.write (config : SpoolConfig) (segment : OpenText) (observation : Observation host) : OpenText :=
  let digest := observation.evidence.digest
  if (segment.memory.lookup digest).isSome then segment
  else
    { text := segment.text ++ recordLine observation.evidence.fields digest,
      records := segment.records + 1,
      memory := remember config.memoryItems segment.memory digest () }

/-- The segment that `write` opens for an observation. -/
def OpenText.create (observation : Observation host) : OpenText :=
  let fields := observation.evidence.fields
  { text := lineOf (.obj (segmentHeader host moment (newSegmentId host moment fields) fields)),
    records := 0,
    memory := [] }

/-- A first observation and others, written to one segment. -/
def writeSegment (config : SpoolConfig) (moment : Moment) (first : Observation host)
    (rest : List (Observation host)) : OpenText :=
  (first :: rest).foldl (OpenText.write config) (OpenText.create moment first)

/-- `_seal`: the text of the sealed file. -/
def OpenText.seal (segment : OpenText) (host : Host) (name : String) (closedAt : Stamp) :
    Except SpoolError (List Char) := do
  let footer ← sealFooter host name (some segment.text) segment.records closedAt
  return segment.text ++ lineOf footer

end TradingHarness
