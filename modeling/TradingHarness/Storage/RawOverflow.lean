import Mathlib.Data.Prod.Lex
import Mathlib.Data.Rat.Defs
import Mathlib.Algebra.Order.Ring.Unbundled.Rat
import TradingHarness.Library.Dict
import TradingHarness.Library.Keyset

set_option autoImplicit false

/-! # The raw overflow archive

`raw_overflow_archive.py`: a batch of old rows is read behind the cursor of its stream, and once its copy is
verified the cursor moves past it and the rows are deleted. -/

namespace TradingHarness

/-! ## Admission -/

inductive OverflowState
  | normal
  | cloudOverflow
  | critical
  deriving DecidableEq

structure RawOverflowLimits where
  warningRatio : ℚ := 4 / 5
  stopRatio : ℚ := 9 / 10
  maxBatchBytes : ℤ := 268435456
  maxSpoolBytes : ℤ := 268435456
  maxQueueBatches : ℤ := 1000

/-- The reasons of `classify`, in their order. -/
def overflowReasons (ratio : ℚ) (queueFull spoolFull : Bool) (limits : RawOverflowLimits) : List String :=
  (if limits.stopRatio ≤ ratio then ["hot_database_stop_watermark"]
    else if limits.warningRatio ≤ ratio then ["hot_database_warning_watermark"] else [])
  ++ (if queueFull then ["archive_queue_full"] else []) ++ (if spoolFull then ["archive_spool_full"] else [])

/-- `classify` of `raw_overflow_policy.py` -/
def classifyOverflow (hotUsed hotBudget queueBatches spoolBytes : ℤ) (cloudEnabled : Bool)
    (limits : RawOverflowLimits) : OverflowState × List String :=
  let ratio : ℚ := (max 0 hotUsed : ℤ) / (max 1 hotBudget : ℤ)
  let queueFull := decide (limits.maxQueueBatches ≤ queueBatches)
  let spoolFull := decide (limits.maxSpoolBytes ≤ spoolBytes)
  (if limits.stopRatio ≤ ratio ∨ queueFull = true ∨ spoolFull = true then .critical
    else if limits.warningRatio ≤ ratio ∧ cloudEnabled = true then .cloudOverflow else .normal,
    overflowReasons ratio queueFull spoolFull limits)

/-- `RawOverflowConfig`, with the bounds of `from_env` on the rows of a batch. -/
structure RawOverflowConfig where
  enabled : Bool
  capabilities : List (List Char)
  hotWindowHours : ℕ := 24
  batchRows : ℕ := 500
  limits : RawOverflowLimits := {}
  batchRows_pos : 1 ≤ batchRows
  batchRows_le : batchRows ≤ 2000

/-- `_bounded_int`, where `none` is a value that `int` refuses. -/
def boundedInt (value : Option ℤ) (default minimum maximum : ℤ) : ℤ :=
  match value with
  | some value => min maximum (max minimum value)
  | none => default

/-! ## Tables -/

/-- A place in the order of a stream: `(effective_at, observation_id)`. -/
abbrev Offset := ℤ ×ₗ ℕ

/-- A row of `raw_market_observations`. Times are in microseconds, and `record` is its other columns. -/
structure RawObservation (ρ : Type) where
  observationId : ℕ
  capability : List Char
  effectiveAt : ℤ
  record : ρ
  deriving DecidableEq

def RawObservation.offset {ρ : Type} (row : RawObservation ρ) : Offset := toLex (row.effectiveAt, row.observationId)

/-- A row of `raw_archive_offsets`, less its key. -/
structure StreamOffset where
  capability : List Char
  cursor : Option Offset := none
  state : OverflowState
  lastError : Option (List Char) := none

/-- A row of `raw_archive_batches`. Every row is written verified. -/
structure VerifiedBatch where
  batchId : ℕ
  streamKey : List Char
  capability : List Char
  first : Offset
  last : Offset
  rowCount : ℤ
  compressedBytes : ℤ
  sha256 : List Char
  remotePath : Option (List Char)
  remoteFsId : Option (List Char)

structure ArchiveTables (ρ : Type) where
  rows : List (RawObservation ρ) := []
  offsets : List (List Char × StreamOffset) := []
  batches : List VerifiedBatch := []

def streamPrefix : List Char := "raw_market_observations:".toList

variable {ρ : Type}

variable (capability : List Char) (cutoff : ℤ) (cursor : Option Offset) (count : ℕ)
  (rows : List (RawObservation ρ))

def streamKey : List Char := streamPrefix ++ capability

variable (config : RawOverflowConfig) (stream error : List Char) (tables : ArchiveTables ρ)

/-- `capability_from_stream`, of a stream that is stripped. -/
def capabilityFromStream : Except String (List Char) :=
  if streamPrefix.isPrefixOf stream = false then .error "invalid raw overflow stream"
  else if config.capabilities.contains (stream.drop streamPrefix.length) = false then
    .error "raw overflow stream is not allowlisted"
  else .ok (stream.drop streamPrefix.length)

section Archive

def streamCursor : Option Offset :=
  (tables.offsets.lookup stream).bind StreamOffset.cursor

/-- `INSERT INTO quant.raw_archive_offsets … ON CONFLICT(stream_key) DO NOTHING` -/
def ensureOffset (capability : List Char) (state : OverflowState) (tables : ArchiveTables ρ) :
    ArchiveTables ρ :=
  if (tables.offsets.lookup stream).isSome then tables
  else { tables with offsets := Dict.set tables.offsets stream { capability := capability, state := state } }

def hotCutoff (now : ℤ) : ℤ := now - config.hotWindowHours * 3600000000

/-- The rows of a stream that are older than the hot window. -/
def coldRows : List (RawObservation ρ) :=
  rows.filter (fun row => decide (row.capability = capability ∧ row.effectiveAt < cutoff))

/-- Those behind the cursor, in keyset order. -/
def rowsAfter : List (RawObservation ρ) :=
  match cursor with
  | some place => rows.filter (fun row => decide (place < row.offset))
  | none => rows

def nextRows : List (RawObservation ρ) :=
  Keyset.page RawObservation.offset count (rowsAfter cursor (coldRows capability cutoff rows))

/-! ## Reading a batch -/

/-- What `next_batch` hands out. -/
structure OfferedBatch (ρ : Type) where
  streamKey : List Char
  capability : List Char
  before : Option Offset
  rows : List (RawObservation ρ)
  deriving DecidableEq

inductive BatchAnswer (ρ : Type)
  | disabled
  | notNeeded (reasons : List String)
  | empty (before : Option Offset)
  | ready (state : OverflowState) (reasons : List String) (batch : OfferedBatch ρ)

/-- `next_batch`. `hotUsed` and `hotBudget` are what `_storage_state` reads of the database; no batch is ever
    queued. -/
def nextBatch (now hotUsed hotBudget : ℤ) (stream : List Char) (limit : Option ℤ)
    (tables : ArchiveTables ρ) : Except String (BatchAnswer ρ × ArchiveTables ρ) :=
  match capabilityFromStream config stream with
  | .error error => .error error
  | .ok capability =>
    let requested := boundedInt limit config.batchRows 1 config.batchRows
    let admitted := classifyOverflow hotUsed hotBudget 0 0 config.enabled config.limits
    if config.enabled = false then .ok (.disabled, tables)
    else if admitted.1 = .normal then .ok (.notNeeded admitted.2, tables)
    else
      let ensured := ensureOffset stream capability admitted.1 tables
      let before := streamCursor stream ensured
      match nextRows capability (hotCutoff config now) before requested.toNat ensured.rows with
      | [] => .ok (.empty before, ensured)
      | first :: rest => .ok (.ready admitted.1 admitted.2 ⟨stream, capability, before, first :: rest⟩, ensured)

/-! ## Acknowledging it -/

/-- The payload of an acknowledgement. `none` stands for a value that cannot be read. -/
structure ArchiveAck where
  streamKey : List Char
  before : Option Offset
  first : Option Offset
  last : Option Offset
  rowCount : Option ℤ
  compressedBytes : Option ℤ
  sha256 : List Char
  batchId : Option ℕ
  remotePath : Option (List Char) := none
  remoteFsId : Option (List Char) := none

inductive AckAnswer
  | alreadyVerified (batchId : ℕ) (offset : Option Offset)
  | verified (batchId : ℕ) (offset : Offset) (deletedRows : ℕ)

def isSha256 (text : List Char) : Bool := text.length == 64 && text.all (fun char => char.isDigit || ('a' ≤ char && char ≤ 'f'))

/-- `WHERE capability=… AND effective_at<… AND first <= (effective_at,observation_id) <= last` -/
def rangeRows (first last : Offset) (rows : List (RawObservation ρ)) :
    List (RawObservation ρ) :=
  (coldRows capability cutoff rows).filter (fun row => decide (first ≤ row.offset ∧ row.offset ≤ last))

/-- What the `DELETE` of an acknowledgement takes: it has no lower bound. -/
def isDeleted (last : Offset) (row : RawObservation ρ) : Bool :=
  decide (row.capability = capability ∧ row.effectiveAt < cutoff ∧ row.offset ≤ last)

def sameRange (batch other : VerifiedBatch) : Bool :=
  batch.streamKey == other.streamKey && decide (batch.first = other.first ∧ batch.last = other.last) &&
    batch.sha256 == other.sha256

/-- `INSERT INTO quant.raw_archive_batches … ON CONFLICT … DO UPDATE`. A batch id of another range is refused. -/
def recordBatch (batch : VerifiedBatch) (batches : List VerifiedBatch) : Except String (List VerifiedBatch) :=
  if batches.any (sameRange batch) then
    .ok (batches.map (fun other =>
      if sameRange batch other then { other with remotePath := batch.remotePath, remoteFsId := batch.remoteFsId }
      else other))
  else if batches.any (fun other => other.batchId == batch.batchId) then
    .error "duplicate key value violates unique constraint \"raw_archive_batches_pkey\""
  else .ok (batches ++ [batch])

/-- The checks of an acknowledgement before its transaction: stream, row count, bytes, batch id, first and last. -/
def readAck (ack : ArchiveAck) : Except String VerifiedBatch :=
  match capabilityFromStream config ack.streamKey with
  | .error error => .error error
  | .ok capability =>
    let rowCount := boundedInt ack.rowCount 0 1 2000
    let compressedBytes := boundedInt ack.compressedBytes 0 1 config.limits.maxBatchBytes
    if rowCount = 0 ∨ compressedBytes = 0 ∨ isSha256 ack.sha256 = false then
      .error "raw overflow ACK metadata is invalid"
    else
      match ack.batchId, ack.first, ack.last with
      | some batchId, some first, some last =>
        .ok ⟨batchId, ack.streamKey, capability, first, last, rowCount, compressedBytes, ack.sha256, ack.remotePath,
          ack.remoteFsId⟩
      | none, _, _ => .error "raw overflow ACK batch_id is invalid"
      | _, _, _ => .error "raw overflow ACK offset is incomplete"

/-- The rows and the cursor behind a verified batch. -/
def commitBatch (batch : VerifiedBatch) (cutoff : ℤ) (batches : List VerifiedBatch) (tables : ArchiveTables ρ) :
    ArchiveTables ρ where
  rows := tables.rows.filter (fun row => !isDeleted batch.capability cutoff batch.last row)
  offsets := Dict.set tables.offsets batch.streamKey
    { capability := batch.capability, cursor := some batch.last, state := .cloudOverflow }
  batches := batches

/-- The transaction of `acknowledge`, at the cursor that the payload names. -/
def verifyBatch (batch : VerifiedBatch) (cutoff : ℤ) (current : Option Offset) (tables : ArchiveTables ρ) :
    Except String (AckAnswer × ArchiveTables ρ) :=
  if (nextRows batch.capability cutoff current 1 tables.rows).head?.map RawObservation.offset ≠ some batch.first then
    .error "raw overflow ACK first offset is not the next durable row"
  else if (rangeRows batch.capability cutoff batch.first batch.last tables.rows).length ≠ batch.rowCount then
    .error "raw overflow ACK row count does not match the durable source range"
  else
    match recordBatch batch tables.batches with
    | .error error => .error error
    | .ok batches =>
      .ok (.verified batch.batchId batch.last
          (tables.rows.countP (fun row => isDeleted batch.capability cutoff batch.last row)),
        commitBatch batch cutoff batches tables)

/-- `acknowledge`. What it throws leaves the tables as they were. -/
def acknowledge (now : ℤ) (ack : ArchiveAck) (tables : ArchiveTables ρ) :
    Except String (AckAnswer × ArchiveTables ρ) :=
  match readAck config ack with
  | .error error => .error error
  | .ok batch =>
    let ensured := ensureOffset batch.streamKey batch.capability .cloudOverflow tables
    let current := streamCursor batch.streamKey ensured
    if current ≠ ack.before then
      match ensured.batches.find? (fun other => other.batchId == batch.batchId) with
      | some existing => .ok (.alreadyVerified existing.batchId current, ensured)
      | none => .error "raw overflow ACK cursor does not match current offset"
    else verifyBatch batch (hotCutoff config now) current ensured

/-- `failure` -/
def archiveFailure :
    Except String (ArchiveTables ρ) :=
  match capabilityFromStream config stream with
  | .error error => .error error
  | .ok capability =>
    let old := (tables.offsets.lookup stream).getD { capability := capability, state := .cloudOverflow }
    .ok { tables with
      offsets := Dict.set tables.offsets stream
        { old with state := .cloudOverflow, lastError := some (error.take 500) } }

end Archive

end TradingHarness
