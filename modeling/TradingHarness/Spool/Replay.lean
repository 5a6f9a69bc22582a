import Mathlib
import TradingHarness.Library.Keyset
import TradingHarness.Library.Utf8
import TradingHarness.Spool.RoundTrip

set_option autoImplicit false

/-! # Replay of pending segments

A pass of `replay_pending` takes the first files in the order of their paths, inserts the records of those whose stream
is replayed, up to a limit, writes what is left of the last of them to new segments and archives the files. -/

namespace TradingHarness

open JsonText (Value)
open JsonLines (lineOf Whole)

variable {host : Host}

/-! ## Files -/

/-- The parts of a path below the root of the pending files. -/
abbrev SpoolPath := List (List Char)

/-- A record of a segment that was sealed: its text stays on its line. -/
structure SealedRecord (host : Host) where
  evidence : Evidence host
  whole : Whole (.obj evidence.fields)

/-- `observation.get("target_stream")`, a text, since the contract of the stream was found. -/
def SealedRecord.stream (record : SealedRecord host) : List Char := targetStream host record.evidence.fields

/-- What `read_segment` makes of a file: its records, of which there is one at least, or the text of `SpoolCorrupt`. -/
inductive SegmentContent (host : Host)
  | readable (first : SealedRecord host) (rest : List (SealedRecord host))
  | corrupt (message : List Char)

structure PendingFile (host : Host) where
  path : SpoolPath
  content : SegmentContent host

def PendingFile.records (file : PendingFile host) : List (SealedRecord host) :=
  match file.content with
  | .readable first rest => first :: rest
  | .corrupt _ => []

/-- Paths are ordered by their parts, and these by code points. -/
def PendingFile.order (file : PendingFile host) : List (List ℕ) := file.path.map (·.map Char.toNat)

/-! ## Writing -/

def segmentKey (host : Host) (today : Stamp) (observation : List (List Char × Value)) :
    List Char × List Char × List Char × List Char :=
  (tradeDate host today observation, safePart host (observation.lookup "target_stream".toList),
    safePart host (observation.lookup "provider_key".toList), safePart host (observation.lookup "capability".toList))

/-- The path of the segment that is opened for an observation, once it is sealed. -/
def segmentPath (host : Host) (moment : Moment) (observation : List (List Char × Value)) : SpoolPath :=
  [tradeDate host moment.today observation, safePart host (observation.lookup "target_stream".toList),
    newSegmentId host moment observation ++ ".jsonl".toList]

/-- `_OpenSegment`, which has a record as soon as `write` returns. -/
structure OpenSegment (host : Host) where
  path : SpoolPath
  first : SealedRecord host
  rest : List (SealedRecord host)
  bytesWritten : ℕ

/-- The bytes of the line of a record. -/
def SealedRecord.lineBytes (record : SealedRecord host) : ℕ :=
  (Utf8.encode (recordLine record.evidence.fields record.evidence.digest)).length

namespace OpenSegment

def records (segment : OpenSegment host) : List (SealedRecord host) := segment.first :: segment.rest

/-- A new file with its header and the first record. -/
def create (moment : Moment) (record : SealedRecord host) : OpenSegment host where
  path := segmentPath host moment record.evidence.fields
  first := record
  rest := []
  bytesWritten :=
    (Utf8.encode (lineOf (.obj (segmentHeader host moment (newSegmentId host moment record.evidence.fields)
      record.evidence.fields)))).length + record.lineBytes

def append (segment : OpenSegment host) (record : SealedRecord host) : OpenSegment host :=
  { segment with
    rest := segment.rest ++ [record]
    bytesWritten := segment.bytesWritten + record.lineBytes }

/-- `_seal`: the file that is read back. -/
def close (segment : OpenSegment host) : PendingFile host where
  path := segment.path
  content := .readable segment.first segment.rest

end OpenSegment

/-- The tables of the spool that a pass has for itself, the files it has sealed, and the number of calls of `write`. -/
structure SpoolWriter (host : Host) where
  opened : List ((List Char × List Char × List Char × List Char) × OpenSegment host) := []
  memoryPaths : List (List Char × Unit) := []
  sealedFiles : List (PendingFile host) := []
  calls : ℕ

variable (config : SpoolConfig) (moments : ℕ → Moment) (writer : SpoolWriter host)

namespace SpoolWriter

def write (record : SealedRecord host) :
    SpoolWriter host :=
  let digest := record.evidence.digest
  if (writer.memoryPaths.lookup digest).isSome then { writer with calls := writer.calls + 1 }
  else
    let moment := moments writer.calls
    let key := segmentKey host moment.today record.evidence.fields
    let segment := ((writer.opened.lookup key).map (·.append record)).getD (OpenSegment.create moment record)
    let memoryPaths := remember config.memoryItems writer.memoryPaths digest ()
    if config.segmentMaxRecords ≤ segment.records.length ∨ config.segmentMaxBytes ≤ segment.bytesWritten then
      { opened := Dict.erase writer.opened key
        memoryPaths := memoryPaths
        sealedFiles := writer.sealedFiles ++ [segment.close]
        calls := writer.calls + 1 }
    else
      { writer with
        opened := Dict.set writer.opened key segment
        memoryPaths := memoryPaths
        calls := writer.calls + 1 }

/-- `seal_due(force=True)` -/
def sealDue : SpoolWriter host :=
  { writer with
    opened := []
    sealedFiles := writer.sealedFiles ++ writer.opened.map (fun entry => entry.2.close) }

/-- The remainder of one file. -/
def rewrite (records : List (SealedRecord host)) : SpoolWriter host :=
  (records.foldl (write config moments) writer).sealDue

end SpoolWriter

/-! ## A pass -/

/-- The keys of `REPLAY_ADAPTERS`. -/
def replayAdapters : List String :=
  ["raw_market_observations", "intraday_quote_observations", "intraday_board_flow_snapshots",
    "intraday_minute_sessions"]

/-- What the loop makes of a file before it looks at the limit. -/
inductive Examined (host : Host)
  | corrupt (message : List Char)
  | skipped
  | replayed (first : SealedRecord host) (rest : List (SealedRecord host))

def examine : SegmentContent host → Examined host
  | .corrupt message => .corrupt message
  | .readable first rest =>
    if ((first :: rest).map SealedRecord.stream).dedup.length ≠ 1 then
      .corrupt "evidence segment contains multiple target streams".toList
    else if ¬ (config.replayStreams.map String.toList).contains first.stream then .skipped
    else if ¬ (replayAdapters.map String.toList).contains first.stream then
      .corrupt ("no replay adapter is registered for this evidence stream: ".toList ++ first.stream)
    else .replayed first rest

/-- What the loop has collected. -/
structure Collected (host : Host) where
  valid : List (SpoolPath × SealedRecord host) := []
  remainder : List (SpoolPath × List (SealedRecord host)) := []
  quarantined : List SpoolPath := []
  skipped : ℕ := 0
  errors : List (List Char) := []

/-- The loop over the paths. -/
def collect (config : SpoolConfig) (rowLimit : ℕ) : List (PendingFile host) → Collected host → Collected host
  | [], collected => collected
  | file :: rest, collected =>
    match examine config file.content with
    | .corrupt message =>
      collect config rowLimit rest
        { collected with
          quarantined := collected.quarantined ++ [file.path]
          errors := collected.errors ++ [message] }
    | .skipped => collect config rowLimit rest { collected with skipped := collected.skipped + 1 }
    | .replayed first others =>
      if rowLimit ≤ collected.valid.length then collected
      else
        let remaining := rowLimit - collected.valid.length
        let left := (first :: others).drop remaining
        collect config rowLimit rest
          { collected with
            valid := collected.valid ++ ((first :: others).take remaining).map (fun record => (file.path, record))
            remainder := if left = [] then collected.remainder else collected.remainder ++ [(file.path, left)] }

/-- The pending files, and the number of calls of `write` so far. -/
structure PendingState (host : Host) where
  files : List (PendingFile host)
  calls : ℕ

/-- What a pass inserts and leaves. -/
structure ReplayPass (host : Host) where
  rows : List (SpoolPath × SealedRecord host)
  moved : List SpoolPath
  quarantined : List SpoolPath
  skipped : ℕ
  errors : List (List Char)
  after : PendingState host

/-- `max(0, int(cfg.max_batch if limit is None else limit))` -/
def rowLimitOf (limit : Option ℤ) : ℕ := (limit.getD config.maxBatch).toNat

/-- The files of a pass: `spool.pending()`, cut at the limit. -/
def replayPaths (limit : Option ℤ) (state : PendingState host) : List (PendingFile host) :=
  Keyset.page PendingFile.order (rowLimitOf config limit) state.files

/-- `replay_pending`, where the operating system and the database do what they are asked. -/
def replayPending (limit : Option ℤ) (state : PendingState host) :
    ReplayPass host :=
  let collected := collect config (rowLimitOf config limit) (replayPaths config limit state) {}
  let moved := (collected.valid.map Prod.fst).dedup
  let writer := collected.remainder.foldl (fun (writer : SpoolWriter host) entry =>
    writer.rewrite config moments entry.2) { calls := state.calls }
  { rows := collected.valid
    moved := moved
    quarantined := collected.quarantined
    skipped := collected.skipped
    errors := collected.errors
    after :=
      { files := state.files.filter (fun file => decide (file.path ∉ collected.quarantined ∧ file.path ∉ moved))
          ++ writer.sealedFiles
        calls := writer.calls } }

end TradingHarness
