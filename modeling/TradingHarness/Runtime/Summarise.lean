import TradingHarness.Library.Chunks
import TradingHarness.Runtime.Documents
import TradingHarness.Tactics.History

set_option autoImplicit false

/-! # The evening run

`summarise` folds every pick day of the calendar range into the history: days before the window as
stored digests, chunk by chunk, with a bounded number of late days closed on the way, and the window's
days from their final documents or settled now (`tactic_trial_runtime.py`). The counts of the summary
are kept as the days they count. -/

namespace TradingHarness

/-! ## The calendar -/

def windowSessions : ℕ := 12

def pairSessions : ℕ := 250

def chunkSessions : ℕ := 60

def lateDaysARun : ℕ := 10

def slots : List Slot := [.close, .auction]

/-- The slots in the order of their names. -/
def sortedSlots : List Slot := [.auction, .close]

/-- A slot of a session. -/
abbrev PickDay := Date × Slot

instance : LawfulBEq PickDay := inferInstance

/-- `read_open_sessions`: never past today. -/
def readOpenSessions (desk : Desk) (first last : Date) : List Date :=
  (daysBetween first (min last desk.today)).filter desk.isOpen

/-- The sessions of a run. -/
def sessionsOf (desk : Desk) (asOf : Date) : List Date :=
  readOpenSessions desk (asOf - 1200) asOf

/-- First and last of a list of days. -/
def spanOf (days : List Date) : Option (Date × Date) := do
  let first ← days.head?
  let last ← days.getLast?
  return (first, last)

/-- First and last session of each chunk of `CHUNK_SESSIONS` sessions. -/
def chunkSpans (older : List Date) : List (Date × Date) :=
  (Chunks.chunks chunkSessions older).filterMap spanOf

/-! ## Late days -/

/-- The order of `late.sort(reverse=True)`: newest first, and close before auction. -/
def sortsBefore (a b : PickDay) : Prop :=
  b.1 < a.1 ∨ (b.1 = a.1 ∧ (a.2 = .close ∨ b.2 = .auction))

instance (a b : PickDay) : Decidable (sortsBefore a b) := by
  unfold sortsBefore
  infer_instance

/-- The pick days of a slot in a range that have a reading, of whatever version, and no digest. -/
def undigested (documents : Documents) (span : Date × Date) (slot : Slot) : List PickDay :=
  ((daysBetween span.1 span.2).filter (fun day =>
    (documents.readings slot day).isSome && (documents.digests slot day).isNone)).map
      (fun day => (day, slot))

/-- The pick days that left the window without a digest, newest first. -/
def lateDays (documents : Documents) (older : List Date) : List PickDay :=
  match spanOf older with
  | none => []
  | some span => (slots.flatMap (undigested documents span)).insertionSort sortsBefore

/-- The late days of a chunk and slot, in date order. -/
def lateIn (late : List PickDay) (span : Date × Date) (slot : Slot) : List Date :=
  (daysBetween span.1 span.2).filter (fun day => decide ((day, slot) ∈ late))

/-! ## Days before the window -/

/-- Why a run stops. -/
inductive RunError
  | indexError
  | raised (error : PyError)

/-- A run that stopped, with the documents it left behind. -/
structure Interrupted where
  error : RunError
  documents : Documents

/-- `read_capability` for a range, by day. -/
def readCapability {α : Type} (table : Date → Option α) (first last : Date) : Date → Option α :=
  fun day => if first ≤ day ∧ day ≤ last then table day else none

/-- The documents, what was folded so far in the order it was folded, and the days counted. -/
structure Run where
  documents : Documents
  digests : List (PickDay × DigestDocument)
  pairs : List (PickDay × PairDocument)
  stale : List PickDay
  missing : List PickDay

/-- A chunk and slot while its late days are closed. -/
structure Chunk where
  documents : Documents
  digests : Date → Option DigestDocument
  pairs : Date → Option PairDocument
  missing : List PickDay

section Summarise

variable (desk : Desk) (apply : Bool) (asOf pairFirst : Date)

/-- `if apply: _store_final(..)`. -/
def storeIf (documents : Documents) (slot : Slot) (day : Date)
    (final : DigestDocument × PairDocument) : Documents :=
  if apply then storeFinal documents slot day final else documents

/-- A late day with its documents. -/
def Chunk.close (slot : Slot) (chunk : Chunk) (day : Date)
    (final : DigestDocument × PairDocument) : Chunk :=
  { chunk with
    documents := storeIf apply chunk.documents slot day final
    digests := Function.update chunk.digests day (some final.1)
    pairs := if pairFirst ≤ day then Function.update chunk.pairs day (some final.2)
      else chunk.pairs }

/-- One late day: closed now, or counted when its reading is of another version. -/
def closeLate (slot : Slot) (chunk : Chunk) (day : Date) : Except Interrupted Chunk :=
  match storedReading chunk.documents slot day with
  | none => .ok { chunk with missing := chunk.missing ++ [(day, slot)] }
  | some reading =>
      match dayOutcomes desk.bars slot day reading asOf with
      | .error error => .error { error := .raised error, documents := chunk.documents }
      | .ok settled =>
          .ok (chunk.close apply pairFirst slot day (digestDocuments desk settled.day))

/-- The stored digests of a chunk and slot, and its pairs as far as they are asked for. -/
def readChunk (span : Date × Date) (run : Run) (slot : Slot) : Chunk where
  documents := run.documents
  digests := readCapability (run.documents.digests slot) span.1 span.2
  pairs :=
    if span.2 < pairFirst then fun _ => none
    else readCapability (run.documents.pairs slot) (max span.1 pairFirst) span.2
  missing := run.missing

/-- The documents of a chunk and slot that are folded, in date order. -/
def currentEntries {α : Type} (current : α → Bool) (span : Date × Date) (slot : Slot)
    (table : Date → Option α) : List (PickDay × α) :=
  ((readRange table span.1 span.2).filter (fun entry => current entry.2)).map
    (fun entry => ((entry.1, slot), entry.2))

/-- The days of a chunk and slot whose digest is of another version or registry. -/
def staleDays (span : Date × Date) (slot : Slot) (table : Date → Option DigestDocument) :
    List PickDay :=
  ((readRange table span.1 span.2).filter (fun entry => !entry.2.current desk)).map
    (fun entry => (entry.1, slot))

/-- One slot of a chunk. -/
def foldChunk (late : List PickDay) (span : Date × Date) (run : Run) (slot : Slot) :
    Except Interrupted Run := do
  let chunk ← (lateIn late span slot).foldlM (closeLate desk apply asOf pairFirst slot)
    (readChunk pairFirst span run slot)
  return {
    documents := chunk.documents
    digests := run.digests ++ currentEntries (·.current desk) span slot chunk.digests
    pairs := run.pairs ++ currentEntries (·.current desk) span slot chunk.pairs
    stale := run.stale ++ staleDays desk span slot chunk.digests
    missing := chunk.missing }

/-- The days before the window. -/
def foldOlder (documents : Documents) (older : List Date) : Except Interrupted Run :=
  let late := lateDays documents older
  (chunkSpans older).foldlM
    (fun run span =>
      slots.foldlM (foldChunk desk apply asOf pairFirst (late.take lateDaysARun) span) run)
    { documents := documents, digests := [], pairs := [], stale := []
      missing := late.drop lateDaysARun }

/-! ## The window -/

/-- The window's days while they are settled. -/
structure WindowRun where
  documents : Documents
  folded : Slot → Date → Option (DigestDocument × PairDocument)
  latest : Slot → Option SettledDay
  todayRows : Slot → Option ℕ
  openDays : List PickDay
  newestResolved : Option (Date × ReadingDocument)

/-- The documents of a pick day: the final ones when both are stored, else those of its outcomes as the
    bars give them now. -/
def windowDocuments (final : Date → Option DigestDocument) (finalPairs : Date → Option PairDocument)
    (slot : Slot) (day : Date) (reading : ReadingDocument) :
    Except PyError ((DigestDocument × PairDocument) × Option SettledDay) :=
  match final day, finalPairs day with
  | some digest, some pairs => .ok ((digest, pairs), none)
  | _, _ =>
      match dayOutcomes desk.bars slot day reading asOf with
      | .error error => .error error
      | .ok settled => .ok (digestDocuments desk settled.day, some settled)

/-- A day settled now is closed when it is settled or the window's oldest, and stays open else. -/
def WindowRun.settle (first : Date) (slot : Slot) (day : Date) (settled : SettledDay)
    (documents : DigestDocument × PairDocument) (run : WindowRun) : WindowRun :=
  let closes := settled.settled || decide (day = first)
  { run with
    documents := if closes then storeIf apply run.documents slot day documents else run.documents
    openDays := if closes then run.openDays else run.openDays ++ [(day, slot)]
    latest := if documents.1.digest.resolved ≠ 0 then
        Function.update run.latest slot (some settled)
      else run.latest }

/-- `today_rows`, `folded` and `newest_resolved` after a reading. -/
def WindowRun.note (slot : Slot) (entry : Date × ReadingDocument)
    (documents : DigestDocument × PairDocument) (run : WindowRun) : WindowRun :=
  { run with
    todayRows := if entry.1 = asOf then
        Function.update run.todayRows slot (some entry.2.rows.length)
      else run.todayRows
    folded := putDocument run.folded slot entry.1 documents
    newestResolved := if documents.1.digest.resolved ≠ 0 then some entry else run.newestResolved }

/-- One reading of the window. -/
def foldReading (final : Date → Option DigestDocument) (finalPairs : Date → Option PairDocument)
    (first : Date) (slot : Slot) (run : WindowRun) (entry : Date × ReadingDocument) :
    Except Interrupted WindowRun :=
  match windowDocuments desk asOf final finalPairs slot entry.1 entry.2 with
  | .error error => .error { error := .raised error, documents := run.documents }
  | .ok (documents, none) => .ok (run.note asOf slot entry documents)
  | .ok (documents, some settled) =>
      .ok ((run.settle apply first slot entry.1 settled documents).note asOf slot entry documents)

/-- The day section needs the outcomes of the newest resolved day, final or not. -/
def settleNewest (slot : Slot) (run : WindowRun) : Except Interrupted WindowRun :=
  match run.newestResolved with
  | none => .ok run
  | some (day, reading) =>
      if (run.latest slot).map (·.day.tradeDate) = some day then .ok run
      else
        match dayOutcomes desk.bars slot day reading asOf with
        | .error error => .error { error := .raised error, documents := run.documents }
        | .ok settled =>
            .ok { run with latest := Function.update run.latest slot (some settled) }

/-- The readings of the current version in a range, in date order. -/
def currentReadings (documents : Documents) (span : Date × Date) (slot : Slot) :
    List (Date × ReadingDocument) :=
  readRange (storedReading documents slot) span.1 span.2

/-- The final digests of the window. -/
def finalDigests (documents : Documents) (span : Date × Date) (slot : Slot) :
    Date → Option DigestDocument :=
  fun day => (readCapability (documents.digests slot) span.1 span.2 day).filter (·.current desk)

def finalPairs (documents : Documents) (span : Date × Date) (slot : Slot) :
    Date → Option PairDocument :=
  fun day => (readCapability (documents.pairs slot) span.1 span.2 day).filter (·.current desk)

/-- One slot of the window. -/
def foldSlot (span : Date × Date) (run : WindowRun) (slot : Slot) :
    Except Interrupted WindowRun := do
  let read ← (currentReadings run.documents span slot).foldlM
    (foldReading desk apply asOf (finalDigests desk run.documents span slot)
      (finalPairs desk run.documents span slot) span.1 slot)
    { run with newestResolved := none }
  settleNewest desk asOf slot read

/-- The window's days. -/
def foldWindow (documents : Documents) (span : Date × Date) : Except Interrupted WindowRun :=
  slots.foldlM (foldSlot desk apply asOf span)
    { documents := documents
      folded := fun _ _ => none
      latest := fun _ => none
      todayRows := fun _ => none
      openDays := []
      newestResolved := none }

/-- `sorted(folded)`: by day, and auction before close. -/
def sortedFolded (span : Date × Date)
    (folded : Slot → Date → Option (DigestDocument × PairDocument)) :
    List (PickDay × (DigestDocument × PairDocument)) :=
  (daysBetween span.1 span.2).flatMap (fun day => sortedSlots.filterMap (fun slot =>
    (folded slot day).map (fun documents => ((day, slot), documents))))

/-! ## The summary -/

/-- What `summarise` folds and counts, with the documents it leaves. -/
structure EveningSummary where
  documents : Documents
  digests : List (PickDay × DigestDocument)
  pairs : List (PickDay × PairDocument)
  stale : List PickDay
  missing : List PickDay
  openDays : List PickDay
  latest : Slot → Option SettledDay
  todayRows : Slot → Option ℕ

/-- The window's documents are folded after those of the older days. -/
def eveningSummary (span : Date × Date) (run : Run) (window : WindowRun) : EveningSummary where
  documents := window.documents
  digests := run.digests ++
    (sortedFolded span window.folded).map (fun entry => (entry.1, entry.2.1))
  pairs := run.pairs ++ ((sortedFolded span window.folded).filter
    (fun entry => decide (pairFirst ≤ entry.1.1))).map (fun entry => (entry.1, entry.2.2))
  stale := run.stale
  missing := run.missing
  openDays := window.openDays
  latest := window.latest
  todayRows := window.todayRows

/-- `summarise`. A calendar without a session raises before anything is read. -/
@[irreducible]
def summarise (documents : Documents) : Except Interrupted EveningSummary :=
  let sessions := sessionsOf desk asOf
  match (sessions.rtake pairSessions).head?, spanOf (sessions.rtake windowSessions) with
  | some pairFirst, some window => do
      let run ← foldOlder desk apply asOf pairFirst documents (sessions.rdrop windowSessions)
      let settled ← foldWindow desk apply asOf run.documents window
      return eveningSummary pairFirst window run settled
  | _, _ => .error { error := .indexError, documents := documents }

end Summarise

/-- The history of a summary. -/
def EveningSummary.history (summary : EveningSummary) (desk : Desk) : Option History :=
  foldDigests desk.tactics (summary.digests.map (·.2.digest))

end TradingHarness
