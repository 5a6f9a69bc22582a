import Mathlib.Logic.Function.Basic
import TradingHarness.Library.Runs
import TradingHarness.Transfer.Journal

set_option autoImplicit false

/-! # Importing evidence

A stream of JSON lines is applied row by row in one transaction. Its completeness is only known at its end,
and it is checked behind the transaction. -/

namespace TradingHarness

open JsonText (Value canonical)

/-- What the import takes from its language, from `datetime` and from the database. -/
structure Importer where
  host : Host
  isspace_digit : ∀ char, char.isDigit = true → host.isspace char = false
  /-- `int(value)`, and none for an exception. -/
  int : Value → Option ℤ
  /-- The instant in microseconds: none for an exception, `some none` for a time without a zone. -/
  fromisoformat : List Char → Option (Option ℤ)
  isoformat : ℤ → List Char
  isoformat_ne_nil : ∀ instant, isoformat instant ≠ []
  /-- The columns that a new row has besides those that are inserted. -/
  defaults : TransferTable → Columns
  /-- A statement that violates a constraint or a type. -/
  rejects : (String → List Columns) → TransferTable → Columns → Bool

/-- The rows of the tables, by the name of the table. -/
abbrev Tables := String → List Columns

variable (importer : Importer) (now : ℤ)

/-! ## Checks -/

def minutes (count : ℤ) : ℤ := count * 60 * 1000000

def Importer.strip (text : List Char) : List Char :=
  (text.dropWhile importer.host.isspace).rdropWhile importer.host.isspace

def parseCheckpoint (value : List Char) : Except String ℤ :=
  let text := importer.strip value
  if text = [] then .ok (now - minutes (30 * 24 * 60))
  else
    match importer.fromisoformat (text.flatMap (fun char => if char = 'Z' then "+00:00".toList else [char])) with
    | none => .error "Invalid isoformat string"
    | some none => .error "edge evidence cursor must be timezone-aware"
    | some (some instant) =>
      if now + minutes 5 < instant then .error "edge evidence cursor is in the future" else .ok instant

/-- `value is None`. -/
def isNull : Value → Bool
  | .word text => text == "null".toList
  | _ => false

def parseSequence (value : Option Value) : Except String ℕ :=
  match value with
  | none => .ok 0
  | some value =>
    let text := importer.strip (importer.host.text value)
    if isNull value then .ok 0
    else if text = [] then .ok 0
    else if text.all Char.isDigit then .ok (Nat.ofDigitChars 10 text 0)
    else .error "edge evidence sequence must be a non-negative integer"

/-- `first or second`, of two keys. -/
def orKey (item : Columns) (first second : String) : Option Value :=
  match item.lookup first.toList with
  | some value => if truthy value then some value else item.lookup second.toList
  | none => item.lookup second.toList

/-- `if remote_latest:` and its checkpoint. -/
def latestChangedAt (item : Columns) (known : Option (List Char)) : Except String (Option (List Char)) :=
  match item.lookup "remote_latest_changed_at".toList with
  | none => .ok known
  | some value =>
    if truthy value then (parseCheckpoint importer now (importer.host.text value)).map (some ∘ importer.isoformat)
    else .ok known

/-- `[a-z_][a-z0-9_]*` -/
def isColumnName : List Char → Bool
  | [] => false
  | first :: rest =>
    (first.isLower || first == '_') && rest.all (fun char => char.isLower || char.isDigit || char == '_')

variable (table : TransferTable) (rows : List Columns) (row : Columns)

/-- The columns that `upsert_statement` accepts. -/
def validColumns : Bool :=
  !row.isEmpty && table.conflictColumns.all (fun column => (row.lookup column.toList).isSome)
    && row.all (fun column => isColumnName column.1)

/-! ## Upserts -/

/-- The values of the conflict columns. -/
def keyOf : List (List Char) :=
  table.conflictColumns.map (fun column => canonical ((row.lookup column.toList).getD nullWord))

/-- The columns that are set where the key is there already. -/
def updatesOf : Columns :=
  row.filter (fun column => !table.conflictColumns.contains (String.ofList column.1))

/-- `INSERT … ON CONFLICT (key) DO UPDATE SET …`, or `DO NOTHING` where only the key is given. -/
def upsert : List Columns :=
  if rows.any (fun stored => keyOf table stored == keyOf table row) then
    rows.map (fun stored =>
      if keyOf table stored == keyOf table row then Dict.update stored (updatesOf table row) else stored)
  else rows ++ [Dict.update (importer.defaults table) row]

/-! ## Lines -/

/-- The variables of `import_jsonl`, and the tables as the transaction has left them. -/
structure ImportState where
  tables : Tables
  metadataSeen : Bool := false
  checkpoint : List Char := []
  sequence : ℕ := 0
  remoteSequence : ℕ := 0
  remoteLatestChangedAt : Option (List Char) := none
  hasMore : Bool := false
  edgeRuntime : Columns := []
  counts : List (String × ℕ) := transferTables.map (fun table => (table.name, 0))

variable (state : ImportState) (line : List Char)

def importMetadata (item : Columns) : Except String ImportState :=
  let version := importer.int (orElse (item.lookup "version".toList) (.word ['0']))
  if state.metadataSeen ∨ (version ≠ some 1 ∧ version ≠ some 2) then
    .error "invalid edge evidence metadata"
  else do
    let remoteSequence ← parseSequence importer (orKey item "remote_sequence" "journal_sequence")
    let latest ← latestChangedAt importer now item state.remoteLatestChangedAt
    return { state with
      metadataSeen := true
      edgeRuntime := match item.lookup "edge_runtime".toList with
        | some (.obj runtime) => runtime
        | _ => []
      remoteSequence := remoteSequence
      remoteLatestChangedAt := latest }

/-- `item.get("remote_sequence") or remote_sequence or sequence`, parsed. -/
def checkpointRemoteSequence (item : Columns) (sequence : ℕ) : Except String ℕ :=
  let known := if state.remoteSequence = 0 then sequence else state.remoteSequence
  match item.lookup "remote_sequence".toList with
  | some value => if truthy value then parseSequence importer (some value) else .ok known
  | none => .ok known

def importCheckpoint (item : Columns) : Except String ImportState := do
  let checkpoint ← parseCheckpoint importer now
    (importer.host.text (orElse (item.lookup "value".toList) (.str [])))
  let sequence ← parseSequence importer (orKey item "sequence" "journal_sequence")
  let remoteSequence ← checkpointRemoteSequence importer state item sequence
  let latest ← latestChangedAt importer now item state.remoteLatestChangedAt
  return { state with
    checkpoint := importer.isoformat checkpoint
    sequence := sequence
    remoteSequence := remoteSequence
    remoteLatestChangedAt := latest
    hasMore := match item.lookup "has_more".toList with
      | some value => truthy value
      | none => false }

def importRecord (item : Columns) : Except String ImportState :=
  if !state.metadataSeen || !state.checkpoint.isEmpty then .error "invalid edge evidence stream ordering"
  else
    match tableNamed (String.ofList (importer.host.text (orElse (item.lookup "table".toList) (.str [])))),
        item.lookup "row".toList with
    | some table, some (.obj row) =>
      if !validColumns table row then .error ("invalid columns for " ++ table.name)
      else if importer.rejects state.tables table row then .error "database error"
      else
        .ok { state with
          tables := Function.update state.tables table.name
            (upsert importer table (state.tables table.name) row)
          counts := state.counts.map (fun entry =>
            if entry.1 = table.name then (entry.1, entry.2 + 1) else entry) }
    | _, _ => .error "unknown edge evidence table or row"

inductive LineKind
  | metadata
  | checkpoint
  | record
  deriving DecidableEq

/-- `item.get("kind")`. Anything else than a record is refused as one. -/
def kindOf (item : Columns) : Option LineKind :=
  if isText (item.lookup "kind".toList) "metadata".toList then some .metadata
  else if isText (item.lookup "kind".toList) "checkpoint".toList then some .checkpoint
  else if isText (item.lookup "kind".toList) "record".toList then some .record
  else none

def importItem (item : Columns) : Except String ImportState :=
  match kindOf item with
  | some .metadata => importMetadata importer now state item
  | some .checkpoint => importCheckpoint importer now state item
  | some .record => importRecord importer state item
  | none => .error "invalid edge evidence stream ordering"

/-- `json.loads` of the lines that are not blank. -/
def parseItem : Except String Columns :=
  match JsonText.loads line with
  | some (.obj item) => .ok item
  | _ => .error "not a JSON object"

def importLine : Except String ImportState :=
  if importer.strip line = [] then .ok state
  else do
    let item ← parseItem line
    importItem importer now state item

/-! ## The import -/

/-- The file of the cursor. -/
structure Cursor where
  checkpoint : List Char
  counts : List (String × ℕ)
  sequence : ℕ
  remoteSequence : ℕ
  remoteLatestChangedAt : Option (List Char)
  hasMore : Bool
  edgeRuntime : Columns

/-- What the import changes. -/
structure Target where
  tables : Tables
  cursor : Option Cursor

def cursorOf : Cursor :=
  { checkpoint := state.checkpoint
    counts := state.counts
    sequence := state.sequence
    remoteSequence := state.remoteSequence
    remoteLatestChangedAt := state.remoteLatestChangedAt
    hasMore := state.hasMore
    edgeRuntime := state.edgeRuntime }

/-- The end of `import_jsonl`: a transaction that fails is rolled back, one that does not is committed before
    the stream is known to be complete. -/
def finishImport (target : Target) (result : Except String ImportState) : Except String Cursor × Target :=
  match result with
  | .error error => (.error error, target)
  | .ok state =>
    if !state.metadataSeen || state.checkpoint.isEmpty then
      (.error "edge evidence stream is incomplete", { target with tables := state.tables })
    else (.ok (cursorOf state), { tables := state.tables, cursor := some (cursorOf state) })

def importJsonl (target : Target) (lines : List (List Char)) : Except String Cursor × Target :=
  finishImport target (lines.foldlM (importLine importer now) { tables := target.tables })

end TradingHarness
