import TradingHarness.Spool.Envelope

set_option autoImplicit false

/-! # The change journal of the edge

Every change of an evidence table is an entry of the journal. A page of it is exported behind a cursor: it
reads again a window of entries before the cursor, for those that were committed late, and goes on to new
entries up to its limit. -/

namespace TradingHarness

open JsonText (Value)

/-- The columns of a row and their values. -/
abbrev Columns := List (List Char × Value)

structure TransferTable where
  name : String
  conflictColumns : List String
  jsonColumns : List String

def transferTables : List TransferTable :=
  [⟨"ten_day_leader_rotation_runs", ["run_id"], ["source_status", "summary"]⟩,
    ⟨"ten_day_leader_rotation_candidates", ["run_id", "symbol"],
      ["evidence", "reason_codes", "risk_flags", "source_snapshot"]⟩,
    ⟨"intraday_scan_runs", ["scan_id"], ["requested_symbols", "source_status", "summary"]⟩,
    ⟨"xiaojie_leader_flow_observations", ["trading_date", "symbol", "mode"],
      ["stop_loss", "exit_state", "risk_flags", "reasons", "market_gate", "first_evidence",
        "last_evidence"]⟩,
    ⟨"intraday_signal_episodes", ["episode_id"], ["evidence"]⟩,
    ⟨"intraday_quote_observations", ["quote_observation_id"], ["raw"]⟩,
    ⟨"intraday_minute_sessions", ["symbol", "trading_date", "minute_bucket", "source_name"], ["raw"]⟩,
    ⟨"intraday_board_flow_snapshots", ["flow_snapshot_id"], ["coverage", "source_status", "payload"]⟩,
    ⟨"intraday_board_reports", ["board_report_id"], ["source_status", "summary", "payload"]⟩,
    ⟨"intraday_board_rotation_events", ["rotation_event_id"], ["conditions"]⟩,
    ⟨"intraday_signal_events", ["signal_event_id"], ["conditions", "evidence", "risk_flags"]⟩,
    ⟨"intraday_rule_input_snapshots", ["rule_input_snapshot_id"], ["inputs"]⟩,
    ⟨"ten_day_leader_rotation_intraday_observations", ["observation_id"],
      ["evidence", "reason_codes", "risk_flags", "source_snapshot"]⟩]

/-- `by_name.get`. -/
def tableNamed (name : String) : Option TransferTable := transferTables.find? (fun table => table.name == name)

def changePageSize : ℕ := 5000

def changeReplayWindow : ℕ := 1000

/-- An entry of the journal. -/
structure Change where
  sequence : ℕ
  table : String
  row : Columns

/-- The entries that are visible, in any order. A sequence number is the primary key. -/
structure Journal where
  changes : List Change
  nodup : (changes.map Change.sequence).Nodup

/-! ## Exporting a page -/

/-- The order of the page. -/
def sequenceLe (first second : Change) : Prop := first.sequence ≤ second.sequence

instance : DecidableRel sequenceLe := fun first second =>
  inferInstanceAs (Decidable (first.sequence ≤ second.sequence))

instance : Std.Total sequenceLe := ⟨fun first second => Nat.le_total first.sequence second.sequence⟩

instance : IsTrans Change sequenceLe := ⟨fun _ _ _ hfirst hsecond => Nat.le_trans hfirst hsecond⟩

variable (journal : Journal) (requestedAfter : ℕ) (limit : ℤ)

def boundedLimit : ℕ := (max 1 (min (changePageSize : ℤ) limit)).toNat

/-- The last sequence number before the window, `max(0, requested_after - CHANGE_REPLAY_WINDOW)`. -/
def replayFrom : ℕ := requestedAfter - changeReplayWindow

/-- The rows that the journal query returns. -/
def pageRows : List Change :=
  ((journal.changes.filter (fun change => replayFrom requestedAfter < change.sequence)).insertionSort
    sequenceLe).take (boundedLimit limit)

/-- `max(sequences, default=requested_after)`. -/
def lastSequence (rows : List Change) (requestedAfter : ℕ) : ℕ :=
  (rows.map Change.sequence).max?.getD requestedAfter

/-- A page. -/
structure Batch where
  requestedAfter : ℕ
  rows : List Change
  nextSequence : ℕ
  remoteSequence : ℕ
  hasMore : Bool

def exportChanges : Except String Batch :=
  let rows := pageRows journal requestedAfter limit
  match rows.find? (fun change => (tableNamed change.table).isNone) with
  | some change => .error ("edge evidence journal contains unsupported table: " ++ change.table)
  | none =>
    .ok {
      requestedAfter := requestedAfter
      rows := rows
      nextSequence := lastSequence rows requestedAfter
      remoteSequence := lastSequence journal.changes 0
      hasMore := boundedLimit limit ≤ rows.length }

/-- The cursor after a number of exports, each from the cursor that the one before returned. An export that
    fails returns none. -/
def cursorAfter (journal : Journal) (limit : ℤ) (cursor : ℕ) : ℕ → ℕ
  | 0 => cursor
  | count + 1 =>
    let cursor := cursorAfter journal limit cursor count
    match exportChanges journal cursor limit with
    | .ok batch => batch.nextSequence
    | .error _ => cursor

/-! ## Room for new rows -/

/-- The entries of the window that is read again. -/
def windowRows : List Change :=
  journal.changes.filter (fun change =>
    decide (replayFrom requestedAfter < change.sequence) && decide (change.sequence ≤ requestedAfter))

/-- The page ends behind the cursor, or at it where there is no newer entry. -/
def Advances (batch : Batch) : Prop :=
  requestedAfter ≤ batch.nextSequence ∧
    ((∃ change ∈ journal.changes, requestedAfter < change.sequence) → requestedAfter < batch.nextSequence)

/-- The page holds the whole window, and a newer entry where there is one. Without one the window must be empty
    or hold the entry of the cursor itself. -/
def HasRoom : Prop :=
  if ∃ change ∈ journal.changes, requestedAfter < change.sequence then
    (windowRows journal requestedAfter).length < boundedLimit limit
  else
    windowRows journal requestedAfter = [] ∨
      ((∃ change ∈ journal.changes, change.sequence = requestedAfter) ∧
        (windowRows journal requestedAfter).length ≤ boundedLimit limit)

end TradingHarness
