import TradingHarness.Membership.Sectors
import TradingHarness.Tdx.MacFields

set_option autoImplicit false

/-! # Universe membership

`universe_history.py`: intervals of the symbols of a universe, from live snapshots and, for the time before them, from
the canonical daily bars. -/

namespace TradingHarness

/-! ## Rows -/

/-- A row of `quant.universe_membership_history`. -/
structure UniverseRow where
  universeKey : List Char
  symbol : Symbol
  effectiveFrom : Date
  effectiveTo : Option Date
  source : List Char
  deriving DecidableEq

variable (universeKey : List Char) (exchangeDate : Date) (symbols : List Symbol) (row : UniverseRow)

/-- Its primary key. -/
def UniverseRow.key : List Char × Symbol × Date := (row.universeKey, row.symbol, row.effectiveFrom)

def UniverseRow.span : Spans.Span := ⟨row.effectiveFrom, row.effectiveTo⟩

/-- `point_in_time_membership_predicate` at the date of a bar. -/
def universeMember (date : Date) (row : UniverseRow) : Bool :=
  decide (row.effectiveFrom ≤ date) && lastsUntil date row.effectiveTo

/-- The row that is written in place of a stored one. -/
def conflicting (rows : List UniverseRow) (old : UniverseRow) : Option UniverseRow :=
  rows.find? (fun row => decide (row.key = old.key))

/-- `INSERT … SELECT … ON CONFLICT(universe_key,symbol,effective_from) DO UPDATE` -/
def insertIntervals (rows table : List UniverseRow) : List UniverseRow :=
  table.map (fun old => (conflicting rows old).getD old)
    ++ rows.filter (fun row => !table.any (fun old => decide (old.key = row.key)))

/-! ## Snapshots -/

/-- The rows of a universe that are open and not in the snapshot. -/
def isMissing : Bool :=
  decide (row.universeKey = universeKey ∧ row.effectiveTo = none ∧ symbols.contains row.symbol = false)

def isDiscarded : Bool :=
  isMissing universeKey symbols row && decide (row.effectiveFrom = exchangeDate)

def isEnded : Bool :=
  isMissing universeKey symbols row && decide (row.effectiveFrom < exchangeDate)

variable (activeSymbols : List (List Char)) (source : List Char) (closesMissing : Bool)
  (table : List UniverseRow)

/-- `_close_missing` -/
def closeMissingRows :
    List UniverseRow :=
  (table.filter (fun row => !isDiscarded universeKey exchangeDate symbols row)).map (fun row =>
    if isEnded universeKey exchangeDate symbols row then { row with effectiveTo := some (exchangeDate - 1) } else row)

/-- `str(symbol).strip().upper()` -/
def normaliseSymbol (symbol : List Char) : Symbol :=
  ((symbol.dropWhile isSpace).reverse.dropWhile isSpace).reverse.map Char.toUpper

/-- The symbols of a snapshot: normalised, once each and in order. -/
def snapshotSymbols : List Symbol :=
  ((activeSymbols.filter (fun symbol => !symbol.isEmpty)).map normaliseSymbol).dedup.insertionSort (fun symbol other => textLe symbol other = true)

def hasOpen (symbol : Symbol) : Bool :=
  table.any (fun row => decide (row.universeKey = universeKey ∧ row.symbol = symbol ∧ row.effectiveTo = none))

/-- The rows that a snapshot opens: those of its symbols that have no open one. -/
def openedRows
    : List UniverseRow :=
  (symbols.filter (fun symbol => !hasOpen universeKey table symbol)).map (fun symbol =>
    ⟨universeKey, symbol, exchangeDate, none, source⟩)

structure SyncCounts where
  opened : ℕ
  closed : ℕ
  discardedSameDay : ℕ
  active : ℕ

/-- `sync_universe_membership_history`. With `closesMissing` off a snapshot only opens intervals. -/
def syncUniverseMembershipHistory
    : SyncCounts × List UniverseRow :=
  let symbols := snapshotSymbols activeSymbols
  let kept := if closesMissing then closeMissingRows universeKey exchangeDate symbols table else table
  let rows := openedRows universeKey exchangeDate symbols source kept
  (⟨rows.length, if closesMissing then table.countP (isEnded universeKey exchangeDate symbols) else 0,
      if closesMissing then table.countP (isDiscarded universeKey exchangeDate symbols) else 0, symbols.length⟩,
    insertIntervals rows kept)

/-! ## Rebuilding -/

/-- The sources whose rows a rebuild deletes. -/
def automaticSources : List (List Char) :=
  ["canonical_presence_plus_current_universe".toList, "canonical_presence_delisting_proxy".toList,
    "annual_daily_backfill_pit_active".toList, "annual_daily_backfill_pit_bridge_to_authoritative".toList,
    "annual_daily_backfill_pit_inferred_delisting".toList, "annual_daily_backfill_pit_supplier_delisting".toList,
    "stock-basic-all-a:tushare_primary".toList]

/-- A row of `quant.instruments`. -/
structure Instrument where
  listDate : Option Date
  delistDate : Option Date

/-- What a rebuild reads beside the history: the canonical bars, the instruments and the enabled members. -/
structure CanonicalEvidence where
  bars : List (Symbol × Date)
  instruments : List (Symbol × Instrument)
  members : List (List Char × Symbol)

variable (evidence : CanonicalEvidence) (kept : List UniverseRow) (symbol : Symbol)

/-- The symbols of A shares: main board, STAR, ChiNext and Beijing. -/
def isAShare : Bool :=
  symbol.length == 9 && (symbol.take 6).all Char.isDigit &&
    ((symbol.drop 6 == ".SH".toList &&
        (symbol.take 2 == "60".toList && "0135".toList.contains (symbol.getD 2 ' ') ||
          symbol.take 2 == "68".toList && "89".toList.contains (symbol.getD 2 ' '))) ||
      (symbol.drop 6 == ".SZ".toList &&
        ["000".toList, "001".toList, "002".toList, "003".toList, "300".toList, "301".toList, "302".toList].contains
          (symbol.take 3)) ||
      (symbol.drop 6 == ".BJ".toList && "489".toList.contains (symbol.getD 0 ' ')))

/-- The symbol is an enabled member of the universe. -/
def isLive : Bool :=
  evidence.members.any (fun member => decide (member.1 = universeKey ∧ member.2 = symbol))

/-- The dates of the bars of a symbol. -/
def barDates : List Date :=
  (evidence.bars.filter (fun bar => decide (bar.1 = symbol))).map Prod.snd

/-- The first open row of a symbol. -/
def authoritativeFrom (kept : List UniverseRow) : Option Date :=
  ((kept.filter (fun row => decide (row.universeKey = universeKey ∧ row.symbol = symbol ∧ row.effectiveTo = none))).map
    UniverseRow.effectiveFrom).min?

/-- The interval that the evidence gives a symbol, on the rows that were kept. -/
def desiredRow :
    Option UniverseRow :=
  match (barDates evidence symbol).min?, (barDates evidence symbol).max?, evidence.instruments.lookup symbol with
  | some firstBar, some lastBar, some instrument =>
    let effectiveFrom := max firstBar (instrument.listDate.getD firstBar)
    if instrument.delistDate.any (fun delisted => decide (delisted < firstBar)) then none
    else
      match authoritativeFrom universeKey symbol kept with
      | some authoritative =>
        if effectiveFrom < authoritative then
          some ⟨universeKey, symbol, effectiveFrom, some (authoritative - 1),
            "annual_daily_backfill_pit_bridge_to_authoritative".toList⟩
        else none
      | none =>
        if isLive universeKey evidence symbol then
          some ⟨universeKey, symbol, effectiveFrom, none, "annual_daily_backfill_pit_active".toList⟩
        else
          some ⟨universeKey, symbol, effectiveFrom, some (min lastBar (instrument.delistDate.getD lastBar)),
            if instrument.delistDate.isSome then "annual_daily_backfill_pit_supplier_delisting".toList
            else "annual_daily_backfill_pit_inferred_delisting".toList⟩
  | _, _, _ => none

/-- `CHECK(effective_to IS NULL OR effective_to>=effective_from)` -/
def UniverseRow.passesCheck : Bool := lastsUntil row.effectiveFrom row.effectiveTo

def isAutomatic : Bool :=
  decide (row.universeKey = universeKey) && automaticSources.contains row.source

def keptRows : List UniverseRow :=
  table.filter (fun row => !isAutomatic universeKey row)

def desiredRows : List UniverseRow :=
  (((evidence.bars.map Prod.fst).dedup).filter isAShare).filterMap (desiredRow universeKey evidence kept)

structure RebuildCounts where
  removed : ℕ
  inserted : ℕ

/-- `rebuild_historical_membership_from_canonical`. A row that fails the table's check ends the transaction. -/
def rebuildHistoricalMembership (table : List UniverseRow) :
    Except String (RebuildCounts × List UniverseRow) :=
  let kept := keptRows universeKey table
  let desired := desiredRows universeKey evidence kept
  if desired.all UniverseRow.passesCheck then
    .ok (⟨table.countP (isAutomatic universeKey), desired.length⟩, insertIntervals desired kept)
  else .error "new row for relation \"universe_membership_history\" violates check constraint"

end TradingHarness
