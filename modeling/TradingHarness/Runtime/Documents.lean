import TradingHarness.Tactics.Pairs

set_option autoImplicit false

/-! # Stored documents and day outcomes

What the evening run reads and writes: readings, digests and pair documents, one of each per slot and
day (`derived_daily_readings.newest`), and `day_outcomes`, which settles a reading's rows from the bars
(`tactic_trial_runtime.py`). -/

namespace TradingHarness

/-! ## Documents -/

def version : String := "tactic-trials-v1"

/-- A row of a stored reading. -/
structure ReadingRow extends TrialRow where
  referenceClose : Option ℚ

/-- A stored reading of a slot and day. -/
structure ReadingDocument where
  version : String
  rows : List ReadingRow
  day : DayStates

/-- A stored digest: the digest with what it was computed with. -/
structure DigestDocument where
  version : String
  registry : String
  digest : Digest

structure PairDocument where
  version : String
  registry : String
  pairs : List (Σ _ : ConditionPair, PairEntry)

/-- The newest stored document of each kind, slot and day. A document's `trade_date` is the day it is
    stored under. -/
structure Documents where
  readings : Slot → Date → Option ReadingDocument
  digests : Slot → Date → Option DigestDocument
  pairs : Slot → Date → Option PairDocument

/-- Write the newest document of a slot and day. A reading `store` skips is the one already there. -/
def putDocument {α : Type} (table : Slot → Date → Option α) (slot : Slot) (day : Date)
    (document : α) : Slot → Date → Option α :=
  fun slot' day' => if slot' = slot ∧ day' = day then some document else table slot' day'

/-- `_store_final`: the pairs of a day first, its digest last. -/
def storeFinal (documents : Documents) (slot : Slot) (day : Date)
    (final : DigestDocument × PairDocument) : Documents :=
  { documents with
    pairs := putDocument documents.pairs slot day final.2
    digests := putDocument documents.digests slot day final.1 }

/-- The days of a range, in order. -/
def daysBetween (first last : Date) : List Date :=
  (List.range (last + 1 - first).toNat).map (fun (i : ℕ) => first + i)

theorem mem_daysBetween (first last day : Date) :
    day ∈ daysBetween first last ↔ first ≤ day ∧ day ≤ last := by
  unfold daysBetween Date at *
  rw [List.mem_map]
  constructor
  · rintro ⟨i, hi, hday⟩
    rw [List.mem_range] at hi
    omega
  · rintro ⟨hfirst, hlast⟩
    refine ⟨(day - first).toNat, ?_, ?_⟩
    · rw [List.mem_range]
      omega
    · omega

theorem daysBetween_pairwise (first last : Date) :
    (daysBetween first last).Pairwise (· < ·) := by
  unfold daysBetween Date at *
  rw [List.pairwise_map]
  refine List.pairwise_lt_range.imp ?_
  intro i j hij
  omega

/-- The documents of a table in a range of days, in date order. -/
def readRange {α : Type} (table : Date → Option α) (first last : Date) : List (Date × α) :=
  (daysBetween first last).filterMap (fun day => (table day).map (fun document => (day, document)))

theorem mem_readRange {α : Type} (table : Date → Option α) (first last : Date) (day : Date)
    (document : α) :
    (day, document) ∈ readRange table first last ↔
      (first ≤ day ∧ day ≤ last) ∧ table day = some document := by
  unfold readRange
  rw [List.mem_filterMap]
  constructor
  · rintro ⟨day', hmem, hfound⟩
    obtain ⟨document', htable, heq⟩ := Option.map_eq_some_iff.mp hfound
    rw [Prod.mk.injEq] at heq
    obtain ⟨hday, hdocument⟩ := heq
    subst hday hdocument
    exact ⟨(mem_daysBetween first last day').mp hmem, htable⟩
  · rintro ⟨hrange, htable⟩
    exact ⟨day, (mem_daysBetween first last day).mpr hrange, by rw [htable]; rfl⟩

/-! ## Day outcomes -/

def roomSessions : ℕ := 3

/-- What the run finds outside the documents: the calendar, the bars of each symbol in date order, the
    registered tactics and their fingerprint. -/
structure Desk where
  isOpen : Date → Bool
  today : Date
  bars : String → List SettlementBar
  tactics : List Tactic
  registry : String

variable (bars : String → List SettlementBar) (rows : List ReadingRow) (slot : Slot) (pickDay asOf : Date)

/-- `read_exit_bars` for one symbol, as far as `as_of`. A symbol that stands twice among the rows is
    asked for twice. -/
def exitBars (symbol : String) : List SettlementBar :=
  ((bars symbol).filter (fun bar => decide (pickDay - 30 ≤ bar.tradingDate ∧
    bar.tradingDate ≤ pickDay + 30 ∧ bar.tradingDate ≤ asOf))).flatMap
      (fun bar => List.replicate (rows.countP (fun row => decide (row.symbol = symbol))) bar)

/-- The closes before the pick day, on the pick day's price basis where every bar has a factor. -/
def priorClosesOf (bars : List SettlementBar) (pickDay : Date) : List (Option ℚ) :=
  let priorBars := bars.filter (fun bar => decide (bar.tradingDate < pickDay ∧ bar.close ≠ none))
  let path := bars.filter (fun bar => decide (pickDay ≤ bar.tradingDate))
  let adjusted := (priorBars ++ path).all (fun bar => bar.adjFactor.any (fun f => decide (0 < f)))
  let pickFactor := if adjusted then ((path.head?).bind (·.adjFactor)).getD 1 else 1
  priorBars.map (fun bar =>
    if adjusted then bar.close.bind (fun c => bar.adjFactor.map (fun f => c * f / pickFactor))
    else bar.close)

/-- `_settle_reading` for one row. -/
def settleRow (row : ReadingRow) : Except PyError PickEvaluation :=
  let rowBars := exitBars bars rows pickDay asOf row.symbol
  let path := rowBars.filter (fun bar => decide (pickDay ≤ bar.tradingDate))
  evaluatePick row.symbol slot path row.referenceClose (priorClosesOf rowBars pickDay)

def settledComplete (evaluation : PickEvaluation) : Bool :=
  entries.all (fun entry => exits.all (fun exit =>
    decide ((evaluation.entries entry exit).status = .settled ∨
      (evaluation.entries entry exit).status = .noTrade)))

/-- A reading with its outcomes, and whether every sell rule has left it. -/
structure SettledDay where
  day : TrialDay
  settled : Bool

/-- `day_outcomes`: settle every row from the bars up to `as_of`. A day is settled when every row is
    complete and its stocks show enough sessions after it. -/
def dayOutcomes (tradeDate : Date)
    (reading : ReadingDocument) (asOf : Date) : Except PyError SettledDay := do
  let settledRows ← reading.rows.mapM (fun row => do
    let evaluation ← settleRow bars reading.rows slot tradeDate asOf row
    return (row.symbol, evaluation))
  let later := ((reading.rows.flatMap (fun row =>
    exitBars bars reading.rows tradeDate asOf row.symbol)).map (·.tradingDate)).filter
      (fun date => decide (tradeDate < date))
  return SettledDay.mk
    -- of two rows of one symbol the later one counts
    { tradeDate := tradeDate
      slot := slot
      rows := reading.rows.map (·.toTrialRow)
      day := reading.day
      outcomes := fun symbol => settledRows.reverse.lookup symbol }
    (settledRows.all (fun row => settledComplete row.2) &&
      (decide (roomSessions ≤ later.dedup.length) || reading.rows.isEmpty))

/-- `_digest_documents`: the day's digest and its pairs, marked with version and registry. -/
def digestDocuments (desk : Desk) (day : TrialDay) : DigestDocument × PairDocument :=
  ({ version := version, registry := desk.registry, digest := dayDigest desk.tactics day },
    { version := version, registry := desk.registry, pairs := dayPairs day })

/-- `_stored`: the day's reading, if it is of the current version. -/
def storedReading (documents : Documents) (slot : Slot) (day : Date) : Option ReadingDocument :=
  (documents.readings slot day).filter (fun reading => decide (reading.version = version))

/-- `_current`. -/
def isCurrent (desk : Desk) (documentVersion registry : String) : Bool :=
  decide (documentVersion = version ∧ registry = desk.registry)

def DigestDocument.current (desk : Desk) (document : DigestDocument) : Bool :=
  isCurrent desk document.version document.registry

def PairDocument.current (desk : Desk) (document : PairDocument) : Bool :=
  isCurrent desk document.version document.registry

end TradingHarness
