import Mathlib.Data.List.Dedup
import Mathlib.Data.List.Sort
import TradingHarness.Library.Driven
import TradingHarness.Library.Spans
import TradingHarness.Paper.Execution

set_option autoImplicit false

/-! # Sector membership

`sector_membership_repository.py`: four writers of `quant.sector_membership_history`, and the predicate that reads it
as it was known at a date. A writer is the list of the statements it executes. -/

namespace TradingHarness

/-! ## Rows -/

inductive Basis
  | providerInterval
  | observedSnapshot
  | legacyUnbounded
  deriving DecidableEq

abbrev Symbol := List Char

/-- A row of `quant.sector_membership_history`. `raw` is the provider's row. -/
structure MembershipRow (ρ : Type) where
  taxonomyKey : List Char
  sectorKey : List Char
  symbol : Symbol
  effectiveFrom : Date
  effectiveTo : Option Date
  providerKey : List Char
  availableAt : Timestamp
  knownAt : Timestamp
  effectiveFromBasis : Basis
  effectiveToBasis : Basis
  raw : ρ

/-- The primary key. -/
structure MembershipKey where
  taxonomyKey : List Char
  sectorKey : List Char
  symbol : Symbol
  effectiveFrom : Date
  deriving DecidableEq

section Rows

variable {ρ : Type}

def MembershipRow.key (row : MembershipRow ρ) : MembershipKey :=
  ⟨row.taxonomyKey, row.sectorKey, row.symbol, row.effectiveFrom⟩

def MembershipRow.span (row : MembershipRow ρ) : Spans.Span := ⟨row.effectiveFrom, row.effectiveTo⟩

def observedExchangeDate (observedAt : Timestamp) : Date := shanghaiDate observedAt

/-- 17:00 in Shanghai, the default `known_at` cutoff of a date. -/
def membershipCutoff (date : Date) : Timestamp := date * (24 * 3600 * 1000000) + 9 * 3600 * 1000000

/-- `effective_to IS NULL OR effective_to>=date` -/
def lastsUntil (date : Date) : Option Date → Bool
  | none => true
  | some last => decide (date ≤ last)

def Basis.isPointInTime (basis : Basis) : Bool := decide (basis = .providerInterval ∨ basis = .observedSnapshot)

/-- `point_in_time_membership_predicate` -/
def pointInTimeMember (date : Date) (cutoff : Timestamp) (row : MembershipRow ρ) : Bool :=
  decide (row.effectiveFrom ≤ date) && lastsUntil date row.effectiveTo && row.effectiveFromBasis.isPointInTime &&
    decide (row.knownAt ≤ cutoff)

/-- The sector has the symbol at the date, as known at the cutoff. -/
def SelectedAt (date : Date) (cutoff : Timestamp) (table : List (MembershipRow ρ))
    (taxonomyKey sectorKey : List Char) (symbol : Symbol) : Prop :=
  ∃ row ∈ table, row.taxonomyKey = taxonomyKey ∧ row.sectorKey = sectorKey ∧ row.symbol = symbol ∧
    pointInTimeMember date cutoff row = true

/-! ## Statements -/

/-- The statements of the writers: an `INSERT … ON CONFLICT … DO UPDATE` of one row, and the `UPDATE` that closes the
    open rows of a provider whose symbol is not among the members. -/
inductive MembershipStatement (ρ : Type)
  | upsert (row : MembershipRow ρ)
  | close (taxonomyKey sectorKey providerKey : List Char) (beganBefore : Option Date) (members : List Symbol)
    (endsOn : Date) (observedAt : Timestamp)

/-- The rows that the closing `UPDATE` is for. -/
def isClosed (taxonomyKey sectorKey providerKey : List Char) (beganBefore : Option Date) (members : List Symbol)
    (row : MembershipRow ρ) : Bool :=
  decide (row.taxonomyKey = taxonomyKey ∧ row.sectorKey = sectorKey ∧ row.providerKey = providerKey ∧
    row.effectiveTo = none ∧ (∀ date ∈ beganBefore, row.effectiveFrom < date) ∧ members.contains row.symbol = false)

/-- What a stored row becomes, where the statement changes it. -/
def MembershipStatement.rewrite (old : MembershipRow ρ) : MembershipStatement ρ → Option (MembershipRow ρ)
  | .upsert row => if old.key = row.key then some { row with knownAt := min old.knownAt row.knownAt } else none
  | .close taxonomyKey sectorKey providerKey beganBefore members endsOn observedAt =>
    if isClosed taxonomyKey sectorKey providerKey beganBefore members old then
      some { old with effectiveTo := some endsOn, availableAt := observedAt, effectiveToBasis := .observedSnapshot }
    else none

/-- The row that an upsert inserts, where no stored one has its key. -/
def MembershipStatement.inserts (table : List (MembershipRow ρ)) : MembershipStatement ρ → List (MembershipRow ρ)
  | .upsert row => if table.any (fun old => decide (old.key = row.key)) then [] else [row]
  | .close .. => []

def executeMembership (statement : MembershipStatement ρ) (table : List (MembershipRow ρ)) : List (MembershipRow ρ) :=
  table.map (fun old => (statement.rewrite old).getD old) ++ statement.inserts table

/-! ## Writers -/

/-- A row of a THS response: `con_code`, and the dates that `parse_date` reads from `in_date` and `out_date`. -/
structure ThsRow (ρ : Type) where
  conCode : List Char
  inDate : Option Date
  outDate : Option Date
  raw : ρ

/-- `membership_interval`: the interval and the bases of its ends. -/
def membershipInterval (row : ThsRow ρ) (observedAt : Timestamp) : Date × Option Date × Basis × Basis :=
  match row.inDate with
  | some effectiveFrom => (effectiveFrom, row.outDate, .providerInterval, .providerInterval)
  | none => (observedExchangeDate observedAt, row.outDate, .observedSnapshot,
      if row.outDate.isSome then .providerInterval else .observedSnapshot)

/-- The symbol of a THS row, where it is one of an exchange. -/
def thsSymbol (row : ThsRow ρ) : Option Symbol :=
  let symbol := row.conCode.map Char.toUpper
  if symbol.length = 9 ∧ [".SH".toList, ".SZ".toList, ".BJ".toList].contains (symbol.drop 6) = true ∧
      (symbol.take 6).all Char.isDigit = true then some symbol else none

def thsRowOf (taxonomyKey sectorKey providerKey : List Char) (observedAt : Timestamp) (symbol : Symbol)
    (row : ThsRow ρ) : MembershipRow ρ :=
  let interval := membershipInterval row observedAt
  ⟨taxonomyKey, sectorKey, symbol, interval.1, interval.2.1, providerKey, observedAt, observedAt, interval.2.2.1,
    interval.2.2.2, row.raw⟩

/-- The symbols of a THS response that have not left. -/
def thsActive (rows : List (ThsRow ρ)) : List Symbol :=
  (rows.filter (fun row => row.outDate.isNone)).filterMap thsSymbol

def persistThsSnapshot (taxonomyKey sectorKey : List Char) (rows : List (ThsRow ρ)) (providerKey : List Char)
    (observedAt : Timestamp) : List (MembershipStatement ρ) × ℕ :=
  (rows.filterMap (fun row => (thsSymbol row).map (fun symbol =>
      .upsert (thsRowOf taxonomyKey sectorKey providerKey observedAt symbol row)))
    ++ (if rows = [] then [] else
      [.close taxonomyKey sectorKey providerKey none (thsActive rows) (observedExchangeDate observedAt - 1)
        observedAt]),
    (thsActive rows).dedup.length)

/-- The row that a snapshot without dates stores for a member. -/
def observedRow (taxonomyKey sectorKey providerKey : List Char) (observedAt : Timestamp) (symbol : Symbol) (raw : ρ) :
    MembershipRow ρ :=
  ⟨taxonomyKey, sectorKey, symbol, observedExchangeDate observedAt, none, providerKey, observedAt, observedAt,
    .observedSnapshot, .observedSnapshot, raw⟩

/-- The statements of a snapshot without dates: its members start today, and those that are gone ended yesterday. -/
def observedStatements (taxonomyKey sectorKey providerKey : List Char) (observedAt : Timestamp)
    (written : List (Symbol × ρ)) (members : List Symbol) : List (MembershipStatement ρ) :=
  written.map (fun member => .upsert (observedRow taxonomyKey sectorKey providerKey observedAt member.1 member.2))
    ++ [.close taxonomyKey sectorKey providerKey (some (observedExchangeDate observedAt)) members
      (observedExchangeDate observedAt - 1) observedAt]

/-- `persist_observed_snapshot`, where `memberSymbol` is `none` for a row without a symbol. -/
def persistObservedSnapshot (taxonomyKey sectorKey : List Char) (rows : List ρ) (providerKey : List Char)
    (observedAt : Timestamp) (memberSymbol : ρ → Option Symbol) : List (MembershipStatement ρ) × ℕ :=
  let parsed := rows.filterMap (fun row => (memberSymbol row).map (fun symbol => (symbol, row)))
  (if rows = [] then [] else
    observedStatements taxonomyKey sectorKey providerKey observedAt parsed (parsed.map Prod.fst), parsed.length)

def persistObservedSnapshotBatched (taxonomyKey sectorKey : List Char) (members : List (Symbol × ρ))
    (providerKey : List Char) (observedAt : Timestamp) : List (MembershipStatement ρ) × ℕ :=
  (if members = [] then [] else
    observedStatements taxonomyKey sectorKey providerKey observedAt members (members.map Prod.fst), members.length)

/-- The order of texts, by code points. -/
def textLe (text other : List Char) : Bool := !List.lex other text (fun char next => decide (char.toNat < next.toNat))

structure DeltaCounts where
  members : ℕ
  opened : ℕ
  closed : ℕ

/-- The symbols with an open row of the provider. -/
def alreadyOpen (taxonomyKey sectorKey providerKey : List Char) (table : List (MembershipRow ρ)) : List Symbol :=
  (table.filter (fun row => decide (row.taxonomyKey = taxonomyKey ∧ row.sectorKey = sectorKey ∧
    row.providerKey = providerKey ∧ row.effectiveTo = none))).map MembershipRow.symbol

/-- The members that are not open, in the order of their symbols. -/
def joinedMembers (taxonomyKey sectorKey providerKey : List Char) (members : List (Symbol × ρ))
    (table : List (MembershipRow ρ)) : List (Symbol × ρ) :=
  (members.insertionSort (fun member other => textLe member.1 other.1 = true)).filter
    (fun member => !(alreadyOpen taxonomyKey sectorKey providerKey table).contains member.1)

/-- `persist_observed_snapshot_delta` on the table that it reads first. -/
def persistObservedSnapshotDelta (taxonomyKey sectorKey : List Char) (members : List (Symbol × ρ))
    (providerKey : List Char) (observedAt : Timestamp) (table : List (MembershipRow ρ)) :
    List (MembershipStatement ρ) × DeltaCounts :=
  let joined := joinedMembers taxonomyKey sectorKey providerKey members table
  if members = [] then ([], ⟨0, 0, 0⟩)
  else
    (observedStatements taxonomyKey sectorKey providerKey observedAt joined (members.map Prod.fst),
      ⟨members.length, joined.length, table.countP (isClosed taxonomyKey sectorKey providerKey
        (some (observedExchangeDate observedAt)) (members.map Prod.fst))⟩)

end Rows

end TradingHarness
