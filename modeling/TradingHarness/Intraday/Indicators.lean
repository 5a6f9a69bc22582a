import TradingHarness.Library.ReadThrough
import TradingHarness.Library.Keyed
import TradingHarness.Library.Rounding
import TradingHarness.Membership.Sectors
import Mathlib.Data.List.DropRight

set_option autoImplicit false

/-! # Live MACD and KDJ

`intraday_technical_indicators.py`: a seed computed from a symbol's stored daily bars, advanced one step with the
live price, and the cache that holds the bars of a session. -/

namespace TradingHarness.Indicators

/-- The arithmetic of the code's floats, with `round` to a number of decimals. -/
class Arithmetic (F : Type) extends Add F, Sub F, Mul F, Div F, NatCast F where
  eq : F → F → Bool
  lt : F → F → Bool
  round : F → ℕ → F

/-- Exact arithmetic. -/
instance : Arithmetic ℚ where
  eq x y := x == y
  lt x y := decide (x < y)
  round x digits := (Rounding.halfEven (x * ((Nat.pow 10 digits : ℕ) : ℚ)) : ℚ) / ((Nat.pow 10 digits : ℕ) : ℚ)

def macdFastPeriods : ℕ := 12
def macdSlowPeriods : ℕ := 26
def macdSignalPeriods : ℕ := 9
def kdjWindowSessions : ℕ := 9
def kdjSmoothingPeriods : ℕ := 3
def seedHistorySessions : ℕ := 250
def minSeedSessions : ℕ := 120

/-- The adjustment basis of a seed row. -/
inductive Basis
  | bfq | qfq | hfq
deriving DecidableEq

def requireBasis (basis : String) : Except String Basis :=
  if basis = "bfq" then .ok .bfq
  else if basis = "qfq" then .ok .qfq
  else if basis = "hfq" then .ok .hfq
  else .error ("adjustment basis must be one of bfq, qfq, hfq: " ++ basis)

section Seeds

variable {F : Type} [Arithmetic F]

def alpha (periods : ℕ) : F := ((2 : ℕ) : F) / ((periods + 1 : ℕ) : F)

/-- `_number` of what `float` makes of a value: a number that is not NaN. -/
def number (value : Option F) : Option F := value.filter (fun parsed => Arithmetic.eq parsed parsed)

/-- A daily bar, each price as `float` reads it. -/
structure Bar (F : Type) where
  tradingDate : Date
  close : Option F
  high : Option F
  low : Option F

/-- A row shaped like the published factors of one basis. -/
structure FactorRow (F : Type) where
  basis : Basis
  tradeDate : Option Date
  expma12 : F
  macdDif : F
  macdDea : F
  kdjK : F
  kdjD : F
  seedSource : String
  seedSessions : ℕ

variable (row : FactorRow F) (price : Option F) (priorSessions : List (Bar F))
  (sessionHigh sessionLow : Option F) (basis : Basis)

/-- `_factor`: a row has the names of its own basis only. -/
def factor (read : FactorRow F → F) (basis : Basis) : Option F :=
  if row.basis = basis then number (some (read row)) else none

structure MacdSeed (F : Type) where
  basis : Basis
  tradeDate : Option Date
  emaFast : F
  emaSlow : F
  dea : F

structure KdjSeed (F : Type) where
  basis : Basis
  tradeDate : Option Date
  k : F
  d : F

def macdSeed : Option (MacdSeed F) :=
  match factor row FactorRow.expma12 basis, factor row FactorRow.macdDif basis, factor row FactorRow.macdDea basis with
  | some emaFast, some dif, some dea => some ⟨basis, row.tradeDate, emaFast, emaFast - dif, dea⟩
  | _, _, _ => none

def kdjSeed : Option (KdjSeed F) :=
  match factor row FactorRow.kdjK basis, factor row FactorRow.kdjD basis with
  | some k, some d => some ⟨basis, row.tradeDate, k, d⟩
  | _, _ => none

structure Macd (F : Type) where
  dif : F
  dea : F
  macd : F
  emaFast : F
  emaSlow : F
  seedTradeDate : Option Date
  basis : Basis

structure Kdj (F : Type) where
  k : F
  d : F
  j : F
  rsv : F
  windowHigh : F
  windowLow : F
  seedTradeDate : Option Date
  basis : Basis

/-- One step of an exponential average toward a close. -/
def toward (periods : ℕ) (average close : F) : F := average + alpha periods * (close - average)

def advanceMacd (seed : Option (MacdSeed F)) (price : Option F) : Option (Macd F) :=
  match number price, seed with
  | some close, some seed =>
      match number (some seed.emaFast), number (some seed.emaSlow), number (some seed.dea) with
      | some emaFast, some emaSlow, some deaPrev =>
          let emaFast := toward macdFastPeriods emaFast close
          let emaSlow := toward macdSlowPeriods emaSlow close
          let dif := emaFast - emaSlow
          let dea := toward macdSignalPeriods deaPrev dif
          some
            { dif := Arithmetic.round dif 4
              dea := Arithmetic.round dea 4
              macd := Arithmetic.round (((2 : ℕ) : F) * (dif - dea)) 4
              emaFast := Arithmetic.round emaFast 4
              emaSlow := Arithmetic.round emaSlow 4
              seedTradeDate := seed.tradeDate
              basis := seed.basis }
      | _, _, _ => none
  | _, _ => none

/-- `max` of a list that starts with `first`. -/
def maxOf (first : F) (rest : List F) : F := rest.foldl (fun best x => if Arithmetic.lt best x then x else best) first

/-- `min` of a list that starts with `first`. -/
def minOf (first : F) (rest : List F) : F := rest.foldl (fun best x => if Arithmetic.lt x best then x else best) first

/-- The high and low of bars that all have both. -/
def ranges (bars : List (Bar F)) : Option (List (F × F)) :=
  bars.mapM (fun bar => do
    let high ← number bar.high
    let low ← number bar.low
    return (high, low))

def kdjWindowBounds : Option (F × F) :=
  match ranges (priorSessions.rtake (kdjWindowSessions - 1)), number sessionHigh, number sessionLow with
  | some prior, some liveHigh, some liveLow =>
      if prior.length < kdjWindowSessions - 1 then none
      else
        match prior with
        | [] => some (liveHigh, liveLow)
        | (high, low) :: rest =>
            some (maxOf high (rest.map Prod.fst ++ [liveHigh]), minOf low (rest.map Prod.snd ++ [liveLow]))
  | _, _, _ => none

def advanceKdj (seed : Option (KdjSeed F)) (price windowHigh windowLow : Option F) : Option (Kdj F) :=
  match number price, number windowHigh, number windowLow, seed with
  | some close, some high, some low, some seed =>
      match number (some seed.k), number (some seed.d) with
      | some kPrev, some dPrev =>
          let span := high - low
          if !Arithmetic.lt ((0 : ℕ) : F) span then none
          else
            let rsv := (close - low) / span * ((100 : ℕ) : F)
            let k := kPrev + (rsv - kPrev) / (kdjSmoothingPeriods : F)
            let d := dPrev + (k - dPrev) / (kdjSmoothingPeriods : F)
            some
              { k := Arithmetic.round k 4
                d := Arithmetic.round d 4
                j := Arithmetic.round (((3 : ℕ) : F) * k - ((2 : ℕ) : F) * d) 4
                rsv := Arithmetic.round rsv 4
                windowHigh := high
                windowLow := low
                seedTradeDate := seed.tradeDate
                basis := seed.basis }
      | _, _ => none
  | _, _, _, _ => none

/-! ## A reading -/

inductive Status
  | seedUnavailable | priceUnavailable | seedStale | completed
deriving DecidableEq

/-- Why a reading is absent. -/
inductive Reason
  /-- "no seed: fewer than 120 completed sessions on file" -/
  | noSeed
  /-- "live price is not numeric" -/
  | priceNotNumeric
  /-- "the seed row carries no usable factor" -/
  | noUsableFactor
  /-- "the seed is from …; the previous session is …" -/
  | seedIsFrom (seedDay previous : Option Date)

structure Reading (F : Type) where
  status : Status
  reason : Option Reason
  basis : Basis
  seedTradeDate : Option Date
  price : Option F
  macd : Option (Macd F)
  kdj : Option (Kdj F)
  degraded : List String

/-- The inner `reading` of `realtime_indicators`. -/
def reading (status : Status) (reason : Option Reason) (macd : Option (Macd F)) (kdj : Option (Kdj F)) (basis : Basis)
    (price : Option F) : Reading F where
  status := status
  reason := reason
  basis := basis
  seedTradeDate :=
    match macd, kdj with
    | some macd, _ => macd.seedTradeDate
    | none, some kdj => kdj.seedTradeDate
    | none, none => none
  price := number price
  macd := macd
  kdj := kdj
  degraded := (if macd.isNone then ["macd"] else []) ++ (if kdj.isNone then ["kdj"] else [])

/-- The MACD half of a reading. -/
def macdOf : Option (Macd F) := advanceMacd (macdSeed row basis) price

/-- The KDJ half of a reading. -/
def kdjOf : Option (Kdj F) :=
  match kdjWindowBounds priorSessions sessionHigh sessionLow with
  | some bounds => advanceKdj (kdjSeed row basis) price (some bounds.1) (some bounds.2)
  | none => none

def realtimeIndicators (factorRow : Option (FactorRow F)) (price : Option F) (priorSessions : List (Bar F))
    (sessionHigh sessionLow : Option F) (basis : Basis) : Reading F :=
  match factorRow with
  | none => reading .seedUnavailable (some .noSeed) none none basis price
  | some row =>
      if (number price).isNone then reading .priceUnavailable (some .priceNotNumeric) none none basis price
      else
        let macd := macdOf row price basis
        let kdj := kdjOf row price priorSessions sessionHigh sessionLow basis
        if macd.isNone && kdj.isNone then reading .seedUnavailable (some .noUsableFactor) none none basis price
        else
          let seedDay := row.tradeDate
          let previous := priorSessions.getLast?.map Bar.tradingDate
          if previous = none ∨ seedDay ≠ previous then
            reading .seedStale (some (.seedIsFrom seedDay previous)) none none basis price
          else reading .completed none macd kdj basis price

/-! ## The computed seed -/

structure Prices (F : Type) where
  close : F
  high : F
  low : F

/-- The prices of bars that all have them. -/
def pricesOf (bars : List (Bar F)) : Option (List (Prices F)) :=
  bars.mapM (fun bar => do
    let close ← number bar.close
    let high ← number bar.high
    let low ← number bar.low
    return ⟨close, high, low⟩)

structure SeedState (F : Type) where
  emaFast : F
  emaSlow : F
  dea : F
  k : F
  d : F

variable (prices : List (Prices F)) (state : SeedState F) (index : ℕ) (close : F)

/-- What the loop makes of the averages at each bar but the first. -/
def averageBar : SeedState F :=
  if index = 0 then state
  else
    let emaFast := toward macdFastPeriods state.emaFast close
    let emaSlow := toward macdSlowPeriods state.emaSlow close
    { state with emaFast := emaFast, emaSlow := emaSlow, dea := toward macdSignalPeriods state.dea (emaFast - emaSlow) }

/-- What the loop makes of K and D. A flat window has no RSV. -/
def smoothBar : SeedState F :=
  match (prices.take (index + 1)).drop (index + 1 - kdjWindowSessions) with
  | [] => state
  | first :: rest =>
      let high := maxOf first.high (rest.map Prices.high)
      let low := minOf first.low (rest.map Prices.low)
      if Arithmetic.lt low high then
        let k := state.k + ((close - low) / (high - low) * ((100 : ℕ) : F) - state.k) / (kdjSmoothingPeriods : F)
        { state with k := k, d := state.d + (k - state.d) / (kdjSmoothingPeriods : F) }
      else state

def seedBar (entry : Prices F × ℕ) : SeedState F :=
  smoothBar prices (averageBar state entry.2 entry.1.close) entry.2 entry.1.close

def computedSeed (bars : List (Bar F)) (basis : Basis) : Option (FactorRow F) :=
  if basis ≠ .bfq ∨ bars.length < minSeedSessions then none
  else
    match pricesOf bars with
    | none => none
    | some [] => none
    | some (first :: rest) =>
        let prices := first :: rest
        let start : SeedState F := ⟨first.close, first.close, ((0 : ℕ) : F), ((50 : ℕ) : F), ((50 : ℕ) : F)⟩
        let state := prices.zipIdx.foldl (seedBar prices) start
        some
          { basis := basis
            tradeDate := bars.getLast?.map Bar.tradingDate
            expma12 := Arithmetic.round state.emaFast 6
            macdDif := Arithmetic.round (state.emaFast - state.emaSlow) 6
            macdDea := Arithmetic.round state.dea 6
            kdjK := Arithmetic.round state.k 6
            kdjD := Arithmetic.round state.d 6
            seedSource := "computed_from_canonical_bars"
            seedSessions := bars.length }

end Seeds

/-! ## The stored bars and the session's cache -/

section Session

variable {F : Type}

/-- A row of `canonical_bars_daily`. -/
structure StoredBar (F : Type) where
  symbol : String
  isSuspended : Bool
  availableAt : Timestamp
  bar : Bar F

def StoredBar.key (row : StoredBar F) : String × Date := (row.symbol, row.bar.tradingDate)

/-- The table once a bar has arrived: its primary key has the row as the upsert leaves it. -/
def storeBar (row : StoredBar F) (rows : List (StoredBar F)) : List (StoredBar F) :=
  if (Keyed.find StoredBar.key row.key rows).isSome then Keyed.update StoredBar.key row.key (fun _ => row) rows
  else rows ++ [row]

/-- The rows of one symbol that `daily_bars_by_symbol` reads. -/
def isRead (symbol : String) (before : Date) (knownAt : Option Timestamp) (row : StoredBar F) : Bool :=
  row.symbol == symbol && decide (row.bar.tradingDate < before) && !row.isSuspended &&
    knownAt.all (fun knownAt => decide (row.availableAt ≤ knownAt))

variable (symbols : List String) (rows : List (StoredBar F)) (beforeTradingDate : Date)
  (knownAt : Option Timestamp)

/-- One symbol's last unsuspended bars, oldest first. -/
def dailyBars (before : Date) (knownAt : Option Timestamp) (symbol : String) : List (Bar F) :=
  (((rows.filter (isRead symbol before knownAt)).map StoredBar.bar).insertionSort
    (fun bar other => bar.tradingDate ≤ other.tradingDate)).rtake seedHistorySessions

/-- `sorted({str(symbol) for symbol in symbols if str(symbol)})` -/
def requested : List String :=
  (symbols.filter (fun symbol => !symbol.isEmpty)).dedup.insertionSort (fun symbol other => textLe symbol.toList other.toList = true)

def dailyBarsBySymbol : List (String × List (Bar F)) :=
  (requested symbols).map (fun symbol => (symbol, dailyBars rows beforeTradingDate knownAt symbol))

/-- The table, and `_SESSION_BARS`: for each session, the bars of each symbol read for it. -/
structure World (F : Type) where
  rows : List (StoredBar F)
  sessionBars : List (Date × List (String × List (Bar F)))

/-- `_session_bars` of a read without `known_at`: the cache of the session once its missing symbols are read. -/
def cacheSession (world : World F) (tradingDate : Date) : List (String × List (Bar F)) :=
  let kept := world.sessionBars.filter (fun entry => entry.1 == tradingDate)
  let cached := (kept.lookup tradingDate).getD []
  Dict.update cached (dailyBarsBySymbol (ReadThrough.missing symbols cached) world.rows tradingDate none)

def sessionBars (symbols : List String) (world : World F) (tradingDate : Date) (knownAt : Option Timestamp) :
    List (String × List (Bar F)) × World F :=
  match knownAt with
  | some knownAt => (dailyBarsBySymbol symbols world.rows tradingDate (some knownAt), world)
  | none =>
      let cached := cacheSession symbols world tradingDate
      (symbols.map (fun symbol => (symbol, (cached.lookup symbol).getD [])), { world with sessionBars := [(tradingDate, cached)] })

/-- What a caller has of a symbol, as `float` reads it. -/
structure Quote (F : Type) where
  price : Option F
  sessionHigh : Option F
  sessionLow : Option F

structure SymbolReading (F : Type) extends Reading F where
  symbol : String
  tradingDate : Date

variable [Arithmetic F]

/-- The body of the loop of `realtime_indicators_by_symbol`. -/
def symbolReading (quotes : List (String × Quote F)) (tradingDate : Date) (basis : Basis) (symbol : String)
    (history : List (Bar F)) : SymbolReading F :=
  let quote := (quotes.lookup symbol).getD ⟨none, none, none⟩
  { realtimeIndicators (computedSeed history basis) quote.price (history.rtake (kdjWindowSessions - 1)) quote.sessionHigh
      quote.sessionLow basis with
    symbol := symbol
    tradingDate := tradingDate }

/-- `realtime_indicators_by_symbol`: the readings, and the world with the cache it leaves. -/
def realtimeIndicatorsBySymbol (quotes : List (String × Quote F)) (world : World F) (tradingDate : Date) (basis : String)
    (knownAt : Option Timestamp) : Except String (List (SymbolReading F)) × World F :=
  match requireBasis basis with
  | .error message => (.error message, world)
  | .ok basis =>
      let symbols := requested (quotes.map Prod.fst)
      if symbols.isEmpty then (.ok [], world)
      else
        let (bars, world) := sessionBars symbols world tradingDate knownAt
        (.ok (symbols.map (fun symbol => symbolReading quotes tradingDate basis symbol ((bars.lookup symbol).getD []))), world)

inductive Op (F : Type)
  /-- A bar arrives. -/
  | store (row : StoredBar F)
  /-- `realtime_indicators_by_symbol` is called. -/
  | read (quotes : List (String × Quote F)) (tradingDate : Date) (basis : String) (knownAt : Option Timestamp)

def step : Op F → World F → World F
  | .store row, world => { world with rows := storeBar row world.rows }
  | .read quotes tradingDate basis knownAt, world => (realtimeIndicatorsBySymbol quotes world tradingDate basis knownAt).2

end Session

end TradingHarness.Indicators
