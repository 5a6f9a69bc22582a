import TradingHarness.Intraday.FlowMetrics

set_option autoImplicit false

/-! # The capture of the watch quotes

`capture_watch_quotes`, for the answers of its sources, with `fresh_price_rows`. The annotations of flow are left out: they write no
field of the price. -/

namespace TradingHarness

/-! ## Fresh rows -/

/-- `str(row.get("ts_code") or row.get("symbol") or "")` -/
def codeOr (tsCode symbol : String) : String := if tsCode = "" then symbol else tsCode

section Fresh

variable {ρ : Type} (symbolOf : ρ → String) (merge : WatchQuotes → List ρ → WatchQuotes)

/-- The status of a row's own quote; none for an invalid price. -/
def rowStatus (observedAt : Timestamp) (maxAgeSeconds : ℚ) (row : ρ) : Option TimeStatus :=
  ((merge [] [row]).lookup (symbolOf row)).map (fun quote =>
    (exchangeTimeStatus quote.priceTradeTime quote.priceTradeDate observedAt maxAgeSeconds).status)

/-- The row is asked for, and its own quote is fresh. -/
def acceptsRow (symbols : List String) (observedAt : Timestamp) (maxAgeSeconds : ℚ) (row : ρ) : Bool :=
  symbols.contains (symbolOf row) && decide (rowStatus symbolOf merge observedAt maxAgeSeconds row = some .fresh)

/-- `fresh_price_rows`: the rows accepted, and the status of each symbol rejected. -/
def freshPriceRows (rows : List ρ) (symbols : List String) (observedAt : Timestamp) (maxAgeSeconds : ℚ) :
    List ρ × List (String × Option TimeStatus) :=
  let status := rowStatus symbolOf merge observedAt maxAgeSeconds
  (rows.filter (acceptsRow symbolOf merge symbols observedAt maxAgeSeconds),
    Overlays.overlay symbolOf
      (fun _ row => if symbols.contains (symbolOf row) ∧ status row ≠ some .fresh then some (status row) else none) [] rows)

end Fresh

def TencentRow.wantedSymbol (row : TencentRow) : String := upper (codeOr row.tsCode row.symbol)

def SinaRow.wantedSymbol (row : SinaRow) : String := upper (codeOr row.tsCode row.symbol)

def LonghuRow.wantedSymbol (row : LonghuRow) : String := upper (codeOr row.tsCode row.symbol)

/-! ## The capture -/

/-- What the sources answer. The licensed source may be off, late or out of order. -/
structure WatchAnswers where
  allA : List AllARow
  tencent : List TencentRow
  sina : List SinaRow
  eastmoney : List EastmoneyRow
  licensed : Option (List LonghuRow)
  reference : List (String × FlowReference)

/-- The moments at which rows are evaluated: as the scan begins, after the public answers, and after the licensed one. -/
structure CaptureTimes where
  observedAt : Timestamp
  evaluatedAt : Timestamp
  licensedAt : Timestamp
  observed_le : observedAt ≤ evaluatedAt
  evaluated_le : evaluatedAt ≤ licensedAt

section Capture

variable (symbols : List String) (answers : WatchAnswers) (times : CaptureTimes) (slo : ℚ)

/-- The symbols for which Sina is asked: `missing_public`. -/
def missingPublic : List String :=
  let acceptedPublic :=
    (freshPriceRows TencentRow.wantedSymbol mergeWatchQuotePrices answers.tencent symbols times.observedAt slo).1
  symbols.filter (fun symbol => !(acceptedPublic.map (fun row => codeOr row.tsCode row.symbol)).contains symbol)

/-- The price goes from the quotes of the rows. -/
def withoutPrices (quotes : WatchQuotes) (rows : List SinaRow) : WatchQuotes :=
  Overlays.overlay (fun row => codeOr row.tsCode row.symbol)
    (fun entry _ => entry.map (fun quote => { quote with price := none })) quotes rows

/-- The quotes once the public rows are merged. -/
def publicQuotes : WatchQuotes :=
  let quotes := mergeEastmoneyWatchFlows (quotesFromAllA answers.allA) answers.eastmoney
  let missing := missingPublic symbols answers times slo
  let sinaRows := if missing.isEmpty then [] else answers.sina
  let acceptedPublic :=
    (freshPriceRows TencentRow.wantedSymbol mergeWatchQuotePrices answers.tencent symbols times.evaluatedAt slo).1
  let acceptedSina := (freshPriceRows SinaRow.wantedSymbol mergeSinaWatchQuotes sinaRows missing times.evaluatedAt slo).1
  mergeSinaWatchQuotes (withoutPrices (mergeWatchQuotePrices quotes acceptedPublic) acceptedSina) acceptedSina

/-- A licensed row that is not accepted is kept beside the chosen price. -/
def keepUnfresh (accepted : List LonghuRow) (quotes : WatchQuotes) (rows : List LonghuRow) : WatchQuotes :=
  Overlays.overlay LonghuRow.wantedSymbol
    (fun entry row =>
      if (accepted.map LonghuRow.wantedSymbol).contains row.wantedSymbol then none
      else entry.map (fun quote => { quote with raw := { quote.raw with longhuWatchQuoteUnfresh := some row } })) quotes rows

/-- The quotes once the licensed rows, if any, are merged. -/
def licensedQuotes (quotes : WatchQuotes) : WatchQuotes :=
  match answers.licensed with
  | none => quotes
  | some rows =>
      let accepted := (freshPriceRows LonghuRow.wantedSymbol mergeLonghuWatchQuotes rows symbols times.licensedAt slo).1
      keepUnfresh accepted (mergeLonghuWatchQuotes quotes accepted) rows

/-- `evaluated_at`, as it stands in the end. -/
def lastEvaluatedAt : Timestamp := if answers.licensed.isSome then times.licensedAt else times.evaluatedAt

/-- The quotes that `capture_watch_quotes` returns. -/
def captureWatchQuotes : WatchQuotes :=
  let quotes := licensedQuotes symbols answers times slo (publicQuotes symbols answers times slo)
  let quotes := applyDerivedWatchFlowMetrics quotes (deriveWatchFlowMetrics quotes answers.reference times.observedAt)
  Overlays.mapEntries
    (fun _ quote =>
      { quote with
        priceFreshness :=
          some (exchangeTimeStatus quote.priceTradeTime quote.priceTradeDate (lastEvaluatedAt answers times) slo) })
    quotes

end Capture

end TradingHarness
