import TradingHarness.Intraday.ExchangeTime
import TradingHarness.Library.Overlays

set_option autoImplicit false

/-! # The quotes of the watchlist

`intraday_quote_normalization`: the quote of the all-A snapshot, and what the watch sources lay over it. The figures of a row are as
`number` reads them; none where it reads no number. -/

namespace TradingHarness

open Rules (roundTo)

/-! ## Rows -/

/-- The fields the rules want of public flow. -/
inductive FlowField
  | volumeRatio
  | turnoverRate
  | mainNetInflow
deriving DecidableEq

structure AllARow where
  symbol : String
  name : Option String := none
  price : Option ℚ := none
  pctChange : Option ℚ := none
  turnover : Option ℚ := none
  volume : Option ℚ := none
  priceSource : Option String := none
  priceObservedAt : Option String := none
  rawAmount : Option ℚ := none

/-- `pctChange` is the row's own figure. -/
structure TencentRow where
  tsCode : String
  symbol : String := ""
  name : Option String := none
  price : Option ℚ := none
  preClose : Option ℚ := none
  pctChange : Option ℚ := none
  tradeTime : Option String := none
  cumulativeAmount : Option ℚ := none
  cumulativeVolumeLot : Option ℚ := none

structure SinaRow where
  tsCode : String
  symbol : String := ""
  name : Option String := none
  close : Option ℚ := none
  preClose : Option ℚ := none
  pctChange : Option ℚ := none
  tradeDate : Option String := none
  tradeTime : Option String := none

structure EastmoneyRow where
  tsCode : String
  name : Option String := none
  flow : FlowField → Option ℚ := fun _ => none
  mainNetInflowRatio : Option ℚ := none

/-- A licensed row. The volume is in lots of 100 shares. -/
structure LonghuRow where
  tsCode : String
  symbol : String := ""
  name : Option String := none
  price : Option ℚ := none
  preClose : Option ℚ := none
  pctChange : Option ℚ := none
  tradeDate : Option String := none
  tradeTime : Option String := none
  volume : Option ℚ := none
  amount : Option ℚ := none
  turnoverRate : Option ℚ := none
  volumeRatio : Option ℚ := none

def LonghuRow.flow (row : LonghuRow) : FlowField → Option ℚ
  | .volumeRatio => row.volumeRatio
  | .turnoverRate => row.turnoverRate
  | .mainNetInflow => none

/-! ## Quotes -/

/-- The sources that `flow_metric_sources` names. -/
inductive FlowLabel
  | longhuvipWatchQuote
  | fuyaoThsDerived
  | longhuvipVolumeDerived
  | tdxPublicDerived
  | unknownVolumeDerived
  | eastmoneyWatchFlow
  | unavailable
deriving DecidableEq

/-- A quote's `raw`: `amount` is the snapshot's own. -/
structure RawRows where
  amount : Option ℚ := none
  watchQuote : Option TencentRow := none
  sinaWatchQuote : Option SinaRow := none
  longhuWatchQuote : Option LonghuRow := none
  longhuWatchQuoteUnfresh : Option LonghuRow := none
  eastmoneyWatchFlow : Option EastmoneyRow := none

/-- A quote; a key that is missing is none. -/
structure WatchQuote where
  symbol : String
  name : Option String
  price : Option ℚ := none
  pctChange : Option ℚ := none
  priceSource : Option String := none
  priceObservedFromDepth : Option Bool := none
  priceObservedAt : Option String := none
  priceTradeDate : Option String := none
  priceTradeTime : Option String := none
  priceFreshness : Option Freshness := none
  turnover : Option ℚ := none
  volume : Option ℚ := none
  volumeUnit : Option String := none
  volumeSource : Option String := none
  amount : Option ℚ := none
  flow : FlowField → Option ℚ := fun _ => none
  mainNetInflowRatio : Option ℚ := none
  mainFlowPercentile : Option ℚ := none
  flowMetricSources : FlowField → Option FlowLabel := fun _ => none
  eastmoneyObserved : FlowField → Option ℚ := fun _ => none
  flowSnapshotScope : String := ""
  scanObservedAt : Option Timestamp := none
  raw : RawRows := {}

abbrev WatchQuotes := List (String × WatchQuote)

variable (entry : Option WatchQuote) (symbol : String) (name : Option String)

/-- `_SYMBOL` -/
def isSymbol : Bool :=
  let chars := symbol.toList
  chars.length == 9 && (chars.take 6).all Char.isDigit && [".SH", ".SZ", ".BJ"].contains (String.ofList (chars.drop 6))

/-- The price of a row that is not passed over. -/
def validPrice (price : Option ℚ) : Option ℚ := price.filter (fun price => isSymbol symbol && decide (0 < price))

/-- The change of the price against the row's previous close, or what stands for it where the row has none. -/
def pctAgainst (price : ℚ) (preClose otherwise : Option ℚ) : Option ℚ :=
  match preClose.filter (fun preClose => decide (0 < preClose)) with
  | some preClose => some (roundTo 5 ((price / preClose - 1) * 100))
  | none => otherwise

def mainAllASource : String := "fuyao_ths_all_a_snapshot"

/-- `str(text or otherwise)` -/
def textOr (text : Option String) (otherwise : String) : String :=
  match text with
  | some text => if text = "" then otherwise else text
  | none => otherwise

/-- `row.get("name") or existing.get("name")` -/
def nameOr (otherwise : Option String) : Option String := (name.filter (· ≠ "")).or otherwise

def upper (text : String) : String := text.map Char.toUpper

def quoteFromFuyao (row : AllARow) : Option WatchQuote :=
  (validPrice (upper row.symbol) row.price).map (fun price =>
    let source := textOr row.priceSource mainAllASource
    { symbol := upper row.symbol
      name := row.name
      price := some price
      pctChange := row.pctChange
      turnover := row.turnover
      volume := row.volume
      raw := { amount := row.rawAmount }
      priceSource := some source
      priceObservedFromDepth := some false
      priceObservedAt := row.priceObservedAt
      volumeSource := if source = mainAllASource then none else some source })

/-- The quotes of a snapshot, each under its symbol. -/
def quotesFromAllA (rows : List AllARow) : WatchQuotes :=
  Overlays.overlay (fun row => upper row.symbol) (fun _ row => quoteFromFuyao row) [] rows

/-- `dict(quotes.get(symbol) or {"symbol": symbol, "name": row.get("name"), "raw": {}})` -/
def existingQuote : WatchQuote :=
  entry.getD { symbol, name }

/-! ## What is laid over a quote -/

/-- One row of `merge_longhu_watch_quotes`. -/
def longhuQuote (row : LonghuRow) : Option WatchQuote :=
  (validPrice row.tsCode row.price).map (fun price =>
    let existing := existingQuote entry row.tsCode row.name
    let volumeLot := row.volume.filter (fun lots => decide (0 ≤ lots))
    { existing with
      name := nameOr row.name existing.name
      price := some price
      pctChange := pctAgainst price row.preClose row.pctChange
      priceSource := some "longhuvip_watch_quote"
      priceObservedFromDepth := some false
      priceTradeDate := row.tradeDate
      priceTradeTime := row.tradeTime
      volume := (volumeLot.map (· * 100)).or existing.volume
      volumeUnit := (volumeLot.map (fun _ => "shares")).or existing.volumeUnit
      volumeSource := (volumeLot.map (fun _ => "longhuvip_watch_quote")).or existing.volumeSource
      amount := row.amount.or existing.amount
      flow := fun field => (row.flow field).or (existing.flow field)
      flowMetricSources := fun field =>
        ((row.flow field).map (fun _ => FlowLabel.longhuvipWatchQuote)).or (existing.flowMetricSources field)
      raw := { existing.raw with longhuWatchQuote := some row } })

/-- One row of `merge_watch_quote_prices`. -/
def tencentQuote (row : TencentRow) : Option WatchQuote :=
  (validPrice row.tsCode row.price).map (fun price =>
    let existing := existingQuote entry row.tsCode row.name
    { existing with
      price := some price
      pctChange := pctAgainst price row.preClose existing.pctChange
      priceSource := some "tencent_batched_watch_quote"
      priceObservedFromDepth := some true
      priceTradeTime := row.tradeTime
      raw := { existing.raw with watchQuote := some row } })

/-- One row of `merge_sina_watch_quotes`: a quote that has a price is left as it is. -/
def sinaQuote (row : SinaRow) : Option WatchQuote :=
  if (entry.bind WatchQuote.price).isSome then none
  else
    (validPrice row.tsCode row.close).map (fun price =>
      let existing := existingQuote entry row.tsCode row.name
      { existing with
        price := some price
        pctChange := pctAgainst price row.preClose existing.pctChange
        priceSource := some "sina_batched_watch_quote"
        priceTradeDate := row.tradeDate
        priceTradeTime := row.tradeTime
        raw := { existing.raw with sinaWatchQuote := some row } })

/-- One row of `merge_eastmoney_watch_flows`. -/
def eastmoneyQuote (row : EastmoneyRow) : Option WatchQuote :=
  if isSymbol row.tsCode then
    let existing := existingQuote entry row.tsCode row.name
    some
      { existing with
        flow := fun field => (row.flow field).or (existing.flow field)
        mainNetInflowRatio := row.mainNetInflowRatio.or existing.mainNetInflowRatio
        mainFlowPercentile := none
        raw := { existing.raw with eastmoneyWatchFlow := some row } }
  else none

def mergeLonghuWatchQuotes (quotes : WatchQuotes) (rows : List LonghuRow) : WatchQuotes :=
  Overlays.overlay LonghuRow.tsCode longhuQuote quotes rows

def mergeWatchQuotePrices (quotes : WatchQuotes) (rows : List TencentRow) : WatchQuotes :=
  Overlays.overlay TencentRow.tsCode tencentQuote quotes rows

def mergeSinaWatchQuotes (quotes : WatchQuotes) (rows : List SinaRow) : WatchQuotes :=
  Overlays.overlay SinaRow.tsCode sinaQuote quotes rows

def mergeEastmoneyWatchFlows (quotes : WatchQuotes) (rows : List EastmoneyRow) : WatchQuotes :=
  Overlays.overlay EastmoneyRow.tsCode eastmoneyQuote quotes rows

end TradingHarness
