import TradingHarness.Intraday.FlowMetrics

set_option autoImplicit false

/-! # The signal rules of a scan

`intraday_signal_rules.signal_rules` with the assessment of `intraday_breakout`, and what `scan_features` reads of a quote for the surge
of a teacher's plan. The evidence that a signal carries is left out. -/

namespace TradingHarness.SignalRules

open Rules (roundTo)

/-! ## What the rules are given -/

/-- What is read of a watch. The flags of its research setups are `enabled`; the thresholds are those of `volume_anomaly_thresholds`. -/
structure Watch where
  symbol : String
  entryPrice : Option ℚ := none
  hardStop : Option ℚ := none
  alertOnEntry : Bool := false
  alertOnExit : Bool := false
  surgeStrategy : Bool := false
  reversalResearch : Bool := false
  upsideResearch : Bool := false
  volumeRatioP95 : Option ℚ := none
  turnoverRateP90 : Option ℚ := none

/-- The features of a minute; `window` is `eac_window` of its time, and the last two fields are of its volume profile. -/
structure MinuteFeatures where
  return1m : Option ℚ := none
  return3m : Option ℚ := none
  return5m : Option ℚ := none
  volumeMultiple : Option ℚ := none
  aboveVwap : Option ℚ := none
  vwap : Option ℚ := none
  breakoutAbovePriorHigh : Option ℚ := none
  sessionRangePosition : Option ℚ := none
  recoveryFromSessionLow : Option ℚ := none
  sessionLowPrice : Option ℚ := none
  window : String := "unknown"
  profileReady : Bool := false
  volumeSurprise : Option ℚ := none

structure PeerContext where
  confirmingPeerCount : ℤ := 0
  availablePeerCount : ℤ := 0
  confirmingBreadth : ℚ := 0

structure DailyFactors where
  bullish : Bool := false
  baseStructureReady : Bool := false

structure PreviousQuote where
  price : Option ℚ := none
  pctChange : Option ℚ := none

/-- The keyword parameters. A session window is two times of the day. -/
structure EntryOptions where
  openingGapWindow : Bool := false
  entryMinPct : ℚ := 1
  entryMaxPct : ℚ := 13 / 2
  entryRequiresMinuteConfirmation : Bool := false
  entrySessionWindows : Option (List (ℤ × ℤ)) := none

inductive SignalType
  | dataIssue
  | exit
  | watch
  | entry
  | reduce

inductive Severity
  | info
  | warning
  | critical

structure Signal where
  key : String
  type : SignalType
  severity : Severity
  score : ℚ
  hard : Bool := false

/-! ## The breakout assessment -/

inductive UpsideStatus
  | insufficientMinuteData
  | candidate
  | attentionOnly
  | notConfirmed
deriving DecidableEq

structure UpsideAssessment where
  status : UpsideStatus
  score : ℤ

/-- The value is there and between the bounds. -/
def within (low high : ℚ) (value : Option ℚ) : Bool := value.any (fun value => decide (low ≤ value ∧ value ≤ high))

def atLeast (low : ℚ) (value : Option ℚ) : Bool := value.any (fun value => decide (low ≤ value))

def atMost (high : ℚ) (value : Option ℚ) : Bool := value.any (fun value => decide (value ≤ high))

def upsideResearchAssessment (quote : WatchQuote) (dailyFactors : DailyFactors) (minuteFeatures : Option MinuteFeatures)
    (peers : PeerContext) : UpsideAssessment :=
  match minuteFeatures with
  | none => { status := .insufficientMinuteData, score := 0 }
  | some minute =>
      let entryWindow := within 1 (13 / 2) quote.pctChange
      let shortAcceleration := within (6 / 5) (7 / 2) minute.return3m && atLeast (1 / 4) minute.return1m
      let relativeVolume := atLeast (5 / 2) minute.volumeMultiple
      let volumeNotExtreme := atMost 20 minute.volumeMultiple
      let volumeSurprise := atLeast 2 minute.volumeSurprise
      let volumeConfirmation := minute.profileReady && volumeSurprise
      let aboveVwap := within (1 / 5) (11 / 2) minute.aboveVwap
      let newIntradayHigh := atLeast 0 minute.breakoutAbovePriorHigh
      let upperRange := atLeast (17 / 20) minute.sessionRangePosition
      let peerConfirmation := decide (2 ≤ peers.availablePeerCount ∧ 2 ≤ peers.confirmingPeerCount ∧ 1 / 2 ≤ peers.confirmingBreadth)
      let flowOrPeers := atLeast (4 / 5) quote.mainFlowPercentile || peerConfirmation
      let dailyTrendOrBase := dailyFactors.bullish || dailyFactors.baseStructureReady
      let freshSessionWindow := decide (minute.window = "morning" ∨ minute.window = "afternoon")
      let weighed := (if entryWindow then 8 else 0) + (if shortAcceleration then 20 else 0) + (if relativeVolume then 8 else 0) +
        (if volumeSurprise then 10 else 0) + (if aboveVwap then 14 else 0) + (if newIntradayHigh then 14 else 0) +
        (if upperRange then 8 else 0) + (if flowOrPeers then 14 else 0) + (if dailyTrendOrBase then 4 else 0) +
        (if freshSessionWindow then 4 else 0)
      let volumeOutlier := relativeVolume && !volumeNotExtreme
      let score : ℤ := if volumeOutlier then max 0 (weighed - 12) else weighed
      let core := entryWindow && shortAcceleration && relativeVolume && aboveVwap && newIntradayHigh && flowOrPeers
      { status :=
          if decide (76 ≤ score) && core && volumeConfirmation && freshSessionWindow && !volumeOutlier then .candidate
          else if core && (volumeOutlier || !freshSessionWindow || !minute.profileReady) then .attentionOnly
          else .notConfirmed
        score }

/-! ## What the rules read of a quote -/

def publicFlowFields : List FlowField := [.volumeRatio, .turnoverRate, .mainNetInflow]

variable (tdxPublicEligible : Bool) (watch : Watch) (quote : Option WatchQuote)
  (previousQuote : Option PreviousQuote) (dailyFactors : DailyFactors)
  (minuteFeatures : Option MinuteFeatures) (peers : PeerContext) (modelVersion : String)

/-- The fields that are for research only: those with labels that feed no rule; without any label, all of a bounded basket. -/
def researchOnly (quote : WatchQuote) (field : FlowField) : Bool :=
  if publicFlowFields.any (fun other => (quote.flowMetricSources other).isSome) then
    !(quote.flowMetricSources field).any (ruleUsable tdxPublicEligible)
  else decide (quote.flowSnapshotScope = "explicit_watchlist_only")

/-- `field in missing_public_fields` -/
def isMissing (quote : WatchQuote) (field : FlowField) : Bool :=
  (quote.flow field).isNone || researchOnly tdxPublicEligible quote field

/-- A field's value for the rules: zero where it is missing. -/
def ruleValue (quote : WatchQuote) (field : FlowField) : ℚ :=
  if isMissing tdxPublicEligible quote field then 0 else (quote.flow field).getD 0

/-- `EXCHANGE_TIMESTAMPED_QUOTE_LABELS` -/
def exchangeTimestampedLabels : List String := ["tencent_batched_watch_quote", "longhuvip_watch_quote"]

/-- What `signal_rules` has read of a quote before its first rule. -/
structure RuleInputs where
  price : ℚ
  pctChange : ℚ
  volumeRatio : ℚ
  turnoverRate : ℚ
  mainNetInflow : ℚ
  mainFlowPercentile : Option ℚ
  anyMissing : Bool
  timestamped : Bool
  fresh : Bool
  scanObservedAt : Option Timestamp
  upside : UpsideAssessment

def ruleInputs (quote : WatchQuote) (price : ℚ) : RuleInputs where
  price
  pctChange := quote.pctChange.getD 0
  volumeRatio := ruleValue tdxPublicEligible quote .volumeRatio
  turnoverRate := ruleValue tdxPublicEligible quote .turnoverRate
  mainNetInflow := ruleValue tdxPublicEligible quote .mainNetInflow
  mainFlowPercentile := quote.mainFlowPercentile
  anyMissing := publicFlowFields.any (isMissing tdxPublicEligible quote)
  timestamped := exchangeTimestampedLabels.contains (quote.priceSource.getD "")
  fresh := decide (quote.priceFreshness.map Freshness.status = some .fresh)
  scanObservedAt := quote.scanObservedAt
  upside := upsideResearchAssessment quote dailyFactors minuteFeatures peers

/-! ## The rules -/

/-- The signal is added where the rule fires. -/
def also (fires : Bool) (signal : Signal) (signals : List Signal) : List Signal := if fires then signals ++ [signal] else signals

/-- The signal is added where the rule fires and no signal is there: `and not signals`. -/
def alone (fires : Bool) (signal : Signal) (signals : List Signal) : List Signal := also (fires && signals.isEmpty) signal signals

/-- The signal of a symbol without a price. -/
def dataIssue : Signal where
  key := watch.symbol ++ ":data_issue:" ++ modelVersion
  type := .dataIssue
  severity := .warning
  score := 0

/-- The rules for the inputs read of a quote; none where the previous close is compared with a price that is not there, which raises. -/
def firedSignals (inputs : RuleInputs) (previousQuote : Option PreviousQuote) (minuteFeatures : Option MinuteFeatures)
    (peers : PeerContext) (modelVersion : String) (options : EntryOptions) : Option (List Signal) := do
  let symbol := watch.symbol
  let price := inputs.price
  let pctChange := inputs.pctChange
  let percentile := inputs.mainFlowPercentile
  let previousPrice := previousQuote.bind PreviousQuote.price
  let holding := watch.entryPrice.isSome
  let entering := !holding && watch.alertOnEntry
  let minute := minuteFeatures.getD {}
  let multiple := minute.volumeMultiple.getD 0
  let recovery := minute.recoveryFromSessionLow.getD 0
  let twoPeers := decide (2 ≤ peers.availablePeerCount ∧ 2 ≤ peers.confirmingPeerCount ∧ 33 / 50 ≤ peers.confirmingBreadth)
  let moves := decide (1 ≤ pctChange ∧ pctChange ≤ 13 / 2)
  let hardStop := holding && watch.alertOnExit && watch.hardStop.any (fun stop => decide (price ≤ stop))
  let signals := also hardStop
    { key := symbol ++ ":exit:hard_stop", type := .exit, severity := .critical, score := 100, hard := true } []
  let openingGapWatch := options.openingGapWindow && entering && decide (3 ≤ pctChange ∧ pctChange ≤ 13 / 2) && inputs.timestamped &&
    inputs.fresh
  let signals := alone openingGapWatch
    { key := symbol ++ ":watch:opening_gap_continuation_v1", type := .watch, severity := .warning
      score := min 80 (roundTo 2 (42 + pctChange * 6)) } signals
  let burst := atLeast (3 / 4) minute.return1m && within (3 / 2) (9 / 2) minute.return3m && atLeast 3 minute.volumeMultiple
  let sectorSurge := watch.surgeStrategy && entering && moves && burst && within 0 (11 / 2) minute.aboveVwap && twoPeers
  let flowBonus := if atLeast (4 / 5) percentile then 5 else 0
  let signals := alone sectorSurge
    { key := symbol ++ ":entry:sector_surge_v1", type := .entry, severity := .warning
      score := min 95 (roundTo 2 (65 + min multiple 8 * 2 + peers.confirmingBreadth * 10 + flowBonus)) } signals
  let impliedPreClose := if 0 < 1 + pctChange / 100 then some (price / (1 + pctChange / 100)) else none
  let impliedPositive := impliedPreClose.filter (fun close => decide (0 < close))
  let sessionLowPct := minute.sessionLowPrice.bind (fun low => impliedPositive.map (fun close => (low / close - 1) * 100))
  let previousPctChange := (previousQuote.bind PreviousQuote.pctChange).or
    (previousPrice.bind (fun previous => impliedPositive.map (fun close => (previous / close - 1) * 100)))
  let confirmed := atLeast (9 / 10) percentile || twoPeers
  let reversal := watch.reversalResearch && entering
  let deepLow := reversal && atMost (-17 / 2) sessionLowPct
  let deepReversalImpulse := deepLow && decide (-8 ≤ pctChange ∧ pctChange ≤ 1 / 2) && atLeast 3 minute.recoveryFromSessionLow &&
    atLeast (6 / 5) minute.return3m && atLeast (5 / 2) minute.volumeMultiple && atLeast 0 minute.aboveVwap && confirmed
  let signals := alone deepReversalImpulse
    { key := symbol ++ ":watch:deep_reversal_impulse_v1", type := .watch, severity := .warning
      score := min 88 (roundTo 2 (52 + min multiple 8 * 3 + min recovery 12 * (3 / 2))) } signals
  let accepting := deepLow && decide (0 ≤ pctChange ∧ pctChange ≤ 13 / 2) && atLeast 9 minute.recoveryFromSessionLow &&
    atLeast (1 / 2) minute.return3m && atLeast 0 minute.aboveVwap && confirmed
  let reclaimed ←
    if accepting && previousPctChange.any (fun previous => decide (1 / 2 < previous)) then
      previousPrice.map (fun previous => decide (previous ≤ price))
    else some accepting
  let signals := also reclaimed
    { key := symbol ++ ":watch:deep_reversal_previous_close_acceptance_v1", type := .watch, severity := .warning
      score := min 92 (roundTo 2 (62 + min recovery 20 + max 0 (minute.return3m.getD 0) * 2)) } signals
  let greenReclaim := reversal && decide (1 / 2 ≤ pctChange ∧ pctChange ≤ 13 / 2) && within (3 / 2) (9 / 2) minute.return3m &&
    atLeast 3 minute.volumeMultiple && within 0 6 minute.aboveVwap && atLeast 3 minute.recoveryFromSessionLow &&
    ((atMost 0 previousPctChange && decide (0 < pctChange)) || atLeast 4 minute.recoveryFromSessionLow) && confirmed
  let signals := alone greenReclaim
    { key := symbol ++ ":watch:green_reclaim_research_v1", type := .watch, severity := .info
      score := min 88 (roundTo 2 (48 + min multiple 8 * 3 + min recovery 12 * (3 / 2))) } signals
  let attentionOnly := decide (inputs.upside.status = .attentionOnly)
  let upsideBreakout := watch.upsideResearch && entering && (attentionOnly || decide (inputs.upside.status = .candidate))
  let signals := alone upsideBreakout
    { key := symbol ++ ":watch:upside_breakout_eac_v3", type := .watch, severity := if attentionOnly then .warning else .info
      score := inputs.upside.score } signals
  let leaderBurst := watch.surgeStrategy && entering && decide (1 / 2 ≤ pctChange ∧ pctChange ≤ 5) && atLeast (4 / 5) minute.return1m &&
    within (-1 / 2) 3 minute.return3m && atLeast 4 minute.volumeMultiple && within 0 (9 / 2) minute.aboveVwap &&
    decide (peers.confirmingPeerCount < 2)
  let signals := alone leaderBurst
    { key := symbol ++ ":watch:leader_burst_v1", type := .watch, severity := .info
      score := min 85 (roundTo 2 (55 + min multiple 8 * 2 + max 0 (minute.return1m.getD 0) * 4)) } signals
  let heavy := decide (3 / 2 ≤ inputs.volumeRatio)
  let signals := alone (holding && watch.alertOnExit && atMost (1 / 100) percentile && heavy)
    { key := symbol ++ ":reduce:extreme_flow_sell", type := .reduce, severity := .warning, score := 85 } signals
  let signals := alone (atLeast (99 / 100) percentile && heavy)
    { key := symbol ++ ":watch:extreme_flow_buy", type := .watch, severity := .warning, score := 80 } signals
  let signals := alone (decide (6 ≤ pctChange) && decide (12 ≤ inputs.turnoverRate) && atLeast (19 / 20) percentile)
    { key := symbol ++ ":watch:price_extension", type := .watch, severity := .warning
      score := min 90 (roundTo 2 (45 + pctChange * 4 + inputs.turnoverRate)) } signals
  let rising := previousPrice.any (fun previous => decide (previous < price))
  let minuteBreadthEntry := inputs.anyMissing && entering && moves && rising && burst && within 0 (11 / 2) minute.aboveVwap && twoPeers
  let signals := alone minuteBreadthEntry
    { key := symbol ++ ":entry:minute_breadth_v1", type := .entry, severity := .info
      score := min 92 (roundTo 2 (52 + min multiple 8 * 3 + peers.confirmingBreadth * 12)) } signals
  let entrySessionOk :=
    match options.entrySessionWindows with
    | none => true
    | some windows => inputs.scanObservedAt.any (fun moment =>
        windows.any (fun window => decide (window.1 ≤ shanghaiClock moment ∧ shanghaiClock moment < window.2)))
  let entryMinuteConfirmed := !options.entryRequiresMinuteConfirmation || (atLeast 3 minute.volumeMultiple && atLeast 0 minute.aboveVwap)
  let entrySetup := !inputs.anyMissing && entering && decide (options.entryMinPct ≤ pctChange ∧ pctChange ≤ options.entryMaxPct) &&
    decide (9 / 5 ≤ inputs.volumeRatio) && decide (2 ≤ inputs.turnoverRate) && decide (0 < inputs.mainNetInflow) && rising &&
    entrySessionOk && entryMinuteConfirmed
  let signals := also entrySetup
    { key := symbol ++ ":entry:" ++ modelVersion, type := .entry, severity := .info
      score := min 95 (roundTo 2 (40 + inputs.volumeRatio * 10 + inputs.turnoverRate * 2)) } signals
  let adverse := watch.alertOnExit && watch.entryPrice.any (fun entry => decide (price ≤ entry * (97 / 100))) && heavy &&
    decide (inputs.mainNetInflow < 0)
  let signals := alone adverse
    { key := symbol ++ ":reduce:" ++ modelVersion, type := .reduce, severity := .warning, score := 70 } signals
  let volumeRatioGate := max (5 / 2) (watch.volumeRatioP95.getD 0)
  let turnoverRateGate := max 5 (watch.turnoverRateP90.getD 0)
  let signals := alone (decide (volumeRatioGate ≤ inputs.volumeRatio) && decide (turnoverRateGate ≤ inputs.turnoverRate))
    { key := symbol ++ ":watch:volume_anomaly", type := .watch, severity := .warning
      score := min 90 (roundTo 2 (30 + inputs.volumeRatio * 10 + inputs.turnoverRate * 2)) } signals
  return signals

def signalRules (options : EntryOptions) : Option (List Signal) :=
  match quote.bind (fun quote => quote.price.map (ruleInputs tdxPublicEligible dailyFactors minuteFeatures peers quote)) with
  | none => some [dataIssue watch modelVersion]
  | some inputs => firedSignals watch inputs previousQuote minuteFeatures peers modelVersion options

/-! ## The surge inputs of a teacher's plan -/

/-- What is read of the snapshot tape. -/
structure SnapshotTape where
  minuteVolumeMultiple : Option ℚ := none
  return5m : Option ℚ := none

structure ScanDefaults where
  minuteVolumeMultipleMin : ℚ
  volRatioMin : ℚ

/-- `_pick`: the first figure above zero. -/
def pick (candidates : List (Option ℚ)) : Option ℚ := (candidates.filterMap id).find? (fun figure => decide (0 < figure))

section Scan

variable (quote : WatchQuote)

def scanAmount : Option ℚ :=
  pick [quote.amount, quote.raw.longhuWatchQuote.bind LonghuRow.amount, quote.raw.watchQuote.bind TencentRow.cumulativeAmount,
    quote.raw.amount, quote.raw.longhuWatchQuoteUnfresh.bind LonghuRow.amount]

def scanVolumeLot : Option ℚ :=
  pick [quote.raw.longhuWatchQuote.bind LonghuRow.volume, quote.raw.watchQuote.bind TencentRow.cumulativeVolumeLot,
    quote.raw.longhuWatchQuoteUnfresh.bind LonghuRow.volume, quote.volume.map (· / 100)]

def scanVwap (minute : MinuteFeatures) : Option ℚ :=
  pick [minute.vwap, (scanAmount quote).bind (fun amount => (scanVolumeLot quote).map (fun lots => amount / (lots * 100)))]

def scanVolumeRatio : Option ℚ := pick [quote.flow .volumeRatio, quote.raw.longhuWatchQuoteUnfresh.bind LonghuRow.volumeRatio]

def scanTurnover : Option ℚ := pick [quote.flow .turnoverRate, quote.raw.longhuWatchQuoteUnfresh.bind LonghuRow.turnoverRate]

end Scan

/-- The volume is surging; none where nothing says so or not. -/
def surgeOf (price : ℚ) (volumeRatio vwap : Option ℚ) (minute : MinuteFeatures) (tape : SnapshotTape) (defaults : ScanDefaults) :
    Option Bool :=
  match minute.volumeMultiple.or tape.minuteVolumeMultiple, volumeRatio with
  | some multiple, _ =>
      some (decide (defaults.minuteVolumeMultipleMin ≤ multiple) ||
        (decide (defaults.volRatioMin ≤ volumeRatio.getD 0) && decide (0 < (minute.return5m.or tape.return5m).getD 0)))
  | none, some ratio => some (decide (defaults.volRatioMin ≤ ratio) && vwap.all (fun vwap => decide (vwap ≤ price)))
  | none, none => none

structure SurgeInputs where
  surge : Option Bool
  volumeRatio : Option ℚ
  turnoverPct : Option ℚ
deriving DecidableEq

/-- What `scan_features` gives the playbooks of the surge; none without a price, which raises. -/
def surgeInputs (quote : WatchQuote) (minuteFeatures : Option MinuteFeatures) (tape : SnapshotTape) (defaults : ScanDefaults) :
    Option SurgeInputs :=
  quote.price.map (fun price =>
    let minute := minuteFeatures.getD {}
    { surge := surgeOf price (scanVolumeRatio quote) (scanVwap quote minute) minute tape defaults
      volumeRatio := scanVolumeRatio quote
      turnoverPct := scanTurnover quote })

end TradingHarness.SignalRules
