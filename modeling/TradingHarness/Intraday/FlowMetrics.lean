import TradingHarness.Intraday.WatchQuotes

set_option autoImplicit false

/-! # Derived flow metrics

`intraday_derived_flow_metrics`: volume ratio and turnover rate from a quote's volume and the local reference rows, laid over what the
public endpoint returned, with a label for the source of each field. -/

namespace TradingHarness

open Rules (roundTo)

def sessionMinutes : ℕ := 240

def minElapsedMinutes : ℕ := 3

/-- What a rule may be fed: `RULE_USABLE_FLOW_LABELS`, where the binding of the filling source is decision eligible or not. -/
def ruleUsable (tdxPublicEligible : Bool) : FlowLabel → Bool
  | .fuyaoThsDerived => true
  | .tdxPublicDerived => tdxPublicEligible
  | _ => false

def derivedFlowLabel (volumeSource : Option String) : FlowLabel :=
  match volumeSource.filter (· ≠ "") with
  | none => .fuyaoThsDerived
  | some source =>
      if source = "fuyao_ths_all_a_snapshot" then .fuyaoThsDerived
      else if source = "longhuvip_watch_quote" then .longhuvipVolumeDerived
      else if source = "tdx_public_all_a_snapshot" then .tdxPublicDerived
      else .unknownVolumeDerived

/-- The time of day in Shanghai, in microseconds. -/
def shanghaiClock (moment : Timestamp) : ℤ := (moment + 8 * 3600 * 1000000) % (24 * 3600 * 1000000)

def sessionElapsedMinutes (observedAt : Timestamp) : ℤ :=
  let minute : ℤ := 60 * 1000000
  let clock := shanghaiClock observedAt
  let part := fun (opens closes : ℤ) => if opens * minute < clock then min (clock / minute) closes - opens else 0
  min (part 570 690 + part 780 900) sessionMinutes

/-- A reference row: the float shares and the trailing mean of the daily volume, in shares. -/
structure FlowReference where
  floatShares : Option ℚ := none
  meanDailyVolumeShares : Option ℚ := none

/-- The derived fields of one symbol. -/
abbrev FlowMetrics := FlowField → Option ℚ

def positive (figure : Option ℚ) : Option ℚ := figure.filter (fun figure => decide (0 < figure))

/-- What is derived for a volume and a reference row. -/
def metricsOf (elapsed : ℤ) (volume : Option ℚ) (entry : FlowReference) : FlowMetrics := fun field =>
  (positive volume).bind (fun volumeShares =>
    match field with
    | .turnoverRate => (positive entry.floatShares).map (fun floatShares => roundTo 5 (volumeShares / floatShares * 100))
    | .volumeRatio =>
        if (minElapsedMinutes : ℤ) ≤ elapsed then
          (positive entry.meanDailyVolumeShares).map (fun meanDailyVolume =>
            roundTo 5 ((volumeShares / elapsed) / (meanDailyVolume / sessionMinutes)))
        else none
    | .mainNetInflow => none)

variable (quotes : WatchQuotes) (reference : List (String × FlowReference))

/-- What is derived for a symbol's volume; nothing without a reference row. -/
def symbolMetrics (observedAt : Timestamp) (symbol : String) (volume : Option ℚ) : FlowMetrics :=
  match reference.lookup symbol with
  | some entry => metricsOf (sessionElapsedMinutes observedAt) volume entry
  | none => fun _ => none

/-- `derive_watch_flow_metrics`: a symbol for which nothing is derived has no field. -/
def deriveWatchFlowMetrics (observedAt : Timestamp) :
    List (String × FlowMetrics) :=
  Overlays.mapEntries (fun symbol quote => symbolMetrics reference observedAt symbol quote.volume) quotes

variable (quote : WatchQuote) (metrics : FlowMetrics) (field : FlowField)

/-- The licensed row has brought the field. -/
def nativeField : Bool :=
  decide (quote.flowMetricSources field = some .longhuvipWatchQuote) && (quote.flow field).isSome

/-- The label of a field. -/
def flowLabelOf : FlowLabel :=
  if field ≠ .mainNetInflow ∧ nativeField quote field then .longhuvipWatchQuote
  else if field ≠ .mainNetInflow ∧ (metrics field).isSome then derivedFlowLabel quote.volumeSource
  else if (quote.flow field).isSome then .eastmoneyWatchFlow
  else .unavailable

/-- One quote of `apply_derived_watch_flow_metrics`. -/
def withDerivedMetrics : WatchQuote :=
  { quote with
    flow := fun field => if nativeField quote field then quote.flow field else (metrics field).or (quote.flow field)
    eastmoneyObserved := fun field =>
      if ¬ nativeField quote field ∧ (metrics field).isSome then quote.flow field else quote.eastmoneyObserved field
    flowMetricSources := fun field => some (flowLabelOf quote metrics field) }

def applyDerivedWatchFlowMetrics (derived : List (String × FlowMetrics)) : WatchQuotes :=
  Overlays.mapEntries (fun symbol quote => withDerivedMetrics quote ((derived.lookup symbol).getD (fun _ => none))) quotes

/-- **What the derivation makes of a symbol's quote.** -/
theorem lookup_applyDerived (observedAt : Timestamp)
    (symbol : String) :
    (applyDerivedWatchFlowMetrics quotes (deriveWatchFlowMetrics quotes reference observedAt)).lookup symbol
      = (quotes.lookup symbol).map (fun quote =>
          withDerivedMetrics quote (symbolMetrics reference observedAt symbol quote.volume)) := by
  unfold applyDerivedWatchFlowMetrics deriveWatchFlowMetrics
  rw [Overlays.lookup_mapEntries, Overlays.lookup_mapEntries]
  cases quotes.lookup symbol <;> rfl

end TradingHarness
