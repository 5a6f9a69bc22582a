import TradingHarness.Intraday.SignalRules

set_option autoImplicit false

/-! # What the bounded basket decides

The answer of the public flow endpoint is for research only. Two answers to the same scan should give the same signals, and the same
surge inputs to the teacher's plans. -/

namespace TradingHarness.SignalRules

/-! ## The scan -/

/-- What a scan has beside the basket's answer. -/
structure ScanRows where
  allA : List AllARow
  licensed : List LonghuRow
  reference : List (String × FlowReference)
  observedAt : Timestamp

/-- The quotes of a scan, built in the order of the capture. -/
def ScanRows.quotes (rows : ScanRows) (eastmoney : List EastmoneyRow) : WatchQuotes :=
  let quotes := mergeLonghuWatchQuotes (mergeEastmoneyWatchFlows (quotesFromAllA rows.allA) eastmoney) rows.licensed
  applyDerivedWatchFlowMetrics quotes (deriveWatchFlowMetrics quotes rows.reference rows.observedAt)

/-- The same signals, whatever else the rules are given. -/
def SameSignals (quote quote' : Option WatchQuote) : Prop :=
  ∀ tdxPublicEligible watch previousQuote dailyFactors minuteFeatures peers modelVersion options,
    signalRules tdxPublicEligible watch quote previousQuote dailyFactors minuteFeatures peers modelVersion options
      = signalRules tdxPublicEligible watch quote' previousQuote dailyFactors minuteFeatures peers modelVersion options

/-- The same surge inputs, whatever else the scan has. -/
def SameSurge (quote quote' : Option WatchQuote) : Prop :=
  ∀ minuteFeatures tape defaults,
    quote.bind (surgeInputs · minuteFeatures tape defaults) = quote'.bind (surgeInputs · minuteFeatures tape defaults)

/-- The two answers decide nothing: every symbol has the same signals and the same surge inputs. -/
structure DecidesNothing (quotes quotes' : WatchQuotes) : Prop where
  signals : ∀ symbol, SameSignals (quotes.lookup symbol) (quotes'.lookup symbol)
  surge : ∀ symbol, SameSurge (quotes.lookup symbol) (quotes'.lookup symbol)

/-! ## Where the basket's figure is left -/

/-- The last figure that the rows state. -/
def lastFigure {ρ β : Type} (figure : ρ → Option β) (rows : List ρ) : Option β := rows.foldl (fun old row => (figure row).or old) none

def basketFigure (eastmoney : List EastmoneyRow) (symbol : String) (field : FlowField) : Option ℚ :=
  lastFigure (fun row => if isSymbol row.tsCode then row.flow field else none) (eastmoney.filter (·.tsCode == symbol))

section Supplied

variable (rows : ScanRows) (symbol : String)

/-- The licensed rows of the symbol that are not passed over. -/
def licensedOf : List LonghuRow :=
  (rows.licensed.filter (·.tsCode == symbol)).filter (fun row => (validPrice row.tsCode row.price).isSome)

/-- A price is known without the basket. -/
def Priced : Prop := ((quotesFromAllA rows.allA).lookup symbol).isSome ∨ licensedOf rows symbol ≠ []

/-- The volume of the licensed rows, else of the snapshot. -/
def knownVolume : Option ℚ :=
  (lastFigure (fun row => (row.volume.filter (fun lots => decide (0 ≤ lots))).map (· * 100)) (licensedOf rows symbol)).or
    (((quotesFromAllA rows.allA).lookup symbol).bind WatchQuote.volume)

/-- The field is derived: from a positive volume with positive float shares, or with a positive mean volume from the third minute on. -/
def Derivable (field : FlowField) : Prop :=
  ∃ volume entry, knownVolume rows symbol = some volume ∧ 0 < volume ∧ rows.reference.lookup symbol = some entry ∧
    match field with
    | .turnoverRate => ∃ floatShares, entry.floatShares = some floatShares ∧ 0 < floatShares
    | .volumeRatio =>
        (minElapsedMinutes : ℤ) ≤ sessionElapsedMinutes rows.observedAt ∧ ∃ mean, entry.meanDailyVolumeShares = some mean ∧ 0 < mean
    | .mainNetInflow => False

/-- A licensed row states the field, or it is derived. -/
def Supplied (field : FlowField) : Prop := (∃ row ∈ licensedOf rows symbol, (row.flow field).isSome) ∨ Derivable rows symbol field

end Supplied

/-- For every symbol with a price, volume ratio and turnover rate are each supplied without the basket, or both answers have the same
positive figure, or neither has one. -/
def BasketUnread (rows : ScanRows) (eastmoney eastmoney' : List EastmoneyRow) : Prop :=
  ∀ symbol, Priced rows symbol → ∀ field, field ≠ .mainNetInflow → Supplied rows symbol field ∨
    positive (basketFigure eastmoney symbol field) = positive (basketFigure eastmoney' symbol field)

/-! ## What the merges make of one quote -/

/-- A quote but for what the basket may have written. -/
def outsideBasket (entry : Option WatchQuote) : WatchQuote :=
  let quote := entry.getD { symbol := "", name := none }
  { quote with
    symbol := ""
    name := none
    flow := fun field => if (quote.flowMetricSources field).isSome then quote.flow field else none
    mainNetInflowRatio := none
    raw := { quote.raw with eastmoneyWatchFlow := none } }

/-- No field of the quote is labelled, and it has no percentile. -/
structure Plain (entry : Option WatchQuote) : Prop where
  unlabelled : ∀ field, entry.bind (·.flowMetricSources field) = none
  unranked : entry.bind WatchQuote.mainFlowPercentile = none

theorem Plain.eastmoney {entry : Option WatchQuote} (plain : Plain entry) (row : EastmoneyRow) :
    Plain (Overlays.onEntry eastmoneyQuote entry row) ∧
      outsideBasket (Overlays.onEntry eastmoneyQuote entry row) = outsideBasket entry := by
  unfold Overlays.onEntry eastmoneyQuote
  split
  · cases entry with
    | none => exact ⟨⟨fun _ => rfl, rfl⟩, rfl⟩
    | some quote =>
        have hlabels : quote.flowMetricSources = fun _ => none := funext plain.unlabelled
        have hpercentile : quote.mainFlowPercentile = none := plain.unranked
        refine ⟨⟨plain.unlabelled, rfl⟩, ?_⟩
        simp [outsideBasket, existingQuote, hlabels, hpercentile]
  · exact ⟨plain, rfl⟩

theorem Plain.fold {entry : Option WatchQuote} (plain : Plain entry) (rows : List EastmoneyRow) :
    Plain (rows.foldl (Overlays.onEntry eastmoneyQuote) entry) ∧
      outsideBasket (rows.foldl (Overlays.onEntry eastmoneyQuote) entry) = outsideBasket entry := by
  induction rows generalizing entry with
  | nil => exact ⟨plain, rfl⟩
  | cons row rest ih =>
      obtain ⟨hplain, hrow⟩ := plain.eastmoney row
      obtain ⟨hrest, heq⟩ := ih hplain
      exact ⟨hrest, heq.trans hrow⟩

variable (merged : List LonghuRow) (entry : Option WatchQuote)

theorem outsideBasket_again : outsideBasket (some (outsideBasket entry)) = outsideBasket entry := by
  unfold outsideBasket
  simp only [Option.getD_some, WatchQuote.mk.injEq, true_and, and_true]
  funext field
  split <;> rfl

theorem outsideBasket_longhu (row : LonghuRow) :
    outsideBasket (Overlays.onEntry longhuQuote entry row)
      = outsideBasket (Overlays.onEntry longhuQuote (some (outsideBasket entry)) row) := by
  unfold Overlays.onEntry longhuQuote
  cases validPrice row.tsCode row.price with
  | none =>
      simp only [Option.map_none, Option.none_or]
      exact (outsideBasket_again entry).symm
  | some price =>
      cases entry with
      | none => simp [outsideBasket, existingQuote]
      | some quote =>
          simp only [Option.map_some, Option.some_or, outsideBasket, existingQuote, Option.getD_some, WatchQuote.mk.injEq, true_and,
            and_true]
          funext field
          -- a field that the row does not state is kept only under a label
          rcases Option.eq_none_or_eq_some (row.flow field) with hflow | ⟨figure, hflow⟩
          · by_cases hlabel : (quote.flowMetricSources field).isSome <;> simp [hflow, hlabel]
          · simp [hflow]

theorem outsideBasket_fold {entry entry' : Option WatchQuote} (h : outsideBasket entry = outsideBasket entry') (rows : List LonghuRow) :
    outsideBasket (rows.foldl (Overlays.onEntry longhuQuote) entry) = outsideBasket (rows.foldl (Overlays.onEntry longhuQuote) entry') := by
  induction rows generalizing entry entry' with
  | nil => exact h
  | cons row rest ih =>
      refine ih ?_
      rw [outsideBasket_longhu, h, ← outsideBasket_longhu]

/-! ## The quote of a symbol before the derivation -/

section Merged

variable (rows : ScanRows) (symbol : String) (eastmoney : List EastmoneyRow)

/-- The snapshot's quote. -/
def snapshotQuote : Option WatchQuote := (quotesFromAllA rows.allA).lookup symbol

/-- The quote once the basket and the licensed rows are merged. -/
def mergedQuote : Option WatchQuote :=
  (licensedOf rows symbol).foldl (Overlays.onEntry longhuQuote)
    ((eastmoney.filter (·.tsCode == symbol)).foldl (Overlays.onEntry eastmoneyQuote) (snapshotQuote rows symbol))

theorem onEntry_longhu_passed {entry : Option WatchQuote} {row : LonghuRow} (h : (validPrice row.tsCode row.price).isSome = false) :
    Overlays.onEntry longhuQuote entry row = entry := by
  unfold Overlays.onEntry longhuQuote
  rw [Option.isSome_eq_false_iff, Option.isNone_iff_eq_none] at h
  rw [h]
  rfl

theorem foldl_longhu :
    merged.foldl (Overlays.onEntry longhuQuote) entry
      = (merged.filter (fun row => (validPrice row.tsCode row.price).isSome)).foldl (Overlays.onEntry longhuQuote) entry := by
  induction merged generalizing entry with
  | nil => rfl
  | cons row rest ih =>
      rw [List.foldl_cons, ih, List.filter_cons]
      split
      · rfl
      · next hpassed => rw [onEntry_longhu_passed (by simpa using hpassed)]

/-- **A symbol's quote in the scan.** -/
theorem lookup_quotes :
    (rows.quotes eastmoney).lookup symbol
      = (mergedQuote rows symbol eastmoney).map (fun quote =>
          withDerivedMetrics quote (symbolMetrics rows.reference rows.observedAt symbol quote.volume)) := by
  unfold ScanRows.quotes
  rw [lookup_applyDerived]
  unfold mergeLonghuWatchQuotes mergeEastmoneyWatchFlows mergedQuote licensedOf
  rw [Overlays.lookup_overlay, Overlays.lookup_overlay, foldl_longhu]
  rfl

theorem snapshotQuote_facts {quote : WatchQuote} (h : snapshotQuote rows symbol = some quote) :
    quote.price.isSome ∧ Plain (some quote) ∧ (∀ field, quote.flow field = none) ∧ quote.raw.longhuWatchQuoteUnfresh = none := by
  unfold snapshotQuote quotesFromAllA at h
  rw [Overlays.lookup_overlay] at h
  revert h
  -- a quote that a row of the snapshot has made stands at every point of the rows
  suffices hall : ∀ entry : Option WatchQuote,
      (∀ quote, entry = some quote → quote.price.isSome ∧ Plain (some quote) ∧ (∀ field, quote.flow field = none) ∧
        quote.raw.longhuWatchQuoteUnfresh = none) →
      (rows.allA.filter (upper ·.symbol == symbol)).foldl (Overlays.onEntry fun _ row => quoteFromFuyao row) entry = some quote →
      quote.price.isSome ∧ Plain (some quote) ∧ (∀ field, quote.flow field = none) ∧ quote.raw.longhuWatchQuoteUnfresh = none from
    hall none (fun _ h => absurd h (by simp))
  induction rows.allA.filter (upper ·.symbol == symbol) with
  | nil => exact fun entry hentry h => hentry quote h
  | cons row rest ih =>
      intro entry hentry h
      refine ih _ (fun made hmade => ?_) h
      unfold Overlays.onEntry quoteFromFuyao at hmade
      dsimp only at hmade
      cases hprice : validPrice (upper row.symbol) row.price with
      | none => exact hentry made (by simpa [hprice] using hmade)
      | some price =>
          rw [hprice] at hmade
          rw [← Option.some.inj hmade]
          exact ⟨rfl, ⟨fun _ => rfl, rfl⟩, fun _ => rfl, rfl⟩

theorem plain_snapshotQuote : Plain (snapshotQuote rows symbol) := by
  cases h : snapshotQuote rows symbol with
  | none => exact ⟨fun _ => rfl, rfl⟩
  | some quote => exact (snapshotQuote_facts rows symbol h).2.1

theorem outsideBasket_mergedQuote (eastmoney' : List EastmoneyRow) :
    outsideBasket (mergedQuote rows symbol eastmoney) = outsideBasket (mergedQuote rows symbol eastmoney') := by
  have hplain := plain_snapshotQuote rows symbol
  exact outsideBasket_fold ((hplain.fold _).2.trans (hplain.fold _).2.symm) _

end Merged

/-! ## The signals -/

section Signals

variable (quote : WatchQuote) (metrics : FlowMetrics) (field : FlowField)

theorem researchOnly_derived (tdxPublicEligible : Bool) :
    researchOnly tdxPublicEligible (withDerivedMetrics quote metrics) field = !ruleUsable tdxPublicEligible (flowLabelOf quote metrics field) := by
  simp [researchOnly, withDerivedMetrics, publicFlowFields]

theorem researchOnly_unsupplied (tdxPublicEligible : Bool)
    (h : field = .mainNetInflow ∨ (nativeField quote field = false ∧ metrics field = none)) :
    researchOnly tdxPublicEligible (withDerivedMetrics quote metrics) field = true := by
  rw [researchOnly_derived]
  unfold flowLabelOf
  rcases h with hfield | ⟨hnative, hmetrics⟩
  · rw [if_neg (fun h => h.1 hfield), if_neg (fun h => h.1 hfield)]
    split <;> rfl
  · rw [if_neg (by simp [hnative]), if_neg (by simp [hmetrics])]
    split <;> rfl

theorem nativeField_outsideBasket : nativeField (outsideBasket (some quote)) field = nativeField quote field := by
  unfold nativeField outsideBasket
  cases hlabel : quote.flowMetricSources field <;> simp [hlabel]

section

variable (tdxPublicEligible : Bool)

/-- What the basket has written is read by no rule: a field is the same without it, or feeds no rule with it or without. -/
theorem field_alike :
    ((withDerivedMetrics quote metrics).flow field = (withDerivedMetrics (outsideBasket (some quote)) metrics).flow field ∧
        (withDerivedMetrics quote metrics).flowMetricSources field
          = (withDerivedMetrics (outsideBasket (some quote)) metrics).flowMetricSources field) ∨
      (researchOnly tdxPublicEligible (withDerivedMetrics quote metrics) field = true ∧
        researchOnly tdxPublicEligible (withDerivedMetrics (outsideBasket (some quote)) metrics) field = true) := by
  have hnative := nativeField_outsideBasket quote field
  by_cases hflow : (outsideBasket (some quote)).flow field = quote.flow field
  · left
    refine ⟨?_, ?_⟩
    · simp only [withDerivedMetrics, hnative, hflow]
    · simp only [withDerivedMetrics, flowLabelOf, hnative, hflow]
      rfl
  · -- the field has no label: what stands in it is the basket's
    have hlabel : quote.flowMetricSources field = none := by
      by_contra hsome
      refine hflow ?_
      show (if (quote.flowMetricSources field).isSome then quote.flow field else none) = _
      rw [if_pos (Option.isSome_iff_ne_none.mpr hsome)]
    have hnot : nativeField quote field = false := by simp [nativeField, hlabel]
    by_cases hmain : field = .mainNetInflow
    · exact Or.inr ⟨researchOnly_unsupplied _ _ _ _ (Or.inl hmain), researchOnly_unsupplied _ _ _ _ (Or.inl hmain)⟩
    · cases hmetrics : metrics field with
      | none =>
          exact Or.inr ⟨researchOnly_unsupplied _ _ _ _ (Or.inr ⟨hnot, hmetrics⟩),
            researchOnly_unsupplied _ _ _ _ (Or.inr ⟨hnative.trans hnot, hmetrics⟩)⟩
      | some figure =>
          left
          refine ⟨?_, ?_⟩
          · simp [withDerivedMetrics, hnative, hnot, hmetrics]
          · simp [withDerivedMetrics, flowLabelOf, hnative, hnot, hmetrics, hmain]
            rfl

theorem isMissing_outsideBasket :
    isMissing tdxPublicEligible (withDerivedMetrics quote metrics) field
      = isMissing tdxPublicEligible (withDerivedMetrics (outsideBasket (some quote)) metrics) field := by
  unfold isMissing
  rcases field_alike quote metrics field tdxPublicEligible with ⟨hflow, hlabel⟩ | ⟨hquote, houtside⟩
  · rw [researchOnly_derived, researchOnly_derived, hflow, Option.some.inj hlabel]
  · rw [hquote, houtside, Bool.or_true, Bool.or_true]

theorem ruleValue_outsideBasket :
    ruleValue tdxPublicEligible (withDerivedMetrics quote metrics) field
      = ruleValue tdxPublicEligible (withDerivedMetrics (outsideBasket (some quote)) metrics) field := by
  unfold ruleValue
  rw [isMissing_outsideBasket]
  rcases field_alike quote metrics field tdxPublicEligible with ⟨hflow, -⟩ | ⟨-, houtside⟩
  · rw [hflow]
  · have hmissing : isMissing tdxPublicEligible (withDerivedMetrics (outsideBasket (some quote)) metrics) field = true := by
      rw [isMissing, houtside, Bool.or_true]
    rw [if_pos hmissing, if_pos hmissing]

end

end Signals

theorem ruleInputs_outsideBasket (tdxPublicEligible : Bool) (dailyFactors : DailyFactors) (minuteFeatures : Option MinuteFeatures)
    (peers : PeerContext) (quote : WatchQuote) (metrics : FlowMetrics) (price : ℚ) :
    ruleInputs tdxPublicEligible dailyFactors minuteFeatures peers (withDerivedMetrics quote metrics) price
      = ruleInputs tdxPublicEligible dailyFactors minuteFeatures peers (withDerivedMetrics (outsideBasket (some quote)) metrics) price := by
  have hmissing : isMissing tdxPublicEligible (withDerivedMetrics quote metrics)
      = isMissing tdxPublicEligible (withDerivedMetrics (outsideBasket (some quote)) metrics) :=
    funext fun field => isMissing_outsideBasket quote metrics field tdxPublicEligible
  unfold ruleInputs
  rw [hmissing, ruleValue_outsideBasket quote metrics .volumeRatio, ruleValue_outsideBasket quote metrics .turnoverRate,
    ruleValue_outsideBasket quote metrics .mainNetInflow]
  rfl

theorem signalRules_outsideBasket (rows : ScanRows) (symbol : String) (entry : Option WatchQuote) :
    SameSignals
      (entry.map fun quote => withDerivedMetrics quote (symbolMetrics rows.reference rows.observedAt symbol quote.volume))
      (some (withDerivedMetrics (outsideBasket entry)
        (symbolMetrics rows.reference rows.observedAt symbol (outsideBasket entry).volume))) := by
  intro tdxPublicEligible watch previousQuote dailyFactors minuteFeatures peers modelVersion options
  cases entry with
  | none => rfl
  | some quote =>
      have hinputs : (withDerivedMetrics quote (symbolMetrics rows.reference rows.observedAt symbol quote.volume)).price.map
            (ruleInputs tdxPublicEligible dailyFactors minuteFeatures peers
              (withDerivedMetrics quote (symbolMetrics rows.reference rows.observedAt symbol quote.volume)))
          = (withDerivedMetrics (outsideBasket (some quote))
              (symbolMetrics rows.reference rows.observedAt symbol (outsideBasket (some quote)).volume)).price.map
            (ruleInputs tdxPublicEligible dailyFactors minuteFeatures peers
              (withDerivedMetrics (outsideBasket (some quote))
                (symbolMetrics rows.reference rows.observedAt symbol (outsideBasket (some quote)).volume))) :=
        congrArg (Option.map · quote.price) (funext fun price => ruleInputs_outsideBasket _ _ _ _ quote _ price)
      unfold signalRules
      rw [Option.map_some, Option.bind_some, Option.bind_some, hinputs]

/-- **The basket's answer leaves every symbol's signals as they are.** -/
theorem sameSignals_quotes (rows : ScanRows) (symbol : String) (eastmoney eastmoney' : List EastmoneyRow) :
    SameSignals ((rows.quotes eastmoney).lookup symbol) ((rows.quotes eastmoney').lookup symbol) := by
  intro tdxPublicEligible watch previousQuote dailyFactors minuteFeatures peers modelVersion options
  rw [lookup_quotes, lookup_quotes, signalRules_outsideBasket, signalRules_outsideBasket,
    outsideBasket_mergedQuote rows symbol eastmoney eastmoney']

/-! ## The figures of a symbol's quote -/

section LastFigure

variable {ρ β : Type} {figure : ρ → Option β}

theorem foldl_or (rows : List ρ) (first : Option β) :
    rows.foldl (fun old row => (figure row).or old) first = (lastFigure figure rows).or first := by
  unfold lastFigure
  induction rows generalizing first with
  | nil => rfl
  | cons row rest ih =>
      rw [List.foldl_cons, List.foldl_cons, ih, ih ((figure row).or none), Option.or_none, Option.or_assoc]

theorem lastFigure_cons (row : ρ) (rest : List ρ) : lastFigure figure (row :: rest) = (lastFigure figure rest).or (figure row) := by
  rw [lastFigure, List.foldl_cons, Option.or_none, foldl_or]

theorem lastFigure_isSome (rows : List ρ) : (lastFigure figure rows).isSome ↔ ∃ row ∈ rows, (figure row).isSome := by
  induction rows with
  | nil => simp [lastFigure]
  | cons row rest ih => simp [lastFigure_cons, ih, or_comm]

theorem lastFigure_map {γ : Type} (f : β → γ) (rows : List ρ) :
    lastFigure (fun row => (figure row).map f) rows = (lastFigure figure rows).map f := by
  induction rows with
  | nil => rfl
  | cons row rest ih =>
      rw [lastFigure_cons, lastFigure_cons, ih]
      cases lastFigure figure rest <;> rfl

theorem read_foldl {step : Option WatchQuote → ρ → Option WatchQuote} (read : Option WatchQuote → Option β) (rows : List ρ)
    (hstep : ∀ entry, ∀ row ∈ rows, read (Overlays.onEntry step entry row) = (figure row).or (read entry)) (entry : Option WatchQuote) :
    read (rows.foldl (Overlays.onEntry step) entry) = (lastFigure figure rows).or (read entry) := by
  induction rows generalizing entry with
  | nil => rfl
  | cons row rest ih =>
      rw [List.foldl_cons, ih (fun entry row hmem => hstep entry row (List.mem_cons_of_mem _ hmem)),
        hstep entry row List.mem_cons_self, lastFigure_cons, Option.or_assoc]

end LastFigure

/-- A licensed row that is not passed over, laid over an entry. -/
theorem onEntry_longhu {row : LonghuRow} (h : (validPrice row.tsCode row.price).isSome) :
    ∃ quote, Overlays.onEntry longhuQuote entry row = some quote ∧ quote.price = validPrice row.tsCode row.price ∧
      quote.volume = ((row.volume.filter (fun lots => decide (0 ≤ lots))).map (· * 100)).or (entry.bind WatchQuote.volume) ∧
      (∀ field, quote.flow field = (row.flow field).or (entry.bind (·.flow field))) ∧
      (∀ field, quote.flowMetricSources field
        = ((row.flow field).map (fun _ => FlowLabel.longhuvipWatchQuote)).or (entry.bind (·.flowMetricSources field))) ∧
      quote.raw.longhuWatchQuoteUnfresh = entry.bind (·.raw.longhuWatchQuoteUnfresh) := by
  obtain ⟨price, hprice⟩ := Option.isSome_iff_exists.mp h
  unfold Overlays.onEntry longhuQuote
  rw [hprice]
  cases entry <;> exact ⟨_, rfl, rfl, rfl, fun _ => rfl, fun _ => rfl, rfl⟩

section Figures

variable (rows : ScanRows) (symbol : String) (eastmoney : List EastmoneyRow)

theorem valid_of_mem_licensedOf {row : LonghuRow} (h : row ∈ licensedOf rows symbol) : (validPrice row.tsCode row.price).isSome := by
  unfold licensedOf at h
  simpa using (List.mem_filter.mp h).2

theorem basketFigure_eq (field : FlowField) :
    ((eastmoney.filter (·.tsCode == symbol)).foldl (Overlays.onEntry eastmoneyQuote) (snapshotQuote rows symbol)).bind (·.flow field)
      = basketFigure eastmoney symbol field := by
  have hstep : ∀ (entry : Option WatchQuote), ∀ row ∈ eastmoney.filter (·.tsCode == symbol),
      (Overlays.onEntry eastmoneyQuote entry row).bind (·.flow field)
        = (if isSymbol row.tsCode then row.flow field else none).or (entry.bind (·.flow field)) := by
    intro entry row _
    unfold Overlays.onEntry eastmoneyQuote
    split <;> cases entry <;> rfl
  have hnone : (snapshotQuote rows symbol).bind (·.flow field) = none := by
    cases h : snapshotQuote rows symbol with
    | none => rfl
    | some quote => exact (snapshotQuote_facts rows symbol h).2.2.1 field
  rw [read_foldl (fun entry => entry.bind (·.flow field)) _ hstep, hnone, Option.or_none]
  rfl

theorem mergedQuote_flow (field : FlowField) :
    (mergedQuote rows symbol eastmoney).bind (·.flow field)
      = (lastFigure (·.flow field) (licensedOf rows symbol)).or (basketFigure eastmoney symbol field) := by
  unfold mergedQuote
  rw [read_foldl (fun entry => entry.bind (·.flow field)) _ ?_, basketFigure_eq]
  intro entry row hrow
  obtain ⟨quote, hquote, -, -, hflow, -⟩ := onEntry_longhu entry (valid_of_mem_licensedOf rows symbol hrow)
  rw [hquote, Option.bind_some, hflow]

theorem plain_basket :
    Plain ((eastmoney.filter (·.tsCode == symbol)).foldl (Overlays.onEntry eastmoneyQuote) (snapshotQuote rows symbol)) ∧
      outsideBasket ((eastmoney.filter (·.tsCode == symbol)).foldl (Overlays.onEntry eastmoneyQuote) (snapshotQuote rows symbol))
        = outsideBasket (snapshotQuote rows symbol) :=
  (plain_snapshotQuote rows symbol).fold _

theorem mergedQuote_label (field : FlowField) :
    (mergedQuote rows symbol eastmoney).bind (·.flowMetricSources field)
      = (lastFigure (·.flow field) (licensedOf rows symbol)).map (fun _ => FlowLabel.longhuvipWatchQuote) := by
  unfold mergedQuote
  rw [read_foldl (fun entry => entry.bind (·.flowMetricSources field)) _ ?_, (plain_basket rows symbol eastmoney).1.unlabelled field,
    Option.or_none, lastFigure_map]
  intro entry row hrow
  obtain ⟨quote, hquote, -, -, -, hlabel, -⟩ := onEntry_longhu entry (valid_of_mem_licensedOf rows symbol hrow)
  rw [hquote, Option.bind_some, hlabel]

theorem read_outsideBasket {β : Type} (read : Option WatchQuote → β) (hread : ∀ entry, read entry = read (some (outsideBasket entry))) :
    read ((eastmoney.filter (·.tsCode == symbol)).foldl (Overlays.onEntry eastmoneyQuote) (snapshotQuote rows symbol))
      = read (snapshotQuote rows symbol) := by
  rw [hread, (plain_basket rows symbol eastmoney).2, ← hread]

theorem mergedQuote_volume : (mergedQuote rows symbol eastmoney).bind WatchQuote.volume = knownVolume rows symbol := by
  unfold mergedQuote knownVolume
  rw [read_foldl (fun entry => entry.bind WatchQuote.volume) _ ?_,
    read_outsideBasket rows symbol eastmoney (·.bind WatchQuote.volume) (fun entry => by cases entry <;> rfl)]
  · rfl
  · intro entry row hrow
    obtain ⟨quote, hquote, -, hvolume, -⟩ := onEntry_longhu entry (valid_of_mem_licensedOf rows symbol hrow)
    rw [hquote, Option.bind_some, hvolume]

theorem mergedQuote_unfresh : (mergedQuote rows symbol eastmoney).bind (·.raw.longhuWatchQuoteUnfresh) = none := by
  unfold mergedQuote
  have hlast : ∀ licensed : List LonghuRow, lastFigure (fun _ : LonghuRow => (none : Option LonghuRow)) licensed = none := by
    intro licensed
    induction licensed with
    | nil => rfl
    | cons row rest ih => rw [lastFigure_cons, ih, Option.or_none]
  rw [read_foldl (fun entry => entry.bind (·.raw.longhuWatchQuoteUnfresh)) _ ?_,
    read_outsideBasket rows symbol eastmoney (·.bind (·.raw.longhuWatchQuoteUnfresh)) (fun entry => by cases entry <;> rfl), hlast, Option.none_or]
  · cases h : snapshotQuote rows symbol with
    | none => rfl
    | some quote => exact (snapshotQuote_facts rows symbol h).2.2.2
  · intro entry row hrow
    obtain ⟨quote, hquote, -, -, -, -, hunfresh⟩ := onEntry_longhu entry (valid_of_mem_licensedOf rows symbol hrow)
    rw [hquote, Option.bind_some, hunfresh, Option.none_or]

theorem mergedQuote_priced : ((mergedQuote rows symbol eastmoney).bind WatchQuote.price).isSome ↔ Priced rows symbol := by
  unfold mergedQuote Priced
  rw [read_foldl (fun entry => entry.bind WatchQuote.price) _ ?_,
    read_outsideBasket rows symbol eastmoney (·.bind WatchQuote.price) (fun entry => by cases entry <;> rfl), Option.isSome_or,
    Bool.or_eq_true, lastFigure_isSome, or_comm]
  · refine or_congr ?_ ⟨?_, fun h => ?_⟩
    · unfold snapshotQuote
      cases h : (quotesFromAllA rows.allA).lookup symbol with
      | none => rfl
      | some quote => simpa using (snapshotQuote_facts rows symbol h).1
    · rintro ⟨row, hrow, -⟩
      exact List.ne_nil_of_mem hrow
    · obtain ⟨row, hrow⟩ := List.exists_mem_of_ne_nil _ h
      exact ⟨row, hrow, valid_of_mem_licensedOf rows symbol hrow⟩
  · intro entry row hrow
    have hvalid := valid_of_mem_licensedOf rows symbol hrow
    obtain ⟨quote, hquote, hprice, -⟩ := onEntry_longhu entry hvalid
    obtain ⟨price, hsome⟩ := Option.isSome_iff_exists.mp hvalid
    rw [hquote, Option.bind_some, hprice, hsome, Option.some_or]

end Figures

/-! ## The surge -/

theorem pick_two (figure : Option ℚ) : pick [figure, none] = positive figure := by
  unfold pick positive
  cases figure with
  | none => rfl
  | some figure =>
      by_cases hpos : 0 < figure
      · simp [hpos, Option.filter_some]
      · simp [hpos, Option.filter_some]

theorem positive_isSome {figure : Option ℚ} : (positive figure).isSome ↔ ∃ value, figure = some value ∧ 0 < value := by
  unfold positive
  cases figure with
  | none => simp
  | some value => by_cases hpos : 0 < value <;> simp [Option.filter_some, hpos]

section Surge

variable (rows : ScanRows) (symbol : String) (eastmoney : List EastmoneyRow)

/-- What is derived for the symbol. -/
def scanMetrics : FlowMetrics := symbolMetrics rows.reference rows.observedAt symbol (knownVolume rows symbol)

theorem scanMetrics_isSome {field : FlowField} (hfield : field ≠ .mainNetInflow) :
    (scanMetrics rows symbol field).isSome ↔ Derivable rows symbol field := by
  unfold scanMetrics symbolMetrics Derivable
  cases hentry : rows.reference.lookup symbol with
  | none => simp
  | some entry =>
      unfold metricsOf
      rcases hvolume : positive (knownVolume rows symbol) with _ | volume
      · have hnone : ¬ ∃ value, knownVolume rows symbol = some value ∧ 0 < value := by
          rw [← positive_isSome, hvolume]
          simp
        simp only [Option.bind_none, Option.isSome_none, Bool.false_eq_true, false_iff]
        rintro ⟨value, -, hknown, hpos, -⟩
        exact hnone ⟨value, hknown, hpos⟩
      · obtain ⟨hknown, hpos⟩ := Option.filter_eq_some_iff.mp hvolume
        have hpos' : 0 < volume := by simpa using hpos
        cases field with
        | mainNetInflow => exact absurd rfl hfield
        | turnoverRate =>
            simp only [Option.bind_some, Option.isSome_map, positive_isSome]
            constructor
            · exact fun h => ⟨volume, entry, hknown, hpos', rfl, h⟩
            · rintro ⟨-, other, -, -, hother, h⟩
              rwa [Option.some.inj hother]
        | volumeRatio =>
            simp only [Option.bind_some]
            constructor
            · intro h
              split at h
              · next helapsed =>
                  refine ⟨volume, entry, hknown, hpos', rfl, helapsed, ?_⟩
                  rwa [Option.isSome_map, positive_isSome] at h
              · exact absurd h (by simp)
            · rintro ⟨-, other, -, -, hother, helapsed, h⟩
              rw [if_pos helapsed, Option.isSome_map, positive_isSome, Option.some.inj hother]
              exact h

theorem supplied_iff {field : FlowField} (hfield : field ≠ .mainNetInflow) :
    Supplied rows symbol field ↔
      (lastFigure (·.flow field) (licensedOf rows symbol)).isSome ∨ (scanMetrics rows symbol field).isSome := by
  rw [scanMetrics_isSome rows symbol hfield, lastFigure_isSome]
  rfl

theorem derived_flow {quote : WatchQuote} (h : mergedQuote rows symbol eastmoney = some quote) (field : FlowField) :
    (withDerivedMetrics quote (scanMetrics rows symbol)).flow field
      = (lastFigure (·.flow field) (licensedOf rows symbol)).or
          ((scanMetrics rows symbol field).or (basketFigure eastmoney symbol field)) := by
  have hflow := mergedQuote_flow rows symbol eastmoney field
  have hlabel := mergedQuote_label rows symbol eastmoney field
  rw [h, Option.bind_some] at hflow hlabel
  show (if nativeField quote field then quote.flow field else (scanMetrics rows symbol field).or (quote.flow field)) = _
  unfold nativeField
  rw [hflow, hlabel]
  cases lastFigure (·.flow field) (licensedOf rows symbol) with
  | none => simp
  | some figure => simp

/-- The positive figure that a playbook is given for a field. -/
def playbookFigure (field : FlowField) : Option ℚ :=
  positive ((lastFigure (·.flow field) (licensedOf rows symbol)).or
    ((scanMetrics rows symbol field).or (basketFigure eastmoney symbol field)))

/-- **The surge inputs of a symbol's quote.** -/
theorem surgeInputs_quotes (minuteFeatures : Option MinuteFeatures) (tape : SnapshotTape) (defaults : ScanDefaults) :
    ((rows.quotes eastmoney).lookup symbol).bind (surgeInputs · minuteFeatures tape defaults)
      = (outsideBasket (mergedQuote rows symbol eastmoney)).price.map (fun price =>
          { surge := surgeOf price (playbookFigure rows symbol eastmoney .volumeRatio)
              (scanVwap (outsideBasket (mergedQuote rows symbol eastmoney)) (minuteFeatures.getD {})) (minuteFeatures.getD {}) tape
              defaults
            volumeRatio := playbookFigure rows symbol eastmoney .volumeRatio
            turnoverPct := playbookFigure rows symbol eastmoney .turnoverRate }) := by
  rw [lookup_quotes]
  cases hmerged : mergedQuote rows symbol eastmoney with
  | none => rfl
  | some quote =>
      have hvolume := mergedQuote_volume rows symbol eastmoney
      have hunfresh := mergedQuote_unfresh rows symbol eastmoney
      rw [hmerged, Option.bind_some] at hvolume hunfresh
      rw [Option.map_some, Option.bind_some, hvolume]
      have hratio : scanVolumeRatio (withDerivedMetrics quote (scanMetrics rows symbol)) = playbookFigure rows symbol eastmoney .volumeRatio := by
        unfold scanVolumeRatio playbookFigure
        rw [derived_flow rows symbol eastmoney hmerged, ← pick_two]
        show pick [_, quote.raw.longhuWatchQuoteUnfresh.bind _] = _
        rw [hunfresh]
        rfl
      have hturnover : scanTurnover (withDerivedMetrics quote (scanMetrics rows symbol)) = playbookFigure rows symbol eastmoney .turnoverRate := by
        unfold scanTurnover playbookFigure
        rw [derived_flow rows symbol eastmoney hmerged, ← pick_two]
        show pick [_, quote.raw.longhuWatchQuoteUnfresh.bind _] = _
        rw [hunfresh]
        rfl
      rw [← hratio, ← hturnover]
      rfl

theorem playbookFigure_eq_iff {eastmoney' : List EastmoneyRow} {field : FlowField} (hfield : field ≠ .mainNetInflow) :
    playbookFigure rows symbol eastmoney field = playbookFigure rows symbol eastmoney' field ↔
      Supplied rows symbol field ∨ positive (basketFigure eastmoney symbol field) = positive (basketFigure eastmoney' symbol field) := by
  rw [supplied_iff rows symbol hfield]
  unfold playbookFigure
  cases lastFigure (·.flow field) (licensedOf rows symbol) with
  | some figure => simp
  | none => cases scanMetrics rows symbol field <;> simp

theorem sameSurge_iff (eastmoney' : List EastmoneyRow) :
    SameSurge ((rows.quotes eastmoney).lookup symbol) ((rows.quotes eastmoney').lookup symbol) ↔
      (Priced rows symbol → ∀ field, field ≠ .mainNetInflow → Supplied rows symbol field ∨
        positive (basketFigure eastmoney symbol field) = positive (basketFigure eastmoney' symbol field)) := by
  have hpriced := mergedQuote_priced rows symbol eastmoney
  have houtside := outsideBasket_mergedQuote rows symbol eastmoney eastmoney'
  have hprice : (mergedQuote rows symbol eastmoney).bind WatchQuote.price = (outsideBasket (mergedQuote rows symbol eastmoney)).price := by
    cases mergedQuote rows symbol eastmoney <;> rfl
  unfold SameSurge
  simp only [surgeInputs_quotes]
  rw [hprice] at hpriced
  rw [← houtside]
  cases hmerged : (outsideBasket (mergedQuote rows symbol eastmoney)).price with
  | none =>
      rw [hmerged] at hpriced
      have hunpriced : ¬ Priced rows symbol := fun h => absurd (hpriced.mpr h) (by simp)
      simp [hunpriced]
  | some price =>
      rw [hmerged] at hpriced
      simp only [Option.map_some, Option.some.injEq, SurgeInputs.mk.injEq, hpriced.mp rfl, true_implies]
      constructor
      · intro h field hfield
        obtain ⟨-, hratio, hturnover⟩ := h none {} { minuteVolumeMultipleMin := 0, volRatioMin := 0 }
        refine (playbookFigure_eq_iff rows symbol eastmoney hfield).mp ?_
        cases field with
        | volumeRatio => exact hratio
        | turnoverRate => exact hturnover
        | mainNetInflow => exact absurd rfl hfield
      · intro h minuteFeatures tape defaults
        have hratio := (playbookFigure_eq_iff rows symbol eastmoney (by decide)).mpr (h .volumeRatio (by decide))
        have hturnover := (playbookFigure_eq_iff rows symbol eastmoney (by decide)).mpr (h .turnoverRate (by decide))
        rw [hratio, hturnover]
        exact ⟨rfl, rfl, rfl⟩

end Surge

/-- **Two answers of the basket decide nothing exactly if every symbol with a price has its volume ratio and its turnover rate from
elsewhere, or the same positive figure from both answers.** -/
theorem quotes_decideNothing_iff (rows : ScanRows) (eastmoney eastmoney' : List EastmoneyRow) :
    DecidesNothing (rows.quotes eastmoney) (rows.quotes eastmoney') ↔ BasketUnread rows eastmoney eastmoney' :=
  ⟨fun h symbol => (sameSurge_iff rows symbol eastmoney eastmoney').mp (h.surge symbol),
    fun h => ⟨fun symbol => sameSignals_quotes rows symbol eastmoney eastmoney',
      fun symbol => (sameSurge_iff rows symbol eastmoney eastmoney').mpr (h symbol)⟩⟩

/-! ## A symbol without a reference row -/

/-- The snapshot has the symbol's price, and nothing states or derives its volume ratio. -/
def bareScan : ScanRows where
  allA := [{ symbol := "600000.SH", price := some 10, volume := some 1000000 }]
  licensed := []
  reference := []
  observedAt := 1791856800000000

/-- The basket's row of the symbol. -/
def bareBasket : List EastmoneyRow := [{ tsCode := "600000.SH", flow := fun field => if field = .volumeRatio then some 3 else none }]

/-- The basket's volume ratio is taken for a surge. -/
theorem basket_surges :
    ((bareScan.quotes []).lookup "600000.SH").bind (surgeInputs · none {} { minuteVolumeMultipleMin := 2, volRatioMin := 3 / 2 })
        = some { surge := none, volumeRatio := none, turnoverPct := none } ∧
      ((bareScan.quotes bareBasket).lookup "600000.SH").bind (surgeInputs · none {} { minuteVolumeMultipleMin := 2, volRatioMin := 3 / 2 })
        = some { surge := some true, volumeRatio := some 3, turnoverPct := none } ∧
      ¬ DecidesNothing (bareScan.quotes []) (bareScan.quotes bareBasket) := by
  have hwithout : ((bareScan.quotes []).lookup "600000.SH").bind
      (surgeInputs · none {} { minuteVolumeMultipleMin := 2, volRatioMin := 3 / 2 })
        = some { surge := none, volumeRatio := none, turnoverPct := none } := by
    decide +kernel
  have hwith : ((bareScan.quotes bareBasket).lookup "600000.SH").bind
      (surgeInputs · none {} { minuteVolumeMultipleMin := 2, volRatioMin := 3 / 2 })
        = some { surge := some true, volumeRatio := some 3, turnoverPct := none } := by
    decide +kernel
  refine ⟨hwithout, hwith, fun h => ?_⟩
  have := h.surge "600000.SH" none {} { minuteVolumeMultipleMin := 2, volRatioMin := 3 / 2 }
  rw [hwithout, hwith] at this
  exact absurd this (by decide)

end TradingHarness.SignalRules
