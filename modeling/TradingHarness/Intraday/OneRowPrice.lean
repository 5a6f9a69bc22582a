import TradingHarness.Intraday.WatchCapture

set_option autoImplicit false

/-! # One row supplies the price

A quote of the watchlist should have its price, its change, its source and its time from one row: the first of the licensed row, the
Tencent row, the Sina row and the snapshot row that is valid and fresh. -/

namespace TradingHarness

/-! ## What one row says of the price -/

/-- What a row states: its price, the previous close and the change it names itself, where it is from, and when it was traded. -/
structure PriceRow where
  price : ℚ
  preClose : Option ℚ := none
  pctChange : Option ℚ := none
  source : String
  tradeDate : Option String := none
  tradeTime : Option String := none
  fromDepth : Bool := false
deriving DecidableEq

def AllARow.priceRow (row : AllARow) : Option PriceRow :=
  (validPrice (upper row.symbol) row.price).map (fun price =>
    { price, pctChange := row.pctChange, source := textOr row.priceSource mainAllASource })

def TencentRow.priceRow (row : TencentRow) : Option PriceRow :=
  (validPrice row.tsCode row.price).map (fun price =>
    { price, preClose := row.preClose, pctChange := row.pctChange, source := "tencent_batched_watch_quote"
      tradeTime := row.tradeTime, fromDepth := true })

def SinaRow.priceRow (row : SinaRow) : Option PriceRow :=
  (validPrice row.tsCode row.close).map (fun price =>
    { price, preClose := row.preClose, pctChange := row.pctChange, source := "sina_batched_watch_quote"
      tradeDate := row.tradeDate, tradeTime := row.tradeTime })

def LonghuRow.priceRow (row : LonghuRow) : Option PriceRow :=
  (validPrice row.tsCode row.price).map (fun price =>
    { price, preClose := row.preClose, pctChange := row.pctChange, source := "longhuvip_watch_quote"
      tradeDate := row.tradeDate, tradeTime := row.tradeTime })

def PriceRow.freshness (row : PriceRow) (now : Timestamp) (slo : ℚ) : Freshness :=
  exchangeTimeStatus row.tradeTime row.tradeDate now slo

def PriceRow.freshAt (now : Timestamp) (slo : ℚ) (row : PriceRow) : Bool := decide ((row.freshness now slo).status = .fresh)

/-- A change that the row can vouch for: its price against its own previous close, else its own figure or none. -/
def PriceRow.Vouches (row : PriceRow) (pct : Option ℚ) : Prop :=
  pct = pctAgainst row.price row.preClose row.pctChange ∨ pct = pctAgainst row.price row.preClose none

/-- The fields of a quote's price all come from the row, and its freshness is that of the row's time. -/
structure SuppliedBy (row : Option PriceRow) (quote : Option WatchQuote) (now : Timestamp) (slo : ℚ) : Prop where
  price : quote.bind WatchQuote.price = row.map PriceRow.price
  pctChange : row.elim (quote.bind WatchQuote.pctChange = none) (PriceRow.Vouches · (quote.bind WatchQuote.pctChange))
  source : quote.bind WatchQuote.priceSource = row.map PriceRow.source
  tradeTime : quote.bind WatchQuote.priceTradeTime = row.bind PriceRow.tradeTime
  fromDepth : (quote.bind WatchQuote.priceObservedFromDepth).getD false = (row.map PriceRow.fromDepth).getD false
  freshness : ∀ priced, quote = some priced →
    priced.priceFreshness = some (exchangeTimeStatus (row.bind PriceRow.tradeTime) (row.bind PriceRow.tradeDate) now slo)

/-! ## The row to choose -/

section Choice

variable (symbols : List String) (answers : WatchAnswers) (times : CaptureTimes) (slo : ℚ) (symbol : String)

def allAPrice : Option PriceRow := (Overlays.rowOf (fun row => upper row.symbol) answers.allA symbol).bind AllARow.priceRow

def tencentPrice (now : Timestamp) : Option PriceRow :=
  ((Overlays.rowOf TencentRow.tsCode answers.tencent symbol).bind TencentRow.priceRow).filter (PriceRow.freshAt now slo)

/-- The Sina row's price: Sina is asked only where the Tencent row was not accepted at first. -/
def sinaPrice : Option PriceRow :=
  if (tencentPrice answers slo symbol times.observedAt).isSome then none
  else ((Overlays.rowOf SinaRow.tsCode answers.sina symbol).bind SinaRow.priceRow).filter (PriceRow.freshAt times.evaluatedAt slo)

def licensedPrice : Option PriceRow :=
  ((answers.licensed.bind (Overlays.rowOf LonghuRow.tsCode · symbol)).bind LonghuRow.priceRow).filter
    (PriceRow.freshAt times.licensedAt slo)

/-- The row whose price the symbol should have. -/
def chosenRow : Option PriceRow :=
  (licensedPrice answers times slo symbol).or
    ((tencentPrice answers slo symbol times.evaluatedAt).or ((sinaPrice answers times slo symbol).or (allAPrice answers symbol)))

/-- The change needs no other row's figure: the row has a previous close, or the snapshot states no change, or the same. -/
def PriceRow.OwnChange (row : PriceRow) (snapshot : Option PriceRow) : Prop :=
  (∃ preClose, row.preClose = some preClose ∧ 0 < preClose) ∨ snapshot.bind PriceRow.pctChange = none ∨
    snapshot.bind PriceRow.pctChange = row.pctChange

/-- No second row gets into the price: a fresh licensed row replaces all of it; else not both the Tencent row and the Sina row are
fresh, and the one that is has its own change. -/
def Unmixed : Prop :=
  (licensedPrice answers times slo symbol).isSome ∨
    match tencentPrice answers slo symbol times.evaluatedAt, sinaPrice answers times slo symbol with
    | none, none => True
    | some row, none => row.OwnChange (allAPrice answers symbol)
    | none, some row => row.OwnChange (allAPrice answers symbol)
    | some _, some _ => False

/-- No source has two rows of the symbol. -/
structure WatchAnswers.OneRowEach : Prop where
  allA : Overlays.AtMostOne (fun row => upper row.symbol) answers.allA symbol
  tencent : Overlays.AtMostOne TencentRow.tsCode answers.tencent symbol
  sina : Overlays.AtMostOne SinaRow.tsCode answers.sina symbol
  licensed : ∀ rows, answers.licensed = some rows → Overlays.AtMostOne LonghuRow.tsCode rows symbol

end Choice

/-! ## The fields of the price -/

structure PriceFields where
  price : Option ℚ := none
  pctChange : Option ℚ := none
  source : Option String := none
  fromDepth : Option Bool := none
  tradeDate : Option String := none
  tradeTime : Option String := none

def WatchQuote.priceFields (quote : WatchQuote) : PriceFields where
  price := quote.price
  pctChange := quote.pctChange
  source := quote.priceSource
  fromDepth := quote.priceObservedFromDepth
  tradeDate := quote.priceTradeDate
  tradeTime := quote.priceTradeTime

def fieldsOf (entry : Option WatchQuote) : PriceFields := entry.elim {} WatchQuote.priceFields

variable (entry : Option WatchQuote) (row : EastmoneyRow)

@[simp] theorem fieldsOf_price : (fieldsOf entry).price = entry.bind WatchQuote.price := by
  cases entry <;> rfl

@[simp] theorem fieldsOf_pctChange : (fieldsOf entry).pctChange = entry.bind WatchQuote.pctChange := by
  cases entry <;> rfl

@[simp] theorem fieldsOf_source : (fieldsOf entry).source = entry.bind WatchQuote.priceSource := by
  cases entry <;> rfl

@[simp] theorem fieldsOf_fromDepth :
    (fieldsOf entry).fromDepth = entry.bind WatchQuote.priceObservedFromDepth := by
  cases entry <;> rfl

@[simp] theorem fieldsOf_tradeTime : (fieldsOf entry).tradeTime = entry.bind WatchQuote.priceTradeTime := by
  cases entry <;> rfl

/-- The snapshot's fields. -/
def PriceRow.asFields (row : PriceRow) : PriceFields where
  price := some row.price
  pctChange := row.pctChange
  source := some row.source
  fromDepth := some row.fromDepth

/-- Every field is the row's. -/
def PriceRow.overAll (row : PriceRow) : PriceFields where
  price := some row.price
  pctChange := pctAgainst row.price row.preClose row.pctChange
  source := some row.source
  fromDepth := some row.fromDepth
  tradeDate := row.tradeDate
  tradeTime := row.tradeTime

/-- The Tencent row leaves the date, and the change where it has no previous close. -/
def PriceRow.overDate (row : PriceRow) (old : PriceFields) : PriceFields :=
  { old with
    price := some row.price
    pctChange := pctAgainst row.price row.preClose old.pctChange
    source := some row.source
    fromDepth := some row.fromDepth
    tradeTime := row.tradeTime }

/-- The Sina row leaves the mark of depth, and the change where it has no previous close. -/
def PriceRow.overDepth (row : PriceRow) (old : PriceFields) : PriceFields :=
  { old with
    price := some row.price
    pctChange := pctAgainst row.price row.preClose old.pctChange
    source := some row.source
    tradeDate := row.tradeDate
    tradeTime := row.tradeTime }

/-! ## What each merge does to them -/

theorem fieldsOf_quoteFromFuyao (row : AllARow) : fieldsOf (quoteFromFuyao row) = row.priceRow.elim {} PriceRow.asFields := by
  unfold quoteFromFuyao AllARow.priceRow
  cases validPrice (upper row.symbol) row.price <;> rfl

theorem fieldsOf_eastmoneyQuote :
    fieldsOf (Overlays.onEntry eastmoneyQuote entry row) = fieldsOf entry := by
  unfold Overlays.onEntry eastmoneyQuote
  split
  · cases entry <;> rfl
  · rfl

theorem fieldsOf_tencentQuote (row : TencentRow) :
    fieldsOf (Overlays.onEntry tencentQuote entry row) = row.priceRow.elim (fieldsOf entry) (PriceRow.overDate · (fieldsOf entry)) := by
  unfold Overlays.onEntry tencentQuote TencentRow.priceRow
  cases validPrice row.tsCode row.price with
  | none => rfl
  | some price => cases entry <;> rfl

theorem fieldsOf_longhuQuote (row : LonghuRow) :
    fieldsOf (Overlays.onEntry longhuQuote entry row) = row.priceRow.elim (fieldsOf entry) PriceRow.overAll := by
  unfold Overlays.onEntry longhuQuote LonghuRow.priceRow
  cases validPrice row.tsCode row.price with
  | none => rfl
  | some price => cases entry <;> rfl

theorem fieldsOf_sinaQuote (row : SinaRow) (price : PriceRow) (hprice : row.priceRow = some price) :
    fieldsOf (Overlays.onEntry sinaQuote (entry.map (fun quote => { quote with price := none })) row)
      = price.overDepth (fieldsOf entry) := by
  unfold Overlays.onEntry sinaQuote
  unfold SinaRow.priceRow at hprice
  cases hvalid : validPrice row.tsCode row.close with
  | none => simp [hvalid] at hprice
  | some close =>
      rw [hvalid] at hprice
      rw [← Option.some.inj hprice]
      cases entry <;> rfl

theorem fieldsOf_overlay {ρ : Type} {key : ρ → String} {step : Option WatchQuote → ρ → Option WatchQuote}
    (hstep : ∀ entry row, fieldsOf (Overlays.onEntry step entry row) = fieldsOf entry) (quotes : WatchQuotes) (rows : List ρ)
    (symbol : String) : fieldsOf ((Overlays.overlay key step quotes rows).lookup symbol) = fieldsOf (quotes.lookup symbol) := by
  rw [Overlays.lookup_overlay]
  generalize quotes.lookup symbol = entry
  induction rows.filter (key · == symbol) generalizing entry with
  | nil => rfl
  | cons row rest ih => rw [List.foldl_cons, ih, hstep]

/-! ## Which rows are accepted -/

theorem upper_of_isSymbol {symbol : String} (h : isSymbol symbol = true) : upper symbol = symbol := by
  unfold isSymbol at h
  simp only [Bool.and_eq_true, List.contains_iff_mem, List.mem_cons, List.not_mem_nil, or_false, List.all_eq_true] at h
  obtain ⟨⟨-, hdigits⟩, hsuffix⟩ := h
  have hlist : symbol.toList.drop 6 = ['.', 'S', 'H'] ∨ symbol.toList.drop 6 = ['.', 'S', 'Z'] ∨ symbol.toList.drop 6 = ['.', 'B', 'J'] := by
    refine hsuffix.imp (fun h => ?_) (Or.imp (fun h => ?_) fun h => ?_) <;>
      exact String.toList_ofList.symm.trans (congrArg String.toList h)
  have hdrop : ∀ char ∈ symbol.toList.drop 6, char.toUpper = char := by
    intro char hmem
    rcases hlist with h | h | h <;> rw [h] at hmem <;> simp only [List.mem_cons, List.not_mem_nil, or_false] at hmem <;>
      rcases hmem with rfl | rfl | rfl <;> rfl
  have htake : ∀ char ∈ symbol.toList.take 6, char.toUpper = char := by
    intro char hmem
    have hdigit := hdigits char hmem
    unfold Char.isDigit at hdigit
    unfold Char.toUpper
    rw [dif_neg]
    simp only [Bool.and_eq_true, decide_eq_true_eq, UInt32.le_iff_toNat_le] at hdigit ⊢
    intro hlower
    have : (97 : ℕ) ≤ char.val.toNat := hlower.1
    have : char.val.toNat ≤ 57 := hdigit.2
    omega
  unfold upper
  apply String.toList_injective
  rw [String.toList_map]
  refine (List.map_congr_left fun char hmem => ?_).trans (List.map_id _)
  rw [← List.take_append_drop 6 symbol.toList] at hmem
  rcases List.mem_append.mp hmem with h | h
  · exact htake char h
  · exact hdrop char h

theorem isSymbol_of_validPrice {symbol : String} {price : Option ℚ} (h : (validPrice symbol price).isSome) : isSymbol symbol = true := by
  unfold validPrice at h
  cases price with
  | none => simp at h
  | some price =>
      by_contra hsymbol
      simp [Option.filter, hsymbol] at h

theorem codeOr_of_isSymbol {tsCode symbol : String} (h : isSymbol tsCode = true) : codeOr tsCode symbol = tsCode := by
  unfold codeOr
  rw [if_neg]
  rintro rfl
  exact absurd h (by decide)

section Accepted

variable {ρ : Type} {tsCode symbolOf : ρ → String} {step : Option WatchQuote → ρ → Option WatchQuote}

theorem rowStatus_overlay (now : Timestamp) (slo : ℚ) (row : ρ) (h : (step none row).isSome → symbolOf row = tsCode row) :
    rowStatus symbolOf (Overlays.overlay tsCode step) now slo row
      = (step none row).map (fun quote => (exchangeTimeStatus quote.priceTradeTime quote.priceTradeDate now slo).status) := by
  unfold rowStatus
  rw [Overlays.lookup_overlay]
  cases hstep : step none row with
  | none =>
      by_cases hkey : tsCode row = symbolOf row
      · simp [hkey, Overlays.onEntry, hstep]
      · simp [hkey]
  | some quote =>
      rw [h (by rw [hstep]; rfl)]
      simp [Overlays.onEntry, hstep]

/-- What `fresh_price_rows` needs to know of a source: a row that makes a quote is looked for under its own code, and the quote has the
times that the row states. -/
structure States (tsCode symbolOf : ρ → String) (step : Option WatchQuote → ρ → Option WatchQuote) (priceRow : ρ → Option PriceRow) :
    Prop where
  own : ∀ row, (step none row).isSome → symbolOf row = tsCode row
  times : ∀ row now slo,
    (step none row).map (fun quote => (exchangeTimeStatus quote.priceTradeTime quote.priceTradeDate now slo).status)
      = (priceRow row).map (fun price => (price.freshness now slo).status)

variable {priceRow : ρ → Option PriceRow}

theorem States.accepts (states : States tsCode symbolOf step priceRow) (symbols : List String) (now : Timestamp) (slo : ℚ) (row : ρ)
    (h : tsCode row ∈ symbols) :
    acceptsRow symbolOf (Overlays.overlay tsCode step) symbols now slo row = (priceRow row).any (PriceRow.freshAt now slo) := by
  unfold acceptsRow
  rw [rowStatus_overlay now slo row (states.own row), states.times row now slo]
  cases hprice : priceRow row with
  | none => simp
  | some price =>
      have hown : symbolOf row = tsCode row := by
        refine states.own row ?_
        have htimes := states.times row now slo
        rw [hprice] at htimes
        cases hstep : step none row with
        | none => simp [hstep] at htimes
        | some quote => rfl
      simp [hown, h, PriceRow.freshAt]

theorem States.not_accepts (states : States tsCode symbolOf step priceRow) (symbols : List String) (now : Timestamp) (slo : ℚ) (row : ρ)
    (h : tsCode row ∉ symbols) : acceptsRow symbolOf (Overlays.overlay tsCode step) symbols now slo row = false := by
  unfold acceptsRow
  rw [rowStatus_overlay now slo row (states.own row)]
  cases hstep : step none row with
  | none => simp
  | some quote =>
      have hown := states.own row (by rw [hstep]; rfl)
      simp [hown, h]

/-- What the accepted rows make of the fields of a symbol that is asked for. -/
theorem States.fieldsOf_merge (states : States tsCode symbolOf step priceRow) (symbols : List String) (now : Timestamp) (slo : ℚ)
    (rows : List ρ) (quotes : WatchQuotes) (symbol : String) (lay : PriceRow → PriceFields → PriceFields)
    (hlay : ∀ entry row, fieldsOf (Overlays.onEntry step entry row) = (priceRow row).elim (fieldsOf entry) (lay · (fieldsOf entry)))
    (hrequested : symbol ∈ symbols) (hone : Overlays.AtMostOne tsCode rows symbol) :
    fieldsOf ((Overlays.overlay tsCode step quotes
        (freshPriceRows symbolOf (Overlays.overlay tsCode step) rows symbols now slo).1).lookup symbol)
      = (((Overlays.rowOf tsCode rows symbol).bind priceRow).filter (PriceRow.freshAt now slo)).elim (fieldsOf (quotes.lookup symbol))
          (lay · (fieldsOf (quotes.lookup symbol))) := by
  unfold freshPriceRows
  rw [Overlays.lookup_overlay_filter _ _ _ _ _ _ hone]
  cases hrow : Overlays.rowOf tsCode rows symbol with
  | none => rfl
  | some row =>
      have hcode : tsCode row = symbol := by simpa using List.find?_some hrow
      have haccepts := states.accepts symbols now slo row (by rwa [hcode])
      rw [Option.filter_some, haccepts, Option.bind_some]
      cases hprice : priceRow row with
      | none => simp
      | some price =>
          rw [Option.any_some, Option.filter_some]
          split
          · rw [Option.elim_some, Option.elim_some, hlay, hprice, Option.elim_some]
          · rfl

end Accepted

theorem statesTencent : States TencentRow.tsCode TencentRow.wantedSymbol tencentQuote TencentRow.priceRow where
  own := by
    intro row h
    have hsymbol : isSymbol row.tsCode = true := isSymbol_of_validPrice (by simpa [tencentQuote] using h)
    unfold TencentRow.wantedSymbol
    rw [codeOr_of_isSymbol hsymbol, upper_of_isSymbol hsymbol]
  times := by
    intro row now slo
    unfold tencentQuote TencentRow.priceRow
    cases validPrice row.tsCode row.price <;> rfl

theorem statesSina : States SinaRow.tsCode SinaRow.wantedSymbol sinaQuote SinaRow.priceRow where
  own := by
    intro row h
    have hsymbol : isSymbol row.tsCode = true := isSymbol_of_validPrice (by simpa [sinaQuote] using h)
    unfold SinaRow.wantedSymbol
    rw [codeOr_of_isSymbol hsymbol, upper_of_isSymbol hsymbol]
  times := by
    intro row now slo
    unfold sinaQuote SinaRow.priceRow
    cases validPrice row.tsCode row.close <;> rfl

theorem statesLonghu : States LonghuRow.tsCode LonghuRow.wantedSymbol longhuQuote LonghuRow.priceRow where
  own := by
    intro row h
    have hsymbol : isSymbol row.tsCode = true := isSymbol_of_validPrice (by simpa [longhuQuote] using h)
    unfold LonghuRow.wantedSymbol
    rw [codeOr_of_isSymbol hsymbol, upper_of_isSymbol hsymbol]
  times := by
    intro row now slo
    unfold longhuQuote LonghuRow.priceRow
    cases validPrice row.tsCode row.price <;> rfl

theorem isSymbol_of_tencentPrice {row : TencentRow} (h : row.priceRow.isSome) : isSymbol row.tsCode = true :=
  isSymbol_of_validPrice (by simpa [TencentRow.priceRow] using h)

theorem isSymbol_of_sinaPrice {row : SinaRow} (h : row.priceRow.isSome) : isSymbol row.tsCode = true :=
  isSymbol_of_validPrice (by simpa [SinaRow.priceRow] using h)

/-! ## The symbols for which Sina is asked -/

section Stages

variable {symbols : List String} {answers : WatchAnswers} {times : CaptureTimes} {slo : ℚ} {symbol : String}

theorem fresh_of_accepts {ρ : Type} {tsCode symbolOf : ρ → String} {step : Option WatchQuote → ρ → Option WatchQuote}
    {priceRow : ρ → Option PriceRow} (states : States tsCode symbolOf step priceRow) {symbols : List String} {now : Timestamp} {slo : ℚ}
    {row : ρ} (h : acceptsRow symbolOf (Overlays.overlay tsCode step) symbols now slo row = true) :
    tsCode row ∈ symbols ∧ (priceRow row).any (PriceRow.freshAt now slo) = true := by
  by_cases hmem : tsCode row ∈ symbols
  · exact ⟨hmem, states.accepts symbols now slo row hmem ▸ h⟩
  · rw [states.not_accepts symbols now slo row hmem] at h
    exact absurd h (by decide)

theorem mem_missingPublic_iff (times : CaptureTimes) (slo : ℚ) (hrequested : symbol ∈ symbols)
    (hone : Overlays.AtMostOne TencentRow.tsCode answers.tencent symbol) :
    symbol ∈ missingPublic symbols answers times slo ↔ (tencentPrice answers slo symbol times.observedAt).isSome = false := by
  unfold missingPublic
  rw [List.mem_filter, and_iff_right hrequested]
  simp only [Bool.not_eq_true', ← Bool.not_eq_true]
  refine not_congr ?_
  rw [List.contains_iff_mem, List.mem_map]
  constructor
  · rintro ⟨row, hrow, hcode⟩
    obtain ⟨hmem, haccepts⟩ := List.mem_filter.mp hrow
    obtain ⟨-, hfresh⟩ := fresh_of_accepts statesTencent haccepts
    have hsymbol : isSymbol row.tsCode = true := by
      refine isSymbol_of_tencentPrice ?_
      cases hprice : row.priceRow with
      | none => simp [hprice] at hfresh
      | some price => rfl
    rw [codeOr_of_isSymbol hsymbol] at hcode
    have hrowOf : Overlays.rowOf TencentRow.tsCode answers.tencent symbol = some row := by
      have hfilter := Overlays.filter_of_atMostOne hone
      have : row ∈ answers.tencent.filter (TencentRow.tsCode · == symbol) := List.mem_filter.mpr ⟨hmem, by simpa using hcode⟩
      rw [hfilter] at this
      exact Option.mem_toList.mp this
    unfold tencentPrice
    rw [hrowOf, Option.bind_some]
    cases hprice : row.priceRow with
    | none => simp [hprice] at hfresh
    | some price =>
        rw [hprice, Option.any_some] at hfresh
        rw [Option.filter_some, if_pos hfresh]
        rfl
  · intro hsome
    unfold tencentPrice at hsome
    cases hrow : Overlays.rowOf TencentRow.tsCode answers.tencent symbol with
    | none => simp [hrow] at hsome
    | some row =>
        have hcode : row.tsCode = symbol := by simpa using List.find?_some hrow
        rw [hrow, Option.bind_some] at hsome
        cases hprice : row.priceRow with
        | none => simp [hprice] at hsome
        | some price =>
            have hfresh : PriceRow.freshAt times.observedAt slo price = true := by
              rw [hprice, Option.filter_some] at hsome
              by_contra hstale
              simp [hstale] at hsome
            refine ⟨row, List.mem_filter.mpr ⟨List.mem_of_find?_eq_some hrow, ?_⟩, ?_⟩
            · have haccepts := statesTencent.accepts symbols times.observedAt slo row (by rwa [hcode])
              exact haccepts.trans (by rw [hprice, Option.any_some, hfresh])
            · rw [codeOr_of_isSymbol (isSymbol_of_tencentPrice (by rw [hprice]; rfl)), hcode]

/-- The fields of the snapshot's quote. -/
def baseFields (answers : WatchAnswers) (symbol : String) : PriceFields := (allAPrice answers symbol).elim {} PriceRow.asFields

theorem fieldsOf_quotesFromAllA (hone : answers.OneRowEach symbol) :
    fieldsOf ((quotesFromAllA answers.allA).lookup symbol) = baseFields answers symbol := by
  unfold quotesFromAllA baseFields allAPrice
  rw [Overlays.lookup_overlay_one _ _ _ _ _ hone.allA]
  cases Overlays.rowOf (fun row => upper row.symbol) answers.allA symbol with
  | none => rfl
  | some row =>
      rw [Option.bind_some, ← fieldsOf_quoteFromFuyao]
      simp [Overlays.onEntry]

/-- The fields once the Tencent row is merged. -/
def depthFields (answers : WatchAnswers) (times : CaptureTimes) (slo : ℚ) (symbol : String) : PriceFields :=
  (tencentPrice answers slo symbol times.evaluatedAt).elim (baseFields answers symbol) (PriceRow.overDate · (baseFields answers symbol))

/-- The fields once the public rows are merged. -/
def publicFields (answers : WatchAnswers) (times : CaptureTimes) (slo : ℚ) (symbol : String) : PriceFields :=
  (sinaPrice answers times slo symbol).elim (depthFields answers times slo symbol)
    (PriceRow.overDepth · (depthFields answers times slo symbol))

/-- What the Sina rows, all of which are accepted, make of the fields of a symbol. -/
theorem fieldsOf_sinaRows (quotes : WatchQuotes) (rows : List SinaRow) (missing : List String) (now : Timestamp)
    (hone : Overlays.AtMostOne SinaRow.tsCode rows symbol) :
    fieldsOf ((mergeSinaWatchQuotes (withoutPrices quotes (freshPriceRows SinaRow.wantedSymbol mergeSinaWatchQuotes rows missing now slo).1)
        (freshPriceRows SinaRow.wantedSymbol mergeSinaWatchQuotes rows missing now slo).1).lookup symbol)
      = (if symbol ∈ missing then
            ((Overlays.rowOf SinaRow.tsCode rows symbol).bind SinaRow.priceRow).filter (PriceRow.freshAt now slo)
          else none).elim (fieldsOf (quotes.lookup symbol)) (PriceRow.overDepth · (fieldsOf (quotes.lookup symbol))) := by
  have hcodes : ∀ row ∈ (freshPriceRows SinaRow.wantedSymbol mergeSinaWatchQuotes rows missing now slo).1,
      codeOr row.tsCode row.symbol = row.tsCode := by
    intro row hrow
    obtain ⟨-, hfresh⟩ := fresh_of_accepts statesSina (List.mem_filter.mp hrow).2
    refine codeOr_of_isSymbol (isSymbol_of_sinaPrice ?_)
    cases hprice : row.priceRow with
    | none => simp [hprice] at hfresh
    | some price => rfl
  unfold withoutPrices
  rw [Overlays.overlay_congr hcodes]
  unfold freshPriceRows mergeSinaWatchQuotes
  rw [Overlays.lookup_overlay_filter _ _ _ _ _ _ hone, Overlays.lookup_overlay_filter _ _ _ _ _ _ hone]
  cases hrow : Overlays.rowOf SinaRow.tsCode rows symbol with
  | none => simp
  | some row =>
      have hcode : row.tsCode = symbol := by simpa using List.find?_some hrow
      rw [Option.filter_some, Option.bind_some]
      by_cases hmem : symbol ∈ missing
      · rw [statesSina.accepts missing now slo row (by rwa [hcode]), if_pos hmem]
        cases hprice : row.priceRow with
        | none => simp
        | some price =>
            rw [Option.any_some, Option.filter_some]
            split
            · have hdropped : Overlays.onEntry (fun entry (_ : SinaRow) => entry.map fun quote => { quote with price := none })
                  (quotes.lookup symbol) row = (quotes.lookup symbol).map fun quote => { quote with price := none } := by
                unfold Overlays.onEntry
                cases quotes.lookup symbol <;> rfl
              rw [Option.elim_some, Option.elim_some, Option.elim_some, hdropped, fieldsOf_sinaQuote _ row price hprice]
            · rfl
      · rw [statesSina.not_accepts missing now slo row (by rwa [hcode]), if_neg hmem]
        rfl

theorem fieldsOf_publicQuotes (times : CaptureTimes) (slo : ℚ) (hrequested : symbol ∈ symbols) (hone : answers.OneRowEach symbol) :
    fieldsOf ((publicQuotes symbols answers times slo).lookup symbol) = publicFields answers times slo symbol := by
  have hsinaRows : Overlays.AtMostOne SinaRow.tsCode
      (if (missingPublic symbols answers times slo).isEmpty then [] else answers.sina) symbol := by
    split
    · exact Nat.zero_le 1
    · exact hone.sina
  have hdepth : fieldsOf ((mergeWatchQuotePrices (mergeEastmoneyWatchFlows (quotesFromAllA answers.allA) answers.eastmoney)
      (freshPriceRows TencentRow.wantedSymbol mergeWatchQuotePrices answers.tencent symbols times.evaluatedAt slo).1).lookup symbol)
        = depthFields answers times slo symbol := by
    have hbase : fieldsOf ((mergeEastmoneyWatchFlows (quotesFromAllA answers.allA) answers.eastmoney).lookup symbol)
        = baseFields answers symbol :=
      (fieldsOf_overlay fieldsOf_eastmoneyQuote _ _ symbol).trans (fieldsOf_quotesFromAllA hone)
    have hmerge := statesTencent.fieldsOf_merge symbols times.evaluatedAt slo answers.tencent
      (mergeEastmoneyWatchFlows (quotesFromAllA answers.allA) answers.eastmoney) symbol PriceRow.overDate fieldsOf_tencentQuote
      hrequested hone.tencent
    rw [hbase] at hmerge
    exact hmerge
  unfold publicQuotes
  rw [fieldsOf_sinaRows _ _ _ _ hsinaRows, hdepth]
  unfold publicFields sinaPrice
  have hmem := mem_missingPublic_iff times slo hrequested hone.tencent
  by_cases hasked : symbol ∈ missingPublic symbols answers times slo
  · have hnonempty : (missingPublic symbols answers times slo).isEmpty = false := by
      rw [List.isEmpty_eq_false_iff]
      exact List.ne_nil_of_mem hasked
    rw [if_pos hasked, hnonempty, hmem.mp hasked]
    rfl
  · rw [if_neg hasked, if_pos (eq_true_of_ne_false fun h => hasked (hmem.mpr h))]

/-- The fields that a quote of the capture comes to. -/
def finalFields (answers : WatchAnswers) (times : CaptureTimes) (slo : ℚ) (symbol : String) : PriceFields :=
  (licensedPrice answers times slo symbol).elim (publicFields answers times slo symbol) PriceRow.overAll

theorem fieldsOf_keepUnfresh (accepted rows : List LonghuRow) (quotes : WatchQuotes) :
    fieldsOf ((keepUnfresh accepted quotes rows).lookup symbol) = fieldsOf (quotes.lookup symbol) := by
  refine fieldsOf_overlay (fun entry row => ?_) quotes rows symbol
  unfold Overlays.onEntry
  dsimp only
  split
  · rfl
  · cases entry <;> rfl

theorem fieldsOf_licensedQuotes (times : CaptureTimes) (slo : ℚ) (hrequested : symbol ∈ symbols) (hone : answers.OneRowEach symbol) :
    fieldsOf ((licensedQuotes symbols answers times slo (publicQuotes symbols answers times slo)).lookup symbol)
      = finalFields answers times slo symbol := by
  have hpublic := fieldsOf_publicQuotes times slo hrequested hone
  unfold licensedQuotes finalFields licensedPrice
  cases hlicensed : answers.licensed with
  | none => exact hpublic
  | some rows =>
      have hmerge := statesLonghu.fieldsOf_merge symbols times.licensedAt slo rows (publicQuotes symbols answers times slo) symbol
        (fun price _ => price.overAll) fieldsOf_longhuQuote hrequested (hone.licensed rows hlicensed)
      rw [hpublic] at hmerge
      exact (fieldsOf_keepUnfresh _ rows _).trans hmerge

/-- **The fields of the price that a requested symbol ends with.** -/
theorem fieldsOf_captureWatchQuotes (times : CaptureTimes) (slo : ℚ) (hrequested : symbol ∈ symbols) (hone : answers.OneRowEach symbol) :
    fieldsOf ((captureWatchQuotes symbols answers times slo).lookup symbol) = finalFields answers times slo symbol := by
  rw [← fieldsOf_licensedQuotes times slo hrequested hone]
  unfold captureWatchQuotes
  rw [Overlays.lookup_mapEntries, lookup_applyDerived]
  cases (licensedQuotes symbols answers times slo (publicQuotes symbols answers times slo)).lookup symbol <;> rfl

theorem priceFreshness_captureWatchQuotes {quote : WatchQuote}
    (h : (captureWatchQuotes symbols answers times slo).lookup symbol = some quote) :
    quote.priceFreshness
      = some (exchangeTimeStatus quote.priceTradeTime quote.priceTradeDate (lastEvaluatedAt answers times) slo) := by
  unfold captureWatchQuotes at h
  rw [Overlays.lookup_mapEntries] at h
  obtain ⟨inner, -, rfl⟩ := Option.map_eq_some_iff.mp h
  rfl

end Stages

/-! ## One row, or two -/

/-- The fields are those of the row. -/
structure PriceFields.Of (fields : PriceFields) (row : Option PriceRow) : Prop where
  price : fields.price = row.map PriceRow.price
  pctChange : row.elim (fields.pctChange = none) (PriceRow.Vouches · fields.pctChange)
  source : fields.source = row.map PriceRow.source
  tradeTime : fields.tradeTime = row.bind PriceRow.tradeTime
  fromDepth : fields.fromDepth.getD false = (row.map PriceRow.fromDepth).getD false

theorem SuppliedBy.fieldsOf {row : Option PriceRow} {quote : Option WatchQuote} {now : Timestamp} {slo : ℚ}
    (h : SuppliedBy row quote now slo) : (fieldsOf quote).Of row where
  price := by simpa using h.price
  pctChange := by simpa using h.pctChange
  source := by simpa using h.source
  tradeTime := by simpa using h.tradeTime
  fromDepth := by simpa using h.fromDepth

theorem vouches_iff (row : PriceRow) (snapshot : Option PriceRow) :
    row.Vouches (pctAgainst row.price row.preClose (snapshot.bind PriceRow.pctChange)) ↔ row.OwnChange snapshot := by
  unfold PriceRow.Vouches PriceRow.OwnChange pctAgainst
  cases hclose : row.preClose.filter (fun preClose => decide (0 < preClose)) with
  | none =>
      have hnone : ¬ ∃ preClose, row.preClose = some preClose ∧ 0 < preClose := by
        rintro ⟨preClose, hpre, hpos⟩
        exact absurd hpos (not_lt.mpr (by simpa [hpre] using hclose))
      simp only [hnone, false_or]
      exact or_comm
  | some preClose =>
      obtain ⟨hpre, hpos⟩ := Option.filter_eq_some_iff.mp hclose
      simp only [true_or, true_iff]
      exact Or.inl ⟨preClose, hpre, by simpa using hpos⟩

section Choice

variable {answers : WatchAnswers} {times : CaptureTimes} {slo : ℚ} {symbol : String}

theorem tencentPrice_facts {now : Timestamp} {row : PriceRow} (h : tencentPrice answers slo symbol now = some row) :
    row.source = "tencent_batched_watch_quote" ∧ row.tradeDate = none := by
  unfold tencentPrice at h
  obtain ⟨stated, -, hstated⟩ := Option.bind_eq_some_iff.mp (Option.filter_eq_some_iff.mp h).1
  obtain ⟨price, -, rfl⟩ := Option.map_eq_some_iff.mp hstated
  exact ⟨rfl, rfl⟩

theorem sinaPrice_facts {row : PriceRow} (h : sinaPrice answers times slo symbol = some row) :
    row.source = "sina_batched_watch_quote" ∧ row.fromDepth = false := by
  unfold sinaPrice at h
  split at h
  · exact absurd h (by simp)
  · obtain ⟨stated, -, hstated⟩ := Option.bind_eq_some_iff.mp (Option.filter_eq_some_iff.mp h).1
    obtain ⟨price, -, rfl⟩ := Option.map_eq_some_iff.mp hstated
    exact ⟨rfl, rfl⟩

theorem allAPrice_facts {row : PriceRow} (h : allAPrice answers symbol = some row) :
    row.preClose = none ∧ row.tradeDate = none ∧ row.tradeTime = none ∧ row.fromDepth = false := by
  unfold allAPrice at h
  obtain ⟨stated, -, hstated⟩ := Option.bind_eq_some_iff.mp h
  obtain ⟨price, -, rfl⟩ := Option.map_eq_some_iff.mp hstated
  exact ⟨rfl, rfl, rfl, rfl⟩

theorem baseFields_facts (answers : WatchAnswers) (symbol : String) :
    (baseFields answers symbol).pctChange = (allAPrice answers symbol).bind PriceRow.pctChange ∧
    (baseFields answers symbol).tradeDate = none ∧ (baseFields answers symbol).fromDepth.getD false = false ∧
    (baseFields answers symbol).Of (allAPrice answers symbol) := by
  unfold baseFields
  cases hbase : allAPrice answers symbol with
  | none => exact ⟨rfl, rfl, rfl, rfl, rfl, rfl, rfl, rfl⟩
  | some row =>
      obtain ⟨hclose, hdate, htime, hdepth⟩ := allAPrice_facts hbase
      refine ⟨rfl, rfl, hdepth, rfl, Or.inl ?_, rfl, htime.symm, rfl⟩
      rw [hclose]
      rfl

theorem finalFields_of_iff (answers : WatchAnswers) (times : CaptureTimes) (slo : ℚ) (symbol : String) :
    ((finalFields answers times slo symbol).Of (chosenRow answers times slo symbol) ↔ Unmixed answers times slo symbol) ∧
      (Unmixed answers times slo symbol →
        (finalFields answers times slo symbol).tradeDate = (chosenRow answers times slo symbol).bind PriceRow.tradeDate) := by
  obtain ⟨hpct, hdate, hdepth, hof⟩ := baseFields_facts answers symbol
  have hvouches : ∀ row : PriceRow, row.Vouches (pctAgainst row.price row.preClose (baseFields answers symbol).pctChange) ↔
      row.OwnChange (allAPrice answers symbol) := by
    intro row
    rw [hpct]
    exact vouches_iff row _
  unfold finalFields chosenRow Unmixed publicFields depthFields
  cases hlicensed : licensedPrice answers times slo symbol with
  | some row =>
      rw [Option.some_or]
      exact ⟨iff_of_true ⟨rfl, Or.inl rfl, rfl, rfl, rfl⟩ (Or.inl rfl), fun _ => rfl⟩
  | none =>
      simp only [Option.none_or, Option.elim_none, Option.isSome_none, Bool.false_eq_true, false_or]
      cases htencent : tencentPrice answers slo symbol times.evaluatedAt with
      | none =>
          cases hsina : sinaPrice answers times slo symbol with
          | none =>
              refine ⟨iff_of_true hof trivial, fun _ => hdate.trans ?_⟩
              cases hbase : allAPrice answers symbol with
              | none => rfl
              | some row => exact (allAPrice_facts hbase).2.1.symm
          | some row =>
              refine ⟨⟨fun h => (hvouches row).mp h.pctChange, fun h => ⟨rfl, (hvouches row).mpr h, rfl, rfl, ?_⟩⟩, fun _ => rfl⟩
              exact hdepth.trans (sinaPrice_facts hsina).2.symm
      | some row =>
          cases hsina : sinaPrice answers times slo symbol with
          | none =>
              refine ⟨⟨fun h => (hvouches row).mp h.pctChange, fun h => ⟨rfl, (hvouches row).mpr h, rfl, rfl, rfl⟩⟩, fun _ => ?_⟩
              exact hdate.trans (tencentPrice_facts htencent).2.symm
          | some other =>
              -- the Sina row comes over the Tencent row that is chosen
              refine ⟨iff_of_false (fun h => ?_) id, False.elim⟩
              have hsource := Option.some.inj h.source
              rw [(sinaPrice_facts hsina).1, (tencentPrice_facts htencent).1] at hsource
              exact absurd hsource (by decide)

end Choice

/-- **A requested symbol's price, change, source, time and mark of depth are those of the one row that is chosen, and its freshness
dates them, exactly if no second row gets in.** -/
theorem captureWatchQuotes_oneRow_iff (symbols : List String) (answers : WatchAnswers) (times : CaptureTimes) (slo : ℚ) (symbol : String)
    (hrequested : symbol ∈ symbols) (hone : answers.OneRowEach symbol) :
    SuppliedBy (chosenRow answers times slo symbol) ((captureWatchQuotes symbols answers times slo).lookup symbol)
        (lastEvaluatedAt answers times) slo
      ↔ Unmixed answers times slo symbol := by
  have hfields := fieldsOf_captureWatchQuotes times slo hrequested hone
  obtain ⟨hof, hdate⟩ := finalFields_of_iff answers times slo symbol
  constructor
  · intro h
    exact hof.mp (hfields ▸ h.fieldsOf)
  · intro h
    have hrow := hof.mpr h
    have hdated := hdate h
    rw [← hfields] at hrow hdated
    refine ⟨?_, ?_, ?_, ?_, ?_, fun priced hpriced => ?_⟩
    · simpa using hrow.price
    · simpa using hrow.pctChange
    · simpa using hrow.source
    · simpa using hrow.tradeTime
    · simpa using hrow.fromDepth
    · rw [priceFreshness_captureWatchQuotes hpriced, ← hdated, ← hrow.tradeTime, hpriced]
      rfl

/-! ## A Tencent row ahead of the scan's clock -/

/-- 10:00:00 in Shanghai, with the public answers evaluated two seconds later and the licensed one after three. -/
def atTen : CaptureTimes where
  observedAt := 1791856800000000
  evaluatedAt := 1791856802000000
  licensedAt := 1791856803000000
  observed_le := by decide
  evaluated_le := by decide

/-- Both public sources answer; the Tencent row is stamped at 10:00:06 or as given. -/
def publicAnswers (tencentTime : String) : WatchAnswers where
  allA := []
  tencent := [{ tsCode := "600000.SH", price := some 10, preClose := some 8, tradeTime := some tencentTime }]
  sina := [{ tsCode := "600000.SH", close := some 9, preClose := some 8, tradeDate := some "2026-10-13", tradeTime := some "09:59:58" }]
  eastmoney := []
  licensed := none
  reference := []

theorem captureWatchQuotes_oneRow_iff_inTime :
    SuppliedBy (chosenRow (publicAnswers "20261013095959") atTen 20 "600000.SH")
        ((captureWatchQuotes ["600000.SH"] (publicAnswers "20261013095959") atTen 20).lookup "600000.SH")
        (lastEvaluatedAt (publicAnswers "20261013095959") atTen) 20 := by
  refine (captureWatchQuotes_oneRow_iff ["600000.SH"] (publicAnswers "20261013095959") atTen 20 "600000.SH" (by decide)
    ⟨by decide, by decide, by decide, fun rows h => absurd h (Option.some_ne_none rows).symm⟩).mpr (Or.inr ?_)
  have hsina : sinaPrice (publicAnswers "20261013095959") atTen 20 "600000.SH" = none := by decide +kernel
  have htencent : tencentPrice (publicAnswers "20261013095959") 20 "600000.SH" atTen.evaluatedAt =
      some { price := 10, preClose := some 8, source := "tencent_batched_watch_quote", tradeTime := some "20261013095959"
             fromDepth := true } := by
    decide +kernel
  rw [hsina, htencent]
  exact Or.inl ⟨8, rfl, by norm_num⟩

/-- The Tencent row is not accepted at first, and fresh two seconds later; the Sina row takes its price away, and leaves its mark of
depth. -/
theorem sina_over_tencent :
    "600000.SH" ∈ ["600000.SH"] ∧ (publicAnswers "20261013100006").OneRowEach "600000.SH" ∧
      (chosenRow (publicAnswers "20261013100006") atTen 20 "600000.SH").map PriceRow.source = some "tencent_batched_watch_quote" ∧
      ((captureWatchQuotes ["600000.SH"] (publicAnswers "20261013100006") atTen 20).lookup "600000.SH").bind WatchQuote.priceSource
        = some "sina_batched_watch_quote" ∧
      ((captureWatchQuotes ["600000.SH"] (publicAnswers "20261013100006") atTen 20).lookup "600000.SH").bind
          WatchQuote.priceObservedFromDepth = some true ∧
      ¬ SuppliedBy (chosenRow (publicAnswers "20261013100006") atTen 20 "600000.SH")
        ((captureWatchQuotes ["600000.SH"] (publicAnswers "20261013100006") atTen 20).lookup "600000.SH")
        (lastEvaluatedAt (publicAnswers "20261013100006") atTen) 20 := by
  have hchosen : (chosenRow (publicAnswers "20261013100006") atTen 20 "600000.SH").map PriceRow.source
      = some "tencent_batched_watch_quote" := by
    decide +kernel
  have hsource : ((captureWatchQuotes ["600000.SH"] (publicAnswers "20261013100006") atTen 20).lookup "600000.SH").bind
      WatchQuote.priceSource = some "sina_batched_watch_quote" := by
    decide +kernel
  refine ⟨by decide, ⟨by decide, by decide, by decide, fun rows h => absurd h (Option.some_ne_none rows).symm⟩, hchosen, hsource,
    by decide +kernel, fun h => ?_⟩
  have := h.source
  rw [hsource, hchosen] at this
  exact absurd this (by decide)

end TradingHarness
