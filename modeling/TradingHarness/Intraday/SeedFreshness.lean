import TradingHarness.Intraday.Indicators

set_option autoImplicit false

/-! # Is the seed the previous session's?

The freshness test of a reading compares the seed with the bars that the seed was computed from. So a lagging
history is never noticed, and the bars of a session are the stored ones only while no late bar changes them. -/

namespace TradingHarness.Indicators

/-! ## One reading -/

section Reading

variable {F : Type} [Arithmetic F] {quotes : List (String × Quote F)} {tradingDate : Date} {basis : Basis} {symbol : String}
  {history : List (Bar F)}

theorem getLast?_rtake {α : Type} (entries : List α) (count : ℕ) (hcount : 0 < count) :
    (entries.rtake count).getLast? = entries.getLast? := by
  unfold List.rtake
  rw [List.getLast?_drop]
  split
  next hshort =>
    have hempty : entries = [] := List.length_eq_zero_iff.mp (by omega)
    rw [hempty, List.getLast?_nil]
  next => rfl

theorem computedSeed_tradeDate {row : FactorRow F} (h : computedSeed history basis = some row) :
    row.tradeDate = history.getLast?.map Bar.tradingDate ∧ history ≠ [] := by
  unfold computedSeed at h
  split at h
  next => exact absurd h (by simp)
  next hlong =>
    have hne : history ≠ [] := by
      rintro rfl
      exact hlong (Or.inr (Nat.zero_lt_succ _))
    split at h
    next => exact absurd h (by simp)
    next => exact absurd h (by simp)
    next =>
      rw [← Option.some.inj h]
      exact ⟨rfl, hne⟩

theorem macdSeed_tradeDate {row : FactorRow F} {seed : MacdSeed F} (h : macdSeed row basis = some seed) :
    seed.tradeDate = row.tradeDate := by
  unfold macdSeed at h
  split at h
  next => rw [← Option.some.inj h]
  next => exact absurd h (by simp)

theorem kdjSeed_tradeDate {row : FactorRow F} {seed : KdjSeed F} (h : kdjSeed row basis = some seed) :
    seed.tradeDate = row.tradeDate := by
  unfold kdjSeed at h
  split at h
  next => rw [← Option.some.inj h]
  next => exact absurd h (by simp)

theorem advanceMacd_seedTradeDate {seed : Option (MacdSeed F)} {price : Option F} {macd : Macd F}
    (h : advanceMacd seed price = some macd) : ∃ carried, seed = some carried ∧ macd.seedTradeDate = carried.tradeDate := by
  unfold advanceMacd at h
  split at h
  next carried _ =>
    split at h
    next =>
      rw [← Option.some.inj h]
      exact ⟨carried, rfl, rfl⟩
    next => exact absurd h (by simp)
  next => exact absurd h (by simp)

theorem advanceKdj_seedTradeDate {seed : Option (KdjSeed F)} {price high low : Option F} {kdj : Kdj F}
    (h : advanceKdj seed price high low = some kdj) : ∃ carried, seed = some carried ∧ kdj.seedTradeDate = carried.tradeDate := by
  unfold advanceKdj at h
  split at h
  next carried _ _ _ =>
    split at h
    next =>
      dsimp only at h
      split at h
      next => exact absurd h (by simp)
      next =>
        rw [← Option.some.inj h]
        exact ⟨carried, rfl, rfl⟩
    next => exact absurd h (by simp)
  next => exact absurd h (by simp)

theorem macdOf_seedTradeDate {row : FactorRow F} {price : Option F} {macd : Macd F} (h : macdOf row price basis = some macd) :
    macd.seedTradeDate = row.tradeDate := by
  obtain ⟨seed, hseed, hdate⟩ := advanceMacd_seedTradeDate h
  rw [hdate, macdSeed_tradeDate hseed]

theorem kdjOf_seedTradeDate {row : FactorRow F} {price sessionHigh sessionLow : Option F} {bars : List (Bar F)} {kdj : Kdj F}
    (h : kdjOf row price bars sessionHigh sessionLow basis = some kdj) : kdj.seedTradeDate = row.tradeDate := by
  unfold kdjOf at h
  split at h
  next =>
    obtain ⟨seed, hseed, hdate⟩ := advanceKdj_seedTradeDate h
    rw [hdate, kdjSeed_tradeDate hseed]
  next => exact absurd h (by simp)

/-- The quote of a symbol. -/
def quoteOf (quotes : List (String × Quote F)) (symbol : String) : Quote F := (quotes.lookup symbol).getD ⟨none, none, none⟩

/-- The bars give a seed that the quote advances. -/
def Advances (quotes : List (String × Quote F)) (basis : Basis) (symbol : String) (history : List (Bar F)) : Prop :=
  ∃ row, computedSeed history basis = some row ∧ number (quoteOf quotes symbol).price ≠ none ∧
    (macdOf row (quoteOf quotes symbol).price basis ≠ none ∨
      kdjOf row (quoteOf quotes symbol).price (history.rtake (kdjWindowSessions - 1)) (quoteOf quotes symbol).sessionHigh
        (quoteOf quotes symbol).sessionLow basis ≠ none)

/-- A seed of the last of the prior sessions passes the freshness test. -/
theorem realtimeIndicators_of_last {row : FactorRow F} {price sessionHigh sessionLow : Option F} {prior : List (Bar F)}
    (hlast : prior.getLast?.map Bar.tradingDate = row.tradeDate) (hsome : row.tradeDate ≠ none) :
    realtimeIndicators (some row) price prior sessionHigh sessionLow basis =
      if (number price).isNone then reading .priceUnavailable (some .priceNotNumeric) none none basis price
      else if (macdOf row price basis).isNone && (kdjOf row price prior sessionHigh sessionLow basis).isNone then
        reading .seedUnavailable (some .noUsableFactor) none none basis price
      else
        reading .completed none (macdOf row price basis) (kdjOf row price prior sessionHigh sessionLow basis) basis price := by
  have hfresh : ¬ (row.tradeDate = none ∨ row.tradeDate ≠ row.tradeDate) := by simpa using hsome
  unfold realtimeIndicators
  dsimp only
  rw [hlast, if_neg hfresh]

theorem reading_seedTradeDate {status : Status} {reason : Option Reason} {macd : Option (Macd F)} {kdj : Option (Kdj F)}
    {price : Option F} {day : Option Date} (hmacd : ∀ half, macd = some half → half.seedTradeDate = day)
    (hkdj : ∀ half, kdj = some half → half.seedTradeDate = day) (hhalves : macd ≠ none ∨ kdj ≠ none) :
    (reading status reason macd kdj basis price).seedTradeDate = day := by
  rcases macd with _ | half
  · rcases kdj with _ | half
    · simp at hhalves
    · exact hkdj half rfl
  · exact hmacd half rfl

/-- The reading of a symbol with a seed: its own bars are never stale. -/
theorem symbolReading_of_seed (quotes : List (String × Quote F)) (tradingDate : Date) (symbol : String) {row : FactorRow F}
    (hrow : computedSeed history basis = some row) :
    (symbolReading quotes tradingDate basis symbol history).toReading =
      if (number (quoteOf quotes symbol).price).isNone then
        reading .priceUnavailable (some .priceNotNumeric) none none basis (quoteOf quotes symbol).price
      else if (macdOf row (quoteOf quotes symbol).price basis).isNone &&
          (kdjOf row (quoteOf quotes symbol).price (history.rtake (kdjWindowSessions - 1)) (quoteOf quotes symbol).sessionHigh
            (quoteOf quotes symbol).sessionLow basis).isNone then
        reading .seedUnavailable (some .noUsableFactor) none none basis (quoteOf quotes symbol).price
      else
        reading .completed none (macdOf row (quoteOf quotes symbol).price basis)
          (kdjOf row (quoteOf quotes symbol).price (history.rtake (kdjWindowSessions - 1)) (quoteOf quotes symbol).sessionHigh
            (quoteOf quotes symbol).sessionLow basis) basis (quoteOf quotes symbol).price := by
  obtain ⟨hdate, hne⟩ := computedSeed_tradeDate hrow
  have hlast : ((history.rtake (kdjWindowSessions - 1)).getLast?).map Bar.tradingDate = row.tradeDate := by
    rw [getLast?_rtake history (kdjWindowSessions - 1) (by decide), hdate]
  have hsome : row.tradeDate ≠ none := by
    rw [hdate, ne_eq, Option.map_eq_none_iff, List.getLast?_eq_none_iff]
    exact hne
  unfold symbolReading
  rw [hrow]
  exact realtimeIndicators_of_last hlast hsome

/-- **Whenever a seed is advanced the reading is completed**, whatever the date of the last bar. -/
theorem symbolReading_of_advances (h : Advances quotes basis symbol history) :
    (symbolReading quotes tradingDate basis symbol history).status = .completed ∧
      (symbolReading quotes tradingDate basis symbol history).seedTradeDate = history.getLast?.map Bar.tradingDate := by
  obtain ⟨row, hrow, hprice, hhalves⟩ := h
  have hreading := symbolReading_of_seed quotes tradingDate symbol hrow
  rw [if_neg (by simpa using hprice), if_neg (by simpa [imp_iff_not_or] using hhalves)] at hreading
  rw [hreading, ← (computedSeed_tradeDate hrow).1]
  refine ⟨rfl, reading_seedTradeDate (fun _ => macdOf_seedTradeDate) (fun _ => kdjOf_seedTradeDate) hhalves⟩

theorem advances_of_completed (h : (symbolReading quotes tradingDate basis symbol history).status = .completed) :
    Advances quotes basis symbol history := by
  rcases hrow : computedSeed history basis with _ | row
  · have hnone : (symbolReading quotes tradingDate basis symbol history).status = .seedUnavailable := by
      unfold symbolReading
      rw [hrow]
      rfl
    rw [hnone] at h
    exact absurd h (by decide)
  · rw [symbolReading_of_seed quotes tradingDate symbol hrow] at h
    split at h
    next => exact absurd h (by simp [reading])
    next hprice =>
      split at h
      next => exact absurd h (by simp [reading])
      next hhalves => exact ⟨row, hrow, by simpa using hprice, by simpa [imp_iff_not_or] using hhalves⟩

end Reading

/-! ## The bars of a session -/

section Session

variable {F : Type} {rows : List (StoredBar F)} {row : StoredBar F}

theorem dailyBars_storeBar (before : Date) (knownAt : Option Timestamp) (symbol : String)
    (hleft : ∀ stored : StoredBar F, stored.key = row.key → isRead symbol before knownAt stored = false) :
    dailyBars (storeBar row rows) before knownAt symbol = dailyBars rows before knownAt symbol := by
  have hfilter : (storeBar row rows).filter (isRead symbol before knownAt) = rows.filter (isRead symbol before knownAt) := by
    unfold storeBar
    split
    next => exact Keyed.filter_update (fun _ => row) _ (fun other _ => hleft other) (fun _ _ _ => hleft row rfl)
    next => rw [List.filter_append, List.filter_cons, hleft row rfl, List.filter_nil]; simp
  unfold dailyBars
  rw [hfilter]

theorem dailyBars_storeBar_of_ne (before : Date) (knownAt : Option Timestamp) {symbol : String} (hne : symbol ≠ row.symbol) :
    dailyBars (storeBar row rows) before knownAt symbol = dailyBars rows before knownAt symbol := by
  refine dailyBars_storeBar before knownAt symbol (fun stored hkey => ?_)
  have hsymbol : stored.symbol = row.symbol := congrArg Prod.fst hkey
  simp [isRead, hsymbol, Ne.symm hne]

theorem dailyBars_storeBar_of_le {before : Date} (knownAt : Option Timestamp) (symbol : String)
    (hdate : before ≤ row.bar.tradingDate) :
    dailyBars (storeBar row rows) before knownAt symbol = dailyBars rows before knownAt symbol := by
  refine dailyBars_storeBar before knownAt symbol (fun stored hkey => ?_)
  have hday : stored.bar.tradingDate = row.bar.tradingDate := congrArg Prod.snd hkey
  have hlate : ¬ stored.bar.tradingDate < before := by
    rw [hday]
    exact Int.not_lt.mpr hdate
  simp [isRead, hlate]

/-- What the cache holds of a session is what the table has for it. -/
def CacheFits (world : World F) : Prop :=
  ∀ entry ∈ world.sessionBars, ReadThrough.Fits (dailyBars world.rows entry.1 none) entry.2

/-- The arriving bar leaves the bars of its symbol that a session has read as they are. -/
def LeavesSessions (world : World F) (row : StoredBar F) : Prop :=
  ∀ entry ∈ world.sessionBars, row.symbol ∈ entry.2.map Prod.fst →
    dailyBars (storeBar row world.rows) entry.1 none row.symbol = dailyBars world.rows entry.1 none row.symbol

theorem cacheFits_store {world : World F} (h : CacheFits world) (hleaves : LeavesSessions world row) :
    CacheFits { world with rows := storeBar row world.rows } := by
  intro entry hentry
  refine (h entry hentry).change (fun symbol hsymbol => ?_)
  by_cases hsame : symbol = row.symbol
  · subst hsame
    exact hleaves entry hentry hsymbol
  · exact dailyBars_storeBar_of_ne entry.1 none hsame

theorem mem_requested {symbols : List String} {symbol : String} :
    symbol ∈ requested symbols ↔ symbol ∈ symbols ∧ symbol.isEmpty = false := by
  unfold requested
  rw [(List.perm_insertionSort _ _).mem_iff, List.mem_dedup, List.mem_filter]
  simp

theorem fits_session {world : World F} {kept : List (Date × List (String × List (Bar F)))}
    (h : ∀ entry ∈ kept, ReadThrough.Fits (dailyBars world.rows entry.1 none) entry.2) (tradingDate : Date) :
    ReadThrough.Fits (dailyBars world.rows tradingDate none) ((kept.lookup tradingDate).getD []) := by
  rcases hkept : kept.lookup tradingDate with _ | cached
  · exact ReadThrough.fits_nil
  · exact h (tradingDate, cached) (Dict.mem_of_lookup kept tradingDate cached hkept)

theorem fits_filter {world : World F} (h : CacheFits world) (keep : Date × List (String × List (Bar F)) → Bool) :
    ∀ entry ∈ world.sessionBars.filter keep, ReadThrough.Fits (dailyBars world.rows entry.1 none) entry.2 :=
  fun entry hentry => h entry (List.mem_filter.mp hentry).1

theorem lookup_cacheSession {world : World F} (h : CacheFits world) (symbols : List String) (tradingDate : Date) {symbol : String}
    (hsymbol : symbol ∈ requested symbols) :
    (cacheSession (requested symbols) world tradingDate).lookup symbol = some (dailyBars world.rows tradingDate none symbol) := by
  refine ReadThrough.lookup_filled (fits_session (fits_filter h _) tradingDate) (fun missed hmissed => ?_) hsymbol
  exact mem_requested.mpr ⟨hmissed, (mem_requested.mp (List.mem_filter.mp hmissed).1).2⟩

theorem cacheFits_sessionBars {world : World F} (h : CacheFits world) (symbols : List String) (tradingDate : Date)
    (knownAt : Option Timestamp) : CacheFits (sessionBars symbols world tradingDate knownAt).2 := by
  cases knownAt with
  | some knownAt => exact h
  | none =>
      intro entry hentry
      rw [List.mem_singleton.mp hentry]
      exact (fits_session (fits_filter h _) tradingDate).update (ReadThrough.fits_answers _)

theorem lookup_sessionBars {world : World F} (h : CacheFits world) (symbols : List String) (tradingDate : Date) {symbol : String}
    (hsymbol : symbol ∈ requested symbols) :
    (((sessionBars (requested symbols) world tradingDate none).1.lookup symbol).getD []) =
      dailyBars world.rows tradingDate none symbol := by
  have hfits : ReadThrough.Fits (fun symbol => ((cacheSession (requested symbols) world tradingDate).lookup symbol).getD [])
      (sessionBars (requested symbols) world tradingDate none).1 := ReadThrough.fits_answers _
  have hkeys : symbol ∈ (sessionBars (requested symbols) world tradingDate none).1.map Prod.fst := by
    unfold sessionBars
    simpa using hsymbol
  rw [hfits.lookup hkeys, Option.getD_some, lookup_cacheSession h symbols tradingDate hsymbol, Option.getD_some]

end Session

/-! ## Runs -/

section Runs

variable {F : Type} [Arithmetic F]

/-- The exchange's sessions, and the days on which each symbol did not trade. -/
structure Calendar where
  isOpen : Date → Bool
  isSuspended : String → Date → Bool

/-- `day` is the last session before `tradingDate` on which the symbol traded. -/
def Calendar.IsPrevious (calendar : Calendar) (symbol : String) (tradingDate day : Date) : Prop :=
  (calendar.isOpen day ∧ calendar.isSuspended symbol day = false ∧ day < tradingDate) ∧
    ∀ other, calendar.isOpen other → calendar.isSuspended symbol other = false → other < tradingDate → other ≤ day

/-- The last bar is of the last session on which the symbol traded. -/
def Calendar.Current (calendar : Calendar) (symbol : String) (tradingDate : Date) (history : List (Bar F)) : Prop :=
  ∃ day, history.getLast?.map Bar.tradingDate = some day ∧ calendar.IsPrevious symbol tradingDate day

/-- A reading of the bars in the table. -/
def storedReading (world : World F) (quotes : List (String × Quote F)) (tradingDate : Date) (basis : Basis) (symbol : String) :
    SymbolReading F :=
  symbolReading quotes tradingDate basis symbol (dailyBars world.rows tradingDate none symbol)

/-- A reading of the bars stored at the time, completed only with a seed of the last session on which the symbol traded,
    and stale where an older seed is advanced. -/
structure ReadingRight (calendar : Calendar) (world : World F) (quotes : List (String × Quote F)) (tradingDate : Date)
    (basis : Basis) (symbol : String) (answer : SymbolReading F) : Prop where
  stored : answer = storedReading world quotes tradingDate basis symbol
  current : answer.status = .completed → ∃ day, answer.seedTradeDate = some day ∧ calendar.IsPrevious symbol tradingDate day
  stale : Advances quotes basis symbol (dailyBars world.rows tradingDate none symbol) →
    ¬ calendar.Current symbol tradingDate (dailyBars world.rows tradingDate none symbol) → answer.status = .seedStale

/-- A call without `known_at` answers each symbol with the right reading. -/
def ReadingsRight (calendar : Calendar) (world : World F) (quotes : List (String × Quote F)) (tradingDate : Date)
    (basisText : String) : Prop :=
  ∀ basis, requireBasis basisText = .ok basis →
    ∃ answer : String → SymbolReading F,
      (realtimeIndicatorsBySymbol quotes world tradingDate basisText none).1 = .ok ((requested (quotes.map Prod.fst)).map answer) ∧
        ∀ symbol ∈ requested (quotes.map Prod.fst), ReadingRight calendar world quotes tradingDate basis symbol (answer symbol)

/-- A bar that arrives changes no bars a session has read, and the stored bars of a symbol whose seed is advanced reach
    the last session on which it traded. -/
def Allowed (calendar : Calendar) (world : World F) : Op F → Prop
  | .store row => LeavesSessions world row
  | .read quotes tradingDate basisText none =>
      ∀ basis, requireBasis basisText = .ok basis → ∀ symbol ∈ requested (quotes.map Prod.fst),
        Advances quotes basis symbol (dailyBars world.rows tradingDate none symbol) →
          calendar.Current symbol tradingDate (dailyBars world.rows tradingDate none symbol)
  | .read _ _ _ (some _) => True

variable {calendar : Calendar}

theorem cacheFits_step (world : World F) (op : Op F) (h : CacheFits world) (hallowed : Allowed calendar world op) :
    CacheFits (step op world) := by
  cases op with
  | store row => exact cacheFits_store h hallowed
  | read quotes tradingDate basis knownAt =>
      unfold step realtimeIndicatorsBySymbol
      dsimp only
      split
      next => exact h
      next =>
        split
        next => exact h
        next => exact cacheFits_sessionBars h _ tradingDate knownAt

theorem readings_stored {world : World F} (h : CacheFits world) (quotes : List (String × Quote F)) (tradingDate : Date)
    {basisText : String} {basis : Basis} (hbasis : requireBasis basisText = .ok basis) :
    (realtimeIndicatorsBySymbol quotes world tradingDate basisText none).1 =
      .ok ((requested (quotes.map Prod.fst)).map (storedReading world quotes tradingDate basis)) := by
  unfold realtimeIndicatorsBySymbol
  rw [hbasis]
  dsimp only
  split
  next hempty =>
    rw [List.isEmpty_iff.mp hempty]
    rfl
  next =>
    refine congrArg Except.ok (List.map_congr_left (fun symbol hsymbol => ?_))
    unfold storedReading
    rw [lookup_sessionBars h _ tradingDate hsymbol]

/-- **Whatever bars arrive and whichever calls are made, as long as no bar changes what a session has read and the stored
    bars reach the last session traded, every reading is that of the stored bars, and completed only with its seed.** -/
theorem readings_right (rows : List (StoredBar F)) (ops : List (Op F))
    (hops : Driven.Follows step (Allowed calendar) ops ⟨rows, []⟩) (quotes : List (String × Quote F)) (tradingDate : Date)
    (basis : String)
    (hread : Allowed calendar (Driven.afterwards step ops ⟨rows, []⟩) (.read quotes tradingDate basis none)) :
    ReadingsRight calendar (Driven.afterwards step ops ⟨rows, []⟩) quotes tradingDate basis := by
  have hstart : CacheFits (⟨rows, []⟩ : World F) := fun _ hentry => absurd hentry List.not_mem_nil
  have hfits := (Driven.run_afterwards ops _ hops).keeps hstart cacheFits_step
  intro parsed hparsed
  refine ⟨storedReading _ quotes tradingDate parsed, readings_stored hfits quotes tradingDate hparsed, ?_⟩
  intro symbol hsymbol
  refine ⟨rfl, fun hcompleted => ?_, fun hadvances hstale => ?_⟩
  · have hadvances := advances_of_completed hcompleted
    obtain ⟨day, hday, hprevious⟩ := hread parsed hparsed symbol hsymbol hadvances
    exact ⟨day, (symbolReading_of_advances hadvances).2.trans hday, hprevious⟩
  · exact absurd (hread parsed hparsed symbol hsymbol hadvances) hstale

/-! ## Witness and counterexample -/

/-- A bar of 10 yuan on a day. -/
def flatBar (day : ℕ) : StoredBar ℚ := ⟨"600176.SH", false, day, ⟨day, some 10, some 10, some 10⟩⟩

/-- A session each day from day 0. -/
def everyDay : Calendar := ⟨fun day => decide (0 ≤ day), fun _ _ => false⟩

def tenYuan : List (String × Quote ℚ) := [("600176.SH", ⟨some 10, some 10, some 10⟩)]

/-- The bars of days 0 to 119. -/
def fourMonths : List (StoredBar ℚ) := (List.range 120).map flatBar

theorem current_of_last {history : List (Bar ℚ)} (day : Date) (hlast : history.getLast?.map Bar.tradingDate = some day)
    (hday : 0 ≤ day) : everyDay.Current "600176.SH" (day + 1) history :=
  ⟨day, hlast, ⟨decide_eq_true hday, rfl, Int.lt_succ day⟩, fun _ _ _ hother => Int.lt_add_one_iff.mp hother⟩

theorem session_of_read {world : World F} (hempty : world.sessionBars = []) (quotes : List (String × Quote F)) (tradingDate : Date)
    (basis : String) : ∀ entry ∈ (step (.read quotes tradingDate basis none) world).sessionBars, entry.1 = tradingDate := by
  intro entry hentry
  unfold step realtimeIndicatorsBySymbol at hentry
  dsimp only at hentry
  split at hentry
  next => simp [hempty] at hentry
  next =>
    split at hentry
    next => simp [hempty] at hentry
    next => rw [List.mem_singleton.mp hentry]

/-- A session reads its bars, its own bar arrives, and it reads again. -/
theorem readings_right_session : ReadingsRight everyDay
    (Driven.afterwards step [.read tenYuan 120 "bfq" none, .store (flatBar 120)] ⟨fourMonths, []⟩) tenYuan 120 "bfq" := by
  have hrequested : requested (tenYuan.map Prod.fst) = ["600176.SH"] := by decide +kernel
  refine readings_right fourMonths [.read tenYuan 120 "bfq" none, .store (flatBar 120)] ⟨?_, ?_, trivial⟩ tenYuan 120 "bfq" ?_
  · intro basis _ symbol hsymbol _
    rw [hrequested] at hsymbol
    rw [List.mem_singleton.mp hsymbol]
    exact current_of_last 119 (by decide +kernel) (by decide)
  · intro entry hentry _
    rw [session_of_read rfl tenYuan 120 "bfq" entry hentry]
    exact dailyBars_storeBar_of_le none _ (by decide)
  · intro basis _ symbol hsymbol _
    rw [hrequested] at hsymbol
    rw [List.mem_singleton.mp hsymbol]
    exact current_of_last 119 (by decide +kernel) (by decide)

/-- The status and the seed's date of each reading. -/
def seeds : Except String (List (SymbolReading ℚ)) → List (Status × Option Date)
  | .ok readings => readings.map (fun answer => (answer.status, answer.seedTradeDate))
  | .error _ => []

/-- The bar of day 120 is missing at first and then comes too late. -/
theorem lagging_history_is_completed : ¬ ∀ (calendar : Calendar) (rows : List (StoredBar ℚ)) (ops : List (Op ℚ))
    (quotes : List (String × Quote ℚ)) (tradingDate : Date) (basis : String),
    ReadingsRight calendar (Driven.afterwards step ops ⟨rows, []⟩) quotes tradingDate basis := by
  intro h
  obtain ⟨answer, hcall, hright⟩ := h everyDay fourMonths [.read tenYuan 121 "bfq" none, .store (flatBar 120)] tenYuan 121 "bfq"
    .bfq rfl
  have hrequested : requested (tenYuan.map Prod.fst) = ["600176.SH"] := by decide +kernel
  have hread := congrArg seeds hcall
  rw [hrequested] at hright hread
  have hstale : [((answer "600176.SH").status, (answer "600176.SH").seedTradeDate)] = [(Status.completed, some (119 : Date))] := by
    refine hread.symm.trans ?_
    decide +kernel
  obtain ⟨hstatus, hseed⟩ := Prod.mk.inj (List.cons.inj hstale).1
  obtain ⟨day, hday, -, hlast⟩ := (hright "600176.SH" List.mem_cons_self).current hstatus
  have hday119 : day = 119 := Option.some.inj (hday.symm.trans hseed)
  have h120 := hlast 120 (by decide) rfl (by decide)
  rw [hday119] at h120
  exact absurd h120 (by decide)

end Runs

end TradingHarness.Indicators
