import TradingHarness.Outcomes.DailyRuns
import TradingHarness.Library.Runs

set_option autoImplicit false

/-! # Forward returns

What the archive says of the session after a review: whose bars it comes from, and whether a later review changes it. -/

namespace TradingHarness.Outcomes

/-- The first session after a date. -/
def FirstAfter (sessions : List Date) (date next : Date) : Prop :=
  next ∈ sessions ∧ date < next ∧ ∀ other ∈ sessions, date < other → next ≤ other

theorem FirstAfter.unique {sessions : List Date} {date next next' : Date} (h : FirstAfter sessions date next)
    (h' : FirstAfter sessions date next') : next = next' :=
  Int.le_antisymm (h.2.2 next' h'.1 h'.2.1) (h'.2.2 next h.1 h.2.1)

/-- Whether the measures say anything of the next session. -/
def Measures.hasForward (measures : Measures) : Bool :=
  measures.entryToNextClose.isSome || measures.nextOpenToClose.isSome || measures.netNextOpenToClose.isSome ||
    measures.nextOpenLocked.isSome

def Item.hasForward (item : Item) : Bool := item.measures.any Measures.hasForward

theorem hasForward_measure_none (cost : ℚ) (entry : EntryMark) (bar : Option DayBar) (benchmark : Option ℚ) :
    (measure cost entry bar none benchmark).hasForward = false := by
  unfold measure
  split <;> simp [Measures.hasForward, pctOf, lockedAt]

section Forward

variable {ε : Type} (sessions : List Date) (bars : Date → String → Option DayBar) (cost : ℚ)

/-- The forward measures of a stock come from the bar of the first session after its report. -/
def ForwardOf (review : Review ε) (item : Item) : Prop :=
  item.hasForward = true → ∃ entry next bar, item.entry = some entry ∧ FirstAfter sessions review.tradeDate next ∧
    bars next item.code = some bar ∧ item.measures = some (measure cost entry item.bar (some bar) review.benchmark)

/-- A day's review reads the stored bars of its session; a next bar that the settlement has is the first session's. -/
structure OnMarket (day : ReviewDay ε) : Prop where
  session : day.bars = bars day.tradeDate
  nextBar : ∀ stock ∈ day.stocks, ∀ bar, stock.nextBar = some bar →
    ∃ next, FirstAfter sessions day.tradeDate next ∧ bars next stock.code = some bar

variable {sessions bars cost} {days : List (ReviewDay ε)} {today : ReviewDay ε}

/-! ## One report -/

theorem reviewItem_code (benchmark : Option ℚ) (stock : SettledStock) : (reviewItem cost benchmark stock).code = stock.code := by
  unfold reviewItem
  dsimp only
  split <;> rfl

theorem reviewItem_measures {benchmark : Option ℚ} {stock : SettledStock} (h : (reviewItem cost benchmark stock).hasForward = true) :
    ∃ entry, (reviewItem cost benchmark stock).entry = some entry ∧ (reviewItem cost benchmark stock).measures =
      some (measure cost entry (reviewItem cost benchmark stock).bar stock.nextBar benchmark) := by
  revert h
  unfold reviewItem
  dsimp only
  split
  next bar closePct hbar _ =>
    intro h
    cases hentry : stock.entry with
    | none =>
        rw [hentry] at h
        exact absurd h (by simp [Item.hasForward])
    | some entry => exact ⟨entry, rfl, by rw [hbar]; rfl⟩
  next => exact fun h => absurd h (by simp [Item.hasForward])

/-- **What a new report says of the next session it has from the settlement.** -/
theorem forwardOf_new (hmarket : OnMarket sessions bars today) {review : Review ε} (hdate : review.tradeDate = today.tradeDate)
    (hbenchmark : review.benchmark = today.benchmark) {item : Item} (hitem : item ∈ reviewStocks cost today.benchmark today.stocks) :
    ForwardOf sessions bars cost review item := by
  intro hforward
  unfold reviewStocks at hitem
  rw [(List.perm_insertionSort _ _).mem_iff, List.mem_map] at hitem
  obtain ⟨stock, hstock, rfl⟩ := hitem
  obtain ⟨entry, hentry, hmeasures⟩ := reviewItem_measures hforward
  rcases hnext : stock.nextBar with _ | bar
  · rw [hnext] at hmeasures
    unfold Item.hasForward at hforward
    rw [hmeasures, Option.any_some, hasForward_measure_none] at hforward
    exact absurd hforward (by decide)
  · obtain ⟨next, hfirst, hbars⟩ := hmarket.nextBar stock hstock bar hnext
    refine ⟨entry, next, bar, hentry, hdate ▸ hfirst, ?_, ?_⟩
    · rw [reviewItem_code, hbars]
    · rw [hmeasures, hnext, hbenchmark]

theorem fillForward_measures {pending : Review ε} {item : Item} {tradeDate : Date} (hold : ForwardOf sessions bars cost pending item)
    (hnext : isFilled (bars tradeDate) item = true → FirstAfter sessions pending.tradeDate tradeDate) :
    (item.hasForward = true → (fillForward cost pending.benchmark (bars tradeDate) item).measures = item.measures) ∧
      ∀ review : Review ε, review.tradeDate = pending.tradeDate → review.benchmark = pending.benchmark →
        ForwardOf sessions bars cost review (fillForward cost pending.benchmark (bars tradeDate) item) := by
  unfold fillForward
  split
  next entry nextBar hentry hbar =>
    have hfirst := hnext (by simp [isFilled, hentry, hbar])
    refine ⟨fun hforward => ?_, fun review hdate hbenchmark _ => ?_⟩
    · -- what is there was computed from the same bar
      obtain ⟨entry', next, bar, hentry', hfirst', hbar', hmeasures⟩ := hold hforward
      obtain rfl := hfirst'.unique hfirst
      rw [hentry] at hentry'
      rw [hbar] at hbar'
      obtain rfl := Option.some.inj hentry'
      obtain rfl := Option.some.inj hbar'
      exact hmeasures.symm
    · refine ⟨entry, tradeDate, nextBar, hentry, hdate ▸ hfirst, hbar, ?_⟩
      rw [hbenchmark]
  next =>
    refine ⟨fun _ => rfl, fun review hdate hbenchmark hforward => ?_⟩
    obtain ⟨entry, next, bar, hentry, hfirst, hbar, hmeasures⟩ := hold hforward
    exact ⟨entry, next, bar, hentry, hdate ▸ hfirst, hbar, hbenchmark ▸ hmeasures⟩

theorem isFilled_any {pending : Review ε} {item : Item} (hitem : item ∈ pending.stocks) {bars : String → Option DayBar}
    (h : isFilled bars item = true) : pending.stocks.any (isFilled bars) = true := List.any_eq_true.mpr ⟨item, hitem, h⟩

/-! ## Runs of reviews -/

variable [DecidableEq ε]

variable (sessions bars cost) in
/-- Every archived forward measure comes from the first session after its report. -/
def ForwardRight (days : List (ReviewDay ε)) : Prop :=
  ∀ row ∈ archiveAfter cost days, ∀ item ∈ row.payload.stocks, ForwardOf sessions bars cost row.payload item

variable (cost) in
/-- Completing a report changes no forward measure that it has. -/
def KeepsForward (before : List (ReviewDay ε)) (today : ReviewDay ε) : Prop :=
  ∀ pending review, pendingReview (previousReviews today.tradeDate (archiveAfter cost before)) = some pending →
    completed cost (previousReviews today.tradeDate (archiveAfter cost before)) today.tradeDate today.bars = some review →
    List.Forall₂ (fun item item' => item.hasForward = true → item'.measures = item.measures) pending.stocks review.stocks

variable (sessions cost) in
/-- The report that a review completes is the one of the session before, if any. -/
def CompletesNext (before : List (ReviewDay ε)) (today : ReviewDay ε) : Prop :=
  ∀ pending, pendingReview (previousReviews today.tradeDate (archiveAfter cost before)) = some pending →
    pending.stocks.any (isFilled today.bars) = true → FirstAfter sessions pending.tradeDate today.tradeDate

section

variable (hright : ForwardRight sessions bars cost days)

include hright

theorem forwardOf_pending {tradeDate : Date} {pending : Review ε}
    (hpending : pendingReview (previousReviews tradeDate (archiveAfter cost days)) = some pending) :
    ∀ item ∈ pending.stocks, ForwardOf sessions bars cost pending item := by
  obtain ⟨row, hrow, rfl, -⟩ := mem_recentReviews (List.mem_filter.mp (List.mem_of_find?_eq_some hpending)).1
  exact hright row hrow

theorem keepsForward_of_right (hmarket : OnMarket sessions bars today)
    (hnext : CompletesNext sessions cost days today) : KeepsForward cost days today := by
  intro pending review hpending hcompleted
  obtain ⟨pending', hpending', -, rfl⟩ := of_completed hcompleted
  rw [hpending] at hpending'
  obtain rfl := Option.some.inj hpending'
  have hold := forwardOf_pending hright hpending
  rw [List.forall₂_map_right_iff, List.forall₂_same]
  intro item hitem
  rw [hmarket.session]
  refine (fillForward_measures (hold item hitem) (fun hfilled => ?_)).1
  exact hnext pending hpending (isFilled_any hitem (hmarket.session ▸ hfilled))

/-- **One more review.** -/
theorem forwardRight_concat (hmarket : OnMarket sessions bars today)
    (hnext : CompletesNext sessions cost days today) : ForwardRight sessions bars cost (days ++ [today]) := by
  intro row hrow item hitem
  rw [archiveAfter_concat] at hrow
  rcases mem_persistReview hrow with hcompleted | rfl
  · rw [completePrevious_eq] at hcompleted
    rcases hsome : completed cost (previousReviews today.tradeDate (archiveAfter cost days)) today.tradeDate today.bars with _ | review
    · rw [hsome] at hcompleted
      exact hright row hcompleted item hitem
    · rw [hsome, Option.elim_some] at hcompleted
      rcases mem_persistReview hcompleted with hold | rfl
      · exact hright row hold item hitem
      · obtain ⟨pending, hpending, -, rfl⟩ := of_completed hsome
        obtain ⟨old, hold, rfl⟩ := List.mem_map.mp hitem
        rw [hmarket.session]
        refine (fillForward_measures (forwardOf_pending hright hpending old hold) (fun hfilled => ?_)).2 _ rfl rfl
        exact hnext pending hpending (isFilled_any hold (hmarket.session ▸ hfilled))
  · exact forwardOf_new hmarket rfl rfl hitem

end

/-- **Forward returns come from the next session and are final, in every run that completes only the session before.** -/
theorem forward_returns_right (hmarket : ∀ day ∈ days, OnMarket sessions bars day)
    (hnext : Runs.InTurn (CompletesNext sessions cost) days) :
    ForwardRight sessions bars cost days ∧ Runs.InTurn (KeepsForward cost) days := by
  induction days using List.reverseRecOn with
  | nil => exact ⟨fun row hrow => absurd hrow List.not_mem_nil, Runs.inTurn_nil _⟩
  | append_singleton days today ih =>
      obtain ⟨hearlier, htoday⟩ := (Runs.inTurn_concat _ days today).mp hnext
      obtain ⟨hright, hkeeps⟩ := ih (fun day hday => hmarket day (List.mem_append_left _ hday)) hearlier
      have hmarket' := hmarket today (List.mem_append_right _ (List.mem_singleton_self _))
      exact ⟨forwardRight_concat hright hmarket' htoday,
        (Runs.inTurn_concat _ days today).mpr ⟨hkeeps, keepsForward_of_right hright hmarket' htoday⟩⟩

end Forward

/-! ## Witness and counterexample -/

/-- Three sessions, on the second of which one of the stocks is suspended. -/
def suspendedMarket (date : Date) (code : String) : Option DayBar :=
  if date = 3 then some ⟨some 12, none, some 13, some 11, none, some 0⟩
  else if date = 2 ∧ code = "600176" then some ⟨some 10, none, some 11, some 10, none, some 0⟩
  else none

/-- An entry at 10 that closed there. -/
def heldEntry (code : String) : SettledStock where
  code := code
  playbook := "relay_race"
  isRecord := false
  bar := some ⟨some 10, some 10, some 10, some 10, some 11, some 0⟩
  closedAtLimit := false
  touchedLimit := false
  entry := some ⟨some 10, none⟩
  isInvalidated := false

def marketDay (date : Date) (stocks : List SettledStock) : ReviewDay Unit := ⟨date, date, stocks, none, suspendedMarket date, ()⟩

/-- The two entries of the first session. -/
def entryDay : ReviewDay Unit := marketDay 1 [heldEntry "600176", heldEntry "000001"]

theorem onMarket_marketDay {date : Date} {stocks : List SettledStock} (h : ∀ stock ∈ stocks, stock.nextBar = none) :
    OnMarket [1, 2, 3] suspendedMarket (marketDay date stocks) :=
  ⟨rfl, fun stock hstock bar hbar => absurd ((h stock hstock).symm.trans hbar) (by simp)⟩

/-- The session after the entries completes their report. -/
theorem forward_returns_right_next_session : ForwardRight [1, 2, 3] suspendedMarket 0 [entryDay, marketDay 2 []] ∧
    Runs.InTurn (KeepsForward 0) [entryDay, marketDay 2 []] := by
  refine forward_returns_right (fun day hday => ?_) ?_
  · rcases List.mem_cons.mp hday with rfl | hlast
    · exact onMarket_marketDay (by decide)
    · rw [List.mem_singleton.mp hlast]
      exact onMarket_marketDay (by decide)
  · refine (Runs.inTurn_concat _ [entryDay] _).mpr ⟨(Runs.inTurn_concat _ [] _).mpr ⟨Runs.inTurn_nil _, ?_⟩, ?_⟩
    · intro pending hpending
      exact absurd hpending (by simp [archiveAfter, previousReviews, recentReviews, Newest.recent, Newest.keysDesc, pendingReview])
    · intro pending hpending _
      have hdate : (pendingReview (previousReviews 2 (archiveAfter 0 [entryDay]))).map Review.tradeDate = some 1 := by decide +kernel
      have hpending' : pendingReview (previousReviews 2 (archiveAfter 0 [entryDay])) = some pending := hpending
      rw [hpending', Option.map_some] at hdate
      rw [Option.some.inj hdate]
      exact ⟨by decide, by decide, by decide⟩

/-- The stock that was suspended gets the forward returns of the third session. -/
theorem suspended_stock_is_completed_late : ¬ ∀ (sessions : List Date) (bars : Date → String → Option DayBar)
    (days : List (ReviewDay Unit)), InOrder days → (∀ day ∈ days, OnMarket sessions bars day) →
      ForwardRight sessions bars 0 days ∧ Runs.InTurn (KeepsForward 0) days := by
  intro h
  obtain ⟨hright, -⟩ := h [1, 2, 3] suspendedMarket [entryDay, marketDay 2 [], marketDay 3 []] ⟨by decide, by decide⟩ (by
    intro day hday
    simp only [List.mem_cons, List.not_mem_nil, or_false] at hday
    rcases hday with rfl | rfl | rfl <;> exact onMarket_marketDay (by decide))
  obtain ⟨row, hrow, hdate, item, hitem, hcode, hforward⟩ : ∃ row ∈ archiveAfter 0 [entryDay, marketDay 2 [], marketDay 3 []],
      row.payload.tradeDate = 1 ∧ ∃ item ∈ row.payload.stocks, item.code = "000001" ∧ item.hasForward = true := by
    decide +kernel
  obtain ⟨entry, next, bar, -, hfirst, hbar, -⟩ := hright row hrow item hitem hforward
  -- the first session after the report has no bar of the stock
  rw [hdate] at hfirst
  have hnext : next = 2 := hfirst.unique ⟨by decide, by decide, by decide⟩
  rw [hnext, hcode] at hbar
  exact absurd hbar (by simp [suspendedMarket])

end TradingHarness.Outcomes
