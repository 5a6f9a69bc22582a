import TradingHarness.Tactics.Tradable

set_option autoImplicit false

/-! # Where the target and stop rules fill

The six target and stop rules answer on the first sell session, with a level derived from the entry
price. This file says which price the exit bar offered is taken, on bars whose open and close lie
between low and high. A fill of a bracket that reaches both levels is counted at the stop or at the
target, whatever the open was; a sale at the open that is blocked rolls to a later close. -/

namespace TradingHarness

/-- The rules with a resting order: targets, the stop and the two brackets. -/
def levelRules : List ExitKey := [.tp3, .tp5, .tp8, .sl3, .tp5Sl3StopFirst, .tp5Sl3TargetFirst]

/-- The target price of a rule for an entry at `base`. -/
def targetOf (base : ℚ) : ExitKey → Option ℚ
  | .tp3 => some (base * (1 + 3 / 100))
  | .tp5 => some (base * (1 + 5 / 100))
  | .tp8 => some (base * (1 + 8 / 100))
  | .tp5Sl3StopFirst => some (base * (105 / 100))
  | .tp5Sl3TargetFirst => some (base * (105 / 100))
  | _ => none

/-- The stop price of a rule for an entry at `base`. -/
def stopOf (base : ℚ) : ExitKey → Option ℚ
  | .sl3 => some (base * (97 / 100))
  | .tp5Sl3StopFirst => some (base * (97 / 100))
  | .tp5Sl3TargetFirst => some (base * (97 / 100))
  | _ => none

/-- What a target or stop rule answers on the first sell session. -/
def levelAnswer (base : ℚ) (bar : PricedBar) : ExitKey → ExitDecision
  | .tp3 => targetAnswer (base * (1 + 3 / 100)) bar
  | .tp5 => targetAnswer (base * (1 + 5 / 100)) bar
  | .tp8 => targetAnswer (base * (1 + 8 / 100)) bar
  | .sl3 => stopAnswer (base * (97 / 100)) bar
  | .tp5Sl3StopFirst => bracketAnswer true (base * (105 / 100)) (base * (97 / 100)) bar
  | .tp5Sl3TargetFirst => bracketAnswer false (base * (105 / 100)) (base * (97 / 100)) bar
  | _ => .sell .atClose

/-- All four prices are present, and open and close lie between low and high. -/
def SettlementBar.Ordered (bar : SettlementBar) : Prop :=
  ∃ openPrice high low close, bar.openPrice = some openPrice ∧ bar.high = some high ∧
    bar.low = some low ∧ bar.close = some close ∧
    low ≤ openPrice ∧ openPrice ≤ high ∧ low ≤ close ∧ close ≤ high

/-- The price lies between the bar's low and high. -/
def InRange (bar : SettlementBar) (price : ℚ) : Prop :=
  ∃ low high, bar.low = some low ∧ bar.high = some high ∧ low ≤ price ∧ price ≤ high

/-! ## Scaling keeps the order -/

theorem priceBar_ordered (adjusted : Bool) (bar : SettlementBar) (h : bar.Ordered)
    (hpos : 0 < bar.factorOn adjusted) : (priceBar adjusted bar).toSettlementBar.Ordered := by
  obtain ⟨o, hi, lo, c, ho, hhi, hlo, hc, h1, h2, h3, h4⟩ := h
  have hscale : ∀ a b : ℚ, a ≤ b → a * bar.factorOn adjusted ≤ b * bar.factorOn adjusted :=
    fun a b hab => mul_le_mul_of_nonneg_right hab hpos.le
  exact ⟨o * bar.factorOn adjusted, hi * bar.factorOn adjusted, lo * bar.factorOn adjusted,
    c * bar.factorOn adjusted, by simp [priceBar, ho], by simp [priceBar, hhi],
    by simp [priceBar, hlo], by simp [priceBar, hc], hscale _ _ h1, hscale _ _ h2,
    hscale _ _ h3, hscale _ _ h4⟩

theorem window_ordered (path : List SettlementBar) (h : ∀ bar ∈ path, bar.Ordered) (i : ℕ)
    (priced : PricedBar) (hget : (priceWindow path).bars[i]? = some priced) :
    priced.toSettlementBar.Ordered := by
  simp only [priceWindow, List.getElem?_map, Option.map_eq_some_iff] at hget
  obtain ⟨bar, hbar, rfl⟩ := hget
  have hmem : bar ∈ path := List.mem_of_getElem? hbar
  exact priceBar_ordered _ bar (h bar hmem) (factorOn_pos path bar hmem)

theorem inRange_of_priceAt (bar : SettlementBar) (sale : SaleField) (price : ℚ)
    (h : bar.Ordered) (hprice : bar.priceAt sale = some price) : InRange bar price := by
  obtain ⟨o, hi, lo, c, ho, hhi, hlo, hc, h1, h2, h3, h4⟩ := h
  cases sale with
  | atOpen =>
      have : o = price := Option.some.inj (ho.symm.trans hprice)
      subst this
      exact ⟨lo, hi, hlo, hhi, h1, h2⟩
  | atClose =>
      have : c = price := Option.some.inj (hc.symm.trans hprice)
      subst this
      exact ⟨lo, hi, hlo, hhi, h3, h4⟩

/-! ## The answer on the first sell session -/

variable (symbol : String) (base target : ℚ) (key : ExitKey) (s1 : PricedBar) (rest : List PricedBar)
  (start i : ℕ) (field : ExitField) (price : ℚ) (reason : Reason)

theorem firstAnswer_level (hkey : key ∈ levelRules) (context : ExitContext)
    (bar : PricedBar) (rest : List PricedBar) :
    firstAnswer (capped (exitRule key context)) (capped (exitRule key context)).start 0
        (bar :: rest)
      = some (0, levelAnswer context.entryPrice bar key) := by
  cases key <;> first
    | rfl
    | exact absurd hkey (by decide)

/-- The walk of a target or stop rule carries out its answer on the first sell session. -/
theorem walkPick_level (slot : Slot) (path : List SettlementBar)
    (referenceClose : Option ℚ) (priorCloses : List (Option ℚ)) (entry : Entry) (key : ExitKey)
    (hkey : key ∈ levelRules) (base : ℚ) (bar : PricedBar) (rest : List PricedBar)
    (hbars : (priceWindow path).bars.drop (startOf slot entry) = bar :: rest) :
    walkPick symbol slot path referenceClose priorCloses entry key base
      = carryOut symbol .long maxExitRollSessions 0 (bar :: rest) (levelAnswer base bar key) := by
  unfold walkPick walkExit
  rw [walkFrom_eq_firstAnswer, hbars, firstAnswer_level key hkey]
  rfl

variable (stop : ℚ) (bar : PricedBar)

theorem targetAnswer_target (h : targetAnswer target bar = .target price) :
    price = target ∧ isAbove bar.openPrice target = false ∧ reaches bar.high target = true := by
  unfold targetAnswer at h
  split_ifs at h with habove hreach
  · simp only [ExitDecision.target.injEq] at h
    exact ⟨h.symm, by simpa using habove, hreach⟩

theorem stopAnswer_stop (price : ℚ) (bar : PricedBar)
    (h : stopAnswer stop bar = .stop price) : price = stop ∧ stopHit stop bar = true := by
  unfold stopAnswer at h
  split_ifs at h with hopen hlow <;> simp only [ExitDecision.stop.injEq] at h
  · exact ⟨h.symm, by simp [stopHit, hopen]⟩
  · exact ⟨h.symm, by simp [stopHit, hlow]⟩

/-- A bracket fills at its target when the target is hit, and then the session did not open above
    it unless the stop was hit too. -/
theorem bracketAnswer_target (stopFirst : Bool) (target stop price : ℚ) (bar : PricedBar)
    (h : bracketAnswer stopFirst target stop bar = .target price) :
    price = target ∧ targetHit target bar = true ∧
      (stopHit stop bar = true ∨ isAbove bar.openPrice target = false) := by
  unfold bracketAnswer at h
  split_ifs at h with hboth hfirst hhit habove hstop <;> simp only [ExitDecision.target.injEq] at h
  · rw [Bool.and_eq_true] at hboth
    exact ⟨h.symm, hboth.1, Or.inl hboth.2⟩
  · exact ⟨h.symm, hhit, Or.inr (by simpa using habove)⟩

theorem bracketAnswer_stop (stopFirst : Bool) (target stop price : ℚ) (bar : PricedBar)
    (h : bracketAnswer stopFirst target stop bar = .stop price) :
    price = stop ∧ stopHit stop bar = true := by
  unfold bracketAnswer at h
  split_ifs at h with hboth hfirst hhit habove hstop <;> simp only [ExitDecision.stop.injEq] at h
  · rw [Bool.and_eq_true] at hboth
    exact ⟨h.symm, hboth.2⟩
  · exact ⟨h.symm, hstop⟩

/-! ## Fills of resting orders -/

section

variable (hbar : bar.toSettlementBar.Ordered)

include hbar

theorem inRange_of_reached (habove : isAbove bar.openPrice target = false) (hreach : reaches bar.high target = true) :
    InRange bar.toSettlementBar target := by
  obtain ⟨o, hi, lo, c, ho, hhi, hlo, hc, h1, h2, h3, h4⟩ := hbar
  simp only [isAbove, ho, Option.any_some, decide_eq_false_iff_not, not_lt] at habove
  simp only [reaches, hhi, Option.any_some, decide_eq_true_eq] at hreach
  exact ⟨lo, hi, hlo, hhi, h1.trans habove, hreach⟩

theorem inRange_of_both (hlevels : stop ≤ target) (htarget : targetHit target bar = true)
    (hstop : stopHit stop bar = true) : InRange bar.toSettlementBar target := by
  obtain ⟨o, hi, lo, c, ho, hhi, hlo, hc, h1, h2, h3, h4⟩ := hbar
  simp only [targetHit, isAbove, reaches, ho, hhi, Option.any_some, Bool.or_eq_true,
    decide_eq_true_eq] at htarget
  simp only [stopHit, isBelow, fallsTo, ho, hlo, Option.any_some, Bool.or_eq_true,
    decide_eq_true_eq] at hstop
  refine ⟨lo, hi, hlo, hhi, ?_, ?_⟩
  · rcases hstop with hs | hs
    · exact h1.trans (hs.le.trans hlevels)
    · exact hs.trans hlevels
  · rcases htarget with ht | ht
    · exact ht.le.trans h2
    · exact ht

theorem inRange_of_stopHit (hhit : stopHit stop bar = true) (hopen : isBelow bar.openPrice stop = false) :
    InRange bar.toSettlementBar stop := by
  obtain ⟨o, hi, lo, c, ho, hhi, hlo, hc, h1, h2, h3, h4⟩ := hbar
  simp only [stopHit, hopen, Bool.false_or, fallsTo, hlo, Option.any_some,
    decide_eq_true_eq] at hhit
  simp only [isBelow, ho, Option.any_some, decide_eq_false_iff_not, not_lt] at hopen
  exact ⟨lo, hi, hlo, hhi, hhit, hopen.trans h2⟩

end

theorem inRange_of_bracket (stopFirst : Bool) (base price : ℚ) (bar : PricedBar)
    (hbar : bar.toSettlementBar.Ordered) (hprice : 0 ≤ price)
    (h : bracketAnswer stopFirst (base * (105 / 100)) (base * (97 / 100)) bar = .target price) :
    InRange bar.toSettlementBar price := by
  obtain ⟨rfl, hhit, hstop | habove⟩ := bracketAnswer_target stopFirst _ _ price bar h
  · exact inRange_of_both _ _ bar hbar (by linarith) hhit hstop
  · have hreach : reaches bar.high (base * (105 / 100)) = true := by
      simpa [targetHit, habove] using hhit
    exact inRange_of_reached _ bar hbar habove hreach

theorem inRange_of_levelAnswer_target (key : ExitKey)
    (hbar : bar.toSettlementBar.Ordered) (hprice : 0 ≤ price)
    (h : levelAnswer base bar key = .target price) : InRange bar.toSettlementBar price := by
  have htarget : ∀ target, targetAnswer target bar = .target price →
      InRange bar.toSettlementBar price := by
    intro target ht
    obtain ⟨rfl, habove, hreach⟩ := targetAnswer_target target price bar ht
    exact inRange_of_reached _ bar hbar habove hreach
  cases key with
  | tp3 => exact htarget _ h
  | tp5 => exact htarget _ h
  | tp8 => exact htarget _ h
  | sl3 =>
      simp only [levelAnswer, stopAnswer] at h
      split_ifs at h
  | tp5Sl3StopFirst => exact inRange_of_bracket true base price bar hbar hprice h
  | tp5Sl3TargetFirst => exact inRange_of_bracket false base price bar hbar hprice h
  | _ => simp [levelAnswer] at h

theorem levelAnswer_stop (key : ExitKey)
    (h : levelAnswer base bar key = .stop price) :
    stopOf base key = some price ∧ stopHit price bar = true := by
  have hbracket : ∀ stopFirst target stop,
      bracketAnswer stopFirst target stop bar = .stop price →
      some stop = some price ∧ stopHit price bar = true := by
    intro stopFirst target stop hb
    obtain ⟨rfl, hhit⟩ := bracketAnswer_stop stopFirst target stop price bar hb
    exact ⟨rfl, hhit⟩
  have htarget : ∀ target, targetAnswer target bar ≠ .stop price := by
    intro target ht
    unfold targetAnswer at ht
    split_ifs at ht
  cases key with
  | tp3 => exact absurd h (htarget _)
  | tp5 => exact absurd h (htarget _)
  | tp8 => exact absurd h (htarget _)
  | sl3 =>
      obtain ⟨rfl, hhit⟩ := stopAnswer_stop _ price bar h
      exact ⟨rfl, hhit⟩
  | tp5Sl3StopFirst => exact hbracket _ _ _ h
  | tp5Sl3TargetFirst => exact hbracket _ _ _ h
  | _ => simp [levelAnswer] at h

/-! ## Sessions that open above the target -/

/-- A session that opens above the target is sold at the open, unless a bracket's stop is reached
    in the same session: then the bracket counts it at the level it puts first. -/
theorem levelAnswer_above (key : ExitKey)
    (htarget : targetOf base key = some target) (habove : isAbove bar.openPrice target = true) :
    ((∀ stop, stopOf base key = some stop → stopHit stop bar = false) →
      levelAnswer base bar key = .sell .atOpen) ∧
    (∀ stop, stopOf base key = some stop → stopHit stop bar = true →
      (key = .tp5Sl3StopFirst ∧ levelAnswer base bar key = .stop stop) ∨
      (key = .tp5Sl3TargetFirst ∧ levelAnswer base bar key = .target target)) := by
  have hhit : targetHit target bar = true := by simp [targetHit, habove]
  cases key <;> simp only [targetOf, Option.some.injEq, reduceCtorEq] at htarget <;>
    subst htarget
  all_goals
    refine ⟨fun hno => ?_, fun stop hstop hstopHit => ?_⟩
  -- without a stop the answer is the open, and there is no stop to reach
  case tp3.refine_1 => simp [levelAnswer, targetAnswer, habove]
  case tp5.refine_1 => simp [levelAnswer, targetAnswer, habove]
  case tp8.refine_1 => simp [levelAnswer, targetAnswer, habove]
  case tp3.refine_2 => simp [stopOf] at hstop
  case tp5.refine_2 => simp [stopOf] at hstop
  case tp8.refine_2 => simp [stopOf] at hstop
  case tp5Sl3StopFirst.refine_1 =>
    have hstop := hno _ rfl
    simp [levelAnswer, bracketAnswer, hhit, hstop, habove]
  case tp5Sl3TargetFirst.refine_1 =>
    have hstop := hno _ rfl
    simp [levelAnswer, bracketAnswer, hhit, hstop, habove]
  case tp5Sl3StopFirst.refine_2 =>
    simp only [stopOf, Option.some.injEq] at hstop
    subst hstop
    exact Or.inl ⟨rfl, by simp [levelAnswer, bracketAnswer, hhit, hstopHit]⟩
  case tp5Sl3TargetFirst.refine_2 =>
    simp only [stopOf, Option.some.injEq] at hstop
    subst hstop
    exact Or.inr ⟨rfl, by simp [levelAnswer, bracketAnswer, hhit, hstopHit]⟩

/-! ## The result -/

/-- The fill is a price of the exit bar. A sale is never made on a suspended session. A stop fill
    on a session that opened below the stop is left open. -/
structure FillInRange (exitBar : PricedBar) (field : ExitField) (price : ℚ) : Prop where
  sale : field = .atOpen ∨ field = .atClose →
    exitBar.isSuspended = false ∧ InRange exitBar.toSettlementBar price
  target : field = .target → 0 ≤ price → InRange exitBar.toSettlementBar price
  stop : field = .stop → isBelow exitBar.openPrice price = false →
    InRange exitBar.toSettlementBar price

/-- Where a first sell session that opens above the target is filled: at that open; at a later
    close when that open is blocked; and at the level it puts first by a bracket whose stop the
    session reaches as well. -/
structure GapFill (symbol : String) (base target : ℚ) (key : ExitKey) (s1 : PricedBar)
    (start exitIndex : ℕ) (field : ExitField) (price : ℚ) : Prop where
  at_open : (∀ stop, stopOf base key = some stop → stopHit stop s1 = false) →
    saleBlocked symbol s1.toSettlementBar .atOpen = false →
    exitIndex = start ∧ field = .atOpen ∧ s1.openPrice = some price
  blocked : (∀ stop, stopOf base key = some stop → stopHit stop s1 = false) →
    saleBlocked symbol s1.toSettlementBar .atOpen = true → field = .atClose
  both : ∀ stop, stopOf base key = some stop → stopHit stop s1 = true →
    exitIndex = start ∧
      ((key = .tp5Sl3StopFirst ∧ field = .stop ∧ price = stop) ∨
        (key = .tp5Sl3TargetFirst ∧ field = .target ∧ price = target))

/-- The range of a fill that is carried out from the first sell session. -/
theorem fillInRange_of_carryOut (hbars : ∀ bar ∈ s1 :: rest, bar.toSettlementBar.Ordered)
    (h : carryOut symbol .long maxExitRollSessions 0 (s1 :: rest) (levelAnswer base s1 key)
      = .settled i field price reason) :
    ∃ exitBar, (s1 :: rest)[i]? = some exitBar ∧
      (reason ≠ .exitBlockedValuedAtClose → FillInRange exitBar field price) := by
  have hs1 : s1.toSettlementBar.Ordered := hbars s1 (List.mem_cons_self ..)
  cases hanswer : levelAnswer base s1 key with
  | sell sale =>
      rw [hanswer, carryOut] at h
      obtain ⟨-, -, bar, hget, hsold⟩ := sellAt_settled symbol _ 0 sale _ i field price reason h
      rw [Nat.sub_zero] at hget
      refine ⟨bar, hget, fun hreason => ?_⟩
      rcases hsold with ⟨hvalued, -⟩ | ⟨-, asked, hfield, hprice, hfree⟩
      · exact absurd hvalued hreason
      · have hordered := hbars bar (List.mem_of_getElem? hget)
        obtain ⟨-, -, htrades, -⟩ := saleBlocked_eq_false symbol _ asked hfree
        refine ⟨fun _ => ⟨htrades, inRange_of_priceAt _ asked price hordered hprice⟩, ?_, ?_⟩
        · intro ht
          cases asked <;> simp [hfield, SaleField.toExitField] at ht
        · intro ht
          cases asked <;> simp [hfield, SaleField.toExitField] at ht
  | target p =>
      rw [hanswer] at h
      simp only [carryOut, Walked.settled.injEq] at h
      obtain ⟨rfl, rfl, rfl, rfl⟩ := h
      refine ⟨s1, rfl, fun _ => ⟨by simp, fun _ hp => ?_, by simp⟩⟩
      exact inRange_of_levelAnswer_target base p s1 key hs1 hp hanswer
  | stop p =>
      rw [hanswer] at h
      simp only [carryOut, Walked.settled.injEq] at h
      obtain ⟨rfl, rfl, rfl, rfl⟩ := h
      refine ⟨s1, rfl, fun _ => ⟨by simp, by simp, fun _ hopen => ?_⟩⟩
      exact inRange_of_stopHit p s1 hs1 (levelAnswer_stop base p s1 key hanswer).2 hopen

/-- Where a first sell session that opens above the target is filled. -/
theorem gapFill_of_carryOut (htarget : targetOf base key = some target)
    (habove : isAbove s1.openPrice target = true)
    (h : carryOut symbol .long maxExitRollSessions 0 (s1 :: rest) (levelAnswer base s1 key)
      = .settled i field price reason) :
    GapFill symbol base target key s1 start (start + i) field price := by
  obtain ⟨hopen, hboth⟩ := levelAnswer_above base target s1 key htarget habove
  refine ⟨fun hno hfree => ?_, fun hno hblocked => ?_, fun stop hstop hhit => ?_⟩
  · rw [hopen hno] at h
    obtain ⟨p, hp, -⟩ := saleBlocked_eq_false symbol _ .atOpen hfree
    have hp' : s1.openPrice = some p := hp
    simp only [carryOut, sellAt_cons, offerBlocked, hfree, if_true, Walked.settled.injEq] at h
    obtain ⟨rfl, rfl, rfl, -⟩ := h
    refine ⟨rfl, rfl, ?_⟩
    show s1.openPrice = some (s1.openPrice.getD 0)
    rw [hp']
    rfl
  · rw [hopen hno, carryOut] at h
    exact sellAt_blocked_field symbol .long _ .atOpen 0 s1 rest i field price reason hblocked h
  · rcases hboth stop hstop hhit with ⟨hkey, hanswer⟩ | ⟨hkey, hanswer⟩ <;>
      rw [hanswer] at h <;> simp only [carryOut, Walked.settled.injEq] at h <;>
      obtain ⟨rfl, rfl, rfl, -⟩ := h
    · exact ⟨rfl, Or.inl ⟨hkey, rfl, rfl⟩⟩
    · exact ⟨rfl, Or.inr ⟨hkey, rfl, rfl⟩⟩

/-- **The fills of the target and stop rules.** On ordered bars, a settled target, stop or bracket
    outcome is a price of its exit bar, a session that opens above the target is sold at that open
    where the open can be sold, and a bracket that reaches both levels counts the one it puts
    first. -/
theorem level_fill_offered (symbol : String) (slot : Slot) (path : List SettlementBar)
    (referenceClose : Option ℚ) (priorCloses : List (Option ℚ)) (result : PickEvaluation)
    (hordered : ∀ bar ∈ path, bar.Ordered)
    (h : evaluatePick symbol slot path referenceClose priorCloses = .ok result)
    (entry : Entry) (key : ExitKey) (hkey : key ∈ levelRules)
    (hstatus : (result.entries entry key).status = .settled) :
    ∃ base s1 exitBar exitIndex field price reason,
      baseOf slot path referenceClose entry = some base ∧
      (priceWindow path).bars[startOf slot entry]? = some s1 ∧
      (priceWindow path).bars[exitIndex]? = some exitBar ∧
      (result.entries entry key).exitIndex = some exitIndex ∧
      (result.entries entry key).field = some field ∧
      (result.entries entry key).price = some price ∧
      (result.entries entry key).reason = some reason ∧
      (reason ≠ .exitBlockedValuedAtClose → FillInRange exitBar field price) ∧
      (∀ target, targetOf base key = some target → isAbove s1.openPrice target = true →
        GapFill symbol base target key s1 (startOf slot entry) exitIndex field price) := by
  obtain ⟨s⟩ := evaluatePick_settled symbol slot path referenceClose priorCloses result h entry
    key hstatus
  have hw := s.walked
  rcases hbars : (priceWindow path).bars.drop (startOf slot entry) with _ | ⟨s1, rest⟩
  · simp [walkPick, walkExit, hbars, walkFrom] at hw
  rw [walkPick_level symbol slot path referenceClose priorCloses entry key hkey s.base s1 rest
    hbars] at hw
  have hget : ∀ n : ℕ,
      (priceWindow path).bars[startOf slot entry + n]? = (s1 :: rest)[n]? := by
    intro n
    rw [← hbars, List.getElem?_drop]
  have hrest : ∀ bar ∈ s1 :: rest, bar.toSettlementBar.Ordered := by
    intro bar hbar
    rw [← hbars] at hbar
    obtain ⟨n, hn⟩ := List.getElem?_of_mem (List.mem_of_mem_drop hbar)
    exact window_ordered path hordered n bar hn
  obtain ⟨exitBar, hexit, hrange⟩ := fillInRange_of_carryOut symbol s.base key s1 rest
    s.exitIndex s.field s.price s.reason hrest hw
  rw [s.outcome_eq]
  refine ⟨s.base, s1, exitBar, startOf slot entry + s.exitIndex, s.field, s.price, s.reason,
    s.base_eq, by simpa using hget 0, by rw [hget]; exact hexit, rfl, rfl, rfl, rfl, hrange, ?_⟩
  intro target htarget habove
  exact gapFill_of_carryOut symbol s.base target key s1 rest _ s.exitIndex s.field s.price
    s.reason htarget habove hw

/-! ## A bracket that opens above its target and reaches its stop -/

/-- The stricter reading of a fill: a price of a trading exit bar, at the open whenever the session
    opened beyond a level of the rule. -/
def FilledAsOffered (symbol : String) (slot : Slot) (path : List SettlementBar)
    (referenceClose : Option ℚ) (priorCloses : List (Option ℚ)) (entry : Entry)
    (key : ExitKey) : Prop :=
  ∀ result base, evaluatePick symbol slot path referenceClose priorCloses = .ok result →
    baseOf slot path referenceClose entry = some base →
    (result.entries entry key).status = .settled →
    (result.entries entry key).reason ≠ some .exitBlockedValuedAtClose →
    ∃ exitIndex exitBar price, (result.entries entry key).exitIndex = some exitIndex ∧
      (priceWindow path).bars[exitIndex]? = some exitBar ∧
      (result.entries entry key).price = some price ∧
      exitBar.isSuspended = false ∧ InRange exitBar.toSettlementBar price ∧
      (∀ stop, stopOf base key = some stop → isBelow exitBar.openPrice stop = true →
        exitBar.openPrice = some price) ∧
      (∀ target, targetOf base key = some target → isAbove exitBar.openPrice target = true →
        exitBar.openPrice = some price)

/-- Bought at 10; the next session opens at 10.8, above the target of 10.5, and falls to 9.5, below
    the stop of 9.7. -/
def gapThenFallPath : List SettlementBar :=
  [tradedBar 0 10 10 10 10 10 1, tradedBar 1 10 10 10 10 10 1,
    tradedBar 2 (108 / 10) 11 (95 / 10) (96 / 10) 10 1]

theorem gapThenFallPath_ordered : ∀ bar ∈ gapThenFallPath, bar.Ordered := by
  intro bar hbar
  simp only [gapThenFallPath, List.mem_cons, List.not_mem_nil, or_false] at hbar
  rcases hbar with rfl | rfl | rfl
  · exact ⟨10, 10, 10, 10, rfl, rfl, rfl, rfl, by norm_num⟩
  · exact ⟨10, 10, 10, 10, rfl, rfl, rfl, rfl, by norm_num⟩
  · exact ⟨108 / 10, 11, 95 / 10, 96 / 10, rfl, rfl, rfl, rfl, by norm_num⟩

/-- The bracket that puts its target first counts that session at 10.5, not at its open of 10.8. -/
theorem not_filledAsOffered_gapThenFall :
    (∀ bar ∈ gapThenFallPath, bar.Ordered) ∧
      ¬ FilledAsOffered "600000.SH" .close gapThenFallPath (some 10) [] .buyOpen
        .tp5Sl3TargetFirst := by
  refine ⟨gapThenFallPath_ordered, fun hclaim => ?_⟩
  obtain ⟨result, hresult, hread⟩ := evaluatePick_of_map "600000.SH" .close gapThenFallPath
    (some 10) [] (fun r => r.entries .buyOpen .tp5Sl3TargetFirst)
    { status := .settled, rawReturn := some (1 / 20), netReturn := some (1 / 20 - roundTripCost)
      exitIndex := some 2, field := some .target, reason := some .rule
      price := some (105 / 10), priceBasis := .adjFactorAdjusted } (by decide +kernel)
  obtain ⟨i, bar, price, hi, hbar, hprice, -, -, -, habove⟩ :=
    hclaim result 10 hresult (by decide +kernel) (by rw [hread]) (by rw [hread]; simp)
  rw [hread] at hi hprice
  obtain rfl : 2 = i := Option.some.inj hi
  obtain rfl : (105 / 10 : ℚ) = price := Option.some.inj hprice
  have hopen : bar.openPrice = some (108 / 10) := by
    have hpriced : (priceWindow gapThenFallPath).bars[2]?.bind (·.openPrice) = some (108 / 10) := by
      decide +kernel
    rw [hbar] at hpriced
    exact hpriced
  have hfill := habove (10 * (105 / 100)) rfl (by rw [hopen]; decide +kernel)
  rw [hopen, Option.some.injEq] at hfill
  norm_num at hfill

/-- The same session under the bracket that puts its stop first. -/
theorem level_fill_offered_gapThenFall :
    ∃ result, evaluatePick "600000.SH" .close gapThenFallPath (some 10) [] = .ok result ∧
      (result.entries .buyOpen .tp5Sl3StopFirst).price = some (97 / 10) ∧
      (result.entries .buyOpen .tp5Sl3StopFirst).field = some .stop := by
  obtain ⟨result, hresult, hread⟩ := evaluatePick_of_map "600000.SH" .close gapThenFallPath
    (some 10) [] (fun r => (r.entries .buyOpen .tp5Sl3StopFirst).status) .settled
    (by decide +kernel)
  obtain ⟨base, s1, -, i, field, price, -, hbase, hs1, -, -, hfield, hprice, -, -, hgap⟩ :=
    level_fill_offered _ _ _ _ _ result gapThenFallPath_ordered hresult .buyOpen
      .tp5Sl3StopFirst (by decide) hread
  obtain rfl : 10 = base :=
    Option.some.inj ((show entryPriceOf .close gapThenFallPath = some 10 by decide +kernel).symm.trans
      hbase)
  have hopen : s1.openPrice = some (108 / 10) := by
    have hpriced : (priceWindow gapThenFallPath).bars[2]?.bind (·.openPrice) = some (108 / 10) := by
      decide +kernel
    rw [show startOf .close .buyOpen = 2 from rfl] at hs1
    rw [hs1] at hpriced
    exact hpriced
  have hlow : s1.low = some (95 / 10) := by
    have hpriced : (priceWindow gapThenFallPath).bars[2]?.bind (·.low) = some (95 / 10) := by
      decide +kernel
    rw [show startOf .close .buyOpen = 2 from rfl] at hs1
    rw [hs1] at hpriced
    exact hpriced
  have hhit : stopHit (10 * (97 / 100)) s1 = true := by
    simp only [stopHit, isBelow, fallsTo, hopen, hlow]
    decide +kernel
  obtain ⟨-, ⟨-, rfl, rfl⟩ | ⟨hkey, -⟩⟩ :=
    (hgap (10 * (105 / 100)) rfl (by rw [hopen]; decide +kernel)).both _ rfl hhit
  · exact ⟨result, hresult, by rw [hprice]; norm_num, hfield⟩
  · exact absurd hkey (by decide)

end TradingHarness
