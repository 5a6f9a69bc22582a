import TradingHarness.Settlement.Settle

set_option autoImplicit false

/-! # The scale of the adjustment factors

Multiplying every `adj_factor` by one positive constant multiplies every price of every window by
it. Returns and excursions are ratios, so they do not move; stored limits scale along. The fallback
band of `_limits` is rounded to the cent *after* the scaling, so the close verdicts of the exit walk
can move, and with them the exit session. -/

namespace TradingHarness

/-- The bar with its adjustment factor multiplied by `k`. -/
def rescale (k : ℚ) (bar : SettlementBar) : SettlementBar :=
  { bar with adjFactor := bar.adjFactor.map (· * k) }

/-- What of a settlement the scale must not change. -/
inductive Scored
  | pending
  | entryUnfillable
  | settled (exitDate : Date) (exitRolledSessions : ℕ)
      (grossReturn netReturn maximumFavorableExcursion maximumAdverseExcursion : ℚ)
  deriving DecidableEq

def SettleResult.scored : SettleResult → Scored
  | .pending _ _ => .pending
  | .entryUnfillable _ _ => .entryUnfillable
  | .settled s => .settled s.exitDate s.exitRolledSessions s.grossReturn s.netReturn
      s.maximumFavorableExcursion s.maximumAdverseExcursion

/-! ## Scaled bars -/

variable (k : ℚ) (bar : SettlementBar) (symbol : String)

theorem rescale_hasFactor (hk : 0 < k) (bar : SettlementBar) :
    (rescale k bar).hasFactor = bar.hasFactor := by
  unfold SettlementBar.hasFactor rescale
  cases bar.adjFactor with
  | none => rfl
  | some factor => simp [mul_pos_iff_of_pos_right hk]

theorem pathAdjusted_rescale (hk : 0 < k) (path : List SettlementBar) :
    pathAdjusted (path.map (rescale k)) = pathAdjusted path := by
  unfold pathAdjusted
  rw [List.all_map]
  exact List.all_congr rfl (fun bar => rescale_hasFactor k hk bar)

section

variable (h : bar.hasFactor = true)

include h

theorem rescale_factorOn :
    (rescale k bar).factorOn true = bar.factorOn true * k := by
  unfold SettlementBar.hasFactor at h
  unfold SettlementBar.factorOn rescale
  cases hf : bar.adjFactor with
  | none => simp [hf] at h
  | some factor => simp

theorem map_rescale_factorOn (price : Option ℚ) :
    price.map (· * (rescale k bar).factorOn true)
      = (price.map (· * bar.factorOn true)).map (· * k) := by
  rw [rescale_factorOn k bar h, Option.map_map]
  congr 1
  funext x
  simp [mul_assoc]

theorem priceBar_rescale_openPrice :
    (priceBar true (rescale k bar)).openPrice = (priceBar true bar).openPrice.map (· * k) :=
  map_rescale_factorOn k bar h bar.openPrice

theorem priceBar_rescale_close :
    (priceBar true (rescale k bar)).close = (priceBar true bar).close.map (· * k) :=
  map_rescale_factorOn k bar h bar.close

theorem barHigh_rescale :
    barHigh (priceBar true (rescale k bar)) = (barHigh (priceBar true bar)).map (· * k) := by
  have hhigh : (priceBar true (rescale k bar)).high = (priceBar true bar).high.map (· * k) :=
    map_rescale_factorOn k bar h bar.high
  unfold barHigh
  rw [hhigh, priceBar_rescale_close k bar h]
  cases (priceBar true bar).high <;> rfl

theorem barLow_rescale :
    barLow (priceBar true (rescale k bar)) = (barLow (priceBar true bar)).map (· * k) := by
  have hlow : (priceBar true (rescale k bar)).low = (priceBar true bar).low.map (· * k) :=
    map_rescale_factorOn k bar h bar.low
  unfold barLow
  rw [hlow, priceBar_rescale_close k bar h]
  cases (priceBar true bar).low <;> rfl

end

/-! ## Scaled returns -/

theorem foldl_max_map_mul (hk : 0 < k) (l : List ℚ) (x : ℚ) :
    (l.map (· * k)).foldl max (x * k) = l.foldl max x * k := by
  induction l generalizing x with
  | nil => rfl
  | cons y rest ih =>
      have hmax : max (x * k) (y * k) = max x y * k := (max_mul_of_nonneg x y hk.le).symm
      rw [List.map_cons, List.foldl_cons, List.foldl_cons, hmax]
      exact ih (max x y)

theorem foldl_min_map_mul (hk : 0 < k) (l : List ℚ) (x : ℚ) :
    (l.map (· * k)).foldl min (x * k) = l.foldl min x * k := by
  induction l generalizing x with
  | nil => rfl
  | cons y rest ih =>
      have hmin : min (x * k) (y * k) = min x y * k := (min_mul_of_nonneg x y hk.le).symm
      rw [List.map_cons, List.foldl_cons, List.foldl_cons, hmin]
      exact ih (min x y)

theorem max?_map_mul (hk : 0 < k) (l : List ℚ) :
    (l.map (· * k)).max?.getD 0 = l.max?.getD 0 * k := by
  cases l with
  | nil => simp
  | cons x rest => exact foldl_max_map_mul k hk rest x

theorem min?_map_mul (hk : 0 < k) (l : List ℚ) :
    (l.map (· * k)).min?.getD 0 = l.min?.getD 0 * k := by
  cases l with
  | nil => simp
  | cons x rest => exact foldl_min_map_mul k hk rest x

theorem filterMap_rescale (read : PricedBar → Option ℚ) (window : List SettlementBar)
    (hread : ∀ bar ∈ window,
      read (priceBar true (rescale k bar)) = (read (priceBar true bar)).map (· * k)) :
    ((window.map (rescale k)).map (priceBar true)).filterMap read
      = ((window.map (priceBar true)).filterMap read).map (· * k) := by
  induction window with
  | nil => rfl
  | cons bar rest ih =>
      have hhead := hread bar List.mem_cons_self
      have htail := ih (fun b hb => hread b (List.mem_cons_of_mem bar hb))
      simp only [List.map_cons, List.filterMap_cons, hhead]
      cases read (priceBar true bar) with
      | none => exact htail
      | some value => simp only [Option.map_some, List.map_cons, htail]

theorem option_map_mul_getD (value : Option ℚ) :
    (value.map (· * k)).getD 0 = value.getD 0 * k := by
  cases value <;> simp

theorem head_rescale (window : List SettlementBar)
    (h : ∀ bar ∈ window, bar.hasFactor = true) :
    ((((window.map (rescale k)).map (priceBar true)).head?.bind (·.openPrice)).getD 0)
      = (((window.map (priceBar true)).head?.bind (·.openPrice)).getD 0) * k := by
  cases window with
  | nil => simp
  | cons bar rest =>
      have hopen := priceBar_rescale_openPrice k bar (h bar List.mem_cons_self)
      simp only [List.map_cons, List.head?_cons, Option.bind_some, hopen]
      exact option_map_mul_getD k _

theorem last_rescale (window : List SettlementBar)
    (h : ∀ bar ∈ window, bar.hasFactor = true) :
    ((((window.map (rescale k)).map (priceBar true)).getLast?.bind (·.close)).getD 0)
      = (((window.map (priceBar true)).getLast?.bind (·.close)).getD 0) * k := by
  simp only [List.getLast?_map]
  cases hlast : window.getLast? with
  | none => simp
  | some bar =>
      have hclose := priceBar_rescale_close k bar (h bar (List.mem_of_getLast? hlast))
      simp only [Option.map_some, Option.bind_some, hclose]
      exact option_map_mul_getD k _

theorem returnsOf_rescale (hk : 0 < k) (window : List SettlementBar)
    (direction : Direction) (h : ∀ bar ∈ window, bar.hasFactor = true) :
    returnsOf (window.map (rescale k)) direction = returnsOf window direction := by
  have hadjusted : pathAdjusted window = true := List.all_eq_true.mpr h
  have hscaled : pathAdjusted (window.map (rescale k)) = true := by
    rw [pathAdjusted_rescale k hk, hadjusted]
  have hhigh := filterMap_rescale k barHigh window (fun bar hb => barHigh_rescale k bar (h bar hb))
  have hlow := filterMap_rescale k barLow window (fun bar hb => barLow_rescale k bar (h bar hb))
  have hcancel : ∀ a b : ℚ, divide (a * k) (b * k) = divide a b :=
    fun a b => divide_mul_right a b k hk.ne'
  unfold returnsOf priceWindow
  rw [hscaled, hadjusted]
  simp only [hhigh, hlow, max?_map_mul k hk, min?_map_mul k hk, head_rescale k window h,
    last_rescale k window h, hcancel]

/-! ## What is scored, from the exit session on -/

/-- What is scored when the walk ends at `exitIndex?`. -/
def scoreAt (path : List SettlementBar) (entry : SettlementBar) (direction : Direction)
    (horizon : ℤ) (cost : ℚ) : Option ℕ → Except PyError Scored
  | none => .ok .pending
  | some walkedIndex =>
      let window := path.take (targetIndex horizon + walkedIndex + 1)
      (returnsOf window direction).map (fun returns =>
        .settled (window.getLast?.getD entry).tradingDate walkedIndex returns.1 (returns.1 - cost)
          returns.2.1 returns.2.2)

variable (path : List SettlementBar) (entry : SettlementBar) (direction : Direction) (horizon : ℤ)
  (benchmarkReturn : Option (Date → Date → Option ℚ)) (cost : ℚ)

theorem settledDocument_scored (walkedIndex : ℕ) (walkedReason : Reason) :
    (settledDocument path entry direction horizon benchmarkReturn cost walkedIndex
        walkedReason).map SettleResult.scored
      = scoreAt path entry direction horizon cost (some walkedIndex) := by
  unfold settledDocument scoreAt
  dsimp only
  cases returnsOf (path.take (targetIndex horizon + walkedIndex + 1)) direction <;> rfl

/-- A filled entry is scored by the exit session of its walk alone. -/
theorem settle_scored (rest : List SettlementBar) (symbol : String)
    (direction : Direction) (horizon : ℤ) (benchmarkReturn : Option (Date → Date → Option ℚ))
    (cost : ℚ) (maxRoll : ℕ) (hentry : entryBlockReason entry direction symbol = none) :
    (settle (entry :: rest) symbol direction horizon benchmarkReturn cost maxRoll).map
        SettleResult.scored
      = scoreAt (entry :: rest) entry direction horizon cost
          (walkIdea (entry :: rest) symbol direction horizon maxRoll).exitIndex? := by
  unfold settle
  simp only [hentry]
  by_cases hshort : (entry :: rest).length ≤ targetIndex horizon
  · have hnil : (entry :: rest).drop (targetIndex horizon) = [] := List.drop_eq_nil_of_le hshort
    rw [if_pos hshort, walkIdea_eq, hnil]
    rfl
  · rw [if_neg hshort]
    cases walkIdea (entry :: rest) symbol direction horizon maxRoll with
    | pending reason => rfl
    | settled walkedIndex field price reason =>
        exact settledDocument_scored (entry :: rest) entry direction horizon benchmarkReturn cost
          walkedIndex reason

theorem scoreAt_rescale (hk : 0 < k) (path : List SettlementBar) (entry : SettlementBar)
    (direction : Direction) (horizon : ℤ) (cost : ℚ) (exitIndex? : Option ℕ)
    (h : ∀ bar ∈ path, bar.hasFactor = true) :
    scoreAt (path.map (rescale k)) (rescale k entry) direction horizon cost exitIndex?
      = scoreAt path entry direction horizon cost exitIndex? := by
  cases exitIndex? with
  | none => rfl
  | some walkedIndex =>
      have hwindow : ∀ bar ∈ path.take (targetIndex horizon + walkedIndex + 1),
          bar.hasFactor = true := fun bar hbar => h bar (List.mem_of_mem_take hbar)
      have hdate : ∀ bar : Option SettlementBar,
          ((bar.map (rescale k)).getD (rescale k entry)).tradingDate
            = (bar.getD entry).tradingDate := by
        intro bar
        cases bar <;> rfl
      unfold scoreAt
      simp only [← List.map_take, returnsOf_rescale k hk _ direction hwindow, List.getLast?_map,
        hdate]

/-- Whether the scored value has an exit, and how far it rolled. -/
def Scored.rolled? : Scored → Option ℕ
  | .settled _ rolled _ _ _ _ => some rolled
  | _ => none

theorem scoreAt_rolled? (exitIndex? : Option ℕ) (s : Scored)
    (h : scoreAt path entry direction horizon cost exitIndex? = .ok s) :
    s.rolled? = exitIndex? := by
  cases exitIndex? with
  | none =>
      cases h
      rfl
  | some walkedIndex =>
      unfold scoreAt at h
      dsimp only at h
      cases hr : returnsOf (path.take (targetIndex horizon + walkedIndex + 1)) direction with
      | error e =>
          rw [hr] at h
          cases h
      | ok returns =>
          rw [hr] at h
          cases h
          rfl

/-! ## The exact condition -/

/-- The sale verdicts the exit walk meets: of each close from the target session on, on the walk's
    price basis. -/
def exitVerdicts (path : List SettlementBar) (symbol : String) (direction : Direction)
    (horizon : ℤ) : List Bool :=
  closeVerdicts symbol direction (priceWindow (path.drop (targetIndex horizon))).bars

theorem exitIndex_rescale_iff (hk : 0 < k) (path : List SettlementBar) (symbol : String)
    (direction : Direction) (horizon : ℤ) (maxRoll : ℕ) :
    (walkIdea (path.map (rescale k)) symbol direction horizon maxRoll).exitIndex?
        = (walkIdea path symbol direction horizon maxRoll).exitIndex? ↔
      AgreeUntilFree maxRoll (exitVerdicts (path.map (rescale k)) symbol direction horizon)
        (exitVerdicts path symbol direction horizon) := by
  have hclose : (priceWindow ((path.map (rescale k)).drop (targetIndex horizon))).bars.map
        (·.close.isSome)
      = (priceWindow (path.drop (targetIndex horizon))).bars.map (·.close.isSome) := by
    simp only [priceWindow, ← List.map_drop, pathAdjusted_rescale k hk, List.map_map]
    apply List.map_congr_left
    intro bar hbar
    simp [priceBar, rescale]
  rw [walkIdea_eq, walkIdea_eq, sellAt_close_exitIndex?, sellAt_close_exitIndex?]
  exact rollPast_exitIndex_eq_iff symbol direction maxRoll 0 _ _ hclose

/-- **Scaling the factors.** A settlement is unchanged by one common factor exactly when its entry
    is refused (that check reads raw prices) or the close verdicts of the exit walk agree up to the
    first session that can be sold into. -/
theorem settle_rescale_iff (k : ℚ) (path : List SettlementBar) (symbol : String)
    (direction : Direction) (horizon : ℤ) (benchmarkReturn : Option (Date → Date → Option ℚ))
    (cost : ℚ) (maxRoll : ℕ) (r : SettleResult) (hk : 0 < k)
    (hfactor : ∀ bar ∈ path, bar.hasFactor = true)
    (hsettle : settle path symbol direction horizon benchmarkReturn cost maxRoll = .ok r) :
    (settle (path.map (rescale k)) symbol direction horizon benchmarkReturn cost maxRoll).map
        SettleResult.scored = .ok r.scored ↔
      (∃ entry, path.head? = some entry ∧ entryBlockReason entry direction symbol ≠ none) ∨
        AgreeUntilFree maxRoll (exitVerdicts (path.map (rescale k)) symbol direction horizon)
          (exitVerdicts path symbol direction horizon) := by
  cases path with
  | nil =>
      cases hsettle
      simp [settle, exitVerdicts, priceWindow, closeVerdicts, AgreeUntilFree, Except.map]
  | cons entry rest =>
      cases hentry : entryBlockReason entry direction symbol with
      | some blocked =>
          have hentry' : entryBlockReason (rescale k entry) direction symbol = some blocked :=
            hentry
          unfold settle at hsettle
          simp only [hentry] at hsettle
          cases hsettle
          unfold settle
          simp only [List.map_cons, hentry']
          simp [Except.map, SettleResult.scored, hentry]
      | none =>
          have hscored := settle_scored entry rest symbol direction horizon benchmarkReturn cost
            maxRoll hentry
          have hscored' := settle_scored (rescale k entry) (rest.map (rescale k)) symbol direction
            horizon benchmarkReturn cost maxRoll hentry
          rw [← List.map_cons] at hscored'
          rw [scoreAt_rescale k hk (entry :: rest) entry direction horizon cost _ hfactor]
            at hscored'
          rw [hsettle] at hscored
          rw [hscored', ← exitIndex_rescale_iff k hk]
          simp only [List.head?_cons, Option.some.injEq, exists_eq_left', hentry, ne_eq,
            not_true_eq_false, false_or]
          constructor
          · intro h
            -- the scored value tells where its walk ended
            have hrolled' := scoreAt_rolled? _ entry direction horizon cost _ r.scored h
            have hrolled := scoreAt_rolled? _ entry direction horizon cost _ r.scored hscored.symm
            rw [← hrolled', hrolled]
          · intro h
            rw [h]
            exact hscored.symm

/-- A low-priced stock without stored limits, bought at 1.06 and asked to be sold at 0.95, where a
    previous close of 1.05 puts the down limit. -/
def lowPricedPath : List SettlementBar :=
  let bar (day : Date) (openPrice close preClose : ℚ) : SettlementBar :=
    { tradingDate := day, openPrice := some openPrice, high := some openPrice, low := some close
      close := some close, preClose := some preClose, adjFactor := some 1 }
  [bar 20000 (53 / 50) (21 / 20) (21 / 20), bar 20001 1 (19 / 20) (21 / 20),
    bar 20002 1 (97 / 100) (19 / 20)]

/-- With every factor ten times as large, the band of the second session is 9.45 and no longer
    covers a close of 9.5: the exit is a session earlier. -/
theorem settle_rescale_lowPriced :
    (∀ bar ∈ lowPricedPath, bar.hasFactor = true) ∧
      (settle lowPricedPath "600000.SH" .long 2).map SettleResult.scored
        = .ok (.settled 20002 1 (-9 / 106) (-9 / 106 - roundTripCost) 0 (-11 / 106)) ∧
      (settle (lowPricedPath.map (rescale 10)) "600000.SH" .long 2).map SettleResult.scored
        = .ok (.settled 20001 0 (-11 / 106) (-11 / 106 - roundTripCost) 0 (-11 / 106)) ∧
      (settle (lowPricedPath.map (rescale 10)) "600000.SH" .long 2).map SettleResult.scored
        ≠ (settle lowPricedPath "600000.SH" .long 2).map SettleResult.scored := by
  decide +kernel

/-! ## Stored limits -/

/-- The fallback band of `_limits` is not used on this bar. -/
def SettlementBar.storesLimits (bar : SettlementBar) : Prop :=
  (bar.limitUp.isSome ∧ bar.limitDown.isSome) ∨ bar.preClose = none

theorem limits_rescale (h : bar.hasFactor = true) (hstored : bar.storesLimits) :
    limits (priceBar true (rescale k bar)).toSettlementBar symbol
      = ((limits (priceBar true bar).toSettlementBar symbol).1.map (· * k),
          (limits (priceBar true bar).toSettlementBar symbol).2.map (· * k)) := by
  have hup : (priceBar true (rescale k bar)).limitUp
      = (priceBar true bar).limitUp.map (· * k) := map_rescale_factorOn k bar h bar.limitUp
  have hdown : (priceBar true (rescale k bar)).limitDown
      = (priceBar true bar).limitDown.map (· * k) := map_rescale_factorOn k bar h bar.limitDown
  unfold limits
  rw [hup, hdown]
  rcases hstored with ⟨hup, hdown⟩ | hnone
  · obtain ⟨up, hup⟩ := Option.isSome_iff_exists.mp hup
    obtain ⟨down, hdown⟩ := Option.isSome_iff_exists.mp hdown
    simp [priceBar, hup, hdown]
  · cases hup : bar.limitUp <;> cases hdown : bar.limitDown <;>
      simp [priceBar, rescale, hup, hdown, hnone]

theorem offerBlocked_rescale (hk : 0 < k) (bar : SettlementBar) (symbol : String)
    (direction : Direction) (h : bar.hasFactor = true) (hstored : bar.storesLimits) :
    offerBlocked symbol direction (priceBar true (rescale k bar)) .atClose
      = offerBlocked symbol direction (priceBar true bar) .atClose := by
  have hlimits := limits_rescale k bar symbol h hstored
  have hclose := priceBar_rescale_close k bar h
  have hsuspended : (priceBar true (rescale k bar)).isSuspended
      = (priceBar true bar).isSuspended := rfl
  have hpositive : ∀ price : ℚ, price * k ≤ 0 ↔ price ≤ 0 := by
    intro price
    rw [← not_lt, ← not_lt, mul_pos_iff_of_pos_right hk]
  have hdown : ∀ price : ℚ,
      atDownLimit symbol (priceBar true (rescale k bar)).toSettlementBar (price * k)
        = atDownLimit symbol (priceBar true bar).toSettlementBar price := by
    intro price
    unfold atDownLimit
    rw [hlimits]
    cases (limits (priceBar true bar).toSettlementBar symbol).2 with
    | none => rfl
    | some down =>
        have hside : down * k * (1 + limitTolerance) = down * (1 + limitTolerance) * k := by ring
        simp only [Option.map_some, hside, mul_le_mul_iff_left₀ hk]
  have hup : ∀ price : ℚ,
      atUpLimit symbol (priceBar true (rescale k bar)).toSettlementBar (price * k)
        = atUpLimit symbol (priceBar true bar).toSettlementBar price := by
    intro price
    unfold atUpLimit
    rw [hlimits]
    cases (limits (priceBar true bar).toSettlementBar symbol).1 with
    | none => rfl
    | some up =>
        have hside : up * k * (1 - limitTolerance) = up * (1 - limitTolerance) * k := by ring
        simp only [Option.map_some, hside, mul_le_mul_iff_left₀ hk]
  cases direction with
  | long =>
      simp only [offerBlocked, saleBlocked, SettlementBar.priceAt, hclose, hsuspended]
      cases (priceBar true bar).close with
      | none => rfl
      | some price => simp only [Option.map_some, hpositive, hdown]
  | short =>
      simp only [offerBlocked, exitBlocked, hclose, hsuspended]
      cases (priceBar true bar).close with
      | none => rfl
      | some price => simp only [Option.map_some, hpositive, hup]

theorem agreeUntilFree_refl (n : ℕ) (verdicts : List Bool) : AgreeUntilFree n verdicts verdicts := by
  induction verdicts generalizing n with
  | nil => cases n <;> trivial
  | cons blocked rest ih =>
      cases n with
      | zero => trivial
      | succ n => exact ⟨rfl, fun _ => ih n⟩

/-- Where limits are stored on every session the exit may roll to, the scale never moves it. -/
theorem exitVerdicts_rescale (hk : 0 < k) (path : List SettlementBar) (symbol : String)
    (direction : Direction) (horizon : ℤ) (maxRoll : ℕ)
    (hfactor : ∀ bar ∈ path, bar.hasFactor = true)
    (hstored : ∀ bar ∈ path.drop (targetIndex horizon), bar.storesLimits) :
    AgreeUntilFree maxRoll (exitVerdicts (path.map (rescale k)) symbol direction horizon)
      (exitVerdicts path symbol direction horizon) := by
  have htail : ∀ bar ∈ path.drop (targetIndex horizon), bar.hasFactor = true :=
    fun bar hbar => hfactor bar (List.mem_of_mem_drop hbar)
  have hadjusted : pathAdjusted (path.drop (targetIndex horizon)) = true :=
    List.all_eq_true.mpr htail
  have hverdicts : exitVerdicts (path.map (rescale k)) symbol direction horizon
      = exitVerdicts path symbol direction horizon := by
    unfold exitVerdicts closeVerdicts priceWindow
    simp only [← List.map_drop, pathAdjusted_rescale k hk, hadjusted, List.map_map]
    apply List.map_congr_left
    intro bar hbar
    exact offerBlocked_rescale k hk bar symbol direction (htail bar hbar) (hstored bar hbar)
  rw [hverdicts]
  exact agreeUntilFree_refl maxRoll _

/-- The low-priced path, its limits stored. -/
def lowPricedStoredPath : List SettlementBar :=
  lowPricedPath.map (fun bar => { bar with limitUp := some (6 / 5), limitDown := some (19 / 20) })

theorem settle_rescale_iff_lowPricedStored :
    ∃ r, settle lowPricedStoredPath "600000.SH" .long 2 = .ok r ∧
      (settle (lowPricedStoredPath.map (rescale 10)) "600000.SH" .long 2).map SettleResult.scored
        = .ok r.scored := by
  have hscored : (settle lowPricedStoredPath "600000.SH" .long 2).map SettleResult.scored
      = .ok (.settled 20002 1 (-9 / 106) (-9 / 106 - roundTripCost) 0 (-11 / 106)) := by
    decide +kernel
  have hfactor : ∀ bar ∈ lowPricedStoredPath, bar.hasFactor = true := by decide +kernel
  have hstored : ∀ bar ∈ lowPricedStoredPath.drop (targetIndex 2), bar.storesLimits := by
    intro bar hbar
    obtain ⟨source, -, rfl⟩ := List.mem_map.mp (List.mem_of_mem_drop hbar)
    exact Or.inl ⟨rfl, rfl⟩
  cases hr : settle lowPricedStoredPath "600000.SH" .long 2 with
  | error e =>
      rw [hr] at hscored
      cases hscored
  | ok r =>
      refine ⟨r, rfl, (settle_rescale_iff 10 lowPricedStoredPath "600000.SH" .long 2 none
        roundTripCost maxExitRollSessions r (by norm_num) hfactor hr).mpr (Or.inr ?_)⟩
      exact exitVerdicts_rescale 10 (by norm_num) lowPricedStoredPath "600000.SH" .long 2
        maxExitRollSessions hfactor hstored

end TradingHarness
