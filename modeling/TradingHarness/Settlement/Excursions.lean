import TradingHarness.Library.Runs
import TradingHarness.Settlement.LookAhead
import Mathlib.Tactic.FieldSimp
import Mathlib.Tactic.Linarith
import Mathlib.Tactic.Ring

set_option autoImplicit false

/-! # Excursions

Whether the gross return of a settled idea lies between its two excursions, and these on both sides of zero. A bullish return and its
excursions are all ratios to the entry price; the excursions of a bearish one are reciprocals of such ratios, its return is not. -/

namespace TradingHarness

/-! ## Bars within their range -/

/-- The prices that a bar has are positive and within its low and its high. -/
structure Ranged (bar : SettlementBar) : Prop where
  open_pos : ∀ price, bar.openPrice = some price → 0 < price
  close_pos : ∀ price, bar.close = some price → 0 < price
  low_pos : ∀ low, bar.low = some low → 0 < low
  high_pos : ∀ high, bar.high = some high → 0 < high
  low_le_open : ∀ low price, bar.low = some low → bar.openPrice = some price → low ≤ price
  low_le_close : ∀ low price, bar.low = some low → bar.close = some price → low ≤ price
  open_le_high : ∀ high price, bar.high = some high → bar.openPrice = some price → price ≤ high
  close_le_high : ∀ high price, bar.high = some high → bar.close = some price → price ≤ high

theorem map_scale_eq_some {value : Option ℚ} {factor scaled : ℚ} (h : value.map (· * factor) = some scaled) :
    ∃ price, value = some price ∧ scaled = price * factor := by
  obtain ⟨price, hprice, hscaled⟩ := Option.map_eq_some_iff.mp h
  exact ⟨price, hprice, hscaled.symm⟩

theorem Ranged.priceBar {bar : SettlementBar} (h : Ranged bar) (adjusted : Bool) (hfactor : 0 < bar.factorOn adjusted) :
    Ranged (priceBar adjusted bar).toSettlementBar := by
  constructor
  · intro price hprice
    obtain ⟨raw, hraw, rfl⟩ := map_scale_eq_some hprice
    exact mul_pos (h.open_pos raw hraw) hfactor
  · intro price hprice
    obtain ⟨raw, hraw, rfl⟩ := map_scale_eq_some hprice
    exact mul_pos (h.close_pos raw hraw) hfactor
  · intro low hlow
    obtain ⟨raw, hraw, rfl⟩ := map_scale_eq_some hlow
    exact mul_pos (h.low_pos raw hraw) hfactor
  · intro high hhigh
    obtain ⟨raw, hraw, rfl⟩ := map_scale_eq_some hhigh
    exact mul_pos (h.high_pos raw hraw) hfactor
  · intro low price hlow hprice
    obtain ⟨rawLow, hrawLow, rfl⟩ := map_scale_eq_some hlow
    obtain ⟨raw, hraw, rfl⟩ := map_scale_eq_some hprice
    exact mul_le_mul_of_nonneg_right (h.low_le_open rawLow raw hrawLow hraw) hfactor.le
  · intro low price hlow hprice
    obtain ⟨rawLow, hrawLow, rfl⟩ := map_scale_eq_some hlow
    obtain ⟨raw, hraw, rfl⟩ := map_scale_eq_some hprice
    exact mul_le_mul_of_nonneg_right (h.low_le_close rawLow raw hrawLow hraw) hfactor.le
  · intro high price hhigh hprice
    obtain ⟨rawHigh, hrawHigh, rfl⟩ := map_scale_eq_some hhigh
    obtain ⟨raw, hraw, rfl⟩ := map_scale_eq_some hprice
    exact mul_le_mul_of_nonneg_right (h.open_le_high rawHigh raw hrawHigh hraw) hfactor.le
  · intro high price hhigh hprice
    obtain ⟨rawHigh, hrawHigh, rfl⟩ := map_scale_eq_some hhigh
    obtain ⟨raw, hraw, rfl⟩ := map_scale_eq_some hprice
    exact mul_le_mul_of_nonneg_right (h.close_le_high rawHigh raw hrawHigh hraw) hfactor.le

theorem priceWindow_ranged {path : List SettlementBar} (h : ∀ bar ∈ path, Ranged bar) :
    ∀ bar ∈ (priceWindow path).bars, Ranged bar.toSettlementBar := by
  intro bar hbar
  obtain ⟨raw, hraw, rfl⟩ := List.mem_map.mp hbar
  exact (h raw hraw).priceBar _ (factorOn_pos path raw hraw)

section Ranges

variable {bar : PricedBar} {price : ℚ}

section

variable (h : Ranged bar.toSettlementBar)

include h

theorem Ranged.barLow_pos (hlow : barLow bar = some price) : 0 < price := by
  unfold barLow at hlow
  rcases hnow : bar.low with _ | low
  · rw [hnow, Option.none_or] at hlow
    exact h.close_pos price hlow
  · rw [hnow, Option.some_or] at hlow
    exact h.low_pos price (hnow.trans hlow)

theorem Ranged.barHigh_pos (hhigh : barHigh bar = some price) : 0 < price := by
  unfold barHigh at hhigh
  rcases hnow : bar.high with _ | high
  · rw [hnow, Option.none_or] at hhigh
    exact h.close_pos price hhigh
  · rw [hnow, Option.some_or] at hhigh
    exact h.high_pos price (hnow.trans hhigh)

theorem Ranged.close_between (hclose : bar.close = some price) :
    (∃ low, barLow bar = some low ∧ low ≤ price) ∧ ∃ high, barHigh bar = some high ∧ price ≤ high := by
  constructor
  · rcases hnow : bar.low with _ | low
    · exact ⟨price, by rw [barLow, hnow, Option.none_or, hclose], le_refl _⟩
    · exact ⟨low, by rw [barLow, hnow, Option.some_or], h.low_le_close low price hnow hclose⟩
  · rcases hnow : bar.high with _ | high
    · exact ⟨price, by rw [barHigh, hnow, Option.none_or, hclose], le_refl _⟩
    · exact ⟨high, by rw [barHigh, hnow, Option.some_or], h.close_le_high high price hnow hclose⟩

end

end Ranges

/-! ## The window of an idea -/

/-- The sessions from the entry to the exit, on one price basis. -/
def heldBars (path : List SettlementBar) (symbol : String) (direction : Direction) (horizon : ℤ) (maxRoll : ℕ) : List PricedBar :=
  match (walkIdea path symbol direction horizon maxRoll).exitIndex? with
  | some walked => (priceWindow (path.take (targetIndex horizon + walked + 1))).bars
  | none => []

def entryOpen (bars : List PricedBar) : ℚ := (bars.head?.bind (·.openPrice)).getD 0

def exitClose (bars : List PricedBar) : ℚ := (bars.getLast?.bind (·.close)).getD 0

/-- The lows and highs are on both sides of the entry price. A bearish idea has also not lost, or its highest price is as far above the
    exit as the reciprocal scale takes. -/
structure Bracketed (bars : List PricedBar) (direction : Direction) : Prop where
  below : ∃ low ∈ bars.filterMap barLow, low ≤ entryOpen bars
  above : ∃ high ∈ bars.filterMap barHigh, entryOpen bars ≤ high
  bearish : direction = .short → exitClose bars ≤ entryOpen bars ∨
    ∃ high ∈ bars.filterMap barHigh, entryOpen bars ^ 2 ≤ high * (2 * entryOpen bars - exitClose bars)

theorem rollPast_close {symbol : String} {direction : Direction} {left index : ℕ} {bars : List PricedBar} {i : ℕ}
    (h : (rollPast symbol direction left index bars).exitIndex? = some i) :
    ∃ bar price, bars[i - index]? = some bar ∧ bar.close = some price := by
  induction bars generalizing left index with
  | nil => simp [rollPast, Walked.exitIndex?] at h
  | cons bar rest ih =>
      rw [rollPast_cons] at h
      by_cases hfree : offerBlocked symbol direction bar .atClose = false
      · rw [if_pos hfree] at h
        obtain rfl : index = i := Option.some.inj h
        obtain ⟨price, hprice⟩ := Option.isSome_iff_exists.mp (close_isSome_of_free symbol direction bar hfree)
        exact ⟨bar, price, by simp, hprice⟩
      · rw [if_neg hfree] at h
        cases left with
        | zero =>
            simp only [valueAtClose_exitIndex?, Option.map_eq_some_iff] at h
            obtain ⟨price, hprice, rfl⟩ := h
            exact ⟨bar, price, by simp, hprice⟩
        | succ left =>
            have hlater := rollPast_exitIndex_ge symbol direction left (index + 1) rest i h
            obtain ⟨exitBar, price, hbar, hprice⟩ := ih h
            refine ⟨exitBar, price, ?_, hprice⟩
            rw [show i - index = (i - (index + 1)) + 1 by omega, List.getElem?_cons_succ]
            exact hbar

theorem walkIdea_close {path : List SettlementBar} {symbol : String} {direction : Direction} {horizon : ℤ} {maxRoll walked : ℕ}
    (h : (walkIdea path symbol direction horizon maxRoll).exitIndex? = some walked) :
    ∃ bar price, path[targetIndex horizon + walked]? = some bar ∧ bar.close = some price := by
  rw [walkIdea_eq, sellAt_close_exitIndex?] at h
  obtain ⟨bar, price, hbar, hprice⟩ := rollPast_close h
  rw [Nat.sub_zero, priceWindow, List.getElem?_map, List.getElem?_drop] at hbar
  obtain ⟨raw, hraw, rfl⟩ := Option.map_eq_some_iff.mp hbar
  obtain ⟨close, hclose, -⟩ := map_scale_eq_some hprice
  exact ⟨raw, close, hraw, hclose⟩

/-- What a settled idea is made of. -/
structure SettledOn (bars : List PricedBar) (direction : Direction) (s : Settlement) : Prop where
  entry_pos : 0 < entryOpen bars
  exit_bar : ∃ bar ∈ bars, bar.close = some (exitClose bars)
  gross : s.grossReturn = (exitClose bars / entryOpen bars - 1) * direction.sign
  long : direction = .long → s.maximumFavorableExcursion = (bars.filterMap barHigh).max?.getD 0 / entryOpen bars - 1 ∧
    s.maximumAdverseExcursion = (bars.filterMap barLow).min?.getD 0 / entryOpen bars - 1
  short : direction = .short → s.maximumFavorableExcursion = entryOpen bars / (bars.filterMap barLow).min?.getD 0 - 1 ∧
    s.maximumAdverseExcursion = entryOpen bars / (bars.filterMap barHigh).max?.getD 0 - 1

theorem returnsOf_eq {window : List SettlementBar} {direction : Direction} {gross favorable adverse : ℚ}
    (h : returnsOf window direction = .ok (gross, favorable, adverse)) :
    gross = (exitClose (priceWindow window).bars / entryOpen (priceWindow window).bars - 1) * direction.sign ∧
      (direction = .long →
        favorable = ((priceWindow window).bars.filterMap barHigh).max?.getD 0 / entryOpen (priceWindow window).bars - 1 ∧
        adverse = ((priceWindow window).bars.filterMap barLow).min?.getD 0 / entryOpen (priceWindow window).bars - 1) ∧
      (direction = .short →
        favorable = entryOpen (priceWindow window).bars / ((priceWindow window).bars.filterMap barLow).min?.getD 0 - 1 ∧
        adverse = entryOpen (priceWindow window).bars / ((priceWindow window).bars.filterMap barHigh).max?.getD 0 - 1) := by
  unfold returnsOf at h
  obtain ⟨ratio, hratio, h⟩ := Runs.bind_eq_ok h
  obtain ⟨-, rfl⟩ := divide_ok _ _ _ hratio
  cases direction with
  | long =>
      obtain ⟨most, hmost, h⟩ := Runs.bind_eq_ok h
      obtain ⟨least, hleast, h⟩ := Runs.bind_eq_ok h
      obtain ⟨-, rfl⟩ := divide_ok _ _ _ hmost
      obtain ⟨-, rfl⟩ := divide_ok _ _ _ hleast
      obtain ⟨rfl, rfl, rfl⟩ : _ = gross ∧ _ = favorable ∧ _ = adverse := by simpa [pure, Except.pure] using h
      exact ⟨rfl, fun _ => ⟨rfl, rfl⟩, fun hshort => absurd hshort (by decide)⟩
  | short =>
      obtain ⟨most, hmost, h⟩ := Runs.bind_eq_ok h
      obtain ⟨least, hleast, h⟩ := Runs.bind_eq_ok h
      obtain ⟨-, rfl⟩ := divide_ok _ _ _ hmost
      obtain ⟨-, rfl⟩ := divide_ok _ _ _ hleast
      obtain ⟨rfl, rfl, rfl⟩ : _ = gross ∧ _ = favorable ∧ _ = adverse := by simpa [pure, Except.pure] using h
      exact ⟨rfl, fun hlong => absurd hlong (by decide), fun _ => ⟨rfl, rfl⟩⟩

theorem entryBlockReason_open {bar : SettlementBar} {direction : Direction} {symbol : String}
    (h : entryBlockReason bar direction symbol = none) : ∃ price, bar.openPrice = some price ∧ 0 < price := by
  unfold entryBlockReason at h
  split at h
  · exact absurd h (by simp)
  · split at h
    · exact absurd h (by simp)
    · next price hprice =>
        split at h
        · exact absurd h (by simp)
        · next hpos => exact ⟨price, hprice, not_le.mp hpos⟩

theorem entryOpen_pos {entry : SettlementBar} {rest : List SettlementBar} {price : ℚ} (hopen : entry.openPrice = some price) (hpos : 0 < price) :
    0 < entryOpen (priceWindow (entry :: rest)).bars := by
  have hscaled : entryOpen (priceWindow (entry :: rest)).bars = price * entry.factorOn (pathAdjusted (entry :: rest)) := by
    simp [entryOpen, priceWindow, TradingHarness.priceBar, hopen]
  rw [hscaled]
  exact mul_pos hpos (factorOn_pos (entry :: rest) entry List.mem_cons_self)

theorem exitClose_mem {window : List SettlementBar} {bar : SettlementBar} {price : ℚ} (hlast : window.getLast? = some bar)
    (hclose : bar.close = some price) :
    ∃ scaled ∈ (priceWindow window).bars, scaled.close = some (exitClose (priceWindow window).bars) := by
  have hlastScaled : (priceWindow window).bars.getLast? = some (TradingHarness.priceBar (pathAdjusted window) bar) := by
    rw [priceWindow, List.getLast?_map, hlast, Option.map_some]
  refine ⟨_, List.mem_of_getLast? hlastScaled, ?_⟩
  unfold exitClose
  rw [hlastScaled]
  simp [TradingHarness.priceBar, hclose]

theorem settle_settledOn {path : List SettlementBar} {symbol : String} {direction : Direction} {horizon : ℤ}
    {benchmarkReturn : Option (Date → Date → Option ℚ)} {cost : ℚ} {maxRoll : ℕ} {s : Settlement}
    (h : settle path symbol direction horizon benchmarkReturn cost maxRoll = .ok (.settled s)) :
    (∃ length, heldBars path symbol direction horizon maxRoll = (priceWindow (path.take length)).bars) ∧
      SettledOn (heldBars path symbol direction horizon maxRoll) direction s := by
  unfold settle at h
  cases path with
  | nil => simp at h
  | cons entry rest =>
      dsimp only at h
      split at h
      · simp at h
      next hopen =>
        split at h
        · simp at h
        · split at h
          · simp at h
          next walked field price reason hwalk =>
            have hexit : (walkIdea (entry :: rest) symbol direction horizon maxRoll).exitIndex? = some walked := by
              rw [hwalk]
              rfl
            have hheld : heldBars (entry :: rest) symbol direction horizon maxRoll
                = (priceWindow ((entry :: rest).take (targetIndex horizon + walked + 1))).bars := by
              unfold heldBars
              rw [hexit]
            rw [hheld]
            refine ⟨⟨_, rfl⟩, ?_⟩
            obtain ⟨exitBar, close, hbar, hclose⟩ := walkIdea_close hexit
            obtain ⟨openPrice, hopenPrice, hpos⟩ := entryBlockReason_open hopen
            have hlast : ((entry :: rest).take (targetIndex horizon + walked + 1)).getLast? = some exitBar := by
              rw [List.getLast?_take, if_neg (Nat.succ_ne_zero _), Nat.add_sub_cancel, hbar, Option.some_or]
            unfold settledDocument at h
            obtain ⟨⟨gross, favorable, adverse⟩, hreturns, h⟩ := Runs.bind_eq_ok h
            obtain ⟨hgross, hlong, hshort⟩ := returnsOf_eq hreturns
            obtain rfl := SettleResult.settled.inj (Except.ok.inj h)
            exact ⟨entryOpen_pos hopenPrice hpos, exitClose_mem hlast hclose, hgross, hlong, hshort⟩

/-! ## Between the excursions -/

theorem greatest_of_mem {values : List ℚ} {value : ℚ} (h : value ∈ values) :
    ∃ most ∈ values, values.max?.getD 0 = most ∧ ∀ other ∈ values, other ≤ most := by
  obtain ⟨most, hmost⟩ := Option.isSome_iff_exists.mp (List.isSome_max?_of_mem h)
  obtain ⟨hmem, hle⟩ := List.max?_eq_some_iff.mp hmost
  exact ⟨most, hmem, by rw [hmost, Option.getD_some], hle⟩

theorem least_of_mem {values : List ℚ} {value : ℚ} (h : value ∈ values) :
    ∃ least ∈ values, values.min?.getD 0 = least ∧ ∀ other ∈ values, least ≤ other := by
  obtain ⟨least, hleast⟩ := Option.isSome_iff_exists.mp (List.isSome_min?_of_mem h)
  obtain ⟨hmem, hle⟩ := List.min?_eq_some_iff.mp hleast
  exact ⟨least, hmem, by rw [hleast, Option.getD_some], hle⟩

/-- The gross return is between the excursions, and these are on both sides of zero. -/
def Settlement.Between (s : Settlement) : Prop :=
  s.maximumAdverseExcursion ≤ s.grossReturn ∧ s.grossReturn ≤ s.maximumFavorableExcursion ∧
    s.maximumAdverseExcursion ≤ 0 ∧ 0 ≤ s.maximumFavorableExcursion

theorem between_long_iff {entry exit least most : ℚ} (hentry : 0 < entry) (hleast : least ≤ exit) (hmost : exit ≤ most) :
    (least / entry - 1 ≤ exit / entry - 1 ∧ exit / entry - 1 ≤ most / entry - 1 ∧ least / entry - 1 ≤ 0 ∧ 0 ≤ most / entry - 1) ↔
      least ≤ entry ∧ entry ≤ most := by
  have hlower : least / entry ≤ exit / entry := div_le_div_of_nonneg_right hleast hentry.le
  have hupper : exit / entry ≤ most / entry := div_le_div_of_nonneg_right hmost hentry.le
  constructor
  · rintro ⟨-, -, hlow, hhigh⟩
    exact ⟨(div_le_one hentry).mp (by linarith), (one_le_div hentry).mp (by linarith)⟩
  · rintro ⟨hlow, hhigh⟩
    have hlowRatio := (div_le_one hentry).mpr hlow
    have hhighRatio := (one_le_div hentry).mpr hhigh
    exact ⟨by linarith, by linarith, by linarith, by linarith⟩

theorem one_sub_ratio_le {entry exit : ℚ} (hentry : 0 < entry) (hexit : 0 < exit) : (exit / entry - 1) * (-1) ≤ entry / exit - 1 := by
  have hsquare : 0 ≤ (entry - exit) ^ 2 / (entry * exit) := by positivity
  have hdifference : entry / exit - 1 - (exit / entry - 1) * (-1) = (entry - exit) ^ 2 / (entry * exit) := by
    field_simp
    ring
  linarith

theorem adverse_le_iff {entry exit most : ℚ} (hentry : 0 < entry) (hmost : 0 < most) :
    entry / most - 1 ≤ (exit / entry - 1) * (-1) ↔ entry ^ 2 ≤ most * (2 * entry - exit) := by
  have hscaled : (exit / entry - 1) * (-1) - (entry / most - 1) = (most * (2 * entry - exit) - entry ^ 2) / (entry * most) := by
    field_simp
    ring
  have hpos : 0 < entry * most := mul_pos hentry hmost
  rw [← sub_nonneg, hscaled, div_nonneg_iff]
  constructor
  · rintro (⟨hle, -⟩ | ⟨-, hneg⟩)
    · linarith
    · linarith
  · intro hle
    exact .inl ⟨by linarith, hpos.le⟩

theorem between_short_iff {entry exit least most : ℚ} (hentry : 0 < entry) (hleastPos : 0 < least) (hexit : 0 < exit)
    (hleast : least ≤ exit) (hmost : exit ≤ most) :
    (entry / most - 1 ≤ (exit / entry - 1) * (-1) ∧ (exit / entry - 1) * (-1) ≤ entry / least - 1 ∧ entry / most - 1 ≤ 0 ∧
        0 ≤ entry / least - 1) ↔
      least ≤ entry ∧ entry ≤ most ∧ (exit ≤ entry ∨ entry ^ 2 ≤ most * (2 * entry - exit)) := by
  have hmostPos : 0 < most := hexit.trans_le hmost
  have hupper : (exit / entry - 1) * (-1) ≤ entry / least - 1 := by
    have hratio : entry / exit ≤ entry / least := div_le_div_of_nonneg_left hentry.le hleastPos hleast
    have hpays := one_sub_ratio_le hentry hexit
    linarith
  rw [adverse_le_iff hentry hmostPos]
  constructor
  · rintro ⟨hadverse, -, hhigh, hlow⟩
    exact ⟨(one_le_div hleastPos).mp (by linarith), (div_le_one hmostPos).mp (by linarith), .inr hadverse⟩
  · rintro ⟨hlow, hhigh, hexits⟩
    have hlowRatio := (one_le_div hleastPos).mpr hlow
    have hhighRatio := (div_le_one hmostPos).mpr hhigh
    refine ⟨?_, hupper, by linarith, by linarith⟩
    rcases hexits with hfell | hadverse
    · nlinarith
    · exact hadverse

/-- **A settled return lies between its excursions**, and these on both sides of zero, exactly when the lows and highs have the entry price
    between them and a bearish idea has not lost, or its highest price is at least the square of the entry over twice the entry less the
    exit. -/
theorem excursions_bracket_iff (path : List SettlementBar) (symbol : String) (direction : Direction) (horizon : ℤ)
    (benchmarkReturn : Option (Date → Date → Option ℚ)) (cost : ℚ) (maxRoll : ℕ) (s : Settlement) (hranged : ∀ bar ∈ path, Ranged bar)
    (h : settle path symbol direction horizon benchmarkReturn cost maxRoll = .ok (.settled s)) :
    s.Between ↔ Bracketed (heldBars path symbol direction horizon maxRoll) direction := by
  obtain ⟨⟨length, hheld⟩, hscored⟩ := settle_settledOn h
  have hbars : ∀ bar ∈ heldBars path symbol direction horizon maxRoll, Ranged bar.toSettlementBar := by
    rw [hheld]
    exact priceWindow_ranged fun bar hbar => hranged bar (List.mem_of_mem_take hbar)
  generalize heldBars path symbol direction horizon maxRoll = bars at hscored hbars ⊢
  obtain ⟨exitBar, hexitMem, hclose⟩ := hscored.exit_bar
  obtain ⟨⟨low, hlow, hlowLe⟩, high, hhigh, hleHigh⟩ := (hbars exitBar hexitMem).close_between hclose
  have hlowMem : low ∈ bars.filterMap barLow := List.mem_filterMap.mpr ⟨exitBar, hexitMem, hlow⟩
  have hhighMem : high ∈ bars.filterMap barHigh := List.mem_filterMap.mpr ⟨exitBar, hexitMem, hhigh⟩
  obtain ⟨least, hleastMem, hleast, hleastLe⟩ := least_of_mem hlowMem
  obtain ⟨most, hmostMem, hmost, hleMost⟩ := greatest_of_mem hhighMem
  have hleastExit : least ≤ exitClose bars := (hleastLe low hlowMem).trans hlowLe
  have hexitMost : exitClose bars ≤ most := hleHigh.trans (hleMost high hhighMem)
  have hleastPos : 0 < least := by
    obtain ⟨bar, hbar, hvalue⟩ := List.mem_filterMap.mp hleastMem
    exact (hbars bar hbar).barLow_pos hvalue
  have hexitPos : 0 < exitClose bars := (hbars exitBar hexitMem).close_pos _ hclose
  have hbelow : (∃ low ∈ bars.filterMap barLow, low ≤ entryOpen bars) ↔ least ≤ entryOpen bars :=
    ⟨fun ⟨low, hmem, hle⟩ => (hleastLe low hmem).trans hle, fun hle => ⟨least, hleastMem, hle⟩⟩
  have habove : (∃ high ∈ bars.filterMap barHigh, entryOpen bars ≤ high) ↔ entryOpen bars ≤ most :=
    ⟨fun ⟨high, hmem, hle⟩ => hle.trans (hleMost high hmem), fun hle => ⟨most, hmostMem, hle⟩⟩
  unfold Settlement.Between
  cases direction with
  | long =>
      obtain ⟨hfavorable, hadverse⟩ := hscored.long rfl
      rw [hscored.gross, hfavorable, hadverse, hleast, hmost, Direction.sign, mul_one, between_long_iff hscored.entry_pos hleastExit hexitMost,
        ← hbelow, ← habove]
      exact ⟨fun ⟨hlow, hhigh⟩ => ⟨hlow, hhigh, fun hshort => absurd hshort (by decide)⟩, fun hall => ⟨hall.below, hall.above⟩⟩
  | short =>
      obtain ⟨hfavorable, hadverse⟩ := hscored.short rfl
      rw [hscored.gross, hfavorable, hadverse, hleast, hmost, Direction.sign,
        between_short_iff hscored.entry_pos hleastPos hexitPos hleastExit hexitMost]
      -- of all highs the highest serves best, as twice the entry is above the exit
      have hreach : (∃ high ∈ bars.filterMap barHigh, entryOpen bars ^ 2 ≤ high * (2 * entryOpen bars - exitClose bars)) ↔
          entryOpen bars ^ 2 ≤ most * (2 * entryOpen bars - exitClose bars) := by
        refine ⟨fun ⟨high, hmem, hle⟩ => ?_, fun hle => ⟨most, hmostMem, hle⟩⟩
        obtain ⟨bar, hbar, hvalue⟩ := List.mem_filterMap.mp hmem
        have hhighPos := (hbars bar hbar).barHigh_pos hvalue
        have hroom : 0 < 2 * entryOpen bars - exitClose bars :=
          (pos_iff_pos_of_mul_pos ((pow_pos hscored.entry_pos 2).trans_le hle)).mp hhighPos
        exact hle.trans (mul_le_mul_of_nonneg_right (hleMost high hmem) hroom.le)
      constructor
      · rintro ⟨hlow, hhigh, hexits⟩
        exact ⟨hbelow.mpr hlow, habove.mpr hhigh, fun _ => hexits.imp_right hreach.mpr⟩
      · intro hall
        exact ⟨hbelow.mp hall.below, habove.mp hall.above, (hall.bearish rfl).imp_right hreach.mp⟩

/-- A stock bought at 10 that rises to 11 and closes there. -/
def risingPath : List SettlementBar := [tradedBar 20000 10 (21 / 2) 10 (21 / 2) 10 1, tradedBar 20001 (21 / 2) 11 10 11 (21 / 2) 1]

theorem risingPath_ranged : ∀ bar ∈ risingPath, Ranged bar := by
  have htraded : ∀ (day : Date) (openPrice high low close preClose adjFactor : ℚ), 0 < low → low ≤ openPrice → low ≤ close →
      openPrice ≤ high → close ≤ high → Ranged (tradedBar day openPrice high low close preClose adjFactor) := by
    intro day openPrice high low close preClose adjFactor hpos hlowOpen hlowClose hopenHigh hcloseHigh
    refine ⟨?_, ?_, ?_, ?_, ?_, ?_, ?_, ?_⟩ <;> simp only [tradedBar, Option.some.injEq] <;> intros <;> subst_vars <;> linarith
  intro bar hbar
  simp only [risingPath, List.mem_cons, List.not_mem_nil, or_false] at hbar
  rcases hbar with rfl | rfl
  · exact htraded _ _ _ _ _ _ _ (by norm_num) (by norm_num) (by norm_num) (by norm_num) (by norm_num)
  · exact htraded _ _ _ _ _ _ _ (by norm_num) (by norm_num) (by norm_num) (by norm_num) (by norm_num)

theorem excursions_bracket_iff_rising :
    ∃ s, settle risingPath "600000.SH" .long 2 = .ok (.settled s) ∧
      (s.Between ↔ Bracketed (heldBars risingPath "600000.SH" .long 2 maxExitRollSessions) .long) := by
  have hsettles : ∃ s, settle risingPath "600000.SH" .long 2 = .ok (.settled s) :=
    ⟨{ direction := .long, entryDate := 20000, exitDate := 20001, entryPrice := some 10, exitPrice := some 11
       priceBasis := .adjFactorAdjusted, requestedHorizonSessions := 2, sessionsHeld := 2, exitRolledSessions := 0
       grossReturn := 1 / 10, netReturn := 1 / 10 - roundTripCost, roundTripCost := roundTripCost, benchmarkKey := none
       benchmarkReturn := none, excessReturn := none, maximumFavorableExcursion := 1 / 10, maximumAdverseExcursion := 0
       tradability := .observedOpen }, by decide +kernel⟩
  obtain ⟨s, hs⟩ := hsettles
  exact ⟨s, hs, excursions_bracket_iff risingPath "600000.SH" .long 2 none roundTripCost maxExitRollSessions s risingPath_ranged hs⟩

/-- **A bearish idea loses more than its adverse excursion**: a return of -10 percent, an excursion of -1 / 11. -/
theorem bearish_loss_beyond_excursion :
    (∀ bar ∈ risingPath, Ranged bar) ∧
      ∃ s, settle risingPath "600000.SH" .short 2 = .ok (.settled s) ∧ s.grossReturn < s.maximumAdverseExcursion := by
  refine ⟨risingPath_ranged, ?_⟩
  refine ⟨{ direction := .short, entryDate := 20000, exitDate := 20001, entryPrice := some 10, exitPrice := some 11
            priceBasis := .adjFactorAdjusted, requestedHorizonSessions := 2, sessionsHeld := 2, exitRolledSessions := 0
            grossReturn := -1 / 10, netReturn := -1 / 10 - roundTripCost, roundTripCost := roundTripCost, benchmarkKey := none
            benchmarkReturn := none, excessReturn := none, maximumFavorableExcursion := 0, maximumAdverseExcursion := -1 / 11
            tradability := .observedOpen }, ?_, ?_⟩
  · decide +kernel
  · norm_num

end TradingHarness
