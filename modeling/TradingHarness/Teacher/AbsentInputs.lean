import TradingHarness.Teacher.Rules
import Mathlib.Tactic.Linarith
import Mathlib.Tactic.FieldSimp
import Mathlib.Tactic.Ring

set_option autoImplicit false

/-! # Absent inputs

When an entry does not rest on an input that was absent: whatever the absent ones turn out to be, the entry stands. -/

namespace TradingHarness.Rules

/-! ## Filling what is absent -/

/-- What is there stays. -/
def Keeps {α : Type} (now filled : Option α) : Prop := ∀ value, now = some value → filled = some value

structure Leader.Filled (leader filled : Leader) : Prop where
  pct : Keeps leader.pct filled.pct
  sealed : Keeps leader.sealed filled.sealed
  aboveVwap : Keeps leader.aboveVwap filled.aboveVwap

structure Features.Filled (f g : Features) : Prop where
  price : g.price = f.price
  preClose : Keeps f.preClose g.preClose
  pctQuote : Keeps f.pctQuote g.pctQuote
  opened : Keeps f.opened g.opened
  high : g.high = f.high
  low : g.low = f.low
  amount : Keeps f.amount g.amount
  turnoverPct : Keeps f.turnoverPct g.turnoverPct
  volumeRatio : Keeps f.volumeRatio g.volumeRatio
  vwap : Keeps f.vwap g.vwap
  bidOnly : Keeps f.bidOnly g.bidOnly
  surge : Keeps f.surge g.surge
  notFalling : Keeps f.notFalling g.notFalling
  auctionSeal : Keeps f.auctionSeal g.auctionSeal
  auctionAtLimit : Keeps f.auctionAtLimit g.auctionAtLimit
  sectorCounts : ∀ sector, Keeps (f.sectorCounts sector) (g.sectorCounts sector)
  sectorPeaks : ∀ sector, Keeps (f.sectorPeaks sector) (g.sectorPeaks sector)
  leader : ∀ leader, f.leader = some leader → ∃ filled, g.leader = some filled ∧ leader.Filled filled
  divergenceLive : Keeps f.divergenceLive g.divergenceLive
  clock : g.clock = f.clock
  sessionElapsedMin : g.sessionElapsedMin = f.sessionElapsedMin

/-- Which averages the plan means stays as it is; levels that are absent may be anything. -/
structure Extra.Filled (x y : Extra) : Prop where
  pullbackMa : y.pullbackMa = x.pullbackMa
  trendFloorMa : y.trendFloorMa = x.trendFloorMa
  holdMa : y.holdMa = x.holdMa
  floorMa : y.floorMa = x.floorMa
  invalidMa : y.invalidMa = x.invalidMa
  invalidBufferPct : y.invalidBufferPct = x.invalidBufferPct
  maPrefix : ∀ n, Keeps (x.maPrefix n) (y.maPrefix n)
  frozenMa : ∀ n, Keeps (x.frozenMa n) (y.frozenMa n)
  pullbackLevel : Keeps x.pullbackLevel y.pullbackLevel
  floorLevel : Keeps x.floorLevel y.floorLevel
  holdLevel : Keeps x.holdLevel y.holdLevel
  aLevel : Keeps x.aLevel y.aLevel
  platformUpper : Keeps x.platformUpper y.platformUpper
  platformLower : Keeps x.platformLower y.platformLower
  priorMid : Keeps x.priorMid y.priorMid
  amt20 : Keeps x.amt20 y.amt20
  zone : Keeps x.zone y.zone
  daysSincePeak : Keeps x.daysSincePeak y.daysSincePeak
  pulledBack : Keeps x.pulledBack y.pulledBack
  touchedMa10 : Keeps x.touchedMa10 y.touchedMa10
  divergenceFound : Keeps x.divergenceFound y.divergenceFound
  prevCloseBelowMa60 : Keeps x.prevCloseBelowMa60 y.prevCloseBelowMa60

def Emits (limitUp : Positive → ℚ) (plan : Plan) (f : Features) : Prop := reviewAction limitUp plan f = .entry

/-! ## When an entry rests on nothing absent -/

variable (x : Extra) (f : Features) (n : Option ℕ) (frozen : Option ℚ)

/-- A level is read from what may not be filled any more: the sum of its average, or the frozen level where the plan means none. -/
def Fixed : Prop :=
  match n with
  | some (k + 1) => (x.maPrefix (k + 1)).isSome
  | _ => frozen.isSome

/-- A breach of the level would not count before the close. -/
def FixedAtClose : Prop := f.clock < closeConfirmFrom ∨ Fixed x n frozen

/-- The sector's counts are there, or the peak is too low to have fallen from. -/
def RaceFirm (sector : String) (sectorMinLimitUps : Option ℚ) : Prop :=
  ∀ minimum, sectorMinLimitUps = some minimum → sector ≠ "" →
    ∃ peak, f.sectorPeaks sector = some peak ∧ ((f.sectorCounts sector).isSome ∨ ¬(minimum ≤ peak ∧ 0 < peak))

/-- The floor of a platform is below the price, whatever its absent half is. -/
def PlatformFirm : Prop :=
  f.clock < closeConfirmFrom ∨ (∃ lower, x.platformLower = some lower ∧ lower ≤ f.price) ∨
    ((x.maPrefix (platformFloorMa x)).isSome ∧
      ∃ ma, liveMa x (some (platformFloorMa x)) f.price none = some ma ∧ ma ≠ 0 ∧ ma ≤ f.price)

/-- The line below which the plan is void is known. -/
def LineFixed : Prop :=
  match x.invalidMa with
  | some (k + 1) => (x.maPrefix (k + 1)).isSome ∨ x.invalidBufferPct.getD 3 = 100
  | _ => True

/-- One of the two paths has all it reads, and so has the line, unless the divergence or the hour keeps it from counting. -/
def DivergenceFirm (invalidBelow : ℚ) : Prop :=
  ((pathA x f = true ∧ (x.maPrefix 5).isSome ∧ (x.maPrefix 10).isSome) ∨
      (pathB x f = true ∧ x.zone.isSome ∧ f.divergenceLive.isSome)) ∧
    (f.clock < closeConfirmFrom ∨ f.divergenceLive = some true ∨ (LineFixed x ∧ ¬f.price < invalidLine x f invalidBelow))

/-- What a playbook's entry rests on is there. -/
def Firm (plan : Plan) (f : Features) : Prop :=
  match plan.setup with
  | .relayRace sector sectorMinLimitUps => RaceFirm f sector sectorMinLimitUps
  | .relayBreakReseal _ _ => f.amount.isSome
  | .trendPullbackRestart pullbackAmountMax =>
      (plan.extra.pulledBack = some true ∨ (∃ amount, f.amount = some amount ∧ amount.val ≤ pullbackAmountMax) ∨
          (plan.extra.maPrefix 5).isSome) ∧
        FixedAtClose plan.extra f (some 10) (plan.extra.frozenMa 10)
  | .leaderBenchmarkPullback =>
      Fixed plan.extra plan.extra.pullbackMa plan.extra.pullbackLevel ∧ Fixed plan.extra plan.extra.trendFloorMa plan.extra.floorLevel
  | .sympathyFollow _ _ => ∃ leader, f.leader = some leader ∧ leader.pct.isSome
  | .ma5ReclaimOrDivergence invalidBelow => DivergenceFirm plan.extra f invalidBelow
  | .trendContinuation _ =>
      Fixed plan.extra plan.extra.holdMa plan.extra.holdLevel ∧ FixedAtClose plan.extra f plan.extra.floorMa plan.extra.floorLevel
  | .priorHighBreakout _ => FixedAtClose plan.extra f plan.extra.floorMa plan.extra.floorLevel
  | .platformBreakout => PlatformFirm plan.extra f
  | .ma10SecondWave touchTolPct =>
      plan.extra.priorMid.isSome ∧
        (plan.extra.touchedMa10 = some true ∨ (plan.extra.maPrefix 10).isSome ∨ 1 + touchTolPct / 100 = 0) ∧
        FixedAtClose plan.extra f (some 10) (plan.extra.frozenMa 10)
  | .ma60Reclaim amountMult _ => (plan.extra.maPrefix 60).isSome ∧ (plan.extra.amt20.isSome ∨ amountMult = 0)
  | _ => True

/-! ## Values that stay -/

section Keeping

variable {f g : Features} {x y : Extra} {limitUp : Positive → ℚ}

theorem Keeps.eq {α : Type} {now filled : Option α} (h : Keeps now filled) (hsome : now.isSome) : filled = now := by
  obtain ⟨value, hvalue⟩ := Option.isSome_iff_exists.mp hsome
  rw [h value hvalue, hvalue]

theorem Keeps.refl {α : Type} (now : Option α) : Keeps now now := fun _ hvalue => hvalue

theorem Keeps.of_none {α : Type} {now : Option α} (hnone : now = none) (filled : Option α) : Keeps now filled := by
  intro value hvalue
  rw [hnone] at hvalue
  exact absurd hvalue (by simp)

theorem Keeps.or {α : Type} (now filled : Option α) : Keeps now (now.or filled) := by
  intro value hvalue
  rw [hvalue]
  rfl

theorem Leader.Filled.refl (leader : Leader) : leader.Filled leader := ⟨Keeps.refl _, Keeps.refl _, Keeps.refl _⟩

theorem Features.Filled.refl (f : Features) : f.Filled f :=
  ⟨rfl, Keeps.refl _, Keeps.refl _, Keeps.refl _, rfl, rfl, Keeps.refl _, Keeps.refl _, Keeps.refl _, Keeps.refl _, Keeps.refl _, Keeps.refl _,
    Keeps.refl _, Keeps.refl _, Keeps.refl _, fun _ => Keeps.refl _, fun _ => Keeps.refl _,
    fun leader hleader => ⟨leader, hleader, Leader.Filled.refl leader⟩, Keeps.refl _, rfl, rfl⟩

theorem Extra.Filled.refl (x : Extra) : x.Filled x :=
  ⟨rfl, rfl, rfl, rfl, rfl, rfl, fun _ => Keeps.refl _, fun _ => Keeps.refl _, Keeps.refl _, Keeps.refl _, Keeps.refl _, Keeps.refl _,
    Keeps.refl _, Keeps.refl _, Keeps.refl _, Keeps.refl _, Keeps.refl _, Keeps.refl _, Keeps.refl _, Keeps.refl _, Keeps.refl _, Keeps.refl _⟩

theorem Features.Filled.has (h : f.Filled g) {key : Input} (hhas : f.has key = true) : g.has key = true := by
  cases key with
  | low => rfl
  | high => rfl
  | preClose => simpa [Features.has, h.preClose.eq hhas] using hhas
  | turnoverPct => simpa [Features.has, h.turnoverPct.eq hhas] using hhas
  | book => simpa [Features.has, h.bidOnly.eq hhas] using hhas
  | amount => simpa [Features.has, h.amount.eq hhas] using hhas
  | vwap => simpa [Features.has, h.vwap.eq hhas] using hhas
  | surge => simpa [Features.has, h.surge.eq hhas] using hhas
  | opened => simpa [Features.has, h.opened.eq hhas] using hhas
  | volumeRatio => simpa [Features.has, h.volumeRatio.eq hhas] using hhas
  | notFalling => simpa [Features.has, h.notFalling.eq hhas] using hhas

theorem emits_iff (plan : Plan) : Emits limitUp plan f ↔
    (∀ key ∈ requiredInputs plan.setup.playbook, f.has key = true) ∧ evaluate limitUp plan f = .entry := by
  have hmissing : (missingInputs plan.setup.playbook f).isEmpty = true ↔ ∀ key ∈ requiredInputs plan.setup.playbook, f.has key = true := by
    unfold missingInputs
    rw [List.isEmpty_iff, List.filter_eq_nil_iff]
    simp
  rw [← hmissing]
  unfold Emits reviewAction
  cases hempty : (missingInputs plan.setup.playbook f).isEmpty with
  | true => simp
  | false =>
      by_cases hentry : evaluate limitUp plan f = .entry
      · simp [hentry]
      · simp [hentry]

section

variable (h : f.Filled g)

include h

theorem Features.Filled.pct (hclose : f.preClose.isSome) : g.pct = f.pct := by
  unfold Features.pct
  rw [h.preClose.eq hclose, h.price]
  obtain ⟨close, hsome⟩ := Option.isSome_iff_exists.mp hclose
  rw [hsome]

theorem Features.Filled.aboveVwap (hvwap : f.vwap.isSome) : g.aboveVwap = f.aboveVwap := by
  unfold Features.aboveVwap
  rw [h.vwap.eq hvwap, h.price]

theorem Features.Filled.openGapPct (hopened : f.opened.isSome) (hclose : f.preClose.isSome) : g.openGapPct = f.openGapPct := by
  unfold Features.openGapPct
  rw [h.opened.eq hopened, h.preClose.eq hclose]

section

variable (hclose : f.preClose.isSome)

include hclose

theorem Features.Filled.limitUpPrice : g.limitUpPrice limitUp = f.limitUpPrice limitUp := by
  unfold Features.limitUpPrice
  rw [h.preClose.eq hclose]

theorem Features.Filled.reaches (price : ℚ) :
    g.reaches limitUp price = f.reaches limitUp price := by
  unfold Features.reaches
  rw [h.limitUpPrice hclose]

theorem Features.Filled.belowPreClose : belowPreClose g = belowPreClose f := by
  unfold Rules.belowPreClose
  rw [h.preClose.eq hclose, h.price]

theorem Features.Filled.sealed_mono (hsealed : f.sealed limitUp = true) :
    g.sealed limitUp = true := by
  unfold Features.sealed at hsealed ⊢
  rw [Bool.and_eq_true] at hsealed
  have hbid : f.bidOnly = some true := by
    rcases hbidOnly : f.bidOnly with _ | bid
    · rw [hbidOnly] at hsealed
      exact absurd hsealed.1 (by simp)
    · rw [hbidOnly] at hsealed
      simpa using hsealed.1
  rw [h.bidOnly true hbid, h.price, h.reaches hclose, hsealed.2]
  rfl

end

end

/-! ## Levels -/

theorem liveMa_fixed (hfilled : x.Filled y) {n : Option ℕ} {frozen filled : Option ℚ} (hfrozen : Keeps frozen filled)
    (hfixed : Fixed x n frozen) (price : ℚ) : liveMa y n price filled = liveMa x n price frozen := by
  rcases n with _ | _ | k
  · exact hfrozen.eq hfixed
  · exact hfrozen.eq hfixed
  · obtain ⟨sum, hsum⟩ := Option.isSome_iff_exists.mp hfixed
    unfold liveMa
    dsimp only
    rw [hfilled.maPrefix _ sum hsum, hsum]
    rfl

theorem halfEven_intCast (n : ℤ) : Rounding.halfEven (n : ℚ) = n := by
  unfold Rounding.halfEven
  rw [Int.floor_intCast]
  simp

theorem roundTo_intCast (digits : ℕ) (n : ℤ) : roundTo digits (n : ℚ) = n := by
  unfold roundTo
  have hcast : (n : ℚ) * ((Nat.pow 10 digits : ℕ) : ℚ) = ((n * (Nat.pow 10 digits : ℕ) : ℤ) : ℚ) := by push_cast; ring
  have hpos : ((Nat.pow 10 digits : ℕ) : ℚ) ≠ 0 := by
    have hne : Nat.pow 10 digits ≠ 0 := (Nat.pow_pos (by decide)).ne'
    exact_mod_cast hne
  rw [hcast, halfEven_intCast]
  push_cast
  field_simp

theorem lt_roundTo (digits : ℕ) (x : ℚ) : x - 1 < roundTo digits x := by
  unfold roundTo
  have hge : (1 : ℚ) ≤ ((Nat.pow 10 digits : ℕ) : ℚ) := by
    have hone : 1 ≤ Nat.pow 10 digits := Nat.pow_pos (by decide)
    exact_mod_cast hone
  have hfloor : (⌊x * ((Nat.pow 10 digits : ℕ) : ℚ)⌋ : ℚ) ≤ (Rounding.halfEven (x * ((Nat.pow 10 digits : ℕ) : ℚ)) : ℚ) := by
    unfold Rounding.halfEven
    dsimp only
    split
    next => exact le_refl _
    next => push_cast; linarith
  have hlt := Int.lt_floor_add_one (x * ((Nat.pow 10 digits : ℕ) : ℚ))
  rw [lt_div_iff₀ (by linarith)]
  nlinarith

/-- The averages and levels that are absent, all at one value. -/
def Extra.withLevels (x : Extra) (price : ℚ) (value : ℤ) : Extra :=
  { x with
    maPrefix := fun n => (x.maPrefix n).or (some (value * n - price))
    pullbackLevel := x.pullbackLevel.or (some value)
    floorLevel := x.floorLevel.or (some value)
    holdLevel := x.holdLevel.or (some value)
    platformLower := x.platformLower.or (some value) }

theorem withLevels_filled (x : Extra) (price : ℚ) (value : ℤ) : x.Filled (x.withLevels price value) :=
  { Extra.Filled.refl x with
    maPrefix := fun _ => Keeps.or _ _
    pullbackLevel := Keeps.or _ _
    floorLevel := Keeps.or _ _
    holdLevel := Keeps.or _ _
    platformLower := Keeps.or _ _ }

theorem liveMa_withMas (x : Extra) (price : ℚ) (value : ℤ) (k : ℕ) (frozen : Option ℚ) (hnone : x.maPrefix (k + 1) = none) :
    liveMa (x.withLevels price value) (some (k + 1)) price frozen = some (value : ℚ) := by
  have hsum : (x.withLevels price value).maPrefix (k + 1) = some (value * ((k + 1 : ℕ) : ℚ) - price) := by
    change (x.maPrefix (k + 1)).or _ = _
    rw [hnone]
    rfl
  have hne : ((k : ℚ) + 1) ≠ 0 := by
    have hpos : (0 : ℚ) ≤ k := Nat.cast_nonneg k
    linarith
  have hvalue : ((value : ℚ) * ((k + 1 : ℕ) : ℚ) - price + price) / ((k : ℚ) + 1) = value := by
    push_cast
    field_simp
    ring
  unfold liveMa
  dsimp only
  rw [hsum, Option.elim_some, hvalue, roundTo_intCast]

theorem liveMa_withLevels (x : Extra) (price : ℚ) (value : ℤ) (n : Option ℕ) (frozen : Option ℚ) (hloose : ¬Fixed x n frozen) :
    liveMa (x.withLevels price value) n price (frozen.or (some (value : ℚ))) = some (value : ℚ) := by
  rcases n with _ | _ | k
  · rw [Option.not_isSome_iff_eq_none.mp hloose]
    rfl
  · rw [Option.not_isSome_iff_eq_none.mp hloose]
    rfl
  · exact liveMa_withMas x price value k _ (Option.not_isSome_iff_eq_none.mp hloose)

theorem exists_int_gt (a : ℚ) : ∃ n : ℤ, a < n := ⟨⌊a⌋ + 1, by push_cast; exact Int.lt_floor_add_one a⟩

theorem exists_int_mul_gt {c : ℚ} (hc : c ≠ 0) (a : ℚ) : ∃ n : ℤ, a < n * c := by
  rcases lt_or_gt_of_ne hc with hneg | hpos
  · obtain ⟨n, hn⟩ := exists_int_gt (-(a / c))
    refine ⟨-n, ?_⟩
    have hlt : ((-n : ℤ) : ℚ) < a / c := by push_cast; linarith
    rwa [lt_div_iff_of_neg hneg] at hlt
  · obtain ⟨n, hn⟩ := exists_int_gt (a / c)
    exact ⟨n, (div_lt_iff₀ hpos).mp hn⟩

theorem exists_int_mul_lt {c : ℚ} (hc : c ≠ 0) (a : ℚ) : ∃ n : ℤ, n * c < a := by
  obtain ⟨n, hn⟩ := exists_int_mul_gt (neg_ne_zero.mpr hc) (-a)
  exact ⟨n, by linarith⟩

end Keeping

end TradingHarness.Rules
