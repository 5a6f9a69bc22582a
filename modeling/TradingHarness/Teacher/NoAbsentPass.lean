import TradingHarness.Teacher.AbsentInputs

set_option autoImplicit false

/-! # An absent input is never a pass

Each playbook's entry, as the conditions it comes to, and when these hold whatever the absent inputs are. -/

namespace TradingHarness.Rules

/-! ## What an entry comes to -/

section Entries

variable {limitUp : Positive → ℚ} {x : Extra} {f : Features}

theorem gates_iff (signals : List Sig) : gates signals = true ↔
    (∃ line ∈ signals, line.gating = true) ∧ ∀ line ∈ signals, line.gating = true → line.pass = some true := by
  have hnone : ∀ line : Sig, (line.gating = false ∨ line.pass = some true) ↔ (line.gating = true → line.pass = some true) := by
    intro line
    cases line.gating <;> simp
  simp [gates, hnone]

theorem Outcome.entry_iff (outcome : Outcome) : outcome.action = .entry ↔ outcome.invalid = false ∧ gates outcome.signals = true := by
  unfold Outcome.action
  cases outcome.invalid with
  | true => simp
  | false => simp

theorem gates_append_shown (signals : List Sig) (pass : Option Bool) : gates (signals ++ [shown pass]) = gates signals := by
  simp [gates, shown]

theorem atClose_entry_iff (breach : Bool) (signals : List Sig) :
    (atClose f breach signals).action = .entry ↔ (breach = true → f.clock < closeConfirmFrom) ∧ gates signals = true := by
  rw [Outcome.entry_iff]
  unfold atClose
  cases breach with
  | false => simp
  | true =>
      by_cases hclose : closeConfirmFrom ≤ f.clock
      · simp [hclose]
      · simp [hclose, gates_append_shown, lt_of_not_ge hclose]

theorem gates_shown_cons (signals : List Sig) (pass : Option Bool) : gates (shown pass :: signals) = gates signals := by
  simp [gates, shown]

theorem getD_false_eq_true (b : Option Bool) : b.getD false = true ↔ b = some true := by
  cases b <;> simp

/-- The lines of a breakout pass. -/
def Breaks (f : Features) (level : Option ℚ) : Prop :=
  (∃ value, level = some value ∧ value < f.price) ∧ volRatioMin ≤ orZero f.volumeRatio ∧ f.aboveVwap = some true ∧ f.notFalling = some true

theorem breakout_all_iff (level : Option ℚ) :
    (breakout f level).all (fun line => line.pass == some true) = true ↔ Breaks f level := by
  simp [breakout, Breaks, line, getD_false_eq_true, Option.any_eq_true]

theorem gates_breakout_iff (level : Option ℚ) : gates (breakout f level) = true ↔ Breaks f level := by
  simp [gates_iff, breakout, Breaks, line, getD_false_eq_true, Option.any_eq_true]

theorem relayOneWord_entry_iff (auctionAmountMin turnoverMaxPct priorHigh : ℚ) :
    (relayOneWord limitUp f auctionAmountMin turnoverMaxPct priorHigh).action = .entry ↔
      (∃ amount, f.auctionSeal = some amount ∧ auctionAmountMin ≤ amount ∧ f.auctionAtLimit = some true) ∧
        orZero f.turnoverPct ≤ turnoverMaxPct ∧ f.sealed limitUp = true := by
  rw [Outcome.entry_iff, gates_iff]
  unfold relayOneWord
  cases hsealed : f.sealed limitUp with
  | false => simp [line, shown]
  | true => simp [line, shown, getD_false_eq_true]

theorem relayAcceleration_entry_iff (entryLow entryHigh entryPctMin sealAmountMax failAmount : ℚ) :
    (relayAcceleration limitUp f entryLow entryHigh entryPctMin sealAmountMax failAmount).action = .entry ↔
      (failAmount < orZero f.amount → f.sealed limitUp = true) ∧ entryLow ≤ orZero f.amount ∧ orZero f.amount ≤ entryHigh * (11 / 10) ∧
        entryPctMin ≤ f.pct.getD 0 ∧ f.aboveVwap = some true := by
  rw [Outcome.entry_iff, gates_iff]
  unfold relayAcceleration
  simp [line, shown, getD_false_eq_true]
  constructor
  · tauto
  · rintro ⟨hfail, hlow, hhigh, hpct, habove⟩
    simp_all

theorem relayExpectTouch_entry_iff (entryPctMin : ℚ) :
    (relayExpectTouch limitUp f entryPctMin).action = .entry ↔
      belowPreClose f = false ∧ entryPctMin ≤ f.pct.getD 0 ∧ f.surge = some true ∧ f.aboveVwap = some true := by
  rw [Outcome.entry_iff, gates_iff]
  unfold relayExpectTouch
  simp [line, shown, getD_false_eq_true, and_assoc]

/-- The gating lines of a race pass. -/
def Races (limitUp : Positive → ℚ) (f : Features) : Prop :=
  belowPreClose f = false ∧ f.openGapPct.all (fun gap => decide (0 ≤ gap)) = true ∧ (f.surge = some true ∨ f.sealed limitUp = true) ∧
    f.aboveVwap = some true

theorem gates_raceLines_iff : gates (raceLines limitUp f) = true ↔
    f.openGapPct.all (fun gap => decide (0 ≤ gap)) = true ∧ (f.surge = some true ∨ f.sealed limitUp = true) ∧ f.aboveVwap = some true := by
  rw [gates_iff]
  simp [raceLines, line, shown, getD_false_eq_true]

theorem races_iff : Races limitUp f ↔ raceInvalid f = false ∧ gates (raceLines limitUp f) = true := by
  rw [gates_raceLines_iff]
  unfold Races raceInvalid
  constructor
  · rintro ⟨hbelow, hgap, hsurge, habove⟩
    simp [hbelow, hgap, hsurge, habove]
  · rintro ⟨hinvalid, hgap, hsurge, habove⟩
    simp at hinvalid
    exact ⟨hinvalid.2, hgap, hsurge, habove⟩

theorem relayRace_entry_iff (sector : String) (sectorMinLimitUps : Option ℚ) :
    (relayRace limitUp f sector sectorMinLimitUps).action = .entry ↔
      Races limitUp f ∧ ∀ count minimum, sectorCount f sector = some count → sectorMinLimitUps = some minimum →
        sectorFell f sector minimum count = false := by
  have hgates : gates (relayRace limitUp f sector sectorMinLimitUps).signals = gates (raceLines limitUp f) := by
    unfold relayRace
    rcases sectorMinLimitUps with _ | minimum
    · rfl
    · by_cases hsector : sector = ""
      · simp [hsector]
      · simp [hsector, gates_shown_cons]
  rw [Outcome.entry_iff, hgates, races_iff]
  unfold relayRace
  rcases sectorMinLimitUps with _ | minimum
  · simp
  · rcases sectorCount f sector with _ | count
    · simp
    · simp
      tauto

theorem relayNewsConditional_entry_iff (sector : String) (sectorMinLimitUps : ℚ) :
    (relayNewsConditional limitUp f sector sectorMinLimitUps).action = .entry ↔
      Races limitUp f ∧ ∃ count, sectorCount f sector = some count ∧ sectorMinLimitUps ≤ (count : ℚ) := by
  rw [Outcome.entry_iff, races_iff, gates_raceLines_iff, gates_iff]
  unfold relayNewsConditional raceLines
  rcases sectorCount f sector with _ | count
  · simp
  · simp [line, shown, getD_false_eq_true]
    tauto

theorem relayFastSeal_entry_iff (sealAmountMax failAmount : ℚ) :
    (relayFastSeal limitUp f sealAmountMax failAmount).action = .entry ↔
      belowPreClose f = false ∧ f.openGapPct.all (fun gap => decide (0 ≤ gap)) = true ∧ f.sealed limitUp = true ∧
        orZero f.amount ≤ sealAmountMax := by
  rw [Outcome.entry_iff, gates_iff]
  unfold relayFastSeal
  simp [line]
  tauto

/-- Below the limit by half a cent, and by as little as a plan allows. -/
def Reopened (limitUp : Positive → ℚ) (f : Features) (reentryDiscountMaxPct : ℚ) : Prop :=
  ∃ limit, f.limitUpPrice limitUp = some limit ∧ limit ≠ 0 ∧ f.price < limit - 1 / 200 ∧ f.price ≠ 0 ∧
    roundTo 2 ((1 - f.price / limit) * 100) ≤ reentryDiscountMaxPct

theorem relayBreakReseal_entry_iff (reentryDiscountMaxPct failAmount : ℚ) :
    (relayBreakReseal limitUp f reentryDiscountMaxPct failAmount).action = .entry ↔
      belowPreClose f = false ∧ orZero f.amount < failAmount ∧ f.touchedLimit limitUp = true ∧
        Reopened limitUp f reentryDiscountMaxPct ∧ f.aboveVwap = some true ∧ volRatioMin ≤ orZero f.volumeRatio := by
  have hopen : ∀ limit, f.limitUpPrice limitUp = some limit → f.price < limit - 1 / 200 → f.sealed limitUp = false := by
    intro limit hlimit hbelow
    unfold Features.sealed Features.reaches
    rw [hlimit, Option.any_some, decide_eq_false (not_le.mpr hbelow), Bool.and_false, Bool.and_false]
  rw [Outcome.entry_iff, gates_iff]
  unfold relayBreakReseal
  rcases hlimit : f.limitUpPrice limitUp with _ | limit
  · simp [line, Reopened, hlimit]
  · by_cases hbelow : f.price < limit - 1 / 200
    · by_cases hzero : limit ≠ 0 ∧ f.price ≠ 0
      · simp [line, shown, getD_false_eq_true, Reopened, hlimit, hopen limit hlimit hbelow, hzero]
        tauto
      · simp [line, shown, getD_false_eq_true, Reopened, hlimit, hzero]
        tauto
    · simp only [one_div] at hbelow
      simp [line, shown, Reopened, hlimit, hbelow]

theorem trendPullbackRestart_entry_iff (pullbackAmountMax : ℚ) :
    (trendPullbackRestart x f pullbackAmountMax).action = .entry ↔
      (f.price < (liveMa x (some 10) f.price (x.frozenMa 10)).getD 0 → f.clock < closeConfirmFrom) ∧ f.pct.getD 0 < 19 / 2 ∧
        (x.pulledBack = some true ∨ f.amount.any (fun amount => decide (amount.val ≤ pullbackAmountMax)) = true ∨
          (liveMa x (some 5) f.price (x.frozenMa 5)).any (fun ma5 => decide (ma5 ≠ 0) && decide (f.low ≤ ma5 * (102 / 100))) = true) ∧
        volRatioMin ≤ orZero f.volumeRatio ∧ 3 ≤ f.pct.getD 0 ∧ f.aboveVwap = some true := by
  unfold trendPullbackRestart
  rw [atClose_entry_iff, gates_iff]
  simp [line, getD_false_eq_true]
  tauto

theorem leaderBenchmarkPullback_entry_iff :
    (leaderBenchmarkPullback x f).action = .entry ↔
      f.low ≤ (liveMa x x.pullbackMa f.price x.pullbackLevel).getD 0 * (101 / 100) ∧
        (liveMa x x.trendFloorMa f.price x.floorLevel).getD 0 ≤ f.price := by
  unfold leaderBenchmarkPullback
  rw [atClose_entry_iff, gates_iff]
  simp [line]
  intro _ hfloor hbelow
  linarith

theorem sympathyFollow_entry_iff (leaderStrongPct leaderWeakPct : ℚ) :
    (sympathyFollow f leaderStrongPct leaderWeakPct).action = .entry ↔
      (∃ leader, f.leader = some leader ∧ leader.strong leaderStrongPct = true ∧ ∀ pct, leader.pct = some pct → leaderWeakPct < pct) ∧
        f.surge = some true ∧ f.aboveVwap = some true := by
  rw [Outcome.entry_iff, gates_iff]
  unfold sympathyFollow
  rcases f.leader with _ | leader
  · simp
  · cases hstrong : leader.strong leaderStrongPct with
    | false => simp [hstrong, line]
    | true => rcases hpct : leader.pct with _ | pct <;> simp [hstrong, hpct, line, shown, getD_false_eq_true]

theorem ma5ReclaimOrDivergence_entry_iff (invalidBelow : ℚ) :
    ma5ReclaimOrDivergence x f invalidBelow = .entry ↔
      (f.price < invalidLine x f invalidBelow → divergenceFound x f = false → f.clock < closeConfirmFrom) ∧
        (pathA x f = true ∨ pathB x f = true) := by
  unfold ma5ReclaimOrDivergence atClose
  by_cases hbreach : (decide (f.price < invalidLine x f invalidBelow) && !divergenceFound x f) = true
  · have hparts := hbreach
    rw [Bool.and_eq_true, decide_eq_true_eq, Bool.not_eq_true'] at hparts
    by_cases hclose : closeConfirmFrom ≤ f.clock
    · simp [hclose, hparts]
    · cases hpath : pathA x f with
      | false => simp [hclose, hparts, lt_of_not_ge hclose]
      | true => simp [hclose, hparts, lt_of_not_ge hclose]
  · have hparts : f.price < invalidLine x f invalidBelow → divergenceFound x f = true := by
      simpa using hbreach
    have hline : f.price < invalidLine x f invalidBelow → divergenceFound x f = false → f.clock < closeConfirmFrom := by
      intro hbelow hnone
      rw [hparts hbelow] at hnone
      exact absurd hnone (by simp)
    rw [if_neg hbreach, if_neg (by simp)]
    cases hpath : pathA x f with
    | false => simpa using fun _ => hline
    | true => simpa using hline

theorem trendContinuation_entry_iff (priorHigh : ℚ) :
    (trendContinuation x f priorHigh).action = .entry ↔
      (f.price < (liveMa x x.floorMa f.price x.floorLevel).getD 0 → f.clock < closeConfirmFrom) ∧
        (liveMa x x.holdMa f.price x.holdLevel).getD 0 ≤ f.price ∧ priorHigh < f.high := by
  unfold trendContinuation
  rw [atClose_entry_iff, gates_iff]
  simp [line]

theorem priorHighBreakout_entry_iff (priorHigh : ℚ) :
    (priorHighBreakout x f priorHigh).action = .entry ↔
      (f.price < (liveMa x x.floorMa f.price x.floorLevel).getD 0 → f.clock < closeConfirmFrom) ∧ Breaks f (some priorHigh) := by
  unfold priorHighBreakout
  rw [atClose_entry_iff, gates_breakout_iff]
  simp

theorem gates_cons_breakout_iff (first : Sig) (hgating : first.gating = true) (level : Option ℚ) :
    gates (first :: breakout f level) = true ↔ first.pass = some true ∧ Breaks f level := by
  rw [← gates_breakout_iff]
  simp [gates, hgating, breakout, line]

theorem platformBreakout_entry_iff :
    (platformBreakout x f).action = .entry ↔
      (f.price < platformFloor x f → f.clock < closeConfirmFrom) ∧ 1 ≤ x.daysSincePeak.getD 0 ∧ Breaks f x.platformUpper := by
  unfold platformBreakout
  rw [atClose_entry_iff, gates_cons_breakout_iff _ rfl]
  simp

/-- How far the middle of the day has moved from the one before. -/
def drift (x : Extra) (f : Features) : ℚ :=
  (x.priorMid.filter (fun priorMid => decide (priorMid ≠ 0))).elim 0 (fun priorMid => ((f.high + f.low) / 2 / priorMid - 1) * 100)

theorem ma10SecondWave_entry_iff (touchTolPct : ℚ) :
    (ma10SecondWave x f touchTolPct).action = .entry ↔
      (f.price < (liveMa x (some 10) f.price (x.frozenMa 10)).getD 0 * (97 / 100) → f.clock < closeConfirmFrom) ∧
        (x.touchedMa10 = some true ∨ f.low ≤ (liveMa x (some 10) f.price (x.frozenMa 10)).getD 0 * (1 + touchTolPct / 100)) ∧
        -centerFlatPct ≤ drift x f ∧ f.aboveVwap = some true := by
  unfold ma10SecondWave
  rw [atClose_entry_iff, gates_iff]
  simp [line, getD_false_eq_true, drift]

theorem doubleBottomPlatform_entry_iff (neckline platformHigh : ℚ) :
    (doubleBottomPlatform f neckline platformHigh).action = .entry ↔ neckline ≤ f.price ∧ Breaks f (some platformHigh) := by
  unfold doubleBottomPlatform
  rw [atClose_entry_iff, gates_cons_breakout_iff _ rfl]
  simp [line]
  intro hneck _ hbelow
  linarith

theorem ma60Reclaim_entry_iff (amountMult : ℚ) (volumeProfile : Option (List (ℕ × ℚ))) :
    (ma60Reclaim x f amountMult volumeProfile).action = .entry ↔
      (f.price < (liveMa x (some 60) f.price (x.frozenMa 60)).getD 0 * (97 / 100) → x.prevCloseBelowMa60.getD true = true →
          f.clock < closeConfirmFrom) ∧
        (liveMa x (some 60) f.price (x.frozenMa 60)).getD 0 < f.price ∧
        amountMult * x.amt20.getD 0 ≤ orZero f.amount / sessionShare f volumeProfile := by
  unfold ma60Reclaim
  rw [atClose_entry_iff, gates_iff]
  simp [line]

end Entries

/-! ## Entries that stand -/

section Standing

variable {limitUp : Positive → ℚ} {x y : Extra} {f g : Features}

section

variable (h : f.Filled g)

include h

theorem Breaks.keep {level filled : Option ℚ} (hlevel : Keeps level filled) (hvwap : f.vwap.isSome)
    (hratio : f.volumeRatio.isSome) (hbreaks : Breaks f level) : Breaks g filled := by
  obtain ⟨⟨value, hvalue, hlt⟩, hvolume, habove, hfalling⟩ := hbreaks
  refine ⟨⟨value, hlevel value hvalue, ?_⟩, ?_, ?_, h.notFalling true hfalling⟩
  · rwa [h.price]
  · rwa [h.volumeRatio.eq hratio]
  · rwa [h.aboveVwap hvwap]

section

variable (hclose : f.preClose.isSome)

include hclose

theorem Races.keep (hopened : f.opened.isSome) (hvwap : f.vwap.isSome)
    (hraces : Races limitUp f) : Races limitUp g := by
  obtain ⟨hbelow, hgap, hsurge, habove⟩ := hraces
  refine ⟨?_, ?_, hsurge.imp (h.surge true) (h.sealed_mono hclose), ?_⟩
  · rwa [h.belowPreClose hclose]
  · rwa [h.openGapPct hopened hclose]
  · rwa [h.aboveVwap hvwap]

theorem relayOneWord_stands (hturnover : f.turnoverPct.isSome)
    (auctionAmountMin turnoverMaxPct priorHigh : ℚ)
    (hentry : (relayOneWord limitUp f auctionAmountMin turnoverMaxPct priorHigh).action = .entry) :
    (relayOneWord limitUp g auctionAmountMin turnoverMaxPct priorHigh).action = .entry := by
  rw [relayOneWord_entry_iff] at hentry ⊢
  obtain ⟨⟨amount, hamount, hmin, hlimit⟩, hturn, hsealed⟩ := hentry
  refine ⟨⟨amount, h.auctionSeal amount hamount, hmin, h.auctionAtLimit true hlimit⟩, ?_, h.sealed_mono hclose hsealed⟩
  rwa [h.turnoverPct.eq hturnover]

theorem relayAcceleration_stands (hamount : f.amount.isSome) (hvwap : f.vwap.isSome)
    (entryLow entryHigh entryPctMin sealAmountMax failAmount : ℚ)
    (hentry : (relayAcceleration limitUp f entryLow entryHigh entryPctMin sealAmountMax failAmount).action = .entry) :
    (relayAcceleration limitUp g entryLow entryHigh entryPctMin sealAmountMax failAmount).action = .entry := by
  rw [relayAcceleration_entry_iff] at hentry ⊢
  rw [h.amount.eq hamount, h.pct hclose, h.aboveVwap hvwap]
  exact ⟨fun hfail => h.sealed_mono hclose (hentry.1 hfail), hentry.2⟩

theorem relayExpectTouch_stands (hvwap : f.vwap.isSome) (entryPctMin : ℚ)
    (hentry : (relayExpectTouch limitUp f entryPctMin).action = .entry) : (relayExpectTouch limitUp g entryPctMin).action = .entry := by
  rw [relayExpectTouch_entry_iff] at hentry ⊢
  rw [h.belowPreClose hclose, h.pct hclose, h.aboveVwap hvwap]
  obtain ⟨hbelow, hpct, hsurge, habove⟩ := hentry
  exact ⟨hbelow, hpct, h.surge true hsurge, habove⟩

theorem relayNewsConditional_stands (hopened : f.opened.isSome) (hvwap : f.vwap.isSome)
    (sector : String) (sectorMinLimitUps : ℚ) (hentry : (relayNewsConditional limitUp f sector sectorMinLimitUps).action = .entry) :
    (relayNewsConditional limitUp g sector sectorMinLimitUps).action = .entry := by
  rw [relayNewsConditional_entry_iff] at hentry ⊢
  obtain ⟨hraces, count, hcount, hmin⟩ := hentry
  refine ⟨hraces.keep h hclose hopened hvwap, count, ?_, hmin⟩
  unfold sectorCount at hcount ⊢
  by_cases hsector : sector = ""
  · rw [if_pos hsector] at hcount
    exact absurd hcount (by simp)
  · rw [if_neg hsector] at hcount ⊢
    exact h.sectorCounts sector count hcount

theorem relayFastSeal_stands (hopened : f.opened.isSome) (hamount : f.amount.isSome)
    (sealAmountMax failAmount : ℚ) (hentry : (relayFastSeal limitUp f sealAmountMax failAmount).action = .entry) :
    (relayFastSeal limitUp g sealAmountMax failAmount).action = .entry := by
  rw [relayFastSeal_entry_iff] at hentry ⊢
  rw [h.belowPreClose hclose, h.openGapPct hopened hclose, h.amount.eq hamount]
  obtain ⟨hbelow, hgap, hsealed, hmax⟩ := hentry
  exact ⟨hbelow, hgap, h.sealed_mono hclose hsealed, hmax⟩

end

theorem doubleBottomPlatform_stands (hvwap : f.vwap.isSome) (hratio : f.volumeRatio.isSome) (neckline platformHigh : ℚ)
    (hentry : (doubleBottomPlatform f neckline platformHigh).action = .entry) :
    (doubleBottomPlatform g neckline platformHigh).action = .entry := by
  rw [doubleBottomPlatform_entry_iff] at hentry ⊢
  rw [h.price]
  exact ⟨hentry.1, hentry.2.keep h (Keeps.refl _) hvwap hratio⟩

/-! ## Entries that stand when what they rest on is there -/

theorem relayRace_stands (hclose : f.preClose.isSome) (hopened : f.opened.isSome) (hvwap : f.vwap.isSome)
    (sector : String) (sectorMinLimitUps : Option ℚ) (hfirm : RaceFirm f sector sectorMinLimitUps)
    (hentry : (relayRace limitUp f sector sectorMinLimitUps).action = .entry) :
    (relayRace limitUp g sector sectorMinLimitUps).action = .entry := by
  rw [relayRace_entry_iff] at hentry ⊢
  refine ⟨hentry.1.keep h hclose hopened hvwap, ?_⟩
  intro count minimum hcount hminimum
  unfold sectorCount at hcount
  by_cases hsector : sector = ""
  · rw [if_pos hsector] at hcount
    exact absurd hcount (by simp)
  · rw [if_neg hsector] at hcount
    obtain ⟨peak, hpeak, hknown⟩ := hfirm minimum hminimum hsector
    have hsame : (g.sectorPeaks sector).getD 0 = peak := by rw [h.sectorPeaks sector peak hpeak, Option.getD_some]
    rcases hknown with hsome | hlow
    · have hold := hentry.2 count minimum (by rw [sectorCount, if_neg hsector, ← hcount, (h.sectorCounts sector).eq hsome]) hminimum
      unfold sectorFell at hold ⊢
      rwa [hsame, ← show (f.sectorPeaks sector).getD 0 = peak by rw [hpeak, Option.getD_some]]
    · unfold sectorFell
      rw [hsame]
      by_cases hmin : minimum ≤ peak
      · have hzero : peak = 0 := by
          by_contra hne
          exact hlow ⟨hmin, Nat.pos_of_ne_zero hne⟩
        simp [hzero]
      · simp [hmin]

theorem relayBreakReseal_stands (hclose : f.preClose.isSome) (hvwap : f.vwap.isSome) (hratio : f.volumeRatio.isSome)
    (hamount : f.amount.isSome) (reentryDiscountMaxPct failAmount : ℚ)
    (hentry : (relayBreakReseal limitUp f reentryDiscountMaxPct failAmount).action = .entry) :
    (relayBreakReseal limitUp g reentryDiscountMaxPct failAmount).action = .entry := by
  have htouched : g.touchedLimit limitUp = f.touchedLimit limitUp := by
    unfold Features.touchedLimit
    rw [h.high, h.reaches hclose]
  have hopen : Reopened limitUp g reentryDiscountMaxPct ↔ Reopened limitUp f reentryDiscountMaxPct := by
    unfold Reopened
    rw [h.limitUpPrice hclose, h.price]
  rw [relayBreakReseal_entry_iff] at hentry ⊢
  rwa [h.belowPreClose hclose, h.amount.eq hamount, htouched, hopen, h.aboveVwap hvwap, h.volumeRatio.eq hratio]

theorem breach_stands (hx : x.Filled y) {n : Option ℕ} {frozen filled : Option ℚ} (hfrozen : Keeps frozen filled)
    (hfixed : FixedAtClose x f n frozen) (scale : ℚ → ℚ)
    (hentry : f.price < scale ((liveMa x n f.price frozen).getD 0) → f.clock < closeConfirmFrom) :
    g.price < scale ((liveMa y n g.price filled).getD 0) → g.clock < closeConfirmFrom := by
  intro hbreach
  rw [h.clock]
  rcases hfixed with hearly | hknown
  · exact hearly
  · rw [h.price, liveMa_fixed hx hfrozen hknown] at hbreach
    exact hentry hbreach

theorem trendPullbackRestart_stands (hx : x.Filled y) (hclose : f.preClose.isSome) (hvwap : f.vwap.isSome)
    (hratio : f.volumeRatio.isSome) (pullbackAmountMax : ℚ)
    (hpulled : x.pulledBack = some true ∨ (∃ amount, f.amount = some amount ∧ amount.val ≤ pullbackAmountMax) ∨ (x.maPrefix 5).isSome)
    (hfixed : FixedAtClose x f (some 10) (x.frozenMa 10)) (hentry : (trendPullbackRestart x f pullbackAmountMax).action = .entry) :
    (trendPullbackRestart y g pullbackAmountMax).action = .entry := by
  rw [trendPullbackRestart_entry_iff] at hentry ⊢
  obtain ⟨hbreach, hbelow, hsetup, hrestart⟩ := hentry
  rw [h.pct hclose, h.aboveVwap hvwap, h.volumeRatio.eq hratio]
  refine ⟨breach_stands h hx (hx.frozenMa 10) hfixed id hbreach, hbelow, ?_, hrestart⟩
  rcases hpulled with hpulled | ⟨amount, hamount, hmax⟩ | hsums
  · exact .inl (hx.pulledBack true hpulled)
  · refine .inr (.inl ?_)
    rw [h.amount amount hamount]
    simpa using hmax
  · rcases hsetup with hpulled | hquiet | htouched
    · exact .inl (hx.pulledBack true hpulled)
    · refine .inr (.inl ?_)
      rcases hamount : f.amount with _ | amount
      · rw [hamount] at hquiet
        exact absurd hquiet (by simp)
      · rwa [h.amount amount hamount, ← hamount]
    · refine .inr (.inr ?_)
      rwa [h.price, h.low, liveMa_fixed hx (hx.frozenMa 5) (n := some 5) hsums]

theorem leaderBenchmarkPullback_stands (hx : x.Filled y) (hpullback : Fixed x x.pullbackMa x.pullbackLevel)
    (hfloor : Fixed x x.trendFloorMa x.floorLevel) (hentry : (leaderBenchmarkPullback x f).action = .entry) :
    (leaderBenchmarkPullback y g).action = .entry := by
  rw [leaderBenchmarkPullback_entry_iff] at hentry ⊢
  rwa [hx.pullbackMa, hx.trendFloorMa, h.low, h.price, liveMa_fixed hx hx.pullbackLevel hpullback, liveMa_fixed hx hx.floorLevel hfloor]

end

theorem Leader.Filled.strong {leader filled : Leader} (h : leader.Filled filled) (hpct : leader.pct.isSome) (leaderStrongPct : ℚ)
    (hstrong : leader.strong leaderStrongPct = true) : filled.strong leaderStrongPct = true := by
  unfold Leader.strong at hstrong ⊢
  rw [Bool.or_eq_true, Bool.and_eq_true, getD_false_eq_true, getD_false_eq_true] at hstrong ⊢
  rw [h.pct.eq hpct]
  exact hstrong.imp (h.sealed true) (And.imp_right (h.aboveVwap true))

section

variable (h : f.Filled g)

include h

theorem sympathyFollow_stands (hvwap : f.vwap.isSome) (leaderStrongPct leaderWeakPct : ℚ)
    (hleader : ∃ leader, f.leader = some leader ∧ leader.pct.isSome)
    (hentry : (sympathyFollow f leaderStrongPct leaderWeakPct).action = .entry) :
    (sympathyFollow g leaderStrongPct leaderWeakPct).action = .entry := by
  rw [sympathyFollow_entry_iff] at hentry ⊢
  obtain ⟨⟨leader, hsome, hstrong, hweak⟩, hsurge, habove⟩ := hentry
  obtain ⟨known, hknown, hpct⟩ := hleader
  obtain rfl : leader = known := Option.some.inj (hsome.symm.trans hknown)
  obtain ⟨filled, hfilled, hkeeps⟩ := h.leader leader hsome
  refine ⟨⟨filled, hfilled, hkeeps.strong hpct leaderStrongPct hstrong, ?_⟩, h.surge true hsurge, ?_⟩
  · rwa [hkeeps.pct.eq hpct]
  · rwa [h.aboveVwap hvwap]

section

variable (hx : x.Filled y)

include hx

theorem trendContinuation_stands (hhold : Fixed x x.holdMa x.holdLevel)
    (hfloor : FixedAtClose x f x.floorMa x.floorLevel) (priorHigh : ℚ) (hentry : (trendContinuation x f priorHigh).action = .entry) :
    (trendContinuation y g priorHigh).action = .entry := by
  rw [trendContinuation_entry_iff] at hentry ⊢
  obtain ⟨hbreach, hholds, hhigh⟩ := hentry
  rw [hx.floorMa, hx.holdMa]
  refine ⟨breach_stands h hx hx.floorLevel hfloor id hbreach, ?_, ?_⟩
  · rwa [h.price, liveMa_fixed hx hx.holdLevel hhold]
  · rwa [h.high]

theorem priorHighBreakout_stands (hvwap : f.vwap.isSome) (hratio : f.volumeRatio.isSome)
    (hfloor : FixedAtClose x f x.floorMa x.floorLevel) (priorHigh : ℚ) (hentry : (priorHighBreakout x f priorHigh).action = .entry) :
    (priorHighBreakout y g priorHigh).action = .entry := by
  rw [priorHighBreakout_entry_iff] at hentry ⊢
  rw [hx.floorMa]
  exact ⟨breach_stands h hx hx.floorLevel hfloor id hentry.1, hentry.2.keep h (Keeps.refl _) hvwap hratio⟩

theorem drift_stands (hmid : x.priorMid.isSome) : drift y g = drift x f := by
  unfold drift
  rw [hx.priorMid.eq hmid, h.high, h.low]

theorem ma10SecondWave_stands (hvwap : f.vwap.isSome) (touchTolPct : ℚ) (hmid : x.priorMid.isSome)
    (htouched : x.touchedMa10 = some true ∨ (x.maPrefix 10).isSome ∨ 1 + touchTolPct / 100 = 0)
    (hfixed : FixedAtClose x f (some 10) (x.frozenMa 10)) (hentry : (ma10SecondWave x f touchTolPct).action = .entry) :
    (ma10SecondWave y g touchTolPct).action = .entry := by
  rw [ma10SecondWave_entry_iff] at hentry ⊢
  obtain ⟨hbreach, htouch, hdrift, habove⟩ := hentry
  rw [drift_stands h hx hmid, h.aboveVwap hvwap]
  refine ⟨breach_stands h hx (hx.frozenMa 10) hfixed (fun ma10 => ma10 * (97 / 100)) hbreach, ?_, hdrift, habove⟩
  rcases htouch with htouch | hlow
  · exact .inl (hx.touchedMa10 true htouch)
  · rcases htouched with htouched | hsums | hzero
    · exact .inl (hx.touchedMa10 true htouched)
    · rw [h.low, h.price, liveMa_fixed hx (hx.frozenMa 10) (n := some 10) hsums]
      exact .inr hlow
    · rw [hzero, mul_zero] at hlow ⊢
      rw [h.low]
      exact .inr hlow

theorem ma60Reclaim_stands (hamount : f.amount.isSome) (amountMult : ℚ)
    (volumeProfile : Option (List (ℕ × ℚ))) (hsums : (x.maPrefix 60).isSome) (hturnover : x.amt20.isSome ∨ amountMult = 0)
    (hentry : (ma60Reclaim x f amountMult volumeProfile).action = .entry) :
    (ma60Reclaim y g amountMult volumeProfile).action = .entry := by
  have hshare : sessionShare g volumeProfile = sessionShare f volumeProfile := by
    unfold sessionShare
    rw [h.clock, h.sessionElapsedMin]
  have hprev : y.prevCloseBelowMa60.getD true = true → x.prevCloseBelowMa60.getD true = true := by
    rcases hsome : x.prevCloseBelowMa60 with _ | below
    · simp
    · rw [hx.prevCloseBelowMa60 below hsome]
      exact id
  have htimes : amountMult * y.amt20.getD 0 = amountMult * x.amt20.getD 0 := by
    rcases hturnover with hsome | hzero
    · rw [hx.amt20.eq hsome]
    · rw [hzero, zero_mul, zero_mul]
  rw [ma60Reclaim_entry_iff] at hentry ⊢
  obtain ⟨hbreach, habove, hamounts⟩ := hentry
  rw [liveMa_fixed hx (hx.frozenMa 60) (n := some 60) hsums, h.price, htimes, h.amount.eq hamount, hshare, h.clock]
  exact ⟨fun hbelow hclosed => hbreach hbelow (hprev hclosed), habove, hamounts⟩

end

end

/-! ### A platform's floor -/

theorem orElse_of_ne {first : ℚ} (hne : first ≠ 0) (second : Option ℚ) : orElse (some first) second = some first := by
  unfold orElse
  simp [hne]

theorem platformFloor_le (x : Extra) (f : Features) {lower : ℚ} (hlower : x.platformLower = some lower) :
    platformFloor x f ≤ lower := by
  unfold platformFloor
  rw [hlower]
  exact min_le_left _ _

theorem platformFloorMa_pos (x : Extra) : ∃ k, platformFloorMa x = k + 1 := by
  refine Nat.exists_eq_succ_of_ne_zero ?_
  unfold platformFloorMa
  by_cases hzero : x.floorMa.getD 0 = 0
  · simp [hzero]
  · rwa [if_neg hzero]

theorem liveMa_of_isSome {n : ℕ} (hpos : ∃ k, n = k + 1) (hsums : (x.maPrefix n).isSome) (price : ℚ) (frozen other : Option ℚ) :
    liveMa x (some n) price frozen = liveMa x (some n) price other := by
  obtain ⟨k, rfl⟩ := hpos
  obtain ⟨sum, hsum⟩ := Option.isSome_iff_exists.mp hsums
  unfold liveMa
  dsimp only
  rw [hsum]
  rfl

theorem fixed_of_isSome {n : ℕ} (hpos : ∃ k, n = k + 1) (hsums : (x.maPrefix n).isSome) (frozen : Option ℚ) : Fixed x (some n) frozen := by
  obtain ⟨k, rfl⟩ := hpos
  exact hsums

theorem platformFloor_le_ma (x : Extra) (f : Features) {ma : ℚ} (hsums : (x.maPrefix (platformFloorMa x)).isSome)
    (hma : liveMa x (some (platformFloorMa x)) f.price none = some ma) (hne : ma ≠ 0) : platformFloor x f ≤ ma := by
  unfold platformFloor
  rw [liveMa_of_isSome (platformFloorMa_pos x) hsums f.price _ none, hma]
  dsimp only
  rw [orElse_of_ne hne]
  exact min_le_right _ _

section

variable (h : f.Filled g)

include h

theorem platformBreakout_stands (hx : x.Filled y) (hvwap : f.vwap.isSome) (hratio : f.volumeRatio.isSome)
    (hfirm : PlatformFirm x f) (hentry : (platformBreakout x f).action = .entry) : (platformBreakout y g).action = .entry := by
  have hfloorMa : platformFloorMa y = platformFloorMa x := by
    unfold platformFloorMa
    rw [hx.floorMa]
  rw [platformBreakout_entry_iff] at hentry ⊢
  obtain ⟨-, hdays, hbreaks⟩ := hentry
  refine ⟨?_, ?_, hbreaks.keep h hx.platformUpper hvwap hratio⟩
  · intro hbreach
    rw [h.clock]
    rcases hfirm with hearly | ⟨lower, hlower, hle⟩ | ⟨hsums, ma, hma, hne, hle⟩
    · exact hearly
    · have hfloor := platformFloor_le y g (hx.platformLower lower hlower)
      rw [h.price] at hbreach
      linarith
    · have hkept : liveMa y (some (platformFloorMa y)) g.price none = some ma := by
        rw [hfloorMa, h.price, liveMa_fixed hx (Keeps.refl none) (fixed_of_isSome (platformFloorMa_pos x) hsums none), hma]
      have hthere : (y.maPrefix (platformFloorMa y)).isSome := by rwa [hfloorMa, (hx.maPrefix _).eq hsums]
      have hfloor := platformFloor_le_ma y g hthere hkept hne
      rw [h.price] at hbreach
      linarith
  · rcases hpeak : x.daysSincePeak with _ | days
    · rw [hpeak] at hdays
      exact absurd hdays (by simp)
    · rwa [hx.daysSincePeak days hpeak, ← hpeak]

/-! ### The two paths of a reclaim -/

theorem shortLevel_stands (hx : x.Filled y) (hfive : (x.maPrefix 5).isSome) (hten : (x.maPrefix 10).isSome) :
    Keeps (shortLevel x f) (shortLevel y g) := by
  unfold shortLevel
  rw [h.price, liveMa_fixed hx (Keeps.refl none) (n := some 5) hfive, liveMa_fixed hx (Keeps.refl none) (n := some 10) hten]
  dsimp only
  split
  next => exact hx.aLevel
  next => exact Keeps.refl _

theorem pathA_stands (hx : x.Filled y) (hvwap : f.vwap.isSome) (hratio : f.volumeRatio.isSome)
    (hfive : (x.maPrefix 5).isSome) (hten : (x.maPrefix 10).isSome) (hpath : pathA x f = true) : pathA y g = true := by
  unfold pathA at hpath ⊢
  rw [breakout_all_iff] at hpath ⊢
  exact hpath.keep h (shortLevel_stands h hx hfive hten) hvwap hratio

theorem divergenceFound_stands (x y : Extra) (hlive : f.divergenceLive.isSome) : divergenceFound y g = divergenceFound x f := by
  obtain ⟨found, hfound⟩ := Option.isSome_iff_exists.mp hlive
  unfold divergenceFound
  rw [h.divergenceLive found hfound, hfound]
  rfl

theorem pathB_stands (hx : x.Filled y) (hvwap : f.vwap.isSome) (hzone : x.zone.isSome) (hlive : f.divergenceLive.isSome) :
    pathB y g = pathB x f := by
  unfold pathB inZone
  rw [hx.zone.eq hzone, h.low, divergenceFound_stands h x y hlive, h.aboveVwap hvwap]

theorem invalidLine_stands (hx : x.Filled y) (hline : LineFixed x) (invalidBelow : ℚ) :
    invalidLine y g invalidBelow = invalidLine x f invalidBelow := by
  unfold LineFixed at hline
  unfold invalidLine
  rw [hx.invalidMa, hx.invalidBufferPct, h.price]
  generalize x.invalidMa = n at hline ⊢
  rcases n with _ | _ | k
  · rfl
  · rfl
  · dsimp only at hline ⊢
    rcases hline with hsums | hbuffer
    · rw [liveMa_fixed hx (Keeps.refl none) (n := some (k + 1)) hsums]
    · rw [hbuffer]
      norm_num

theorem ma5ReclaimOrDivergence_stands (hx : x.Filled y) (hvwap : f.vwap.isSome) (hratio : f.volumeRatio.isSome)
    (invalidBelow : ℚ) (hfirm : DivergenceFirm x f invalidBelow) : ma5ReclaimOrDivergence y g invalidBelow = .entry := by
  rw [ma5ReclaimOrDivergence_entry_iff]
  obtain ⟨hpaths, hline⟩ := hfirm
  constructor
  · intro hbelow hnone
    rw [h.clock]
    rcases hline with hearly | hfound | ⟨hfixed, habove⟩
    · exact hearly
    · rw [divergenceFound, h.divergenceLive true hfound] at hnone
      exact absurd hnone (by simp)
    · rw [h.price, invalidLine_stands h hx hfixed] at hbelow
      exact absurd hbelow habove
  · rcases hpaths with ⟨hpath, hfive, hten⟩ | ⟨hpath, hzone, hlive⟩
    · exact .inl (pathA_stands h hx hvwap hratio hfive hten hpath)
    · rw [pathB_stands h hx hvwap hzone hlive]
      exact .inr hpath

end

end Standing

/-! ## Entries that fall -/

section Falling

variable {limitUp : Positive → ℚ} {x : Extra} {f : Features}

/-- Some filling of the absent inputs takes the entry away. -/
def Falls (limitUp : Positive → ℚ) (setup : Setup) (x : Extra) (f : Features) : Prop :=
  ∃ y g, x.Filled y ∧ f.Filled g ∧ evaluate limitUp ⟨setup, y⟩ g ≠ .entry

theorem relayRace_falls (sector : String) (sectorMinLimitUps : Option ℚ) (hloose : ¬RaceFirm f sector sectorMinLimitUps) :
    Falls limitUp (.relayRace sector sectorMinLimitUps) x f := by
  unfold RaceFirm at hloose
  push Not at hloose
  obtain ⟨minimum, hminimum, hsector, hloose⟩ := hloose
  have hbound : minimum ≤ (⌈minimum⌉.toNat : ℚ) := by
    refine (Int.le_ceil minimum).trans ?_
    exact_mod_cast Int.self_le_toNat ⌈minimum⌉
  let count := (f.sectorCounts sector).getD 0
  let high := ⌈minimum⌉.toNat + 2 * count + 1
  let g : Features := { f with
    sectorCounts := fun other => (f.sectorCounts other).or (some 0)
    sectorPeaks := fun other => (f.sectorPeaks other).or (some high) }
  have hfilled : f.Filled g := { Features.Filled.refl f with sectorCounts := fun _ => Keeps.or _ _, sectorPeaks := fun _ => Keeps.or _ _ }
  have hcount : sectorCount g sector = some count := by
    unfold sectorCount
    rw [if_neg hsector]
    change (f.sectorCounts sector).or (some 0) = some ((f.sectorCounts sector).getD 0)
    cases f.sectorCounts sector <;> rfl
  have hpeak : ∃ peak : ℕ, g.sectorPeaks sector = some peak ∧ minimum ≤ peak ∧ (count : ℚ) < peak / 2 := by
    rcases hnow : f.sectorPeaks sector with _ | peak
    · have hcast : (high : ℚ) = ⌈minimum⌉.toNat + 2 * count + 1 := by push_cast [high]; rfl
      have hboundPos : (0 : ℚ) ≤ (⌈minimum⌉.toNat : ℚ) := Nat.cast_nonneg _
      have hcountPos : (0 : ℚ) ≤ count := Nat.cast_nonneg _
      refine ⟨high, by simp [g, hnow], ?_, ?_⟩
      · linarith
      · linarith
    · obtain ⟨hnone, hmin, hpositive⟩ := hloose peak hnow
      have hzero : count = 0 := by
        have hcounts : f.sectorCounts sector = none := by simpa using hnone
        simp [count, hcounts]
      have hcast : (0 : ℚ) < peak := Nat.cast_pos.mpr hpositive
      refine ⟨peak, by simp [g, hnow], hmin, ?_⟩
      rw [hzero, Nat.cast_zero]
      linarith
  have hfell : sectorFell g sector minimum count = true := by
    obtain ⟨peak, hsome, hmin, hless⟩ := hpeak
    unfold sectorFell
    simp [hsome, hmin, hless]
  refine ⟨x, g, Extra.Filled.refl x, hfilled, ?_⟩
  intro hentry
  have hstill := ((relayRace_entry_iff sector sectorMinLimitUps).mp hentry).2 count minimum hcount hminimum
  rw [hfell] at hstill
  exact absurd hstill (by simp)

theorem relayBreakReseal_falls (reentryDiscountMaxPct failAmount : ℚ) (hnone : f.amount = none) :
    Falls limitUp (.relayBreakReseal reentryDiscountMaxPct failAmount) x f := by
  let g : Features := { f with amount := some ⟨max failAmount 1, lt_max_of_lt_right one_pos⟩ }
  have hfilled : f.Filled g := { Features.Filled.refl f with amount := Keeps.of_none hnone _ }
  refine ⟨x, g, Extra.Filled.refl x, hfilled, ?_⟩
  intro hentry
  have hless := ((relayBreakReseal_entry_iff reentryDiscountMaxPct failAmount).mp hentry).2.1
  exact absurd hless (not_lt.mpr (le_max_left _ _))

theorem level_withLevels {n : Option ℕ} {frozen : Option ℚ} (hloose : ¬Fixed x n frozen) (price : ℚ) (value : ℤ) :
    (liveMa (x.withLevels price value) n price (frozen.or (some (value : ℚ)))).getD 0 = value := by
  rw [liveMa_withLevels x price value n frozen hloose, Option.getD_some]

theorem average_withLevels {k : ℕ} (hnone : x.maPrefix (k + 1) = none) (price : ℚ) (value : ℤ) (frozen : Option ℚ) :
    (liveMa (x.withLevels price value) (some (k + 1)) price frozen).getD 0 = value := by
  rw [liveMa_withMas x price value k frozen hnone, Option.getD_some]

theorem FixedAtClose.loose {n : Option ℕ} {frozen : Option ℚ} (hloose : ¬FixedAtClose x f n frozen) :
    ¬f.clock < closeConfirmFrom ∧ ¬Fixed x n frozen := not_or.mp hloose

theorem trendPullbackRestart_falls_at_close (pullbackAmountMax : ℚ) (hloose : ¬FixedAtClose x f (some 10) (x.frozenMa 10)) :
    Falls limitUp (.trendPullbackRestart pullbackAmountMax) x f := by
  obtain ⟨hclose, hten⟩ := FixedAtClose.loose hloose
  obtain ⟨value, hvalue⟩ := exists_int_gt f.price
  have hma := average_withLevels (k := 9) (Option.not_isSome_iff_eq_none.mp hten) f.price value (x.frozenMa 10)
  refine ⟨x.withLevels f.price value, f, withLevels_filled _ _ _, Features.Filled.refl f, ?_⟩
  intro hentry
  exact hclose (((trendPullbackRestart_entry_iff pullbackAmountMax).mp hentry).1 (hvalue.trans_eq hma.symm))

theorem trendPullbackRestart_falls (pullbackAmountMax : ℚ) (hpulled : x.pulledBack ≠ some true)
    (hamount : ∀ amount, f.amount = some amount → ¬amount.val ≤ pullbackAmountMax) (hfive : x.maPrefix 5 = none) :
    Falls limitUp (.trendPullbackRestart pullbackAmountMax) x f := by
  obtain ⟨value, hvalue⟩ := exists_int_mul_lt (show (102 / 100 : ℚ) ≠ 0 by norm_num) f.low
  let y : Extra := { x.withLevels f.price value with pulledBack := x.pulledBack.or (some false) }
  let g : Features := { f with amount := f.amount.or (some ⟨max (pullbackAmountMax + 1) 1, lt_max_of_lt_right one_pos⟩) }
  have hy : x.Filled y := { withLevels_filled x f.price value with pulledBack := Keeps.or _ _ }
  have hg : f.Filled g := { Features.Filled.refl f with amount := Keeps.or _ _ }
  refine ⟨y, g, hy, hg, ?_⟩
  intro hentry
  rcases ((trendPullbackRestart_entry_iff pullbackAmountMax).mp hentry).2.2.1 with hback | hquiet | htouched
  · change x.pulledBack.or (some false) = some true at hback
    rcases hnow : x.pulledBack with _ | back
    · rw [hnow] at hback
      exact absurd hback (by simp)
    · rw [hnow] at hback
      exact hpulled (hnow.trans hback)
  · change (f.amount.or (some ⟨max (pullbackAmountMax + 1) 1, _⟩)).any _ = true at hquiet
    rcases hnow : f.amount with _ | amount
    · rw [hnow] at hquiet
      simp at hquiet
      linarith [hquiet.1]
    · rw [hnow] at hquiet
      exact hamount amount hnow (by simpa using hquiet)
  · have hma : liveMa y (some 5) g.price (y.frozenMa 5) = some (value : ℚ) := liveMa_withMas x f.price value 4 (x.frozenMa 5) hfive
    rw [hma] at htouched
    change (decide ((value : ℚ) ≠ 0) && decide (f.low ≤ value * (102 / 100))) = true at htouched
    rw [Bool.and_eq_true, decide_eq_true_eq, decide_eq_true_eq] at htouched
    linarith [htouched.2]

theorem leaderBenchmarkPullback_falls (hloose : ¬Fixed x x.pullbackMa x.pullbackLevel ∨ ¬Fixed x x.trendFloorMa x.floorLevel) :
    Falls limitUp .leaderBenchmarkPullback x f := by
  rcases hloose with hpullback | hfloor
  · obtain ⟨value, hvalue⟩ := exists_int_mul_lt (show (101 / 100 : ℚ) ≠ 0 by norm_num) f.low
    have hlevel := level_withLevels hpullback f.price value
    refine ⟨x.withLevels f.price value, f, withLevels_filled _ _ _, Features.Filled.refl f, ?_⟩
    intro hentry
    have hlow := (leaderBenchmarkPullback_entry_iff.mp hentry).1.trans_eq (congrArg (fun level => level * (101 / 100)) hlevel)
    exact absurd hvalue (not_lt.mpr hlow)
  · obtain ⟨value, hvalue⟩ := exists_int_gt f.price
    have hlevel := level_withLevels hfloor f.price value
    refine ⟨x.withLevels f.price value, f, withLevels_filled _ _ _, Features.Filled.refl f, ?_⟩
    intro hentry
    exact absurd hvalue (not_lt.mpr (hlevel.symm.trans_le (leaderBenchmarkPullback_entry_iff.mp hentry).2))

theorem sympathyFollow_falls (leaderStrongPct leaderWeakPct : ℚ) (hloose : ¬∃ leader, f.leader = some leader ∧ leader.pct.isSome) :
    Falls limitUp (.sympathyFollow leaderStrongPct leaderWeakPct) x f := by
  let weak (leader : Leader) : Leader := { leader with pct := some leaderWeakPct }
  let g : Features := { f with leader := f.leader.map weak }
  have hweak : ∀ leader, f.leader = some leader → leader.Filled (weak leader) := by
    intro leader hleader
    refine { Leader.Filled.refl leader with pct := Keeps.of_none ?_ _ }
    by_contra hsome
    exact hloose ⟨leader, hleader, Option.isSome_iff_ne_none.mpr hsome⟩
  have hfilled : f.Filled g := { Features.Filled.refl f with
    leader := fun leader hleader => ⟨weak leader, by simp [g, hleader], hweak leader hleader⟩ }
  refine ⟨x, g, Extra.Filled.refl x, hfilled, ?_⟩
  intro hentry
  obtain ⟨⟨leader, hleader, -, hstrong⟩, -⟩ := (sympathyFollow_entry_iff leaderStrongPct leaderWeakPct).mp hentry
  change f.leader.map weak = some leader at hleader
  obtain ⟨now, hnow, rfl⟩ := Option.map_eq_some_iff.mp hleader
  exact lt_irrefl _ (hstrong leaderWeakPct rfl)

theorem trendContinuation_falls (priorHigh : ℚ)
    (hloose : ¬Fixed x x.holdMa x.holdLevel ∨ ¬FixedAtClose x f x.floorMa x.floorLevel) :
    Falls limitUp (.trendContinuation priorHigh) x f := by
  obtain ⟨value, hvalue⟩ := exists_int_gt f.price
  refine ⟨x.withLevels f.price value, f, withLevels_filled _ _ _, Features.Filled.refl f, ?_⟩
  intro hentry
  obtain ⟨hbreach, hholds, -⟩ := (trendContinuation_entry_iff priorHigh).mp hentry
  rcases hloose with hhold | hfloor
  · exact absurd hvalue (not_lt.mpr ((level_withLevels hhold f.price value).symm.trans_le hholds))
  · obtain ⟨hclose, hlevel⟩ := FixedAtClose.loose hfloor
    exact hclose (hbreach (hvalue.trans_eq (level_withLevels hlevel f.price value).symm))

theorem priorHighBreakout_falls (priorHigh : ℚ) (hloose : ¬FixedAtClose x f x.floorMa x.floorLevel) :
    Falls limitUp (.priorHighBreakout priorHigh) x f := by
  obtain ⟨value, hvalue⟩ := exists_int_gt f.price
  obtain ⟨hclose, hlevel⟩ := FixedAtClose.loose hloose
  refine ⟨x.withLevels f.price value, f, withLevels_filled _ _ _, Features.Filled.refl f, ?_⟩
  intro hentry
  have hbreach := ((priorHighBreakout_entry_iff priorHigh).mp hentry).1
  exact hclose (hbreach (hvalue.trans_eq (level_withLevels hlevel f.price value).symm))

theorem platformBreakout_falls (hloose : ¬PlatformFirm x f) : Falls limitUp .platformBreakout x f := by
  unfold PlatformFirm at hloose
  push Not at hloose
  obtain ⟨hclose, hlower, hma⟩ := hloose
  obtain ⟨value, hvalue⟩ := exists_int_gt (max f.price 0)
  have habove : f.price < value := (le_max_left _ _).trans_lt hvalue
  have hne : (value : ℚ) ≠ 0 := ((le_max_right _ _).trans_lt hvalue).ne'
  let y := x.withLevels f.price value
  have hedge : ∃ lower, y.platformLower = some lower ∧ f.price < lower := by
    rcases hnow : x.platformLower with _ | lower
    · exact ⟨value, by simp [y, Extra.withLevels, hnow], habove⟩
    · exact ⟨lower, by simp [y, Extra.withLevels, hnow], hlower lower hnow⟩
  obtain ⟨lower, hsome, hbelow⟩ := hedge
  obtain ⟨k, hk⟩ := platformFloorMa_pos x
  have haverage : ∀ frozen, ∃ floor, orElse (liveMa y (some (platformFloorMa x)) f.price frozen) (some lower) = some floor ∧ f.price < floor := by
    intro frozen
    by_cases hsums : (x.maPrefix (platformFloorMa x)).isSome
    · have hfilled := withLevels_filled x f.price value
      have hkept : liveMa y (some (platformFloorMa x)) f.price frozen = liveMa x (some (platformFloorMa x)) f.price none := by
        rw [liveMa_of_isSome ⟨k, hk⟩ (by rwa [(hfilled.maPrefix _).eq hsums]) f.price frozen none]
        exact liveMa_fixed hfilled (Keeps.refl none) (fixed_of_isSome ⟨k, hk⟩ hsums none) f.price
      rw [hkept]
      rcases hnow : liveMa x (some (platformFloorMa x)) f.price none with _ | ma
      · exact ⟨lower, rfl, hbelow⟩
      · by_cases hzero : ma = 0
        · exact ⟨lower, by simp [orElse, hzero], hbelow⟩
        · exact ⟨ma, orElse_of_ne hzero _, hma hsums ma hnow hzero⟩
    · rw [hk] at hsums ⊢
      rw [liveMa_withMas x f.price value k frozen (Option.not_isSome_iff_eq_none.mp hsums), orElse_of_ne hne]
      exact ⟨value, rfl, habove⟩
  refine ⟨y, f, withLevels_filled _ _ _, Features.Filled.refl f, ?_⟩
  intro hentry
  refine absurd ((platformBreakout_entry_iff.mp hentry).1 ?_) (not_lt.mpr hclose)
  obtain ⟨floor, hfloor, hlt⟩ := haverage (orElse (x.frozenMa (platformFloorMa x)) (x.frozenMa 10))
  have hread : platformFloor y f = min (y.platformLower.getD 0)
      ((orElse (liveMa y (some (platformFloorMa x)) f.price (orElse (x.frozenMa (platformFloorMa x)) (x.frozenMa 10))) y.platformLower).getD 0) := rfl
  rw [hread, hsome, hfloor]
  exact lt_min hbelow hlt

section

variable (touchTolPct : ℚ)

theorem ma10SecondWave_falls_of_mid (hnone : x.priorMid = none) : Falls limitUp (.ma10SecondWave touchTolPct) x f := by
  have hpos : 0 < 2 * |(f.high + f.low) / 2| + 1 := by positivity
  let y : Extra := { x with priorMid := some (2 * |(f.high + f.low) / 2| + 1) }
  have hy : x.Filled y := { Extra.Filled.refl x with priorMid := Keeps.of_none hnone _ }
  refine ⟨y, f, hy, Features.Filled.refl f, ?_⟩
  intro hentry
  have hdrift : -centerFlatPct ≤ drift y f := ((ma10SecondWave_entry_iff touchTolPct).mp hentry).2.2.1
  have hvalue : drift y f = ((f.high + f.low) / 2 / (2 * |(f.high + f.low) / 2| + 1) - 1) * 100 := by
    simp [drift, y, Option.filter, hpos.ne']
  have hhalf : (f.high + f.low) / 2 / (2 * |(f.high + f.low) / 2| + 1) ≤ 1 / 2 := by
    rw [div_le_iff₀ hpos]
    linarith [le_abs_self ((f.high + f.low) / 2)]
  rw [hvalue] at hdrift
  unfold centerFlatPct at hdrift
  linarith

theorem ma10SecondWave_falls_at_close (hloose : ¬FixedAtClose x f (some 10) (x.frozenMa 10)) :
    Falls limitUp (.ma10SecondWave touchTolPct) x f := by
  obtain ⟨hclose, hten⟩ := FixedAtClose.loose hloose
  obtain ⟨value, hvalue⟩ := exists_int_mul_gt (show (97 / 100 : ℚ) ≠ 0 by norm_num) f.price
  have hma := average_withLevels (k := 9) (Option.not_isSome_iff_eq_none.mp hten) f.price value (x.frozenMa 10)
  refine ⟨x.withLevels f.price value, f, withLevels_filled _ _ _, Features.Filled.refl f, ?_⟩
  intro hentry
  have hbreach := ((ma10SecondWave_entry_iff touchTolPct).mp hentry).1
  exact hclose (hbreach (hvalue.trans_eq (congrArg (fun ma10 => ma10 * (97 / 100)) hma.symm)))

theorem ma10SecondWave_falls (htouched : x.touchedMa10 ≠ some true) (hten : x.maPrefix 10 = none)
    (hne : 1 + touchTolPct / 100 ≠ 0) : Falls limitUp (.ma10SecondWave touchTolPct) x f := by
  obtain ⟨value, hvalue⟩ := exists_int_mul_lt hne f.low
  let y : Extra := { x.withLevels f.price value with touchedMa10 := x.touchedMa10.or (some false) }
  have hy : x.Filled y := { withLevels_filled x f.price value with touchedMa10 := Keeps.or _ _ }
  have hma : (liveMa y (some 10) f.price (y.frozenMa 10)).getD 0 = value := average_withLevels (k := 9) hten f.price value (x.frozenMa 10)
  refine ⟨y, f, hy, Features.Filled.refl f, ?_⟩
  intro hentry
  rcases ((ma10SecondWave_entry_iff touchTolPct).mp hentry).2.1 with htouch | hlow
  · change x.touchedMa10.or (some false) = some true at htouch
    rcases hnow : x.touchedMa10 with _ | touch
    · rw [hnow] at htouch
      exact absurd htouch (by simp)
    · rw [hnow] at htouch
      exact htouched (hnow.trans htouch)
  · change f.low ≤ (liveMa y (some 10) f.price (y.frozenMa 10)).getD 0 * (1 + touchTolPct / 100) at hlow
    rw [hma] at hlow
    linarith

end

theorem ma60Reclaim_falls (amountMult : ℚ) (volumeProfile : Option (List (ℕ × ℚ)))
    (hloose : x.maPrefix 60 = none ∨ (x.amt20 = none ∧ amountMult ≠ 0)) : Falls limitUp (.ma60Reclaim amountMult volumeProfile) x f := by
  rcases hloose with hsums | ⟨hnone, hne⟩
  · obtain ⟨value, hvalue⟩ := exists_int_gt f.price
    have hma := average_withLevels (k := 59) hsums f.price value (x.frozenMa 60)
    refine ⟨x.withLevels f.price value, f, withLevels_filled _ _ _, Features.Filled.refl f, ?_⟩
    intro hentry
    have habove := ((ma60Reclaim_entry_iff amountMult volumeProfile).mp hentry).2.1
    exact absurd (hvalue.trans (hma.symm.trans_lt habove)) (lt_irrefl _)
  · let y : Extra := { x with amt20 := some ((orZero f.amount / sessionShare f volumeProfile + 1) / amountMult) }
    have hy : x.Filled y := { Extra.Filled.refl x with amt20 := Keeps.of_none hnone _ }
    refine ⟨y, f, hy, Features.Filled.refl f, ?_⟩
    intro hentry
    have henough : amountMult * ((orZero f.amount / sessionShare f volumeProfile + 1) / amountMult) ≤ orZero f.amount / sessionShare f volumeProfile :=
      ((ma60Reclaim_entry_iff amountMult volumeProfile).mp hentry).2.2
    rw [mul_div_cancel₀ _ hne] at henough
    linarith

theorem le_shortLevel {value : ℚ} (hne : value ≠ 0)
    (h : liveMa x (some 5) f.price none = some value ∨ liveMa x (some 10) f.price none = some value) :
    ∃ level, shortLevel x f = some level ∧ value ≤ level := by
  have hkept : (some value).filter (fun ma => decide (ma ≠ 0)) = some value := by simp [Option.filter, hne]
  unfold shortLevel
  rcases h with hfive | hten
  · rw [hfive]
    rcases hother : (liveMa x (some 10) f.price none).filter (fun ma => decide (ma ≠ 0)) with _ | ten
    · refine ⟨value, ?_, le_refl _⟩
      simp only [List.filterMap_cons, List.filterMap_nil, hkept, hother]
      rfl
    · refine ⟨max value ten, ?_, le_max_left _ _⟩
      simp only [List.filterMap_cons, List.filterMap_nil, hkept, hother]
      rfl
  · rw [hten]
    rcases hother : (liveMa x (some 5) f.price none).filter (fun ma => decide (ma ≠ 0)) with _ | five
    · refine ⟨value, ?_, le_refl _⟩
      simp only [List.filterMap_cons, List.filterMap_nil, hkept, hother]
      rfl
    · refine ⟨max five value, ?_, le_max_right _ _⟩
      simp only [List.filterMap_cons, List.filterMap_nil, hkept, hother]
      rfl

theorem ma5ReclaimOrDivergence_paths_fall (hfirst : ¬(pathA x f = true ∧ (x.maPrefix 5).isSome ∧ (x.maPrefix 10).isSome))
    (hsecond : ¬(pathB x f = true ∧ x.zone.isSome ∧ f.divergenceLive.isSome)) (invalidBelow : ℚ) :
    Falls limitUp (.ma5ReclaimOrDivergence invalidBelow) x f := by
  obtain ⟨value, hvalue⟩ := exists_int_gt (max f.price 0)
  have habove : f.price < value := (le_max_left _ _).trans_lt hvalue
  have hne : (value : ℚ) ≠ 0 := ((le_max_right _ _).trans_lt hvalue).ne'
  let y : Extra := { x.withLevels f.price value with zone := x.zone.or (some (f.low + 1, f.low + 1)) }
  let g : Features := { f with divergenceLive := f.divergenceLive.or (some false) }
  have hy : x.Filled y := { withLevels_filled x f.price value with zone := Keeps.or _ _ }
  have hg : f.Filled g := { Features.Filled.refl f with divergenceLive := Keeps.or _ _ }
  have hpathA : pathA y g = false := by
    by_contra hpath
    rw [Bool.not_eq_false] at hpath
    by_cases hboth : (x.maPrefix 5).isSome ∧ (x.maPrefix 10).isSome
    · have hsame : shortLevel y g = shortLevel x f := by
        unfold shortLevel
        rw [liveMa_fixed hy (Keeps.refl none) (n := some 5) hboth.1, liveMa_fixed hy (Keeps.refl none) (n := some 10) hboth.2]
        rfl
      refine hfirst ⟨?_, hboth⟩
      rw [← hpath, pathA, pathA, hsame]
      rfl
    · have hhigh : liveMa y (some 5) g.price none = some (value : ℚ) ∨ liveMa y (some 10) g.price none = some (value : ℚ) := by
        by_cases hfive : (x.maPrefix 5).isSome
        · exact .inr (liveMa_withMas x f.price value 9 none (Option.not_isSome_iff_eq_none.mp fun hten => hboth ⟨hfive, hten⟩))
        · exact .inl (liveMa_withMas x f.price value 4 none (Option.not_isSome_iff_eq_none.mp hfive))
      obtain ⟨level, hlevel, hle⟩ := le_shortLevel hne hhigh
      rw [pathA, breakout_all_iff, hlevel] at hpath
      obtain ⟨⟨read, hread, hlt⟩, -⟩ := hpath
      obtain rfl := Option.some.inj hread
      exact absurd (habove.trans_le hle) (not_lt.mpr (le_of_lt hlt))
  have hpathB : pathB y g = false := by
    by_contra hpath
    rw [Bool.not_eq_false] at hpath
    have hparts := hpath
    unfold pathB at hparts
    rw [Bool.and_eq_true, Bool.and_eq_true] at hparts
    obtain ⟨⟨hin, hfound⟩, -⟩ := hparts
    rcases hzone : x.zone with _ | zone
    · have hread : y.zone = some (f.low + 1, f.low + 1) := by simp [y, hzone]
      unfold inZone at hin
      rw [hread] at hin
      change (decide (f.low + 1 ≤ f.low) && decide (f.low ≤ f.low + 1)) = true at hin
      simp at hin
      linarith
    · rcases hlive : f.divergenceLive with _ | found
      · have hread : divergenceFound y g = false := by
          unfold divergenceFound
          rw [show g.divergenceLive = some false by simp [g, hlive]]
          rfl
        rw [hread] at hfound
        exact absurd hfound (by simp)
      · refine hsecond ⟨?_, by simp [hzone], by simp [hlive]⟩
        rw [← hpath]
        have hzones : y.zone = x.zone := by simp [y, hzone]
        have hlives : g.divergenceLive = f.divergenceLive := by simp [g, hlive]
        unfold pathB inZone divergenceFound
        rw [hzones, hlives, hlive]
        rfl
  refine ⟨y, g, hy, hg, ?_⟩
  intro hentry
  have hpaths := ((ma5ReclaimOrDivergence_entry_iff invalidBelow).mp hentry).2
  rw [hpathA, hpathB] at hpaths
  exact absurd hpaths (by simp)

theorem ma5ReclaimOrDivergence_line_falls (invalidBelow : ℚ) (hclose : ¬f.clock < closeConfirmFrom) (hlive : f.divergenceLive ≠ some true)
    (hloose : ¬(LineFixed x ∧ ¬f.price < invalidLine x f invalidBelow)) : Falls limitUp (.ma5ReclaimOrDivergence invalidBelow) x f := by
  let g : Features := { f with divergenceLive := f.divergenceLive.or (some false) }
  have hg : f.Filled g := { Features.Filled.refl f with divergenceLive := Keeps.or _ _ }
  have hnone : ∀ y, divergenceFound y g = false := by
    intro y
    change ((f.divergenceLive.or (some false)).or y.divergenceFound).getD false = false
    rcases hnow : f.divergenceLive with _ | found
    · rfl
    · cases found with
      | false => rfl
      | true => exact absurd hnow hlive
  have hline : ∃ y, x.Filled y ∧ f.price < invalidLine y f invalidBelow := by
    by_cases hfixed : LineFixed x
    · exact ⟨x, Extra.Filled.refl x, not_not.mp (not_and.mp hloose hfixed)⟩
    · rcases hma : x.invalidMa with _ | _ | k
      · exact absurd (by rw [LineFixed, hma]; trivial) hfixed
      · exact absurd (by rw [LineFixed, hma]; trivial) hfixed
      · have hboth : ¬((x.maPrefix (k + 1)).isSome ∨ x.invalidBufferPct.getD 3 = 100) := by
          rwa [LineFixed, hma] at hfixed
        obtain ⟨hsums, hbuffer⟩ := not_or.mp hboth
        have hscale : 1 - x.invalidBufferPct.getD 3 / 100 ≠ 0 := by
          intro hzero
          exact hbuffer (by linarith)
        obtain ⟨value, hvalue⟩ := exists_int_mul_gt hscale (f.price + 1)
        refine ⟨x.withLevels f.price value, withLevels_filled _ _ _, ?_⟩
        have hread : invalidLine (x.withLevels f.price value) f invalidBelow = roundTo 3 (value * (1 - x.invalidBufferPct.getD 3 / 100)) := by
          unfold invalidLine
          rw [show (x.withLevels f.price value).invalidMa = some (k + 1) from hma]
          dsimp only
          rw [average_withLevels (Option.not_isSome_iff_eq_none.mp hsums)]
          rfl
        rw [hread]
        linarith [lt_roundTo 3 (value * (1 - x.invalidBufferPct.getD 3 / 100))]
  obtain ⟨y, hy, hbelow⟩ := hline
  refine ⟨y, g, hy, hg, ?_⟩
  intro hentry
  exact hclose (((ma5ReclaimOrDivergence_entry_iff invalidBelow).mp hentry).1 hbelow (hnone y))

end Falling

/-! ## The condition, for every playbook -/

section Exact

variable {limitUp : Positive → ℚ} {f g : Features}

theorem stands (setup : Setup) {x y : Extra} (hx : x.Filled y) (h : f.Filled g) (hfirm : Firm ⟨setup, x⟩ f)
    (hhas : ∀ key ∈ requiredInputs setup.playbook, f.has key = true) (hentry : evaluate limitUp ⟨setup, x⟩ f = .entry) :
    evaluate limitUp ⟨setup, y⟩ g = .entry := by
  have hclose : .preClose ∈ requiredInputs setup.playbook → f.preClose.isSome := hhas .preClose
  have hopened : .opened ∈ requiredInputs setup.playbook → f.opened.isSome := hhas .opened
  have hvwap : .vwap ∈ requiredInputs setup.playbook → f.vwap.isSome := hhas .vwap
  have hratio : .volumeRatio ∈ requiredInputs setup.playbook → f.volumeRatio.isSome := hhas .volumeRatio
  have hamount : .amount ∈ requiredInputs setup.playbook → f.amount.isSome := hhas .amount
  have hturnover : .turnoverPct ∈ requiredInputs setup.playbook → f.turnoverPct.isSome := hhas .turnoverPct
  cases setup with
  | relayOneWord =>
      exact relayOneWord_stands h (hclose (by simp [Setup.playbook, requiredInputs])) (hturnover (by simp [Setup.playbook, requiredInputs]))
        _ _ _ hentry
  | relayAcceleration =>
      exact relayAcceleration_stands h (hclose (by simp [Setup.playbook, requiredInputs])) (hamount (by simp [Setup.playbook, requiredInputs]))
        (hvwap (by simp [Setup.playbook, requiredInputs])) _ _ _ _ _ hentry
  | relayExpectTouch =>
      exact relayExpectTouch_stands h (hclose (by simp [Setup.playbook, requiredInputs])) (hvwap (by simp [Setup.playbook, requiredInputs]))
        _ hentry
  | relayRace =>
      exact relayRace_stands h (hclose (by simp [Setup.playbook, requiredInputs])) (hopened (by simp [Setup.playbook, requiredInputs]))
        (hvwap (by simp [Setup.playbook, requiredInputs])) _ _ hfirm hentry
  | relayNewsConditional =>
      exact relayNewsConditional_stands h (hclose (by simp [Setup.playbook, requiredInputs]))
        (hopened (by simp [Setup.playbook, requiredInputs])) (hvwap (by simp [Setup.playbook, requiredInputs])) _ _ hentry
  | relayFastSeal =>
      exact relayFastSeal_stands h (hclose (by simp [Setup.playbook, requiredInputs])) (hopened (by simp [Setup.playbook, requiredInputs]))
        (hamount (by simp [Setup.playbook, requiredInputs])) _ _ hentry
  | relayBreakReseal =>
      exact relayBreakReseal_stands h (hclose (by simp [Setup.playbook, requiredInputs])) (hvwap (by simp [Setup.playbook, requiredInputs]))
        (hratio (by simp [Setup.playbook, requiredInputs])) hfirm _ _ hentry
  | trendPullbackRestart =>
      exact trendPullbackRestart_stands h hx (hclose (by simp [Setup.playbook, requiredInputs]))
        (hvwap (by simp [Setup.playbook, requiredInputs])) (hratio (by simp [Setup.playbook, requiredInputs])) _ hfirm.1 hfirm.2 hentry
  | leaderBenchmarkPullback => exact leaderBenchmarkPullback_stands h hx hfirm.1 hfirm.2 hentry
  | sympathyFollow => exact sympathyFollow_stands h (hvwap (by simp [Setup.playbook, requiredInputs])) _ _ hfirm hentry
  | ma5ReclaimOrDivergence =>
      exact ma5ReclaimOrDivergence_stands h hx (hvwap (by simp [Setup.playbook, requiredInputs]))
        (hratio (by simp [Setup.playbook, requiredInputs])) _ hfirm
  | trendContinuation => exact trendContinuation_stands h hx hfirm.1 hfirm.2 _ hentry
  | priorHighBreakout =>
      exact priorHighBreakout_stands h hx (hvwap (by simp [Setup.playbook, requiredInputs])) (hratio (by simp [Setup.playbook, requiredInputs]))
        hfirm _ hentry
  | platformBreakout =>
      exact platformBreakout_stands h hx (hvwap (by simp [Setup.playbook, requiredInputs])) (hratio (by simp [Setup.playbook, requiredInputs]))
        hfirm hentry
  | ma10SecondWave =>
      exact ma10SecondWave_stands h hx (hvwap (by simp [Setup.playbook, requiredInputs])) _ hfirm.1 hfirm.2.1 hfirm.2.2 hentry
  | doubleBottomPlatform =>
      exact doubleBottomPlatform_stands h (hvwap (by simp [Setup.playbook, requiredInputs])) (hratio (by simp [Setup.playbook, requiredInputs]))
        _ _ hentry
  | ma60Reclaim => exact ma60Reclaim_stands h hx (hamount (by simp [Setup.playbook, requiredInputs])) _ _ hfirm.1 hfirm.2 hentry

theorem falls (limitUp : Positive → ℚ) (setup : Setup) (x : Extra) (hloose : ¬Firm ⟨setup, x⟩ f) : Falls limitUp setup x f := by
  cases setup with
  | relayRace => exact relayRace_falls _ _ hloose
  | relayBreakReseal => exact relayBreakReseal_falls _ _ (Option.not_isSome_iff_eq_none.mp hloose)
  | trendPullbackRestart pullbackAmountMax =>
      rcases not_and_or.mp hloose with hsetup | hfixed
      · rw [not_or, not_or] at hsetup
        obtain ⟨hpulled, hamount, hfive⟩ := hsetup
        exact trendPullbackRestart_falls _ hpulled (fun amount hsome hmax => hamount ⟨amount, hsome, hmax⟩)
          (Option.not_isSome_iff_eq_none.mp hfive)
      · exact trendPullbackRestart_falls_at_close _ hfixed
  | leaderBenchmarkPullback => exact leaderBenchmarkPullback_falls (not_and_or.mp hloose)
  | sympathyFollow => exact sympathyFollow_falls _ _ hloose
  | ma5ReclaimOrDivergence invalidBelow =>
      rcases not_and_or.mp hloose with hpaths | hline
      · exact ma5ReclaimOrDivergence_paths_fall (not_or.mp hpaths).1 (not_or.mp hpaths).2 _
      · rw [not_or, not_or] at hline
        exact ma5ReclaimOrDivergence_line_falls _ hline.1 hline.2.1 hline.2.2
  | trendContinuation => exact trendContinuation_falls _ (not_and_or.mp hloose)
  | priorHighBreakout => exact priorHighBreakout_falls _ hloose
  | platformBreakout => exact platformBreakout_falls hloose
  | ma10SecondWave touchTolPct =>
      rcases not_and_or.mp hloose with hmid | hrest
      · exact ma10SecondWave_falls_of_mid _ (Option.not_isSome_iff_eq_none.mp hmid)
      · rcases not_and_or.mp hrest with htouched | hfixed
        · rw [not_or, not_or] at htouched
          exact ma10SecondWave_falls _ htouched.1 (Option.not_isSome_iff_eq_none.mp htouched.2.1) htouched.2.2
        · exact ma10SecondWave_falls_at_close _ hfixed
  | ma60Reclaim amountMult volumeProfile =>
      refine ma60Reclaim_falls _ _ ((not_and_or.mp hloose).imp Option.not_isSome_iff_eq_none.mp fun hturnover => ?_)
      exact ⟨Option.not_isSome_iff_eq_none.mp (not_or.mp hturnover).1, (not_or.mp hturnover).2⟩
  | relayOneWord | relayAcceleration | relayExpectTouch | relayNewsConditional | relayFastSeal | doubleBottomPlatform =>
      exact absurd trivial hloose

/-- **An entry stands whatever its absent inputs are**, exactly when what its playbook rests on is there. -/
theorem entry_stands_iff (limitUp : Positive → ℚ) (plan : Plan) (f : Features) (hentry : Emits limitUp plan f) :
    (∀ y g, plan.extra.Filled y → f.Filled g → Emits limitUp ⟨plan.setup, y⟩ g) ↔ Firm plan f := by
  obtain ⟨hhas, hevaluate⟩ := (emits_iff plan).mp hentry
  constructor
  · intro hall
    by_contra hloose
    obtain ⟨y, g, hy, hg, hne⟩ := falls limitUp plan.setup plan.extra hloose
    exact hne ((emits_iff _).mp (hall y g hy hg)).2
  · intro hfirm y g hy hg
    exact (emits_iff _).mpr ⟨fun key hkey => hg.has (hhas key hkey), stands plan.setup hy hg hfirm hhas hevaluate⟩

end Exact

/-! ## A short history -/

instance (limitUp : Positive → ℚ) (plan : Plan) (f : Features) : Decidable (Emits limitUp plan f) :=
  inferInstanceAs (Decidable (reviewAction limitUp plan f = .entry))

/-- A scan at 10:30: the price 10, the turnover 50, nothing else. -/
def quietScan : Features where
  price := 10
  preClose := none
  pctQuote := none
  opened := none
  high := 10
  low := 10
  amount := some ⟨50, by norm_num⟩
  turnoverPct := none
  volumeRatio := none
  vwap := none
  bidOnly := none
  surge := none
  notFalling := none
  auctionSeal := none
  auctionAtLimit := none
  sectorCounts := fun _ => none
  sectorPeaks := fun _ => none
  leader := none
  divergenceLive := none
  clock := 630
  sessionElapsedMin := 60

/-- A plan to buy above the 60-day average on twice the usual turnover. -/
def reclaimPlan (x : Extra) : Plan := ⟨.ma60Reclaim 2 none, x⟩

/-- The sum of 59 closes, and the mean turnover. -/
def longHistory : Extra := { maPrefix := fun n => if n = 60 then some 530 else none, amt20 := some 90 }

theorem reclaimPlan_emits : Emits (fun _ => 0) (reclaimPlan longHistory) quietScan := by decide +kernel

/-- With its average and its mean turnover, the entry stands. -/
theorem entry_stands_iff_longHistory :
    (∀ y g, longHistory.Filled y → quietScan.Filled g → Emits (fun _ => 0) (reclaimPlan y) g) ↔ Firm (reclaimPlan longHistory) quietScan :=
  entry_stands_iff (fun _ => 0) (reclaimPlan longHistory) quietScan reclaimPlan_emits

/-- **A stock without 60 sessions is above its 60-day average**: the absent average is zero, and so is the absent turnover. -/
theorem short_history_passes :
    Emits (fun _ => 0) (reclaimPlan {}) quietScan ∧
      ∃ y, ({} : Extra).Filled y ∧ ¬Emits (fun _ => 0) (reclaimPlan y) quietScan := by
  refine ⟨by decide +kernel, { maPrefix := fun n => if n = 60 then some 1190 else none }, ?_, by decide +kernel⟩
  exact { Extra.Filled.refl {} with maPrefix := fun _ => Keeps.of_none rfl _ }

end TradingHarness.Rules
