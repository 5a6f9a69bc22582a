import TradingHarness.Tactics.Conditions
import TradingHarness.Tactics.Digest
import Mathlib.Data.List.DropRight

set_option autoImplicit false

/-! # The folded history

`History` keeps one series per tactic, outcome and period, the running sell sums and sealing counts of
each slot, and the samples of the day conditions; `History.add` folds one digest into it
(`tactic_trials.py`). A digest without a key the history asks for raises in the source, so `add`
returns in `Option`. -/

namespace TradingHarness

/-- Days before a tactic was registered are replayed, the others are forward evidence. -/
inductive Period
  | replay
  | forward
  deriving DecidableEq

/-- `"forward" if day >= tactic.registered_on else "replay"`. -/
def periodOf (tactic : Tactic) (day : Date) : Period :=
  if tactic.registeredOn ≤ day then .forward else .replay

/-- `_Series`: one tactic, one outcome, one period. -/
structure Series where
  daysWithPicks : ℕ
  picks : ℕ
  pickMeans : List ℚ
  differences : List ℚ

def Series.empty : Series where
  daysWithPicks := 0
  picks := 0
  pickMeans := []
  differences := []

def Series.add (series : Series) (picks : ℕ) (pickMean difference : Option ℚ) : Series where
  picks := series.picks + picks
  daysWithPicks := if 0 < picks then series.daysWithPicks + 1 else series.daysWithPicks
  pickMeans := if 0 < picks then series.pickMeans ++ pickMean.toList else series.pickMeans
  differences := series.differences ++ difference.toList

/-- `deque(maxlen=60)`. -/
def recentDays : ℕ := 60

/-- `append` on a queue that drops its oldest item when it is full. -/
def pushBounded {α : Type} (bound : ℕ) (items : List α) (item : α) : List α :=
  (items ++ [item]).rtake bound

structure History where
  series : String × OutcomeKey × Period → Series
  recent : String → List TacticDigest
  switch : String → List (Bool × ℚ)
  sell : Slot → SellTotals
  sealed : Slot → List (Σ _ : String, ℕ × ℕ)
  rows : Slot → ℕ

/-- A history before the first day. -/
def History.empty : History where
  series := fun _ => Series.empty
  recent := fun _ => []
  switch := fun _ => []
  sell := fun _ => Tally.empty
  sealed := fun _ => []
  rows := fun _ => 0

/-- `if forward: self._recent[tactic.key].append(result)`. -/
def pushForward (key : String) (period : Period) (result : TacticDigest)
    (recent : String → List TacticDigest) : String → List TacticDigest :=
  if period = .forward then
    Function.update recent key (pushBounded recentDays (recent key) result)
  else recent

variable (tactics : List Tactic) (history : History) (digest : Digest)

/-- One tactic of a digest. -/
def History.addTactic (history : History) (tactic : Tactic) : Option History :=
  if tactic.slot ≠ digest.slot then some history
  else do
    let result ← digest.tactics.dlookup tactic.key
    let period := periodOf tactic digest.tradeDate
    let series ← Tables.updateAll (fun outcome => (tactic.key, outcome, period))
      (fun outcome => (result.outcomes.dlookup outcome).map
        (fun pair series => series.add result.picks pair.1 pair.2))
      (recordOutcomes tactic) history.series
    return { history with
      series := series
      recent := pushForward tactic.key period result history.recent }

/-- The sample a switch digest adds for one day condition. -/
def addSample (key : String) (samples : List (Bool × ℚ)) (switch : SwitchDigest) :
    List (Bool × ℚ) :=
  match switch.daily with
  | none => samples
  | some daily =>
      if key ∈ switch.flags then samples ++ [(true, daily)]
      else if key ∉ switch.unknown then samples ++ [(false, daily)]
      else samples

/-- The samples are kept for the day conditions of the close slot. -/
def addSwitch (switch : Option SwitchDigest) (samples : String → List (Bool × ℚ)) :
    String → List (Bool × ℚ) :=
  match switch with
  | none => samples
  | some switch => fun key =>
      if key ∈ dayConditionKeys then addSample key (samples key) switch else samples key

/-- `self.rows[slot] += digest["rows"]`. -/
def History.addRows : History :=
  let total := history.rows digest.slot + digest.rows
  { history with rows := Function.update history.rows digest.slot total }

def History.add : Option History := do
  let slot := digest.slot
  let scored ← tactics.foldlM (History.addTactic digest) (history.addRows digest)
  return { scored with
    sell := Function.update scored.sell slot ((scored.sell slot).add digest.sell)
    sealed := Function.update scored.sealed slot
      (Tables.accumulate (scored.sealed slot) digest.sealed)
    switch := addSwitch digest.switch scored.switch }

/-- Fold digests one at a time, oldest first. -/
def foldDigests (digests : List Digest) : Option History :=
  digests.foldlM (History.add tactics) History.empty

/-- The sums `sell_scope` turns into means; those of no rows before a first day. -/
def History.sellTotals (slot : Slot) : SellTotals :=
  match history.sell slot with
  | .mk [] [] => sellScopeSums slot []
  | total => total

/-- The series of a tactic's latest forward days, as `records` computes it. -/
def History.recentSeries (tactic : Tactic) (outcome : OutcomeKey) :
    Option Series :=
  (history.recent tactic.key).foldlM
    (fun series result => do
      let pair ← result.outcomes.dlookup outcome
      return series.add result.picks pair.1 pair.2)
    Series.empty

/-! ## What a step does -/

/-- The score of one outcome on one day. -/
structure Score where
  picks : ℕ
  pickMean : Option ℚ
  difference : Option ℚ

/-- The score `day_result` gives a tactic on a day, run on every outcome. -/
def scoreOf (tactic : Tactic) (outcome : OutcomeKey) (day : TrialDay) : Score :=
  let result := dayResult tactic day.rows day.day day.outcomes []
  { picks := result.counts.picks
    pickMean := (result.outcomes.dlookup outcome).bind (·.pickMean)
    difference := (result.outcomes.dlookup outcome).bind (·.difference) }

/-- A tactic's part of a digest that keeps what `day_result` says of the day. -/
structure Keeps (tactic : Tactic) (day : TrialDay) (result : TacticDigest) : Prop where
  picks : ∀ outcome, result.picks = (scoreOf tactic outcome day).picks
  outcomes : ∀ outcome ∈ recordOutcomes tactic, result.outcomes.dlookup outcome
    = some ((scoreOf tactic outcome day).pickMean, (scoreOf tactic outcome day).difference)

/-- Folding a tactic's part of a digest adds the day's scores to the series of the day's period and
    leaves every other series as it is. -/
structure TacticFolded (tactic : Tactic) (day : TrialDay) (history history' : History) : Prop where
  series : ∀ outcome ∈ recordOutcomes tactic, ∀ period,
    history'.series (tactic.key, outcome, period)
      = if tactic.slot = day.slot ∧ periodOf tactic day.tradeDate = period then
          (history.series (tactic.key, outcome, period)).add (scoreOf tactic outcome day).picks
            (scoreOf tactic outcome day).pickMean (scoreOf tactic outcome day).difference
        else history.series (tactic.key, outcome, period)
  recent : if tactic.slot = day.slot ∧ periodOf tactic day.tradeDate = .forward then
      ∃ result, Keeps tactic day result ∧
        history'.recent tactic.key = pushBounded recentDays (history.recent tactic.key) result
    else history'.recent tactic.key = history.recent tactic.key

/-- Two histories that differ in nothing but the series and the recent days of some tactics. -/
structure SameBut (keys : List String) (history history' : History) : Prop where
  series : ∀ key ∉ keys, ∀ outcome period,
    history'.series (key, outcome, period) = history.series (key, outcome, period)
  recent : ∀ key ∉ keys, history'.recent key = history.recent key
  sell : history'.sell = history.sell
  sealed : history'.sealed = history.sealed
  switch : history'.switch = history.switch
  rows : history'.rows = history.rows

theorem History.addTactic_spec (day : TrialDay) (history : History)
    (tactic : Tactic) (hslot : digest.slot = day.slot)
    (hdate : digest.tradeDate = day.tradeDate)
    (hkept : tactic.slot = day.slot → ∃ result,
      digest.tactics.dlookup tactic.key = some result ∧ Keeps tactic day result) :
    ∃ history', history.addTactic digest tactic = some history' ∧
      TacticFolded tactic day history history' ∧ SameBut [tactic.key] history history' := by
  unfold History.addTactic
  by_cases hother : tactic.slot ≠ digest.slot
  · rw [if_pos hother]
    have hday : tactic.slot ≠ day.slot := hslot ▸ hother
    refine ⟨history, rfl, ⟨?_, ?_⟩, ⟨?_, ?_, rfl, rfl, rfl, rfl⟩⟩
    · intro outcome _ period
      rw [if_neg (fun h => hday h.1)]
    · rw [if_neg (fun h => hday h.1)]
    · exact fun _ _ _ _ => rfl
    · exact fun _ _ => rfl
  · rw [if_neg hother]
    have hday : tactic.slot = day.slot := by rw [← hslot]; exact not_not.mp hother
    obtain ⟨result, hresult, hkeeps⟩ := hkept hday
    have hnodup : ((recordOutcomes tactic).map
        (fun outcome => (tactic.key, outcome, periodOf tactic digest.tradeDate))).Nodup := by
      refine (nodup_recordOutcomes tactic).map ?_
      intro a b hab
      simpa using hab
    obtain ⟨series, hrun, hchanged, hframe⟩ := Tables.updateAll_spec _
      (fun outcome => (result.outcomes.dlookup outcome).map
        (fun pair (series : Series) => series.add result.picks pair.1 pair.2))
      (recordOutcomes tactic) history.series
      (fun outcome series => series.add (scoreOf tactic outcome day).picks
        (scoreOf tactic outcome day).pickMean (scoreOf tactic outcome day).difference)
      hnodup
      (by
        intro outcome hmem
        rw [hkeeps.outcomes outcome hmem, ← hkeeps.picks outcome]
        rfl)
    rw [hresult]
    simp only [Option.bind_eq_bind, Option.bind_some]
    rw [hrun]
    refine ⟨_, rfl, ⟨?_, ?_⟩, ?_⟩
    · intro outcome hmem period
      by_cases hperiod : periodOf tactic day.tradeDate = period
      · rw [if_pos ⟨hday, hperiod⟩, ← hperiod, ← hdate]
        exact hchanged outcome hmem
      · rw [if_neg (fun h => hperiod h.2)]
        refine hframe _ ?_
        intro hmem'
        obtain ⟨outcome', -, heq⟩ := List.mem_map.mp hmem'
        simp only [Prod.mk.injEq, true_and] at heq
        exact hperiod (hdate ▸ heq.2)
    · show if _ then _ else pushForward tactic.key _ result history.recent tactic.key = _
      unfold pushForward
      rw [hdate]
      by_cases hforward : periodOf tactic day.tradeDate = .forward
      · rw [if_pos ⟨hday, hforward⟩]
        refine ⟨result, hkeeps, ?_⟩
        show (if _ then _ else _ : String → List TacticDigest) tactic.key = _
        rw [if_pos hforward, Function.update_self]
      · rw [if_neg (fun h => hforward h.2), if_neg hforward]
    · refine ⟨?_, ?_, rfl, rfl, rfl, rfl⟩
      · intro key hkey outcome period
        refine hframe _ ?_
        intro hmem
        obtain ⟨outcome', -, heq⟩ := List.mem_map.mp hmem
        simp only [Prod.mk.injEq] at heq
        exact hkey (by simp [heq.1])
      · intro key hkey
        have hne : key ≠ tactic.key := by simpa using hkey
        show pushForward tactic.key _ result history.recent key = _
        unfold pushForward
        split
        · exact Function.update_of_ne hne _ _
        · rfl

end TradingHarness
