import TradingHarness.Tactics.History

set_option autoImplicit false

/-! # Folding digests equals recomputing

The evening summary never sees the days again, only their stored digests. `Describes` says that a
history holds what running `day_result`, the sell sums, the sealing counts and the switch samples over
all days at once would give, and `foldDigests_describes` that folding the digests, however their keys
were reordered, reaches such a history. -/

namespace TradingHarness

/-- A set of tactics, told apart by their keys. -/
structure Registry where
  tactics : List Tactic
  distinct : (tactics.map (·.key)).Nodup

/-! ## The direct computation -/

/-- The days of a tactic's slot that belong to a period of its record. -/
def daysOf (tactic : Tactic) (period : Period) (days : List TrialDay) : List TrialDay :=
  days.filter (fun day =>
    decide (tactic.slot = day.slot ∧ periodOf tactic day.tradeDate = period))

/-- The series of one outcome over some days, from `day_result` on each of them. -/
def recomputed (tactic : Tactic) (outcome : OutcomeKey) (days : List TrialDay) : Series :=
  let scores := days.map (scoreOf tactic outcome)
  { daysWithPicks := scores.countP (fun score => decide (0 < score.picks))
    picks := (scores.map (·.picks)).sum
    pickMeans := (scores.filter (fun score => decide (0 < score.picks))).filterMap (·.pickMean)
    differences := scores.filterMap (·.difference) }

variable (slot : Slot) (days : List TrialDay)

/-- The days of a slot. -/
def slotDays : List TrialDay :=
  days.filter (fun day => decide (day.slot = slot))

/-- Every row of a slot's days with its outcomes. -/
def slotRows : List ScoredRow :=
  (slotDays slot days).flatMap TrialDay.scoredRows

/-- The sample a close day gives for a day condition. -/
def sampleOf (key : String) (day : TrialDay) : Option (Bool × ℚ) :=
  (heldMean day).bind (fun daily =>
    (stateOf day.day.flags day.day.unknown key).map (fun state => (state, daily)))

/-- A history that holds what the days, taken all at once, come to. -/
structure Describes (registry : Registry) (days : List TrialDay) (history : History) : Prop where
  series : ∀ tactic ∈ registry.tactics, ∀ outcome ∈ recordOutcomes tactic, ∀ period,
    history.series (tactic.key, outcome, period)
      = recomputed tactic outcome (daysOf tactic period days)
  recent : ∀ tactic ∈ registry.tactics, ∀ outcome ∈ recordOutcomes tactic,
    history.recentSeries tactic outcome
      = some (recomputed tactic outcome ((daysOf tactic .forward days).rtake recentDays))
  sell : ∀ slot path name, (history.sellTotals slot).read path name
    = (sellScopeSums slot (slotRows slot days)).read path name
  sealed : ∀ slot bucket, (history.sealed slot).dlookup bucket
    = (sealCounts (slotRows slot days)).dlookup bucket
  switch : ∀ key ∈ dayConditionKeys,
    history.switch key = (slotDays .close days).filterMap (sampleOf key)
  rows : ∀ slot, history.rows slot = (slotRows slot days).length

/-! ## One more day -/

variable (tactic : Tactic) (outcome : OutcomeKey) (period : Period) (days : List TrialDay) (day : TrialDay)
  (history history' : History)

theorem daysOf_concat :
    daysOf tactic period (days ++ [day])
      = if tactic.slot = day.slot ∧ periodOf tactic day.tradeDate = period then
          daysOf tactic period days ++ [day]
        else daysOf tactic period days := by
  unfold daysOf
  rw [List.filter_append]
  split
  · next h => simp [h]
  · next h => simp [List.filter_cons_of_neg, h]

theorem slotDays_concat (days : List TrialDay) (day : TrialDay) :
    slotDays slot (days ++ [day])
      = if day.slot = slot then slotDays slot days ++ [day] else slotDays slot days := by
  unfold slotDays
  rw [List.filter_append]
  split
  · next h => simp [h]
  · next h => simp [List.filter_cons_of_neg, h]

theorem slotRows_concat (days : List TrialDay) (day : TrialDay) :
    slotRows slot (days ++ [day])
      = if day.slot = slot then slotRows slot days ++ day.scoredRows else slotRows slot days := by
  unfold slotRows
  rw [slotDays_concat]
  split
  · simp
  · rfl

theorem recomputed_concat :
    recomputed tactic outcome (days ++ [day])
      = (recomputed tactic outcome days).add (scoreOf tactic outcome day).picks
          (scoreOf tactic outcome day).pickMean (scoreOf tactic outcome day).difference := by
  unfold recomputed Series.add
  by_cases hpicks : 0 < (scoreOf tactic outcome day).picks
  · rcases hm : (scoreOf tactic outcome day).pickMean with _ | m <;>
      rcases hd : (scoreOf tactic outcome day).difference with _ | d <;>
        simp [hpicks, hm, hd, List.filterMap_append]
  · rcases hd : (scoreOf tactic outcome day).difference with _ | d <;>
      simp [hpicks, hd, List.filterMap_append]

theorem filterMap_singleton {α β : Type} (f : α → Option β) (x : α) :
    [x].filterMap f = (f x).toList := by
  rcases h : f x with _ | y <;> simp [h]

theorem addSample_eq (key : String) (samples : List (Bool × ℚ)) (day : TrialDay) :
    addSample key samples
        { daily := heldMean day, flags := day.day.flags, unknown := day.day.unknown }
      = samples ++ (sampleOf key day).toList := by
  unfold addSample sampleOf stateOf
  rcases heldMean day with _ | daily
  · simp
  · by_cases hflags : key ∈ day.day.flags
    · simp [hflags]
    · by_cases hunknown : key ∈ day.day.unknown <;> simp [hflags, hunknown]

theorem addSwitch_day (tactics : List Tactic) (day : TrialDay)
    (samples : String → List (Bool × ℚ)) (key : String) (hkey : key ∈ dayConditionKeys) :
    addSwitch (dayDigest tactics day).switch samples key
      = if day.slot = .close then samples key ++ (sampleOf key day).toList else samples key := by
  unfold addSwitch dayDigest
  rcases hslot : day.slot with _ | _
  · rw [if_pos rfl]
    show (if key ∈ dayConditionKeys then _ else _) = _
    rw [if_pos hkey, addSample_eq]
  · rw [if_neg (by decide)]

/-! ## What a stored digest keeps -/

theorem scoreOf_pickMean :
    (scoreOf tactic outcome day).pickMean
      = (summary (picksOf tactic day.rows day.day) (comparisonsOf tactic day.rows day.day)
          day.outcomes outcome).pickMean := by
  have hscored := dayResult_outcome tactic day.rows day.day day.outcomes [] nodup_outcomeKeys
    outcome (mem_outcomeKeys outcome)
  show (List.dlookup outcome (dayResult tactic day.rows day.day day.outcomes []).outcomes).bind
    (·.pickMean) = _
  rw [hscored]
  rfl

theorem scoreOf_difference :
    (scoreOf tactic outcome day).difference
      = (summary (picksOf tactic day.rows day.day) (comparisonsOf tactic day.rows day.day)
          day.outcomes outcome).difference := by
  have hscored := dayResult_outcome tactic day.rows day.day day.outcomes [] nodup_outcomeKeys
    outcome (mem_outcomeKeys outcome)
  show (List.dlookup outcome (dayResult tactic day.rows day.day day.outcomes []).outcomes).bind
    (·.difference) = _
  rw [hscored]
  rfl

theorem tacticDigest_keeps (result : TacticDigest)
    (hpicks : result.picks = (tacticDigest tactic day).picks)
    (houtcomes : (tacticDigest tactic day).outcomes.Perm result.outcomes) :
    Keeps tactic day result := by
  have hkept : (tacticDigest tactic day).outcomes
      = Tables.entriesOf id (fun outcome =>
          ((scoreOf tactic outcome day).pickMean, (scoreOf tactic outcome day).difference))
          (recordOutcomes tactic) := by
    unfold tacticDigest dayResult
    rw [scoredKeys_recordOutcomes]
    simp only [Tables.entriesOf, List.map_map]
    refine List.map_congr_left ?_
    intro outcome _
    rw [scoreOf_pickMean, scoreOf_difference]
    rfl
  have hnodup : ((recordOutcomes tactic).map id).Nodup := by
    rw [List.map_id]
    exact nodup_recordOutcomes tactic
  refine ⟨fun outcome => hpicks, ?_⟩
  intro outcome hmem
  rw [hkept] at houtcomes
  rw [← List.perm_dlookup outcome (Tables.nodupKeys_entriesOf id _ _ hnodup) houtcomes]
  exact Tables.dlookup_entriesOf_of_mem id _ _ outcome hnodup hmem

variable (registry : Registry)

theorem stored_tactic (day : TrialDay) (stored : Digest)
    (hstored : (dayDigest registry.tactics day).RoundTrip stored) (tactic : Tactic)
    (hmem : tactic ∈ registry.tactics) (hslot : tactic.slot = day.slot) :
    ∃ result, stored.tactics.dlookup tactic.key = some result ∧ Keeps tactic day result := by
  have hnodup : ((registry.tactics.filter
      (fun tactic => decide (tactic.slot = day.slot))).map (·.key)).Nodup :=
    registry.distinct.sublist (List.filter_sublist.map _)
  have hin : tactic ∈ registry.tactics.filter (fun tactic => decide (tactic.slot = day.slot)) :=
    List.mem_filter.mpr ⟨hmem, decide_eq_true hslot⟩
  have hrel := Tables.dlookup_reordered _ tactic.key _ _
    (Tables.nodupKeys_entriesOf (·.key) (fun tactic => tacticDigest tactic day) _ hnodup)
    hstored.tactics
  rw [Tables.dlookup_entriesOf_of_mem (·.key) _ _ tactic hnodup hin] at hrel
  rcases hresult : stored.tactics.dlookup tactic.key with _ | result
  · simp [hresult] at hrel
  · rw [hresult, Option.rel_some_some] at hrel
    exact ⟨result, rfl, tacticDigest_keeps tactic day result hrel.1 hrel.2⟩

/-! ## The loop over the tactics -/

variable (keys keys' : List String) (a b c : History)

theorem SameBut.trans (hab : SameBut keys a b)
    (hbc : SameBut keys' b c) : SameBut (keys ++ keys') a c where
  series := by
    intro key hkey outcome period
    rw [List.mem_append, not_or] at hkey
    rw [hbc.series key hkey.2, hab.series key hkey.1]
  recent := by
    intro key hkey
    rw [List.mem_append, not_or] at hkey
    rw [hbc.recent key hkey.2, hab.recent key hkey.1]
  sell := hbc.sell.trans hab.sell
  sealed := hbc.sealed.trans hab.sealed
  switch := hbc.switch.trans hab.switch
  rows := hbc.rows.trans hab.rows

theorem TacticFolded.frame_right (hab : TacticFolded tactic day a b) (hbc : SameBut keys b c)
    (hkey : tactic.key ∉ keys) : TacticFolded tactic day a c where
  series := by
    intro outcome hmem period
    rw [hbc.series _ hkey]
    exact hab.series outcome hmem period
  recent := by
    rw [hbc.recent _ hkey]
    exact hab.recent

theorem TacticFolded.frame_left (hab : SameBut keys a b) (hbc : TacticFolded tactic day b c)
    (hkey : tactic.key ∉ keys) : TacticFolded tactic day a c where
  series := by
    intro outcome hmem period
    rw [← hab.series _ hkey]
    exact hbc.series outcome hmem period
  recent := by
    rw [← hab.recent _ hkey]
    exact hbc.recent

/-- The loop folds each tactic once and touches nothing else. -/
theorem addTactics_spec (digest : Digest) (day : TrialDay) (hslot : digest.slot = day.slot)
    (hdate : digest.tradeDate = day.tradeDate) (tactics : List Tactic)
    (hnodup : (tactics.map (·.key)).Nodup)
    (hkept : ∀ tactic ∈ tactics, tactic.slot = day.slot → ∃ result,
      digest.tactics.dlookup tactic.key = some result ∧ Keeps tactic day result)
    (history : History) :
    ∃ history', tactics.foldlM (History.addTactic digest) history = some history' ∧
      (∀ tactic ∈ tactics, TacticFolded tactic day history history') ∧
      SameBut (tactics.map (·.key)) history history' := by
  induction tactics generalizing history with
  | nil =>
      exact ⟨history, rfl, by simp, ⟨fun _ _ _ _ => rfl, fun _ _ => rfl, rfl, rfl, rfl, rfl⟩⟩
  | cons tactic rest ih =>
      rw [List.map_cons, List.nodup_cons] at hnodup
      obtain ⟨hnotMem, hrest⟩ := hnodup
      obtain ⟨middle, hfirst, hfolded, hsame⟩ := history.addTactic_spec digest day tactic hslot
        hdate (hkept tactic List.mem_cons_self)
      obtain ⟨history', hrun, hfolds, hsames⟩ := ih hrest
        (fun t ht => hkept t (List.mem_cons_of_mem _ ht)) middle
      refine ⟨history', ?_, ?_, ?_⟩
      · rw [List.foldlM_cons, hfirst]
        exact hrun
      · intro t ht
        rcases List.mem_cons.mp ht with heq | hmem
        · subst heq
          exact hfolded.frame_right t day _ _ _ _ hsames hnotMem
        · refine (hfolds t hmem).frame_left t day [tactic.key] _ _ _ hsame ?_
          intro hkey
          rw [List.mem_singleton] at hkey
          exact hnotMem (List.mem_map.mpr ⟨t, hmem, hkey⟩)
      · exact SameBut.trans [tactic.key] (rest.map (·.key)) _ _ _ hsame hsames

/-! ## Folding -/

/-- A running sell total: nothing before the slot's first day, and then the sums of its rows. -/
def SellFolded (days : List TrialDay) (total : SellTotals) : Prop :=
  (slotDays slot days = [] ∧ total = Tally.empty) ∨
    (slotDays slot days ≠ [] ∧ ∀ path name,
      total.read path name = (sellScopeSums slot (slotRows slot days)).read path name)

/-- The invariant of the fold. -/
structure Folded (registry : Registry) (days : List TrialDay) (history : History) : Prop where
  series : ∀ tactic ∈ registry.tactics, ∀ outcome ∈ recordOutcomes tactic, ∀ period,
    history.series (tactic.key, outcome, period)
      = recomputed tactic outcome (daysOf tactic period days)
  recent : ∀ tactic ∈ registry.tactics, List.Forall₂ (Keeps tactic)
    ((daysOf tactic .forward days).rtake recentDays) (history.recent tactic.key)
  sell : ∀ slot, SellFolded slot days (history.sell slot)
  sealed : ∀ slot bucket, (history.sealed slot).dlookup bucket
    = (sealCounts (slotRows slot days)).dlookup bucket
  switch : ∀ key ∈ dayConditionKeys,
    history.switch key = (slotDays .close days).filterMap (sampleOf key)
  rows : ∀ slot, history.rows slot = (slotRows slot days).length

theorem folded_empty : Folded registry [] History.empty where
  series := fun _ _ _ _ _ => rfl
  recent := fun _ _ => List.Forall₂.nil
  sell := fun _ => Or.inl ⟨rfl, rfl⟩
  sealed := fun _ _ => rfl
  switch := fun _ _ => rfl
  rows := fun _ => rfl

theorem pushBounded_rtake {α : Type} (bound : ℕ) (items : List α) (item : α) :
    pushBounded bound (items.rtake bound) item = (items ++ [item]).rtake bound := by
  unfold pushBounded
  simp only [List.rtake_eq_reverse_take_reverse, List.reverse_append, List.reverse_reverse,
    List.reverse_cons, List.reverse_nil, List.nil_append, List.singleton_append]
  rcases bound with _ | bound
  · simp
  · simp only [List.take_succ_cons, List.take_take]
    rw [Nat.min_eq_left (Nat.le_succ bound)]

theorem forall₂_pushBounded {α β : Type} {R : α → β → Prop} (bound : ℕ) (xs : List α) (ys : List β)
    (x : α) (y : β) (hall : List.Forall₂ R xs ys) (hlast : R x y) :
    List.Forall₂ R (pushBounded bound xs x) (pushBounded bound ys y) := by
  have happend : List.Forall₂ R (xs ++ [x]) (ys ++ [y]) :=
    List.rel_append hall (List.Forall₂.cons hlast List.Forall₂.nil)
  unfold pushBounded List.rtake
  rw [happend.length_eq]
  exact List.forall₂_drop _ happend

theorem sellFolded_step (days : List TrialDay) (day : TrialDay)
    (total part : SellTotals) (hslot : day.slot = slot) (hfolded : SellFolded slot days total)
    (hdistinct : part.Distinct)
    (hpart : ∀ path name,
      part.read path name = (sellScopeSums slot day.scoredRows).read path name) :
    SellFolded slot (days ++ [day]) (total.add part) := by
  right
  refine ⟨by rw [slotDays_concat, if_pos hslot]; simp, ?_⟩
  intro path name
  rw [slotRows_concat, if_pos hslot, Tally.read_add _ _ hdistinct, hpart]
  rcases hfolded with ⟨hnone, hempty⟩ | ⟨-, hreads⟩
  · have hrows : slotRows slot days = [] := by
      unfold slotRows
      rw [hnone]
      rfl
    rw [hempty, Tally.read_empty, hrows, Option.merge_none_left, List.nil_append]
  · rw [hreads, sellScopeSums_append slot _ _ path name]

theorem series_step (hmem : outcome ∈ recordOutcomes tactic)
    (hseries : history.series (tactic.key, outcome, period)
      = recomputed tactic outcome (daysOf tactic period days))
    (hday : TacticFolded tactic day history history') :
    history'.series (tactic.key, outcome, period)
      = recomputed tactic outcome (daysOf tactic period (days ++ [day])) := by
  rw [hday.series outcome hmem period, daysOf_concat]
  split
  · rw [recomputed_concat, hseries]
  · exact hseries

theorem recent_step (hrecent : List.Forall₂ (Keeps tactic) ((daysOf tactic .forward days).rtake recentDays)
      (history.recent tactic.key))
    (hday : TacticFolded tactic day history history') :
    List.Forall₂ (Keeps tactic) ((daysOf tactic .forward (days ++ [day])).rtake recentDays)
      (history'.recent tactic.key) := by
  have hfolded := hday.recent
  rw [daysOf_concat]
  split at hfolded
  · next hforward =>
      obtain ⟨result, hkeeps, hpushed⟩ := hfolded
      rw [if_pos hforward, hpushed, ← pushBounded_rtake]
      exact forall₂_pushBounded recentDays _ _ day result hrecent hkeeps
  · next hother =>
      rw [if_neg hother, hfolded]
      exact hrecent

theorem folded_step (days : List TrialDay) (day : TrialDay) (stored : Digest)
    (history : History) (hfolded : Folded registry days history)
    (hstored : (dayDigest registry.tactics day).RoundTrip stored) :
    ∃ history', history.add registry.tactics stored = some history' ∧
      Folded registry (days ++ [day]) history' := by
  have hslot : stored.slot = day.slot := hstored.slot
  obtain ⟨scored, hrun, htactics, hsame⟩ := addTactics_spec stored day hslot hstored.tradeDate
    registry.tactics registry.distinct
    (fun tactic hmem hday => stored_tactic registry day stored hstored tactic hmem hday)
    (history.addRows stored)
  have hdistinct : stored.sell.Distinct :=
    (sellScopeSums_distinct day.slot day.scoredRows).reordered hstored.sell
  have hpart : ∀ path name, stored.sell.read path name
      = (sellScopeSums day.slot day.scoredRows).read path name :=
    Tally.read_reordered _ _ (sellScopeSums_distinct day.slot day.scoredRows) hstored.sell
  have hsealed : ∀ bucket, (Tables.accumulate [] stored.sealed).dlookup bucket
      = (sealCounts day.scoredRows).dlookup bucket := by
    intro bucket
    have hnodup : (sealCounts day.scoredRows).NodupKeys := sealCounts_nodupKeys _
    rw [Tables.dlookup_accumulate_nil bucket _ ((List.perm_nodupKeys hstored.sealed).mp hnodup)]
    exact (List.perm_dlookup bucket hnodup hstored.sealed).symm
  refine ⟨_, by unfold History.add; rw [hrun]; rfl, ?_, ?_, ?_, ?_, ?_, ?_⟩
  · intro tactic hmem outcome houtcome period
    exact series_step tactic outcome period days day (history.addRows stored) scored houtcome
      (hfolded.series tactic hmem outcome houtcome period) (htactics tactic hmem)
  · intro tactic hmem
    exact recent_step tactic days day (history.addRows stored) scored
      (hfolded.recent tactic hmem) (htactics tactic hmem)
  · intro slot
    show SellFolded slot _ (Function.update scored.sell stored.slot _ slot)
    rw [hslot, hsame.sell]
    by_cases hday : slot = day.slot
    · subst hday
      rw [Function.update_self]
      exact sellFolded_step _ days day _ _ rfl (hfolded.sell _) hdistinct hpart
    · rw [Function.update_of_ne hday]
      unfold SellFolded
      rw [slotRows_concat, slotDays_concat, if_neg (Ne.symm hday), if_neg (Ne.symm hday)]
      exact hfolded.sell slot
  · intro slot bucket
    show (Function.update scored.sealed stored.slot _ slot).dlookup bucket = _
    rw [hslot, hsame.sealed, slotRows_concat]
    by_cases hday : slot = day.slot
    · subst hday
      rw [Function.update_self, if_pos rfl, Tables.dlookup_accumulate, sealCounts_append, hsealed]
      exact congrArg₂ _ (hfolded.sealed _ bucket) rfl
    · rw [Function.update_of_ne hday, if_neg (Ne.symm hday)]
      exact hfolded.sealed slot bucket
  · intro key hkey
    show addSwitch stored.switch scored.switch key = _
    rw [hstored.switch, hsame.switch, addSwitch_day registry.tactics day _ key hkey,
      slotDays_concat]
    split
    · rw [List.filterMap_append, filterMap_singleton]
      exact congrArg₂ _ (hfolded.switch key hkey) rfl
    · exact hfolded.switch key hkey
  · intro slot
    show scored.rows slot = _
    rw [hsame.rows]
    show Function.update history.rows stored.slot _ slot = _
    rw [hslot, slotRows_concat]
    by_cases hday : slot = day.slot
    · subst hday
      rw [Function.update_self, if_pos rfl, List.length_append, hfolded.rows, hstored.rows]
      exact congrArg _ (List.length_map _).symm
    · rw [Function.update_of_ne hday, if_neg (Ne.symm hday)]
      exact hfolded.rows slot

/-- Folding the digests of further days keeps the invariant. -/
theorem folded_run (days later : List TrialDay) (stored : List Digest)
    (history : History) (hfolded : Folded registry days history)
    (hstored : List.Forall₂ (fun day digest => (dayDigest registry.tactics day).RoundTrip digest)
      later stored) :
    ∃ history', stored.foldlM (History.add registry.tactics) history = some history' ∧
      Folded registry (days ++ later) history' := by
  induction hstored generalizing days history with
  | nil => exact ⟨history, rfl, by rwa [List.append_nil]⟩
  | @cons day digest later stored hday _ ih =>
      obtain ⟨middle, hadd, hmiddle⟩ := folded_step registry days day digest history hfolded hday
      obtain ⟨history', hrun, hresult⟩ := ih (days ++ [day]) middle hmiddle
      refine ⟨history', ?_, ?_⟩
      · rw [List.foldlM_cons, hadd]
        exact hrun
      · rwa [List.append_assoc] at hresult

/-! ## Reading the folded history -/

theorem recentSeries_eq (hmem : outcome ∈ recordOutcomes tactic) (days : List TrialDay) (history : History)
    (hrecent : List.Forall₂ (Keeps tactic) days (history.recent tactic.key)) :
    history.recentSeries tactic outcome = some (recomputed tactic outcome days) := by
  unfold History.recentSeries
  -- from the series of any days before, so that the first day can be moved to them
  suffices h : ∀ before : List TrialDay, (history.recent tactic.key).foldlM
      (fun series result => do
        let pair ← result.outcomes.dlookup outcome
        return series.add result.picks pair.1 pair.2)
      (recomputed tactic outcome before) = some (recomputed tactic outcome (before ++ days)) from
    h []
  generalize history.recent tactic.key = results at hrecent
  induction hrecent with
  | nil =>
      intro before
      rw [List.append_nil]
      rfl
  | @cons day result days results hkeeps _ ih =>
      intro before
      rw [List.foldlM_cons, hkeeps.outcomes outcome hmem, hkeeps.picks outcome]
      have hrest := ih (before ++ [day])
      rw [recomputed_concat, List.append_assoc] at hrest
      exact hrest

theorem sellTotals_read (days : List TrialDay) (history : History)
    (hfolded : SellFolded slot days (history.sell slot)) (path : List String) (name : TotalKey) :
    (history.sellTotals slot).read path name
      = (sellScopeSums slot (slotRows slot days)).read path name := by
  unfold History.sellTotals
  rcases hfolded with ⟨hnone, hempty⟩ | ⟨-, hreads⟩
  · have hrows : slotRows slot days = [] := by
      unfold slotRows
      rw [hnone]
      rfl
    rw [hempty, hrows]
    rfl
  · split
    · next hsell =>
        -- a slot with a day has the group of all its rows
        have hall := hreads ["all"] .rows
        have hrows : (sellScopeSums slot (slotRows slot days)).read ["all"] .rows
            = some ((slotRows slot days).length : ℚ) := rfl
        rw [hsell, hrows] at hall
        exact absurd hall (by simp [Tally.read])
    · exact hreads path name

theorem Folded.describes (days : List TrialDay) (history : History)
    (hfolded : Folded registry days history) : Describes registry days history where
  series := hfolded.series
  recent := fun tactic hmem outcome houtcome =>
    recentSeries_eq tactic outcome houtcome _ history (hfolded.recent tactic hmem)
  sell := fun slot => sellTotals_read slot days history (hfolded.sell slot)
  sealed := hfolded.sealed
  switch := hfolded.switch
  rows := hfolded.rows

/-- **Folding equals recomputing.** Folding the stored digests of any days of both slots, oldest
    first, never fails, and gives the history the days themselves describe. -/
theorem foldDigests_describes (registry : Registry) (days : List TrialDay) (stored : List Digest)
    (hstored : List.Forall₂ (fun day digest => (dayDigest registry.tactics day).RoundTrip digest)
      days stored) :
    ∃ history, foldDigests registry.tactics stored = some history ∧
      Describes registry days history := by
  obtain ⟨history, hrun, hfolded⟩ :=
    folded_run registry [] days stored History.empty (folded_empty registry) hstored
  exact ⟨history, hrun, hfolded.describes⟩

/-- A digest with the keys of its tables turned around. -/
def Digest.reversed (digest : Digest) : Digest :=
  { digest with
    tactics := digest.tactics.reverse.map
      (fun entry => ⟨entry.1, { entry.2 with outcomes := entry.2.outcomes.reverse }⟩)
    sell := .mk digest.sell.numbers.reverse digest.sell.groups.reverse
    sealed := digest.sealed.reverse }

theorem Digest.roundTrip_reversed (digest : Digest) : digest.RoundTrip digest.reversed where
  tradeDate := rfl
  slot := rfl
  rows := rfl
  resolved := rfl
  tactics := by
    refine ⟨digest.tactics.reverse, (List.reverse_perm _).symm, ?_, ?_⟩
    · unfold Digest.reversed List.keys
      rw [List.map_map]
      rfl
    · unfold Digest.reversed
      rw [List.map_map, List.forall₂_map_left_iff, List.forall₂_map_right_iff]
      exact List.forall₂_same.mpr (fun entry _ => ⟨rfl, (List.reverse_perm _).symm⟩)
  sell := by
    unfold Digest.reversed
    rcases digest.sell with ⟨numbers, groups⟩
    exact Tally.Reordered.mk (List.reverse_perm _).symm (List.reverse_perm _).symm rfl
      (Tally.forall₂_reordered_refl _)
  sealed := (List.reverse_perm _).symm
  switch := rfl

/-- The condition of a stock that was the first of its tier to seal, as a tactic of its own. -/
def onlyTierFirst : Tactic :=
  { key := "only.tier_first", slot := .close, allOf := ["tier_first"], cell := [.boardBucket]
    entry := .held, exit := .sellClose, primary := .ret .held .sellClose }

/-- A registered combination over second and third boards. -/
def relayTwoThree : Tactic :=
  { key := "relay_2_3", slot := .close, allOf := ["board_2_3", "theme_7plus"]
    noneOf := ["seal_small", "volume_heavy"], cell := [.boardBucket]
    entry := .buyOpen, exit := .gapRule, primary := .sealAgain }

/-- A close day with two second boards, the first of which sealed first. -/
def tierDay : TrialDay where
  tradeDate := 20740
  slot := .close
  rows :=
    [{ symbol := "000001.SZ", boardBucket := some .two, gapBucket := none, hasPrev := false
       flags := ["tier_first"], unknown := [] },
      { symbol := "000002.SZ", boardBucket := some .two, gapBucket := none, hasPrev := false
        flags := [], unknown := [] }]
  outcomes := fun _ => none

theorem foldDigests_describes_tierDay :
    ∃ history, foldDigests [onlyTierFirst, relayTwoThree]
        [(dayDigest [onlyTierFirst, relayTwoThree] tierDay).reversed] = some history ∧
      Describes ⟨[onlyTierFirst, relayTwoThree], by decide⟩ [tierDay] history :=
  foldDigests_describes ⟨[onlyTierFirst, relayTwoThree], by decide⟩ [tierDay] _
    (List.Forall₂.cons (Digest.roundTrip_reversed _) List.Forall₂.nil)

end TradingHarness
