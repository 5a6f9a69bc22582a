import TradingHarness.Tactics.Conditions

set_option autoImplicit false

/-! # Conditions that look back

An auction tactic may name a close condition of the session before as `prev.key`. The state it reads
should be the one the previous close row stores. The states are carried over for the keys of
`_close_conditions()` only, and a key that is not carried reads as false, so the ladder roles of the
registry are lost on the way. -/

namespace TradingHarness

/-! ## Keys that start with `prev.` -/

variable (row : AuctionRow) (value : Option Bool) (key : String)

theorem hasPrefix_prevKey : hasPrefix "prev." (prevKey key) = true := by
  unfold hasPrefix prevKey
  rw [String.toList_append, List.isPrefixOf_iff_prefix]
  exact List.prefix_append _ _

theorem prevKey_injective : Function.Injective prevKey := by
  intro a b h
  unfold prevKey at h
  have htext := congrArg String.toList h
  rw [String.toList_append, String.toList_append] at htext
  exact String.toList_inj.mp (List.append_cancel_left htext)

theorem not_hasPrefix_auction (h : key ∈ auctionConditions.map (·.key)) :
    hasPrefix "prev." key = false := by
  revert key
  decide

theorem prevKey_not_mem_ownKeys :
    prevKey key ∉ ownKeys row value := by
  intro h
  unfold ownKeys at h
  obtain ⟨c, hc, hkey⟩ := List.mem_map.mp h
  have hplain := not_hasPrefix_auction c.key
    (List.mem_map.mpr ⟨c, (List.mem_filter.mp hc).1, rfl⟩)
  rw [hkey, hasPrefix_prevKey] at hplain
  exact absurd hplain (by decide)

theorem prevKey_mem_iff :
    prevKey key ∈ ownKeys row value ++
        (closeConditionKeys.filter (fun k => decide (carried row.prev k = value))).map prevKey ↔
      key ∈ closeConditionKeys ∧ carried row.prev key = value := by
  rw [List.mem_append, List.mem_map_of_injective prevKey_injective, List.mem_filter]
  simp [prevKey_not_mem_ownKeys]

/-! ## The state that is read -/

theorem conditionValue_prevKey :
    conditionValue (prevKey key) (evaluateAuctionRow row).toTrialRow
      = if row.prev = none then none
        else if key ∈ closeConditionKeys then carried row.prev key
        else some false := by
  have hflags : prevKey key ∈ (evaluateAuctionRow row).flags ↔
      key ∈ closeConditionKeys ∧ carried row.prev key = some true :=
    prevKey_mem_iff row (some true) key
  have hunknown : prevKey key ∈ (evaluateAuctionRow row).unknown ↔
      key ∈ closeConditionKeys ∧ carried row.prev key = none :=
    prevKey_mem_iff row none key
  have hprev : (evaluateAuctionRow row).toTrialRow.hasPrev = row.prev.isSome := rfl
  unfold conditionValue stateOf
  rw [hprev]
  by_cases hnone : row.prev = none
  · simp [hnone, hasPrefix_prevKey]
  · have hsome : ¬ (hasPrefix "prev." (prevKey key) = true ∧ row.prev.isSome = false) := by
      intro h
      exact hnone (Option.isSome_eq_false_iff.mp h.2 |> Option.isNone_iff_eq_none.mp)
    rw [if_neg hsome, if_neg hnone]
    show (if prevKey key ∈ (evaluateAuctionRow row).flags then some true
      else if prevKey key ∈ (evaluateAuctionRow row).unknown then none else some false) = _
    simp only [hflags, hunknown]
    by_cases hkey : key ∈ closeConditionKeys
    · simp only [hkey, true_and, if_true]
      rcases carried row.prev key with _ | _ | _ <;> simp
    · simp [hkey]

/-! ## The state that is meant -/

/-- The state of a condition on the previous close row; unknown when there is no such row. -/
def lookBack (prev : Option PreviousRow) (key : String) : Option Bool :=
  match prev with
  | none => none
  | some previous => stateOf (previous.flags.getD []) (previous.unknown.getD []) key

/-- A tactic over close conditions, asked of the session before. -/
def Tactic.lookingBack (tactic : Tactic) : Tactic :=
  { tactic with
    allOf := tactic.allOf.map prevKey
    noneOf := tactic.noneOf.map prevKey
    atLeast := tactic.atLeast.map (fun a => (a.1, a.2.map prevKey)) }

/-- The tactic names stock conditions of the close slot only. -/
structure Tactic.OverClose (tactic : Tactic) : Prop where
  allOf : ∀ key ∈ tactic.allOf, key ∈ stockKeys .close
  noneOf : ∀ key ∈ tactic.noneOf, key ∈ stockKeys .close
  atLeast : ∀ minimum keys, tactic.atLeast = some (minimum, keys) →
    ∀ key ∈ keys, key ∈ stockKeys .close

/-- The verdict of a tactic that looks back is the tactic's verdict on the states of the keys
    without the prefix. -/
theorem verdict_lookingBack (tactic : Tactic) (state dayState : String → Option Bool) :
    verdict tactic.lookingBack state dayState
      = verdict tactic (fun key => state (prevKey key)) dayState := by
  unfold verdict Tactic.lookingBack
  simp only [List.map_map]
  rcases tactic.atLeast with _ | ⟨minimum, keys⟩
  · rfl
  · simp only [Option.map_some, List.map_map]
    rfl

/-- A previous row whose states survive the way into the auction row: it does not say it is
    incomplete, unless every close condition is unknown on it, and no ladder role is true or unknown
    on it. -/
structure CarriesAll (previous : PreviousRow) : Prop where
  complete : previous.complete.getD true = true ∨
    ∀ key ∈ closeConditionKeys,
      key ∉ previous.flags.getD [] ∧ key ∈ previous.unknown.getD []
  no_ladder : ∀ key ∈ ladderConditionKeys,
    key ∉ previous.flags.getD [] ∧ key ∉ previous.unknown.getD []

theorem stateOf_eq_none_iff (flags unknown : List String) (key : String) :
    stateOf flags unknown key = none ↔ key ∉ flags ∧ key ∈ unknown := by
  unfold stateOf
  by_cases hf : key ∈ flags <;> by_cases hu : key ∈ unknown <;> simp [hf, hu]

theorem stateOf_eq_false_iff (flags unknown : List String) (key : String) :
    stateOf flags unknown key = some false ↔ key ∉ flags ∧ key ∉ unknown := by
  unfold stateOf
  by_cases hf : key ∈ flags <;> by_cases hu : key ∈ unknown <;> simp [hf, hu]

theorem states_eq_lookBack_iff :
    (∀ key ∈ stockKeys .close,
        conditionValue (prevKey key) (evaluateAuctionRow row).toTrialRow
          = lookBack row.prev key) ↔
      ∀ previous, row.prev = some previous → CarriesAll previous := by
  simp only [conditionValue_prevKey, stockKeys_close, List.mem_append]
  rcases hprev : row.prev with _ | previous
  · simp [lookBack]
  · simp only [reduceCtorEq, if_false, Option.some.injEq, forall_eq', lookBack]
    constructor
    · intro hstates
      constructor
      · by_cases hcomplete : previous.complete.getD true = true
        · exact Or.inl hcomplete
        · right
          intro key hkey
          have hstate := hstates key (Or.inl hkey)
          rw [if_pos hkey] at hstate
          have hcarried : carried (some previous) key = none := by
            unfold carried
            exact if_pos (Bool.eq_false_iff.mpr hcomplete)
          rw [hcarried] at hstate
          exact (stateOf_eq_none_iff _ _ key).mp hstate.symm
      · intro key hkey
        have hclose : key ∉ closeConditionKeys :=
          fun h => closeConditionKeys_ladder key h hkey
        have hstate := hstates key (Or.inr hkey)
        rw [if_neg hclose] at hstate
        exact (stateOf_eq_false_iff _ _ key).mp hstate.symm
    · rintro ⟨hcomplete, hladder⟩ key hkey
      by_cases hclose : key ∈ closeConditionKeys
      · rw [if_pos hclose]
        show (if previous.complete.getD true = false then none else
          stateOf (previous.flags.getD []) (previous.unknown.getD []) key) = _
        by_cases hfalse : previous.complete.getD true = false
        · -- an incomplete row: every close condition is unknown on both sides
          rw [if_pos hfalse]
          rcases hcomplete with htrue | hunknown
          · rw [htrue] at hfalse
            exact absurd hfalse (by decide)
          · exact ((stateOf_eq_none_iff _ _ key).mpr (hunknown key hclose)).symm
        · rw [if_neg hfalse]
      · rw [if_neg hclose]
        have hin : key ∈ ladderConditionKeys := hkey.resolve_left hclose
        exact ((stateOf_eq_false_iff _ _ key).mpr (hladder key hin)).symm

/-- **Looking back.** Every state and every verdict that auction rows give about the previous close
    rows is the one those rows store, exactly when each previous row carries all of its states. -/
theorem look_back_iff (rows : List AuctionRow) :
    (∀ (i : ℕ) (row : AuctionRow), rows[i]? = some row →
      ∃ evaluated, (evaluateAuction rows).1[i]? = some evaluated ∧
        (∀ key ∈ stockKeys .close,
          conditionValue (prevKey key) evaluated.toTrialRow = lookBack row.prev key) ∧
        ∀ (tactic : Tactic) (day : DayStates), tactic.OverClose →
          evaluateTactic tactic.lookingBack evaluated.toTrialRow day
            = verdict tactic (lookBack row.prev)
                (dayConditionValue · evaluated.toTrialRow day)) ↔
      ∀ row ∈ rows, ∀ previous, row.prev = some previous → CarriesAll previous := by
  have hrow : ∀ (i : ℕ) (row : AuctionRow), rows[i]? = some row →
      (evaluateAuction rows).1[i]? = some (evaluateAuctionRow row) := by
    intro i row hi
    show (rows.map evaluateAuctionRow)[i]? = _
    rw [List.getElem?_map, hi]
    rfl
  constructor
  · intro hall row hmem
    obtain ⟨i, hi⟩ := List.getElem?_of_mem hmem
    obtain ⟨evaluated, hevaluated, hstates, -⟩ := hall i row hi
    rw [hrow i row hi, Option.some.injEq] at hevaluated
    subst hevaluated
    exact (states_eq_lookBack_iff row).mp hstates
  · intro hcarries i row hi
    have hstates := (states_eq_lookBack_iff row).mpr (hcarries row (List.mem_of_getElem? hi))
    refine ⟨evaluateAuctionRow row, hrow i row hi, hstates, ?_⟩
    intro tactic day hover
    unfold evaluateTactic
    have hday : tactic.lookingBack.dayConditions = tactic.dayConditions := rfl
    rw [verdict_lookingBack]
    refine verdict_congr tactic _ _ _ ?_ ?_ ?_
    · intro key hkey
      exact hstates key (hover.allOf key hkey)
    · intro key hkey
      exact hstates key (hover.noneOf key hkey)
    · intro minimum keys hat key hkey
      exact hstates key (hover.atLeast minimum keys hat key hkey)

/-- The registered combination of yesterday's tier winners. -/
def tierWinnerModerateGap : Tactic :=
  { key := "tier_winner_moderate_gap", slot := .auction
    allOf := ["prev.tier_first", "gap_0_to_5"], cell := [.boardBucket]
    entry := .buyOpen, exit := .gapRule, primary := .ret .buyOpen .gapRule }

/-- Yesterday's first seal of its tier, opening two percent up. -/
def tierFirstRow : AuctionRow :=
  { symbol := "000001.SZ", gap := some (2 / 100)
    prev := some { flags := some ["tier_first"], unknown := some [] } }

/-- The role is true on the close row, and the auction row reads it as false: the combination
    registered for these stocks rejects the row. -/
theorem look_back_tierFirst :
    lookBack tierFirstRow.prev "tier_first" = some true ∧
      conditionValue (prevKey "tier_first") (evaluateAuctionRow tierFirstRow).toTrialRow
        = some false ∧
      evaluateTactic tierWinnerModerateGap (evaluateAuctionRow tierFirstRow).toTrialRow
        { flags := [], unknown := [] } = some false := by
  decide +kernel

end TradingHarness
