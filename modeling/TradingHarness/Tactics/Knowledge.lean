import TradingHarness.Tactics.Tactic
import Mathlib.Data.List.Nodup

set_option autoImplicit false

/-! # Verdicts and knowledge

A verdict of `evaluate_tactic` stays when more of a row becomes known, and it is unknown only where the unknown keys could decide it
either way. -/

namespace TradingHarness

/-! ## Connectives -/

variable {values : List (Option Bool)}

theorem combine_eq_true_iff : combine values = some true ↔ ∀ value ∈ values, value = some true := by
  unfold combine
  by_cases hfalse : some false ∈ values
  · rw [if_pos hfalse]
    refine ⟨fun h => absurd h (by decide), fun h => absurd (h _ hfalse) (by decide)⟩
  · by_cases hnone : none ∈ values
    · rw [if_neg hfalse, if_pos hnone]
      exact ⟨fun h => absurd h (by decide), fun h => absurd (h _ hnone) (by decide)⟩
    · rw [if_neg hfalse, if_neg hnone]
      refine ⟨fun _ value hvalue => ?_, fun _ => rfl⟩
      rcases value with _ | _ | _
      · exact absurd hvalue hnone
      · exact absurd hvalue hfalse
      · rfl

theorem combine_eq_false_iff : combine values = some false ↔ some false ∈ values := by
  unfold combine
  split
  · simp_all
  · split <;> simp_all

theorem noneOfValue_eq_true_iff : noneOfValue values = some true ↔ ∀ value ∈ values, value = some false := by
  unfold noneOfValue
  by_cases htrue : some true ∈ values
  · rw [if_pos htrue]
    exact ⟨fun h => absurd h (by decide), fun h => absurd (h _ htrue) (by decide)⟩
  · by_cases hnone : none ∈ values
    · rw [if_neg htrue, if_pos hnone]
      exact ⟨fun h => absurd h (by decide), fun h => absurd (h _ hnone) (by decide)⟩
    · rw [if_neg htrue, if_neg hnone]
      refine ⟨fun _ value hvalue => ?_, fun _ => rfl⟩
      rcases value with _ | _ | _
      · exact absurd hvalue hnone
      · rfl
      · exact absurd hvalue htrue

theorem noneOfValue_eq_false_iff : noneOfValue values = some false ↔ some true ∈ values := by
  unfold noneOfValue
  split
  · simp_all
  · split <;> simp_all

theorem atLeastValue_eq_true_iff {minimum : ℕ} {states : List (Option Bool)} :
    atLeastValue minimum states = some true ↔ minimum ≤ states.count (some true) := by
  unfold atLeastValue
  split
  · simp_all
  · split <;> simp_all

theorem atLeastValue_eq_false_iff {minimum : ℕ} {states : List (Option Bool)} :
    atLeastValue minimum states = some false ↔ states.count (some true) + states.count none < minimum := by
  unfold atLeastValue
  split
  · simp only [Option.some.injEq, Bool.true_eq_false, false_iff, not_lt]
    omega
  · split <;> simp_all

theorem count_states (states : List (Option Bool)) :
    states.count (some true) + states.count none + states.count (some false) = states.length := by
  induction states with
  | nil => rfl
  | cons state rest ih =>
      rcases state with _ | _ | _ <;> simp only [List.count_cons, List.length_cons, beq_iff_eq, reduceCtorEq, if_false, if_true,
        Option.some.injEq, Bool.false_eq_true, Bool.true_eq_false] <;> omega

/-! ## Knowing more -/

/-- What is known stays. -/
def Learns (state known : String → Option Bool) : Prop := ∀ key value, state key = some value → known key = some value

section Learning

variable {state known dayState dayKnown : String → Option Bool}

theorem Learns.count_le (h : Learns state known) (keys : List String) (value : Bool) :
    (keys.map state).count (some value) ≤ (keys.map known).count (some value) := by
  induction keys with
  | nil => exact le_refl _
  | cons key rest ih =>
      rw [List.map_cons, List.map_cons, List.count_cons, List.count_cons]
      by_cases hkey : state key = some value
      · simp [hkey, h key value hkey, ih]
      · simp only [beq_iff_eq, hkey, if_false]
        omega

theorem Learns.atLeastValue (h : Learns state known) (minimum : ℕ) (keys : List String) {value : Bool}
    (hvalue : atLeastValue minimum (keys.map state) = some value) : atLeastValue minimum (keys.map known) = some value := by
  cases value with
  | true =>
      rw [atLeastValue_eq_true_iff] at hvalue ⊢
      exact hvalue.trans (h.count_le keys true)
  | false =>
      rw [atLeastValue_eq_false_iff] at hvalue ⊢
      have hstates := count_states (keys.map state)
      have hknown := count_states (keys.map known)
      have hfalse := h.count_le keys false
      rw [List.length_map] at hstates hknown
      omega

/-- The state of the threshold. -/
def Tactic.threshold (tactic : Tactic) (state : String → Option Bool) : Option Bool :=
  match tactic.atLeast with
  | none => some true
  | some (minimum, keys) => TradingHarness.atLeastValue minimum (keys.map state)

theorem verdict_eq_true_iff (tactic : Tactic) : verdict tactic state dayState = some true ↔
    (∀ key ∈ tactic.allOf, state key = some true) ∧ (∀ key ∈ tactic.noneOf, state key = some false) ∧
      tactic.threshold state = some true ∧ ∀ key ∈ tactic.dayConditions, dayState key = some true := by
  unfold verdict
  rw [combine_eq_true_iff]
  have hnone : TradingHarness.noneOfValue (tactic.noneOf.map state) = some true ↔ ∀ key ∈ tactic.noneOf, state key = some false := by
    rw [noneOfValue_eq_true_iff]
    simp
  constructor
  · intro hall
    refine ⟨fun key hkey => hall _ ?_, hnone.mp (hall _ ?_), hall _ ?_, fun key hkey => hall _ ?_⟩
    · exact List.mem_append_left _ (List.mem_append_left _ (List.mem_map_of_mem hkey))
    · exact List.mem_append_left _ (List.mem_append_right _ List.mem_cons_self)
    · exact List.mem_append_left _ (List.mem_append_right _ (List.mem_cons_of_mem _ (List.mem_singleton_self _)))
    · exact List.mem_append_right _ (List.mem_map_of_mem hkey)
  · rintro ⟨hall, hnot, hleast, hday⟩ value hvalue
    rcases List.mem_append.mp hvalue with hstock | hdays
    · rcases List.mem_append.mp hstock with hmem | hmem
      · obtain ⟨key, hkey, rfl⟩ := List.mem_map.mp hmem
        exact hall key hkey
      · rcases List.mem_cons.mp hmem with rfl | hmem
        · exact hnone.mpr hnot
        · rw [List.mem_singleton.mp hmem]
          exact hleast
    · obtain ⟨key, hkey, rfl⟩ := List.mem_map.mp hdays
      exact hday key hkey

theorem verdict_eq_false_iff (tactic : Tactic) : verdict tactic state dayState = some false ↔
    (∃ key ∈ tactic.allOf, state key = some false) ∨ (∃ key ∈ tactic.noneOf, state key = some true) ∨
      tactic.threshold state = some false ∨ ∃ key ∈ tactic.dayConditions, dayState key = some false := by
  have hnone : some false = TradingHarness.noneOfValue (tactic.noneOf.map state) ↔ ∃ key ∈ tactic.noneOf, state key = some true := by
    rw [eq_comm, noneOfValue_eq_false_iff]
    simp
  unfold verdict
  rw [combine_eq_false_iff, List.mem_append, List.mem_append, List.mem_cons, List.mem_singleton, hnone, or_assoc, or_assoc]
  have hthreshold : (some false = match tactic.atLeast with
      | none => some true
      | some (minimum, keys) => TradingHarness.atLeastValue minimum (keys.map state)) ↔ tactic.threshold state = some false := eq_comm
  simp only [List.mem_map]
  exact or_congr Iff.rfl (or_congr Iff.rfl (or_congr hthreshold Iff.rfl))

theorem Learns.threshold (h : Learns state known) (tactic : Tactic) {value : Bool} (hvalue : tactic.threshold state = some value) :
    tactic.threshold known = some value := by
  unfold Tactic.threshold at hvalue ⊢
  rcases hleast : tactic.atLeast with _ | ⟨minimum, keys⟩
  · rwa [hleast] at hvalue
  · rw [hleast] at hvalue
    exact h.atLeastValue minimum keys hvalue

theorem verdict_mono (tactic : Tactic) (h : Learns state known) (hday : Learns dayState dayKnown) {value : Bool}
    (hvalue : verdict tactic state dayState = some value) : verdict tactic known dayKnown = some value := by
  cases value with
  | true =>
      rw [verdict_eq_true_iff] at hvalue ⊢
      obtain ⟨hall, hnot, hleast, hdays⟩ := hvalue
      exact ⟨fun key hkey => h key true (hall key hkey), fun key hkey => h key false (hnot key hkey), h.threshold tactic hleast,
        fun key hkey => hday key true (hdays key hkey)⟩
  | false =>
      rw [verdict_eq_false_iff] at hvalue ⊢
      rcases hvalue with ⟨key, hkey, hfalse⟩ | ⟨key, hkey, htrue⟩ | hleast | ⟨key, hkey, hfalse⟩
      · exact .inl ⟨key, hkey, h key false hfalse⟩
      · exact .inr (.inl ⟨key, hkey, h key true htrue⟩)
      · exact .inr (.inr (.inl (h.threshold tactic hleast)))
      · exact .inr (.inr (.inr ⟨key, hkey, hday key false hfalse⟩))

end Learning

/-! ## Resolutions of the unknown keys -/

/-- The keys of a tactic, by scope. -/
def Tactic.namedKeys (tactic : Tactic) : List String := tactic.allOf ++ tactic.noneOf ++ (tactic.atLeast.elim [] Prod.snd)

def Tactic.keys (tactic : Tactic) : List String := tactic.namedKeys ++ tactic.dayConditions

/-- The unknown keys at given values. -/
def resolve (state : String → Option Bool) (choice : String → Bool) (key : String) : Option Bool := some ((state key).getD (choice key))

variable {choice : String → Bool}

section Resolving

variable {state dayState : String → Option Bool}

theorem resolve_of_ne {key : String} {value : Bool} (hne : state key ≠ some (!value)) (hchoice : choice key = value) :
    resolve state choice key = some value := by
  rcases hstate : state key with _ | known
  · rw [resolve, hstate, Option.getD_none, hchoice]
  · rw [resolve, hstate, Option.getD_some]
    cases known <;> cases value <;> simp_all

theorem count_resolve (state : String → Option Bool) (keys : List String) {value : Bool} (hchoice : ∀ key ∈ keys, choice key = value) :
    (keys.map (resolve state choice)).count (some value) = (keys.map state).count (some value) + (keys.map state).count none := by
  induction keys with
  | nil => rfl
  | cons key rest ih =>
      have hrest := ih fun other hother => hchoice other (List.mem_cons_of_mem key hother)
      have hkey := hchoice key List.mem_cons_self
      rw [List.map_cons, List.map_cons, List.count_cons, List.count_cons, List.count_cons, hrest]
      rcases hstate : state key with _ | known
      · simp [resolve, hstate, hkey]
        omega
      · simp [resolve, hstate]
        omega

theorem threshold_resolve_true (tactic : Tactic)
    (hchoice : ∀ key ∈ tactic.atLeast.elim [] Prod.snd, choice key = true) (hne : tactic.threshold state ≠ some false) :
    tactic.threshold (resolve state choice) = some true := by
  unfold Tactic.threshold at hne ⊢
  rcases hleast : tactic.atLeast with _ | ⟨minimum, keys⟩
  · rfl
  · rw [hleast] at hne hchoice
    dsimp only at hne ⊢
    rw [Ne, atLeastValue_eq_false_iff, not_lt] at hne
    rw [atLeastValue_eq_true_iff, count_resolve state keys hchoice]
    exact hne

theorem none_not_mem_resolve (keys : List String) (choice : String → Bool) : none ∉ keys.map (resolve state choice) := by
  intro hmem
  obtain ⟨key, -, hnone⟩ := List.mem_map.mp hmem
  exact absurd hnone (by simp [resolve])

theorem threshold_resolve_false (tactic : Tactic) (hchoice : ∀ key, choice key = false)
    (hnone : tactic.threshold state = none) : tactic.threshold (resolve state choice) = some false := by
  unfold Tactic.threshold at hnone ⊢
  rcases hleast : tactic.atLeast with _ | ⟨minimum, keys⟩
  · rw [hleast] at hnone
    exact absurd hnone (by simp)
  · rw [hleast] at hnone
    dsimp only at hnone ⊢
    have hbelow : ¬minimum ≤ (keys.map state).count (some true) := by
      intro hle
      rw [atLeastValue_eq_true_iff.mpr hle] at hnone
      exact absurd hnone (by simp)
    -- the unknown ones all count as false
    have hfalse := count_resolve state keys fun key _ => hchoice key
    have hresolved := count_states (keys.map (resolve state choice))
    have hstates := count_states (keys.map state)
    rw [List.count_eq_zero.mpr (none_not_mem_resolve keys choice), List.length_map] at hresolved
    rw [List.length_map] at hstates
    rw [atLeastValue_eq_false_iff, List.count_eq_zero.mpr (none_not_mem_resolve keys choice)]
    omega

theorem not_mem_of_nodup {first second : List String} (h : (first ++ second).Nodup) {key : String} (hkey : key ∈ second) : key ∉ first :=
  fun hmem => (List.disjoint_of_nodup_append h) hmem hkey

theorem exists_resolve_true (tactic : Tactic) (hnodup : tactic.keys.Nodup) (hne : verdict tactic state dayState ≠ some false) :
    ∃ choice dayChoice, verdict tactic (resolve state choice) (resolve dayState dayChoice) = some true := by
  rw [Ne, verdict_eq_false_iff, not_or, not_or, not_or] at hne
  obtain ⟨hall, hnot, hleast, hdays⟩ := hne
  have hstock : (tactic.allOf ++ tactic.noneOf ++ (tactic.atLeast.elim [] Prod.snd)).Nodup := hnodup.of_append_left
  refine ⟨fun key => decide (key ∉ tactic.noneOf), fun _ => true, ?_⟩
  rw [verdict_eq_true_iff]
  refine ⟨?_, ?_, ?_, ?_⟩
  · intro key hkey
    refine resolve_of_ne (fun hfalse => hall ⟨key, hkey, hfalse⟩) (decide_eq_true fun hmem => ?_)
    exact not_mem_of_nodup hstock.of_append_left hmem hkey
  · intro key hkey
    exact resolve_of_ne (fun htrue => hnot ⟨key, hkey, htrue⟩) (decide_eq_false (not_not.mpr hkey))
  · refine threshold_resolve_true tactic (fun key hkey => decide_eq_true fun hmem => ?_) hleast
    exact not_mem_of_nodup hstock hkey (List.mem_append_right _ hmem)
  · intro key hkey
    exact resolve_of_ne (fun hfalse => hdays ⟨key, hkey, hfalse⟩) rfl

theorem exists_resolve_false (tactic : Tactic) (hnone : verdict tactic state dayState = none) :
    ∃ choice dayChoice, verdict tactic (resolve state choice) (resolve dayState dayChoice) = some false := by
  by_cases hexcluded : ∃ key ∈ tactic.noneOf, state key = none
  · obtain ⟨key, hkey, hunknown⟩ := hexcluded
    refine ⟨fun _ => true, fun _ => true, (verdict_eq_false_iff tactic).mpr (.inr (.inl ⟨key, hkey, ?_⟩))⟩
    simp [resolve, hunknown]
  · refine ⟨fun _ => false, fun _ => false, (verdict_eq_false_iff tactic).mpr ?_⟩
    have hnotTrue : verdict tactic state dayState ≠ some true := by simp [hnone]
    have hnotFalse : verdict tactic state dayState ≠ some false := by simp [hnone]
    rw [Ne, verdict_eq_false_iff, not_or, not_or, not_or] at hnotFalse
    obtain ⟨hall, hnot, hleast, hdays⟩ := hnotFalse
    by_contra hfalse
    rw [not_or, not_or, not_or] at hfalse
    obtain ⟨hallKept, -, hleastKept, hdaysKept⟩ := hfalse
    refine hnotTrue ((verdict_eq_true_iff tactic).mpr ⟨?_, ?_, ?_, ?_⟩)
    · intro key hkey
      rcases hstate : state key with _ | _ | _
      · exact absurd ⟨key, hkey, by simp [resolve, hstate]⟩ hallKept
      · exact absurd ⟨key, hkey, hstate⟩ hall
      · rfl
    · intro key hkey
      rcases hstate : state key with _ | _ | _
      · exact absurd ⟨key, hkey, hstate⟩ hexcluded
      · rfl
      · exact absurd ⟨key, hkey, hstate⟩ hnot
    · rcases hthreshold : tactic.threshold state with _ | _ | _
      · exact absurd (threshold_resolve_false tactic (fun _ => rfl) hthreshold) hleastKept
      · exact absurd hthreshold hleast
      · rfl
    · intro key hkey
      rcases hstate : dayState key with _ | _ | _
      · exact absurd ⟨key, hkey, by simp [resolve, hstate]⟩ hdaysKept
      · exact absurd ⟨key, hkey, hstate⟩ hdays
      · rfl

end Resolving

/-! ## Rows -/

/-- Every state that a row and its day give is the same on another. -/
structure Knows (row known : TrialRow) (day dayKnown : DayStates) : Prop where
  stock : Learns (conditionValue · row) (conditionValue · known)
  day : Learns (dayConditionValue · row day) (dayConditionValue · known dayKnown)

/-- A row and a day that know every key of a tactic, and all that another row and day know. -/
structure Resolution (tactic : Tactic) (row known : TrialRow) (day dayKnown : DayStates) : Prop extends Knows row known day dayKnown where
  stock_known : ∀ key ∈ tactic.namedKeys, conditionValue key known ≠ none
  day_known : ∀ key ∈ tactic.dayConditions, dayConditionValue key known dayKnown ≠ none

theorem mem_flags_of_true {row : TrialRow} {key : String} (h : conditionValue key row = some true) : key ∈ row.flags := by
  unfold conditionValue stateOf at h
  split at h
  · exact absurd h (by simp)
  · split at h
    · assumption
    · split at h <;> exact absurd h (by simp)

theorem mem_dayFlags_of_true {row : TrialRow} {day : DayStates} {key : String} (h : dayConditionValue key row day = some true) :
    key ∈ day.flags := by
  unfold dayConditionValue stateOf at h
  split at h
  · exact absurd h (by simp)
  · split at h
    · assumption
    · split at h <;> exact absurd h (by simp)

/-- Lists of keys that give a resolution: the true keys among those of the tactic and those already true. -/
def resolvedFlags (keys flags : List String) (state : String → Option Bool) (choice : String → Bool) : List String :=
  (keys ++ flags).filter (fun key => (state key).getD (choice key))

theorem stateOf_resolvedFlags (keys flags : List String) (state : String → Option Bool) (choice : String → Bool)
    (hflags : ∀ key, state key = some true → key ∈ flags) :
    Learns state (stateOf (resolvedFlags keys flags state choice) []) ∧
      ∀ key ∈ keys, stateOf (resolvedFlags keys flags state choice) [] key = resolve state choice key := by
  have hmem : ∀ key, key ∈ keys ++ flags → stateOf (resolvedFlags keys flags state choice) [] key = resolve state choice key := by
    intro key hkey
    unfold stateOf resolvedFlags resolve
    cases hvalue : (state key).getD (choice key) with
    | true => rw [if_pos (List.mem_filter.mpr ⟨hkey, hvalue⟩)]
    | false => rw [if_neg (fun h => by simp [hvalue] at h), if_neg List.not_mem_nil]
  refine ⟨?_, fun key hkey => hmem key (List.mem_append_left _ hkey)⟩
  intro key value hvalue
  by_cases hkey : key ∈ keys ++ flags
  · rw [hmem key hkey, resolve, hvalue, Option.getD_some]
  · cases value with
    | true => exact absurd (List.mem_append_right _ (hflags key hvalue)) hkey
    | false =>
        unfold stateOf resolvedFlags
        rw [if_neg (fun h => hkey (List.mem_filter.mp h).1), if_neg List.not_mem_nil]

theorem conditionValue_of_prev (row : TrialRow) (flags : List String) (key : String) :
    conditionValue key { row with hasPrev := true, flags := flags, unknown := [] } = stateOf flags [] key := by
  unfold conditionValue
  rw [if_neg (by simp)]

theorem dayConditionValue_of_prev (row : TrialRow) (rowFlags flags : List String) (key : String) :
    dayConditionValue key { row with hasPrev := true, flags := rowFlags, unknown := [] } ⟨flags, []⟩ = stateOf flags [] key := by
  unfold dayConditionValue
  rw [if_neg (by simp)]

section

variable (tactic : Tactic)

theorem verdict_congr_day (state : String → Option Bool) {dayState other : String → Option Bool}
    (h : ∀ key ∈ tactic.dayConditions, dayState key = other key) : verdict tactic state dayState = verdict tactic state other := by
  unfold verdict
  rw [List.map_congr_left h]

theorem exists_resolution (row : TrialRow) (day : DayStates) (choice dayChoice : String → Bool) :
    ∃ known dayKnown, Resolution tactic row known day dayKnown ∧
      evaluateTactic tactic known dayKnown =
        verdict tactic (resolve (conditionValue · row) choice) (resolve (dayConditionValue · row day) dayChoice) := by
  let flags := resolvedFlags tactic.namedKeys row.flags (conditionValue · row) choice
  let dayFlags := resolvedFlags tactic.dayConditions day.flags (dayConditionValue · row day) dayChoice
  let known : TrialRow := { row with hasPrev := true, flags := flags, unknown := [] }
  obtain ⟨hlearns, hstates⟩ := stateOf_resolvedFlags tactic.namedKeys row.flags (conditionValue · row) choice
    fun _ => mem_flags_of_true
  obtain ⟨hdayLearns, hdayStates⟩ := stateOf_resolvedFlags tactic.dayConditions day.flags (dayConditionValue · row day) dayChoice
    fun _ => mem_dayFlags_of_true
  have hvalue : (conditionValue · known) = stateOf flags [] := funext (conditionValue_of_prev row flags)
  have hdayValue : (dayConditionValue · known ⟨dayFlags, []⟩) = stateOf dayFlags [] := funext (dayConditionValue_of_prev row flags dayFlags)
  refine ⟨known, ⟨dayFlags, []⟩, ⟨⟨?_, ?_⟩, ?_, ?_⟩, ?_⟩
  · rw [hvalue]
    exact hlearns
  · rw [hdayValue]
    exact hdayLearns
  · intro key hkey
    rw [show conditionValue key known = stateOf flags [] key from congrFun hvalue key, hstates key hkey]
    simp [resolve]
  · intro key hkey
    rw [show dayConditionValue key known ⟨dayFlags, []⟩ = stateOf dayFlags [] key from congrFun hdayValue key, hdayStates key hkey]
    simp [resolve]
  · unfold evaluateTactic
    rw [hvalue, hdayValue, verdict_congr_day tactic _ hdayStates]
    refine verdict_congr tactic _ _ _ (fun key hkey => hstates key ?_) (fun key hkey => hstates key ?_)
      fun minimum keys hleast key hkey => hstates key ?_
    · exact List.mem_append_left _ (List.mem_append_left _ hkey)
    · exact List.mem_append_left _ (List.mem_append_right _ hkey)
    · exact List.mem_append_right _ (by rw [hleast]; exact hkey)

/-- **A verdict follows knowledge**: it stays when more is known, and with every key once it is unknown exactly where two resolutions of
    the unknown keys lead to both verdicts. -/
theorem verdict_follows_knowledge :
    (∀ row known day dayKnown value, Knows row known day dayKnown → evaluateTactic tactic row day = some value →
      evaluateTactic tactic known dayKnown = some value) ∧
    (tactic.keys.Nodup → ∀ row day, evaluateTactic tactic row day = none ↔
      ∃ known dayKnown other dayOther, Resolution tactic row known day dayKnown ∧ Resolution tactic row other day dayOther ∧
        evaluateTactic tactic known dayKnown = some true ∧ evaluateTactic tactic other dayOther = some false) := by
  have hmono : ∀ row known day dayKnown value, Knows row known day dayKnown → evaluateTactic tactic row day = some value →
      evaluateTactic tactic known dayKnown = some value :=
    fun row known day dayKnown value h => verdict_mono tactic h.stock h.day
  refine ⟨hmono, ?_⟩
  intro hnodup row day
  constructor
  · intro hnone
    have hne : evaluateTactic tactic row day ≠ some false := by simp [hnone]
    obtain ⟨choice, dayChoice, htrue⟩ := exists_resolve_true tactic hnodup hne
    obtain ⟨other, dayOther, hfalse⟩ := exists_resolve_false tactic hnone
    obtain ⟨row₁, day₁, hfirst, hfirstValue⟩ := exists_resolution tactic row day choice dayChoice
    obtain ⟨row₂, day₂, hsecond, hsecondValue⟩ := exists_resolution tactic row day other dayOther
    exact ⟨row₁, day₁, row₂, day₂, hfirst, hsecond, hfirstValue.trans htrue, hsecondValue.trans hfalse⟩
  · rintro ⟨known, dayKnown, other, dayOther, hfirst, hsecond, htrue, hfalse⟩
    rcases hvalue : evaluateTactic tactic row day with _ | _ | _
    · rfl
    · exact absurd ((hmono row known day dayKnown false hfirst.toKnows hvalue).symm.trans htrue) (by simp)
    · exact absurd ((hmono row other day dayOther true hsecond.toKnows hvalue).symm.trans hfalse) (by simp)

end

end TradingHarness
