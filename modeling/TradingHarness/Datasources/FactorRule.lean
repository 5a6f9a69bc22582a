import TradingHarness.Library.Json
import Mathlib.Data.List.DropRight

set_option autoImplicit false

/-! # One rule for adjustment factors

`adjustment_factor_semantics.py`: whether a stored factor may be used, as a SQL predicate, as `factor_usable` and as the
state `complete`, each asked with the row alone. -/

namespace TradingHarness

/-! ## Texts -/

/-- `str.isspace` -/
def isPySpace (char : Char) : Bool :=
  decide (char.toNat ∈ [0x09, 0x0a, 0x0b, 0x0c, 0x0d, 0x1c, 0x1d, 0x1e, 0x1f, 0x20, 0x85, 0xa0, 0x1680, 0x2028, 0x2029,
    0x202f, 0x205f, 0x3000] ∨ (0x2000 ≤ char.toNat ∧ char.toNat ≤ 0x200a))

def stripText (text : List Char) : List Char := (text.dropWhile isPySpace).rdropWhile isPySpace

/-- A value that `or` passes over. -/
def isFalsy : Json → Bool
  | .scalar .null => true
  | .scalar (.bool value) => !value
  | .scalar (.int value) => value == 0
  | .scalar (.float value) => value == 0
  | .scalar (.str value) => value.toList.isEmpty
  | .arr items => items.isEmpty
  | .obj fields => fields.isEmpty

/-- `str(first or second or "").strip()`. A true value that is no string has none of the texts that are compared. -/
def pyText (first second : Json) : Option (List Char) :=
  match if isFalsy first then second else first with
  | .scalar (.str text) => some (stripText text.toList)
  | value => if isFalsy value then some [] else none

/-- `coalesce(raw->>key, '')`. What is no string is read as a text that is not compared. -/
def sqlText : Json → Option (List Char)
  | .scalar .null => some []
  | .scalar (.str text) => some text.toList
  | _ => none

def readsNull : Json → Bool
  | .scalar .null => true
  | _ => false

/-! ## Rows -/

/-- A `numeric` value. -/
inductive Numeric
  | nan
  | infinity
  | negInfinity
  | finite (value : ℚ)

/-- A row with what is read of it; a key that is missing reads as null, a `raw` that is no mapping as an empty one. -/
structure FactorRow (α : Type) where
  adjFactor : α
  provider : Json := .scalar .null
  factorSemantics : Json := .scalar .null
  supersededAt : Json := .scalar .null
  adjustmentState : Json := .scalar .null
  raw : List (String × Json) := []

def completeFactorSemantics : List Char := "corporate_action_cumulative".toList
def identityFactorSemantics : List Char := "same_day_identity_only".toList
def longhuQfqFactorProvider : List Char := "longhu_qfq_derived".toList

variable (adjFactor : Option Numeric) (provider : String) (raw : List (String × Json))

def rawValue (key : String) : Json := (raw.lookup key).getD (.scalar .null)

/-- `numeric` orders NaN above every number. -/
def aboveZero : Option Numeric → Bool
  | some .nan => true
  | some .infinity => true
  | some (.finite value) => decide (0 < value)
  | _ => false

/-- `positive_decimal` of a stored value -/
def positiveDecimal : Option Numeric → Bool
  | some (.finite value) => decide (0 < value)
  | _ => false

def semanticProviderMatch (provider : Option (List Char)) (semantic : Option (List Char)) : Bool :=
  if provider.any ("tushare".toList.isPrefixOf ·) then semantic.any (fun text => text.isEmpty || text == completeFactorSemantics)
  else provider.any (· == longhuQfqFactorProvider) && semantic.any (· == completeFactorSemantics)

/-- `persisted_factor_eligible_sql` -/
def persistedFactorEligible (provider : List Char) (raw : List (String × Json)) : Bool :=
  aboveZero adjFactor && (readsNull (rawValue raw "superseded_at") &&
    semanticProviderMatch (some provider) (sqlText (rawValue raw "factor_semantics")))

section Rule

variable {α : Type} (isPositive : α → Bool) (row : FactorRow α)

def FactorRow.explicit : Option (List Char) := pyText row.factorSemantics (rawValue row.raw "factor_semantics")

def FactorRow.source : Option (List Char) := pyText row.provider (.scalar .null)

def FactorRow.superseded : Bool := !(readsNull (rawValue row.raw "superseded_at") && readsNull row.supersededAt)

def factorUsable : Option (FactorRow α) → Bool
  | none => false
  | some row => isPositive row.adjFactor && (!row.superseded && semanticProviderMatch row.source row.explicit)

/-- `factor_semantics(row) == COMPLETE_FACTOR_SEMANTICS` -/
def FactorRow.complete : Bool :=
  if row.explicit == some identityFactorSemantics then false
  else if row.source != some [] && !(row.source.any (fun text => "tushare".toList.isPrefixOf text || text == longhuQfqFactorProvider))
  then false
  else semanticProviderMatch row.source row.explicit || row.explicit == some completeFactorSemantics

inductive AdjustmentState
  | complete
  | pending
  | retired
  | absent
  deriving DecidableEq

/-- The state that the row or its `raw` names itself. -/
def FactorRow.explicitState : Option AdjustmentState :=
  match pyText row.adjustmentState (rawValue row.raw "adjustment_state") with
  | none => none
  | some text =>
    if text = "pending".toList then some .pending else if text = "retired".toList then some .retired
    else if text = "absent".toList then some .absent else none

def adjustmentState : Option (FactorRow α) → AdjustmentState
  | none => .absent
  | some row =>
    row.explicitState.getD
      (if row.superseded then .retired
      else if row.explicit == some identityFactorSemantics then .retired
      else if row.complete then if isPositive row.adjFactor then .complete else .pending
      else if isPositive row.adjFactor then .retired else .pending)

end Rule

/-- What the readers of stored rows give to `factor_usable`. -/
def projection : FactorRow (Option Numeric) :=
  { adjFactor, provider := .scalar (.str provider), raw }

/-! ## Stripped texts -/

/-- What begins without a space still begins so when it is stripped. -/
theorem prefix_stripText {first : List Char} (hfirst : ∀ char ∈ first, isPySpace char = false) {text : List Char}
    (h : first <+: text) : first <+: stripText text := by
  obtain ⟨rest, rfl⟩ := h
  have hkept : (first ++ rest).dropWhile isPySpace = first ++ rest ∨ first = [] := by
    cases first with
    | nil => exact Or.inr rfl
    | cons char others => exact Or.inl (List.dropWhile_cons_of_neg (by simp [hfirst char List.mem_cons_self]))
  rcases hkept with hkept | rfl
  · rw [stripText, hkept]
    clear hkept
    induction rest using List.reverseRecOn with
    | nil =>
        rw [List.append_nil]
        refine (List.rdropWhile_eq_self_iff.mpr (fun hne => ?_)).symm ▸ List.prefix_refl first
        simp [hfirst _ (List.getLast_mem hne)]
    | append_singleton rest last ih =>
        rw [← List.append_assoc]
        by_cases hlast : isPySpace last = true
        · rw [List.rdropWhile_concat_pos _ _ _ hlast]
          exact ih
        · rw [List.rdropWhile_concat_neg _ _ _ hlast, List.append_assoc]
          exact List.prefix_append _ _
  · exact List.nil_prefix

/-- What SQL matches as stored is matched when it is read. -/
theorem match_of_stored {provider : List Char} {semantics : Json}
    (h : semanticProviderMatch (some provider) (sqlText semantics) = true) :
    semanticProviderMatch (some (stripText provider)) (pyText (.scalar .null) semantics) = true := by
  have hread : ∀ text, sqlText semantics = some text → (text = [] ∨ text = completeFactorSemantics) →
      pyText (.scalar .null) semantics = some text := by
    intro text htext hcompared
    cases semantics with
    | arr items => simp [sqlText] at htext
    | obj fields => simp [sqlText] at htext
    | scalar value =>
        cases value with
        | null => exact htext
        | str stored =>
            obtain rfl := Option.some.inj htext
            rcases hcompared with hempty | hcomplete
            · simp [pyText, isFalsy, hempty, stripText]
            · simp only [pyText, isFalsy, if_true, hcomplete]
              decide +kernel
        | _ => simp [sqlText] at htext
  unfold semanticProviderMatch at *
  by_cases htushare : "tushare".toList.isPrefixOf provider = true
  · have hstripped : "tushare".toList.isPrefixOf (stripText provider) = true := by
      rw [List.isPrefixOf_iff_prefix] at *
      exact prefix_stripText (by simp [isPySpace]) htushare
    rw [if_pos (by simpa using htushare)] at h
    rw [if_pos (by simpa using hstripped)]
    obtain ⟨text, htext, hcompared⟩ := (Option.any_eq_true _ _).mp h
    rw [hread text htext (by simpa using hcompared)]
    simpa using hcompared
  · rw [if_neg (by simpa using htushare), Bool.and_eq_true] at h
    obtain ⟨hprovider, hsemantic⟩ := h
    obtain rfl : provider = longhuQfqFactorProvider := by simpa using hprovider
    obtain ⟨text, htext, hcompared⟩ := (Option.any_eq_true _ _).mp hsemantic
    rw [hread text htext (Or.inr (by simpa using hcompared))]
    obtain rfl : text = completeFactorSemantics := by simpa using hcompared
    decide +kernel

/-! ## The rule -/

/-- What lets the predicate in SQL and the one in Python agree on a stored row. -/
structure OneRule (adjFactor : Option Numeric) (provider : String) (raw : List (String × Json)) : Prop where
  finite : readsNull (rawValue raw "superseded_at") = true →
    semanticProviderMatch (some provider.toList) (sqlText (rawValue raw "factor_semantics")) = true →
    adjFactor ≠ some .nan ∧ adjFactor ≠ some .infinity
  bare : readsNull (rawValue raw "superseded_at") = true → positiveDecimal adjFactor = true →
    semanticProviderMatch (some (stripText provider.toList)) (pyText (.scalar .null) (rawValue raw "factor_semantics")) = true →
    semanticProviderMatch (some provider.toList) (sqlText (rawValue raw "factor_semantics")) = true

/-- What lets the state `complete` and the predicate agree on a row. -/
structure StateRule {α : Type} (isPositive : α → Bool) (row : FactorRow α) : Prop where
  unnamed : isPositive row.adjFactor = true → row.superseded = false →
    semanticProviderMatch row.source row.explicit = true → row.explicitState = none
  sourced : isPositive row.adjFactor = true → row.superseded = false → row.explicitState = none →
    row.explicit = some completeFactorSemantics → row.source ≠ some []

/-- A factor that is above zero is a positive decimal, but for NaN and infinity. -/
theorem aboveZero_iff :
    aboveZero adjFactor = true ↔
      positiveDecimal adjFactor = true ∨ adjFactor = some .nan ∨ adjFactor = some .infinity := by
  rcases adjFactor with _ | _ | _ | _ | value <;> simp [aboveZero, positiveDecimal]

theorem oneRule_iff :
    factorUsable positiveDecimal (some (projection adjFactor provider raw)) =
        persistedFactorEligible adjFactor provider.toList raw ↔
      OneRule adjFactor provider raw := by
  have hsource : (projection adjFactor provider raw).source = some (stripText provider.toList) := by
    by_cases hempty : provider.toList = []
    · simp [FactorRow.source, projection, pyText, isFalsy, hempty, stripText]
    · simp [FactorRow.source, projection, pyText, isFalsy, hempty]
  have husable : factorUsable positiveDecimal (some (projection adjFactor provider raw)) = true ↔
      positiveDecimal adjFactor = true ∧ readsNull (rawValue raw "superseded_at") = true ∧
        semanticProviderMatch (some (stripText provider.toList)) (pyText (.scalar .null) (rawValue raw "factor_semantics")) =
          true := by
    rw [factorUsable, hsource, Bool.and_eq_true, Bool.and_eq_true]
    simp [FactorRow.superseded, FactorRow.explicit, projection, readsNull]
  have hstored := @match_of_stored provider.toList (rawValue raw "factor_semantics")
  rw [Bool.eq_iff_iff, husable, persistedFactorEligible, Bool.and_eq_true, Bool.and_eq_true, aboveZero_iff]
  constructor
  · intro h
    refine ⟨fun hcurrent hmatch => ⟨?_, ?_⟩, fun hcurrent hpositive hread => (h.mp ⟨hpositive, hcurrent, hread⟩).2.2⟩
    · rintro rfl
      simpa [positiveDecimal] using (h.mpr ⟨Or.inr (Or.inl rfl), hcurrent, hmatch⟩).1
    · rintro rfl
      simpa [positiveDecimal] using (h.mpr ⟨Or.inr (Or.inr rfl), hcurrent, hmatch⟩).1
  · rintro ⟨hfinite, hbare⟩
    constructor
    · rintro ⟨hpositive, hcurrent, hread⟩
      exact ⟨Or.inl hpositive, hcurrent, hbare hcurrent hpositive hread⟩
    · rintro ⟨habove, hcurrent, hmatch⟩
      have hboth := hfinite hcurrent hmatch
      exact ⟨habove.resolve_right (by simp [hboth.1, hboth.2]), hcurrent, hstored hmatch⟩

section Rule

variable {α : Type} (isPositive : α → Bool) (row : FactorRow α)

theorem FactorRow.explicitState_ne_complete : row.explicitState ≠ some .complete := by
  unfold FactorRow.explicitState
  split
  · simp
  · split_ifs <;> simp

/-- The label of a complete factor is given to what the predicate matches and to a complete row without a provider. -/
theorem FactorRow.complete_iff :
    row.complete = true ↔ semanticProviderMatch row.source row.explicit = true ∨
      (row.source = some [] ∧ row.explicit = some completeFactorSemantics) := by
  have hdifferent : identityFactorSemantics ≠ completeFactorSemantics ∧ identityFactorSemantics ≠ [] := by decide +kernel
  have hempty : "tushare".toList.isPrefixOf [] = false ∧ [] ≠ longhuQfqFactorProvider := by decide +kernel
  unfold FactorRow.complete semanticProviderMatch
  generalize completeFactorSemantics = complete at *
  generalize identityFactorSemantics = identity at *
  generalize longhuQfqFactorProvider = derived at *
  generalize "tushare".toList = first at *
  rcases row.source with _ | source
  · simp
  · rcases row.explicit with _ | explicit
    · simp
    · by_cases hsource : source = []
      · subst hsource
        simp only [Option.any_some, hempty.1]
        grind
      · cases hfirst : first.isPrefixOf source <;> grind

/-- The state is complete exactly when nothing else is named and a positive, current row has the label. -/
theorem adjustmentState_complete :
    adjustmentState isPositive (some row) = .complete ↔
      row.explicitState = none ∧ row.superseded = false ∧ row.complete = true ∧ isPositive row.adjFactor = true := by
  have hidentity : row.complete = true → row.explicit ≠ some identityFactorSemantics := by
    intro hcomplete hexplicit
    simp [FactorRow.complete, hexplicit] at hcomplete
  have hnamed := row.explicitState_ne_complete
  rw [adjustmentState]
  rcases hstate : row.explicitState with _ | named
  · rw [Option.getD_none]
    split_ifs with hsuperseded hexplicit hcomplete hpositive hpositive
    · simp [hsuperseded]
    · simp [show row.complete = false from by by_contra h; exact hidentity (by simpa using h) (by simpa using hexplicit)]
    · simp [hsuperseded, hcomplete, hpositive]
    · simp [hpositive]
    · simp [hcomplete]
    · simp [hcomplete]
  · simpa using fun h => hnamed (hstate.trans (congrArg some h))

theorem stateRule_iff :
    (adjustmentState isPositive (some row) = .complete ↔ factorUsable isPositive (some row) = true) ↔
      StateRule isPositive row := by
  rw [adjustmentState_complete, row.complete_iff, factorUsable, Bool.and_eq_true, Bool.and_eq_true, Bool.not_eq_true']
  have hsourceless : row.source = some [] → semanticProviderMatch row.source row.explicit = false := by
    intro hsource
    have hempty : ([] == longhuQfqFactorProvider) = false := by decide +kernel
    simp [semanticProviderMatch, hsource, hempty]
  constructor
  · intro h
    refine ⟨fun hpositive hcurrent hmatch => (h.mpr ⟨hpositive, hcurrent, hmatch⟩).1,
      fun hpositive hcurrent hunnamed hexplicit hsource => ?_⟩
    have hmatch := (h.mp ⟨hunnamed, hcurrent, Or.inr ⟨hsource, hexplicit⟩, hpositive⟩).2.2
    rw [hsourceless hsource] at hmatch
    cases hmatch
  · rintro ⟨hunnamed, hsourced⟩
    constructor
    · rintro ⟨hstate, hcurrent, hmatch | ⟨hsource, hexplicit⟩, hpositive⟩
      · exact ⟨hpositive, hcurrent, hmatch⟩
      · exact (hsourced hpositive hcurrent hstate hexplicit hsource).elim
    · rintro ⟨hpositive, hcurrent, hmatch⟩
      exact ⟨hunnamed hpositive hcurrent hmatch, hcurrent, Or.inl hmatch, hpositive⟩

end Rule

end TradingHarness
