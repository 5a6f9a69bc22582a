import Mathlib.Data.List.Dedup
import TradingHarness.Datasources.Resolver

set_option autoImplicit false

/-! # The gates of a policy

What the policy of a request asks of an answer, and that the resolver's verdict on it, with however many rows it
is said to have, is just that. -/

namespace TradingHarness

variable (host : ResolverHost)

/-! ## What is asked -/

/-- A row is a dictionary with a value for each of the fields. -/
def HasFields (fields : List String) (row : RowValue) : Prop :=
  ∃ entries, row = .dict entries ∧ ∀ name ∈ fields, fieldPresent host (entries.lookup name) = true

/-- The gates, for an answer that is said to have so many rows. -/
structure PassesGates (policy : CapabilityRequest) (allowEmpty : Bool) (envelope : CapabilityEvidence)
    (normalised : Normalised) (count : ℕ) : Prop where
  fields : count ≠ 0 → policy.requiredFields ≠ [] →
    (∀ row ∈ normalised.rows.items, HasFields host policy.requiredFields row) ∧
      ∀ item ∈ envelope.warnings, ¬ missingWarning <+: item
  share : count ≠ 0 → ∀ coverage ∈ envelope.coverage, coverage.inUnit = true
  fresh : freshness envelope policy = none
  trusted : normalised.status = none
  whole : count ≠ 0 → policy.purpose = .replay ∨ policy.purpose = .shadow →
    ∀ coverage ∈ envelope.coverage, coverage.below 1 = false
  enough : policy.minRows ≤ count ∨ (count = 0 ∧ allowEmpty = true)
  covered : ∀ least ∈ policy.minCoverage, ∃ coverage ∈ envelope.coverage, coverage.below least = false
  nonempty : count = 0 → allowEmpty = true

/-! ## The receipt -/

variable {host} {policy : CapabilityRequest} {allowEmpty : Bool} {envelope : CapabilityEvidence}
  {normalised : Normalised} {rows : RowValue} {count : ℕ}

theorem missingFrom_eq_nil {fields : List String} (hfields : fields ≠ []) (row : RowValue) :
    missingFrom host fields row = [] ↔ HasFields host fields row := by
  unfold missingFrom HasFields
  split
  next entries =>
    rw [List.filter_eq_nil_iff]
    constructor
    · intro h
      exact ⟨entries, rfl, fun name hname => by simpa using h name hname⟩
    · rintro ⟨others, hsame, h⟩
      rw [← RowValue.dict.inj hsame] at h
      exact fun name hname => by simpa using h name hname
  next hother =>
    constructor
    · exact fun h => absurd h hfields
    · rintro ⟨entries, hsame, -⟩
      exact absurd hsame (hother entries)

theorem missingFields_eq_nil {fields : List String} (hfields : fields ≠ []) :
    missingFields host fields rows = [] ↔ ∀ row ∈ rows.items, HasFields host fields row := by
  unfold missingFields
  rw [← List.length_eq_zero_iff, List.length_mergeSort, List.length_eq_zero_iff, List.dedup_eq_nil,
    List.flatMap_eq_nil_iff]
  exact forall₂_congr (fun row _ => missingFrom_eq_nil hfields row)

theorem contentWarnings_any (hfields : policy.requiredFields ≠ []) (hcount : count ≠ 0) :
    (contentWarnings host (some count) rows envelope policy).any (fun item => missingWarning.isPrefixOf item) = false ↔
      (∀ row ∈ rows.items, HasFields host policy.requiredFields row) ∧
        ∀ item ∈ envelope.warnings, ¬ missingWarning <+: item := by
  have hrange : (if coverageOutOfRange envelope then ["coverage_out_of_range".toList] else []).any
      (fun item => missingWarning.isPrefixOf item) = false := by
    split <;> decide
  have hasked : policy.requiredFields ≠ [] ∧ some count ≠ none ∧ some count ≠ some 0 :=
    ⟨hfields, by simp, by simpa using hcount⟩
  unfold contentWarnings
  dsimp only
  rw [if_pos hasked, List.any_append, List.any_append, hrange, Bool.or_false, Bool.or_eq_false_iff,
    ← missingFields_eq_nil hfields, and_comm]
  refine and_congr ?_ ?_
  · by_cases hmissing : missingFields host policy.requiredFields rows = []
    · simp [hmissing]
    · rw [if_neg hmissing]
      simp [hmissing]
  · simp

theorem coverageOutOfRange_eq_false :
    coverageOutOfRange envelope = false ↔ ∀ coverage ∈ envelope.coverage, coverage.inUnit = true := by
  unfold coverageOutOfRange
  rcases envelope.coverage with _ | coverage <;> simp

/-- What the content of an answer comes to. -/
theorem contentStatus_cases (host : ResolverHost) (rows : RowValue) (hcount : count ≠ 0) :
    (contentStatus (some count) (contentWarnings host (some count) rows envelope policy) envelope policy = .invalid ∧
      ¬ ((policy.requiredFields ≠ [] → (∀ row ∈ rows.items, HasFields host policy.requiredFields row) ∧
          ∀ item ∈ envelope.warnings, ¬ missingWarning <+: item) ∧
        ∀ coverage ∈ envelope.coverage, coverage.inUnit = true)) ∨
    (contentStatus (some count) (contentWarnings host (some count) rows envelope policy) envelope policy =
        (if envelope.coverage.any (FloatValue.below 1) then .partly else .complete) ∧
      (policy.requiredFields ≠ [] → (∀ row ∈ rows.items, HasFields host policy.requiredFields row) ∧
          ∀ item ∈ envelope.warnings, ¬ missingWarning <+: item) ∧
        ∀ coverage ∈ envelope.coverage, coverage.inUnit = true) := by
  have hfields : (policy.requiredFields ≠ [] ∧
      (contentWarnings host (some count) rows envelope policy).any (fun item => missingWarning.isPrefixOf item) = true) ↔
        ¬ (policy.requiredFields ≠ [] → (∀ row ∈ rows.items, HasFields host policy.requiredFields row) ∧
          ∀ item ∈ envelope.warnings, ¬ missingWarning <+: item) := by
    rw [Classical.not_imp]
    refine and_congr_right (fun hasked => ?_)
    rw [← contentWarnings_any hasked hcount, Bool.not_eq_false]
  unfold contentStatus
  rw [if_neg (by simp), if_neg (by simpa using hcount)]
  by_cases hbad : (policy.requiredFields ≠ [] ∧
      (contentWarnings host (some count) rows envelope policy).any (fun item => missingWarning.isPrefixOf item) = true) ∨
        coverageOutOfRange envelope = true
  · rw [if_pos hbad]
    refine Or.inl ⟨rfl, fun hgood => ?_⟩
    rcases hbad with hmissing | hrange
    · exact hfields.mp hmissing hgood.1
    · rw [coverageOutOfRange_eq_false.mpr hgood.2] at hrange
      exact absurd hrange (by simp)
  · rw [if_neg hbad]
    obtain ⟨hmissing, hrange⟩ := not_or.mp hbad
    refine Or.inr ⟨rfl, ?_, coverageOutOfRange_eq_false.mp (by simpa using hrange)⟩
    exact not_not.mp (fun hnot => hmissing (hfields.mpr hnot))

/-! ## The verdict -/

theorem projectedVerdict_valid (quality : QualityReceipt) :
    (projectedVerdict normalised quality).valid = true ↔
      normalised.status = none ∧ quality.status ≠ .invalid ∧ quality.status ≠ .stale ∧
        quality.status ≠ .conflicted := by
  unfold projectedVerdict
  rcases normalised.status with _ | fault
  · simp
  · dsimp only
    by_cases hbad : quality.status = .invalid ∨ quality.status = .stale
    · rw [if_pos hbad]
      rcases hbad with hbad | hbad <;> simp [hbad]
    · rw [if_neg hbad]
      cases fault <;> simp

theorem projectedVerdict_status {quality : QualityReceipt} (h : normalised.status = none) :
    (projectedVerdict normalised quality).quality.status = quality.status := by
  unfold projectedVerdict
  rw [h]

theorem projectedVerdict_coverage (quality : QualityReceipt) :
    (projectedVerdict normalised quality).quality.coverage = quality.coverage := by
  unfold projectedVerdict
  rcases normalised.status with _ | fault
  · rfl
  · dsimp only
    split <;> rfl

variable (rowCount : Option ℕ) (verdict : Verdict)

theorem requireWhole_valid : (requireWhole policy verdict).valid = true ↔
    verdict.valid = true ∧
      ¬ ((policy.purpose = .replay ∨ policy.purpose = .shadow) ∧ verdict.quality.status = .partly) := by
  unfold requireWhole
  split <;> simp_all

theorem requireWhole_coverage :
    (requireWhole policy verdict).quality.coverage = verdict.quality.coverage := by
  unfold requireWhole
  split <;> rfl

theorem requireRows_valid : (requireRows policy allowEmpty (some count) verdict).valid = true ↔
    verdict.valid = true ∧ (policy.minRows ≤ count ∨ (count = 0 ∧ allowEmpty = true)) := by
  unfold requireRows
  rw [Option.all_some]
  by_cases henough : policy.minRows ≤ count ∨ (count = 0 ∧ allowEmpty = true)
  · have hpass : (decide (count < policy.minRows) && !(count == 0 && allowEmpty)) = false := by
      rcases henough with hle | ⟨hzero, hallow⟩
      · simp [Nat.not_lt.mpr hle]
      · simp [hzero, hallow]
    rw [if_neg (by rw [hpass]; decide), and_iff_left henough]
  · have hfail : (decide (count < policy.minRows) && !(count == 0 && allowEmpty)) = true := by
      obtain ⟨hlt, hempty⟩ := not_or.mp henough
      rw [not_and, Bool.not_eq_true] at hempty
      by_cases hzero : count = 0
      · simp [Nat.lt_of_not_le hlt, hempty hzero]
      · simp [Nat.lt_of_not_le hlt, hzero]
    rw [if_pos hfail]
    exact ⟨fun h => absurd h Bool.false_ne_true, fun h => absurd h.2 henough⟩

theorem requireRows_coverage :
    (requireRows policy allowEmpty rowCount verdict).quality.coverage = verdict.quality.coverage := by
  unfold requireRows
  split
  · dsimp only
    split <;> rfl
  · rfl

theorem requireCoverage_valid : (requireCoverage host policy verdict).valid = true ↔
    verdict.valid = true ∧ ∀ least ∈ policy.minCoverage,
      ∃ coverage ∈ verdict.quality.coverage, coverage.below least = false := by
  unfold requireCoverage
  rcases policy.minCoverage with _ | least
  · exact ⟨fun h => ⟨h, fun least hleast => absurd hleast (by simp)⟩, And.left⟩
  · dsimp only
    by_cases hlow : verdict.quality.coverage.all (FloatValue.below least) = true
    · rw [if_pos hlow]
      refine ⟨fun h => absurd h Bool.false_ne_true, fun h => ?_⟩
      obtain ⟨coverage, hcoverage, hbelow⟩ := h.2 least rfl
      rw [Option.mem_def.mp hcoverage, Option.all_some, hbelow] at hlow
      exact absurd hlow Bool.false_ne_true
    · rw [if_neg hlow]
      refine ⟨fun h => ⟨h, fun other hother => ?_⟩, And.left⟩
      rw [← Option.some.inj hother]
      rcases hcoverage : verdict.quality.coverage with _ | coverage
      · rw [hcoverage] at hlow
        exact absurd rfl hlow
      · rw [hcoverage, Option.all_some, Bool.not_eq_true] at hlow
        exact ⟨coverage, rfl, hlow⟩

theorem freshness_status {status : QualityStatus} {warning : List Char}
    (h : freshness envelope policy = some (status, warning)) : status = .invalid ∨ status = .stale := by
  unfold freshness at h
  split at h
  · exact absurd h.symm (Option.some_ne_none _)
  · split at h
    · dsimp only at h
      split at h
      · exact Or.inl (Prod.mk.inj (Option.some.inj h)).1.symm
      · split at h
        · exact Or.inr (Prod.mk.inj (Option.some.inj h)).1.symm
        · exact absurd h.symm (Option.some_ne_none _)
    · exact Or.inl (Prod.mk.inj (Option.some.inj h)).1.symm

theorem receiptFor_status (h : freshness envelope policy = none) (rowCount : Option ℕ) :
    (receiptFor host rowCount rows envelope policy).status
      = contentStatus rowCount (contentWarnings host rowCount rows envelope policy) envelope policy := by
  unfold receiptFor
  rw [h]
  rfl

theorem receiptFor_stale {fault : QualityStatus × List Char} (h : freshness envelope policy = some fault)
    (rowCount : Option ℕ) : (receiptFor host rowCount rows envelope policy).status = fault.1 := by
  unfold receiptFor
  rw [h]
  rfl

theorem receiptFor_good (host : ResolverHost) (rows : RowValue) (rowCount : Option ℕ) :
    ((receiptFor host rowCount rows envelope policy).status ≠ .invalid ∧
      (receiptFor host rowCount rows envelope policy).status ≠ .stale) ↔
    freshness envelope policy = none ∧
      contentStatus rowCount (contentWarnings host rowCount rows envelope policy) envelope policy ≠ .invalid := by
  rcases hfresh : freshness envelope policy with _ | ⟨status, warning⟩
  · rw [receiptFor_status hfresh]
    refine ⟨fun h => ⟨rfl, h.1⟩, fun h => ⟨h.2, ?_⟩⟩
    unfold contentStatus
    split_ifs <;> decide
  · rw [receiptFor_stale hfresh]
    refine ⟨fun h => ?_, fun h => absurd h.1 (by simp)⟩
    rcases freshness_status hfresh with hbad | hbad
    · exact absurd hbad h.1
    · exact absurd hbad h.2

theorem receiptFor_ne_conflicted :
    (receiptFor host rowCount rows envelope policy).status ≠ .conflicted := by
  rcases hfresh : freshness envelope policy with _ | ⟨status, warning⟩
  · rw [receiptFor_status hfresh]
    unfold contentStatus
    split_ifs <;> decide
  · rw [receiptFor_stale hfresh]
    rcases freshness_status hfresh with rfl | rfl <;> simp

/-- **The verdict on an answer with so many rows is what the gates ask.** -/
theorem judge_valid_iff : ((judge host policy allowEmpty (some count) normalised
      (receiptFor host (some count) normalised.rows envelope policy)).valid = true ∧
      ¬ (count = 0 ∧ allowEmpty = false)) ↔
    PassesGates host policy allowEmpty envelope normalised count := by
  have hcoverage : (receiptFor host (some count) normalised.rows envelope policy).coverage = envelope.coverage := rfl
  unfold judge
  rw [requireCoverage_valid, requireRows_coverage, requireWhole_coverage, projectedVerdict_coverage,
    requireRows_valid, requireWhole_valid, projectedVerdict_valid, hcoverage]
  constructor
  · rintro ⟨⟨⟨⟨⟨htrusted, hinvalid, hstale, -⟩, hwhole⟩, henough⟩, hcovered⟩, hempty⟩
    obtain ⟨hfresh, hcontent⟩ := (receiptFor_good host normalised.rows (some count)).mp ⟨hinvalid, hstale⟩
    rw [projectedVerdict_status htrusted, receiptFor_status hfresh] at hwhole
    have hgood : count ≠ 0 → _ := fun hcount =>
      (contentStatus_cases host normalised.rows hcount).resolve_left (fun h => hcontent h.1)
    refine ⟨fun hcount => (hgood hcount).2.1, fun hcount => (hgood hcount).2.2, hfresh, htrusted, ?_, henough,
      hcovered, ?_⟩
    · intro hcount hpurpose coverage hgiven
      rw [(hgood hcount).1, Option.mem_def.mp hgiven, Option.any_some] at hwhole
      rcases hbelow : coverage.below 1
      · rfl
      · rw [hbelow] at hwhole
        exact absurd ⟨hpurpose, rfl⟩ hwhole
    · intro hcount
      by_contra hallow
      exact hempty ⟨hcount, by simpa using hallow⟩
  · intro h
    have hcontent : contentStatus (some count) (contentWarnings host (some count) normalised.rows envelope policy)
        envelope policy ≠ .invalid ∧ ¬ ((policy.purpose = .replay ∨ policy.purpose = .shadow) ∧
          contentStatus (some count) (contentWarnings host (some count) normalised.rows envelope policy) envelope
            policy = .partly) := by
      by_cases hcount : count = 0
      · have hempty : contentStatus (some count) (contentWarnings host (some count) normalised.rows envelope policy)
            envelope policy = .empty := by
          unfold contentStatus
          rw [if_neg (by simp), if_pos (by rw [hcount])]
        rw [hempty]
        simp
      · obtain ⟨hstatus, -⟩ := (contentStatus_cases host normalised.rows hcount).resolve_left
          (fun hbad => hbad.2 ⟨h.fields hcount, h.share hcount⟩)
        rw [hstatus]
        rcases hcoverage : envelope.coverage with _ | coverage
        · simp
        · rw [Option.any_some]
          refine ⟨by split <;> decide, ?_⟩
          rintro ⟨hpurpose, hpartly⟩
          rw [h.whole hcount hpurpose coverage hcoverage] at hpartly
          exact absurd hpartly (by decide)
    obtain ⟨hinvalid, hstale⟩ := (receiptFor_good host normalised.rows (some count)).mpr
      ⟨h.fresh, hcontent.1⟩
    rw [projectedVerdict_status h.trusted, receiptFor_status h.fresh]
    rw [receiptFor_status h.fresh] at hinvalid hstale
    refine ⟨⟨⟨⟨⟨h.trusted, hinvalid, hstale, ?_⟩, hcontent.2⟩, h.enough⟩, h.covered⟩, ?_⟩
    · rw [← receiptFor_status h.fresh]
      exact receiptFor_ne_conflicted (some count)
    · rintro ⟨hcount, hallow⟩
      rw [h.nonempty hcount] at hallow
      exact absurd hallow (by decide)

theorem judge_uncounted (quality : QualityReceipt) :
    (judge host policy allowEmpty none normalised quality).valid = false := by
  rw [← Bool.not_eq_true]
  intro h
  unfold judge at h
  exact absurd ((requireCoverage_valid _).mp h).1 Bool.false_ne_true

end TradingHarness
