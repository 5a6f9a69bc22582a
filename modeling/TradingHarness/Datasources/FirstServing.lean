import TradingHarness.Datasources.Gates
import TradingHarness.Library.Firsts

set_option autoImplicit false

/-! # The first source that serves

The resolver returns the answer of the first binding whose answer passes the gates. The rows of a tuple are
counted by its first item, as of a table with its metadata, so a tuple of rows may be judged by the fields of a
row. -/

namespace TradingHarness

section Calls

variable (host : ResolverHost) (resolver : CapabilityResolver) (capability : String)
  (policy : CapabilityRequest) (sources : Option (List String)) (allowEmpty : Bool)

/-! ## What a binding serves -/

/-- The binding may be asked: what the policy and the circuits say before its fetcher is called. -/
def Asked (binding : Binding) : Prop :=
  (∀ allowed ∈ sources, binding.source ∈ allowed) ∧
  (policy.requireLiveVerified = true → binding.status = .liveVerified) ∧
  (policy.requireDecisionEligible = true → binding.decisionEligible = true) ∧
  undeclaredFields policy binding = [] ∧
  ∀ healthy ∈ resolver.healthGate, healthy binding.source capability = true

/-- The fetcher of the binding answers, and its rows can be projected. -/
def Answers (binding : Binding) (envelope : CapabilityEvidence) (normalised : Normalised) : Prop :=
  ∃ answer rows, resolver.fetchers (binding.source, capability) = some answer ∧
    unpackEvidence answer = .ok (rows, envelope) ∧ normaliseRows rows binding.spec = .ok normalised

/-- The binding has an answer that passes the gates, with the rows counted in some way. -/
def Serves (counting : RowValue → Option ℕ) (binding : Binding) : Prop :=
  Asked resolver capability policy sources binding ∧ ∃ envelope normalised count,
    Answers resolver capability binding envelope normalised ∧ counting normalised.rows = some count ∧
      PassesGates host policy allowEmpty envelope normalised count

/-- The number of rows: of a table with its metadata those of the table, of another container its items. -/
def rowsHeld : RowValue → Option ℕ
  | .tuple (.list table :: _) => some table.length
  | rows => rows.length

def isTable : RowValue → Bool
  | .list _ => true
  | _ => false

/-- A tuple of rows passes the gates with the length of its first row just if it does with their number. -/
def TellsRows (binding : Binding) : Prop :=
  ∀ envelope normalised first rest, Asked resolver capability policy sources binding →
    Answers resolver capability binding envelope normalised → normalised.rows = .tuple (first :: rest) →
    isTable first = false →
    ((∃ count, first.length = some count ∧ PassesGates host policy allowEmpty envelope normalised count) ↔
      PassesGates host policy allowEmpty envelope normalised (rest.length + 1))

/-- A call returns the answer of the first binding that serves, and fails only where none does or the call is not
    one of the catalog. -/
def EndsFirst (counting : RowValue → Option ℕ) (bindings : List Binding) :
    Except FetchError CapabilityResult → Prop
  | .ok result =>
    Firsts.FirstOf (Serves host resolver capability policy sources allowEmpty counting) bindings result.binding ∧
      ∃ envelope normalised, Answers resolver capability result.binding envelope normalised ∧
        result.rows = normalised.rows
  | .error (.capabilityUnavailable name _) =>
    name = capability ∧
      ∀ binding ∈ bindings, ¬ Serves host resolver capability policy sources allowEmpty counting binding
  | .error (.valueError _) => capability ∉ resolver.capabilities ∨ policy.capability ≠ capability

/-! ## The loop -/

variable {host resolver capability policy sources allowEmpty}

theorem answers_unique {binding : Binding} {envelope envelope' : CapabilityEvidence} {normalised normalised' : Normalised}
    (h : Answers resolver capability binding envelope normalised)
    (h' : Answers resolver capability binding envelope' normalised') :
    envelope = envelope' ∧ normalised = normalised' := by
  obtain ⟨answer, rows, hanswer, hrows, hnormalised⟩ := h
  obtain ⟨answer', rows', hanswer', hrows', hnormalised'⟩ := h'
  rw [hanswer] at hanswer'
  obtain rfl := Option.some.inj hanswer'
  rw [hrows] at hrows'
  obtain ⟨rfl, rfl⟩ := Prod.mk.inj (Except.ok.inj hrows')
  rw [hnormalised] at hnormalised'
  exact ⟨rfl, Except.ok.inj hnormalised'⟩

theorem judgeAnswer_served {binding : Binding} {envelope : CapabilityEvidence} {normalised : Normalised}
    {attempt : Attempt} {rows : RowValue} {quality : QualityReceipt}
    (h : judgeAnswer host resolver policy allowEmpty binding envelope normalised = .served attempt rows quality) :
    rows = normalised.rows ∧ ∃ count, normalised.rows.rowCount = some count ∧
      PassesGates host policy allowEmpty envelope normalised count := by
  unfold judgeAnswer qualityReceipt at h
  dsimp only at h
  split at h
  · exact absurd h (by simp)
  next hempty =>
    split at h
    · exact absurd h (by simp)
    next hvalid =>
      rcases hcount : normalised.rows.rowCount with _ | count
      · rw [hcount, judge_uncounted] at hvalid
        exact absurd hvalid (by simp)
      · rw [hcount] at hempty hvalid
        obtain ⟨-, hrows, -⟩ := Consulted.served.inj h
        refine ⟨hrows.symm, count, rfl, judge_valid_iff.mp ⟨by simpa using hvalid, ?_⟩⟩
        rintro ⟨rfl, hallow⟩
        exact hempty ⟨rfl, by rw [hallow]; rfl⟩

theorem judgeAnswer_serves (resolver : CapabilityResolver) (binding : Binding) {envelope : CapabilityEvidence} {normalised : Normalised} {count : ℕ}
    (hcount : normalised.rows.rowCount = some count)
    (h : PassesGates host policy allowEmpty envelope normalised count) :
    ∃ attempt quality, judgeAnswer host resolver policy allowEmpty binding envelope normalised
      = .served attempt normalised.rows quality := by
  obtain ⟨hvalid, hempty⟩ := judge_valid_iff.mpr h
  unfold judgeAnswer qualityReceipt
  dsimp only
  rw [hcount, if_neg, if_neg]
  · exact ⟨_, _, rfl⟩
  · rw [hvalid]
    decide
  · rintro ⟨hzero, hallow⟩
    exact hempty ⟨Option.some.inj hzero, by simpa using hallow⟩

theorem consult_served {binding : Binding} {attempt : Attempt} {rows : RowValue} {quality : QualityReceipt}
    (h : consult host resolver capability policy sources allowEmpty binding = .served attempt rows quality) :
    Serves host resolver capability policy sources allowEmpty RowValue.rowCount binding ∧
      ∃ envelope normalised, Answers resolver capability binding envelope normalised ∧ rows = normalised.rows := by
  unfold consult at h
  split at h
  · exact absurd h (by simp)
  next hsources =>
  split at h
  · exact absurd h (by simp)
  next answer hanswer =>
  split at h
  · exact absurd h (by simp)
  next hlive =>
  split at h
  · exact absurd h (by simp)
  next heligible =>
  split at h
  · exact absurd h (by simp)
  next hfields =>
  split at h
  · exact absurd h (by simp)
  next hhealth =>
  split at h
  · exact absurd h (by simp)
  next rows' envelope hunpack =>
  split at h
  · exact absurd h (by simp)
  next normalised hnormalised =>
    obtain ⟨hrows, count, hcount, hpasses⟩ := judgeAnswer_served h
    have hanswers : Answers resolver capability binding envelope normalised :=
      ⟨answer, rows', hanswer, hunpack, hnormalised⟩
    have hasked : Asked resolver capability policy sources binding := by
      refine ⟨fun allowed hallowed => ?_, fun hrequired => ?_, fun hrequired => ?_, not_not.mp hfields,
        fun healthy hhealthy => ?_⟩
      · rw [Option.mem_def.mp hallowed] at hsources
        simpa using hsources
      · by_contra hstatus
        exact hlive ⟨hrequired, hstatus⟩
      · by_contra hstatus
        exact heligible ⟨hrequired, by simpa using hstatus⟩
      · rw [Option.mem_def.mp hhealthy] at hhealth
        simpa using hhealth
    exact ⟨⟨hasked, envelope, normalised, count, hanswers, hcount, hpasses⟩, envelope, normalised, hanswers, hrows⟩

theorem consult_serves {binding : Binding}
    (h : Serves host resolver capability policy sources allowEmpty RowValue.rowCount binding) :
    ∃ attempt rows quality,
      consult host resolver capability policy sources allowEmpty binding = .served attempt rows quality := by
  obtain ⟨⟨hsources, hlive, heligible, hfields, hhealth⟩, envelope, normalised, count,
    ⟨answer, rows, hanswer, hunpack, hnormalised⟩, hcount, hpasses⟩ := h
  obtain ⟨attempt, quality, hserved⟩ := judgeAnswer_serves resolver binding hcount hpasses
  refine ⟨attempt, normalised.rows, quality, ?_⟩
  have hallowed : sources.any (fun allowed => !(allowed.contains binding.source)) ≠ true := by
    rcases sources with _ | allowed
    · simp
    · simpa using hsources allowed rfl
  have hclosed : resolver.healthGate.any (fun healthy => !(healthy binding.source capability)) ≠ true := by
    rcases hgate : resolver.healthGate with _ | healthy
    · simp
    · simpa using hhealth healthy hgate
  unfold consult
  rw [if_neg hallowed, hanswer]
  dsimp only
  rw [if_neg (fun hbad => hbad.2 (hlive hbad.1)), if_neg (fun hbad => by simp [heligible hbad.1] at hbad),
    if_neg (not_not.mpr hfields), if_neg hclosed, hunpack]
  dsimp only
  rw [hnormalised]
  exact hserved

theorem endsFirst_cons {binding : Binding} {rest : List Binding} {result : Except FetchError CapabilityResult}
    (h : EndsFirst host resolver capability policy sources allowEmpty RowValue.rowCount rest result)
    (hnot : ∀ attempt rows quality,
      consult host resolver capability policy sources allowEmpty binding ≠ .served attempt rows quality) :
    EndsFirst host resolver capability policy sources allowEmpty RowValue.rowCount (binding :: rest) result := by
  have hserves : ¬ Serves host resolver capability policy sources allowEmpty RowValue.rowCount binding := by
    intro hserves
    obtain ⟨attempt, rows, quality, hserved⟩ := consult_serves hserves
    exact hnot attempt rows quality hserved
  rcases result with (text | ⟨name, attempts⟩) | result
  · exact h
  · exact ⟨h.1, List.forall_mem_cons.mpr ⟨hserves, h.2⟩⟩
  · exact ⟨Firsts.firstOf_cons.mpr (Or.inr ⟨hserves, h.1⟩), h.2⟩

theorem endsFirst_fetchLoop (host : ResolverHost) (resolver : CapabilityResolver) (capability : String)
    (policy : CapabilityRequest) (sources : Option (List String)) (allowEmpty : Bool) (attempts : List Attempt)
    (bindings : List Binding) :
    EndsFirst host resolver capability policy sources allowEmpty RowValue.rowCount bindings
      (fetchLoop host resolver capability policy sources allowEmpty attempts bindings) := by
  induction bindings generalizing attempts with
  | nil => exact ⟨rfl, fun binding hbinding => absurd hbinding List.not_mem_nil⟩
  | cons binding rest ih =>
      unfold fetchLoop
      rcases hconsult : consult host resolver capability policy sources allowEmpty binding with
        _ | attempt | ⟨attempt, rows, quality⟩
      · exact endsFirst_cons (ih attempts) (by simp [hconsult])
      · exact endsFirst_cons (ih (attempts ++ [attempt])) (by simp [hconsult])
      · obtain ⟨hserves, hanswers⟩ := consult_served hconsult
        exact ⟨Firsts.firstOf_cons.mpr (Or.inl ⟨hserves, rfl⟩), hanswers⟩

/-! ## Counting rows -/

theorem rowCount_eq_rowsHeld {rows : RowValue}
    (h : ∀ first rest, rows = .tuple (first :: rest) → isTable first = true) : rows.rowCount = rowsHeld rows := by
  unfold RowValue.rowCount rowsHeld
  rcases rows with _ | _ | _ | _ | _ | _ | _ | (_ | ⟨first, rest⟩) | _ | _ <;> try rfl
  have htable := h first rest rfl
  rcases first with _ | _ | _ | _ | _ | _ | _ | _ | _ | _ <;>
    first | rfl | exact absurd htable Bool.false_ne_true

theorem rowsHeld_tuple {first : RowValue} {rest : List RowValue} (h : isTable first = false) :
    rowsHeld (.tuple (first :: rest)) = some (rest.length + 1) := by
  unfold rowsHeld
  rcases first with _ | _ | _ | _ | _ | _ | _ | _ | _ | _ <;>
    first | rfl | exact absurd h.symm Bool.false_ne_true

theorem serves_iff_tellsRows (binding : Binding) :
    (Serves host resolver capability policy sources allowEmpty RowValue.rowCount binding ↔
      Serves host resolver capability policy sources allowEmpty rowsHeld binding) ↔
    TellsRows host resolver capability policy sources allowEmpty binding := by
  constructor
  · intro hsame envelope normalised first rest hasked hanswers hrows htable
    have hserves : ∀ counting : RowValue → Option ℕ,
        Serves host resolver capability policy sources allowEmpty counting binding ↔
          ∃ count, counting normalised.rows = some count ∧
            PassesGates host policy allowEmpty envelope normalised count := by
      intro counting
      constructor
      · rintro ⟨-, envelope', normalised', count, hanswers', hcount, hpasses⟩
        obtain ⟨rfl, rfl⟩ := answers_unique hanswers hanswers'
        exact ⟨count, hcount, hpasses⟩
      · rintro ⟨count, hcount, hpasses⟩
        exact ⟨hasked, envelope, normalised, count, hanswers, hcount, hpasses⟩
    rw [hserves, hserves, hrows, rowsHeld_tuple htable] at hsame
    simpa [RowValue.rowCount] using hsame
  · intro htells
    by_cases hheld : ∃ envelope normalised, Asked resolver capability policy sources binding ∧
        Answers resolver capability binding envelope normalised ∧
        ∃ first rest, normalised.rows = .tuple (first :: rest) ∧ isTable first = false
    · obtain ⟨envelope, normalised, hasked, hanswers, first, rest, hrows, htable⟩ := hheld
      have htold := htells envelope normalised first rest hasked hanswers hrows htable
      constructor
      · rintro ⟨-, envelope', normalised', count, hanswers', hcount, hpasses⟩
        obtain ⟨rfl, rfl⟩ := answers_unique hanswers hanswers'
        rw [hrows] at hcount
        exact ⟨hasked, envelope, normalised, rest.length + 1, hanswers,
          by rw [hrows, rowsHeld_tuple htable], htold.mp ⟨count, hcount, hpasses⟩⟩
      · rintro ⟨-, envelope', normalised', count, hanswers', hcount, hpasses⟩
        obtain ⟨rfl, rfl⟩ := answers_unique hanswers hanswers'
        rw [hrows, rowsHeld_tuple htable] at hcount
        rw [← Option.some.inj hcount] at hpasses
        obtain ⟨count', hcount', hpasses'⟩ := htold.mpr hpasses
        exact ⟨hasked, envelope, normalised, count', hanswers, by rw [hrows]; exact hcount', hpasses'⟩
    · refine and_congr_right (fun hasked => exists₃_congr (fun envelope normalised count => ?_))
      refine and_congr_right (fun hanswers => ?_)
      rw [rowCount_eq_rowsHeld]
      intro first rest hrows
      by_contra htable
      exact hheld ⟨envelope, normalised, hasked, hanswers, first, rest, hrows, by simpa using htable⟩

end Calls

/-! ## Calls -/

section Fetch

variable (host : ResolverHost) (resolver : CapabilityResolver) (capability : String)
  (sources : Option (List String)) (acceptEmpty : Bool) (request : Option CapabilityRequest)

/-- A call of `fetch` returns the answer of the first binding that serves, with the rows of every answer counted
    as they are. -/
def FetchesFirst : Prop :=
  let policy := policyOf capability acceptEmpty request
  EndsFirst host resolver capability policy sources (acceptEmpty || policy.allowEmpty) rowsHeld
    (bindingsFor resolver capability) (fetch host resolver capability sources acceptEmpty request)

/-- In a call that is one of the catalog, every binding that is not preceded by one that serves tells its rows. -/
def CallTellsRows : Prop :=
  let policy := policyOf capability acceptEmpty request
  let allowEmpty := acceptEmpty || policy.allowEmpty
  capability ∈ resolver.capabilities → policy.capability = capability →
    ∀ before binding after, bindingsFor resolver capability = before ++ binding :: after →
      (∀ other ∈ before, ¬ Serves host resolver capability policy sources allowEmpty rowsHeld other) →
      TellsRows host resolver capability policy sources allowEmpty binding

/-- **The resolver returns the first answer that passes the gates, and fails only where none does**, exactly where
    no tuple of rows that it comes to is told by its first row to pass or to fail. -/
theorem fetches_first_iff : FetchesFirst host resolver capability sources acceptEmpty request ↔
    CallTellsRows host resolver capability sources acceptEmpty request := by
  unfold FetchesFirst CallTellsRows fetch
  dsimp only
  by_cases hknown : capability ∈ resolver.capabilities
  · by_cases hpolicy : (policyOf capability acceptEmpty request).capability = capability
    · rw [if_neg (by simpa using hknown), if_neg (not_not.mpr hpolicy)]
      have hfirst := endsFirst_fetchLoop host resolver capability (policyOf capability acceptEmpty request) sources
        (acceptEmpty || (policyOf capability acceptEmpty request).allowEmpty) [] (bindingsFor resolver capability)
      simp only [hknown, hpolicy, forall_const, ← serves_iff_tellsRows]
      generalize fetchLoop host resolver capability (policyOf capability acceptEmpty request) sources
        (acceptEmpty || (policyOf capability acceptEmpty request).allowEmpty) [] (bindingsFor resolver capability)
          = result at hfirst ⊢
      rcases result with (text | ⟨name, attempts⟩) | result
      · rcases hfirst with hbad | hbad
        · exact absurd hknown hbad
        · exact absurd hpolicy hbad
      · exact (and_iff_right hfirst.1).trans (Firsts.none_iff_agree hfirst.2)
      · exact (and_iff_left hfirst.2).trans (Firsts.first_iff_agree hfirst.1)
    · rw [if_neg (by simpa using hknown), if_pos hpolicy]
      exact iff_of_true (Or.inr hpolicy) (fun _ h => absurd h hpolicy)
  · rw [if_pos (by simpa using hknown)]
    exact iff_of_true (Or.inl hknown) (fun h => absurd h hknown)

end Fetch

/-! ## A tuple of one row -/

def tapeBinding : Binding where
  source := "eastmoney_ztb"
  capability := "limits.anomaly_tape"
  priority := 10
  status := .liveVerified

/-- One source, which answers so. -/
def tapeResolver (rows : RowValue) : CapabilityResolver where
  capabilities := ["limits.anomaly_tape"]
  bindings := [tapeBinding]
  fetchers := fun _ => some (.rows rows)

def plainHost : ResolverHost where
  isspace := Char.isWhitespace
  str := fun _ => []
  responseHash := fun _ => none

/-- A tuple of one row with three fields. -/
def oneRow : RowValue :=
  .tuple [.dict [("symbol", .str ['a']), ("price", .int 2), ("volume", .int 3)]]

theorem no_coverage : ∀ coverage ∈ (none : Option ℚ), 0 ≤ coverage ∧ coverage ≤ 1 :=
  fun coverage h => absurd h (Option.not_mem_none coverage)

theorem no_age : ∀ age ∈ (none : Option ℚ), 0 ≤ age := fun age h => absurd h (Option.not_mem_none age)

def threeRows : CapabilityRequest where
  capability := "limits.anomaly_tape"
  minRows := 3
  minCoverage_unit := no_coverage
  maxAgeSeconds_nonneg := no_age

theorem bindingsFor_tape (rows : RowValue) :
    bindingsFor (tapeResolver rows) "limits.anomaly_tape" = [tapeBinding] :=
  List.mergeSort_singleton tapeBinding

/-- Three rows are asked for, and the one row is returned for its three fields. -/
theorem oneRow_is_fetched :
    ¬ FetchesFirst plainHost (tapeResolver oneRow) "limits.anomaly_tape" none false (some threeRows) := by
  have hserves : Serves plainHost (tapeResolver oneRow) "limits.anomaly_tape" threeRows none false
      RowValue.rowCount tapeBinding := by
    refine ⟨⟨nofun, nofun, nofun, rfl, nofun⟩, { rows := oneRow }, { rows := oneRow, canonical := false }, 3,
      ⟨_, _, rfl, rfl, rfl⟩, rfl, ?_⟩
    exact ⟨fun _ hfields => absurd rfl hfields, nofun, rfl, rfl, nofun, Or.inl (Nat.le_refl 3), nofun, nofun⟩
  obtain ⟨attempt, rows, quality, hserved⟩ := consult_serves hserves
  have hfetch : ∃ result, fetch plainHost (tapeResolver oneRow) "limits.anomaly_tape" none false (some threeRows)
      = .ok result := by
    unfold fetch
    dsimp only
    rw [if_neg (by decide), if_neg (by decide), bindingsFor_tape]
    change ∃ result, fetchLoop plainHost (tapeResolver oneRow) "limits.anomaly_tape" threeRows none false []
      [tapeBinding] = .ok result
    rw [fetchLoop, hserved]
    exact ⟨_, rfl⟩
  obtain ⟨result, hresult⟩ := hfetch
  intro h
  unfold FetchesFirst at h
  dsimp only at h
  rw [hresult, bindingsFor_tape] at h
  rcases Firsts.firstOf_cons.mp h.1 with ⟨hheld, -⟩ | ⟨-, hrest⟩
  · obtain ⟨-, envelope, normalised, count, ⟨answer, rows', hanswer, hrows, hnormalised⟩, hcount, hpasses⟩ := hheld
    obtain rfl := Option.some.inj hanswer
    obtain ⟨rfl, rfl⟩ := Prod.mk.inj (Except.ok.inj hrows)
    obtain rfl := Except.ok.inj hnormalised
    obtain rfl : 1 = count := Option.some.inj hcount
    rcases hpasses.enough with hfew | ⟨hzero, -⟩
    · exact absurd hfew (by decide)
    · exact absurd hzero (by decide)
  · obtain ⟨before, after, hsplit, -⟩ := hrest
    exact absurd hsplit.symm (by simp)

end TradingHarness
