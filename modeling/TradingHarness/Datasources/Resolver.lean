import Mathlib.Data.List.Sort
import TradingHarness.Datasources.Rows
import TradingHarness.Library.Rounding

set_option autoImplicit false

/-! # The capability resolver

`CapabilityResolver.fetch` (`resolver.py`): the bound sources of a capability are asked in catalog order, each
answer is projected, judged by the policy of the request, and the first that passes is returned. -/

namespace TradingHarness

/-! ## Requests and evidence -/

inductive Purpose
  | research
  | replay
  | shadow
  deriving DecidableEq

/-- `partly` is the status `partial`. -/
inductive QualityStatus
  | complete
  | partly
  | empty
  | stale
  | invalid
  | conflicted
  deriving DecidableEq

/-- A moment, with or without a time zone, in microseconds. -/
structure SourceClock where
  aware : Bool
  micros : ℤ

/-- `CapabilityRequest`, which checks its fields. -/
structure CapabilityRequest where
  capability : String
  purpose : Purpose := .research
  asOf : Option SourceClock := none
  minRows : ℕ := 1
  requiredFields : List String := []
  minCoverage : Option ℚ := none
  maxAgeSeconds : Option ℚ := none
  requireLiveVerified : Bool := false
  requireDecisionEligible : Bool := false
  allowEmpty : Bool := false
  minCoverage_unit : ∀ coverage ∈ minCoverage, 0 ≤ coverage ∧ coverage ≤ 1 := by simp
  maxAgeSeconds_nonneg : ∀ age ∈ maxAgeSeconds, 0 ≤ age := by simp

structure CapabilityEvidence where
  rows : RowValue
  coverage : Option FloatValue := none
  effectiveAtMin : Option SourceClock := none
  effectiveAtMax : Option SourceClock := none
  availableAtMin : Option SourceClock := none
  availableAtMax : Option SourceClock := none
  warnings : List (List Char) := []

inductive RowSchema
  | canonical
  | native

structure QualityReceipt where
  status : QualityStatus
  rowCount : Option ℕ
  coverage : Option FloatValue
  effectiveAtMin : Option SourceClock
  effectiveAtMax : Option SourceClock
  availableAtMin : Option SourceClock
  availableAtMax : Option SourceClock
  responseHash : Option (List Char)
  warnings : List (List Char)
  schema : RowSchema := .canonical

/-- What the resolver takes from elsewhere: `str.isspace`, how a number is written, and `_response_hash`. -/
structure ResolverHost where
  isspace : Char → Bool
  str : ℚ → List Char
  responseHash : RowValue → Option (List Char)

def FloatValue.isfinite : FloatValue → Bool
  | .finite _ => true
  | _ => false

/-- `0 <= value <= 1` -/
def FloatValue.inUnit : FloatValue → Bool
  | .finite value => decide (0 ≤ value ∧ value ≤ 1)
  | _ => false

/-- `value < bound` -/
def FloatValue.below (bound : ℚ) : FloatValue → Bool
  | .finite value => decide (value < bound)
  | .infinite negative => negative
  | .nan => false

variable (host : ResolverHost)

/-! ## The quality receipt -/

def fieldPresent : Option RowValue → Bool
  | none | some .none => false
  | some (.str text) => !(text.all host.isspace)
  | some (.float value) | some (.decimal value) => value.isfinite
  | some _ => true

/-- The required fields that a row lacks. -/
def missingFrom (requiredFields : List String) : RowValue → List String
  | .dict fields => requiredFields.filter (fun name => !(fieldPresent host (fields.lookup name)))
  | _ => requiredFields

/-- The items of a list or a tuple. -/
def RowValue.items : RowValue → List RowValue
  | .list items | .tuple items => items
  | _ => []

/-- The required fields that some row lacks, in the order of their names. -/
def missingFields (requiredFields : List String) (rows : RowValue) : List String :=
  ((rows.items.flatMap (missingFrom host requiredFields)).dedup).mergeSort
    (fun first second => decide (first ≤ second))

def missingWarning : List Char := "missing_required_fields:".toList

/-- The coverage is given and not a share. -/
def coverageOutOfRange (envelope : CapabilityEvidence) : Bool :=
  envelope.coverage.any (fun coverage => !coverage.inUnit)

/-- The warnings before the freshness is looked at. -/
def contentWarnings (count : Option ℕ) (rows : RowValue) (envelope : CapabilityEvidence)
    (request : CapabilityRequest) : List (List Char) :=
  let outOfRange := if coverageOutOfRange envelope then ["coverage_out_of_range".toList] else []
  let missing :=
    if request.requiredFields ≠ [] ∧ count ≠ none ∧ count ≠ some 0 then
      missingFields host request.requiredFields rows
    else []
  let missing :=
    if missing = [] then []
    else [missingWarning ++ [','].intercalate (missing.map String.toList)]
  envelope.warnings ++ outOfRange ++ missing

def contentStatus (count : Option ℕ) (warnings : List (List Char)) (envelope : CapabilityEvidence)
    (request : CapabilityRequest) : QualityStatus :=
  if count = none then .invalid
  else if count = some 0 then .empty
  else if (request.requiredFields ≠ [] ∧ warnings.any (fun item => missingWarning.isPrefixOf item))
      ∨ coverageOutOfRange envelope then .invalid
  else if envelope.coverage.any (FloatValue.below 1) then .partly
  else .complete

/-- The status of an answer that is not fresh, and its warning. -/
def freshness (envelope : CapabilityEvidence) (request : CapabilityRequest) :
    Option (QualityStatus × List Char) :=
  match request.maxAgeSeconds with
  | none => none
  | some maxAge =>
    match request.asOf, envelope.availableAtMax with
    | some asOf, some available =>
      if asOf.aware ≠ available.aware then some (.invalid, "incompatible_clock_timezone".toList)
      else
        let age : ℚ := (asOf.micros - available.micros : ℤ) / 1000000
        if maxAge < age then
          some (.stale, "age_seconds=".toList ++ (toString (Rounding.truncate age)).toList)
        else none
    | _, _ => some (.invalid, "freshness_clock_missing".toList)

/-- `_quality_receipt`, for rows that were counted. -/
def receiptFor (count : Option ℕ) (rows : RowValue) (envelope : CapabilityEvidence)
    (request : CapabilityRequest) : QualityReceipt :=
  let content := contentWarnings host count rows envelope request
  let status := contentStatus count content envelope request
  let warnings := content ++ if count = none then ["row_count_unavailable".toList] else []
  let fresh := freshness envelope request
  { status := (fresh.map Prod.fst).getD status
    rowCount := count
    coverage := envelope.coverage
    effectiveAtMin := envelope.effectiveAtMin
    effectiveAtMax := envelope.effectiveAtMax
    availableAtMin := envelope.availableAtMin
    availableAtMax := envelope.availableAtMax
    responseHash := host.responseHash rows
    warnings := warnings ++ (fresh.map Prod.snd).toList }

def qualityReceipt (rows : RowValue) (envelope : CapabilityEvidence) (request : CapabilityRequest) :
    QualityReceipt :=
  receiptFor host rows.rowCount rows envelope request

/-! ## The gates -/

/-- Whether an answer passes so far, and its receipt. -/
structure Verdict where
  valid : Bool
  quality : QualityReceipt

/-- What is known of the projection is added, and the receipt is judged. -/
def projectedVerdict (normalised : Normalised) (quality : QualityReceipt) : Verdict :=
  let quality := { quality with
    schema := if normalised.canonical then .canonical else .native
    warnings := quality.warnings ++ normalised.warnings }
  let quality :=
    match normalised.status with
    | some fault =>
      if quality.status = .invalid ∨ quality.status = .stale then quality
      else { quality with
        status :=
          match fault with
          | .conflicted => .conflicted
          | .invalid => .invalid }
    | none => quality
  { valid := quality.status ≠ .invalid ∧ quality.status ≠ .stale ∧ quality.status ≠ .conflicted
    quality := quality }

/-- A replay or a shadow asks for a complete answer. -/
def requireWhole (policy : CapabilityRequest) (verdict : Verdict) : Verdict :=
  if (policy.purpose = .replay ∨ policy.purpose = .shadow) ∧ verdict.quality.status = .partly then
    { valid := false
      quality := { verdict.quality with
        warnings := verdict.quality.warnings ++ ["purpose_requires_complete=".toList ++
          (if policy.purpose = .replay then "replay".toList else "shadow".toList)] } }
  else verdict

/-- `min_rows` rows are asked for, or none at all where an empty answer is allowed. -/
def requireRows (policy : CapabilityRequest) (allowEmpty : Bool) (count : Option ℕ) (verdict : Verdict) :
    Verdict :=
  if count.all (fun count => decide (count < policy.minRows) && !(count == 0 && allowEmpty)) then
    { valid := false
      quality :=
        if verdict.quality.status = .complete then
          { verdict.quality with
            status := .invalid
            warnings := verdict.quality.warnings ++
              ["min_rows=".toList ++ Nat.toDigits 10 policy.minRows] }
        else verdict.quality }
  else verdict

def requireCoverage (policy : CapabilityRequest) (verdict : Verdict) : Verdict :=
  match policy.minCoverage with
  | none => verdict
  | some least =>
    if verdict.quality.coverage.all (FloatValue.below least) then
      { valid := false
        quality :=
          if verdict.quality.status = .invalid ∨ verdict.quality.status = .stale then verdict.quality
          else
            { verdict.quality with
              status := .partly
              warnings := verdict.quality.warnings ++ ["min_coverage=".toList ++ host.str least] } }
    else verdict

/-- The gates in turn. -/
def judge (policy : CapabilityRequest) (allowEmpty : Bool) (count : Option ℕ) (normalised : Normalised)
    (quality : QualityReceipt) : Verdict :=
  requireCoverage host policy
    (requireRows policy allowEmpty count (requireWhole policy (projectedVerdict normalised quality)))

/-! ## Bindings -/

inductive BindingState
  | liveVerified
  | declared
  | dormant
  | unsupported
  | retired
  deriving DecidableEq

/-- What the resolver uses of a `Binding`. -/
structure Binding where
  source : String
  capability : String
  priority : ℤ
  status : BindingState
  decisionEligible : Bool := false
  spec : Option BindingSpec := none

/-- What a fetcher does when it is called. -/
inductive FetchAnswer
  | raised (text : List Char)
  | rows (value : RowValue)
  | evidence (value : CapabilityEvidence)

/-- `_unpack_evidence`, of an answer that was not raised. -/
def unpackEvidence : FetchAnswer → Except (List Char) (RowValue × CapabilityEvidence)
  | .raised text => .error text
  | .rows value => .ok (value, { rows := value })
  | .evidence value => .ok (value.rows, value)

/-- The catalog, and the resolver during a call: what the bound fetchers answer, which circuits are closed, and
    how many milliseconds a source takes. -/
structure CapabilityResolver where
  capabilities : List String
  bindings : List Binding
  fetchers : String × String → Option FetchAnswer
  healthGate : Option (String → String → Bool) := none
  elapsed : String → ℤ := fun _ => 0

inductive AttemptStatus
  | notLiveVerified
  | notDecisionEligible
  | missingRequiredFields
  | circuitOpen
  | failed
  | judged (status : QualityStatus)

/-- An entry of `attempts`. -/
structure Attempt where
  source : String
  status : AttemptStatus
  missing : List String := []
  error : List Char := []
  rows : Option (Option ℕ) := none
  quality : Option QualityStatus := none
  responseHash : Option (List Char) := none
  warnings : List (List Char) := []
  ms : Option ℤ := none

structure CapabilityResult where
  capability : String
  source : String
  rows : RowValue
  binding : Binding
  attempts : List Attempt
  request : CapabilityRequest
  quality : QualityReceipt

inductive FetchError
  | valueError (text : String)
  | capabilityUnavailable (capability : String) (attempts : List Attempt)

/-- The order of resolution. -/
def bindingLe (first second : Binding) : Bool :=
  decide (first.priority < second.priority) ||
    (first.priority == second.priority && decide (first.source ≤ second.source))

variable (resolver : CapabilityResolver)

def bindingsFor (capability : String) : List Binding :=
  (resolver.bindings.filter (fun item =>
    item.capability == capability && (item.status ≠ .unsupported && item.status ≠ .retired))).mergeSort bindingLe

def declaredFields (binding : Binding) : List String :=
  match binding.spec with
  | some spec => spec.fieldMap.map Prod.snd
  | none => []

/-- The required fields that the spec of a binding does not declare, where it declares any. -/
def undeclaredFields (policy : CapabilityRequest) (binding : Binding) : List String :=
  if declaredFields binding = [] then []
  else policy.requiredFields.filter (fun name => !((declaredFields binding).contains name))

/-- What a binding comes to: it is passed over, it fails, or it serves. -/
inductive Consulted
  | passedOver
  | attempted (attempt : Attempt)
  | served (attempt : Attempt) (rows : RowValue) (quality : QualityReceipt)

/-- An answer that was projected. -/
def judgeAnswer (policy : CapabilityRequest) (allowEmpty : Bool) (binding : Binding)
    (envelope : CapabilityEvidence) (normalised : Normalised) : Consulted :=
  let rows := normalised.rows
  let count := rows.rowCount
  let verdict := judge host policy allowEmpty count normalised (qualityReceipt host rows envelope policy)
  let attempt : Attempt := {
    source := binding.source
    status := .judged verdict.quality.status
    rows := some count
    quality := some verdict.quality.status
    responseHash := verdict.quality.responseHash
    warnings := verdict.quality.warnings
    ms := some (resolver.elapsed binding.source) }
  if count = some 0 ∧ !allowEmpty then .attempted { attempt with status := .judged .empty }
  else if !verdict.valid then .attempted attempt
  else .served attempt rows verdict.quality

/-- The body of the loop. -/
def consult (capability : String) (policy : CapabilityRequest) (sources : Option (List String))
    (allowEmpty : Bool) (binding : Binding) : Consulted :=
  if sources.any (fun allowed => !(allowed.contains binding.source)) then .passedOver
  else
    match resolver.fetchers (binding.source, capability) with
    | none => .passedOver
    | some answer =>
      if policy.requireLiveVerified ∧ binding.status ≠ .liveVerified then
        .attempted { source := binding.source, status := .notLiveVerified }
      else if policy.requireDecisionEligible ∧ !binding.decisionEligible then
        .attempted { source := binding.source, status := .notDecisionEligible }
      else if undeclaredFields policy binding ≠ [] then
        .attempted {
          source := binding.source
          status := .missingRequiredFields
          missing := ((undeclaredFields policy binding).dedup).mergeSort
            (fun first second => decide (first ≤ second)) }
      else if resolver.healthGate.any (fun healthy => !(healthy binding.source capability)) then
        .attempted { source := binding.source, status := .circuitOpen }
      else
        match unpackEvidence answer with
        | .error text =>
          .attempted {
            source := binding.source
            status := .failed
            error := text.take 200
            ms := some (resolver.elapsed binding.source) }
        | .ok (rows, envelope) =>
          match normaliseRows rows binding.spec with
          | .error error =>
            .attempted {
              source := binding.source
              status := .failed
              error := "normalise:".toList ++ error.name ++ ": ".toList ++ error.text.take 160
              ms := some (resolver.elapsed binding.source) }
          | .ok normalised => judgeAnswer host resolver policy allowEmpty binding envelope normalised

/-- The loop over the bindings. -/
def fetchLoop (capability : String) (policy : CapabilityRequest) (sources : Option (List String))
    (allowEmpty : Bool) : List Attempt → List Binding → Except FetchError CapabilityResult
  | attempts, [] => .error (.capabilityUnavailable capability attempts)
  | attempts, binding :: rest =>
    match consult host resolver capability policy sources allowEmpty binding with
    | .passedOver => fetchLoop capability policy sources allowEmpty attempts rest
    | .attempted attempt => fetchLoop capability policy sources allowEmpty (attempts ++ [attempt]) rest
    | .served attempt rows quality =>
      .ok {
        capability := capability
        source := binding.source
        rows := rows
        binding := binding
        attempts := attempts ++ [attempt]
        request := policy
        quality := quality }

/-- The policy of a call. -/
def policyOf (capability : String) (acceptEmpty : Bool) (request : Option CapabilityRequest) :
    CapabilityRequest :=
  request.getD { capability := capability, allowEmpty := acceptEmpty }

def fetch (capability : String) (sources : Option (List String)) (acceptEmpty : Bool)
    (request : Option CapabilityRequest) : Except FetchError CapabilityResult :=
  let policy := policyOf capability acceptEmpty request
  if !(resolver.capabilities.contains capability) then .error (.valueError ("unknown capability " ++ capability))
  else if policy.capability ≠ capability then
    .error (.valueError ("request capability " ++ policy.capability ++ " does not match " ++ capability))
  else
    fetchLoop host resolver capability policy sources (acceptEmpty || policy.allowEmpty) []
      (bindingsFor resolver capability)

end TradingHarness
