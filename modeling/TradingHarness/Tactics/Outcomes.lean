import TradingHarness.Tactics.Exits

set_option autoImplicit false

/-! # What an outcome of `evaluatePick` says

Every outcome of an evaluation is the one `entryOutcome` computes for its entry and rule, and a
settled outcome is a settled walk of the capped rule from the entry's first sell session on. The
results about particular rules start from these two facts. -/

namespace TradingHarness

/-! ## From the evaluation to one entry and rule -/

theorem collectOutcomes_ok (outcome : Entry → ExitKey → Except PyError Outcome)
    (collected : Entry → ExitKey → Outcome) (h : collectOutcomes outcome = .ok collected)
    (entry : Entry) (key : ExitKey) : outcome entry key = .ok (collected entry key) := by
  unfold collectOutcomes at h
  simp only at h
  split at h
  · simp at h
  · rename_i hnone
    rw [List.findSome?_eq_none_iff] at hnone
    have hentry := hnone entry (mem_entries entry)
    rw [List.findSome?_eq_none_iff] at hentry
    have hkey := hentry key (mem_exits key)
    simp only [Except.ok.injEq] at h
    subst h
    cases ho : outcome entry key with
    | error e => simp [ho] at hkey
    | ok result => simp only [ho]

variable (symbol : String) (slot : Slot) (path : List SettlementBar) (referenceClose : Option ℚ)
  (priorCloses : List (Option ℚ)) (result : PickEvaluation)

theorem evaluatePick_entries (hpath : path ≠ [])
    (h : evaluatePick symbol slot path referenceClose priorCloses = .ok result)
    (entry : Entry) (key : ExitKey) :
    entryOutcome symbol slot path referenceClose priorCloses entry key
      = .ok (result.entries entry key) := by
  cases path with
  | nil => exact absurd rfl hpath
  | cons first rest =>
      simp only [evaluatePick] at h
      cases hc : collectOutcomes
          (entryOutcome symbol slot (first :: rest) referenceClose priorCloses) with
      | error e => simp [hc, bind, Except.bind] at h
      | ok collected =>
          have hentries : result.entries = collected := by
            simp only [hc, bind, Except.bind] at h
            repeat' split at h
            all_goals first
              | exact absurd h (by simp)
              | (simp only [pure, Except.pure, Except.ok.injEq] at h; rw [← h])
          rw [hentries]
          exact collectOutcomes_ok _ collected hc entry key

/-- Reading a value off a successful evaluation. -/
theorem evaluatePick_of_map {α : Type}         (read : PickEvaluation → α) (value : α)
    (h : (evaluatePick symbol slot path referenceClose priorCloses).map read = .ok value) :
    ∃ result, evaluatePick symbol slot path referenceClose priorCloses = .ok result ∧
      read result = value := by
  cases he : evaluatePick symbol slot path referenceClose priorCloses with
  | error e => simp [he, Except.map] at h
  | ok result =>
      rw [he] at h
      exact ⟨result, rfl, Except.ok.inj h⟩

theorem path_ne_nil_of_settled (h : evaluatePick symbol slot path referenceClose priorCloses = .ok result)
    (entry : Entry) (key : ExitKey)
    (hstatus : (result.entries entry key).status ≠ .missingBar) : path ≠ [] := by
  rintro rfl
  simp only [evaluatePick, Except.ok.injEq] at h
  subst h
  exact hstatus rfl

/-! ## From a settled outcome to its walk -/

/-- The walk, base and exit that stand behind a settled outcome. -/
structure SettledBy (symbol : String) (slot : Slot) (path : List SettlementBar)
    (referenceClose : Option ℚ) (priorCloses : List (Option ℚ)) (entry : Entry) (key : ExitKey)
    (outcome : Outcome) where
  base : ℚ
  exitIndex : ℕ
  field : ExitField
  price : ℚ
  reason : Reason
  base_eq : baseOf slot path referenceClose entry = some base
  base_ne_zero : base ≠ 0
  accepted : entryRefusal symbol slot path entry = none
  walked : walkPick symbol slot path referenceClose priorCloses entry key base
    = .settled exitIndex field price reason
  outcome_eq : outcome =
    { status := .settled, rawReturn := some (price / base - 1)
      netReturn := some (price / base - 1 - entryCost entry)
      exitIndex := some (startOf slot entry + exitIndex), field := some field
      reason := some reason, price := some price, priceBasis := (priceWindow path).basis }

theorem returnResult_settled (walked : Walked) (base : ℚ) (basis : PriceBasis) (cost : ℚ)
    (offset : ℕ) (outcome : Outcome)
    (h : returnResult walked base basis cost offset = .ok outcome)
    (hstatus : outcome.status = .settled) :
    ∃ i field price reason, walked = .settled i field price reason ∧ base ≠ 0 ∧
      outcome =
        { status := .settled, rawReturn := some (price / base - 1)
          netReturn := some (price / base - 1 - cost), exitIndex := some (offset + i)
          field := some field, reason := some reason, price := some price
          priceBasis := basis } := by
  cases walked with
  | pending reason =>
      simp only [returnResult, Except.ok.injEq] at h
      subst h
      simp at hstatus
  | settled i field price reason =>
      simp only [returnResult] at h
      cases hd : divide price base with
      | error e => simp [hd, bind, Except.bind] at h
      | ok ratio =>
          obtain ⟨hbase, rfl⟩ := divide_ok price base ratio hd
          simp only [hd, bind, Except.bind, pure, Except.pure, Except.ok.injEq] at h
          exact ⟨i, field, price, reason, rfl, hbase, h.symm⟩

theorem entryRefusal_not_settled (entry : Entry) (refused : Outcome)
    (h : entryRefusal symbol slot path entry = some refused) : refused.status ≠ .settled := by
  cases entry with
  | held => simp [entryRefusal] at h
  | buyOpen =>
      simp only [entryRefusal] at h
      split at h
      · simp only [Option.some.injEq] at h
        simp [← h]
      · rw [Option.map_eq_some_iff] at h
        obtain ⟨reason, -, rfl⟩ := h
        simp

theorem entryOutcome_settled (entry : Entry) (key : ExitKey)
    (outcome : Outcome)
    (h : entryOutcome symbol slot path referenceClose priorCloses entry key = .ok outcome)
    (hstatus : outcome.status = .settled) :
    Nonempty (SettledBy symbol slot path referenceClose priorCloses entry key outcome) := by
  unfold entryOutcome settlePick at h
  simp only at h
  cases hb : baseOf slot path referenceClose entry with
  | none =>
      simp only [hb, Except.ok.injEq] at h
      subst h
      simp at hstatus
  | some base =>
      simp only [hb] at h
      cases hr : entryRefusal symbol slot path entry with
      | some refused =>
          simp only [hr, Except.ok.injEq] at h
          subst h
          exact absurd hstatus (entryRefusal_not_settled symbol slot path entry refused hr)
      | none =>
          simp only [hr] at h
          split at h
          · simp only [Except.ok.injEq] at h
            subst h
            simp at hstatus
          · obtain ⟨i, field, price, reason, hw, hne, ho⟩ :=
              returnResult_settled _ _ _ _ _ outcome h hstatus
            exact ⟨⟨base, i, field, price, reason, hb, hne, hr, hw, ho⟩⟩

/-- Every settled outcome of an evaluation has its walk. -/
theorem evaluatePick_settled (h : evaluatePick symbol slot path referenceClose priorCloses = .ok result)
    (entry : Entry) (key : ExitKey)
    (hstatus : (result.entries entry key).status = .settled) :
    Nonempty (SettledBy symbol slot path referenceClose priorCloses entry key
      (result.entries entry key)) := by
  have hpath : path ≠ [] :=
    path_ne_nil_of_settled symbol slot path referenceClose priorCloses result h entry key
      (by rw [hstatus]; decide)
  have hout := evaluatePick_entries symbol slot path referenceClose priorCloses result hpath h
    entry key
  exact entryOutcome_settled symbol slot path referenceClose priorCloses entry key _ hout hstatus

/-! ## Two walks of one entry -/

theorem returnResult_eq_iff (walked walked' : Walked) (base : ℚ) (basis : PriceBasis) (cost : ℚ)
    (offset : ℕ) (outcome : Outcome)
    (h : returnResult walked base basis cost offset = .ok outcome) :
    returnResult walked' base basis cost offset = .ok outcome ↔ walked' = walked := by
  constructor
  · intro h'
    cases walked with
    | pending reason =>
        simp only [returnResult, Except.ok.injEq] at h
        subst h
        cases walked' with
        | pending reason' =>
            simp only [returnResult, Except.ok.injEq, Outcome.mk.injEq, Option.some.injEq] at h'
            rw [h'.2.2.2.2.2.1]
        | settled i field price reason' =>
            simp only [returnResult] at h'
            cases hd : divide price base with
            | error e => simp [hd, bind, Except.bind] at h'
            | ok ratio => simp [hd, bind, Except.bind, pure, Except.pure] at h'
    | settled i field price reason =>
        obtain ⟨i, field, price, reason, hw, -, rfl⟩ := returnResult_settled _ base basis cost
          offset outcome h (by
            simp only [returnResult] at h
            cases hd : divide price base with
            | error e => simp [hd, bind, Except.bind] at h
            | ok ratio =>
                simp only [hd, bind, Except.bind, pure, Except.pure, Except.ok.injEq] at h
                rw [← h])
        obtain ⟨i', field', price', reason', hw', -, ho⟩ := returnResult_settled _ base basis cost
          offset _ h' rfl
        simp only [Outcome.mk.injEq, Option.some.injEq, Nat.add_left_cancel_iff] at ho
        obtain ⟨-, -, -, rfl, rfl, rfl, rfl, -⟩ := ho
        rw [hw, hw']
  · rintro rfl
    exact h

/-- Two walks give an entry one outcome when they agree wherever the entry is walked. -/
theorem settlePick_eq_iff (entry : Entry) (walk walk' : ℚ → Walked) (outcome : Outcome)
    (h : settlePick symbol slot path referenceClose entry walk = .ok outcome) :
    settlePick symbol slot path referenceClose entry walk' = .ok outcome ↔
      ∀ base, baseOf slot path referenceClose entry = some base →
        entryRefusal symbol slot path entry = none → startOf slot entry < path.length →
        walk' base = walk base := by
  have hlength : (priceWindow path).bars.length = path.length := by simp [priceWindow]
  unfold settlePick at h ⊢
  cases hb : baseOf slot path referenceClose entry with
  | none =>
      rw [hb] at h
      simp only [h, reduceCtorEq, false_implies, implies_true]
  | some base =>
      rw [hb] at h
      dsimp only at h ⊢
      cases hr : entryRefusal symbol slot path entry with
      | some refused =>
          rw [hr] at h
          simp only [h, reduceCtorEq, false_implies, implies_true]
      | none =>
          rw [hr] at h
          dsimp only at h ⊢
          rw [hlength] at h ⊢
          by_cases hshort : path.length ≤ startOf slot entry
          · rw [if_pos hshort] at h ⊢
            refine ⟨fun _ _ _ _ hlt => absurd hlt (by omega), fun _ => h⟩
          · rw [if_neg hshort] at h ⊢
            rw [returnResult_eq_iff _ _ base _ _ _ outcome h]
            constructor
            · intro hwalk base' hbase _ _
              rw [Option.some.injEq] at hbase
              rw [← hbase]
              exact hwalk
            · intro hall
              exact hall base rfl rfl (by omega)

end TradingHarness
