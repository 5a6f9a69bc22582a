import TradingHarness.Tactics.Outcomes
import TradingHarness.Settlement.LookAhead

set_option autoImplicit false

/-! # Later bars and settled picks

The outcomes of `evaluatePick` read the price basis of the whole path. As for a settled idea, a run
of sessions that keep the basis leaves every outcome that is settled, and every refused entry, as it
was. -/

namespace TradingHarness

/-! ## An evaluation that does not raise -/

/-- The price the measures of an evaluation divide by. -/
def measureReference (slot : Slot) (path : List SettlementBar) (referenceClose : Option ℚ) :
    Option ℚ :=
  (heldReference slot path referenceClose).or (entryPriceOf slot path)

theorem divide_of_ne_zero (a b : ℚ) (hb : b ≠ 0) : divide a b = .ok (a / b) := if_neg hb

theorem measure_total (price reference : Option ℚ) (h : reference ≠ some 0) :
    ∃ value, measure price reference = .ok value := by
  unfold measure
  cases reference with
  | none => exact ⟨none, rfl⟩
  | some r =>
      cases price with
      | none => exact ⟨none, rfl⟩
      | some p =>
          have hr : r ≠ 0 := fun hr => h (by rw [hr])
          exact ⟨some (p / r - 1), by simp [divide_of_ne_zero p r hr, bind, Except.bind, pure,
            Except.pure]⟩

variable (symbol : String) (slot : Slot) (path later : List SettlementBar) (referenceClose : Option ℚ)
  (priorCloses : List (Option ℚ)) (entry : Entry) (key : ExitKey) (base : ℚ)

theorem entryPrice_pos (hbase : entryPriceOf slot path = some base)
    (haccepted : entryRefusal symbol slot path .buyOpen = none) : 0 < base := by
  unfold entryRefusal at haccepted
  unfold entryPriceOf priceWindow at hbase
  cases hbar : path[entryIndexOf slot]? with
  | none => simp [hbar] at haccepted
  | some bar =>
      simp only [hbar, Option.map_eq_none_iff] at haccepted
      simp only [List.getElem?_map, hbar, Option.map_some, Option.bind_some, priceBar] at hbase
      have hfactor := factorOn_pos path bar (List.mem_of_getElem? hbar)
      unfold entryBlockReason at haccepted
      split at haccepted
      · simp at haccepted
      · cases hopen : bar.openPrice with
        | none => simp [hopen] at haccepted
        | some price =>
            simp only [hopen] at haccepted
            split at haccepted
            · simp at haccepted
            · next hprice =>
                simp only [hopen, Option.map_some, Option.some.injEq] at hbase
                rw [← hbase]
                exact mul_pos (not_le.mp hprice) hfactor

theorem entryOutcome_total (h : measureReference slot path referenceClose ≠ some 0) :
    ∃ outcome, entryOutcome symbol slot path referenceClose priorCloses entry key
      = .ok outcome := by
  unfold entryOutcome settlePick
  cases hb : baseOf slot path referenceClose entry with
  | none => exact ⟨_, rfl⟩
  | some base =>
      dsimp only
      cases hr : entryRefusal symbol slot path entry with
      | some refused => exact ⟨_, rfl⟩
      | none =>
          dsimp only
          split
          · exact ⟨_, rfl⟩
          · have hbase : base ≠ 0 := by
              rintro rfl
              cases entry with
              | held =>
                  have hheld : heldReference slot path referenceClose = some 0 := hb
                  exact h (by rw [measureReference, hheld]; rfl)
              | buyOpen => exact (entryPrice_pos symbol slot path 0 hb hr).false
            unfold returnResult
            split
            · exact ⟨_, rfl⟩
            · simp [divide_of_ne_zero _ base hbase, bind, Except.bind, pure, Except.pure]

theorem collectOutcomes_total (outcome : Entry → ExitKey → Except PyError Outcome)
    (h : ∀ entry key, ∃ result, outcome entry key = .ok result) :
    ∃ collected, collectOutcomes outcome = .ok collected := by
  unfold collectOutcomes
  dsimp only
  split
  · next e hfailure =>
      -- some entry and rule failed, but none does
      obtain ⟨entry, -, hentry⟩ := List.exists_of_findSome?_eq_some hfailure
      obtain ⟨key, -, hkey⟩ := List.exists_of_findSome?_eq_some hentry
      obtain ⟨result, hresult⟩ := h entry key
      rw [hresult] at hkey
      simp at hkey
  · exact ⟨_, rfl⟩

theorem evaluatePick_total (h : measureReference slot path referenceClose ≠ some 0) :
    ∃ result, evaluatePick symbol slot path referenceClose priorCloses = .ok result := by
  cases path with
  | nil => exact ⟨_, rfl⟩
  | cons first rest =>
      obtain ⟨collected, hcollected⟩ := collectOutcomes_total
        (entryOutcome symbol slot (first :: rest) referenceClose priorCloses)
        (fun entry key => entryOutcome_total symbol slot (first :: rest) referenceClose
          priorCloses entry key h)
      have hmeasure := fun price => measure_total price
        (measureReference slot (first :: rest) referenceClose) h
      unfold measureReference at hmeasure
      unfold evaluatePick
      dsimp only
      obtain ⟨high, hhigh⟩ := hmeasure ((priceWindow (first :: rest)).bars[1]?.bind (·.high))
      obtain ⟨low, hlow⟩ := hmeasure ((priceWindow (first :: rest)).bars[1]?.bind (·.low))
      obtain ⟨high3, hhigh3⟩ := hmeasure
        (highest ((((priceWindow (first :: rest)).bars.drop 1).take 3).map (·.high)))
      rw [hcollected, hhigh, hlow, hhigh3]
      exact ⟨_, rfl⟩

/-! ## Appended bars -/

section

variable (h : KeepsBasis path later)

include h

theorem bars_append_getElem? (i : ℕ)
    (hi : i < path.length) :
    (priceWindow (path ++ later)).bars[i]? = (priceWindow path).bars[i]? := by
  rw [priceWindow_append path later h]
  exact List.getElem?_append_left (by simpa [priceWindow] using hi)

theorem basisReference_append (hpath : path ≠ []) (reference : ℚ) :
    basisReference (path ++ later) reference = basisReference path reference := by
  cases path with
  | nil => exact absurd rfl hpath
  | cons first rest =>
      have hadjusted := h.pathAdjusted_eq
      rw [List.cons_append] at hadjusted ⊢
      unfold basisReference
      dsimp only
      rw [hadjusted]

theorem heldReference_append (hpath : path ≠ []) :
    heldReference slot (path ++ later) referenceClose
      = heldReference slot path referenceClose := by
  cases slot with
  | auction =>
      simp only [heldReference]
      congr 1
      funext reference
      exact basisReference_append path later h hpath reference
  | close =>
      simp only [heldReference]
      rw [bars_append_getElem? path later h 0 (List.length_pos_iff.mpr hpath)]

theorem entryPriceOf_append (hbase : entryPriceOf slot path = some base) :
    entryPriceOf slot (path ++ later) = some base := by
  have hlt : entryIndexOf slot < path.length := by
    by_contra hge
    have hnone : (priceWindow path).bars[entryIndexOf slot]? = none := by
      simpa [priceWindow] using hge
    simp [entryPriceOf, hnone] at hbase
  rw [← hbase]
  unfold entryPriceOf
  rw [bars_append_getElem? path later h _ hlt]

theorem baseOf_append (hpath : path ≠ [])
    (hbase : baseOf slot path referenceClose entry = some base) :
    baseOf slot (path ++ later) referenceClose entry = some base := by
  cases entry with
  | held =>
      rw [← hbase]
      exact heldReference_append slot path later referenceClose h hpath
  | buyOpen => exact entryPriceOf_append slot path later base h hbase

theorem entryRefusal_append (hentry : entry = .buyOpen → entryIndexOf slot < path.length) :
    entryRefusal symbol slot (path ++ later) entry = entryRefusal symbol slot path entry := by
  cases entry with
  | held => rfl
  | buyOpen =>
      have hbasis : (priceWindow (path ++ later)).basis = (priceWindow path).basis := by
        rw [priceWindow_append path later h]
      unfold entryRefusal
      rw [List.getElem?_append_left (hentry rfl), hbasis]

theorem contextOf_append (hpath : path ≠ []) :
    contextOf symbol slot (path ++ later) referenceClose priorCloses base
      = contextOf symbol slot path referenceClose priorCloses base := by
  have hreference : basisReference (path ++ later) = basisReference path :=
    funext (basisReference_append path later h hpath)
  unfold contextOf
  rw [heldReference_append slot path later referenceClose h hpath, hreference]

theorem walkPick_append (hpath : path ≠ [])
    (hstart : startOf slot entry ≤ path.length)
    (hdecided : (walkPick symbol slot path referenceClose priorCloses entry key base).decided
      = true) :
    walkPick symbol slot (path ++ later) referenceClose priorCloses entry key base
      = walkPick symbol slot path referenceClose priorCloses entry key base := by
  have hdrop : ((priceWindow path).bars
        ++ later.map (priceBar (pathAdjusted path))).drop (startOf slot entry)
      = (priceWindow path).bars.drop (startOf slot entry)
        ++ later.map (priceBar (pathAdjusted path)) :=
    List.drop_append_of_le_length (by simpa [priceWindow] using hstart)
  unfold walkPick walkExit at hdecided ⊢
  rw [contextOf_append symbol slot path later referenceClose priorCloses base h hpath,
    priceWindow_append path later h]
  dsimp only at hdecided ⊢
  rw [hdrop]
  exact walkFrom_append symbol .long _ _ _ 0 _ _ hdecided

end

/-- An outcome that is final: settled, or refused at the entry. -/
def Outcome.final (outcome : Outcome) : Prop :=
  outcome.status = .settled ∨ outcome.status = .noTrade

/-- A final outcome is untouched by bars that keep the basis. -/
theorem entryOutcome_append (outcome : Outcome) (h : KeepsBasis path later) (hpath : path ≠ []) (hfinal : outcome.final)
    (ho : entryOutcome symbol slot path referenceClose priorCloses entry key = .ok outcome) :
    entryOutcome symbol slot (path ++ later) referenceClose priorCloses entry key
      = .ok outcome := by
  have hbasis : (priceWindow (path ++ later)).basis = (priceWindow path).basis := by
    rw [priceWindow_append path later h]
  unfold entryOutcome settlePick at ho ⊢
  cases hb : baseOf slot path referenceClose entry with
  | none =>
      -- a missing bar is not final
      simp only [hb, Except.ok.injEq] at ho
      subst ho
      simp [Outcome.final] at hfinal
  | some base =>
      have hb' := baseOf_append slot path later referenceClose entry base h hpath hb
      simp only [hb] at ho
      simp only [hb', hbasis]
      have hentry : entry = .buyOpen → entryIndexOf slot < path.length := by
        rintro rfl
        by_contra hge
        have hnone : (priceWindow path).bars[entryIndexOf slot]? = none := by
          simpa [priceWindow] using hge
        simp [baseOf, entryPriceOf, hnone] at hb
      rw [entryRefusal_append symbol slot path later entry h hentry]
      cases hr : entryRefusal symbol slot path entry with
      | some refused =>
          simp only [hr] at ho
          exact ho
      | none =>
          simp only [hr] at ho
          simp only
          split at ho
          · simp only [Except.ok.injEq] at ho
            subst ho
            simp [Outcome.final] at hfinal
          · next hlength =>
              have hstart : startOf slot entry < path.length := by
                simpa [priceWindow] using hlength
              have hlonger : ¬ (priceWindow (path ++ later)).bars.length ≤ startOf slot entry := by
                simp only [priceWindow, List.length_map, List.length_append]
                omega
              rw [if_neg hlonger]
              have hdecided : (walkPick symbol slot path referenceClose priorCloses entry key
                  base).decided = true := by
                cases hw : walkPick symbol slot path referenceClose priorCloses entry key base with
                | settled i field price reason => rfl
                | pending reason =>
                    simp only [hw, returnResult, Except.ok.injEq] at ho
                    subst ho
                    simp [Outcome.final] at hfinal
              rw [walkPick_append symbol slot path later referenceClose priorCloses entry key base
                h hpath hstart.le hdecided]
              exact ho

theorem measureReference_of_final (outcome : Outcome) (hfinal : outcome.final)
    (ho : entryOutcome symbol slot path referenceClose priorCloses entry key = .ok outcome) :
    ∃ base, measureReference slot path referenceClose = some base := by
  have hbase : ∃ base, baseOf slot path referenceClose entry = some base := by
    cases hb : baseOf slot path referenceClose entry with
    | some base => exact ⟨base, rfl⟩
    | none =>
        simp only [entryOutcome, settlePick, hb, Except.ok.injEq] at ho
        subst ho
        simp [Outcome.final] at hfinal
  obtain ⟨base, hbase⟩ := hbase
  unfold measureReference
  cases hheld : heldReference slot path referenceClose with
  | some reference => exact ⟨reference, rfl⟩
  | none =>
      cases entry with
      | held =>
          have hnone : baseOf slot path referenceClose .held = none := hheld
          simp [hnone] at hbase
      | buyOpen => exact ⟨base, hbase⟩

theorem measureReference_append (h : KeepsBasis path later) (hpath : path ≠ [])
    (hbase : measureReference slot path referenceClose = some base) :
    measureReference slot (path ++ later) referenceClose = some base := by
  unfold measureReference at hbase ⊢
  rw [heldReference_append slot path later referenceClose h hpath]
  cases hheld : heldReference slot path referenceClose with
  | some reference =>
      rw [hheld] at hbase
      exact hbase
  | none =>
      rw [hheld] at hbase
      exact entryPriceOf_append slot path later base h hbase

/-- Over every run of sessions that keep the basis, a final outcome stays as it is. -/
theorem evaluatePick_run (path' : List SettlementBar)
    (referenceClose : Option ℚ) (priorCloses : List (Option ℚ)) (result : PickEvaluation)
    (entry : Entry) (key : ExitKey)
    (hreference : measureReference slot path referenceClose ≠ some 0)
    (h : evaluatePick symbol slot path referenceClose priorCloses = .ok result)
    (hfinal : (result.entries entry key).final)
    (hrun : Relation.ReflTransGen (Grows 0) path path') :
    ∃ result', evaluatePick symbol slot path' referenceClose priorCloses = .ok result' ∧
      result'.entries entry key = result.entries entry key := by
  obtain ⟨later, rfl, hkeeps⟩ := grows_run 0 path path' (Nat.zero_le _) hrun
  rw [List.drop_zero] at hkeeps
  have hpath : path ≠ [] := by
    apply path_ne_nil_of_settled symbol slot path referenceClose priorCloses result h entry key
    rcases hfinal with hstatus | hstatus <;> rw [hstatus] <;> decide
  have hout := evaluatePick_entries symbol slot path referenceClose priorCloses result hpath h
    entry key
  obtain ⟨base, hbase⟩ := measureReference_of_final symbol slot path referenceClose priorCloses
    entry key _ hfinal hout
  have hbase' := measureReference_append slot path later referenceClose base hkeeps hpath hbase
  have htotal : measureReference slot (path ++ later) referenceClose ≠ some 0 := by
    rw [hbase', ← hbase]
    exact hreference
  obtain ⟨result', hresult'⟩ := evaluatePick_total symbol slot (path ++ later) referenceClose
    priorCloses htotal
  have hout' := evaluatePick_entries symbol slot (path ++ later) referenceClose priorCloses result'
    (by simp [hpath]) hresult' entry key
  rw [entryOutcome_append symbol slot path later referenceClose priorCloses entry key _ hkeeps
    hpath hfinal hout] at hout'
  exact ⟨result', hresult', (Except.ok.inj hout').symm⟩

/-- **No look-ahead.** Over every run of sessions that keep the basis, a settled idea keeps its
    settlement and a settled or refused pick keeps its outcome. -/
theorem settled_stays_settled (symbol : String) (path path' : List SettlementBar) :
    (∀ (direction : Direction) (horizon : ℤ) (benchmarkReturn : Option (Date → Date → Option ℚ))
        (cost : ℚ) (maxRoll : ℕ) (s : Settlement),
      settle path symbol direction horizon benchmarkReturn cost maxRoll = .ok (.settled s) →
      Relation.ReflTransGen (Grows (targetIndex horizon)) path path' →
      settle path' symbol direction horizon benchmarkReturn cost maxRoll = .ok (.settled s)) ∧
    (∀ (slot : Slot) (referenceClose : Option ℚ) (priorCloses : List (Option ℚ))
        (result : PickEvaluation) (entry : Entry) (key : ExitKey),
      measureReference slot path referenceClose ≠ some 0 →
      evaluatePick symbol slot path referenceClose priorCloses = .ok result →
      (result.entries entry key).final →
      Relation.ReflTransGen (Grows 0) path path' →
      ∃ result', evaluatePick symbol slot path' referenceClose priorCloses = .ok result' ∧
        result'.entries entry key = result.entries entry key) := by
  constructor
  · intro direction horizon benchmarkReturn cost maxRoll s h hrun
    exact settle_run path path' symbol direction horizon benchmarkReturn cost maxRoll s h hrun
  · intro slot referenceClose priorCloses result entry key hreference h hfinal hrun
    exact evaluatePick_run symbol slot path path' referenceClose priorCloses result entry key
      hreference h hfinal hrun

/-- A pick at 10, its stock split two for one on the next session. -/
def splitPath : List SettlementBar :=
  [tradedBar 20000 10 10 10 10 10 1, tradedBar 20001 5 (11 / 2) 5 (11 / 2) 5 2]

/-- One more session of the split stock that keeps the basis. -/
theorem settled_stays_settled_split :
    ∃ result result', evaluatePick "600000.SH" .close splitPath none [] = .ok result ∧
      evaluatePick "600000.SH" .close (splitPath ++ [tradedBar 20002 6 6 6 6 6 2]) none []
        = .ok result' ∧
      result'.entries .held .sellClose = result.entries .held .sellClose := by
  obtain ⟨result, hresult, hstatus⟩ := evaluatePick_of_map "600000.SH" .close splitPath none []
    (fun r => (r.entries .held .sellClose).status) .settled (by decide +kernel)
  have hreference : measureReference .close splitPath none ≠ some 0 := by decide +kernel
  have hrun : Relation.ReflTransGen (Grows 0) splitPath
      (splitPath ++ [tradedBar 20002 6 6 6 6 6 2]) :=
    Relation.ReflTransGen.single ⟨tradedBar 20002 6 6 6 6 6 2, rfl, fun _ => by decide +kernel⟩
  obtain ⟨result', hresult', hsame⟩ := (settled_stays_settled "600000.SH" splitPath _).2 .close
    none [] result .held .sellClose hreference hresult (Or.inl hstatus) hrun
  exact ⟨result, result', hresult, hresult', hsame⟩

/-- A low-priced idea on factors of ten, sold at a close above its scaled down limit. -/
def scaledLowPricedPath : List SettlementBar :=
  let bar (day : Date) (openPrice close preClose : ℚ) : SettlementBar :=
    { tradingDate := day, openPrice := some openPrice, high := some openPrice, low := some close
      close := some close, preClose := some preClose, adjFactor := some 10 }
  [bar 20000 (53 / 50) (21 / 20) (21 / 20), bar 20001 1 (19 / 20) (21 / 20),
    bar 20002 1 (97 / 100) (19 / 20)]

/-- A later bar without a factor puts settled sessions on raw prices: the holder's return falls
    from ten percent to minus forty-five, and the exit of the settled idea moves a session. -/
theorem settled_changes_on_missing_factor :
    let later := [{ tradedBar 20003 6 6 6 6 6 2 with adjFactor := none }]
    let heldAtClose (path : List SettlementBar) :=
      (evaluatePick "600000.SH" .close path none []).map (fun r =>
        ((r.entries .held .sellClose).status, (r.entries .held .sellClose).rawReturn))
    let exitDate (path : List SettlementBar) :=
      (settle path "600000.SH" .long 2).map (fun r =>
        match r with
        | .settled s => some s.exitDate
        | _ => none)
    heldAtClose splitPath = .ok (.settled, some (1 / 10)) ∧
      heldAtClose (splitPath ++ later) = .ok (.settled, some (-(9 / 20))) ∧
      exitDate scaledLowPricedPath = .ok (some 20001) ∧
      exitDate (scaledLowPricedPath ++ later) = .ok (some 20002) := by
  decide +kernel

end TradingHarness
