import Mathlib.Algebra.Order.BigOperators.Group.List
import Mathlib.Algebra.Order.Ring.Rat
import Mathlib.Data.List.Induction
import TradingHarness.Paper.RiskGate

set_option autoImplicit false

/-! # The limits of the risk gate

A position counts in each of its sectors with an equal part of its value. The gate keeps the limit of that measure,
and that of the value itself in sectors whose positions have no other sector. -/

namespace TradingHarness

/-! ## What a portfolio weighs -/

variable (scan : ScanPortfolio) (amount : SectoredPosition → ℚ) (key : List Char)

def ScanPortfolio.marketValue : ℚ := (scan.positions.map (markedValue scan.quotes)).sum

def ScanPortfolio.equity : ℚ := scan.cash.getD 0 + scan.marketValue

def ScanPortfolio.grossWeight : ℚ := scan.marketValue / scan.equity

/-- The positions that belong to the sector, counted as `amount` says. -/
def ScanPortfolio.sectorSum : ℚ :=
  (scan.positions.map (fun position =>
    if (distinctKeys position.sectorKeys).contains key then amount position else 0)).sum

/-- The weight of the positions that belong to the sector. -/
def ScanPortfolio.sectorWeight : ℚ :=
  scan.sectorSum (markedValue scan.quotes) key / scan.equity

/-- Their weight where a position is split over its sectors. -/
def ScanPortfolio.splitWeight : ℚ :=
  scan.sectorSum (fun position => markedValue scan.quotes position / (distinctKeys position.sectorKeys).length) key
    / scan.equity

/-- The weight of the positions in the symbol. -/
def ScanPortfolio.symbolWeight (symbol : Symbol) : ℚ :=
  ((scan.positions.filter (fun position => position.symbol == symbol)).map (markedValue scan.quotes)).sum / scan.equity

/-- Every position in the sector has no other sector. -/
def ScanPortfolio.Alone : Prop :=
  ∀ position ∈ scan.positions, key ∈ distinctKeys position.sectorKeys → distinctKeys position.sectorKeys = [key]

/-- Amounts are exact: rounding changes nothing. -/
def unrounded (value : ℚ) (_ : ℕ) : ℚ := value

/-! ## Exposure by sector -/

theorem lookup_addShares (share : ℚ) (keys : List (List Char)) (hkeys : keys.Nodup) (totals : List (List Char × ℚ))
    (key : List Char) : ((keys.foldl (addShare share) totals).lookup key).getD 0
      = (totals.lookup key).getD 0 + if keys.contains key then share else 0 := by
  induction keys generalizing totals with
  | nil => simp
  | cons first rest ih =>
      rw [List.nodup_cons] at hkeys
      rw [List.foldl_cons, ih hkeys.2]
      unfold addShare
      by_cases hkey : key = first
      · rw [hkey, Dict.lookup_set_self]
        have hrest : rest.contains first = false := by simpa using hkeys.1
        rw [hrest]
        simp
      · rw [Dict.lookup_set_ne _ _ _ _ hkey]
        simp [hkey]

theorem keys_addShares {share : ℚ} {keys : List (List Char)} {totals : List (List Char × ℚ)}
    (h : (totals.map Prod.fst).Nodup) : ((keys.foldl (addShare share) totals).map Prod.fst).Nodup := by
  induction keys generalizing totals with
  | nil => exact h
  | cons key rest ih => exact ih (Dict.nodup_keys_set totals key _ h)

theorem lookup_sectorTotals (equity : ℚ) (rows : List MarkedRow) (key : List Char) :
    ((sectorTotals equity rows).lookup key).getD 0
      = (rows.map (fun row => if (distinctKeys row.sectorKeys).contains key then sectorShare equity row else 0)).sum := by
  unfold sectorTotals
  induction rows using List.reverseRecOn with
  | nil => rfl
  | append_singleton rows row ih =>
      have hkeys : (distinctKeys row.sectorKeys).Nodup := Dict.nodup_eraseDups _
      rw [List.foldl_append, List.foldl_cons, List.foldl_nil, lookup_addShares _ _ hkeys, ih,
        List.map_append, List.sum_append, List.map_singleton, List.sum_singleton]

theorem keys_sectorTotals (equity : ℚ) (rows : List MarkedRow) :
    ((sectorTotals equity rows).map Prod.fst).Nodup := by
  unfold sectorTotals
  induction rows using List.reverseRecOn with
  | nil => exact List.nodup_nil
  | append_singleton rows row ih =>
      rw [List.foldl_append, List.foldl_cons, List.foldl_nil]
      exact keys_addShares ih

theorem mem_keys_addShares {share : ℚ} {keys : List (List Char)} {totals : List (List Char × ℚ)} {key : List Char}
    (h : key ∈ keys ∨ key ∈ totals.map Prod.fst) : key ∈ (keys.foldl (addShare share) totals).map Prod.fst := by
  induction keys generalizing totals with
  | nil => exact h.resolve_left List.not_mem_nil
  | cons first rest ih =>
      refine ih ?_
      by_cases hrest : key ∈ rest
      · exact Or.inl hrest
      · refine Or.inr ?_
        by_contra hnone
        have hlookup := (Dict.lookup_eq_none _ key).mpr hnone
        unfold addShare at hlookup
        rw [Dict.lookup_set] at hlookup
        split at hlookup
        next => exact absurd hlookup (by simp)
        next hne =>
          have hkey : key ≠ first := by simpa using hne
          rcases h with hmem | hmem
          · rcases List.mem_cons.mp hmem with heq | hmem
            · exact hkey heq
            · exact hrest hmem
          · exact (Dict.lookup_eq_none totals key).mp hlookup hmem

theorem sectorTotals_ne_nil {equity : ℚ} {rows : List MarkedRow} {row : MarkedRow} (hrow : row ∈ rows)
    (hkeys : distinctKeys row.sectorKeys ≠ []) : sectorTotals equity rows ≠ [] := by
  obtain ⟨key, hkey⟩ := List.exists_mem_of_ne_nil _ hkeys
  have hmem : key ∈ (sectorTotals equity rows).map Prod.fst := by
    unfold sectorTotals
    induction rows using List.reverseRecOn with
    | nil => exact absurd hrow List.not_mem_nil
    | append_singleton rows last ih =>
        rw [List.foldl_append, List.foldl_cons, List.foldl_nil]
        refine mem_keys_addShares ?_
        rcases List.mem_append.mp hrow with hrow | hrow
        · exact Or.inr (ih hrow)
        · rw [← List.mem_singleton.mp hrow]
          exact Or.inl hkey
  intro hnil
  rw [hnil] at hmem
  exact List.not_mem_nil hmem

theorem lookup_sectorExposure {equity : ℚ} (hequity : 0 < equity) (rows : List MarkedRow) (key : List Char) :
    ((sectorExposure unrounded rows equity).lookup key).getD 0
      = (rows.map (fun row => if (distinctKeys row.sectorKeys).contains key then sectorShare equity row else 0)).sum := by
  have hsame : ∀ totals : List (List Char × ℚ), totals.map (fun total => (total.1, unrounded total.2 6)) = totals :=
    fun totals => List.map_id totals
  unfold sectorExposure
  rw [if_neg (not_le.mpr hequity), hsame,
    ← Dict.lookup_perm (List.perm_insertionSort _ _).symm (keys_sectorTotals equity rows), lookup_sectorTotals]

theorem sectorExposure_ne_nil {equity : ℚ} (hequity : 0 < equity) {rows : List MarkedRow} {row : MarkedRow}
    (hrow : row ∈ rows) (hkeys : distinctKeys row.sectorKeys ≠ []) : sectorExposure unrounded rows equity ≠ [] := by
  unfold sectorExposure
  rw [if_neg (not_le.mpr hequity)]
  intro hnil
  have hsorted := List.map_eq_nil_iff.mp hnil
  have hperm := List.perm_insertionSort (fun total other : List Char × ℚ => textLe total.1 other.1 = true)
    (sectorTotals equity rows)
  rw [hsorted] at hperm
  exact sectorTotals_ne_nil hrow hkeys hperm.nil_eq.symm

/-! ## The scan's snapshot -/

variable {limits : RiskLimits} {scan : ScanPortfolio} {symbol : Symbol}

theorem snapshot_grossExposure : (scan.snapshot unrounded).grossExposure = scan.grossWeight := by
  show (if scan.equity ≠ 0 then unrounded (scan.marketValue / scan.equity) 6 else 0) = _
  unfold ScanPortfolio.grossWeight unrounded
  split
  next => rfl
  next hzero =>
    rw [not_not.mp hzero, div_zero]

theorem sum_div {α : Type} (items : List α) (amount : α → ℚ) (whole : ℚ) :
    (items.map amount).sum / whole = (items.map (fun item => amount item / whole)).sum := by
  induction items with
  | nil => exact zero_div whole
  | cons item rest ih => rw [List.map_cons, List.map_cons, List.sum_cons, List.sum_cons, add_div, ih]

theorem snapshot_sectorExposure (hequity : 0 < scan.equity) (key : List Char) :
    ((scan.snapshot unrounded).sectorExposure.lookup key).getD 0 = scan.splitWeight key := by
  refine (lookup_sectorExposure hequity _ key).trans ?_
  unfold ScanPortfolio.splitWeight ScanPortfolio.sectorSum
  rw [List.map_map, sum_div]
  refine congrArg List.sum (List.map_congr_left (fun position _ => ?_))
  show (if (distinctKeys position.sectorKeys).contains key then
    markedValue scan.quotes position / scan.equity / (distinctKeys position.sectorKeys).length else 0) = _
  split
  · exact div_right_comm _ _ _
  · exact (zero_div _).symm

theorem snapshot_sectorExposure_ne_nil (hequity : 0 < scan.equity) {position : SectoredPosition}
    (hposition : position ∈ scan.positions) (hkeys : distinctKeys position.sectorKeys ≠ []) :
    (scan.snapshot unrounded).sectorExposure ≠ [] :=
  sectorExposure_ne_nil hequity (List.mem_map_of_mem hposition) hkeys

theorem splitWeight_of_alone {key : List Char} (h : scan.Alone key) : scan.splitWeight key = scan.sectorWeight key := by
  unfold ScanPortfolio.splitWeight ScanPortfolio.sectorWeight ScanPortfolio.sectorSum
  refine congrArg (· / scan.equity) (congrArg List.sum (List.map_congr_left (fun position hposition => ?_)))
  split
  next hmem =>
    show markedValue scan.quotes position / ((distinctKeys position.sectorKeys).length : ℚ) = _
    rw [h position hposition (List.contains_iff_mem.mp hmem), List.length_singleton, Nat.cast_one, div_one]
  next => rfl

/-- What it takes for an entry to be allowed. -/
theorem riskBlocks_nil {isEntry : Bool} {position : Option GatePosition} {snapshot : GateSnapshot}
    {candidateSectorKeys : List (List Char)}
    (h : riskBlocks limits isEntry position snapshot candidateSectorKeys = []) :
    limits.maxDrawdown < snapshot.drawdown.getD 0 ∧ limits.maxDailyLoss < snapshot.dailyReturn.getD 0 ∧
      snapshot.grossExposure.getD 0 < limits.maxGrossExposure ∧
      (isEntry = true → snapshot.sectorExposure ≠ [] → ∀ key ∈ distinctKeys candidateSectorKeys,
        (snapshot.sectorExposure.lookup key).getD 0 + limits.maxTargetWeight ≤ max 0 limits.maxSectorExposure) ∧
      (position.bind GatePosition.targetWeight).getD 0 < limits.maxTargetWeight := by
  unfold riskBlocks at h
  obtain ⟨h, hsymbol⟩ := List.append_eq_nil_iff.mp h
  obtain ⟨h, hsector⟩ := List.append_eq_nil_iff.mp h
  obtain ⟨h, hgross⟩ := List.append_eq_nil_iff.mp h
  obtain ⟨hdrawdown, hdaily⟩ := List.append_eq_nil_iff.mp h
  refine ⟨?_, ?_, ?_, fun hentry hexposure key hkey => ?_, ?_⟩
  · by_contra hle
    rw [if_pos (not_lt.mp hle)] at hdrawdown
    exact List.cons_ne_nil _ _ hdrawdown
  · by_contra hle
    rw [if_pos (not_lt.mp hle)] at hdaily
    exact List.cons_ne_nil _ _ hdaily
  · by_contra hle
    rw [if_pos (not_lt.mp hle)] at hgross
    exact List.cons_ne_nil _ _ hgross
  · by_contra hexceeded
    have hany : (distinctKeys candidateSectorKeys).any (sectorExceeded limits snapshot.sectorExposure) = true :=
      List.any_eq_true.mpr ⟨key, hkey, decide_eq_true (not_le.mp hexceeded)⟩
    rw [if_pos] at hsector
    · exact List.cons_ne_nil _ _ hsector
    · rw [hentry, hany, List.isEmpty_eq_false_iff.mpr (List.ne_nil_of_mem hkey),
        List.isEmpty_eq_false_iff.mpr hexposure]
      rfl
  · by_contra hle
    rw [if_pos (not_lt.mp hle)] at hsymbol
    exact List.cons_ne_nil _ _ hsymbol

/-- **An entry that the gate allows keeps the limits of the split measure**: the gross weight is below its limit, and
    with the entry no sector of the candidate exceeds its own. -/
theorem allowed_entry_keeps_limits (limits : RiskLimits) (scan : ScanPortfolio) (symbol : Symbol)
    (hallowed : (scan.gate unrounded limits "entry" symbol).allowed = true) :
    scan.grossWeight < limits.maxGrossExposure ∧
      (0 < scan.equity → (∃ position ∈ scan.positions, distinctKeys position.sectorKeys ≠ []) →
        ∀ key ∈ distinctKeys (scan.sectorsOf symbol),
          scan.splitWeight key + limits.maxTargetWeight ≤ max 0 limits.maxSectorExposure ∧
          (scan.Alone key → scan.sectorWeight key + limits.maxTargetWeight ≤ max 0 limits.maxSectorExposure)) := by
  have hblocks : riskBlocks limits true ((cachedPositions scan.positions).lookup symbol)
      (cachedSnapshotPayload (scan.snapshot unrounded)) (scan.sectorsOf symbol) = [] := by
    by_contra hne
    have hblocked : (scan.gate unrounded limits "entry" symbol).allowed = false := by
      unfold ScanPortfolio.gate paperRiskGate
      simp [List.isEmpty_eq_false_iff.mpr hne]
    exact absurd hallowed (by rw [hblocked]; exact Bool.false_ne_true)
  obtain ⟨-, -, hgross, hsector, -⟩ := riskBlocks_nil hblocks
  refine ⟨?_, ?_⟩
  · rw [← snapshot_grossExposure]
    exact hgross
  · rintro hequity ⟨position, hposition, hkeys⟩ key hkey
    have hsplit : scan.splitWeight key + limits.maxTargetWeight ≤ max 0 limits.maxSectorExposure := by
      rw [← snapshot_sectorExposure hequity]
      exact hsector rfl (snapshot_sectorExposure_ne_nil hequity hposition hkeys) key hkey
    refine ⟨hsplit, fun halone => ?_⟩
    rw [← splitWeight_of_alone halone]
    exact hsplit

/-! ## A position in two sectors -/

/-- A holding of 3000 in two sectors, beside 7000 of cash; a second symbol of the first sector and a third of none. -/
def twoSectorScan : ScanPortfolio where
  positions := [⟨⟨100, 100, 30, none, 0⟩, "600000.SH".toList, ["bank".toList, "large_cap".toList]⟩]
  quotes := []
  cash := some 7000
  previousEquity := none
  history := ⟨none, none⟩
  candidateSectorKeys := [("000001.SZ".toList, ["bank".toList])]

theorem allowed_entry_keeps_limits_two_sectors :
    twoSectorScan.splitWeight "bank".toList + ({} : RiskLimits).maxTargetWeight
      ≤ max 0 ({} : RiskLimits).maxSectorExposure :=
  ((allowed_entry_keeps_limits {} twoSectorScan "000001.SZ".toList (by decide +kernel)).2 (by decide +kernel)
    ⟨_, List.mem_singleton_self _, by decide +kernel⟩ "bank".toList (by decide +kernel)).1

/-- The gate allows an entry whose sector weighs 35% with it, and one more of a symbol that weighs 30%. -/
theorem split_weight_hides_sector :
    (twoSectorScan.gate unrounded {} "entry" "000001.SZ".toList).allowed = true ∧
      ({} : RiskLimits).maxSectorExposure
        < twoSectorScan.sectorWeight "bank".toList + ({} : RiskLimits).maxTargetWeight ∧
      (twoSectorScan.gate unrounded {} "entry" "600000.SH".toList).allowed = true ∧
      ({} : RiskLimits).maxTargetWeight ≤ twoSectorScan.symbolWeight "600000.SH".toList := by
  decide +kernel

end TradingHarness
