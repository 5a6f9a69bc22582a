import TradingHarness.Library.Grouped
import TradingHarness.Tactics.Pairs

set_option autoImplicit false

/-! # Mined pairs and the tactics of two conditions

`day_pairs` beside `day_result` for the tactic of the same two conditions. The two differ in the rows that they compare the picks with:
a row that fails one condition, with the other unknown, is not a pick of the tactic, and is left out of the pair. -/

namespace TradingHarness

/-! ## Pairs of keys -/

variable {pair : ConditionPair}

theorem mem_pairsOf_cons {first : String} {rest : List String} :
    pair ∈ pairsOf (first :: rest) ↔ (pair.1 = first ∧ pair.2 ∈ rest) ∨ pair ∈ pairsOf rest := by
  rw [pairsOf, List.mem_append, List.mem_map]
  constructor
  · rintro (⟨second, hmem, rfl⟩ | hlater)
    · exact .inl ⟨rfl, hmem⟩
    · exact .inr hlater
  · rintro (⟨hfirst, hmem⟩ | hlater)
    · exact .inl ⟨pair.2, hmem, by rw [← hfirst]⟩
    · exact .inr hlater

theorem mem_of_mem_pairsOf {keys : List String} (h : pair ∈ pairsOf keys) : pair.1 ∈ keys ∧ pair.2 ∈ keys := by
  induction keys with
  | nil => simp [pairsOf] at h
  | cons first rest ih =>
      rcases mem_pairsOf_cons.mp h with ⟨hfirst, hmem⟩ | hlater
      · exact ⟨hfirst ▸ List.mem_cons_self, List.mem_cons_of_mem _ hmem⟩
      · exact ⟨List.mem_cons_of_mem _ (ih hlater).1, List.mem_cons_of_mem _ (ih hlater).2⟩

theorem mem_pairsOf_filter {keys : List String} {keep : String → Bool} (hnodup : keys.Nodup) :
    pair ∈ pairsOf (keys.filter keep) ↔ pair ∈ pairsOf keys ∧ keep pair.1 = true ∧ keep pair.2 = true := by
  induction keys with
  | nil => simp [pairsOf]
  | cons first rest ih =>
      obtain ⟨hfresh, hrest⟩ := List.nodup_cons.mp hnodup
      by_cases hkeep : keep first = true
      · rw [List.filter_cons_of_pos hkeep, mem_pairsOf_cons, mem_pairsOf_cons, ih hrest, List.mem_filter]
        constructor
        · rintro (⟨hfirst, hmem, hsecond⟩ | ⟨hlater, hboth⟩)
          · exact ⟨.inl ⟨hfirst, hmem⟩, hfirst ▸ hkeep, hsecond⟩
          · exact ⟨.inr hlater, hboth⟩
        · rintro ⟨⟨hfirst, hmem⟩ | hlater, hone, htwo⟩
          · exact .inl ⟨hfirst, hmem, htwo⟩
          · exact .inr ⟨hlater, hone, htwo⟩
      · rw [List.filter_cons_of_neg hkeep, mem_pairsOf_cons, ih hrest]
        constructor
        · rintro ⟨hlater, hboth⟩
          exact ⟨.inr hlater, hboth⟩
        · rintro ⟨⟨hfirst, -⟩ | hlater, hone, htwo⟩
          · exact absurd (hfirst ▸ hone) hkeep
          · exact ⟨hlater, hone, htwo⟩

theorem nodup_pairsOf {keys : List String} (h : keys.Nodup) : (pairsOf keys).Nodup := by
  induction keys with
  | nil => exact List.nodup_nil
  | cons first rest ih =>
      obtain ⟨hfresh, hrest⟩ := List.nodup_cons.mp h
      rw [pairsOf, List.nodup_append']
      refine ⟨hrest.map fun a b hab => (Prod.mk.inj hab).2, ih hrest, ?_⟩
      intro pair hpair hlater
      obtain ⟨second, -, rfl⟩ := List.mem_map.mp hpair
      exact hfresh (mem_of_mem_pairsOf hlater).1

theorem nodup_pairConditionKeys (slot : Slot) : (pairConditionKeys slot).Nodup := by
  cases slot <;> decide +kernel

/-! ## The cells of a day -/

section Cells

variable (day : TrialDay)

/-- The value of a row on the outcome of the pairs. -/
def pairValue (row : TrialRow) : Option ℚ := (outcomeValue (day.outcomes row.symbol) (pairOutcome day.slot)).1

/-- Both conditions of a pair are known on a row. -/
def Known (pair : ConditionPair) (row : TrialRow) : Bool := (conditionValue pair.1 row).isSome && (conditionValue pair.2 row).isSome

/-- Both conditions are true. -/
def Met (pair : ConditionPair) (row : TrialRow) : Bool :=
  decide (conditionValue pair.1 row = some true) && decide (conditionValue pair.2 row = some true)

/-- A row under a pair of its known conditions. -/
abbrev PairItem := TrialRow × ConditionPair

def itemsOf (row : TrialRow) : List PairItem :=
  (pairsOf ((pairConditionKeys day.slot).filter (fun key => (conditionValue key row).isSome))).map (fun pair => (row, pair))

def placeOf (item : PairItem) : ConditionPair × String := (item.2, boardText item.1.boardBucket)

def addItem (cell : PairCell) (item : PairItem) : PairCell :=
  if item.2.1 ∈ item.1.flags ∧ item.2.2 ∈ item.1.flags then { cell with pick := cell.pick ++ [pairValue day item.1] }
  else { cell with comparison := cell.comparison ++ [pairValue day item.1] }

def cellsOf : PairCells := day.rows.foldl (addPairRow day) []

theorem cellsOf_eq_collect : cellsOf day = Grouped.collect placeOf (addItem day) {} [] (day.rows.flatMap (itemsOf day)) := by
  unfold cellsOf Grouped.collect
  rw [List.foldl_flatMap]
  congr 1
  funext cells row
  unfold addPairRow itemsOf
  rw [List.foldl_map]
  rfl

theorem filter_eq_singleton {α : Type} [DecidableEq α] {items : List α} {item : α} (hnodup : items.Nodup) (hmem : item ∈ items) :
    items.filter (fun other => decide (other = item)) = [item] := by
  rw [List.filter_eq, List.count_eq_one_of_mem hnodup hmem]
  rfl

theorem group_itemsOf (hpair : pair ∈ pairsOf (pairConditionKeys day.slot)) (text : String) (row : TrialRow) :
    Grouped.group placeOf (pair, text) (itemsOf day row) =
      if Known pair row = true ∧ boardText row.boardBucket = text then [(row, pair)] else [] := by
  let valid := (pairConditionKeys day.slot).filter (fun key => (conditionValue key row).isSome)
  have hvalid : valid.Nodup := (nodup_pairConditionKeys day.slot).filter _
  have hmem : pair ∈ pairsOf valid ↔ Known pair row = true := by
    rw [mem_pairsOf_filter (nodup_pairConditionKeys day.slot), Known, Bool.and_eq_true]
    exact and_iff_right hpair
  unfold Grouped.group itemsOf
  rw [List.filter_map]
  by_cases htext : boardText row.boardBucket = text
  · have hsame : ((fun item => decide (placeOf item = (pair, text))) ∘ fun pair => (row, pair)) = fun other => decide (other = pair) := by
      funext other
      simp [placeOf, htext]
    rw [hsame]
    by_cases hknown : Known pair row = true
    · rw [if_pos ⟨hknown, htext⟩, filter_eq_singleton (nodup_pairsOf hvalid) (hmem.mpr hknown)]
      rfl
    · have hnil : (pairsOf valid).filter (fun other => decide (other = pair)) = [] := by
        refine List.filter_eq_nil_iff.mpr fun other hother => ?_
        rw [decide_eq_true_eq]
        rintro rfl
        exact hknown (hmem.mp hother)
      rw [if_neg (fun hboth => hknown hboth.1), hnil]
      rfl
  · have hnone : ((fun item => decide (placeOf item = (pair, text))) ∘ fun pair => (row, pair)) = fun _ => false := by
      funext other
      simp [placeOf, htext]
    rw [hnone, if_neg (fun hboth => htext hboth.2), List.filter_false]
    rfl

/-- The rows of a bucket on which a pair is known. -/
def knownRows (pair : ConditionPair) (text : String) : List TrialRow :=
  day.rows.filter (fun row => Known pair row && decide (boardText row.boardBucket = text))

theorem group_items (hpair : pair ∈ pairsOf (pairConditionKeys day.slot)) (text : String) :
    Grouped.group placeOf (pair, text) (day.rows.flatMap (itemsOf day)) = (knownRows day pair text).map (fun row => (row, pair)) := by
  unfold knownRows
  induction day.rows with
  | nil => rfl
  | cons row rest ih =>
      have hrow := group_itemsOf day hpair text row
      unfold Grouped.group at ih hrow ⊢
      rw [List.flatMap_cons, List.filter_append, ih, hrow]
      by_cases hknown : Known pair row = true ∧ boardText row.boardBucket = text
      · rw [if_pos hknown, List.filter_cons_of_pos (by simp [hknown])]
        rfl
      · rw [if_neg hknown, List.filter_cons_of_neg (by simpa using hknown), List.nil_append]

theorem met_iff_of_known {row : TrialRow} (hknown : Known pair row = true) :
    (pair.1 ∈ row.flags ∧ pair.2 ∈ row.flags) ↔ Met pair row = true := by
  have hflag : ∀ key, (conditionValue key row).isSome = true → (key ∈ row.flags ↔ conditionValue key row = some true) := by
    intro key hsome
    unfold conditionValue at hsome ⊢
    split at hsome
    · exact absurd hsome (by simp)
    next hprev =>
      rw [if_neg hprev]
      unfold stateOf at hsome ⊢
      by_cases hmem : key ∈ row.flags
      · simp [hmem]
      · by_cases hunknown : key ∈ row.unknown
        · simp [hmem, hunknown] at hsome
        · simp [hmem, hunknown]
  rw [Known, Bool.and_eq_true] at hknown
  rw [Met, Bool.and_eq_true, decide_eq_true_eq, decide_eq_true_eq, hflag pair.1 hknown.1, hflag pair.2 hknown.2]

theorem foldl_addItem {rows : List TrialRow} (hknown : ∀ row ∈ rows, Known pair row = true) (cell : PairCell) :
    (rows.map (fun row => (row, pair))).foldl (addItem day) cell =
      { pick := cell.pick ++ (rows.filter (Met pair)).map (pairValue day)
        comparison := cell.comparison ++ (rows.filter (fun row => !Met pair row)).map (pairValue day) } := by
  induction rows generalizing cell with
  | nil => simp
  | cons row rest ih =>
      rw [List.map_cons, List.foldl_cons, ih fun other hother => hknown other (List.mem_cons_of_mem row hother)]
      have hmet := met_iff_of_known (hknown row List.mem_cons_self)
      unfold addItem
      by_cases h : Met pair row = true
      · rw [if_pos (hmet.mpr h), List.filter_cons_of_pos h, List.filter_cons_of_neg (by simp [h])]
        simp
      · rw [if_neg (fun hboth => h (hmet.mp hboth)), List.filter_cons_of_neg h, List.filter_cons_of_pos (by simpa using h)]
        simp

/-- The picks and the comparison values of a pair in a bucket. -/
def cellAt (pair : ConditionPair) (text : String) : PairCell where
  pick := ((knownRows day pair text).filter (Met pair)).map (pairValue day)
  comparison := ((knownRows day pair text).filter (fun row => !Met pair row)).map (pairValue day)

theorem dlookup_cellsOf (hpair : pair ∈ pairsOf (pairConditionKeys day.slot)) (text : String) :
    (cellsOf day).dlookup (pair, text) = if knownRows day pair text = [] then none else some (cellAt day pair text) := by
  rw [cellsOf_eq_collect, Grouped.dlookup_collect, group_items day hpair text]
  by_cases hnil : knownRows day pair text = []
  · rw [if_pos hnil, if_pos (by rw [hnil]; rfl)]
  · rw [if_neg hnil, if_neg (by simpa using hnil)]
    rw [foldl_addItem day fun row hrow => by simpa using (Bool.and_eq_true_iff.mp (List.mem_filter.mp hrow).2).1]
    rfl

theorem nodupKeys_cellsOf : (cellsOf day).NodupKeys := by
  rw [cellsOf_eq_collect]
  exact Grouped.nodupKeys_collect placeOf (addItem day) {} List.nodupKeys_nil _

/-! ## The entry of a pair -/

def addCell (state : PairState) (entry : Σ _ : ConditionPair × String, PairCell) : PairState where
  picks := state.picks + entry.2.pick.length
  pickValues := state.pickValues ++ entry.2.pick
  differences := state.differences ++
    match mean entry.2.comparison with
    | none => []
    | some comparison => entry.2.pick.filterMap (·.map (fun value => value - comparison))

theorem foldl_addPairCell (cells : PairCells) (states : List (Σ _ : ConditionPair, PairState)) :
    cells.foldl addPairCell states =
      Grouped.collect (fun entry => entry.1.1) addCell {} states (cells.filter (fun entry => !entry.2.pick.isEmpty)) := by
  induction cells generalizing states with
  | nil => rfl
  | cons entry rest ih =>
      rw [List.foldl_cons, ih]
      unfold addPairCell
      by_cases hnil : entry.2.pick = []
      · rw [if_pos hnil, List.filter_cons_of_neg (by simp [hnil])]
      · rw [if_neg hnil, List.filter_cons_of_pos (by simp [hnil])]
        rfl

/-- The cells of a pair that have picks. -/
def pickedCells (pair : ConditionPair) : PairCells :=
  Grouped.group (fun entry => entry.1.1) pair ((cellsOf day).filter (fun entry => !entry.2.pick.isEmpty))

/-- The rows that meet both conditions. -/
def metRows (pair : ConditionPair) : List TrialRow := day.rows.filter (Met pair)

def rowText (row : TrialRow) : String := boardText row.boardBucket

theorem known_of_met {row : TrialRow} (h : Met pair row = true) : Known pair row = true := by
  rw [Met, Bool.and_eq_true, decide_eq_true_eq, decide_eq_true_eq] at h
  rw [Known, h.1, h.2]
  rfl

theorem filter_knownRows (pair : ConditionPair) (text : String) :
    (knownRows day pair text).filter (Met pair) = Grouped.group rowText text (metRows day pair) := by
  unfold knownRows Grouped.group metRows
  rw [List.filter_filter, List.filter_filter]
  refine List.filter_congr fun row _ => ?_
  by_cases h : Met pair row = true
  · rw [h, known_of_met h, Bool.true_and, Bool.true_and, Bool.and_true]
    exact decide_eq_decide.mpr Iff.rfl
  · simp [h]

theorem mem_pickedCells (hpair : pair ∈ pairsOf (pairConditionKeys day.slot))
    {entry : Σ _ : ConditionPair × String, PairCell} :
    entry ∈ pickedCells day pair ↔
      ∃ text, entry = ⟨(pair, text), cellAt day pair text⟩ ∧ Grouped.group rowText text (metRows day pair) ≠ [] := by
  have hlookup : entry ∈ cellsOf day ↔ (cellsOf day).dlookup entry.1 = some entry.2 :=
    (List.mem_dlookup_iff (nodupKeys_cellsOf day)).symm
  unfold pickedCells Grouped.group
  rw [List.mem_filter, List.mem_filter, hlookup]
  obtain ⟨⟨key, text⟩, cell⟩ := entry
  constructor
  · rintro ⟨⟨hcell, hpick⟩, hkey⟩
    obtain rfl : key = pair := by simpa using hkey
    rw [dlookup_cellsOf day hpair] at hcell
    split at hcell
    · exact absurd hcell (by simp)
    · obtain rfl := Option.some.inj hcell
      refine ⟨text, rfl, ?_⟩
      have hfilter := filter_knownRows day key text
      unfold Grouped.group at hfilter
      rw [← hfilter]
      simpa [cellAt] using hpick
  · rintro ⟨other, hentry, hmet⟩
    obtain ⟨⟨rfl, rfl⟩, hcell⟩ : (key = pair ∧ text = other) ∧ HEq cell (cellAt day pair other) := by simpa using hentry
    obtain rfl := eq_of_heq hcell
    have hfilter := filter_knownRows day key text
    unfold Grouped.group at hfilter
    rw [← hfilter] at hmet
    refine ⟨⟨?_, ?_⟩, by simp⟩
    · rw [dlookup_cellsOf day hpair, if_neg]
      intro hnil
      rw [hnil] at hmet
      exact hmet rfl
    · simpa [cellAt] using hmet

/-- The mean of the comparison values of a row's bucket. -/
def pairComparison (pair : ConditionPair) (row : TrialRow) : Option ℚ := mean (cellAt day pair (rowText row)).comparison

/-- A row's value less a mean, where both are there. -/
def lessMean (comparison : TrialRow → Option ℚ) (row : TrialRow) : Option ℚ :=
  (pairValue day row).bind (fun value => (comparison row).map (fun middle => value - middle))

def cellTexts (pair : ConditionPair) : List String := (pickedCells day pair).map (fun entry => entry.1.2)

theorem nodup_cellTexts : (cellTexts day pair).Nodup := by
  have hnodup : ((pickedCells day pair).map Sigma.fst).Nodup := by
    have hsublist : List.Sublist (pickedCells day pair) (cellsOf day) := List.filter_sublist.trans List.filter_sublist
    exact (hsublist.map Sigma.fst).nodup (nodupKeys_cellsOf day)
  change ((pickedCells day pair).map (Prod.snd ∘ Sigma.fst)).Nodup
  rw [← List.map_map]
  refine List.Nodup.map_on ?_ hnodup
  intro first hfirst second hsecond hsame
  have hkey : ∀ place ∈ (pickedCells day pair).map Sigma.fst, place.1 = pair := by
    intro place hplace
    obtain ⟨entry, hentry, rfl⟩ := List.mem_map.mp hplace
    simpa using (List.mem_filter.mp hentry).2
  exact Prod.ext ((hkey first hfirst).trans (hkey second hsecond).symm) hsame

section

variable (hpair : pair ∈ pairsOf (pairConditionKeys day.slot))

include hpair

theorem cellTexts_cover :
    ∀ row ∈ metRows day pair, rowText row ∈ cellTexts day pair := by
  intro row hrow
  refine List.mem_map.mpr ⟨⟨(pair, rowText row), cellAt day pair (rowText row)⟩, ?_, rfl⟩
  exact (mem_pickedCells day hpair).mpr ⟨rowText row, rfl, List.ne_nil_of_mem (List.mem_filter.mpr ⟨hrow, by simp⟩)⟩

theorem pickedCells_eq :
    pickedCells day pair = (cellTexts day pair).map (fun text => ⟨(pair, text), cellAt day pair text⟩) := by
  unfold cellTexts
  rw [List.map_map]
  refine (List.map_id' _).symm.trans (List.map_congr_left fun entry hentry => ?_)
  obtain ⟨text, rfl, -⟩ := (mem_pickedCells day hpair).mp hentry
  rfl

end

theorem foldl_addCell (cells : PairCells) (state : PairState) :
    cells.foldl addCell state =
      { picks := state.picks + (cells.flatMap (fun entry => entry.2.pick)).length
        pickValues := state.pickValues ++ cells.flatMap (fun entry => entry.2.pick)
        differences := state.differences ++ cells.flatMap (fun entry => (addCell {} entry).differences) } := by
  induction cells generalizing state with
  | nil => simp
  | cons entry rest ih =>
      rw [List.foldl_cons, ih]
      simp [addCell, Nat.add_assoc]

theorem addCell_differences (pair : ConditionPair) (text : String) :
    (addCell {} ⟨(pair, text), cellAt day pair text⟩).differences =
      (Grouped.group rowText text (metRows day pair)).filterMap (lessMean day (pairComparison day pair)) := by
  have hpick : (cellAt day pair text).pick = (Grouped.group rowText text (metRows day pair)).map (pairValue day) := by
    rw [← filter_knownRows]
    rfl
  have htext : ∀ row ∈ Grouped.group rowText text (metRows day pair), rowText row = text := by
    intro row hrow
    simpa using (List.mem_filter.mp hrow).2
  unfold addCell
  rw [List.nil_append]
  rcases hmean : mean (cellAt day pair text).comparison with _ | middle
  · refine (List.filterMap_eq_nil_iff.mpr fun row hrow => ?_).symm
    rw [lessMean, pairComparison, htext row hrow, hmean]
    cases pairValue day row <;> rfl
  · dsimp only
    rw [hpick, List.filterMap_map]
    refine List.filterMap_congr fun row hrow => ?_
    rw [lessMean, pairComparison, htext row hrow, hmean]
    cases hvalue : pairValue day row <;> simp [hvalue]

theorem mean_perm {values others : List (Option ℚ)} (h : values.Perm others) : mean values = mean others := by
  have hvalid : (values.filterMap id).Perm (others.filterMap id) := h.filterMap id
  unfold mean
  dsimp only
  by_cases hnil : values.filterMap id = []
  · rw [if_pos hnil, if_pos (by rw [hnil] at hvalid; exact hvalid.nil_eq.symm)]
  · rw [if_neg hnil, if_neg (fun h' => hnil (by rw [h'] at hvalid; exact hvalid.eq_nil)), hvalid.sum_eq, hvalid.length_eq]

theorem dlookup_dayPairs (hpair : pair ∈ pairsOf (pairConditionKeys day.slot)) :
    (dayPairs day).dlookup pair =
      if metRows day pair = [] then none
      else some
        { picks := (metRows day pair).length
          pickMean := mean ((metRows day pair).map (pairValue day))
          difference := mean (((metRows day pair).filterMap (lessMean day (pairComparison day pair))).map some) } := by
  let entryOf (state : PairState) : PairEntry :=
    { picks := state.picks, pickMean := mean state.pickValues, difference := mean (state.differences.map some) }
  have hstates : (dayPairs day).dlookup pair =
      ((Grouped.collect (fun entry => entry.1.1) addCell {} [] ((cellsOf day).filter (fun entry => !entry.2.pick.isEmpty))).dlookup
        pair).map entryOf := by
    rw [← foldl_addPairCell]
    exact List.dlookup_map₂ (l := (cellsOf day).foldl addPairCell []) (f := fun _ => entryOf) pair
  have hcover := cellTexts_cover day hpair
  have hpicks : (pickedCells day pair).flatMap (fun entry => entry.2.pick) =
      (cellTexts day pair).flatMap (fun text => (Grouped.group rowText text (metRows day pair)).map (pairValue day)) := by
    rw [pickedCells_eq day hpair, List.flatMap_map]
    refine List.flatMap_congr fun text _ => ?_
    rw [← filter_knownRows]
    rfl
  have hdifferences : (pickedCells day pair).flatMap (fun entry => (addCell {} entry).differences) =
      (cellTexts day pair).flatMap
        (fun text => (Grouped.group rowText text (metRows day pair)).filterMap (lessMean day (pairComparison day pair))) := by
    rw [pickedCells_eq day hpair, List.flatMap_map]
    exact List.flatMap_congr fun text _ => addCell_differences day pair text
  have hpicksPerm : ((pickedCells day pair).flatMap (fun entry => entry.2.pick)).Perm ((metRows day pair).map (pairValue day)) := by
    rw [hpicks, ← List.map_flatMap]
    exact (Grouped.flatMap_group_perm rowText (metRows day pair) (nodup_cellTexts day) hcover).map _
  have hdifferencesPerm : ((pickedCells day pair).flatMap (fun entry => (addCell {} entry).differences)).Perm
      ((metRows day pair).filterMap (lessMean day (pairComparison day pair))) := by
    rw [hdifferences]
    exact Grouped.flatMap_group_filterMap_perm rowText _ (metRows day pair) (nodup_cellTexts day) hcover
  have hempty : pickedCells day pair = [] ↔ metRows day pair = [] := by
    rw [pickedCells_eq day hpair, List.map_eq_nil_iff]
    constructor
    · intro hnil
      refine List.eq_nil_iff_forall_not_mem.mpr fun row hrow => ?_
      have hmem := hcover row hrow
      rw [hnil] at hmem
      exact absurd hmem List.not_mem_nil
    · intro hnil
      refine List.eq_nil_iff_forall_not_mem.mpr fun text htext => ?_
      obtain ⟨entry, hentry, -⟩ := List.mem_map.mp htext
      obtain ⟨other, -, hmet⟩ := (mem_pickedCells day hpair).mp hentry
      rw [hnil] at hmet
      exact hmet rfl
  rw [hstates, Grouped.dlookup_collect]
  by_cases hnil : metRows day pair = []
  · rw [if_pos hnil]
    exact congrArg (Option.map entryOf) (if_pos (hempty.mpr hnil))
  · rw [if_neg hnil]
    refine (congrArg (Option.map entryOf) (if_neg fun h => hnil (hempty.mp h))).trans ?_
    change some (entryOf ((pickedCells day pair).foldl addCell {})) = _
    rw [foldl_addCell]
    simp only [entryOf, List.nil_append, Nat.zero_add]
    rw [hpicksPerm.length_eq, List.length_map, mean_perm hpicksPerm, mean_perm (hdifferencesPerm.map some)]

/-! ## The tactic of two conditions -/

/-- The tactic `all_of=(a, b)` compared within its board bucket, on the outcome of the slot's pairs. -/
def pairTactic (slot : Slot) (pair : ConditionPair) : Tactic where
  key := pair.1 ++ "|" ++ pair.2
  slot := slot
  allOf := [pair.1, pair.2]
  cell := [.boardBucket]
  entry := match slot with
    | .close => .held
    | .auction => .buyOpen
  exit := .sellClose
  primary := pairOutcome slot

/-- A row on which one condition of a pair fails. -/
def Missed (pair : ConditionPair) (row : TrialRow) : Bool :=
  decide (conditionValue pair.1 row = some false) || decide (conditionValue pair.2 row = some false)

theorem not_missed_of_met {row : TrialRow} (h : Met pair row = true) : Missed pair row = false := by
  rw [Met, Bool.and_eq_true, decide_eq_true_eq, decide_eq_true_eq] at h
  rw [Missed, h.1, h.2]
  rfl

theorem pairTactic_picks (slot : Slot) (pair : ConditionPair) (row : TrialRow) (states : DayStates) :
    evaluateTactic (pairTactic slot pair) row states = some true ↔ Met pair row = true := by
  have h : evaluateTactic (pairTactic slot pair) row states = combine [conditionValue pair.1 row, conditionValue pair.2 row, some true, some true] := rfl
  rw [h, Met]
  rcases conditionValue pair.1 row with _ | _ | _ <;> rcases conditionValue pair.2 row with _ | _ | _ <;> decide

theorem pairTactic_rejects (slot : Slot) (pair : ConditionPair) (row : TrialRow) (states : DayStates) :
    evaluateTactic (pairTactic slot pair) row states = some false ↔ Missed pair row = true := by
  have h : evaluateTactic (pairTactic slot pair) row states = combine [conditionValue pair.1 row, conditionValue pair.2 row, some true, some true] := rfl
  rw [h, Missed]
  rcases conditionValue pair.1 row with _ | _ | _ <;> rcases conditionValue pair.2 row with _ | _ | _ <;> decide

/-- The mean of the values that the tactic compares a pick with. -/
def tacticComparison (pair : ConditionPair) (row : TrialRow) : Option ℚ :=
  mean ((day.rows.filter (fun other => Missed pair other && decide (rowText other = rowText row))).map (pairValue day))

def pairResult (pair : ConditionPair) : DayResult := dayResult (pairTactic day.slot pair) day.rows day.day day.outcomes [pairOutcome day.slot]

theorem picksOf_pairTactic (pair : ConditionPair) : picksOf (pairTactic day.slot pair) day.rows day.day = metRows day pair := by
  unfold picksOf metRows
  refine List.filter_congr fun row _ => ?_
  rw [Bool.eq_iff_iff, decide_eq_true_eq, pairTactic_picks]

theorem comparisonsOf_pairTactic (pair : ConditionPair) :
    comparisonsOf (pairTactic day.slot pair) day.rows day.day =
      (metRows day pair).map (fun pick => day.rows.filter (fun other => Missed pair other && decide (rowText other = rowText pick))) := by
  unfold comparisonsOf
  rw [picksOf_pairTactic]
  refine List.map_congr_left fun pick _ => List.filter_congr fun other _ => ?_
  have hcell : cellOf other (pairTactic day.slot pair).cell = cellOf pick (pairTactic day.slot pair).cell ↔ rowText other = rowText pick := by
    have hbucket : rowText other = rowText pick ↔ other.boardBucket = pick.boardBucket := boardText_injective.eq_iff
    rw [hbucket]
    simp [cellOf, pairTactic]
  rw [Bool.eq_iff_iff, decide_eq_true_eq, Bool.and_eq_true, decide_eq_true_eq, pairTactic_rejects, hcell]

theorem summary_map (picks : List TrialRow) (others : TrialRow → List TrialRow) (outcomes : String → Option PickEvaluation) (outcome : OutcomeKey) :
    (summary picks (picks.map others) outcomes outcome).pickMean = mean (picks.map (fun row => (outcomeValue (outcomes row.symbol) outcome).1)) ∧
      (summary picks (picks.map others) outcomes outcome).difference =
        mean ((picks.filterMap (fun row => (outcomeValue (outcomes row.symbol) outcome).1.bind (fun value =>
          (mean ((others row).map (fun other => (outcomeValue (outcomes other.symbol) outcome).1))).map (fun middle => value - middle)))).map some) := by
  unfold summary
  dsimp only
  rw [← List.map_prod_left_eq_zip]
  constructor
  · rw [List.map_map]
    rfl
  · rw [List.map_map, List.map_map, List.map_map, List.zip_map', List.filterMap_map]
    rfl

theorem pairResult_primary (pair : ConditionPair) :
    (pairResult day pair).counts.picks = (metRows day pair).length ∧
      (pairResult day pair).primary.pickMean = mean ((metRows day pair).map (pairValue day)) ∧
      (pairResult day pair).primary.difference = mean (((metRows day pair).filterMap (lessMean day (tacticComparison day pair))).map some) := by
  have hprimary : (pairResult day pair).primary =
      summary (picksOf (pairTactic day.slot pair) day.rows day.day) (comparisonsOf (pairTactic day.slot pair) day.rows day.day) day.outcomes
        (pairOutcome day.slot) := rfl
  have hcount : (pairResult day pair).counts.picks = (picksOf (pairTactic day.slot pair) day.rows day.day).length := rfl
  rw [hprimary, hcount, comparisonsOf_pairTactic, picksOf_pairTactic]
  exact ⟨rfl, (summary_map _ _ day.outcomes (pairOutcome day.slot)).1, (summary_map _ _ day.outcomes (pairOutcome day.slot)).2⟩

/-! ## Rows that fail with a condition unknown -/

def HalfKnown (pair : ConditionPair) (row : TrialRow) : Bool := Missed pair row && !Known pair row

/-- No pick with a value stands in one bucket with a half-known row with a value. -/
def NoHalfKnown (pair : ConditionPair) : Prop :=
  ∀ pick ∈ day.rows, Met pair pick = true → (pairValue day pick).isSome → ∀ other ∈ day.rows, HalfKnown pair other = true →
    other.boardBucket = pick.boardBucket → pairValue day other = none

/-- The entry of a pair is the score of its tactic, and there is none exactly where the tactic has no picks. -/
def PairMatches (pair : ConditionPair) : Prop :=
  (dayPairs day).dlookup pair =
    if (pairResult day pair).counts.picks = 0 then none
    else some
      { picks := (pairResult day pair).counts.picks
        pickMean := (pairResult day pair).primary.pickMean
        difference := (pairResult day pair).primary.difference }

theorem pairMatches_iff (hpair : pair ∈ pairsOf (pairConditionKeys day.slot)) :
    PairMatches day pair ↔
      (metRows day pair ≠ [] →
        mean (((metRows day pair).filterMap (lessMean day (pairComparison day pair))).map some) =
          mean (((metRows day pair).filterMap (lessMean day (tacticComparison day pair))).map some)) := by
  obtain ⟨hpicks, hmean, hdifference⟩ := pairResult_primary day pair
  unfold PairMatches
  rw [dlookup_dayPairs day hpair, hpicks, hmean, hdifference]
  by_cases hnil : metRows day pair = []
  · simp [hnil]
  · rw [if_neg hnil, if_neg (by simpa using hnil), Option.some.injEq, PairEntry.mk.injEq]
    simp [hnil]

theorem mean_filter {rows : List TrialRow} {keep : TrialRow → Bool} (h : ∀ row ∈ rows, keep row = false → pairValue day row = none) :
    mean ((rows.filter keep).map (pairValue day)) = mean (rows.map (pairValue day)) := by
  have hvalid : ((rows.filter keep).map (pairValue day)).filterMap id = (rows.map (pairValue day)).filterMap id := by
    induction rows with
    | nil => rfl
    | cons row rest ih =>
        have hrest := ih fun other hother => h other (List.mem_cons_of_mem row hother)
        cases hkeep : keep row with
        | true =>
            rw [List.filter_cons_of_pos hkeep, List.map_cons, List.map_cons, List.filterMap_cons, List.filterMap_cons, hrest]
        | false =>
            rw [List.filter_cons_of_neg (by simp [hkeep]), List.map_cons, List.filterMap_cons, h row List.mem_cons_self hkeep, hrest]
            rfl
  unfold mean
  rw [hvalid]

theorem pairComparison_eq (pair : ConditionPair) (row : TrialRow) :
    pairComparison day pair row =
      mean (((day.rows.filter (fun other => Missed pair other && decide (rowText other = rowText row))).filter (Known pair)).map (pairValue day)) := by
  have hmissed : ∀ other, (Known pair other && !Met pair other) = (Known pair other && Missed pair other) := by
    intro other
    unfold Known Met Missed
    rcases conditionValue pair.1 other with _ | _ | _ <;> rcases conditionValue pair.2 other with _ | _ | _ <;> rfl
  unfold pairComparison cellAt knownRows
  dsimp only
  rw [List.filter_filter, List.filter_filter]
  congr 2
  refine List.filter_congr fun other _ => ?_
  have h := hmissed other
  rw [Bool.eq_iff_iff] at h ⊢
  simp only [Bool.and_eq_true, decide_eq_true_eq] at h ⊢
  unfold rowText
  tauto

theorem pairMatches_of_noHalfKnown (hpair : pair ∈ pairsOf (pairConditionKeys day.slot)) (h : NoHalfKnown day pair) :
    PairMatches day pair := by
  refine (pairMatches_iff day hpair).mpr fun _ => ?_
  congr 2
  refine List.filterMap_congr fun row hrow => ?_
  obtain ⟨hmem, hmet⟩ := List.mem_filter.mp hrow
  unfold lessMean
  rcases hvalue : pairValue day row with _ | value
  · rfl
  · rw [Option.bind_some, Option.bind_some, pairComparison_eq, mean_filter day, tacticComparison]
    intro other hother hunknown
    obtain ⟨hotherMem, hothers⟩ := List.mem_filter.mp hother
    rw [Bool.and_eq_true, decide_eq_true_eq] at hothers
    refine h row hmem hmet (by rw [hvalue]; rfl) other hotherMem ?_ (boardText_injective hothers.2)
    rw [HalfKnown, hothers.1, hunknown]
    rfl

end Cells

/-! ## Every outcome -/

/-- The same rows with other outcomes. -/
def TrialDay.withOutcomes (day : TrialDay) (outcomes : String → Option PickEvaluation) : TrialDay := { day with outcomes := outcomes }

/-- An evaluation with one return throughout. -/
def flatEvaluation (value : ℚ) : PickEvaluation where
  entries := fun _ _ => { status := .settled, rawReturn := some value, netReturn := some value, priceBasis := .adjFactorAdjusted }
  sealAgain := none
  bigLoss := none
  s1High := none
  s1Low := none
  s3High := none
  openToClose := none

/-- Two stocks have a return, and no other. -/
def twoReturns (first second : String) (symbol : String) : Option PickEvaluation :=
  if symbol = first then some (flatEvaluation 0) else if symbol = second then some (flatEvaluation 1) else none

theorem pairValue_twoReturns (day : TrialDay) (first second : String) (row : TrialRow) :
    pairValue (day.withOutcomes (twoReturns first second)) row =
      if row.symbol = first then some 0 else if row.symbol = second then some 1 else none := by
  have hflat : ∀ value, (outcomeValue (some (flatEvaluation value)) (pairOutcome day.slot)).1 = some value := by
    intro value
    cases day.slot <;> rfl
  have hnone : (outcomeValue none (pairOutcome day.slot)).1 = none := by cases day.slot <;> rfl
  change (outcomeValue (twoReturns first second row.symbol) (pairOutcome day.slot)).1 = _
  unfold twoReturns
  split
  · exact hflat 0
  · split
    · exact hflat 1
    · exact hnone

theorem mean_map_some_eq_none_iff {values : List ℚ} : mean (values.map some) = none ↔ values = [] := by
  have hvalid : (values.map some).filterMap id = values := by simp [List.filterMap_map]
  unfold mean
  rw [hvalid]
  by_cases hnil : values = [] <;> simp [hnil]

theorem mean_eq_none_iff {values : List (Option ℚ)} : mean values = none ↔ ∀ value ∈ values, value = none := by
  unfold mean
  simp

theorem symbol_injective {rows : List TrialRow} (h : (rows.map (·.symbol)).Nodup) {first second : TrialRow} (hfirst : first ∈ rows)
    (hsecond : second ∈ rows) (hsame : first.symbol = second.symbol) : first = second :=
  List.inj_on_of_nodup_map h hfirst hsecond hsame

theorem not_pairMatches {day : TrialDay} (hpair : pair ∈ pairsOf (pairConditionKeys day.slot))
    (hsymbols : (day.rows.map (·.symbol)).Nodup) {pick other : TrialRow} (hpick : pick ∈ day.rows) (hmet : Met pair pick = true)
    (hother : other ∈ day.rows) (hhalf : HalfKnown pair other = true) (hbucket : other.boardBucket = pick.boardBucket) :
    ¬PairMatches (day.withOutcomes (twoReturns pick.symbol other.symbol)) pair := by
  let twoDay := day.withOutcomes (twoReturns pick.symbol other.symbol)
  rw [HalfKnown, Bool.and_eq_true, Bool.not_eq_true'] at hhalf
  obtain ⟨hmissed, hunknown⟩ := hhalf
  have hpickMem : pick ∈ metRows twoDay pair := List.mem_filter.mpr ⟨hpick, hmet⟩
  have hvalue : ∀ row ∈ day.rows, row ≠ pick → row ≠ other → pairValue twoDay row = none := by
    intro row hrow hnePick hneOther
    rw [pairValue_twoReturns, if_neg fun hsame => hnePick (symbol_injective hsymbols hrow hpick hsame),
      if_neg fun hsame => hneOther (symbol_injective hsymbols hrow hother hsame)]
  have hneOther : other ≠ pick := by
    rintro rfl
    rw [known_of_met hmet] at hunknown
    exact absurd hunknown (by decide)
  intro hmatches
  have hsame := (pairMatches_iff twoDay hpair).mp hmatches (List.ne_nil_of_mem hpickMem)
  -- the pair compares with known rows, none of which has a value
  have hpairNone : (metRows twoDay pair).filterMap (lessMean twoDay (pairComparison twoDay pair)) = [] := by
    refine List.filterMap_eq_nil_iff.mpr fun row _ => ?_
    have hcomparison : pairComparison twoDay pair row = none := by
      rw [pairComparison_eq, mean_eq_none_iff]
      intro value hmem
      obtain ⟨candidate, hcandidate, rfl⟩ := List.mem_map.mp hmem
      obtain ⟨hcandidate, hknown⟩ := List.mem_filter.mp hcandidate
      obtain ⟨hcandidate, hmisses⟩ := List.mem_filter.mp hcandidate
      refine hvalue candidate hcandidate ?_ ?_
      · rintro rfl
        rw [not_missed_of_met hmet] at hmisses
        exact absurd hmisses (by simp)
      · rintro rfl
        rw [hunknown] at hknown
        exact absurd hknown (by decide)
    rw [lessMean, hcomparison]
    cases pairValue twoDay row <;> rfl
  have htacticSome : (metRows twoDay pair).filterMap (lessMean twoDay (tacticComparison twoDay pair)) ≠ [] := by
    intro hnil
    have hnone := List.filterMap_eq_nil_iff.mp hnil pick hpickMem
    have hcomparison : tacticComparison twoDay pair pick ≠ none := by
      rw [tacticComparison, Ne, mean_eq_none_iff]
      intro hall
      have hmem : other ∈ twoDay.rows.filter (fun row => Missed pair row && decide (rowText row = rowText pick)) :=
        List.mem_filter.mpr ⟨hother, by rw [hmissed, rowText, rowText, hbucket]; simp⟩
      have hzero := hall _ (List.mem_map_of_mem hmem)
      rw [pairValue_twoReturns, if_neg fun hsame => hneOther (symbol_injective hsymbols hother hpick hsame), if_pos rfl] at hzero
      exact absurd hzero (by simp)
    obtain ⟨middle, hmiddle⟩ := Option.ne_none_iff_exists'.mp hcomparison
    rw [lessMean, pairValue_twoReturns, if_pos rfl, hmiddle] at hnone
    exact absurd hnone (by simp)
  rw [hpairNone] at hsame
  exact htacticSome (mean_map_some_eq_none_iff.mp (hsame.symm.trans rfl))

/-- **A mined pair is the tactic of its two conditions** when no half-known row with a value is beside a pick with a value. The rows of a
    reading give the same pair and tactic on every outcome exactly when they have no half-known row beside a pick. -/
theorem day_pairs_match (day : TrialDay) (pair : ConditionPair) (hpair : pair ∈ pairsOf (pairConditionKeys day.slot)) :
    (NoHalfKnown day pair → PairMatches day pair) ∧
      ((day.rows.map (·.symbol)).Nodup →
        ((∀ outcomes, PairMatches (day.withOutcomes outcomes) pair) ↔ ∀ outcomes, NoHalfKnown (day.withOutcomes outcomes) pair)) := by
  refine ⟨pairMatches_of_noHalfKnown day hpair, ?_⟩
  intro hsymbols
  constructor
  · intro hall outcomes pick hpick hmet _ other hother hhalf hbucket
    exact absurd (hall _) (not_pairMatches hpair hsymbols hpick hmet hother hhalf hbucket)
  · intro hall outcomes
    exact pairMatches_of_noHalfKnown (day.withOutcomes outcomes) hpair (hall outcomes)

/-- A stock in a big theme of seven and more, and one whose theme is not big and of unknown size. -/
def twoRowDay (unknown : List String) : TrialDay where
  tradeDate := 20740
  slot := .close
  rows :=
    [{ symbol := "P", boardBucket := some .one, gapBucket := none, hasPrev := false, flags := ["theme_big", "theme_7plus"], unknown := [] },
      { symbol := "H", boardBucket := some .one, gapBucket := none, hasPrev := false, flags := [], unknown := unknown }]
  outcomes := twoReturns "P" "H"

theorem day_pairs_match_known : PairMatches (twoRowDay []) ("theme_big", "theme_7plus") := by
  refine (day_pairs_match (twoRowDay []) ("theme_big", "theme_7plus") (by decide +kernel)).1 ?_
  intro pick _ _ _ other hother hhalf
  have hnone : ∀ row ∈ (twoRowDay []).rows, HalfKnown ("theme_big", "theme_7plus") row = false := by decide +kernel
  rw [hnone other hother] at hhalf
  exact absurd hhalf (by decide)

/-- **A half-known row is compared with by the tactic alone**: its difference is -1, and the pair has none. -/
theorem half_known_row_left_out :
    ("theme_big", "theme_7plus") ∈ pairsOf (pairConditionKeys (twoRowDay ["theme_7plus"]).slot) ∧
      ¬PairMatches (twoRowDay ["theme_7plus"]) ("theme_big", "theme_7plus") := by
  have hpair : ("theme_big", "theme_7plus") ∈ pairsOf (pairConditionKeys (twoRowDay ["theme_7plus"]).slot) := by decide +kernel
  have hday : (twoRowDay ["theme_7plus"]).withOutcomes (twoReturns "P" "H") = twoRowDay ["theme_7plus"] := rfl
  obtain ⟨pick, other, hrows, hpick, hother⟩ : ∃ pick other, (twoRowDay ["theme_7plus"]).rows = [pick, other] ∧
      (pick.symbol = "P" ∧ Met ("theme_big", "theme_7plus") pick = true) ∧
      (other.symbol = "H" ∧ HalfKnown ("theme_big", "theme_7plus") other = true ∧ other.boardBucket = pick.boardBucket) :=
    ⟨_, _, rfl, by decide +kernel, by decide +kernel⟩
  have hsymbols : ((twoRowDay ["theme_7plus"]).rows.map (·.symbol)).Nodup := by decide +kernel
  have hapart := not_pairMatches hpair hsymbols (hrows ▸ List.mem_cons_self) hpick.2 (hrows ▸ List.mem_cons_of_mem _ List.mem_cons_self)
    hother.2.1 hother.2.2
  rw [hpick.1, hother.1, hday] at hapart
  exact ⟨hpair, hapart⟩

end TradingHarness
