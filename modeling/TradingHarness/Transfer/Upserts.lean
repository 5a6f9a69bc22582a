import TradingHarness.Transfer.Delivery

set_option autoImplicit false

/-! # What the tables hold

An upsert leaves its row under its key and every other key as it was, so of the rows that a page sets under a
key the last one stays. -/

namespace TradingHarness

open JsonText (Value canonical)

variable (importer : Importer)

/-! ## One row -/

/-- The key is there, and what is stored under it has the columns of the row. -/
def HoldsRow (tables : Tables) (table : TransferTable) (row : Columns) : Prop :=
  (∃ stored ∈ tables table.name, keyOf table stored = keyOf table row) ∧
    ∀ stored ∈ tables table.name, keyOf table stored = keyOf table row →
      ∀ column ∈ updatesOf table row, stored.lookup column.1 = some column.2

theorem mem_updatesOf {table : TransferTable} {row : Columns} {column : List Char × Value} :
    column ∈ updatesOf table row ↔
      column ∈ row ∧ String.ofList column.1 ∉ table.conflictColumns := by
  unfold updatesOf
  rw [List.mem_filter, Bool.not_eq_true', List.contains_eq_mem, decide_eq_false_iff_not]

section

variable (table : TransferTable)

theorem keyOf_congr (first second : Columns)
    (h : ∀ column ∈ table.conflictColumns, first.lookup column.toList = second.lookup column.toList) :
    keyOf table first = keyOf table second := by
  unfold keyOf
  refine List.map_congr_left (fun column hcolumn => ?_)
  rw [h column hcolumn]

theorem keyOf_update (stored row : Columns) :
    keyOf table (Dict.update stored (updatesOf table row)) = keyOf table stored := by
  refine keyOf_congr table _ _ (fun column hcolumn => ?_)
  refine Dict.lookup_update_of_not_mem _ _ _ (fun hmem => ?_)
  obtain ⟨entry, hentry, hname⟩ := List.mem_map.mp hmem
  have hnot := (mem_updatesOf.mp hentry).2
  rw [hname, String.ofList_toList] at hnot
  exact hnot hcolumn

theorem keyOf_new (defaults row : Columns) (hvalid : validColumns table row = true)
    (hnodup : (row.map Prod.fst).Nodup) : keyOf table (Dict.update defaults row) = keyOf table row := by
  refine keyOf_congr table _ _ (fun column hcolumn => ?_)
  unfold validColumns at hvalid
  rw [Bool.and_eq_true, Bool.and_eq_true, List.all_eq_true] at hvalid
  obtain ⟨value, hvalue⟩ := Option.isSome_iff_exists.mp (hvalid.1.2 column hcolumn)
  rw [hvalue]
  exact Dict.lookup_update_of_mem defaults row hnodup (column.toList, value) (Dict.mem_of_lookup _ _ _ hvalue)

end

variable (tables : Tables) (table : TransferTable) (row : Columns)

theorem applyRecord_self :
    applyRecord importer tables (table, row) table.name
      = upsert importer table (tables table.name) row :=
  Function.update_self _ _ _

theorem nodup_updatesOf (hnodup : (row.map Prod.fst).Nodup) :
    ((updatesOf table row).map Prod.fst).Nodup :=
  hnodup.sublist (List.Sublist.map _ List.filter_sublist)

theorem holdsRow_applyRecord (hvalid : validColumns table row = true)
    (hnodup : (row.map Prod.fst).Nodup) :
    HoldsRow (applyRecord importer tables (table, row)) table row := by
  unfold HoldsRow
  rw [applyRecord_self]
  unfold upsert
  by_cases hthere : (tables table.name).any (fun stored => keyOf table stored == keyOf table row) = true
  · rw [if_pos hthere]
    refine ⟨?_, ?_⟩
    · obtain ⟨stored, hstored, hkey⟩ := List.any_eq_true.mp hthere
      refine ⟨_, List.mem_map.mpr ⟨stored, hstored, rfl⟩, ?_⟩
      rw [if_pos hkey, keyOf_update]
      exact eq_of_beq hkey
    · intro stored hstored hkey column hcolumn
      obtain ⟨old, -, rfl⟩ := List.mem_map.mp hstored
      by_cases hold : (keyOf table old == keyOf table row) = true
      · rw [if_pos hold]
        exact Dict.lookup_update_of_mem old _ (nodup_updatesOf table row hnodup) column hcolumn
      · rw [if_neg hold] at hkey
        exact absurd (beq_iff_eq.mpr hkey) hold
  · rw [if_neg hthere]
    have hnew := keyOf_new table (importer.defaults table) row hvalid hnodup
    refine ⟨⟨_, List.mem_append_right _ (List.mem_singleton.mpr rfl), hnew⟩, ?_⟩
    intro stored hstored hkey column hcolumn
    rcases List.mem_append.mp hstored with hold | hold
    · refine absurd ?_ hthere
      rw [List.any_eq_true]
      exact ⟨stored, hold, beq_iff_eq.mpr hkey⟩
    · rw [List.mem_singleton.mp hold]
      exact Dict.lookup_update_of_mem _ _ hnodup column (mem_updatesOf.mp hcolumn).1

theorem mem_upsert_of_other (rows : List Columns) (other : Columns) (hvalid : validColumns table other = true)
    (hnodup : (other.map Prod.fst).Nodup) (hkey : keyOf table other ≠ keyOf table row) (stored : Columns)
    (hstored : keyOf table stored = keyOf table row) :
    stored ∈ upsert importer table rows other ↔ stored ∈ rows := by
  unfold upsert
  by_cases hthere : rows.any (fun stored => keyOf table stored == keyOf table other) = true
  · rw [if_pos hthere, List.mem_map]
    constructor
    · rintro ⟨old, hold, rfl⟩
      by_cases hsame : (keyOf table old == keyOf table other) = true
      · rw [if_pos hsame, keyOf_update, eq_of_beq hsame] at hstored
        exact absurd hstored hkey
      · rw [if_neg hsame]
        exact hold
    · intro hold
      refine ⟨stored, hold, if_neg ?_⟩
      rw [beq_iff_eq, hstored]
      exact hkey.symm
  · rw [if_neg hthere, List.mem_append, List.mem_singleton]
    constructor
    · rintro (hold | rfl)
      · exact hold
      · rw [keyOf_new table _ other hvalid hnodup] at hstored
        exact absurd hstored hkey
    · exact Or.inl

theorem holdsRow_of_other (other : Columns) (hvalid : validColumns table other = true)
    (hnodup : (other.map Prod.fst).Nodup) (hkey : keyOf table other ≠ keyOf table row)
    (h : HoldsRow tables table row) : HoldsRow (applyRecord importer tables (table, other)) table row := by
  have hmem := mem_upsert_of_other importer table row (tables table.name) other hvalid hnodup hkey
  unfold HoldsRow
  rw [applyRecord_self]
  obtain ⟨⟨stored, hstored, hstoredKey⟩, hall⟩ := h
  exact ⟨⟨stored, (hmem stored hstoredKey).mpr hstored, hstoredKey⟩,
    fun found hfound hfoundKey => hall found ((hmem found hfoundKey).mp hfound) hfoundKey⟩

theorem holdsRow_of_otherTable (record : TransferTable × Columns) (hname : record.1.name ≠ table.name)
    (h : HoldsRow tables table row) : HoldsRow (applyRecord importer tables record) table row := by
  have htable : applyRecord importer tables record table.name = tables table.name :=
    Function.update_of_ne hname.symm _ _
  unfold HoldsRow
  rw [htable]
  exact h

/-! ## The rows of a page -/

/-- Two entries of one row. -/
def SameKey (first second : Change) : Prop :=
  ∃ table, tableNamed first.table = some table ∧ tableNamed second.table = some table ∧
    keyOf table first.row = keyOf table second.row

/-- The table holds the columns of the entry. -/
def HoldsChange (tables : Tables) (change : Change) : Prop :=
  ∃ table, tableNamed change.table = some table ∧ HoldsRow tables table change.row

/-- An entry that can be set: its columns are valid and distinct. -/
def Settable (change : Change) : Prop :=
  (change.row.map Prod.fst).Nodup ∧
    ∃ table, tableNamed change.table = some table ∧ validColumns table change.row = true

theorem tableNamed_name {name : String} {table : TransferTable} (h : tableNamed name = some table) :
    table.name = name := by
  have hfound := List.find?_some h
  exact eq_of_beq hfound

theorem applyChange_eq {change : Change} {table : TransferTable} (h : tableNamed change.table = some table) :
    applyChange importer tables change = applyRecord importer tables (table, change.row) := by
  unfold applyChange
  rw [h]

theorem holdsChange_applyChange {change : Change} (h : Settable change) :
    HoldsChange (applyChange importer tables change) change := by
  obtain ⟨hnodup, table, htable, hvalid⟩ := h
  rw [applyChange_eq importer tables htable]
  exact ⟨table, htable, holdsRow_applyRecord importer tables table change.row hvalid hnodup⟩

theorem holdsChange_of_other {change other : Change} (hother : Settable other) (hkey : ¬ SameKey other change)
    (h : HoldsChange tables change) : HoldsChange (applyChange importer tables other) change := by
  obtain ⟨hnodup, otherTable, hotherTable, hvalid⟩ := hother
  obtain ⟨table, htable, hholds⟩ := h
  rw [applyChange_eq importer tables hotherTable]
  refine ⟨table, htable, ?_⟩
  by_cases hname : otherTable.name = table.name
  · have hsame : otherTable = table := by
      rw [tableNamed_name hotherTable, tableNamed_name htable] at hname
      rw [hname, htable] at hotherTable
      exact (Option.some.inj hotherTable).symm
    subst hsame
    refine holdsRow_of_other importer tables otherTable change.row other.row hvalid hnodup ?_ hholds
    exact fun heq => hkey ⟨otherTable, hotherTable, htable, heq⟩
  · exact holdsRow_of_otherTable importer tables table change.row (otherTable, other.row) hname hholds

variable (rows : List Change)

theorem holdsChange_foldl_of_others {change : Change} (hset : ∀ other ∈ rows, Settable other)
    (hkey : ∀ other ∈ rows, ¬ SameKey other change) (h : HoldsChange tables change) :
    HoldsChange (rows.foldl (applyChange importer) tables) change := by
  induction rows generalizing tables with
  | nil => exact h
  | cons other rest ih =>
      exact ih _ (fun other hother => hset other (List.mem_cons_of_mem _ hother))
        (fun other hother => hkey other (List.mem_cons_of_mem _ hother))
        (holdsChange_of_other importer tables (hset other List.mem_cons_self) (hkey other List.mem_cons_self) h)

theorem holdsChange_foldl_newest {change : Change} (hset : ∀ other ∈ rows, Settable other)
    (hsorted : rows.Pairwise (fun first second => first.sequence < second.sequence)) (hmem : change ∈ rows)
    (hnewest : ∀ other ∈ rows, SameKey other change → other.sequence ≤ change.sequence) :
    HoldsChange (rows.foldl (applyChange importer) tables) change := by
  obtain ⟨before, after, rfl⟩ := List.append_of_mem hmem
  rw [List.foldl_append, List.foldl_cons]
  have hlater := (List.pairwise_cons.mp (List.pairwise_append.mp hsorted).2.1).1
  refine holdsChange_foldl_of_others importer _ after
    (fun other hother => hset other (List.mem_append_right _ (List.mem_cons_of_mem _ hother))) ?_
    (holdsChange_applyChange importer _ (hset change hmem))
  intro other hother hsame
  have hle := hnewest other (List.mem_append_right _ (List.mem_cons_of_mem _ hother)) hsame
  have hlt := hlater other hother
  omega

end TradingHarness
