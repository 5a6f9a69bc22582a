import Mathlib.Data.List.Induction
import TradingHarness.Membership.Universe

set_option autoImplicit false

/-! # Runs of the universe history

Snapshots alone keep the intervals of a symbol apart. A rebuild does where the interval that the bars give a symbol
meets none of those that it keeps. -/

namespace TradingHarness

/-! ## Spans of a universe -/

/-- The spans of each symbol of the universe. -/
def intervalsOf (universeKey : List Char) (table : List UniverseRow) : Spans.Book Symbol :=
  fun symbol span => ∃ row ∈ table, row.universeKey = universeKey ∧ row.symbol = symbol ∧ row.span = span

variable {universeKey : List Char} {table : List UniverseRow}

theorem hasOpen_iff {symbol : Symbol} :
    hasOpen universeKey table symbol = true ↔ Spans.Open (intervalsOf universeKey table) symbol := by
  unfold hasOpen
  rw [List.any_eq_true]
  constructor
  · rintro ⟨row, hrow, hopen⟩
    obtain ⟨huniverse, hsymbol, hto⟩ := of_decide_eq_true hopen
    refine ⟨row.effectiveFrom, row, hrow, huniverse, hsymbol, ?_⟩
    unfold UniverseRow.span
    rw [hto]
  · rintro ⟨first, row, hrow, huniverse, hsymbol, hspan⟩
    exact ⟨row, hrow, decide_eq_true ⟨huniverse, hsymbol, congrArg Spans.Span.last hspan⟩⟩

variable {rows : List UniverseRow} {row : UniverseRow}

theorem conflicting_some {old : UniverseRow} (h : conflicting rows old = some row) :
    row ∈ rows ∧ row.key = old.key :=
  ⟨List.mem_of_find?_eq_some h, by simpa using List.find?_some h⟩

theorem conflicting_none {old : UniverseRow} :
    conflicting rows old = none ↔ ∀ row ∈ rows, row.key ≠ old.key := by
  unfold conflicting
  rw [List.find?_eq_none]
  simp

theorem mem_insertIntervals (hkeys : (rows.map UniverseRow.key).Nodup) :
    row ∈ insertIntervals rows table ↔ row ∈ rows ∨ (row ∈ table ∧ ∀ other ∈ rows, other.key ≠ row.key) := by
  unfold insertIntervals
  rw [List.mem_append, List.mem_map, List.mem_filter]
  constructor
  · rintro (⟨old, hold, rfl⟩ | ⟨hrow, -⟩)
    · rcases hfind : conflicting rows old with _ | row
      · exact Or.inr ⟨hold, conflicting_none.mp hfind⟩
      · exact Or.inl (conflicting_some hfind).1
    · exact Or.inl hrow
  · rintro (hrow | ⟨hrow, hkeep⟩)
    · by_cases hstored : ∃ old ∈ table, old.key = row.key
      · obtain ⟨old, hold, hkey⟩ := hstored
        refine Or.inl ⟨old, hold, ?_⟩
        rcases hfind : conflicting rows old with _ | found
        · exact absurd hkey.symm (conflicting_none.mp hfind row hrow)
        · obtain ⟨hfound, hsame⟩ := conflicting_some hfind
          exact List.inj_on_of_nodup_map hkeys hfound hrow (hsame.trans hkey)
      · refine Or.inr ⟨hrow, ?_⟩
        rw [Bool.not_eq_true', List.any_eq_false]
        exact fun old hold hkey => hstored ⟨old, hold, of_decide_eq_true hkey⟩
    · refine Or.inl ⟨row, hrow, ?_⟩
      rw [conflicting_none.mpr hkeep]
      rfl

theorem keys_insertIntervals (hrows : (rows.map UniverseRow.key).Nodup)
    (htable : (table.map UniverseRow.key).Nodup) : ((insertIntervals rows table).map UniverseRow.key).Nodup := by
  have hsame : (table.map (fun old => (conflicting rows old).getD old)).map UniverseRow.key
      = table.map UniverseRow.key := by
    rw [List.map_map]
    refine List.map_congr_left (fun old _ => ?_)
    rw [Function.comp_apply]
    rcases hfind : conflicting rows old with _ | row
    · rfl
    · exact (conflicting_some hfind).2
  unfold insertIntervals
  rw [List.map_append, hsame]
  refine List.nodup_append.mpr ⟨htable, hrows.sublist (List.filter_sublist.map _), ?_⟩
  rintro key hkey other hother rfl
  obtain ⟨old, hold, rfl⟩ := List.mem_map.mp hkey
  obtain ⟨row, hrow, hsameKey⟩ := List.mem_map.mp hother
  have hfresh := (List.mem_filter.mp hrow).2
  rw [Bool.not_eq_true', List.any_eq_false] at hfresh
  exact hfresh old hold (decide_eq_true hsameKey.symm)

theorem intervalsOf_insert (hkeys : (rows.map UniverseRow.key).Nodup)
    (universeKey : List Char) : intervalsOf universeKey (insertIntervals rows table)
      = Spans.put (intervalsOf universeKey rows) (intervalsOf universeKey table) := by
  funext symbol span
  apply propext
  constructor
  · rintro ⟨row, hrow, rfl, rfl, rfl⟩
    rcases (mem_insertIntervals hkeys).mp hrow with hnew | ⟨hold, hkeep⟩
    · exact Or.inl ⟨row, hnew, rfl, rfl, rfl⟩
    · refine Or.inr ⟨⟨row, hold, rfl, rfl, rfl⟩, ?_⟩
      rintro other ⟨written, hwritten, huniverse, hsymbol, rfl⟩ hfirst
      exact hkeep written hwritten (Prod.ext huniverse (Prod.ext hsymbol hfirst))
  · rintro (⟨row, hrow, rfl, rfl, rfl⟩ | ⟨⟨row, hrow, rfl, rfl, rfl⟩, hkeep⟩)
    · exact ⟨row, (mem_insertIntervals hkeys).mpr (Or.inl hrow), rfl, rfl, rfl⟩
    · refine ⟨row, (mem_insertIntervals hkeys).mpr (Or.inr ⟨hrow, fun other hother hkey => ?_⟩), rfl, rfl, rfl⟩
      obtain ⟨huniverse, hrest⟩ := Prod.mk.inj hkey
      obtain ⟨hsymbol, hfirst⟩ := Prod.mk.inj hrest
      exact hkeep other.span ⟨other, hother, huniverse, hsymbol, rfl⟩ hfirst

/-! ## A snapshot -/

variable {exchangeDate : Date} {symbols : List Symbol}

theorem mem_closeMissingRows     :
    row ∈ closeMissingRows universeKey exchangeDate symbols table ↔
      ∃ old ∈ table, isDiscarded universeKey exchangeDate symbols old = false ∧
        row = if isEnded universeKey exchangeDate symbols old then { old with effectiveTo := some (exchangeDate - 1) }
          else old := by
  unfold closeMissingRows
  rw [List.mem_map]
  constructor
  · rintro ⟨old, hold, rfl⟩
    obtain ⟨hmem, hkeep⟩ := List.mem_filter.mp hold
    exact ⟨old, hmem, by simpa using hkeep, rfl⟩
  · rintro ⟨old, hold, hkeep, rfl⟩
    exact ⟨old, List.mem_filter.mpr ⟨hold, by rw [hkeep]; rfl⟩, rfl⟩

theorem isMissing_iff :
    isMissing universeKey symbols row = true ↔
      row.universeKey = universeKey ∧ row.effectiveTo = none ∧ row.symbol ∉ symbols := by
  unfold isMissing
  rw [decide_eq_true_iff, ← Bool.not_eq_true, List.contains_iff_mem]

theorem isDiscarded_iff :
    isDiscarded universeKey exchangeDate symbols row = true ↔
      (row.universeKey = universeKey ∧ row.effectiveTo = none ∧ row.symbol ∉ symbols) ∧
        row.effectiveFrom = exchangeDate := by
  unfold isDiscarded
  rw [Bool.and_eq_true, isMissing_iff, decide_eq_true_iff]

theorem isEnded_iff :
    isEnded universeKey exchangeDate symbols row = true ↔
      (row.universeKey = universeKey ∧ row.effectiveTo = none ∧ row.symbol ∉ symbols) ∧
        row.effectiveFrom < exchangeDate := by
  unfold isEnded
  rw [Bool.and_eq_true, isMissing_iff, decide_eq_true_iff]

theorem intervalsOf_closeMissing (universeKey : List Char) (exchangeDate : Date) (symbols : List Symbol)
    (table : List UniverseRow) : intervalsOf universeKey (closeMissingRows universeKey exchangeDate symbols table)
      = Spans.closed (· ∉ symbols) exchangeDate
        (Spans.discarded (· ∉ symbols) exchangeDate (intervalsOf universeKey table)) := by
  funext symbol span
  apply propext
  constructor
  · rintro ⟨row, hrow, huniverse, hsymbol, rfl⟩
    obtain ⟨old, hold, hkeep, rfl⟩ := mem_closeMissingRows.mp hrow
    have hkept : isDiscarded universeKey exchangeDate symbols old ≠ true := by simp [hkeep]
    split at huniverse
    next hended =>
      rw [if_pos hended] at hsymbol ⊢
      obtain ⟨⟨-, hopen, hgone⟩, hfirst⟩ := isEnded_iff.mp hended
      have hspan : old.span = ⟨old.effectiveFrom, none⟩ := by
        unfold UniverseRow.span
        rw [hopen]
      refine Or.inr ⟨rfl, hfirst, hsymbol ▸ hgone, ⟨old, hold, huniverse, hsymbol, hspan⟩, ?_⟩
      rintro ⟨-, hsame⟩
      have hbegan : old.effectiveFrom = exchangeDate := (Spans.Span.mk.inj hsame).1
      exact absurd hfirst (by rw [hbegan]; exact lt_irrefl _)
    next hended =>
      rw [if_neg hended] at hsymbol ⊢
      refine Or.inl ⟨⟨⟨old, hold, huniverse, hsymbol, rfl⟩, ?_⟩, ?_⟩
      · rintro ⟨hgone, hsame⟩
        obtain ⟨hfirst, hopen⟩ := Spans.Span.mk.inj hsame
        exact hkept (isDiscarded_iff.mpr ⟨⟨huniverse, hopen, hsymbol ▸ hgone⟩, hfirst⟩)
      · rintro ⟨hopen, hfirst, hgone⟩
        exact hended (isEnded_iff.mpr ⟨⟨huniverse, hopen, hsymbol ▸ hgone⟩, hfirst⟩)
  · rintro (⟨⟨⟨old, hold, huniverse, hsymbol, rfl⟩, hkeep⟩, hstays⟩ | ⟨hlast, hfirst, hgone, ⟨old, hold, huniverse, hsymbol, hspan⟩, -⟩)
    · refine ⟨old, mem_closeMissingRows.mpr ⟨old, hold, ?_, ?_⟩, huniverse, hsymbol, rfl⟩
      · rw [← Bool.not_eq_true, isDiscarded_iff]
        rintro ⟨⟨-, hopen, hgone⟩, hbegan⟩
        refine hkeep ⟨hsymbol ▸ hgone, ?_⟩
        unfold UniverseRow.span
        rw [hopen, hbegan]
      · rw [if_neg]
        intro hended
        obtain ⟨⟨-, hopen, hgone⟩, hbegan⟩ := isEnded_iff.mp hended
        exact hstays ⟨hopen, hbegan, hsymbol ▸ hgone⟩
    · obtain ⟨hbegan, hopen⟩ : old.effectiveFrom = span.first ∧ old.effectiveTo = none := Spans.Span.mk.inj hspan
      have hended : isEnded universeKey exchangeDate symbols old = true :=
        isEnded_iff.mpr ⟨⟨huniverse, hopen, hsymbol ▸ hgone⟩, by rw [hbegan]; exact hfirst⟩
      refine ⟨_, mem_closeMissingRows.mpr ⟨old, hold, ?_, rfl⟩, ?_, ?_, ?_⟩
      · rw [← Bool.not_eq_true, isDiscarded_iff]
        rintro ⟨-, hsame⟩
        exact absurd hfirst (by rw [← hbegan, hsame]; exact lt_irrefl _)
      · rw [if_pos hended]
        exact huniverse
      · rw [if_pos hended]
        exact hsymbol
      · rw [if_pos hended]
        unfold UniverseRow.span
        dsimp only
        rw [hbegan, ← hlast]

theorem intervalsOf_closeMissing_of_ne {other : List Char} (hne : other ≠ universeKey) (exchangeDate : Date)
    (symbols : List Symbol) (table : List UniverseRow) :
    intervalsOf other (closeMissingRows universeKey exchangeDate symbols table) = intervalsOf other table := by
  have hkeep : ∀ row : UniverseRow, row.universeKey = other → isMissing universeKey symbols row = false := by
    intro row hrow
    rw [← Bool.not_eq_true, isMissing_iff, hrow]
    exact fun hmissing => hne hmissing.1
  funext symbol span
  apply propext
  constructor
  · rintro ⟨row, hrow, huniverse, hsymbol, rfl⟩
    obtain ⟨old, hold, -, rfl⟩ := mem_closeMissingRows.mp hrow
    split at huniverse
    next hended =>
      unfold isEnded at hended
      rw [hkeep old huniverse] at hended
      exact absurd hended (by simp)
    next hended =>
      rw [if_neg hended] at hsymbol ⊢
      exact ⟨old, hold, huniverse, hsymbol, rfl⟩
  · rintro ⟨old, hold, huniverse, hsymbol, rfl⟩
    refine ⟨old, mem_closeMissingRows.mpr ⟨old, hold, ?_, ?_⟩, huniverse, hsymbol, rfl⟩
    · unfold isDiscarded
      rw [hkeep old huniverse, Bool.false_and]
    · unfold isEnded
      rw [hkeep old huniverse, Bool.false_and]
      rfl

theorem keys_closeMissing     (hkeys : (table.map UniverseRow.key).Nodup) :
    ((closeMissingRows universeKey exchangeDate symbols table).map UniverseRow.key).Nodup := by
  have hsame : (closeMissingRows universeKey exchangeDate symbols table).map UniverseRow.key
      = (table.filter (fun row => !isDiscarded universeKey exchangeDate symbols row)).map UniverseRow.key := by
    unfold closeMissingRows
    rw [List.map_map]
    refine List.map_congr_left (fun old _ => ?_)
    rw [Function.comp_apply]
    split <;> rfl
  rw [hsame]
  exact hkeys.sublist (List.filter_sublist.map _)

/-- The rows on which a snapshot opens its intervals. -/
def syncedRows (universeKey : List Char) (exchangeDate : Date) (symbols : List Symbol) (closesMissing : Bool)
    (table : List UniverseRow) : List UniverseRow :=
  if closesMissing then closeMissingRows universeKey exchangeDate symbols table else table

theorem keys_openedRows (universeKey : List Char) (exchangeDate : Date) (source : List Char)
    (hsymbols : symbols.Nodup) (table : List UniverseRow) :
    ((openedRows universeKey exchangeDate symbols source table).map UniverseRow.key).Nodup := by
  unfold openedRows
  rw [List.map_map]
  refine (hsymbols.sublist List.filter_sublist).map (fun symbol other hsame => ?_)
  exact (Prod.mk.inj (Prod.mk.inj hsame).2).1

theorem nodup_snapshotSymbols (activeSymbols : List (List Char)) : (snapshotSymbols activeSymbols).Nodup :=
  (List.perm_insertionSort _ _).nodup_iff.mpr (List.nodup_dedup _)

theorem intervalsOf_openedRows     {source : List Char} :
    intervalsOf universeKey (openedRows universeKey exchangeDate symbols source table) = fun symbol span =>
      (symbol ∈ symbols ∧ ¬ Spans.Open (intervalsOf universeKey table) symbol) ∧ span = ⟨exchangeDate, none⟩ := by
  funext symbol span
  apply propext
  constructor
  · rintro ⟨row, hrow, -, rfl, rfl⟩
    obtain ⟨opened, hopened, rfl⟩ := List.mem_map.mp hrow
    obtain ⟨hmem, hclosed⟩ := List.mem_filter.mp hopened
    rw [Bool.not_eq_true', ← Bool.not_eq_true, hasOpen_iff] at hclosed
    exact ⟨⟨hmem, hclosed⟩, rfl⟩
  · rintro ⟨⟨hmem, hclosed⟩, rfl⟩
    refine ⟨_, List.mem_map.mpr ⟨symbol, List.mem_filter.mpr ⟨hmem, ?_⟩, rfl⟩, rfl, rfl, rfl⟩
    rw [Bool.not_eq_true', ← Bool.not_eq_true, hasOpen_iff]
    exact hclosed

/-- **What a snapshot does to its universe**: it closes the symbols that are gone, if it may, and opens those of its
    symbols that are not open. -/
theorem intervalsOf_sync (universeKey : List Char) (exchangeDate : Date) (activeSymbols : List (List Char))
    (source : List Char) (closesMissing : Bool) (table : List UniverseRow) :
    intervalsOf universeKey
        (syncUniverseMembershipHistory universeKey exchangeDate activeSymbols source closesMissing table).2
      = Spans.opened (fun symbol => symbol ∈ snapshotSymbols activeSymbols ∧ ¬ Spans.Open (intervalsOf universeKey
          (syncedRows universeKey exchangeDate (snapshotSymbols activeSymbols) closesMissing table)) symbol) exchangeDate
        (intervalsOf universeKey
          (syncedRows universeKey exchangeDate (snapshotSymbols activeSymbols) closesMissing table)) := by
  rw [← Spans.put_open, ← intervalsOf_openedRows]
  exact intervalsOf_insert (keys_openedRows universeKey exchangeDate source (nodup_snapshotSymbols activeSymbols) _)
    universeKey

theorem intervalsOf_sync_of_ne {other : List Char} (hne : other ≠ universeKey) (exchangeDate : Date)
    (activeSymbols : List (List Char)) (source : List Char) (closesMissing : Bool) (table : List UniverseRow) :
    intervalsOf other
        (syncUniverseMembershipHistory universeKey exchangeDate activeSymbols source closesMissing table).2
      = intervalsOf other table := by
  refine (intervalsOf_insert (keys_openedRows universeKey exchangeDate source (nodup_snapshotSymbols activeSymbols) _)
    other).trans ?_
  rw [Spans.put_of_empty]
  · split
    · exact intervalsOf_closeMissing_of_ne hne exchangeDate _ table
    · rfl
  · rintro symbol span ⟨row, hrow, huniverse, -⟩
    obtain ⟨opened, -, rfl⟩ := List.mem_map.mp hrow
    exact hne huniverse.symm

/-! ## A rebuild -/

theorem intervalsOf_keptRows_of_ne {other : List Char} (hne : other ≠ universeKey) (table : List UniverseRow) :
    intervalsOf other (keptRows universeKey table) = intervalsOf other table := by
  funext symbol span
  apply propext
  constructor
  · rintro ⟨row, hrow, hrest⟩
    exact ⟨row, (List.mem_filter.mp hrow).1, hrest⟩
  · rintro ⟨row, hrow, huniverse, hrest⟩
    refine ⟨row, List.mem_filter.mpr ⟨hrow, ?_⟩, huniverse, hrest⟩
    unfold isAutomatic
    rw [huniverse, decide_eq_false hne, Bool.false_and, Bool.not_false]

variable {kept : List UniverseRow}

/-- What a desired row says of the evidence. -/
theorem desiredRow_some {evidence : CanonicalEvidence}
    {symbol : Symbol} (h : desiredRow universeKey evidence kept symbol = some row) :
    ∃ firstBar lastBar instrument, (barDates evidence symbol).min? = some firstBar ∧
      (barDates evidence symbol).max? = some lastBar ∧ evidence.instruments.lookup symbol = some instrument ∧
      instrument.delistDate.any (fun delisted => decide (delisted < firstBar)) = false ∧
      row.universeKey = universeKey ∧ row.symbol = symbol ∧
      row.effectiveFrom = max firstBar (instrument.listDate.getD firstBar) ∧
      ((∃ authoritative, authoritativeFrom universeKey symbol kept = some authoritative ∧
          row.effectiveTo = some (authoritative - 1)) ∨
        (authoritativeFrom universeKey symbol kept = none ∧ isLive universeKey evidence symbol = true ∧
          row.effectiveTo = none) ∨
        (authoritativeFrom universeKey symbol kept = none ∧ isLive universeKey evidence symbol = false ∧
          row.effectiveTo = some (min lastBar (instrument.delistDate.getD lastBar)))) := by
  unfold desiredRow at h
  split at h
  next firstBar lastBar instrument hfirst hlast hinstrument =>
    dsimp only at h
    refine ⟨firstBar, lastBar, instrument, hfirst, hlast, hinstrument, ?_⟩
    split at h
    next => exact absurd h (by simp)
    next hdelisted =>
      refine ⟨by simpa using hdelisted, ?_⟩
      split at h
      next authoritative hauthoritative =>
        split at h
        next =>
          obtain rfl := Option.some.inj h
          exact ⟨rfl, rfl, rfl, Or.inl ⟨authoritative, hauthoritative, rfl⟩⟩
        next => exact absurd h (by simp)
      next hauthoritative =>
        split at h
        next hlive =>
          obtain rfl := Option.some.inj h
          exact ⟨rfl, rfl, rfl, Or.inr (Or.inl ⟨hauthoritative, hlive, rfl⟩)⟩
        next hlive =>
          obtain rfl := Option.some.inj h
          exact ⟨rfl, rfl, rfl, Or.inr (Or.inr ⟨hauthoritative, by simpa using hlive, rfl⟩)⟩
  next => exact absurd h (by simp)

theorem mem_desiredRows {evidence : CanonicalEvidence}
    (h : row ∈ desiredRows universeKey evidence kept) :
    isAShare row.symbol = true ∧ row.universeKey = universeKey ∧
      desiredRow universeKey evidence kept row.symbol = some row := by
  obtain ⟨symbol, hsymbol, hrow⟩ := List.mem_filterMap.mp h
  obtain ⟨_, _, _, -, -, -, -, huniverse, rfl, -⟩ := desiredRow_some hrow
  exact ⟨(List.mem_filter.mp hsymbol).2, huniverse, hrow⟩

theorem nodup_desired (universeKey : List Char) (evidence : CanonicalEvidence) (kept : List UniverseRow) :
    ((desiredRows universeKey evidence kept).map UniverseRow.symbol).Nodup := by
  unfold desiredRows
  generalize hsymbols : ((evidence.bars.map Prod.fst).dedup).filter isAShare = symbols
  have hnodup : symbols.Nodup := by
    rw [← hsymbols]
    exact (List.nodup_dedup _).sublist List.filter_sublist
  clear hsymbols
  induction symbols with
  | nil => exact List.nodup_nil
  | cons symbol rest ih =>
      rw [List.nodup_cons] at hnodup
      rcases hrow : desiredRow universeKey evidence kept symbol with _ | row
      · rw [List.filterMap_cons_none hrow]
        exact ih hnodup.2
      · rw [List.filterMap_cons_some hrow, List.map_cons, List.nodup_cons]
        refine ⟨fun hmem => hnodup.1 ?_, ih hnodup.2⟩
        obtain ⟨other, hother, hsame⟩ := List.mem_map.mp hmem
        obtain ⟨place, hplace, hotherRow⟩ := List.mem_filterMap.mp hother
        obtain ⟨_, _, _, -, -, -, -, -, hsymbol, -⟩ := desiredRow_some hrow
        obtain ⟨_, _, _, -, -, -, -, -, hsymbol', -⟩ := desiredRow_some hotherRow
        rw [← hsymbol, ← hsame, hsymbol']
        exact hplace

/-! ## Runs -/

inductive UniverseOp
  | sync (universeKey : List Char) (exchangeDate : Date) (activeSymbols : List (List Char)) (source : List Char)
    (closesMissing : Bool)
  | rebuild (universeKey : List Char) (evidence : CanonicalEvidence)

def universeStep (op : UniverseOp) (table : List UniverseRow) : List UniverseRow :=
  match op with
  | .sync universeKey exchangeDate activeSymbols source closesMissing =>
    (syncUniverseMembershipHistory universeKey exchangeDate activeSymbols source closesMissing table).2
  | .rebuild universeKey evidence =>
    match rebuildHistoricalMembership universeKey evidence table with
    | .ok (_, after) => after
    | .error _ => table

/-- A symbol that the snapshot opens has no other interval that reaches its date. -/
def SnapshotFits (universeKey : List Char) (exchangeDate : Date) (symbols : List Symbol) (table : List UniverseRow) :
    Prop :=
  ∀ symbol ∈ symbols, hasOpen universeKey table symbol = false →
    ∀ row ∈ table, row.universeKey = universeKey → row.symbol = symbol → row.effectiveFrom ≠ exchangeDate →
      ∀ last, row.effectiveTo = some last → last < exchangeDate

/-- A closed interval that is kept, and does not begin with the bars of its symbol or its listing, ends before they
    begin, or begins after the bars and the listing have ended. -/
def RebuildFits (universeKey : List Char) (evidence : CanonicalEvidence) (table : List UniverseRow) : Prop :=
  ∀ symbol firstBar lastBar instrument, isAShare symbol = true → (barDates evidence symbol).min? = some firstBar →
    (barDates evidence symbol).max? = some lastBar → evidence.instruments.lookup symbol = some instrument →
    instrument.delistDate.any (fun delisted => decide (delisted < firstBar)) = false →
    ∀ row ∈ keptRows universeKey table, row.universeKey = universeKey → row.symbol = symbol →
      row.effectiveFrom ≠ max firstBar (instrument.listDate.getD firstBar) → ∀ last, row.effectiveTo = some last →
      last < max firstBar (instrument.listDate.getD firstBar) ∨
        (hasOpen universeKey (keptRows universeKey table) symbol = false ∧ isLive universeKey evidence symbol = false ∧
          min lastBar (instrument.delistDate.getD lastBar) < row.effectiveFrom)

/-- The step's own condition; a rebuild that the table refuses has none. -/
def UniverseFits (table : List UniverseRow) : UniverseOp → Prop
  | .sync universeKey exchangeDate activeSymbols _ _ =>
    SnapshotFits universeKey exchangeDate (snapshotSymbols activeSymbols) table
  | .rebuild universeKey evidence =>
    (∃ counts after, rebuildHistoricalMembership universeKey evidence table = .ok (counts, after)) →
      RebuildFits universeKey evidence table

structure UniverseSound (table : List UniverseRow) : Prop where
  keys : (table.map UniverseRow.key).Nodup
  disjoint : ∀ universeKey, Spans.Disjoint (intervalsOf universeKey table)

theorem universeSound_nil : UniverseSound [] :=
  ⟨List.nodup_nil, fun _ _ _ _ hspan => absurd hspan (fun ⟨_, hrow, _⟩ => List.not_mem_nil hrow)⟩

theorem intervalsOf_syncedRows     {closesMissing : Bool} {symbol : Symbol} (hsymbol : symbol ∈ symbols) {span : Spans.Span} :
    intervalsOf universeKey (syncedRows universeKey exchangeDate symbols closesMissing table) symbol span ↔
      intervalsOf universeKey table symbol span := by
  unfold syncedRows
  split
  · rw [intervalsOf_closeMissing]
    constructor
    · rintro (hspan | ⟨-, -, hgone, -⟩)
      · exact hspan.1.1
      · exact absurd hsymbol hgone
    · intro hspan
      exact Or.inl ⟨⟨hspan, fun hgone => hgone.1 hsymbol⟩, fun hgone => hgone.2.2 hsymbol⟩
  · exact Iff.rfl

theorem disjoint_syncedRows     {closesMissing : Bool} (h : Spans.Disjoint (intervalsOf universeKey table)) :
    Spans.Disjoint (intervalsOf universeKey (syncedRows universeKey exchangeDate symbols closesMissing table)) := by
  unfold syncedRows
  split
  · rw [intervalsOf_closeMissing]
    exact h.discarded.closed
  · exact h

theorem universeSound_sync (h : UniverseSound table)
    {activeSymbols : List (List Char)} (source : List Char) (closesMissing : Bool)
    (hfits : SnapshotFits universeKey exchangeDate (snapshotSymbols activeSymbols) table) :
    UniverseSound (syncUniverseMembershipHistory universeKey exchangeDate activeSymbols source closesMissing table).2 := by
  refine ⟨?_, fun other => ?_⟩
  · refine keys_insertIntervals
      (keys_openedRows universeKey exchangeDate source (nodup_snapshotSymbols activeSymbols) _) ?_
    split
    · exact keys_closeMissing h.keys
    · exact h.keys
  · by_cases hother : other = universeKey
    · rw [hother, intervalsOf_sync]
      refine (disjoint_syncedRows (h.disjoint universeKey)).opened (fun symbol span hchosen hspan hfirst => ?_)
      obtain ⟨row, hrow, huniverse, hsymbol, rfl⟩ := (intervalsOf_syncedRows hchosen.1).mp hspan
      have hclosed : hasOpen universeKey table symbol = false := by
        rw [← Bool.not_eq_true, hasOpen_iff]
        rintro ⟨first, hopen⟩
        exact hchosen.2 ⟨first, (intervalsOf_syncedRows hchosen.1).mpr hopen⟩
      rcases hto : row.effectiveTo with _ | last
      · rw [← Bool.not_eq_true, hasOpen_iff] at hclosed
        refine absurd ⟨row.effectiveFrom, row, hrow, huniverse, hsymbol, ?_⟩ hclosed
        unfold UniverseRow.span
        rw [hto]
      · exact ⟨last, hto, hfits symbol hchosen.1 hclosed row hrow huniverse hsymbol hfirst last hto⟩
    · rw [intervalsOf_sync_of_ne hother]
      exact h.disjoint other

theorem authoritativeFrom_le (hrow : row ∈ kept)
    (huniverse : row.universeKey = universeKey) (hopen : row.effectiveTo = none) :
    ∃ authoritative, authoritativeFrom universeKey row.symbol kept = some authoritative ∧
      authoritative ≤ row.effectiveFrom := by
  have hmem : row.effectiveFrom ∈ (kept.filter (fun other => decide (other.universeKey = universeKey ∧
      other.symbol = row.symbol ∧ other.effectiveTo = none))).map UniverseRow.effectiveFrom :=
    List.mem_map_of_mem (List.mem_filter.mpr ⟨hrow, decide_eq_true ⟨huniverse, rfl, hopen⟩⟩)
  rcases hmin : authoritativeFrom universeKey row.symbol kept with _ | authoritative
  · unfold authoritativeFrom at hmin
    rw [List.min?_eq_none_iff] at hmin
    rw [hmin] at hmem
    exact absurd hmem List.not_mem_nil
  · refine ⟨authoritative, rfl, ?_⟩
    unfold authoritativeFrom at hmin
    exact (List.min?_eq_some_iff.mp hmin).2 _ hmem

theorem hasOpen_of_authoritative {symbol : Symbol}
    {authoritative : Date} (h : authoritativeFrom universeKey symbol kept = some authoritative) :
    hasOpen universeKey kept symbol = true := by
  unfold authoritativeFrom at h
  obtain ⟨row, hrow, -⟩ := List.mem_map.mp (List.min?_eq_some_iff.mp h).1
  exact List.any_eq_true.mpr ⟨row, List.mem_filter.mp hrow⟩

theorem universeSound_rebuild (h : UniverseSound table)
    {evidence : CanonicalEvidence} (hfits : RebuildFits universeKey evidence table) :
    UniverseSound (insertIntervals (desiredRows universeKey evidence (keptRows universeKey table))
      (keptRows universeKey table)) := by
  have hkeys : ((desiredRows universeKey evidence (keptRows universeKey table)).map UniverseRow.key).Nodup := by
    refine List.Nodup.of_map (fun key => key.2.1) ?_
    rw [List.map_map]
    exact nodup_desired universeKey evidence _
  refine ⟨keys_insertIntervals hkeys (h.keys.sublist (List.filter_sublist.map _)), fun other => ?_⟩
  rw [intervalsOf_insert hkeys]
  by_cases hother : other = universeKey
  · rw [hother]
    refine Spans.Disjoint.put ?_ ?_ ?_
    · rintro symbol span span' ⟨row, hrow, hrest⟩ ⟨row', hrow', hrest'⟩
      exact h.disjoint universeKey symbol span span' ⟨row, (List.mem_filter.mp hrow).1, hrest⟩
        ⟨row', (List.mem_filter.mp hrow').1, hrest'⟩
    · rintro symbol _ _ ⟨row, hrow, -, hsymbol, rfl⟩ ⟨row', hrow', -, hsymbol', rfl⟩ hne
      have hsame := List.inj_on_of_nodup_map (nodup_desired universeKey evidence _) hrow hrow'
        (hsymbol.trans hsymbol'.symm)
      exact absurd (congrArg UniverseRow.span hsame) hne
    · rintro symbol _ _ ⟨row, hrow, -, hsymbol, rfl⟩ ⟨old, hold, huniverse, hsymbol', rfl⟩ hfirst
      obtain ⟨hshare, -, hdesired⟩ := mem_desiredRows hrow
      obtain ⟨firstBar, lastBar, instrument, hfirstBar, hlastBar, hinstrument, hlisted, -, -, hfrom, hto⟩ :=
        desiredRow_some hdesired
      have hsame : old.symbol = row.symbol := hsymbol'.trans hsymbol.symm
      rcases hend : old.effectiveTo with _ | last
      · -- an open interval that is kept begins where the desired one is made to end
        obtain ⟨authoritative, hauthoritative, hle⟩ := authoritativeFrom_le hold huniverse hend
        rw [hsame] at hauthoritative
        rcases hto with ⟨found, hfound, hto⟩ | ⟨hnone, -⟩ | ⟨hnone, -⟩
        · obtain rfl := Option.some.inj (hfound.symm.trans hauthoritative)
          exact (Spans.apart_of_ended hto (lt_of_lt_of_le (Int.sub_one_lt_of_le (le_refl _)) hle)).1
        · exact absurd (hnone.symm.trans hauthoritative) (by simp)
        · exact absurd (hnone.symm.trans hauthoritative) (by simp)
      · have hdistinct : old.effectiveFrom ≠ max firstBar (instrument.listDate.getD firstBar) := by
          rw [← hfrom]
          exact Ne.symm hfirst
        rcases hfits row.symbol firstBar lastBar instrument hshare hfirstBar hlastBar hinstrument hlisted old hold
          huniverse hsame hdistinct last hend with hbefore | ⟨hclosed, hgone, hafter⟩
        · rw [← hfrom] at hbefore
          exact (Spans.apart_of_ended hend hbefore).2
        · rcases hto with ⟨found, hfound, -⟩ | ⟨-, hlive, -⟩ | ⟨-, -, hto⟩
          · exact absurd (hasOpen_of_authoritative hfound) (by rw [hclosed]; simp)
          · exact absurd hlive (by rw [hgone]; simp)
          · exact (Spans.apart_of_ended hto hafter).1
  · rw [Spans.put_of_empty, intervalsOf_keptRows_of_ne hother]
    · exact h.disjoint other
    · rintro symbol span ⟨row, hrow, huniverse, -⟩
      exact hother (huniverse.symm.trans (mem_desiredRows hrow).2.1)

theorem universeSound_step (h : UniverseSound table) (op : UniverseOp)
    (hfits : UniverseFits table op) : UniverseSound (universeStep op table) := by
  cases op with
  | sync universeKey exchangeDate activeSymbols source closesMissing =>
      exact universeSound_sync h source closesMissing hfits
  | rebuild universeKey evidence =>
      unfold universeStep
      dsimp only
      split
      next counts after hrebuilt =>
        have hrebuild := hfits ⟨counts, after, hrebuilt⟩
        unfold rebuildHistoricalMembership at hrebuilt
        dsimp only at hrebuilt
        split at hrebuilt
        next =>
          obtain rfl := congrArg Prod.snd (Except.ok.inj hrebuilt)
          exact universeSound_rebuild h hrebuild
        next => exact absurd hrebuilt (by simp)
      next => exact h

/-- The intervals of a symbol in a universe have no date in common, and no two are open. -/
def UniverseDisjoint (table : List UniverseRow) : Prop :=
  table.Pairwise (fun row other => row.universeKey = other.universeKey → row.symbol = other.symbol →
    Spans.Apart row.span other.span ∧ ¬ (row.effectiveTo = none ∧ other.effectiveTo = none))

theorem UniverseSound.pairwise (h : UniverseSound table) : UniverseDisjoint table := by
  refine (List.Nodup.of_map _ h.keys).pairwise_of_forall_ne (fun row hrow other hother hne huniverse hsymbol => ?_)
  have hspans : row.span ≠ other.span := fun hspan => hne (List.inj_on_of_nodup_map h.keys hrow hother
    (Prod.ext huniverse (Prod.ext hsymbol (congrArg Spans.Span.first hspan))))
  have hbook : intervalsOf row.universeKey table row.symbol row.span := ⟨row, hrow, rfl, rfl, rfl⟩
  have hbook' : intervalsOf row.universeKey table row.symbol other.span :=
    ⟨other, hother, huniverse.symm, hsymbol.symm, rfl⟩
  refine ⟨h.disjoint row.universeKey row.symbol _ _ hbook hbook' hspans, fun ⟨hopen, hopen'⟩ => hspans ?_⟩
  have hrowSpan : row.span = ⟨row.effectiveFrom, none⟩ := by
    unfold UniverseRow.span
    rw [hopen]
  have hotherSpan : other.span = ⟨other.effectiveFrom, none⟩ := by
    unfold UniverseRow.span
    rw [hopen']
  rw [hrowSpan] at hbook
  rw [hotherSpan] at hbook'
  rw [hrowSpan, hotherSpan, (h.disjoint row.universeKey).open_unique hbook hbook']

/-! ## Authoritative snapshots -/

def syncDate : UniverseOp → Option Date
  | .sync _ exchangeDate _ _ _ => some exchangeDate
  | .rebuild _ _ => none

/-- The snapshot that an authoritative synchronisation brings to a universe. -/
def snapshotOf (universeKey : List Char) : UniverseOp → Option (Date × List Symbol)
  | .sync key exchangeDate activeSymbols _ true =>
    if key = universeKey then some (exchangeDate, snapshotSymbols activeSymbols) else none
  | _ => none

def IsAuthoritative : UniverseOp → Prop
  | .sync _ _ _ _ closesMissing => closesMissing = true
  | .rebuild _ _ => False

/-- The symbol is in the last snapshot of the universe that is dated on or before the date. -/
def InLastSnapshot (universeKey : List Char) (ops : List UniverseOp) (date : Date) (symbol : Symbol) : Prop :=
  ∃ snapshot, ((ops.filterMap (snapshotOf universeKey)).filter (fun snapshot => decide (snapshot.1 ≤ date))).getLast?
    = some snapshot ∧ symbol ∈ snapshot.2

/-- The interval predicate has the symbol at the date. -/
def UniverseMemberAt (universeKey : List Char) (table : List UniverseRow) (date : Date) (symbol : Symbol) : Prop :=
  ∃ row ∈ table, row.universeKey = universeKey ∧ row.symbol = symbol ∧ universeMember date row = true

theorem universeMemberAt_iff {date : Date} {symbol : Symbol} :
    UniverseMemberAt universeKey table date symbol ↔ Spans.Member (intervalsOf universeKey table) symbol date := by
  have hmember : ∀ row : UniverseRow, universeMember date row = true ↔ row.span.Covers date := by
    intro row
    unfold universeMember Spans.Span.Covers UniverseRow.span
    rcases row.effectiveTo with _ | last
    · simp [lastsUntil]
    · simp [lastsUntil]
  constructor
  · rintro ⟨row, hrow, huniverse, hsymbol, hat⟩
    exact ⟨row.span, ⟨row, hrow, huniverse, hsymbol, rfl⟩, (hmember row).mp hat⟩
  · rintro ⟨_, ⟨row, hrow, huniverse, hsymbol, rfl⟩, hcovers⟩
    exact ⟨row, hrow, huniverse, hsymbol, (hmember row).mpr hcovers⟩

/-- What an authoritative snapshot makes of the members: those before its date stay, and from then on they are its
    symbols. -/
theorem member_sync {activeSymbols : List (List Char)}
    {source : List Char} (hpast : Spans.Past exchangeDate (intervalsOf universeKey table)) :
    Spans.Past exchangeDate (intervalsOf universeKey
        (syncUniverseMembershipHistory universeKey exchangeDate activeSymbols source true table).2) ∧
      (∀ date symbol, date < exchangeDate → (Spans.Member (intervalsOf universeKey
          (syncUniverseMembershipHistory universeKey exchangeDate activeSymbols source true table).2) symbol date ↔
        Spans.Member (intervalsOf universeKey table) symbol date)) ∧
      ∀ date symbol, exchangeDate ≤ date → (Spans.Member (intervalsOf universeKey
          (syncUniverseMembershipHistory universeKey exchangeDate activeSymbols source true table).2) symbol date ↔
        symbol ∈ snapshotSymbols activeSymbols) := by
  have hsynced : intervalsOf universeKey (syncedRows universeKey exchangeDate (snapshotSymbols activeSymbols) true table)
      = Spans.closed (· ∉ snapshotSymbols activeSymbols) exchangeDate
        (Spans.discarded (· ∉ snapshotSymbols activeSymbols) exchangeDate (intervalsOf universeKey table)) :=
    intervalsOf_closeMissing universeKey exchangeDate _ table
  rw [intervalsOf_sync, hsynced]
  refine ⟨hpast.discarded.closed.opened, fun date symbol hdate => ?_, fun date symbol hdate => ?_⟩
  · rw [Spans.member_opened_of_lt hdate, Spans.member_closed_of_lt hdate, Spans.member_discarded_of_lt hdate]
  · rw [hpast.discarded.closed.opened.member_iff hdate, Spans.open_opened, Spans.open_discarded_closed hpast, not_not]
    constructor
    · rintro (hchosen | hkept)
      · exact hchosen.1
      · exact hkept.1
    · intro hsymbol
      by_cases hopen : Spans.Open (intervalsOf universeKey table) symbol
      · exact Or.inr ⟨hsymbol, hopen⟩
      · exact Or.inl ⟨hsymbol, fun hkept => hopen hkept.2⟩

theorem authoritative_members (universeKey : List Char) (ops : List UniverseOp)
    (hdates : (ops.filterMap syncDate).Pairwise (· ≤ ·)) (hall : ∀ op ∈ ops, IsAuthoritative op) :
    (∀ today, (∀ snapshot ∈ ops.filterMap (snapshotOf universeKey), snapshot.1 ≤ today) →
      Spans.Past today (intervalsOf universeKey (Driven.afterwards universeStep ops []))) ∧
    ∀ date symbol, Spans.Member (intervalsOf universeKey (Driven.afterwards universeStep ops [])) symbol date ↔
      InLastSnapshot universeKey ops date symbol := by
  induction ops using List.reverseRecOn with
  | nil =>
      have hnone : ∀ symbol span, ¬ intervalsOf universeKey [] symbol span :=
        fun symbol span ⟨_, hrow, _⟩ => List.not_mem_nil hrow
      refine ⟨fun today _ => ⟨fun symbol span hspan => absurd hspan (hnone symbol span),
        fun symbol span _ hspan => absurd hspan (hnone symbol span)⟩, fun date symbol => ⟨?_, ?_⟩⟩
      · rintro ⟨span, hspan, -⟩
        exact absurd hspan (hnone symbol span)
      · rintro ⟨snapshot, hsnapshot, -⟩
        exact absurd hsnapshot (by simp)
  | append_singleton ops last ih =>
      rw [List.filterMap_append] at hdates
      obtain ⟨hbefore, -, hlast⟩ := List.pairwise_append.mp hdates
      obtain ⟨hpast, hmembers⟩ := ih hbefore (fun op hop => hall op (List.mem_append_left _ hop))
      have hauthoritative := hall last (List.mem_append_right _ (List.mem_singleton_self last))
      unfold InLastSnapshot
      rw [List.filterMap_append, Driven.afterwards_concat]
      cases last with
      | rebuild key evidence => exact hauthoritative.elim
      | sync key exchangeDate activeSymbols source closesMissing =>
          obtain rfl : closesMissing = true := hauthoritative
          by_cases hkey : key = universeKey
          · have hsnapshot : [UniverseOp.sync key exchangeDate activeSymbols source true].filterMap
                (snapshotOf universeKey) = [(exchangeDate, snapshotSymbols activeSymbols)] := by
              simp [snapshotOf, hkey]
            rw [hsnapshot, hkey]
            have hearlier : ∀ snapshot ∈ ops.filterMap (snapshotOf universeKey), snapshot.1 ≤ exchangeDate := by
              intro snapshot hmem
              obtain ⟨op, hop, hof⟩ := List.mem_filterMap.mp hmem
              refine hlast snapshot.1 (List.mem_filterMap.mpr ⟨op, hop, ?_⟩) exchangeDate (by simp [syncDate])
              unfold snapshotOf at hof
              split at hof
              next =>
                split at hof
                next =>
                  obtain rfl := Option.some.inj hof
                  rfl
                next => exact absurd hof (by simp)
              next => exact absurd hof (by simp)
            obtain ⟨hafter, hearly, hlate⟩ := member_sync (hpast exchangeDate hearlier)
            refine ⟨fun today htoday => hafter.mono (htoday (exchangeDate, _)
              (List.mem_append_right _ (List.mem_singleton_self _))), fun date symbol => ?_⟩
            by_cases hdate : exchangeDate ≤ date
            · rw [List.filter_append, List.filter_singleton, decide_eq_true hdate, cond_true, List.getLast?_concat]
              exact (hlate date symbol hdate).trans (by simp)
            · rw [List.filter_append, List.filter_singleton, decide_eq_false hdate, cond_false, List.append_nil]
              exact (hearly date symbol (not_le.mp hdate)).trans (hmembers date symbol)
          · have hsnapshot : [UniverseOp.sync key exchangeDate activeSymbols source true].filterMap
                (snapshotOf universeKey) = [] := by
              simp [snapshotOf, hkey]
            have hsame := intervalsOf_sync_of_ne (Ne.symm hkey) exchangeDate activeSymbols source true
              (Driven.afterwards universeStep ops [])
            have hstep : universeStep (.sync key exchangeDate activeSymbols source true)
                (Driven.afterwards universeStep ops []) = (syncUniverseMembershipHistory key exchangeDate activeSymbols
                  source true (Driven.afterwards universeStep ops [])).2 := rfl
            rw [hsnapshot, List.append_nil, hstep, hsame]
            exact ⟨hpast, hmembers⟩

/-- **Universe intervals are disjoint** in every run in which each snapshot and each rebuild fits what is stored, and
    in runs of authoritative snapshots alone the members at a date are the symbols of the last snapshot. -/
theorem universe_intervals_sound (ops : List UniverseOp) (hdates : (ops.filterMap syncDate).Pairwise (· ≤ ·)) :
    (Driven.Follows universeStep UniverseFits ops [] → UniverseDisjoint (Driven.afterwards universeStep ops [])) ∧
    ((∀ op ∈ ops, IsAuthoritative op) → ∀ universeKey date symbol,
      UniverseMemberAt universeKey (Driven.afterwards universeStep ops []) date symbol ↔
        InLastSnapshot universeKey ops date symbol) := by
  refine ⟨fun hfits => ?_, fun hall universeKey date symbol => ?_⟩
  · have hrun := Driven.run_afterwards ops [] hfits
    exact (hrun.keeps universeSound_nil (fun _ op hsound hallowed => universeSound_step hsound op hallowed)).pairwise
  · rw [universeMemberAt_iff]
    exact (authoritative_members universeKey ops hdates hall).2 date symbol

/-! ## Rejoining and rebuilding -/

/-- A symbol joins on day 5, leaves on day 8 and comes back on day 12. -/
def rejoins : List UniverseOp :=
  [.sync "all_a".toList 5 ["600000.SH".toList, " 000001.sz".toList] "live".toList true,
    .sync "all_a".toList 8 ["000001.SZ".toList] "live".toList true,
    .sync "all_a".toList 12 ["600000.SH".toList, "000001.SZ".toList] "live".toList true]

/-- It has bars before its first snapshot and after it has left. -/
def tenBars : CanonicalEvidence :=
  ⟨[("600000.SH".toList, 1), ("600000.SH".toList, 10)], [("600000.SH".toList, ⟨none, none⟩)], []⟩

/-- It has left when the history is rebuilt from its bars. -/
def rebuiltAfterLeaving : List UniverseOp :=
  [.sync "all_a".toList 5 ["600000.SH".toList] "live".toList true,
    .sync "all_a".toList 8 ["000001.SZ".toList] "live".toList true, .rebuild "all_a".toList tenBars]

instance decidableSnapshotFits (universeKey : List Char) (exchangeDate : Date) (symbols : List Symbol)
    (table : List UniverseRow) : Decidable (SnapshotFits universeKey exchangeDate symbols table) :=
  inferInstanceAs (Decidable (∀ symbol ∈ symbols, _))

theorem fits_sync {activeSymbols : List (List Char)} {source : List Char}
    {closesMissing : Bool}
    (h : decide (SnapshotFits universeKey exchangeDate (snapshotSymbols activeSymbols) table) = true) :
    UniverseFits table (.sync universeKey exchangeDate activeSymbols source closesMissing) := by
  unfold UniverseFits
  exact of_decide_eq_true h

theorem universe_intervals_sound_rejoins :
    UniverseDisjoint (Driven.afterwards universeStep rejoins []) ∧
      (UniverseMemberAt "all_a".toList (Driven.afterwards universeStep rejoins []) 9 "600000.SH".toList ↔
        InLastSnapshot "all_a".toList rejoins 9 "600000.SH".toList) := by
  have hsound := universe_intervals_sound rejoins (by decide +kernel)
  have hfits : Driven.Follows universeStep UniverseFits rejoins [] :=
    ⟨fits_sync (by decide +kernel), fits_sync (by decide +kernel), fits_sync (by decide +kernel), trivial⟩
  have hall : ∀ op ∈ rejoins, IsAuthoritative op := by
    simp [rejoins, IsAuthoritative]
  exact ⟨hsound.1 hfits, hsound.2 hall "all_a".toList 9 "600000.SH".toList⟩

/-- The interval that is rebuilt from the bars contains the closed one of the snapshots. -/
theorem rebuilt_interval_overlaps :
    (rebuiltAfterLeaving.filterMap syncDate).Pairwise (· ≤ ·) ∧
    Driven.afterwards universeStep rebuiltAfterLeaving []
      = [⟨"all_a".toList, "600000.SH".toList, 5, some 7, "live".toList⟩,
        ⟨"all_a".toList, "000001.SZ".toList, 8, none, "live".toList⟩,
        ⟨"all_a".toList, "600000.SH".toList, 1, some 10, "annual_daily_backfill_pit_inferred_delisting".toList⟩] ∧
    ¬ UniverseDisjoint (Driven.afterwards universeStep rebuiltAfterLeaving []) := by
  have hrows : Driven.afterwards universeStep rebuiltAfterLeaving []
      = [⟨"all_a".toList, "600000.SH".toList, 5, some 7, "live".toList⟩,
        ⟨"all_a".toList, "000001.SZ".toList, 8, none, "live".toList⟩,
        ⟨"all_a".toList, "600000.SH".toList, 1, some 10, "annual_daily_backfill_pit_inferred_delisting".toList⟩] := by
    decide +kernel
  refine ⟨by decide +kernel, hrows, fun hdisjoint => ?_⟩
  rw [hrows] at hdisjoint
  obtain ⟨hapart, -⟩ := List.rel_of_pairwise_cons hdisjoint (List.mem_cons_of_mem _ (List.mem_singleton_self _)) rfl rfl
  refine hapart 6 ⟨by decide, fun last hlast => ?_⟩ ⟨by decide, fun last hlast => ?_⟩
  · obtain rfl := Option.some.inj hlast
    decide
  · obtain rfl := Option.some.inj hlast
    decide

end TradingHarness
