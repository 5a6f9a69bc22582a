import TradingHarness.Membership.KnownAt

set_option autoImplicit false

/-! # Two ways to store a refresh

`persist_observed_snapshot_batched` opens a span for every member of a snapshot, and `persist_observed_snapshot_delta`
for those alone that have none. Both leave the spans that began today to the next day. -/

namespace TradingHarness

variable {ρ : Type}

/-- A complete response: no symbol twice, and not empty. -/
structure SectorSnapshot (ρ : Type) where
  observedAt : Timestamp
  members : List (Symbol × ρ)
  nonempty : members ≠ []
  nodup : (members.map Prod.fst).Nodup

def SectorSnapshot.date (snapshot : SectorSnapshot ρ) : Date := observedExchangeDate snapshot.observedAt

def SectorSnapshot.Has (snapshot : SectorSnapshot ρ) (symbol : Symbol) : Prop := symbol ∈ snapshot.members.map Prod.fst

/-! ## Spans -/

/-- The table has observed rows of one sector and provider, all known by the latest moment. -/
structure OfSector (taxonomyKey sectorKey providerKey : List Char) (latest : Timestamp)
    (table : List (MembershipRow ρ)) : Prop where
  taxonomy : ∀ row ∈ table, row.taxonomyKey = taxonomyKey
  sector : ∀ row ∈ table, row.sectorKey = sectorKey
  provider : ∀ row ∈ table, row.providerKey = providerKey
  basis : ∀ row ∈ table, row.effectiveFromBasis = .observedSnapshot
  known : ∀ row ∈ table, row.knownAt ≤ latest
  keys : (table.map MembershipRow.key).Nodup

/-- The spans of each symbol. -/
def bookOf (table : List (MembershipRow ρ)) : Spans.Book Symbol :=
  fun symbol span => ∃ row ∈ table, row.symbol = symbol ∧ row.span = span

section Statements

variable {taxonomyKey sectorKey providerKey : List Char} {latest : Timestamp} {table : List (MembershipRow ρ)}

theorem key_eq_iff (h : OfSector taxonomyKey sectorKey providerKey latest table) {row : MembershipRow ρ} (hrow : row ∈ table)
    (observedAt : Timestamp) (symbol : Symbol) (raw : ρ) :
    row.key = (observedRow taxonomyKey sectorKey providerKey observedAt symbol raw).key ↔
      row.symbol = symbol ∧ row.effectiveFrom = observedExchangeDate observedAt := by
  unfold MembershipRow.key observedRow
  rw [h.taxonomy row hrow, h.sector row hrow]
  simp

theorem mem_upsert {row new : MembershipRow ρ} : new ∈ executeMembership (.upsert row) table ↔
    (new ∈ table ∧ new.key ≠ row.key) ∨
    (∃ old ∈ table, old.key = row.key ∧ new = { row with knownAt := min old.knownAt row.knownAt }) ∨
    (new = row ∧ ∀ old ∈ table, old.key ≠ row.key) := by
  unfold executeMembership MembershipStatement.rewrite MembershipStatement.inserts
  rw [List.mem_append, List.mem_map]
  constructor
  · rintro (⟨old, hold, rfl⟩ | hinserted)
    · dsimp only
      by_cases hkey : old.key = row.key
      · rw [if_pos hkey]
        exact Or.inr (Or.inl ⟨old, hold, hkey, rfl⟩)
      · rw [if_neg hkey]
        exact Or.inl ⟨hold, hkey⟩
    · dsimp only at hinserted
      split at hinserted
      next => exact absurd hinserted List.not_mem_nil
      next hfresh =>
        refine Or.inr (Or.inr ⟨List.mem_singleton.mp hinserted, fun old hold hkey => hfresh ?_⟩)
        exact List.any_eq_true.mpr ⟨old, hold, decide_eq_true hkey⟩
  · rintro (⟨hnew, hkey⟩ | ⟨old, hold, hkey, rfl⟩ | ⟨rfl, hfresh⟩)
    · exact Or.inl ⟨new, hnew, by dsimp only; rw [if_neg hkey]; rfl⟩
    · exact Or.inl ⟨old, hold, by dsimp only; rw [if_pos hkey]; rfl⟩
    · refine Or.inr ?_
      dsimp only
      rw [if_neg]
      · exact List.mem_singleton_self new
      · intro hany
        obtain ⟨old, hold, hkey⟩ := List.any_eq_true.mp hany
        exact hfresh old hold (of_decide_eq_true hkey)

theorem mem_close {beganBefore : Option Date} {members : List Symbol} {endsOn : Date} {observedAt : Timestamp}
    {new : MembershipRow ρ} :
    new ∈ executeMembership (.close taxonomyKey sectorKey providerKey beganBefore members endsOn observedAt) table ↔
      ∃ old ∈ table, new = if isClosed taxonomyKey sectorKey providerKey beganBefore members old = true then
        { old with effectiveTo := some endsOn, availableAt := observedAt, effectiveToBasis := .observedSnapshot }
        else old := by
  unfold executeMembership MembershipStatement.rewrite MembershipStatement.inserts
  rw [List.append_nil, List.mem_map]
  constructor
  · rintro ⟨old, hold, rfl⟩
    refine ⟨old, hold, ?_⟩
    dsimp only
    split <;> rfl
  · rintro ⟨old, hold, rfl⟩
    refine ⟨old, hold, ?_⟩
    dsimp only
    split <;> rfl

theorem keys_execute (h : (table.map MembershipRow.key).Nodup) (statement : MembershipStatement ρ) :
    ((executeMembership statement table).map MembershipRow.key).Nodup := by
  have hsame : (table.map (fun old => (statement.rewrite old).getD old)).map MembershipRow.key
      = table.map MembershipRow.key := by
    rw [List.map_map]
    refine List.map_congr_left (fun old _ => ?_)
    rw [Function.comp_apply]
    unfold MembershipStatement.rewrite
    split
    · split
      next hkey => exact hkey.symm
      next => rfl
    · split <;> rfl
  unfold executeMembership
  rw [List.map_append, hsame]
  unfold MembershipStatement.inserts
  split
  next row =>
    split
    next => rwa [List.map_nil, List.append_nil]
    next hfresh =>
      refine List.nodup_append.mpr ⟨h, List.nodup_singleton _, ?_⟩
      rintro key hkey other hother rfl
      obtain ⟨old, hold, rfl⟩ := List.mem_map.mp hkey
      rw [List.map_singleton, List.mem_singleton] at hother
      exact hfresh (List.any_eq_true.mpr ⟨old, hold, decide_eq_true hother⟩)
  next => rwa [List.map_nil, List.append_nil]

section

variable (h : OfSector taxonomyKey sectorKey providerKey latest table)

include h

/-- An upsert of an observed row opens its span. -/
theorem upsert_opens {observedAt : Timestamp}
    (hlatest : observedAt ≤ latest) (symbol : Symbol) (raw : ρ) :
    OfSector taxonomyKey sectorKey providerKey latest (executeMembership
        (.upsert (observedRow taxonomyKey sectorKey providerKey observedAt symbol raw)) table) ∧
      bookOf (executeMembership (.upsert (observedRow taxonomyKey sectorKey providerKey observedAt symbol raw)) table)
        = Spans.opened (· = symbol) (observedExchangeDate observedAt) (bookOf table) := by
  constructor
  · refine ⟨?_, ?_, ?_, ?_, ?_, keys_execute h.keys _⟩
    all_goals
      intro new hnew
      rcases mem_upsert.mp hnew with ⟨hold, -⟩ | ⟨old, -, -, rfl⟩ | ⟨rfl, -⟩
    · exact h.taxonomy new hold
    · rfl
    · rfl
    · exact h.sector new hold
    · rfl
    · rfl
    · exact h.provider new hold
    · rfl
    · rfl
    · exact h.basis new hold
    · rfl
    · rfl
    · exact h.known new hold
    · exact (min_le_right _ _).trans hlatest
    · exact hlatest
  · funext key span
    apply propext
    constructor
    · rintro ⟨new, hnew, rfl, rfl⟩
      rcases mem_upsert.mp hnew with ⟨hold, hkey⟩ | ⟨old, -, -, rfl⟩ | ⟨rfl, -⟩
      · exact Or.inl ⟨⟨new, hold, rfl, rfl⟩, fun hsame => hkey ((key_eq_iff h hold observedAt symbol raw).mpr hsame)⟩
      · exact Or.inr ⟨rfl, rfl⟩
      · exact Or.inr ⟨rfl, rfl⟩
    · rintro (⟨⟨row, hrow, rfl, rfl⟩, hkeep⟩ | ⟨rfl, rfl⟩)
      · exact ⟨row, mem_upsert.mpr (Or.inl ⟨hrow, fun hkey => hkeep ((key_eq_iff h hrow observedAt symbol raw).mp hkey)⟩),
          rfl, rfl⟩
      · by_cases hstored : ∃ old ∈ table, old.key
            = (observedRow taxonomyKey sectorKey providerKey observedAt key raw).key
        · obtain ⟨old, hold, hkey⟩ := hstored
          exact ⟨_, mem_upsert.mpr (Or.inr (Or.inl ⟨old, hold, hkey, rfl⟩)), rfl, rfl⟩
        · exact ⟨_, mem_upsert.mpr (Or.inr (Or.inr ⟨rfl, fun old hold hkey => hstored ⟨old, hold, hkey⟩⟩)), rfl, rfl⟩

/-- The closing statement closes the spans of the symbols that are gone. -/
theorem close_closes (observedAt : Timestamp)
    (members : List Symbol) :
    OfSector taxonomyKey sectorKey providerKey latest (executeMembership (.close taxonomyKey sectorKey providerKey
        (some (observedExchangeDate observedAt)) members (observedExchangeDate observedAt - 1) observedAt) table) ∧
      bookOf (executeMembership (.close taxonomyKey sectorKey providerKey (some (observedExchangeDate observedAt)) members
        (observedExchangeDate observedAt - 1) observedAt) table)
        = Spans.closed (· ∉ members) (observedExchangeDate observedAt) (bookOf table) := by
  have hscope : ∀ old ∈ table, isClosed taxonomyKey sectorKey providerKey (some (observedExchangeDate observedAt)) members
      old = true ↔ old.effectiveTo = none ∧ old.effectiveFrom < observedExchangeDate observedAt ∧ old.symbol ∉ members := by
    intro old hold
    unfold isClosed
    rw [decide_eq_true_iff, h.taxonomy old hold, h.sector old hold, h.provider old hold]
    simp
  constructor
  · refine ⟨?_, ?_, ?_, ?_, ?_, keys_execute h.keys _⟩
    all_goals
      intro new hnew
      obtain ⟨old, hold, rfl⟩ := mem_close.mp hnew
    · rw [← h.taxonomy old hold]
      split <;> rfl
    · rw [← h.sector old hold]
      split <;> rfl
    · rw [← h.provider old hold]
      split <;> rfl
    · rw [← h.basis old hold]
      split <;> rfl
    · refine le_of_eq_of_le ?_ (h.known old hold)
      split <;> rfl
  · funext key span
    apply propext
    constructor
    · rintro ⟨new, hnew, rfl, rfl⟩
      obtain ⟨old, hold, rfl⟩ := mem_close.mp hnew
      split
      next hclosed =>
        obtain ⟨hopen, hfirst, hgone⟩ := (hscope old hold).mp hclosed
        refine Or.inr ⟨rfl, hfirst, hgone, old, hold, rfl, ?_⟩
        unfold MembershipRow.span
        rw [hopen]
      next hclosed =>
        exact Or.inl ⟨⟨old, hold, rfl, rfl⟩, fun hgone => hclosed ((hscope old hold).mpr hgone)⟩
    · rintro (⟨⟨row, hrow, rfl, rfl⟩, hkeep⟩ | ⟨hlast, hfirst, hgone, row, hrow, rfl, hspan⟩)
      · refine ⟨row, mem_close.mpr ⟨row, hrow, ?_⟩, rfl, rfl⟩
        rw [if_neg (fun hclosed => hkeep ((hscope row hrow).mp hclosed))]
      · have hopen : row.effectiveTo = none := congrArg Spans.Span.last hspan
        have hbegan : row.effectiveFrom = span.first := congrArg Spans.Span.first hspan
        have hclosed := (hscope row hrow).mpr ⟨hopen, by rw [hbegan]; exact hfirst, hgone⟩
        refine ⟨_, mem_close.mpr ⟨row, hrow, rfl⟩, ?_, ?_⟩
        · rw [if_pos hclosed]
        · rw [if_pos hclosed]
          unfold MembershipRow.span
          dsimp only
          rw [hbegan, ← hlast]

/-- The statements of a snapshot open the spans of the members that are written and close those of the others. -/
theorem statements_refresh {observedAt : Timestamp}
    (hlatest : observedAt ≤ latest) (written : List (Symbol × ρ)) (members : List Symbol) :
    OfSector taxonomyKey sectorKey providerKey latest (Driven.afterwards executeMembership
        (observedStatements taxonomyKey sectorKey providerKey observedAt written members) table) ∧
      bookOf (Driven.afterwards executeMembership
        (observedStatements taxonomyKey sectorKey providerKey observedAt written members) table)
        = Spans.closed (· ∉ members) (observedExchangeDate observedAt)
          (Spans.opened (· ∈ written.map Prod.fst) (observedExchangeDate observedAt) (bookOf table)) := by
  induction written generalizing table with
  | nil =>
      obtain ⟨hsector, hbook⟩ := close_closes h observedAt members
      have hnone : Spans.opened (· ∈ ([] : List (Symbol × ρ)).map Prod.fst) (observedExchangeDate observedAt) (bookOf table)
          = bookOf table := by
        funext key span
        unfold Spans.opened
        simp
      rw [hnone]
      exact ⟨hsector, hbook⟩
  | cons member rest ih =>
      obtain ⟨hsector, hbook⟩ := upsert_opens h hlatest member.1 member.2
      obtain ⟨hsector', hbook'⟩ := ih hsector
      refine ⟨hsector', hbook'.trans ?_⟩
      rw [hbook, Spans.opened_opened]
      simp only [List.map_cons, List.mem_cons]

theorem mem_alreadyOpen {symbol : Symbol} :
    symbol ∈ alreadyOpen taxonomyKey sectorKey providerKey table ↔ Spans.Open (bookOf table) symbol := by
  unfold alreadyOpen
  rw [List.mem_map]
  constructor
  · rintro ⟨row, hrow, rfl⟩
    obtain ⟨hmem, hopen⟩ := List.mem_filter.mp hrow
    refine ⟨row.effectiveFrom, row, hmem, rfl, ?_⟩
    unfold MembershipRow.span
    rw [(of_decide_eq_true hopen).2.2.2]
  · rintro ⟨first, row, hrow, rfl, hspan⟩
    refine ⟨row, List.mem_filter.mpr ⟨hrow, decide_eq_true ?_⟩, rfl⟩
    exact ⟨h.taxonomy row hrow, h.sector row hrow, h.provider row hrow, congrArg Spans.Span.last hspan⟩

end

end Statements

/-! ## Writers -/

section Writers

variable {taxonomyKey sectorKey providerKey : List Char} {latest : Timestamp} {table : List (MembershipRow ρ)}

section

variable (h : OfSector taxonomyKey sectorKey providerKey latest table)

include h

/-- `persist_observed_snapshot_batched` opens a span for every member. -/
theorem batched_opens (snapshot : SectorSnapshot ρ)
    (hlatest : snapshot.observedAt ≤ latest) :
    OfSector taxonomyKey sectorKey providerKey latest
        ((MembershipWrite.batched taxonomyKey sectorKey snapshot.members providerKey snapshot.observedAt).apply table) ∧
      bookOf ((MembershipWrite.batched taxonomyKey sectorKey snapshot.members providerKey snapshot.observedAt).apply table)
        = Spans.closed (fun symbol => ¬ snapshot.Has symbol) snapshot.date
          (Spans.opened snapshot.Has snapshot.date (bookOf table)) := by
  have hstatements : (MembershipWrite.batched taxonomyKey sectorKey snapshot.members providerKey
      snapshot.observedAt).statements table = observedStatements taxonomyKey sectorKey providerKey snapshot.observedAt
        snapshot.members (snapshot.members.map Prod.fst) := if_neg snapshot.nonempty
  unfold MembershipWrite.apply
  rw [hstatements]
  exact statements_refresh h hlatest snapshot.members (snapshot.members.map Prod.fst)

/-- `persist_observed_snapshot_delta` opens a span for the members that have none. -/
theorem delta_opens (snapshot : SectorSnapshot ρ)
    (hlatest : snapshot.observedAt ≤ latest) :
    OfSector taxonomyKey sectorKey providerKey latest
        ((MembershipWrite.delta taxonomyKey sectorKey snapshot.members providerKey snapshot.observedAt).apply table) ∧
      bookOf ((MembershipWrite.delta taxonomyKey sectorKey snapshot.members providerKey snapshot.observedAt).apply table)
        = Spans.closed (fun symbol => ¬ snapshot.Has symbol) snapshot.date
          (Spans.opened (fun symbol => snapshot.Has symbol ∧ ¬ Spans.Open (bookOf table) symbol) snapshot.date
            (bookOf table)) := by
  have hstatements : (MembershipWrite.delta taxonomyKey sectorKey snapshot.members providerKey
      snapshot.observedAt).statements table = observedStatements taxonomyKey sectorKey providerKey snapshot.observedAt
        (joinedMembers taxonomyKey sectorKey providerKey snapshot.members table) (snapshot.members.map Prod.fst) := by
    unfold MembershipWrite.statements persistObservedSnapshotDelta
    dsimp only
    rw [if_neg snapshot.nonempty]
  have hjoined : (fun symbol => symbol ∈ (joinedMembers taxonomyKey sectorKey providerKey snapshot.members table).map
      Prod.fst) = fun symbol => snapshot.Has symbol ∧ ¬ Spans.Open (bookOf table) symbol := by
    funext symbol
    apply propext
    unfold joinedMembers SectorSnapshot.Has
    rw [List.mem_map, List.mem_map]
    constructor
    · rintro ⟨member, hmember, rfl⟩
      obtain ⟨hmem, hclosed⟩ := List.mem_filter.mp hmember
      refine ⟨⟨member, (List.mem_insertionSort _).mp hmem, rfl⟩, fun hopen => ?_⟩
      rw [List.contains_iff_mem.mpr ((mem_alreadyOpen h).mpr hopen)] at hclosed
      exact absurd hclosed (by simp)
    · rintro ⟨⟨member, hmem, rfl⟩, hclosed⟩
      refine ⟨member, List.mem_filter.mpr ⟨(List.mem_insertionSort _).mpr hmem, ?_⟩, rfl⟩
      rw [Bool.not_eq_true', ← Bool.not_eq_true, List.contains_iff_mem]
      exact fun hopen => hclosed ((mem_alreadyOpen h).mp hopen)
  unfold MembershipWrite.apply
  rw [hstatements, ← hjoined]
  exact statements_refresh h hlatest _ (snapshot.members.map Prod.fst)

end

end Writers

end TradingHarness
