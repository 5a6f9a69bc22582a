import Mathlib.Data.List.Induction
import TradingHarness.Membership.Refreshes

set_option autoImplicit false

/-! # The members of the last snapshot

Both writers keep the members of the last snapshot of a date, and beside them the symbols that were opened on that
date and left before it ended. -/

namespace TradingHarness

variable {ρ : Type}

/-! ## What is expected -/

/-- The last snapshot observed on or before the date has the symbol. -/
def SnapshotAt (snapshots : List (SectorSnapshot ρ)) (date : Date) (symbol : Symbol) : Prop :=
  ∃ snapshot, (snapshots.filter (fun snapshot => decide (snapshot.date ≤ date))).getLast? = some snapshot ∧
    snapshot.Has symbol

/-- The last snapshot of a date has every member of the snapshots of that date. -/
def LastHasAll (snapshots : List (SectorSnapshot ρ)) : Prop :=
  ∀ snapshot ∈ snapshots, ∀ symbol, snapshot.Has symbol → SnapshotAt snapshots snapshot.date symbol

variable {snapshots : List (SectorSnapshot ρ)} {snapshot : SectorSnapshot ρ}

theorem snapshotAt_concat_of_lt {date : Date}
    {symbol : Symbol} (h : date < snapshot.date) :
    SnapshotAt (snapshots ++ [snapshot]) date symbol ↔ SnapshotAt snapshots date symbol := by
  unfold SnapshotAt
  rw [List.filter_append, List.filter_singleton, decide_eq_false (not_le.mpr h), cond_false, List.append_nil]

theorem snapshotAt_concat_of_le {date : Date}
    {symbol : Symbol} (h : snapshot.date ≤ date) :
    SnapshotAt (snapshots ++ [snapshot]) date symbol ↔ snapshot.Has symbol := by
  unfold SnapshotAt
  rw [List.filter_append, List.filter_singleton, decide_eq_true h, cond_true, List.getLast?_concat]
  simp

/-! ## Histories -/

/-- A book that was refreshed by each snapshot in turn. -/
inductive SnapshotHistory : List (SectorSnapshot ρ) → Spans.Book Symbol → Prop
  | empty : SnapshotHistory [] (fun _ _ => False)
  | refresh {snapshots : List (SectorSnapshot ρ)} {book after : Spans.Book Symbol} (snapshot : SectorSnapshot ρ)
    (hbefore : SnapshotHistory snapshots book) (hdates : ∀ earlier ∈ snapshots, earlier.date ≤ snapshot.date)
    (hrefreshed : Spans.Refreshed snapshot.Has snapshot.date book after) : SnapshotHistory (snapshots ++ [snapshot]) after

theorem SnapshotHistory.past {book : Spans.Book Symbol} (h : SnapshotHistory snapshots book)
    {today : Date} (htoday : ∀ snapshot ∈ snapshots, snapshot.date ≤ today) : Spans.Past today book := by
  induction h generalizing today with
  | empty => exact ⟨nofun, nofun⟩
  | refresh snapshot _ hdates hrefreshed ih =>
      exact (hrefreshed.past (ih hdates)).mono (htoday snapshot (List.mem_append_right _ (List.mem_singleton_self _)))

theorem SnapshotHistory.opened_by {book : Spans.Book Symbol} (h : SnapshotHistory snapshots book)
    {today : Date} (htoday : ∀ snapshot ∈ snapshots, snapshot.date ≤ today) {symbol : Symbol}
    (hspan : book symbol ⟨today, none⟩) : ∃ snapshot ∈ snapshots, snapshot.date = today ∧ snapshot.Has symbol := by
  induction h generalizing today with
  | empty => exact hspan.elim
  | @refresh snapshots book after snapshot hbefore hdates hrefreshed ih =>
      have hself : snapshot ∈ snapshots ++ [snapshot] := List.mem_append_right _ (List.mem_singleton_self _)
      have hpast := hbefore.past hdates
      -- nothing begins after the last snapshot
      have hbegun := (hrefreshed.past hpast).begun symbol _ hspan
      obtain rfl : today = snapshot.date := le_antisymm hbegun (htoday snapshot hself)
      rcases hrefreshed.began_today hspan with hhas | hspan'
      · exact ⟨snapshot, hself, rfl, hhas⟩
      · obtain ⟨earlier, hearlier, hdate, hhas⟩ := ih hdates hspan'
        exact ⟨earlier, List.mem_append_left _ hearlier, hdate, hhas⟩

/-- **A refreshed book has the members of the last snapshot**, where the last snapshot of a date has all that the
    others of that date have. -/
theorem SnapshotHistory.member_iff {book : Spans.Book Symbol} (h : SnapshotHistory snapshots book)
    {date : Date} (hlast : ∀ snapshot ∈ snapshots, snapshot.date ≤ date → ∀ symbol, snapshot.Has symbol →
      SnapshotAt snapshots snapshot.date symbol) (symbol : Symbol) :
    Spans.Member book symbol date ↔ SnapshotAt snapshots date symbol := by
  induction h with
  | empty =>
      constructor
      · rintro ⟨span, hspan, -⟩
        exact hspan.elim
      · rintro ⟨snapshot, hsnapshot, -⟩
        exact absurd hsnapshot (by simp)
  | @refresh snapshots book after snapshot hbefore hdates hrefreshed ih =>
      by_cases hdate : date < snapshot.date
      · rw [hrefreshed.member_of_lt hdate, snapshotAt_concat_of_lt hdate]
        refine ih (fun earlier hearlier hle other hhas => ?_)
        have hat := hlast earlier (List.mem_append_left _ hearlier) hle other hhas
        rwa [snapshotAt_concat_of_lt (lt_of_le_of_lt hle hdate)] at hat
      · have hdate := not_lt.mp hdate
        have hpast := hbefore.past hdates
        rw [(hrefreshed.past hpast).member_iff hdate, hrefreshed.open_iff hpast, snapshotAt_concat_of_le hdate]
        refine or_iff_left_of_imp (fun hspan => ?_)
        -- what was opened earlier today is in the last snapshot of today, this one
        obtain ⟨earlier, hearlier, htoday, hhas⟩ := hbefore.opened_by hdates hspan
        have hat := hlast earlier (List.mem_append_left _ hearlier) (by rw [htoday]; exact hdate) symbol hhas
        rwa [htoday, snapshotAt_concat_of_le (le_refl _)] at hat

/-! ## The tables of the two writers -/

section Tables

variable (taxonomyKey sectorKey providerKey : List Char)

def batchedTable (snapshots : List (SectorSnapshot ρ)) : List (MembershipRow ρ) :=
  Driven.afterwards MembershipWrite.apply (snapshots.map (fun snapshot =>
    .batched taxonomyKey sectorKey snapshot.members providerKey snapshot.observedAt)) []

def deltaTable (snapshots : List (SectorSnapshot ρ)) : List (MembershipRow ρ) :=
  Driven.afterwards MembershipWrite.apply (snapshots.map (fun snapshot =>
    .delta taxonomyKey sectorKey snapshot.members providerKey snapshot.observedAt)) []

variable {taxonomyKey sectorKey providerKey} {latest : Timestamp} {snapshots : List (SectorSnapshot ρ)}

theorem date_mono {later : SectorSnapshot ρ} (h : snapshot.observedAt ≤ later.observedAt) :
    snapshot.date ≤ later.date :=
  Int.ediv_le_ediv (by norm_num) (by linarith)

theorem bookOf_nil : bookOf ([] : List (MembershipRow ρ)) = fun _ _ => False := by
  funext symbol span
  apply propext
  exact ⟨fun ⟨_, hrow, _⟩ => absurd hrow List.not_mem_nil, False.elim⟩

theorem ofSector_nil : OfSector taxonomyKey sectorKey providerKey latest ([] : List (MembershipRow ρ)) :=
  ⟨nofun, nofun, nofun, nofun, nofun, List.nodup_nil⟩

theorem sorted_concat (hsorted : (snapshots ++ [snapshot]).Pairwise (fun snapshot later => snapshot.observedAt ≤ later.observedAt)) :
    snapshots.Pairwise (fun snapshot later => snapshot.observedAt ≤ later.observedAt) ∧
      ∀ earlier ∈ snapshots, earlier.date ≤ snapshot.date := by
  obtain ⟨hbefore, -, hlast⟩ := List.pairwise_append.mp hsorted
  exact ⟨hbefore, fun earlier hearlier => date_mono (hlast earlier hearlier snapshot (List.mem_singleton_self _))⟩

section

variable (hsorted : snapshots.Pairwise (fun snapshot later => snapshot.observedAt ≤ later.observedAt))

include hsorted

section

variable (hlatest : ∀ snapshot ∈ snapshots, snapshot.observedAt ≤ latest)

include hlatest

theorem batchedTable_history

    :
    OfSector taxonomyKey sectorKey providerKey latest (batchedTable taxonomyKey sectorKey providerKey snapshots) ∧
      SnapshotHistory snapshots (bookOf (batchedTable taxonomyKey sectorKey providerKey snapshots)) := by
  induction snapshots using List.reverseRecOn with
  | nil =>
      refine ⟨ofSector_nil, ?_⟩
      have hempty : bookOf (batchedTable taxonomyKey sectorKey providerKey ([] : List (SectorSnapshot ρ)))
          = fun _ _ => False := bookOf_nil
      rw [hempty]
      exact .empty
  | append_singleton snapshots snapshot ih =>
      obtain ⟨hbefore, hdates⟩ := sorted_concat hsorted
      obtain ⟨hsector, hhistory⟩ := ih hbefore (fun earlier hearlier => hlatest earlier (List.mem_append_left _ hearlier))
      obtain ⟨hsector', hbook⟩ := batched_opens hsector snapshot
        (hlatest snapshot (List.mem_append_right _ (List.mem_singleton_self _)))
      unfold batchedTable at hsector hhistory hsector' hbook ⊢
      rw [List.map_append, List.map_singleton, Driven.afterwards_concat]
      refine ⟨hsector', .refresh snapshot hhistory hdates ⟨snapshot.Has, fun _ => id, fun _ => Or.inl, hbook⟩⟩

theorem deltaTable_history

    :
    OfSector taxonomyKey sectorKey providerKey latest (deltaTable taxonomyKey sectorKey providerKey snapshots) ∧
      SnapshotHistory snapshots (bookOf (deltaTable taxonomyKey sectorKey providerKey snapshots)) ∧
      Spans.Disjoint (bookOf (deltaTable taxonomyKey sectorKey providerKey snapshots)) := by
  induction snapshots using List.reverseRecOn with
  | nil =>
      have hempty : bookOf (deltaTable taxonomyKey sectorKey providerKey ([] : List (SectorSnapshot ρ)))
          = fun _ _ => False := bookOf_nil
      rw [hempty]
      exact ⟨ofSector_nil, .empty, nofun⟩
  | append_singleton snapshots snapshot ih =>
      obtain ⟨hbefore, hdates⟩ := sorted_concat hsorted
      obtain ⟨hsector, hhistory, hdisjoint⟩ :=
        ih hbefore (fun earlier hearlier => hlatest earlier (List.mem_append_left _ hearlier))
      obtain ⟨hsector', hbook⟩ := delta_opens hsector snapshot
        (hlatest snapshot (List.mem_append_right _ (List.mem_singleton_self _)))
      have hpast := hhistory.past hdates
      unfold deltaTable at hsector hhistory hdisjoint hsector' hbook hpast ⊢
      rw [List.map_append, List.map_singleton, Driven.afterwards_concat]
      refine ⟨hsector', .refresh snapshot hhistory hdates ⟨_, fun _ => And.left, fun symbol hhas => ?_, hbook⟩, ?_⟩
      · by_cases hopen : Spans.Open (bookOf (Driven.afterwards MembershipWrite.apply (snapshots.map (fun snapshot =>
            .delta taxonomyKey sectorKey snapshot.members providerKey snapshot.observedAt)) [])) symbol
        · exact Or.inr hopen
        · exact Or.inl ⟨hhas, hopen⟩
      · rw [hbook]
        exact (hdisjoint.opened (fun symbol span hjoined hspan _ => hpast.ended_of_closed hspan hjoined.2)).closed

end

end

theorem exists_latest (snapshots : List (SectorSnapshot ρ)) :
    ∃ latest, ∀ snapshot ∈ snapshots, snapshot.observedAt ≤ latest := by
  induction snapshots with
  | nil => exact ⟨0, nofun⟩
  | cons snapshot rest ih =>
      obtain ⟨latest, hlatest⟩ := ih
      refine ⟨max snapshot.observedAt latest, fun other hother => ?_⟩
      rcases List.mem_cons.mp hother with rfl | hrest
      · exact le_max_left _ _
      · exact (hlatest other hrest).trans (le_max_right _ _)

section

variable (hsorted : snapshots.Pairwise (fun snapshot later => snapshot.observedAt ≤ later.observedAt))

include hsorted

section

variable (hlatest : ∀ snapshot ∈ snapshots, snapshot.observedAt ≤ latest)

include hlatest

/-- The batched writer opens a span for every member of the snapshots of a day, and leaves it to the next day. -/
theorem batchedTable_today

    {today : Date}
    (htoday : ∀ snapshot ∈ snapshots, snapshot.date ≤ today)
    (hsnapshot : snapshot ∈ snapshots) (hdate : snapshot.date = today) {symbol : Symbol} (hhas : snapshot.Has symbol) :
    bookOf (batchedTable taxonomyKey sectorKey providerKey snapshots) symbol ⟨today, none⟩ := by
  induction snapshots using List.reverseRecOn with
  | nil => exact absurd hsnapshot List.not_mem_nil
  | append_singleton snapshots last ih =>
      obtain ⟨hbefore, hdates⟩ := sorted_concat hsorted
      have hlatest' := fun earlier hearlier => hlatest earlier (List.mem_append_left [last] hearlier)
      have hsector : OfSector taxonomyKey sectorKey providerKey latest
          (batchedTable taxonomyKey sectorKey providerKey snapshots) := (batchedTable_history hbefore hlatest').1
      have hself : last ∈ snapshots ++ [last] := List.mem_append_right _ (List.mem_singleton_self _)
      obtain ⟨-, hbook⟩ := batched_opens hsector last (hlatest last hself)
      unfold batchedTable at hbook ih ⊢
      rw [List.map_append, List.map_singleton, Driven.afterwards_concat, hbook]
      rcases List.mem_append.mp hsnapshot with hearlier | hsame
      · obtain rfl : last.date = today := le_antisymm (htoday last hself) (hdate ▸ hdates snapshot hearlier)
        exact Spans.today_closed.mpr (Spans.today_opened.mpr (Or.inr (ih hbefore hlatest' hdates hearlier)))
      · obtain rfl := List.mem_singleton.mp hsame
        obtain rfl := hdate
        exact Spans.today_closed.mpr (Spans.today_opened.mpr (Or.inl hhas))

theorem batchedTable_member


    (hsnapshot : snapshot ∈ snapshots) {symbol : Symbol} (hhas : snapshot.Has symbol) :
    Spans.Member (bookOf (batchedTable taxonomyKey sectorKey providerKey snapshots)) symbol snapshot.date := by
  induction snapshots using List.reverseRecOn with
  | nil => exact absurd hsnapshot List.not_mem_nil
  | append_singleton snapshots last ih =>
      obtain ⟨hbefore, hdates⟩ := sorted_concat hsorted
      have hlatest' := fun earlier hearlier => hlatest earlier (List.mem_append_left [last] hearlier)
      have hsector : OfSector taxonomyKey sectorKey providerKey latest
          (batchedTable taxonomyKey sectorKey providerKey snapshots) := (batchedTable_history hbefore hlatest').1
      have hself : last ∈ snapshots ++ [last] := List.mem_append_right _ (List.mem_singleton_self _)
      by_cases hdate : snapshot.date < last.date
      · have hearlier : snapshot ∈ snapshots := by
          refine (List.mem_append.mp hsnapshot).resolve_right (fun hsame => ?_)
          rw [List.mem_singleton.mp hsame] at hdate
          exact lt_irrefl _ hdate
        obtain ⟨-, hbook⟩ := batched_opens hsector last (hlatest last hself)
        have hrefreshed : Spans.Refreshed last.Has last.date _ _ := ⟨last.Has, fun _ => id, fun _ => Or.inl, hbook⟩
        have hmember := (hrefreshed.member_of_lt hdate).mpr (ih hbefore hlatest' hearlier)
        unfold batchedTable at hmember ⊢
        rwa [List.map_append, List.map_singleton, Driven.afterwards_concat]
      · have htoday : ∀ other ∈ snapshots ++ [last], other.date ≤ snapshot.date := by
          intro other hother
          refine le_trans ?_ (not_lt.mp hdate)
          rcases List.mem_append.mp hother with hearlier | hsame
          · exact hdates other hearlier
          · rw [List.mem_singleton.mp hsame]
        exact ⟨_, batchedTable_today hsorted hlatest htoday hsnapshot rfl hhas, le_refl _, nofun⟩

end

end

/-! ## Agreement -/

theorem selectedAt_iff_member {table : List (MembershipRow ρ)} (h : OfSector taxonomyKey sectorKey providerKey latest table)
    (date : Date) (symbol : Symbol) :
    SelectedAt date latest table taxonomyKey sectorKey symbol ↔ Spans.Member (bookOf table) symbol date := by
  have hmember : ∀ row ∈ table, pointInTimeMember date latest row = true ↔ row.span.Covers date := by
    intro row hrow
    unfold pointInTimeMember
    rw [h.basis row hrow, decide_eq_true (h.known row hrow), Bool.and_true]
    unfold Spans.Span.Covers MembershipRow.span
    rcases row.effectiveTo with _ | last
    · simp [lastsUntil, Basis.isPointInTime]
    · simp [lastsUntil, Basis.isPointInTime]
  constructor
  · rintro ⟨row, hrow, -, -, hsymbol, hselected⟩
    exact ⟨row.span, ⟨row, hrow, hsymbol, rfl⟩, (hmember row hrow).mp hselected⟩
  · rintro ⟨span, ⟨row, hrow, hsymbol, rfl⟩, hcovers⟩
    exact ⟨row, hrow, h.taxonomy row hrow, h.sector row hrow, hsymbol, (hmember row hrow).mpr hcovers⟩

/-- The intervals of a symbol have no date in common, and no two are open. -/
def IntervalsDisjoint (table : List (MembershipRow ρ)) : Prop :=
  table.Pairwise (fun row other => row.symbol = other.symbol →
    Spans.Apart row.span other.span ∧ ¬ (row.effectiveTo = none ∧ other.effectiveTo = none))

theorem intervalsDisjoint_of_book {table : List (MembershipRow ρ)}
    (h : OfSector taxonomyKey sectorKey providerKey latest table) (hdisjoint : Spans.Disjoint (bookOf table)) :
    IntervalsDisjoint table := by
  refine (List.Nodup.of_map _ h.keys).pairwise_of_forall_ne (fun row hrow other hother hne hsymbol => ?_)
  have hspans : row.span ≠ other.span := by
    intro hspan
    refine hne (List.inj_on_of_nodup_map h.keys hrow hother ?_)
    unfold MembershipRow.key
    rw [h.taxonomy row hrow, h.taxonomy other hother, h.sector row hrow, h.sector other hother, hsymbol]
    exact congrArg _ (congrArg Spans.Span.first hspan)
  have hbook : bookOf table row.symbol other.span := ⟨other, hother, hsymbol.symm, rfl⟩
  refine ⟨hdisjoint row.symbol _ _ ⟨row, hrow, rfl, rfl⟩ hbook hspans, fun ⟨hopen, hopen'⟩ => hspans ?_⟩
  have hrowSpan : row.span = ⟨row.effectiveFrom, none⟩ := by
    unfold MembershipRow.span
    rw [hopen]
  have hotherSpan : other.span = ⟨other.effectiveFrom, none⟩ := by
    unfold MembershipRow.span
    rw [hopen']
  rw [hotherSpan] at hbook
  rw [hrowSpan, hotherSpan, hdisjoint.open_unique ⟨row, hrow, rfl, hrowSpan⟩ hbook]

/-- For every date and every cutoff behind the last observation both tables have the members of the last snapshot. -/
def FollowSnapshots (taxonomyKey sectorKey providerKey : List Char) (snapshots : List (SectorSnapshot ρ)) : Prop :=
  ∀ cutoff, (∀ snapshot ∈ snapshots, snapshot.observedAt ≤ cutoff) → ∀ date symbol,
    (SelectedAt date cutoff (batchedTable taxonomyKey sectorKey providerKey snapshots) taxonomyKey sectorKey symbol ↔
      SnapshotAt snapshots date symbol) ∧
    (SelectedAt date cutoff (deltaTable taxonomyKey sectorKey providerKey snapshots) taxonomyKey sectorKey symbol ↔
      SnapshotAt snapshots date symbol)

/-- **The writers agree with the snapshots** if and only if the last snapshot of each date has every member that was
    seen on that date; the delta writer keeps its intervals disjoint in any case. -/
theorem refreshes_agree_iff (taxonomyKey sectorKey providerKey : List Char) (snapshots : List (SectorSnapshot ρ))
    (hsorted : snapshots.Pairwise (fun snapshot later => snapshot.observedAt ≤ later.observedAt)) :
    (FollowSnapshots taxonomyKey sectorKey providerKey snapshots ∧
      IntervalsDisjoint (deltaTable taxonomyKey sectorKey providerKey snapshots)) ↔ LastHasAll snapshots := by
  constructor
  · rintro ⟨hfollow, -⟩ snapshot hsnapshot symbol hhas
    obtain ⟨latest, hlatest⟩ := exists_latest snapshots
    refine (hfollow latest hlatest snapshot.date symbol).1.mp ?_
    rw [selectedAt_iff_member (batchedTable_history hsorted hlatest).1]
    exact batchedTable_member hsorted hlatest hsnapshot hhas
  · intro hlast
    refine ⟨fun cutoff hcutoff date symbol => ?_, ?_⟩
    · obtain ⟨hbatched, hbatchedHistory⟩ := batchedTable_history hsorted hcutoff
      obtain ⟨hdelta, hdeltaHistory, -⟩ := deltaTable_history hsorted hcutoff
      rw [selectedAt_iff_member hbatched, selectedAt_iff_member hdelta]
      exact ⟨hbatchedHistory.member_iff (fun snapshot hsnapshot _ => hlast snapshot hsnapshot) symbol,
        hdeltaHistory.member_iff (fun snapshot hsnapshot _ => hlast snapshot hsnapshot) symbol⟩
    · obtain ⟨latest, hlatest⟩ := exists_latest snapshots
      obtain ⟨hdelta, -, hdisjoint⟩ := deltaTable_history hsorted hlatest
      exact intervalsDisjoint_of_book hdelta hdisjoint

end Tables

/-! ## A member that leaves on a day -/

def pairSnapshot (date : Date) (hour : ℤ) : SectorSnapshot Unit where
  observedAt := shanghaiHour date hour
  members := [(['a'], ()), (['b'], ())]
  nonempty := List.cons_ne_nil _ _
  nodup := by decide

def singleSnapshot (date : Date) (hour : ℤ) : SectorSnapshot Unit where
  observedAt := shanghaiHour date hour
  members := [(['b'], ())]
  nonempty := List.cons_ne_nil _ _
  nodup := by decide

/-- A symbol leaves overnight. -/
def leavesOvernight : List (SectorSnapshot Unit) := [pairSnapshot 1 10, singleSnapshot 2 10]

/-- It leaves between two snapshots of the second day. -/
def leavesWithinDay : List (SectorSnapshot Unit) := [pairSnapshot 1 10, pairSnapshot 2 10, singleSnapshot 2 14]

theorem refreshes_agree_iff_overnight :
    (FollowSnapshots ['t'] ['s'] ['p'] leavesOvernight ∧
      IntervalsDisjoint (deltaTable ['t'] ['s'] ['p'] leavesOvernight)) ↔ LastHasAll leavesOvernight :=
  refreshes_agree_iff ['t'] ['s'] ['p'] leavesOvernight (by decide +kernel)

/-- The batched writer has the symbol on the second day, the delta writer and the last snapshot do not. -/
theorem left_member_is_selected :
    SelectedAt 2 (shanghaiHour 3 10) (batchedTable ['t'] ['s'] ['p'] leavesWithinDay) ['t'] ['s'] ['a'] ∧
    ¬ SelectedAt 2 (shanghaiHour 3 10) (deltaTable ['t'] ['s'] ['p'] leavesWithinDay) ['t'] ['s'] ['a'] ∧
    ¬ SnapshotAt leavesWithinDay 2 ['a'] ∧ ¬ FollowSnapshots ['t'] ['s'] ['p'] leavesWithinDay := by
  have hselected : SelectedAt 2 (shanghaiHour 3 10) (batchedTable ['t'] ['s'] ['p'] leavesWithinDay) ['t'] ['s']
      ['a'] := by decide +kernel
  have hlast : ¬ SnapshotAt leavesWithinDay 2 ['a'] := by
    have hle : (singleSnapshot 2 14).date ≤ 2 := by decide +kernel
    have hsplit : leavesWithinDay = [pairSnapshot 1 10, pairSnapshot 2 10] ++ [singleSnapshot 2 14] := rfl
    rw [hsplit, snapshotAt_concat_of_le hle]
    unfold SectorSnapshot.Has
    decide +kernel
  refine ⟨hselected, by decide +kernel, hlast, fun hfollow => hlast ?_⟩
  exact (hfollow (shanghaiHour 3 10) (by decide +kernel) 2 ['a']).1.mp hselected

end TradingHarness
