import Mathlib

set_option autoImplicit false

/-! # Holes between covered places

The maximal ranges of whole numbers that nothing covers, between the smallest and the largest place that is
covered, and how they are read off the covered places in rising order. -/

namespace Holes

/-! ## Holes -/

/-- A range of places. It is not empty. -/
structure Hole where
  first : ℤ
  last : ℤ
  nonempty : first ≤ last

/-- How many places a hole has. -/
def Hole.missing (hole : Hole) : ℤ := hole.last - hole.first + 1

def Hole.Contains (hole : Hole) (place : ℤ) : Prop := hole.first ≤ place ∧ place ≤ hole.last

/-- The places between the smallest and the largest covered place that nothing covers. -/
def inside (covered : Set ℤ) : Set ℤ :=
  {place | place ∉ covered ∧ (∃ low ∈ covered, low ≤ place) ∧ ∃ high ∈ covered, place ≤ high}

/-- **What the holes are:** ranges in rising order that touch no covered place, that end next to covered places, and
    that leave out no place inside. -/
structure Maximal (covered : Set ℤ) (holes : List Hole) : Prop where
  uncovered : ∀ hole ∈ holes, ∀ place, hole.Contains place → place ∉ covered
  bounded : ∀ hole ∈ holes, hole.first - 1 ∈ covered ∧ hole.last + 1 ∈ covered
  complete : ∀ place ∈ inside covered, ∃ hole ∈ holes, hole.Contains place
  rising : holes.Pairwise (fun hole later => hole.last < later.first)

/-! ## Reading them off the covered places -/

theorem between_nonempty {previous current : ℤ} (h : 1 < current - previous) : previous + 1 ≤ current - 1 := by
  omega

/-- The hole between a place and the next one. -/
def between (previous current : ℤ) : Option Hole :=
  if h : 1 < current - previous then some ⟨previous + 1, current - 1, between_nonempty h⟩ else none

/-- The holes of places in rising order, each read off two neighbours. -/
def holes (places : List ℤ) : List Hole :=
  (places.zip places.tail).filterMap (fun pair => between pair.1 pair.2)

theorem between_eq_some {previous current : ℤ} {hole : Hole} (h : between previous current = some hole) :
    hole.first = previous + 1 ∧ hole.last = current - 1 := by
  unfold between at h
  split at h
  · rw [← Option.some.inj h]
    exact ⟨rfl, rfl⟩
  · cases h

theorem holes_cons_cons (previous current : ℤ) (rest : List ℤ) :
    holes (previous :: current :: rest)
      = (between previous current).toList ++ holes (current :: rest) := by
  simp only [holes, List.tail_cons, List.zip_cons_cons, List.filterMap_cons]
  cases between previous current <;> rfl

theorem lt_first_of_mem {first : ℤ} {places : List ℤ} (h : (first :: places).Pairwise (· < ·)) {hole : Hole}
    (hhole : hole ∈ holes (first :: places)) : first < hole.first := by
  induction places generalizing first with
  | nil => simp [holes] at hhole
  | cons current rest ih =>
      obtain ⟨hfirst, hrest⟩ := List.pairwise_cons.mp h
      rw [holes_cons_cons, List.mem_append, Option.mem_toList] at hhole
      rcases hhole with hnext | hlater
      · have hends := between_eq_some hnext
        omega
      · exact Int.lt_trans (hfirst current List.mem_cons_self) (ih hrest hlater)

theorem first_le_of_mem {first : ℤ} {places : List ℤ} (h : (first :: places).Pairwise (· < ·)) {place : ℤ}
    (hplace : place ∈ first :: places) : first ≤ place := by
  rcases List.mem_cons.mp hplace with rfl | hplace
  · exact Int.le_refl _
  · exact Int.le_of_lt ((List.pairwise_cons.mp h).1 place hplace)

theorem uncovered_holes {places : List ℤ} (h : places.Pairwise (· < ·)) {hole : Hole} (hhole : hole ∈ holes places)
    {place : ℤ} (hcontains : hole.Contains place) : place ∉ places := by
  induction places with
  | nil => simp [holes] at hhole
  | cons previous rest ih =>
      rcases rest with _ | ⟨current, rest⟩
      · simp [holes] at hhole
      · have hrest := (List.pairwise_cons.mp h).2
        obtain ⟨hlow, hhigh⟩ := hcontains
        intro hcovered
        have hbehind := lt_first_of_mem h hhole
        rw [holes_cons_cons, List.mem_append, Option.mem_toList] at hhole
        rcases List.mem_cons.mp hcovered with rfl | hcovered
        · omega
        · rcases hhole with hnext | hhole
          · have hends := between_eq_some hnext
            have hplace := first_le_of_mem hrest hcovered
            omega
          · exact ih hrest hhole hcovered

theorem bounded_holes {places : List ℤ} {hole : Hole} (hhole : hole ∈ holes places) :
    hole.first - 1 ∈ places ∧ hole.last + 1 ∈ places := by
  induction places with
  | nil => simp [holes] at hhole
  | cons previous rest ih =>
      rcases rest with _ | ⟨current, rest⟩
      · simp [holes] at hhole
      · rw [holes_cons_cons, List.mem_append, Option.mem_toList] at hhole
        rcases hhole with hnext | hhole
        · obtain ⟨hfirst, hlast⟩ := between_eq_some hnext
          rw [hfirst, hlast, Int.add_sub_cancel, Int.sub_add_cancel]
          exact ⟨List.mem_cons_self, List.mem_cons_of_mem _ List.mem_cons_self⟩
        · exact ⟨List.mem_cons_of_mem _ (ih hhole).1, List.mem_cons_of_mem _ (ih hhole).2⟩

theorem complete_holes {places : List ℤ} (h : places.Pairwise (· < ·)) {place : ℤ}
    (hplace : place ∈ inside {place | place ∈ places}) : ∃ hole ∈ holes places, hole.Contains place := by
  induction places with
  | nil => simp [inside] at hplace
  | cons previous rest ih =>
      obtain ⟨hplace, ⟨low, hlow, hle⟩, high, hhigh, hge⟩ := hplace
      have hstart := first_le_of_mem h hlow
      simp only [Set.mem_ofPred_eq, List.mem_cons, not_or] at hplace
      rcases List.mem_cons.mp hhigh with rfl | hhigh
      · omega
      · rcases rest with _ | ⟨current, rest⟩
        · cases hhigh
        · rw [holes_cons_cons]
          by_cases hbefore : place < current
          · -- the place is between the first two
            have hgap : 1 < current - previous := by omega
            refine ⟨⟨previous + 1, current - 1, between_nonempty hgap⟩, ?_, ?_, ?_⟩
            · rw [List.mem_append, between, dif_pos hgap]
              exact Or.inl (List.mem_singleton.mpr rfl)
            · dsimp only
              omega
            · dsimp only
              omega
          · have hinside : place ∈ inside {place | place ∈ current :: rest} :=
              ⟨hplace.2, ⟨current, List.mem_cons_self, by omega⟩, high, hhigh, hge⟩
            obtain ⟨hole, hhole, hcontains⟩ := ih (List.pairwise_cons.mp h).2 hinside
            exact ⟨hole, List.mem_append_right _ hhole, hcontains⟩

theorem rising_holes {places : List ℤ} (h : places.Pairwise (· < ·)) :
    (holes places).Pairwise (fun hole later => hole.last < later.first) := by
  induction places with
  | nil => exact List.Pairwise.nil
  | cons previous rest ih =>
      have hrest := (List.pairwise_cons.mp h).2
      rcases rest with _ | ⟨current, rest⟩
      · exact List.Pairwise.nil
      · rw [holes_cons_cons, List.pairwise_append]
        refine ⟨?_, ih hrest, ?_⟩
        · rcases between previous current with _ | hole
          · exact List.Pairwise.nil
          · exact List.pairwise_singleton _ _
        · intro hole hnext later hlater
          have hends := between_eq_some (Option.mem_toList.mp hnext)
          have hbehind := lt_first_of_mem hrest hlater
          omega

/-- **The holes read off the places in rising order are the maximal ranges that no place covers.** -/
theorem maximal_holes {places : List ℤ} (h : places.Pairwise (· < ·)) :
    Maximal {place | place ∈ places} (holes places) where
  uncovered := fun _ hhole _ hcontains => uncovered_holes h hhole hcontains
  bounded := fun _ hhole => bounded_holes hhole
  complete := fun _ hplace => complete_holes h hplace
  rising := rising_holes h

/-! ## How many places are missing -/

/-- The places of some holes. -/
def places (holes : List Hole) : Set ℤ := {place | ∃ hole ∈ holes, hole.Contains place}

theorem places_cons (hole : Hole) (rest : List Hole) :
    places (hole :: rest) = Set.Icc hole.first hole.last ∪ places rest := by
  ext place
  simp [places, Hole.Contains]

theorem finite_places (holes : List Hole) : (places holes).Finite := by
  induction holes with
  | nil => simp [places]
  | cons hole rest ih =>
      rw [places_cons]
      exact (Set.finite_Icc _ _).union ih

theorem ncard_Icc (hole : Hole) : ((Set.Icc hole.first hole.last).ncard : ℤ) = hole.missing := by
  rw [← Finset.coe_Icc, Set.ncard_coe_finset, Int.card_Icc]
  have hnonempty := hole.nonempty
  unfold Hole.missing
  omega

theorem ncard_places {holes : List Hole} (h : holes.Pairwise (fun hole later => hole.last < later.first)) :
    ((places holes).ncard : ℤ) = (holes.map Hole.missing).sum := by
  induction holes with
  | nil => simp [places]
  | cons hole rest ih =>
      obtain ⟨hlater, hrest⟩ := List.pairwise_cons.mp h
      have hdisjoint : Disjoint (Set.Icc hole.first hole.last) (places rest) := by
        rw [Set.disjoint_left]
        rintro place hplace ⟨later, hmem, hcontains⟩
        have hbehind := hlater later hmem
        have hfirst := hcontains.1
        have hlast := hplace.2
        omega
      rw [places_cons, Set.ncard_union_eq hdisjoint (Set.finite_Icc _ _) (finite_places rest), List.map_cons,
        List.sum_cons, Int.natCast_add, ncard_Icc, ih hrest]

theorem Maximal.inside_eq {covered : Set ℤ} {holes : List Hole} (h : Maximal covered holes) :
    inside covered = places holes := by
  ext place
  constructor
  · exact h.complete place
  · rintro ⟨hole, hhole, hcontains⟩
    obtain ⟨hlow, hhigh⟩ := h.bounded hole hhole
    have hfirst := hcontains.1
    have hlast := hcontains.2
    exact ⟨h.uncovered hole hhole place hcontains, ⟨_, hlow, by omega⟩, _, hhigh, by omega⟩

/-- **The lengths of the holes add up to the places inside that nothing covers.** -/
theorem Maximal.sum_missing {covered : Set ℤ} {holes : List Hole} (h : Maximal covered holes) :
    (holes.map Hole.missing).sum = (inside covered).ncard := by
  rw [h.inside_eq, ncard_places h.rising]

end Holes
