import Mathlib.Algebra.Order.Field.Basic
import Mathlib.Data.List.Count
import Mathlib.Order.Bounds.Basic
import Mathlib.Tactic.Positivity
import Mathlib.Tactic.FieldSimp

set_option autoImplicit false

/-! # Running minima over ranks

Items in the order of their values, each with its value scaled by the number of items over its rank. The minimum that runs from the last
item down to an item is the least scaled value at or above the item's, with the number of values at or below in place of the rank:
the order of equal values does not show. -/

namespace StepUp

variable {K : Type} [Field K] [LinearOrder K] [IsStrictOrderedRing K]

/-! ## The least scaled value -/

variable (values : List K) (value : K)

/-- How many of the values are at most `value`. -/
def atMost : ℕ := values.countP (fun other => decide (other ≤ value))

/-- A value over the share of the values that are at or below it. -/
def scaled : K := value * values.length / atMost values value

/-- The bounds on the adjusted value of `value`: one, and what each value at or above it scales to. -/
def Bounds : Set K :=
  {bound | bound = 1 ∨ ∃ higher ∈ values, value ≤ higher ∧ bound = scaled values higher}

omit [Field K] [IsStrictOrderedRing K] in
theorem atMost_le_length : atMost values value ≤ values.length := List.countP_le_length

omit [Field K] [IsStrictOrderedRing K] in
theorem atMost_pos {values : List K} {value : K} (h : value ∈ values) : 0 < atMost values value :=
  List.countP_pos_iff.mpr ⟨value, h, by simp⟩

omit [Field K] [IsStrictOrderedRing K] in
theorem atMost_perm {values values' : List K} (h : values.Perm values') (value : K) : atMost values value = atMost values' value :=
  h.countP_eq _

omit [IsStrictOrderedRing K] in
theorem scaled_perm {values values' : List K} (h : values.Perm values') (value : K) : scaled values value = scaled values' value := by
  rw [scaled, scaled, h.length_eq, atMost_perm h]

omit [IsStrictOrderedRing K] in
theorem bounds_perm {values values' : List K} (h : values.Perm values') (value : K) : Bounds values value = Bounds values' value := by
  ext bound
  simp only [Bounds, Set.mem_ofPred_eq, h.mem_iff, scaled_perm h]

omit [IsStrictOrderedRing K] in
theorem bounds_antitone {lower higher : K} (h : lower ≤ higher) : Bounds values higher ⊆ Bounds values lower := by
  rintro bound (hone | ⟨other, hmem, hle, hbound⟩)
  · exact .inl hone
  · exact .inr ⟨other, hmem, h.trans hle, hbound⟩

theorem le_scaled {values : List K} {value : K} (hmem : value ∈ values) (hnonneg : 0 ≤ value) : value ≤ scaled values value := by
  have hpos : (0 : K) < atMost values value := Nat.cast_pos.mpr (atMost_pos hmem)
  rw [scaled, le_div_iff₀ hpos]
  exact mul_le_mul_of_nonneg_left (Nat.cast_le.mpr (atMost_le_length values value)) hnonneg

theorem le_of_isLeast {values : List K} {value adjusted : K} (hnonneg : ∀ other ∈ values, 0 ≤ other) (hone : value ≤ 1)
    (h : IsLeast (Bounds values value) adjusted) : value ≤ adjusted := by
  rcases h.1 with hbound | ⟨higher, hmem, hle, hbound⟩
  · exact hbound ▸ hone
  · exact hbound ▸ hle.trans (le_scaled hmem (hnonneg higher hmem))

/-! ## The running minimum -/

section Running

variable {α : Type} (count : ℕ) (value : α → K)

/-- The minimum that runs from the last item down to the first, with the rank of the first. -/
def running : ℕ → List α → K
  | _, [] => 1
  | rank, item :: rest => min (running (rank + 1) rest) (value item * count / rank)

omit [IsStrictOrderedRing K] in
theorem running_le (before : List α) (item : α) (after : List α) (rank : ℕ) :
    running count value rank (before ++ item :: after) ≤ value item * count / (rank + before.length : ℕ) := by
  induction before generalizing rank with
  | nil => exact min_le_right _ _
  | cons first rest ih =>
      have hrank : rank + (first :: rest).length = rank + 1 + rest.length := by
        rw [List.length_cons]
        omega
      rw [hrank]
      exact (min_le_left _ _).trans (ih (rank + 1))

omit [IsStrictOrderedRing K] in
theorem running_le_one (items : List α) (rank : ℕ) : running count value rank items ≤ 1 := by
  induction items generalizing rank with
  | nil => exact le_refl _
  | cons item rest ih => exact (min_le_left _ _).trans (ih (rank + 1))

omit [IsStrictOrderedRing K] in
theorem running_attained (items : List α) (rank : ℕ) :
    running count value rank items = 1 ∨
      ∃ before item after, items = before ++ item :: after ∧
        running count value rank items = value item * count / (rank + before.length : ℕ) := by
  induction items generalizing rank with
  | nil => exact .inl rfl
  | cons first rest ih =>
      rcases min_choice (running count value (rank + 1) rest) (value first * count / rank) with hrest | hfirst
      · rcases ih (rank + 1) with hone | ⟨before, item, after, hsplit, hvalue⟩
        · exact .inl (hrest.trans hone)
        · refine .inr ⟨first :: before, item, after, by rw [hsplit, List.cons_append], ?_⟩
          have hrank : rank + (first :: before).length = rank + 1 + before.length := by
            rw [List.length_cons]
            omega
          rw [hrank]
          exact hrest.trans hvalue
      · exact .inr ⟨[], first, rest, rfl, hfirst⟩

end Running

/-! ## Sorted items -/

section Sorted

variable {α : Type} {value : α → K}

omit [Field K] [IsStrictOrderedRing K] in
theorem atMost_split {before after : List α} {item : α} (hsorted : (before ++ item :: after).Pairwise (fun a b => value a ≤ value b)) :
    atMost ((before ++ item :: after).map value) (value item) = before.length + 1 + atMost (after.map value) (value item) := by
  obtain ⟨-, -, hcross⟩ := List.pairwise_append.mp hsorted
  have hbefore : (before.map value).countP (fun other => decide (other ≤ value item)) = before.length := by
    rw [List.countP_eq_length.mpr, List.length_map]
    intro other hother
    obtain ⟨earlier, hearlier, rfl⟩ := List.mem_map.mp hother
    exact decide_eq_true (hcross earlier hearlier item List.mem_cons_self)
  rw [atMost, List.map_append, List.countP_append, hbefore, List.map_cons, List.countP_cons_of_pos (by simp), atMost]
  omega

omit [Field K] [IsStrictOrderedRing K] in
theorem last_rank (items : List α) (hsorted : items.Pairwise (fun a b => value a ≤ value b)) {level : K} (hmem : level ∈ items.map value) :
    ∃ before last after, items = before ++ last :: after ∧ value last = level ∧ atMost (items.map value) level = before.length + 1 := by
  induction items with
  | nil => simp at hmem
  | cons first rest ih =>
      obtain ⟨hfirst, hrest⟩ := List.pairwise_cons.mp hsorted
      by_cases hlater : level ∈ rest.map value
      · obtain ⟨before, last, after, hsplit, hvalue, hcount⟩ := ih hrest hlater
        obtain ⟨other, hother, heq⟩ := List.mem_map.mp hlater
        refine ⟨first :: before, last, after, by rw [hsplit, List.cons_append], hvalue, ?_⟩
        have hle : value first ≤ level := heq ▸ hfirst other hother
        rw [atMost, List.map_cons, List.countP_cons_of_pos (by simp [hle]), List.length_cons]
        exact congrArg (· + 1) hcount
      · -- the first item is the last of its value, and all that follow it have a higher one
        have hlevel : value first = level := by
          rcases List.mem_cons.mp hmem with heq | hin
          · exact heq.symm
          · exact absurd hin hlater
        refine ⟨[], first, rest, rfl, hlevel, ?_⟩
        have hnone : atMost (rest.map value) level = 0 := by
          rw [atMost, List.countP_eq_zero]
          intro other hother
          obtain ⟨later, hin, rfl⟩ := List.mem_map.mp hother
          rw [decide_eq_true_eq, not_le, ← hlevel]
          exact lt_of_le_of_ne (hfirst later hin) (fun heq => hlater (hlevel ▸ heq ▸ hother))
        have hsplit := @atMost_split _ _ _ value [] rest first hsorted
        rw [List.nil_append, hlevel, hnone] at hsplit
        exact hsplit

theorem scaled_le_at_rank {before after : List α} {item : α} (hnonneg : 0 ≤ value item)
    (hsorted : (before ++ item :: after).Pairwise (fun a b => value a ≤ value b)) :
    scaled ((before ++ item :: after).map value) (value item) ≤
      value item * ((before ++ item :: after).length : ℕ) / (before.length + 1 : ℕ) := by
  rw [scaled, List.length_map]
  refine div_le_div_of_nonneg_left (mul_nonneg hnonneg (Nat.cast_nonneg _)) (Nat.cast_pos.mpr (Nat.succ_pos _)) ?_
  rw [atMost_split hsorted]
  exact Nat.cast_le.mpr (Nat.le_add_right _ _)

theorem split_or_mem {before after before' after' : List α} {item item' : α} (h : before ++ item :: after = before' ++ item' :: after') :
    (∃ middle, before' = before ++ middle ∧ item :: after = middle ++ item' :: after') ∨ (item' ∈ before ∧ item ∈ after') := by
  rcases List.append_eq_append_iff.mp h with ⟨middle, hbefore, hafter⟩ | ⟨middle, hbefore, hafter⟩
  · exact .inl ⟨middle, hbefore, hafter⟩
  · cases middle with
    | nil => exact .inl ⟨[], by rw [List.append_nil] at *; exact hbefore.symm, by rw [List.nil_append] at *; exact hafter.symm⟩
    | cons first rest =>
        obtain ⟨hfirst, hrest⟩ := List.cons.inj hafter
        refine .inr ⟨?_, ?_⟩
        · rw [hbefore, hfirst]
          exact List.mem_append_right _ List.mem_cons_self
        · rw [hrest]
          exact List.mem_append_right _ List.mem_cons_self

/-- **The running minimum down to an item is the least of the item's bounds.** -/
theorem running_isLeast {before after : List α} {item : α} (hnonneg : ∀ other ∈ before ++ item :: after, 0 ≤ value other)
    (hsorted : (before ++ item :: after).Pairwise (fun a b => value a ≤ value b)) :
    IsLeast (Bounds ((before ++ item :: after).map value) (value item))
      (running (before ++ item :: after).length value (before.length + 1) (item :: after)) := by
  -- each bound is met at the last item of its value, which the minimum has passed
  have hlower : ∀ bound ∈ Bounds ((before ++ item :: after).map value) (value item),
      running (before ++ item :: after).length value (before.length + 1) (item :: after) ≤ bound := by
    rintro bound (rfl | ⟨higher, hmem, hle, rfl⟩)
    · exact running_le_one _ value _ _
    obtain ⟨before', last, after', hsplit, hvalue, hcount⟩ := last_rank _ hsorted hmem
    have hbound : scaled ((before ++ item :: after).map value) higher =
        value last * ((before ++ item :: after).length : ℕ) / (before'.length + 1 : ℕ) := by
      rw [scaled, hcount, List.length_map, hvalue]
    rcases split_or_mem hsplit with ⟨middle, hbefore, hafter⟩ | ⟨hlast, hitem⟩
    · have hrun := running_le (before ++ item :: after).length value middle last after' (before.length + 1)
      rw [← hafter] at hrun
      have hrank : before.length + 1 + middle.length = before'.length + 1 := by
        rw [hbefore, List.length_append]
        omega
      rw [hbound, ← hrank]
      exact hrun
    · -- the last item of a value at or above cannot come before an item of its own or a lower value
      exfalso
      have hafter : 0 < atMost (after'.map value) (value last) := by
        rw [atMost, List.countP_pos_iff]
        exact ⟨value item, List.mem_map_of_mem hitem, decide_eq_true (hvalue ▸ hle)⟩
      have hall := atMost_split (hsplit ▸ hsorted)
      rw [← hsplit, hvalue, hcount] at hall
      rw [hvalue] at hafter
      omega
  refine ⟨?_, hlower⟩
  rcases running_attained (before ++ item :: after).length value (item :: after) (before.length + 1) with
    hone | ⟨middle, other, rest, hsplit, hvalue⟩
  · exact .inl hone
  · have hitems : before ++ item :: after = (before ++ middle) ++ other :: rest := by rw [hsplit, List.append_assoc]
    have hother : other ∈ before ++ item :: after := by
      rw [hitems]
      exact List.mem_append_right _ List.mem_cons_self
    have hle : value item ≤ value other := by
      have hpair := hsorted
      obtain ⟨-, hafter, -⟩ := List.pairwise_append.mp hpair
      cases middle with
      | nil => exact (congrArg value (List.cons.inj hsplit).1).le
      | cons first others =>
          obtain ⟨rfl, hrest⟩ := List.cons.inj hsplit
          refine (List.pairwise_cons.mp hafter).1 other ?_
          rw [hrest]
          exact List.mem_append_right _ List.mem_cons_self
    have hmem : scaled ((before ++ item :: after).map value) (value other) ∈ Bounds ((before ++ item :: after).map value) (value item) :=
      .inr ⟨value other, List.mem_map_of_mem hother, hle, rfl⟩
    have hrank : before.length + 1 + middle.length = (before ++ middle).length + 1 := by
      rw [List.length_append]
      omega
    have hscaled := scaled_le_at_rank (hnonneg other hother) (hitems ▸ hsorted)
    rw [← hitems, ← hrank, ← hvalue] at hscaled
    exact le_antisymm (hlower _ hmem) hscaled ▸ hmem

end Sorted

end StepUp
