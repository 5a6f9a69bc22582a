import Mathlib.Data.Rat.Floor
import Mathlib.Tactic.Linarith

set_option autoImplicit false

/-! # Rounding

The two roundings of a number to an integer that leave the direction to its value: toward zero, and to
the nearest with halves to the even side. -/

namespace Rounding

/-- Toward zero. -/
def truncate (x : ℚ) : ℤ := if 0 ≤ x then ⌊x⌋ else ⌈x⌉

/-- To the nearest, halves to even. -/
def halfEven (x : ℚ) : ℤ :=
  let rest := x - ⌊x⌋
  if rest < 1 / 2 ∨ (rest = 1 / 2 ∧ ⌊x⌋ % 2 = 0) then ⌊x⌋ else ⌊x⌋ + 1

theorem truncate_of_nonneg (x : ℚ) (h : 0 ≤ x) : truncate x = ⌊x⌋ := if_pos h

theorem truncate_le_of_pos (x : ℚ) (h : 0 < truncate x) : (truncate x : ℚ) ≤ x := by
  unfold truncate at h ⊢
  split
  · exact Int.floor_le x
  · next hneg =>
      rw [if_neg hneg, Int.ceil_pos] at h
      exact absurd (le_of_lt h) hneg

theorem halfEven_mono {x y : ℚ} (h : x ≤ y) : halfEven x ≤ halfEven y := by
  have hfloor : ⌊x⌋ ≤ ⌊y⌋ := Int.floor_mono h
  rcases hfloor.eq_or_lt with heq | hlt
  · -- within one unit the later number is rounded up where the earlier one is
    unfold halfEven
    rw [heq]
    dsimp only
    have hrest : x - ⌊y⌋ ≤ y - ⌊y⌋ := sub_le_sub_right h _
    split
    · split <;> omega
    · next hx =>
        rw [if_neg]
        rintro (hy | ⟨hy, heven⟩)
        · exact hx (Or.inl (hrest.trans_lt hy))
        · exact hx ((hrest.trans_eq hy).lt_or_eq.imp id (fun hhalf => ⟨hhalf, heven⟩))
  · have hx : halfEven x ≤ ⌊x⌋ + 1 := by
      unfold halfEven
      dsimp only
      split <;> omega
    have hy : ⌊y⌋ ≤ halfEven y := by
      unfold halfEven
      dsimp only
      split <;> omega
    omega

/-- The rounded number is half a unit away at most. -/
theorem near_halfEven (x : ℚ) : halfEven x - 1 / 2 ≤ x ∧ x ≤ halfEven x + 1 / 2 := by
  have hfloor := Int.floor_le x
  have hceil := (Int.lt_floor_add_one x).le
  unfold halfEven
  dsimp only
  split
  next hdown =>
    have hrest : x - ⌊x⌋ ≤ 1 / 2 := hdown.elim le_of_lt (fun h => h.1.le)
    constructor <;> linarith
  next hup =>
    have hrest : 1 / 2 ≤ x - ⌊x⌋ := not_lt.mp (fun h => hup (Or.inl h))
    push_cast
    constructor <;> linarith

end Rounding
