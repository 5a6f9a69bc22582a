import Mathlib.Data.List.Basic
import Mathlib.Data.Int.Basic

set_option autoImplicit false

/-! # Tracked counters

A counter that follows how many items of a list have a property. An item that changes moves the counter by what
it gains or loses, and a new item by what it has. -/

namespace Tracked

section Counters

variable {α : Type}

/-- The counter is the number of items with the property. -/
def Tracks (counter : ℤ) (holds : α → Bool) (items : List α) : Prop := counter = items.countP holds

variable {counter : ℤ} {holds : α → Bool} {items : List α}

theorem natCast_ite_toInt (gained : Bool) : ((if gained = true then 1 else 0 : ℕ) : ℤ) = gained.toInt := by
  cases gained <;> rfl

theorem countP_set {place : ℕ} {old new : α} (hold : items[place]? = some old) :
    ((items.set place new).countP holds : ℤ) = items.countP holds + ((holds new).toInt - (holds old).toInt) := by
  induction items generalizing place with
  | nil => simp at hold
  | cons first rest ih =>
      rcases place with _ | place
      · rw [List.getElem?_cons_zero, Option.some.injEq] at hold
        subst hold
        rw [List.set_cons_zero, List.countP_cons, List.countP_cons, Int.natCast_add, Int.natCast_add,
          natCast_ite_toInt, natCast_ite_toInt]
        omega
      · rw [List.getElem?_cons_succ] at hold
        rw [List.set_cons_succ, List.countP_cons, List.countP_cons, Int.natCast_add, Int.natCast_add, ih hold]
        omega

section

variable (h : Tracks counter holds items)

include h

/-- **An item that changes moves the counter by what it gains or loses.** -/
theorem Tracks.set {place : ℕ} {old new : α} {change : ℤ}
    (hold : items[place]? = some old) (hchange : (holds new).toInt - (holds old).toInt = change) :
    Tracks (counter + change) holds (items.set place new) := by
  unfold Tracks at h ⊢
  rw [countP_set hold, h, hchange]

theorem Tracks.concat (item : α) :
    Tracks (counter + (holds item).toInt) holds (items ++ [item]) := by
  unfold Tracks at h ⊢
  rw [List.countP_append, List.countP_singleton, Int.natCast_add, natCast_ite_toInt, h]

theorem Tracks.eq_zero_iff :
    counter = 0 ↔ ∀ item ∈ items, holds item = false := by
  rw [h, Int.natCast_eq_zero, List.countP_eq_zero]
  simp

theorem Tracks.pos_of_mem {item : α} (hmem : item ∈ items)
    (hitem : holds item = true) : 0 < counter := by
  rw [h]
  exact Int.natCast_pos.mpr (List.countP_pos_iff.mpr ⟨item, hmem, hitem⟩)

theorem Tracks.le_of_imp {other : ℤ} {weaker : α → Bool}
    (hother : Tracks other weaker items) (himp : ∀ item ∈ items, holds item = true → weaker item = true) :
    counter ≤ other := by
  rw [h, hother]
  exact Int.ofNat_le.mpr (List.countP_mono_left himp)

end

end Counters

end Tracked
