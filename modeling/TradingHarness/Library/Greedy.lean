import Mathlib.Data.List.Induction
import TradingHarness.Library.Runs

set_option autoImplicit false

/-! # First come, first served

A pass over a list takes every item that fits beside those already taken. `pick_inTurn_iff` compares a
pass with the stricter one that also asks whether an item is admitted: the plain pass takes only
admitted items exactly when the strict pass never refuses an item that fits. -/

namespace Greedy

open Runs

section Picks

variable {α : Type} (fits : List α → α → Prop) [∀ taken item, Decidable (fits taken item)]

/-- The items taken, in order. -/
def pick (items : List α) : List α :=
  items.foldl (fun taken item => if fits taken item then taken ++ [item] else taken) []

theorem pick_concat (items : List α) (last : α) :
    pick fits (items ++ [last])
      = if fits (pick fits items) last then pick fits items ++ [last] else pick fits items := by
  unfold pick
  rw [List.foldl_append]
  rfl

theorem pick_induction (holds : List α → Prop) (items : List α) (hnil : holds [])
    (hstep : ∀ taken item, item ∈ items → holds taken → fits taken item → holds (taken ++ [item])) :
    holds (pick fits items) := by
  induction items using List.reverseRecOn with
  | nil => exact hnil
  | append_singleton items last ih =>
      have htaken := ih (fun taken item hmem =>
        hstep taken item (List.mem_append_left _ hmem))
      rw [pick_concat]
      split
      · next hfits => exact hstep _ last (by simp) htaken hfits
      · exact htaken

variable (admits : List α → α → Prop) [∀ taken item, Decidable (admits taken item)]

theorem pick_eq_strict (items : List α) (h : InTurn admits (pick fits items)) :
    pick (fun taken item => fits taken item ∧ admits taken item) items = pick fits items := by
  induction items using List.reverseRecOn with
  | nil => rfl
  | append_singleton items last ih =>
      rw [pick_concat] at h
      rw [pick_concat, pick_concat]
      by_cases hfits : fits (pick fits items) last
      · rw [if_pos hfits, inTurn_concat] at h
        rw [ih h.1, if_pos hfits, if_pos ⟨hfits, h.2⟩]
      · rw [if_neg hfits] at h
        rw [ih h, if_neg hfits, if_neg (fun hboth => hfits hboth.1)]

/-- **Two passes compared.** -/
theorem pick_inTurn_iff (items : List α) :
    InTurn admits (pick fits items) ↔
      InTurn (fun seen item =>
        fits (pick (fun taken item => fits taken item ∧ admits taken item) seen) item →
          admits (pick (fun taken item => fits taken item ∧ admits taken item) seen) item) items := by
  induction items using List.reverseRecOn with
  | nil => exact iff_of_true (inTurn_nil _) (inTurn_nil _)
  | append_singleton items last ih =>
      rw [inTurn_concat, ← ih, pick_concat]
      by_cases hfits : fits (pick fits items) last
      · rw [if_pos hfits, inTurn_concat]
        refine and_congr_right (fun hitems => ?_)
        rw [pick_eq_strict fits admits items hitems]
        exact ⟨fun hlast _ => hlast, fun hlast => hlast hfits⟩
      · rw [if_neg hfits]
        refine ⟨fun hitems => ⟨hitems, ?_⟩, And.left⟩
        rw [pick_eq_strict fits admits items hitems]
        exact fun hlast => absurd hlast hfits

end Picks

end Greedy
