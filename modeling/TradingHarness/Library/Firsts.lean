import Mathlib.Data.List.Basic

set_option autoImplicit false

/-! # The first of a list

The first item of a list that has a property. Two properties have the same first item, or both have none, where
they agree at every item up to it. -/

namespace Firsts

section Items

variable {α : Type}

/-- The item has the property, and none before it does. -/
def FirstOf (holds : α → Prop) (items : List α) (item : α) : Prop :=
  ∃ before after, items = before ++ item :: after ∧ (∀ other ∈ before, ¬ holds other) ∧ holds item

variable {holds : α → Prop} {items : List α} {item : α}

theorem firstOf_cons {first : α} {rest : List α} : FirstOf holds (first :: rest) item ↔
    (holds first ∧ item = first) ∨ (¬ holds first ∧ FirstOf holds rest item) := by
  constructor
  · rintro ⟨before, after, hsplit, hbefore, hitem⟩
    rcases before with _ | ⟨other, before⟩
    · obtain ⟨rfl, -⟩ := List.cons.inj hsplit
      exact Or.inl ⟨hitem, rfl⟩
    · obtain ⟨rfl, rfl⟩ := List.cons.inj hsplit
      exact Or.inr ⟨hbefore _ List.mem_cons_self, before, after, rfl,
        fun other hother => hbefore other (List.mem_cons_of_mem _ hother), hitem⟩
  · rintro (⟨hfirst, rfl⟩ | ⟨hfirst, before, after, rfl, hbefore, hitem⟩)
    · exact ⟨[], rest, rfl, fun other hother => absurd hother List.not_mem_nil, hfirst⟩
    · refine ⟨first :: before, after, rfl, ?_, hitem⟩
      exact List.forall_mem_cons.mpr ⟨hfirst, hbefore⟩

theorem FirstOf.has (h : FirstOf holds items item) : holds item := by
  obtain ⟨before, after, -, -, hitem⟩ := h
  exact hitem

/-- Two properties agree at every item that no item of the second precedes. -/
def Agree (found holds : α → Prop) (items : List α) : Prop :=
  ∀ before item after, items = before ++ item :: after → (∀ other ∈ before, ¬ holds other) →
    (found item ↔ holds item)

variable {found : α → Prop}

theorem agree_nil : Agree found holds ([] : List α) :=
  fun before item after hsplit => absurd hsplit.symm (by simp)

theorem agree_cons {first : α} {rest : List α} : Agree found holds (first :: rest) ↔
    (found first ↔ holds first) ∧ (¬ holds first → Agree found holds rest) := by
  constructor
  · intro h
    refine ⟨h [] first rest rfl (fun other hother => absurd hother List.not_mem_nil), fun hfirst => ?_⟩
    rintro before item after rfl hbefore
    exact h (first :: before) item after rfl (List.forall_mem_cons.mpr ⟨hfirst, hbefore⟩)
  · rintro ⟨hfirst, hrest⟩ before item after hsplit hbefore
    rcases before with _ | ⟨other, before⟩
    · obtain ⟨rfl, -⟩ := List.cons.inj hsplit
      exact hfirst
    · obtain ⟨rfl, rfl⟩ := List.cons.inj hsplit
      obtain ⟨hother, hlater⟩ := List.forall_mem_cons.mp hbefore
      exact hrest hother before item after rfl hlater

/-- **The first item of one property is that of another** exactly where they agree. -/
theorem first_iff_agree (h : FirstOf found items item) : FirstOf holds items item ↔ Agree found holds items := by
  induction items with
  | nil =>
      obtain ⟨before, after, hsplit, -⟩ := h
      exact absurd hsplit.symm (by simp)
  | cons first rest ih =>
      rw [firstOf_cons, agree_cons]
      rcases firstOf_cons.mp h with ⟨hfound, rfl⟩ | ⟨hnot, hrest⟩
      · constructor
        · rintro (⟨hholds, -⟩ | ⟨hnot, hlater⟩)
          · exact ⟨iff_of_true hfound hholds, fun hnot => absurd hholds hnot⟩
          · exact absurd hlater.has hnot
        · rintro ⟨hsame, -⟩
          exact Or.inl ⟨hsame.mp hfound, rfl⟩
      · have hitem := hrest.has
        constructor
        · rintro (⟨-, rfl⟩ | ⟨hholds, hlater⟩)
          · exact absurd hitem hnot
          · exact ⟨iff_of_false hnot hholds, fun _ => (ih hrest).mp hlater⟩
        · rintro ⟨hsame, hlater⟩
          have hholds : ¬ holds first := fun h => hnot (hsame.mpr h)
          exact Or.inr ⟨hholds, (ih hrest).mpr (hlater hholds)⟩

theorem none_iff_agree (h : ∀ item ∈ items, ¬ found item) :
    (∀ item ∈ items, ¬ holds item) ↔ Agree found holds items := by
  induction items with
  | nil => exact iff_of_true (fun item hitem => absurd hitem List.not_mem_nil) agree_nil
  | cons first rest ih =>
      obtain ⟨hfirst, hrest⟩ := List.forall_mem_cons.mp h
      rw [List.forall_mem_cons, agree_cons, ih hrest]
      constructor
      · rintro ⟨hholds, hagree⟩
        exact ⟨iff_of_false hfirst hholds, fun _ => hagree⟩
      · rintro ⟨hsame, hagree⟩
        have hholds : ¬ holds first := fun h => hfirst (hsame.mpr h)
        exact ⟨hholds, hagree hholds⟩

end Items

end Firsts
