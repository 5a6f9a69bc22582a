import Mathlib.Combinatorics.Hall.Basic
import Mathlib.Data.Set.Card

set_option autoImplicit false

/-! # Pairings

Each member of a set is to have a partner of its own, out of the partners that a relation allows it. Hall's theorem
says when that can be. -/

namespace Pairing

variable {ι α : Type}

/-- Every member has an allowed partner, and no two members share one. -/
def Pairable (members : Set ι) (allowed : ι → α → Prop) : Prop :=
  ∃ partner : members → α, Function.Injective partner ∧ ∀ member : members, allowed member (partner member)

/-- No members have fewer allowed partners between them than they are themselves. -/
def Enough (members : Set ι) (allowed : ι → α → Prop) : Prop :=
  ∀ chosen : Finset ι, (∀ member ∈ chosen, member ∈ members) →
    chosen.card ≤ {partner | ∃ member ∈ chosen, allowed member partner}.ncard

/-- **Members are pairable when there are enough partners for any of them.** -/
theorem pairable_iff_enough {members : Set ι} {allowed : ι → α → Prop}
    (hfinite : ∀ member ∈ members, {partner | allowed member partner}.Finite) :
    Pairable members allowed ↔ Enough members allowed := by
  classical
  let partners : members → Finset α := fun member => (hfinite member member.2).toFinset
  have hmem : ∀ (member : members) (partner : α), partner ∈ partners member ↔ allowed member partner :=
    fun member partner => (hfinite member member.2).mem_toFinset
  have hall := Finset.all_card_le_biUnion_card_iff_exists_injective partners
  -- the partners of chosen members, as a finite set and as a set
  have hunion : ∀ chosen : Finset members, ((chosen.biUnion partners : Finset α) : Set α)
      = {partner | ∃ member ∈ chosen.map (Function.Embedding.subtype _), allowed member partner} := by
    intro chosen
    ext partner
    simp [hmem]
  constructor
  · rintro ⟨partner, hinjective, hallowed⟩ chosen hsome
    have hcard := hall.mpr ⟨partner, hinjective, fun member => (hmem _ _).mpr (hallowed member)⟩
      (chosen.subtype (· ∈ members))
    rw [← Set.ncard_coe_finset (Finset.biUnion _ _), hunion, Finset.subtype_map_of_mem hsome] at hcard
    have hsize : (chosen.subtype (· ∈ members)).card = chosen.card := by
      rw [Finset.card_subtype, Finset.filter_true_of_mem hsome]
    rwa [hsize] at hcard
  · intro henough
    obtain ⟨partner, hinjective, hallowed⟩ := hall.mp (fun chosen => by
      have hcard := henough (chosen.map (Function.Embedding.subtype _)) (by
        intro member hmember
        obtain ⟨inner, -, rfl⟩ := Finset.mem_map.mp hmember
        exact inner.2)
      rwa [← hunion, Set.ncard_coe_finset, Finset.card_map] at hcard)
    exact ⟨partner, hinjective, fun member => (hmem _ _).mp (hallowed member)⟩

end Pairing
