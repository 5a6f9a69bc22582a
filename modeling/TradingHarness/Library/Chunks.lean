import Mathlib.Data.List.Basic

set_option autoImplicit false

/-! # Lists in chunks

A list cut into pieces of a fixed size, by offset: every item is in a piece, every piece is a sublist,
and what holds of earlier and later items holds between the items of earlier and later pieces. -/

namespace Chunks

variable {α : Type}

variable (R : α → α → Prop) (size : ℕ) (items : List α)

/-- The pieces `items[offset:offset + size]` for the offsets `0, size, 2 * size, ..`. -/
def chunks : List (List α) :=
  (List.range ((items.length + size - 1) / size)).map
    (fun i => (items.drop (size * i)).take size)

theorem sublist_of_mem (chunk : List α) (hmem : chunk ∈ chunks size items) :
    chunk.Sublist items := by
  obtain ⟨i, -, rfl⟩ := List.mem_map.mp hmem
  exact (List.take_sublist _ _).trans (List.drop_sublist _ _)

theorem exists_mem (hsize : 0 < size) (items : List α) (item : α)
    (hmem : item ∈ items) : ∃ chunk ∈ chunks size items, item ∈ chunk := by
  obtain ⟨j, hj, rfl⟩ := List.mem_iff_getElem.mp hmem
  have hsplit := Nat.div_add_mod j size
  have hmod := Nat.mod_lt j hsize
  have hpiece : size * (j / size) + j % size < items.length := by
    rw [hsplit]
    exact hj
  refine ⟨_, List.mem_map.mpr ⟨j / size, ?_, rfl⟩, ?_⟩
  · rw [List.mem_range, Nat.lt_div_iff_mul_lt hsize]
    have hcomm : size * (j / size) = j / size * size := Nat.mul_comm _ _
    omega
  · refine List.mem_iff_getElem.mpr ⟨j % size, ?_, ?_⟩
    · rw [List.length_take, List.length_drop]
      omega
    · rw [List.getElem_take, List.getElem_drop]
      congr 1

theorem chunks_pairwise (h : items.Pairwise R) :
    (chunks size items).Pairwise (fun chunk chunk' => ∀ x ∈ chunk, ∀ y ∈ chunk', R x y) := by
  unfold chunks
  rw [List.pairwise_map]
  refine List.pairwise_lt_range.imp ?_
  intro i j hij x hx y hy
  obtain ⟨a, ha, rfl⟩ := List.mem_iff_getElem.mp hx
  obtain ⟨b, hb, rfl⟩ := List.mem_iff_getElem.mp hy
  rw [List.length_take, List.length_drop] at ha hb
  rw [List.getElem_take, List.getElem_drop, List.getElem_take, List.getElem_drop]
  refine List.pairwise_iff_getElem.mp h _ _ _ _ ?_
  -- the first piece ends before the second begins
  have hnext : size * (i + 1) ≤ size * j := Nat.mul_le_mul_left size hij
  rw [Nat.mul_add, Nat.mul_one] at hnext
  omega

theorem flatten_chunks (hsize : 0 < size) : (chunks size items).flatten = items := by
  have hpart : ∀ n, ((List.range n).map (fun i => (items.drop (size * i)).take size)).flatten = items.take (size * n) := by
    intro n
    induction n with
    | zero => simp
    | succ n ih =>
        rw [List.range_succ, List.map_append, List.flatten_append, ih, Nat.mul_succ, List.take_add]
        simp
  have hceil := Nat.div_add_mod (items.length + size - 1) size
  have hmod := Nat.mod_lt (items.length + size - 1) hsize
  rw [chunks, hpart, List.take_of_length_le (by omega)]

end Chunks
