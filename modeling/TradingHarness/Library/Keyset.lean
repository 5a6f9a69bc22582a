import Mathlib.Data.List.Perm.Subperm
import Mathlib.Data.List.Sort

set_option autoImplicit false

/-! # Keyset pages

The first rows of a table in the order of a key. A page is closed downwards: what lies below one of its rows is in
it too. -/

namespace Keyset

section Page

variable {α κ : Type} [LinearOrder κ] (key : α → κ)

/-- `ORDER BY key LIMIT count` -/
def page (count : ℕ) (rows : List α) : List α := (rows.insertionSort (fun row other => key row ≤ key other)).take count

variable {key} {count : ℕ} {rows : List α}

theorem mem_of_mem_page {row : α} (h : row ∈ page key count rows) : row ∈ rows :=
  (List.mem_insertionSort _).mp (List.mem_of_mem_take h)

theorem sorted_insertionSort (rows : List α) :
    (rows.insertionSort (fun row other => key row ≤ key other)).Pairwise (fun row other => key row ≤ key other) := by
  have : Std.Total (fun row other : α => key row ≤ key other) := ⟨fun row other => le_total (key row) (key other)⟩
  have : IsTrans α (fun row other : α => key row ≤ key other) := ⟨fun _ _ _ h h' => le_trans h h'⟩
  exact List.pairwise_insertionSort _ rows

theorem le_of_not_mem_page {row other : α} (hrow : row ∈ page key count rows) (hother : other ∈ rows)
    (hout : other ∉ page key count rows) : key row ≤ key other := by
  have hsorted : (rows.insertionSort (fun row other => key row ≤ key other)).Pairwise
      (fun row other => key row ≤ key other) := sorted_insertionSort rows
  rw [← List.take_append_drop count (rows.insertionSort _), List.pairwise_append] at hsorted
  have hmem : other ∈ rows.insertionSort (fun row other => key row ≤ key other) :=
    (List.mem_insertionSort _).mpr hother
  rw [← List.take_append_drop count (rows.insertionSort _), List.mem_append] at hmem
  exact hsorted.2.2 row hrow other (hmem.resolve_left hout)

theorem head_le {first row : α} {rest : List α} (h : page key count rows = first :: rest) (hrow : row ∈ rows) :
    key first ≤ key row := by
  by_cases hmem : row ∈ page key count rows
  · have hsorted : (page key count rows).Pairwise (fun row other => key row ≤ key other) :=
      (sorted_insertionSort rows).sublist (List.take_sublist count _)
    rw [h] at hmem hsorted
    rcases List.mem_cons.mp hmem with rfl | hrest
    · exact le_refl _
    · exact (List.pairwise_cons.mp hsorted).1 row hrest
  · exact le_of_not_mem_page (by rw [h]; exact List.mem_cons_self) hrow hmem

theorem le_last {last row : α} (hlast : (page key count rows).getLast? = some last)
    (hrow : row ∈ page key count rows) : key row ≤ key last := by
  have hsorted : (page key count rows).Pairwise (fun row other => key row ≤ key other) :=
    (sorted_insertionSort rows).sublist (List.take_sublist count _)
  obtain ⟨before, hsplit⟩ := List.getLast?_eq_some_iff.mp hlast
  rw [hsplit] at hsorted hrow
  rcases List.mem_append.mp hrow with hbefore | hsingle
  · exact (List.pairwise_append.mp hsorted).2.2 row hbefore last (List.mem_singleton_self last)
  · rw [List.mem_singleton.mp hsingle]

theorem page_ne_nil (hcount : 0 < count) {row : α} (hrow : row ∈ rows) : page key count rows ≠ [] := by
  intro hnil
  have hlength := congrArg List.length hnil
  unfold page at hlength
  rw [List.length_take, List.length_insertionSort, List.length_nil] at hlength
  have hpos := List.length_pos_of_mem hrow
  omega

theorem head?_page (hcount : 0 < count) : (page key count rows).head? = (page key 1 rows).head? := by
  unfold page
  rw [List.head?_take, List.head?_take, if_neg (by omega), if_neg Nat.one_ne_zero]

theorem length_page_le : (page key count rows).length ≤ count := List.length_take_le _ _

theorem nodup_page (h : rows.Nodup) : (page key count rows).Nodup :=
  ((List.perm_insertionSort _ rows).nodup_iff.mpr h).sublist (List.take_sublist count _)

end Page

theorem mem_of_subset {α : Type} {part whole : List α} (hnodup : part.Nodup)
    (hsubset : ∀ item ∈ part, item ∈ whole) (hlength : whole.length ≤ part.length) {item : α}
    (h : item ∈ whole) : item ∈ part :=
  ((hnodup.subperm hsubset).perm_of_length_le hlength).mem_iff.mpr h

end Keyset
