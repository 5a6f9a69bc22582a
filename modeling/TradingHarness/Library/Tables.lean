import Mathlib.Algebra.Group.Prod
import Mathlib.Data.List.Forall2
import Mathlib.Data.List.AList
import Mathlib.Data.List.Sigma
import Mathlib.Logic.Function.Basic

set_option autoImplicit false

/-! # Keyed tables

Tables are lists of keyed entries, read with `List.dlookup`. `accumulate` adds entries to a table of
running totals, and `updateAll` runs over items that each change one value of a function. -/

namespace Tables

section Lookup

variable {κ ι α β : Type}

/-- The entries of some items under their names. -/
def entriesOf (name : ι → κ) (value : ι → α) (items : List ι) : List (Σ _ : κ, α) :=
  items.map (fun item => ⟨name item, value item⟩)

theorem keys_entriesOf (name : ι → κ) (value : ι → α) (items : List ι) :
    (entriesOf name value items).keys = items.map name := by
  unfold entriesOf List.keys
  rw [List.map_map]
  rfl

theorem nodupKeys_entriesOf (name : ι → κ) (value : ι → α) (items : List ι)
    (h : (items.map name).Nodup) : (entriesOf name value items).NodupKeys := by
  unfold List.NodupKeys
  rw [keys_entriesOf]
  exact h

/-- A table with the same keys in another order, and values related one by one. -/
def Reordered (R : α → β → Prop) (table : List (Σ _ : κ, α)) (table' : List (Σ _ : κ, β)) : Prop :=
  ∃ middle : List (Σ _ : κ, α), table.Perm middle ∧ middle.keys = table'.keys ∧
    List.Forall₂ R (middle.map Sigma.snd) (table'.map Sigma.snd)

variable [DecidableEq κ]

theorem dlookup_entriesOf_of_mem (name : ι → κ) (value : ι → α) (items : List ι) (item : ι)
    (hnodup : (items.map name).Nodup) (hmem : item ∈ items) :
    (entriesOf name value items).dlookup (name item) = some (value item) := by
  rw [← Option.mem_def, List.mem_dlookup_iff (nodupKeys_entriesOf name value items hnodup)]
  exact List.mem_map.mpr ⟨item, hmem, rfl⟩

theorem dlookup_entriesOf_of_notMem (name : ι → κ) (value : ι → α) (items : List ι) (key : κ)
    (hkey : key ∉ items.map name) : (entriesOf name value items).dlookup key = none := by
  rw [List.dlookup_eq_none, keys_entriesOf]
  exact hkey

theorem dlookup_rel (R : α → β → Prop) (key : κ) (table : List (Σ _ : κ, α))
    (table' : List (Σ _ : κ, β)) (hkeys : table.keys = table'.keys)
    (hvalues : List.Forall₂ R (table.map Sigma.snd) (table'.map Sigma.snd)) :
    Option.Rel R (table.dlookup key) (table'.dlookup key) := by
  induction table generalizing table' with
  | nil =>
      rcases table' with _ | ⟨entry', rest'⟩
      · exact Option.Rel.none
      · simp at hkeys
  | cons entry rest ih =>
      rcases table' with _ | ⟨entry', rest'⟩
      · simp at hkeys
      · obtain ⟨k, value⟩ := entry
        obtain ⟨k', value'⟩ := entry'
        simp only [List.keys_cons, List.cons.injEq] at hkeys
        simp only [List.map_cons, List.forall₂_cons] at hvalues
        obtain ⟨hk, hrest⟩ := hkeys
        subst hk
        by_cases hkey : key = k
        · subst hkey
          rw [List.dlookup_cons_eq, List.dlookup_cons_eq]
          exact Option.Rel.some hvalues.1
        · rw [List.dlookup_cons_ne _ _ hkey, List.dlookup_cons_ne _ _ hkey]
          exact ih rest' hrest hvalues.2

theorem dlookup_reordered (R : α → β → Prop) (key : κ) (table : List (Σ _ : κ, α))
    (table' : List (Σ _ : κ, β)) (hnodup : table.NodupKeys) (h : Reordered R table table') :
    Option.Rel R (table.dlookup key) (table'.dlookup key) := by
  obtain ⟨middle, hperm, hkeys, hvalues⟩ := h
  rw [List.perm_dlookup key hnodup hperm]
  exact dlookup_rel R key middle table' hkeys hvalues

end Lookup

section Totals

variable {κ M : Type} [DecidableEq κ] [AddMonoid M]

/-- `total[key] = total.get(key, 0) + value` for every entry. -/
def accumulate (total part : List (Σ _ : κ, M)) : List (Σ _ : κ, M) :=
  part.foldl (fun t entry => t.kinsert entry.1 ((t.dlookup entry.1).getD 0 + entry.2)) total

/-- What one entry adds to the total of a key. -/
def addedAt (key : κ) (entry : Σ _ : κ, M) : Option M :=
  if key = entry.1 then some entry.2 else none

theorem dlookup_kinsert_add (key : κ) (total : List (Σ _ : κ, M)) (entry : Σ _ : κ, M) :
    (total.kinsert entry.1 ((total.dlookup entry.1).getD 0 + entry.2)).dlookup key
      = Option.merge (· + ·) (total.dlookup key) (addedAt key entry) := by
  unfold addedAt
  by_cases hkey : key = entry.1
  · subst hkey
    rw [List.dlookup_kinsert, if_pos rfl]
    rcases total.dlookup entry.1 with _ | old
    · simp
    · rfl
  · rw [List.dlookup_kinsert_ne hkey, if_neg hkey, Option.merge_none_right]

theorem dlookup_accumulate_eq_foldl (key : κ) (total part : List (Σ _ : κ, M)) :
    (accumulate total part).dlookup key
      = part.foldl (fun found entry => Option.merge (· + ·) found (addedAt key entry))
          (total.dlookup key) := by
  induction part generalizing total with
  | nil => rfl
  | cons entry rest ih =>
      rw [List.foldl_cons, ← dlookup_kinsert_add]
      exact ih _

omit [DecidableEq κ] in
theorem foldl_merge (found : Option M) (added : (Σ _ : κ, M) → Option M)
    (part : List (Σ _ : κ, M)) :
    part.foldl (fun found entry => Option.merge (· + ·) found (added entry)) found
      = Option.merge (· + ·) found
          (part.foldl (fun found entry => Option.merge (· + ·) found (added entry)) none) := by
  induction part generalizing found with
  | nil => simp
  | cons entry rest ih =>
      rw [List.foldl_cons, List.foldl_cons, ih, ih (Option.merge _ none _)]
      rw [Option.merge_none_left]
      exact Std.Associative.assoc _ _ _

theorem dlookup_accumulate (key : κ) (total part : List (Σ _ : κ, M)) :
    (accumulate total part).dlookup key
      = Option.merge (· + ·) (total.dlookup key) ((accumulate [] part).dlookup key) := by
  rw [dlookup_accumulate_eq_foldl, dlookup_accumulate_eq_foldl, foldl_merge]
  rfl

theorem accumulate_append (total first second : List (Σ _ : κ, M)) :
    accumulate total (first ++ second) = accumulate (accumulate total first) second := by
  unfold accumulate
  exact List.foldl_append

theorem dlookup_accumulate_nil (key : κ) (part : List (Σ _ : κ, M)) (hnodup : part.NodupKeys) :
    (accumulate [] part).dlookup key = part.dlookup key := by
  induction part with
  | nil => rfl
  | cons entry rest ih =>
      obtain ⟨hnotMem, hrest⟩ := List.nodupKeys_cons.mp hnodup
      have hhead : (accumulate [] (entry :: rest)).dlookup key
          = Option.merge (· + ·) (addedAt key entry) (rest.dlookup key) := by
        rw [show entry :: rest = [entry] ++ rest from rfl, accumulate_append, dlookup_accumulate,
          ih hrest, dlookup_accumulate_eq_foldl]
        simp
      rw [hhead]
      unfold addedAt
      by_cases hkey : key = entry.1
      · subst hkey
        rw [if_pos rfl, List.dlookup_eq_none.mpr hnotMem, Option.merge_none_right]
        exact (List.dlookup_cons_eq rest entry.1 entry.2).symm
      · rw [if_neg hkey, Option.merge_none_left, List.dlookup_cons_ne _ _ hkey]

theorem nodupKeys_accumulate (total part : List (Σ _ : κ, M)) (h : total.NodupKeys) :
    (accumulate total part).NodupKeys := by
  induction part generalizing total with
  | nil => exact h
  | cons entry rest ih => exact ih _ (List.kinsert_nodupKeys _ _ h)

end Totals

section Updates

variable {ι κ σ : Type} [DecidableEq κ]

/-- Each item changes the value at its place, or fails. -/
def updateAll (place : ι → κ) (change : ι → Option (σ → σ)) (items : List ι) (values : κ → σ) :
    Option (κ → σ) :=
  items.foldlM
    (fun values item => do
      let f ← change item
      return Function.update values (place item) (f (values (place item))))
    values

/-- When no item fails and no two change the same place, each place is changed once. -/
theorem updateAll_spec (place : ι → κ) (change : ι → Option (σ → σ)) (items : List ι)
    (values : κ → σ) (f : ι → σ → σ) (hnodup : (items.map place).Nodup)
    (hchange : ∀ item ∈ items, change item = some (f item)) :
    ∃ values', updateAll place change items values = some values' ∧
      (∀ item ∈ items, values' (place item) = f item (values (place item))) ∧
      ∀ key ∉ items.map place, values' key = values key := by
  induction items generalizing values with
  | nil => exact ⟨values, rfl, by simp, by simp⟩
  | cons item rest ih =>
      rw [List.map_cons, List.nodup_cons] at hnodup
      obtain ⟨hnotMem, hrest⟩ := hnodup
      obtain ⟨values', hrun, hchanged, hframe⟩ :=
        ih (Function.update values (place item) (f item (values (place item)))) hrest
          (fun i hi => hchange i (List.mem_cons_of_mem _ hi))
      refine ⟨values', ?_, ?_, ?_⟩
      · unfold updateAll at hrun ⊢
        rw [List.foldlM_cons, hchange item List.mem_cons_self]
        exact hrun
      · intro i hi
        rcases List.mem_cons.mp hi with heq | hmem
        · subst heq
          rw [hframe _ hnotMem, Function.update_self]
        · rw [hchanged i hmem, Function.update_of_ne]
          intro hplace
          exact hnotMem (List.mem_map.mpr ⟨i, hmem, hplace⟩)
      · intro key hkey
        rw [List.map_cons, List.mem_cons, not_or] at hkey
        rw [hframe key hkey.2, Function.update_of_ne hkey.1]

end Updates

section Sums

variable {κ α M : Type} [DecidableEq κ] [AddCommGroup M]

/-- The sum of a measure over the rows of a table. -/
def totalOf (f : α → M) (table : AList (fun _ : κ => α)) : M :=
  (table.entries.map (fun entry => f entry.2)).sum

omit [DecidableEq κ] in
theorem totalOf_empty (f : α → M) : totalOf f (∅ : AList (fun _ : κ => α)) = 0 := rfl

theorem sum_kerase (f : α → M) (key : κ) (entries : List (Σ _ : κ, α)) :
    ((entries.kerase key).map (fun entry => f entry.2)).sum
      = (entries.map (fun entry => f entry.2)).sum
        - ((entries.dlookup key).map f).getD 0 := by
  induction entries with
  | nil => simp
  | cons entry rest ih =>
      by_cases hkey : key = entry.1
      · subst hkey
        rw [List.kerase_cons_eq rfl, List.map_cons, List.sum_cons]
        show _ = _ - ((List.dlookup entry.1 (⟨entry.1, entry.2⟩ :: rest)).map f).getD 0
        rw [List.dlookup_cons_eq]
        simp
      · rw [List.kerase_cons_ne hkey, List.map_cons, List.sum_cons, ih, List.map_cons,
          List.sum_cons, List.dlookup_cons_ne _ _ hkey]
        exact (add_sub_assoc _ _ _).symm

theorem totalOf_insert (f : α → M) (table : AList (fun _ : κ => α)) (key : κ) (value : α) :
    totalOf f (table.insert key value)
      = totalOf f table - ((table.lookup key).map f).getD 0 + f value := by
  unfold totalOf
  rw [AList.entries_insert, List.map_cons, List.sum_cons, sum_kerase, add_comm]
  rfl

/-- Change every row of a table. -/
def mapValues (f : α → α) (table : AList (fun _ : κ => α)) : AList (fun _ : κ => α) where
  entries := entriesOf Sigma.fst (fun entry => f entry.2) table.entries
  nodupKeys := nodupKeys_entriesOf _ _ _ table.nodupKeys

theorem lookup_mapValues (f : α → α) (table : AList (fun _ : κ => α)) (key : κ) :
    (mapValues f table).lookup key = (table.lookup key).map f := by
  show (entriesOf Sigma.fst (fun entry => f entry.2) table.entries).dlookup key
    = (table.entries.dlookup key).map f
  rcases hfound : table.entries.dlookup key with _ | value
  · exact dlookup_entriesOf_of_notMem _ _ _ key (List.dlookup_eq_none.mp hfound)
  · exact dlookup_entriesOf_of_mem Sigma.fst (fun entry => f entry.2) table.entries ⟨key, value⟩
      table.nodupKeys (List.of_mem_dlookup hfound)

omit [DecidableEq κ] in
theorem totalOf_mapValues (f : α → M) (g : α → α) (table : AList (fun _ : κ => α))
    (h : ∀ value, f (g value) = f value) : totalOf f (mapValues g table) = totalOf f table := by
  unfold totalOf mapValues entriesOf
  rw [List.map_map]
  exact congrArg List.sum (List.map_congr_left (fun entry _ => h entry.2))

end Sums

end Tables
