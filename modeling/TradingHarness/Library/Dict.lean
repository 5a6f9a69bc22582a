import Mathlib.Data.List.Nodup

set_option autoImplicit false

/-! # Dictionaries in insertion order

A dictionary as the list of its entries. Looking up a key finds its first entry; setting a key keeps its
place, or puts a new key last. -/

namespace Dict

section Entries

variable {κ α : Type} [BEq κ] [LawfulBEq κ]

/-- The entries once a key is set. -/
def set (entries : List (κ × α)) (key : κ) (value : α) : List (κ × α) :=
  match entries with
  | [] => [(key, value)]
  | entry :: rest => if entry.1 == key then (key, value) :: rest else entry :: set rest key value

omit [LawfulBEq κ] in
theorem lookup_cons (entry : κ × α) (rest : List (κ × α)) (key : κ) :
    (entry :: rest).lookup key = if key == entry.1 then some entry.2 else rest.lookup key := by
  rw [List.lookup_cons]
  rcases key == entry.1 <;> rfl

section

variable (entries : List (κ × α))

section

variable (key : κ)

section

variable (value : α)

theorem lookup_set (other : κ) :
    (set entries key value).lookup other
      = if other == key then some value else entries.lookup other := by
  induction entries with
  | nil =>
      unfold set
      rw [lookup_cons]
  | cons entry rest ih =>
      obtain ⟨first, old⟩ := entry
      unfold set
      by_cases hfirst : first == key
      · rw [if_pos hfirst, lookup_cons, lookup_cons, eq_of_beq hfirst]
        split <;> rfl
      · rw [if_neg hfirst, lookup_cons, lookup_cons, ih]
        by_cases hother : other == first
        · rw [eq_of_beq hother, if_pos (beq_self_eq_true first), if_neg hfirst,
            if_pos (beq_self_eq_true first)]
        · rw [if_neg hother, if_neg hother]

theorem lookup_set_self :
    (set entries key value).lookup key = some value := by
  rw [lookup_set, if_pos (beq_self_eq_true key)]

theorem lookup_set_ne (other : κ)
    (h : other ≠ key) : (set entries key value).lookup other = entries.lookup other := by
  rw [lookup_set, if_neg (by simpa using h)]

omit [LawfulBEq κ] in
theorem mem_keys_set (other : κ)
    (h : other ∈ (set entries key value).map Prod.fst) :
    other = key ∨ other ∈ entries.map Prod.fst := by
  induction entries with
  | nil => exact Or.inl (List.mem_singleton.mp h)
  | cons entry rest ih =>
      unfold set at h
      split at h
      · rcases List.mem_cons.mp h with h | h
        · exact Or.inl h
        · exact Or.inr (List.mem_cons_of_mem _ h)
      · rcases List.mem_cons.mp h with h | h
        · exact Or.inr (h ▸ List.mem_cons_self)
        · exact (ih h).imp id (List.mem_cons_of_mem _)

theorem keys_set_of_mem (h : key ∈ entries.map Prod.fst) :
    (set entries key value).map Prod.fst = entries.map Prod.fst := by
  induction entries with
  | nil => simp at h
  | cons entry rest ih =>
      unfold set
      by_cases hfirst : entry.1 == key
      · rw [if_pos hfirst, List.map_cons, List.map_cons, eq_of_beq hfirst]
      · rw [if_neg hfirst, List.map_cons, List.map_cons]
        refine congrArg (entry.1 :: ·) (ih ?_)
        rcases List.mem_cons.mp h with heq | hrest
        · exact absurd (heq ▸ beq_self_eq_true _) hfirst
        · exact hrest

theorem nodup_keys_set (h : (entries.map Prod.fst).Nodup) : ((set entries key value).map Prod.fst).Nodup := by
  induction entries with
  | nil => exact List.nodup_singleton key
  | cons entry rest ih =>
      rw [List.map_cons, List.nodup_cons] at h
      unfold set
      split
      · next hfirst =>
          rw [eq_of_beq hfirst] at h
          exact List.nodup_cons.mpr h
      · next hfirst =>
          rw [List.map_cons, List.nodup_cons]
          refine ⟨fun hmem => ?_, ih h.2⟩
          rcases mem_keys_set rest key value entry.1 hmem with hkey | hrest
          · exact hfirst (by simpa using hkey)
          · exact h.1 hrest

theorem mem_of_lookup (h : entries.lookup key = some value) : (key, value) ∈ entries := by
  induction entries with
  | nil => exact absurd h (by simp)
  | cons entry rest ih =>
      rw [lookup_cons] at h
      split at h
      · next hkey =>
          rw [eq_of_beq hkey, ← Option.some.inj h]
          exact List.mem_cons_self
      · exact List.mem_cons_of_mem _ (ih h)

end

theorem lookup_eq_none :
    entries.lookup key = none ↔ key ∉ entries.map Prod.fst := by
  induction entries with
  | nil => simp
  | cons entry rest ih =>
      rw [lookup_cons, List.map_cons, List.mem_cons]
      split
      · next hkey => simp [eq_of_beq hkey]
      · next hkey =>
          rw [ih, not_or]
          exact ⟨fun h => ⟨by simpa using hkey, h⟩, And.right⟩

theorem lookup_of_mem (value : α)
    (hnodup : (entries.map Prod.fst).Nodup) (hmem : (key, value) ∈ entries) :
    entries.lookup key = some value := by
  induction entries with
  | nil => exact absurd hmem List.not_mem_nil
  | cons entry rest ih =>
      rw [List.map_cons, List.nodup_cons] at hnodup
      rw [lookup_cons]
      rcases List.mem_cons.mp hmem with rfl | hrest
      · rw [if_pos (beq_self_eq_true key)]
      · have hne : key ≠ entry.1 := by
          rintro rfl
          exact hnodup.1 (List.mem_map.mpr ⟨_, hrest, rfl⟩)
        rw [if_neg (by simpa using hne)]
        exact ih hnodup.2 hrest

theorem lookup_concat (value : α) (other : κ)
    (h : key ∉ entries.map Prod.fst) :
    (entries ++ [(key, value)]).lookup other
      = if other == key then some value else entries.lookup other := by
  rw [List.lookup_append, lookup_cons, List.lookup_nil]
  by_cases hkey : other == key
  · rw [if_pos hkey, if_pos hkey, eq_of_beq hkey, (lookup_eq_none entries key).mpr h, Option.none_or]
  · rw [if_neg hkey, if_neg hkey, Option.or_none]

end

end

/-- The entries once the keys of others are set in turn. -/
def update (entries others : List (κ × α)) : List (κ × α) :=
  others.foldl (fun entries other => set entries other.1 other.2) entries

theorem set_fresh (entries : List (κ × α)) (key : κ) (value : α)
    (h : key ∉ entries.map Prod.fst) : set entries key value = entries ++ [(key, value)] := by
  induction entries with
  | nil => rfl
  | cons entry rest ih =>
      rw [List.map_cons, List.mem_cons, not_or] at h
      unfold set
      rw [if_neg (by simpa using Ne.symm h.1), ih h.2, List.cons_append]

theorem update_fresh (entries others : List (κ × α))
    (h : ((entries ++ others).map Prod.fst).Nodup) : update entries others = entries ++ others := by
  induction others generalizing entries with
  | nil => exact (List.append_nil entries).symm
  | cons other rest ih =>
      have hassoc : entries ++ other :: rest = entries ++ [other] ++ rest := by
        rw [List.append_assoc, List.singleton_append]
      have hfresh : other.1 ∉ entries.map Prod.fst := by
        rw [List.map_append, List.nodup_append] at h
        exact fun hmem => h.2.2 _ hmem _ (List.mem_map_of_mem List.mem_cons_self) rfl
      show update (set entries other.1 other.2) rest = _
      rw [set_fresh _ _ _ hfresh, hassoc]
      rw [hassoc] at h
      exact ih _ h

theorem lookup_update_of_not_mem (entries others : List (κ × α)) (key : κ)
    (h : key ∉ others.map Prod.fst) : (update entries others).lookup key = entries.lookup key := by
  induction others generalizing entries with
  | nil => rfl
  | cons other rest ih =>
      rw [List.map_cons, List.mem_cons, not_or] at h
      show (update (set entries other.1 other.2) rest).lookup key = _
      rw [ih _ h.2, lookup_set_ne _ _ _ _ h.1]

theorem lookup_update_of_mem (entries others : List (κ × α)) (h : (others.map Prod.fst).Nodup)
    (other : κ × α) (hmem : other ∈ others) : (update entries others).lookup other.1 = some other.2 := by
  induction others generalizing entries with
  | nil => exact absurd hmem List.not_mem_nil
  | cons first rest ih =>
      rw [List.map_cons, List.nodup_cons] at h
      show (update (set entries first.1 first.2) rest).lookup other.1 = _
      rcases List.mem_cons.mp hmem with rfl | hmem
      · rw [lookup_update_of_not_mem _ _ _ h.1, lookup_set_self]
      · exact ih _ h.2 hmem

/-- The entries without a key. -/
def erase (entries : List (κ × α)) (key : κ) : List (κ × α) :=
  entries.filter (fun entry => !(entry.1 == key))

omit [LawfulBEq κ] in
theorem mem_erase {entries : List (κ × α)} {key : κ} {entry : κ × α} (h : entry ∈ erase entries key) :
    entry ∈ entries :=
  (List.mem_filter.mp h).1

theorem lookup_erase (entries : List (κ × α)) (key other : κ) :
    (erase entries key).lookup other = if other == key then none else entries.lookup other := by
  unfold erase
  induction entries with
  | nil => simp
  | cons entry rest ih =>
      rw [List.filter_cons]
      by_cases hfirst : entry.1 == key
      · rw [hfirst, Bool.not_true, if_neg Bool.false_ne_true, ih, lookup_cons, eq_of_beq hfirst]
        split <;> rfl
      · rw [Bool.eq_false_iff.mpr hfirst, Bool.not_false, if_pos rfl, lookup_cons, lookup_cons, ih]
        by_cases hother : other == entry.1
        · rw [if_pos hother, if_pos hother, if_neg (by rw [eq_of_beq hother]; exact hfirst)]
        · rw [if_neg hother, if_neg hother]

theorem length_erase_lt {entries : List (κ × α)} {entry : κ × α} (h : entry ∈ entries) :
    (erase entries entry.1).length < entries.length := by
  refine List.length_filter_lt_length_iff_exists.mpr ⟨entry, h, ?_⟩
  simp

omit [LawfulBEq κ] in
theorem mem_set {entries : List (κ × α)} {key : κ} {value : α} {entry : κ × α}
    (h : entry ∈ set entries key value) : entry = (key, value) ∨ entry ∈ entries := by
  induction entries with
  | nil => exact Or.inl (List.mem_singleton.mp h)
  | cons first rest ih =>
      unfold set at h
      split at h
      · exact (List.mem_cons.mp h).imp_right (List.mem_cons_of_mem _)
      · rcases List.mem_cons.mp h with rfl | hrest
        · exact Or.inr List.mem_cons_self
        · exact (ih hrest).imp_right (List.mem_cons_of_mem _)

theorem lookup_perm {entries others : List (κ × α)} (hperm : entries.Perm others)
    (hnodup : (entries.map Prod.fst).Nodup) (key : κ) : entries.lookup key = others.lookup key := by
  rcases hlookup : entries.lookup key with _ | value
  · refine ((lookup_eq_none others key).mpr (fun hmem => ?_)).symm
    exact (lookup_eq_none entries key).mp hlookup ((hperm.map Prod.fst).mem_iff.mpr hmem)
  · have hmem := hperm.mem_iff.mp (mem_of_lookup entries key value hlookup)
    exact (lookup_of_mem others key value ((hperm.map Prod.fst).nodup_iff.mp hnodup) hmem).symm

theorem perm_erase (entries : List (κ × α)) (key : κ) (h : (entries.map Prod.fst).Nodup) :
    entries.Perm (((entries.lookup key).map (fun value => (key, value))).toList ++ erase entries key) := by
  induction entries with
  | nil => exact List.Perm.nil
  | cons entry rest ih =>
      rw [List.map_cons, List.nodup_cons] at h
      unfold erase at ih ⊢
      rw [lookup_cons, List.filter_cons]
      by_cases hfirst : key == entry.1
      · -- the key is that of the first entry, and of no other
        have hkey : key = entry.1 := eq_of_beq hfirst
        have hrest : rest.filter (fun other => !(other.1 == key)) = rest := by
          refine List.filter_eq_self.mpr (fun other hother => ?_)
          rw [Bool.not_eq_true', beq_eq_false_iff_ne]
          exact fun hsame => h.1 (hkey ▸ hsame ▸ List.mem_map_of_mem hother)
        rw [if_pos hfirst, hrest, hkey, beq_self_eq_true, Bool.not_true, if_neg Bool.false_ne_true, Option.map_some,
          Option.toList_some, List.singleton_append]
      · have hne : (entry.1 == key) = false := by
          rw [beq_eq_false_iff_ne]
          exact fun hsame => hfirst (hsame ▸ beq_self_eq_true entry.1)
        rw [if_neg hfirst, hne, Bool.not_false, if_pos rfl]
        exact ((ih h.2).cons entry).trans List.perm_middle.symm

theorem perm_set (entries : List (κ × α)) (key : κ) (value : α) (h : (entries.map Prod.fst).Nodup) :
    (set entries key value).Perm ((key, value) :: erase entries key) := by
  have hperm := perm_erase (set entries key value) key (nodup_keys_set entries key value h)
  have herase : erase (set entries key value) key = erase entries key := by
    unfold erase
    clear hperm h
    induction entries with
    | nil => rw [set, List.filter_cons, beq_self_eq_true, Bool.not_true, if_neg Bool.false_ne_true]
    | cons entry rest ih =>
        unfold set
        by_cases hfirst : entry.1 == key
        · rw [if_pos hfirst, List.filter_cons, List.filter_cons, hfirst, beq_self_eq_true]
          rfl
        · rw [if_neg hfirst, List.filter_cons, List.filter_cons, ih]
  rw [lookup_set_self, herase] at hperm
  exact hperm

omit [LawfulBEq κ] in
theorem nodup_keys_erase {entries : List (κ × α)} (key : κ) (h : (entries.map Prod.fst).Nodup) :
    ((erase entries key).map Prod.fst).Nodup :=
  h.sublist (List.filter_sublist.map Prod.fst)

end Entries

theorem nodup_eraseDups {κ : Type} [BEq κ] [LawfulBEq κ] : ∀ keys : List κ, keys.eraseDups.Nodup
  | [] => by
    rw [List.eraseDups_nil]
    exact List.nodup_nil
  | key :: rest => by
    rw [List.eraseDups_cons, List.nodup_cons, List.mem_eraseDups, List.mem_filter]
    refine ⟨fun hmem => ?_, nodup_eraseDups _⟩
    simp at hmem
termination_by keys => keys.length
decreasing_by
  exact Nat.lt_succ_of_le (List.length_filter_le _ rest)

end Dict
