import TradingHarness.Library.Tables

set_option autoImplicit false

/-! # Nested tables of running totals

A `Tally` is a table of numbers together with a table of tallies, both keyed: the shape a nested
dictionary of totals has. `add` merges one tally into another, number by number and group by group.
A tally is read by a path of group keys and a number's name, and every fact below is about what is
read, so the order of the keys never matters (`read_reordered`). -/

/-- Numbers named by `ν` beside groups named by `κ`. -/
inductive Tally (ν κ M : Type) where
  | mk (numbers : List (Σ _ : ν, M)) (groups : List (Σ _ : κ, Tally ν κ M))

namespace Tally

variable {ν κ M : Type}

def numbers : Tally ν κ M → List (Σ _ : ν, M)
  | mk numbers _ => numbers

def groups : Tally ν κ M → List (Σ _ : κ, Tally ν κ M)
  | mk _ groups => groups

@[simp] theorem numbers_mk (numbers : List (Σ _ : ν, M)) (groups : List (Σ _ : κ, Tally ν κ M)) :
    (mk numbers groups).numbers = numbers := rfl

@[simp] theorem groups_mk (numbers : List (Σ _ : ν, M)) (groups : List (Σ _ : κ, Tally ν κ M)) :
    (mk numbers groups).groups = groups := rfl

/-- The tally without any key. -/
def empty : Tally ν κ M := mk [] []

/-- No key stands twice, at any level. -/
inductive Distinct : Tally ν κ M → Prop
  | mk {numbers : List (Σ _ : ν, M)} {groups : List (Σ _ : κ, Tally ν κ M)} :
      numbers.NodupKeys → groups.NodupKeys → (∀ group ∈ groups, Distinct group.2) →
        Distinct (.mk numbers groups)

/-- The same tally with its keys in another order, at every level. -/
inductive Reordered : Tally ν κ M → Tally ν κ M → Prop
  | mk {numbers numbers' : List (Σ _ : ν, M)}
      {groups middle groups' : List (Σ _ : κ, Tally ν κ M)} :
      numbers.Perm numbers' → groups.Perm middle → middle.keys = groups'.keys →
        List.Forall₂ Reordered (middle.map Sigma.snd) (groups'.map Sigma.snd) →
        Reordered (.mk numbers groups) (.mk numbers' groups')

theorem Distinct.groups_nodup {tally : Tally ν κ M} (h : tally.Distinct) :
    tally.groups.NodupKeys := by
  obtain ⟨-, hgroups, -⟩ := h
  exact hgroups

mutual

theorem Reordered.refl : ∀ tally : Tally ν κ M, Reordered tally tally
  | mk _ groups =>
      Reordered.mk (List.Perm.refl _) (List.Perm.refl _) rfl (forall₂_reordered_refl groups)

theorem forall₂_reordered_refl : ∀ groups : List (Σ _ : κ, Tally ν κ M),
    List.Forall₂ Reordered (groups.map Sigma.snd) (groups.map Sigma.snd)
  | [] => List.Forall₂.nil
  | ⟨_, group⟩ :: rest =>
      List.Forall₂.cons (Reordered.refl group) (forall₂_reordered_refl rest)

end

theorem exists_related {α β : Type} {R : α → β → Prop} {xs : List α} {ys : List β}
    (h : List.Forall₂ R xs ys) {y : β} (hy : y ∈ ys) : ∃ x ∈ xs, R x y := by
  induction h with
  | nil => simp at hy
  | cons hhead _ ih =>
      rcases List.mem_cons.mp hy with heq | hmem
      · subst heq
        exact ⟨_, List.mem_cons_self, hhead⟩
      · obtain ⟨x, hx, hrel⟩ := ih hmem
        exact ⟨x, List.mem_cons_of_mem _ hx, hrel⟩

theorem Distinct.reordered {tally tally' : Tally ν κ M} (hdistinct : tally.Distinct)
    (h : Reordered tally tally') : tally'.Distinct := by
  induction hdistinct generalizing tally' with
  | mk hnumbers hgroups _ ih =>
      obtain @⟨_, numbers', groups, middle, groups', hperm, hmiddle, hkeys, hall⟩ := h
      refine Distinct.mk ((List.perm_nodupKeys hperm).mp hnumbers) ?_ ?_
      · have hnodup : middle.NodupKeys := (List.perm_nodupKeys hmiddle).mp hgroups
        unfold List.NodupKeys at hnodup ⊢
        rwa [← hkeys]
      · intro group' hgroup'
        obtain ⟨tally, htally, hrel⟩ := exists_related hall (List.mem_map_of_mem hgroup')
        obtain ⟨group, hgroup, hvalue⟩ := List.mem_map.mp htally
        subst hvalue
        exact ih group (hmiddle.mem_iff.mpr hgroup) hrel

section Reading

variable [DecidableEq κ]

theorem Distinct.group {tally group : Tally ν κ M} {key : κ} (h : tally.Distinct)
    (hlookup : tally.groups.dlookup key = some group) : group.Distinct := by
  obtain ⟨-, -, hall⟩ := h
  exact hall ⟨key, group⟩ (List.of_mem_dlookup hlookup)

variable [DecidableEq ν]

/-- The number under a path of groups. -/
def read (tally : Tally ν κ M) : List κ → ν → Option M
  | [], name => tally.numbers.dlookup name
  | key :: path, name => (tally.groups.dlookup key).bind (fun group => group.read path name)

theorem read_nil (tally : Tally ν κ M) (name : ν) :
    tally.read [] name = tally.numbers.dlookup name := rfl

theorem read_cons (tally : Tally ν κ M) (key : κ) (path : List κ) (name : ν) :
    tally.read (key :: path) name
      = (tally.groups.dlookup key).bind (fun group => group.read path name) := rfl

theorem read_empty (path : List κ) (name : ν) : (empty : Tally ν κ M).read path name = none := by
  rcases path with _ | ⟨key, path⟩ <;> rfl

theorem read_reordered (tally tally' : Tally ν κ M) (hdistinct : tally.Distinct)
    (h : Reordered tally tally') (path : List κ) (name : ν) :
    tally'.read path name = tally.read path name := by
  induction path generalizing tally tally' with
  | nil =>
      obtain ⟨hnumbers, -, -, -⟩ := h
      obtain ⟨hnodup, -, -⟩ := hdistinct
      exact (List.perm_dlookup name hnodup hnumbers).symm
  | cons key path ih =>
      obtain @⟨_, _, groups, middle, groups', -, hperm, hkeys, hall⟩ := h
      have hnodup : groups.NodupKeys := hdistinct.groups_nodup
      have hlookup : Option.Rel Reordered (groups.dlookup key) (groups'.dlookup key) :=
        Tables.dlookup_reordered Reordered key groups groups' hnodup ⟨middle, hperm, hkeys, hall⟩
      rw [read_cons, read_cons, groups_mk, groups_mk]
      rcases hgroup : groups.dlookup key with _ | group
      · rcases hgroup' : groups'.dlookup key with _ | group'
        · rfl
        · simp [hgroup, hgroup'] at hlookup
      · rcases hgroup' : groups'.dlookup key with _ | group'
        · simp [hgroup, hgroup'] at hlookup
        · rw [hgroup, hgroup', Option.rel_some_some] at hlookup
          exact ih group group' (hdistinct.group hgroup) hlookup

end Reading

/-! ## Adding -/

section Adding

variable [DecidableEq ν] [DecidableEq κ] [AddMonoid M]

mutual

/-- Merge a tally into a running total: numbers are added, groups merged, new keys created. -/
def add (total : Tally ν κ M) : Tally ν κ M → Tally ν κ M
  | mk numbers groups =>
      mk (Tables.accumulate total.numbers numbers) (addGroups total.groups groups)

def addGroups (total : List (Σ _ : κ, Tally ν κ M)) :
    List (Σ _ : κ, Tally ν κ M) → List (Σ _ : κ, Tally ν κ M)
  | [] => total
  | ⟨key, part⟩ :: rest =>
      addGroups (total.kinsert key (add ((total.dlookup key).getD empty) part)) rest

end

theorem add_mk (total : Tally ν κ M) (numbers : List (Σ _ : ν, M))
    (groups : List (Σ _ : κ, Tally ν κ M)) :
    total.add (mk numbers groups)
      = mk (Tables.accumulate total.numbers numbers) (addGroups total.groups groups) := by
  rw [add]

theorem dlookup_addGroups (key : κ) (total part : List (Σ _ : κ, Tally ν κ M))
    (hnodup : part.NodupKeys) :
    (addGroups total part).dlookup key
      = match part.dlookup key with
        | none => total.dlookup key
        | some group => some (((total.dlookup key).getD empty).add group) := by
  induction part generalizing total with
  | nil => rw [addGroups, List.dlookup_nil]
  | cons entry rest ih =>
      obtain ⟨k, group⟩ := entry
      obtain ⟨hnotMem, hrest⟩ := List.nodupKeys_cons.mp hnodup
      rw [addGroups, ih _ hrest]
      by_cases hkey : key = k
      · subst hkey
        rw [List.dlookup_eq_none.mpr hnotMem, List.dlookup_kinsert, List.dlookup_cons_eq]
      · rw [List.dlookup_kinsert_ne hkey, List.dlookup_cons_ne _ _ hkey]

/-- **Adding is seen number by number.** -/
theorem read_add (total part : Tally ν κ M) (hdistinct : part.Distinct) (path : List κ)
    (name : ν) :
    (total.add part).read path name
      = Option.merge (· + ·) (total.read path name) (part.read path name) := by
  induction path generalizing total part with
  | nil =>
      obtain ⟨hnumbers, -, -⟩ := hdistinct
      rw [add_mk, read_nil, read_nil, read_nil, numbers_mk, numbers_mk, Tables.dlookup_accumulate,
        Tables.dlookup_accumulate_nil name _ hnumbers]
  | cons key path ih =>
      obtain ⟨numbers, groups⟩ := part
      have hgroups : groups.NodupKeys := hdistinct.groups_nodup
      rw [add_mk, read_cons, read_cons, read_cons, groups_mk, groups_mk,
        dlookup_addGroups key _ _ hgroups]
      rcases hgroup : groups.dlookup key with _ | group
      · simp
      · have hread := ih ((total.groups.dlookup key).getD empty) group (hdistinct.group hgroup)
        simp only [Option.bind_some, hread]
        rcases total.groups.dlookup key with _ | old
        · simp [read_empty]
        · simp

end Adding

/-! ## Tallies that add up -/

section AddsUp

variable [DecidableEq ν] [DecidableEq κ] [AddMonoid M]

/-- Every number of `whole` is the sum of the numbers of `left` and `right` at its place. -/
def AddsUp (whole left right : Tally ν κ M) : Prop :=
  ∀ path name,
    whole.read path name = Option.merge (· + ·) (left.read path name) (right.read path name)

/-- The groups under one key: there in the whole when there in a part, and then adding up. -/
inductive GroupAddsUp : Option (Tally ν κ M) → Option (Tally ν κ M) → Option (Tally ν κ M) → Prop
  | absent : GroupAddsUp none none none
  | left (group : Tally ν κ M) : GroupAddsUp (some group) (some group) none
  | right (group : Tally ν κ M) : GroupAddsUp (some group) none (some group)
  | both {whole left right : Tally ν κ M} (h : AddsUp whole left right) :
      GroupAddsUp (some whole) (some left) (some right)

/-- Tallies add up when their numbers and their groups do. -/
theorem addsUp_mk (whole left right : Tally ν κ M)
    (hnumbers : ∀ name, whole.numbers.dlookup name
      = Option.merge (· + ·) (left.numbers.dlookup name) (right.numbers.dlookup name))
    (hgroups : ∀ key, GroupAddsUp (whole.groups.dlookup key) (left.groups.dlookup key)
      (right.groups.dlookup key)) :
    AddsUp whole left right := by
  intro path name
  rcases path with _ | ⟨key, path⟩
  · exact hnumbers name
  · rw [read_cons, read_cons, read_cons]
    have hgroup := hgroups key
    generalize whole.groups.dlookup key = w at hgroup
    generalize left.groups.dlookup key = l at hgroup
    generalize right.groups.dlookup key = r at hgroup
    rcases hgroup with _ | group | group | h
    · rfl
    · simp
    · simp
    · exact h path name

omit [DecidableEq κ] in
theorem numbersAddUp_cons (n : ν) (x y : M) (whole left right : List (Σ _ : ν, M)) (name : ν)
    (h : whole.dlookup name
      = Option.merge (· + ·) (left.dlookup name) (right.dlookup name)) :
    List.dlookup name (⟨n, x + y⟩ :: whole)
      = Option.merge (· + ·) (List.dlookup name (⟨n, x⟩ :: left))
          (List.dlookup name (⟨n, y⟩ :: right)) := by
  by_cases hname : name = n
  · subst hname
    simp only [List.dlookup_cons_eq]
    rfl
  · rw [List.dlookup_cons_ne _ _ hname, List.dlookup_cons_ne _ _ hname,
      List.dlookup_cons_ne _ _ hname]
    exact h

theorem groupAddsUp_cons (k : κ) (w l r : Tally ν κ M)
    (whole left right : List (Σ _ : κ, Tally ν κ M)) (hhead : AddsUp w l r) (key : κ)
    (h : GroupAddsUp (whole.dlookup key) (left.dlookup key) (right.dlookup key)) :
    GroupAddsUp (List.dlookup key (⟨k, w⟩ :: whole)) (List.dlookup key (⟨k, l⟩ :: left))
      (List.dlookup key (⟨k, r⟩ :: right)) := by
  by_cases hkey : key = k
  · subst hkey
    simp only [List.dlookup_cons_eq]
    exact GroupAddsUp.both hhead
  · rw [List.dlookup_cons_ne _ _ hkey, List.dlookup_cons_ne _ _ hkey,
      List.dlookup_cons_ne _ _ hkey]
    exact h

/-- Groups under the same names add up when each of them does. -/
theorem groupAddsUp_entriesOf {ι : Type} (name : ι → κ) (items : List ι)
    (hnodup : (items.map name).Nodup) (whole left right : ι → Tally ν κ M)
    (h : ∀ item ∈ items, AddsUp (whole item) (left item) (right item)) (key : κ) :
    GroupAddsUp ((Tables.entriesOf name whole items).dlookup key)
      ((Tables.entriesOf name left items).dlookup key)
      ((Tables.entriesOf name right items).dlookup key) := by
  by_cases hkey : key ∈ items.map name
  · obtain ⟨item, hmem, hname⟩ := List.mem_map.mp hkey
    subst hname
    rw [Tables.dlookup_entriesOf_of_mem name whole items item hnodup hmem,
      Tables.dlookup_entriesOf_of_mem name left items item hnodup hmem,
      Tables.dlookup_entriesOf_of_mem name right items item hnodup hmem]
    exact GroupAddsUp.both (h item hmem)
  · rw [Tables.dlookup_entriesOf_of_notMem name whole items key hkey,
      Tables.dlookup_entriesOf_of_notMem name left items key hkey,
      Tables.dlookup_entriesOf_of_notMem name right items key hkey]
    exact GroupAddsUp.absent

end AddsUp

end Tally
