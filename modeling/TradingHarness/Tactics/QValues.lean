import TradingHarness.Library.Dict
import TradingHarness.Library.StepUp
import Mathlib.Data.List.Sort
import Mathlib.Data.Rat.Cast.Order
import Mathlib.Tactic.NormNum

set_option autoImplicit false

/-! # False-discovery q-values

`bh_q_values` (`research_trials.py`): the Benjamini-Hochberg adjustment that `History.records` and every research family ask for.
Values are exact rationals; a mapping is the list of its items. -/

namespace TradingHarness

/-- The p-values of a family, or its q-values: a key that was not tested has none. -/
abbrev PValues := List (String × Option ℚ)

/-- `key=lambda item: item[1]`. -/
def ByValue (a b : String × ℚ) : Prop := a.2 ≤ b.2

instance : DecidableRel ByValue := fun a b => inferInstanceAs (Decidable (a.2 ≤ b.2))

/-- The items that have a value, in the order of their values; equal ones stay as they are. -/
def testedOf (pValues : PValues) : List (String × ℚ) :=
  (pValues.filterMap (fun item => item.2.map (fun value => (item.1, value)))).insertionSort ByValue

/-- One rank of the loop. -/
def adjustRank (count : ℕ) (state : ℚ × PValues) (ranked : (String × ℚ) × ℕ) : ℚ × PValues :=
  let running := min state.1 (ranked.1.2 * count / ranked.2)
  (running, Dict.set state.2 ranked.1.1 (some running))

/-- `bh_q_values`: the ranks are walked from the last to the first. -/
def bhQValues (pValues : PValues) : PValues :=
  let tested := testedOf pValues
  let untested : PValues := pValues.map (fun item => (item.1, none))
  ((tested.zipIdx 1).reverse.foldl (adjustRank tested.length) (1, untested)).2

/-! ## The tested items -/

variable (pValues : PValues)

theorem testedOf_perm :
    (testedOf pValues).Perm (pValues.filterMap (fun item => item.2.map (fun value => (item.1, value)))) :=
  List.perm_insertionSort _ _

theorem mem_testedOf {pValues : PValues} {key : String} {value : ℚ} : (key, value) ∈ testedOf pValues ↔ (key, some value) ∈ pValues := by
  rw [(testedOf_perm pValues).mem_iff, List.mem_filterMap]
  constructor
  · rintro ⟨⟨name, found⟩, hmem, hitem⟩
    obtain ⟨other, rfl, hpair⟩ := Option.map_eq_some_iff.mp hitem
    obtain ⟨rfl, rfl⟩ := Prod.mk.inj hpair
    exact hmem
  · intro hmem
    exact ⟨(key, some value), hmem, rfl⟩

instance : Std.Total ByValue := ⟨fun a b => le_total a.2 b.2⟩

instance : IsTrans (String × ℚ) ByValue := ⟨fun _ _ _ hab hbc => le_trans hab hbc⟩

theorem testedOf_sorted : (testedOf pValues).Pairwise (fun a b => a.2 ≤ b.2) :=
  List.pairwise_insertionSort ByValue _

/-- The p-values that were tested. -/
def testedValues (pValues : PValues) : List ℚ := pValues.filterMap Prod.snd

theorem values_testedOf : ((testedOf pValues).map Prod.snd).Perm (testedValues pValues) := by
  refine ((testedOf_perm pValues).map Prod.snd).trans ?_
  rw [List.map_filterMap]
  refine List.Perm.of_eq (congrArg (pValues.filterMap ·) ?_)
  funext item
  rw [Option.map_map]
  exact Option.map_id'

theorem keys_testedOf {pValues : PValues} (h : (pValues.map Prod.fst).Nodup) : ((testedOf pValues).map Prod.fst).Nodup := by
  rw [((testedOf_perm pValues).map Prod.fst).nodup_iff]
  refine h.sublist ?_
  induction pValues with
  | nil => exact List.Sublist.slnil
  | cons item rest ih =>
      obtain ⟨-, hrest⟩ := List.nodup_cons.mp h
      obtain ⟨key, _ | value⟩ := item
      · exact (ih hrest).cons key
      · exact (ih hrest).cons_cons key

/-! ## The walk over the ranks -/

/-- The loop from the last of some ranks to the first. -/
def adjustRanks (count rank : ℕ) (items : List (String × ℚ)) (start : PValues) : ℚ × PValues :=
  (items.zipIdx rank).reverse.foldl (adjustRank count) (1, start)

variable (count rank : ℕ) (items : List (String × ℚ)) (start : PValues)

theorem adjustRanks_cons (item : String × ℚ) (rest : List (String × ℚ)) (start : PValues) :
    adjustRanks count rank (item :: rest) start = adjustRank count (adjustRanks count (rank + 1) rest start) (item, rank) := by
  rw [adjustRanks, List.zipIdx_cons, List.reverse_cons, List.foldl_concat]
  rfl

theorem adjustRanks_fst :
    (adjustRanks count rank items start).1 = StepUp.running count Prod.snd rank items := by
  induction items generalizing rank with
  | nil => rfl
  | cons item rest ih =>
      rw [adjustRanks_cons, StepUp.running, ← ih (rank + 1)]
      rfl

theorem adjustRanks_lookup_of_notMem {items : List (String × ℚ)} {key : String} (h : key ∉ items.map Prod.fst) (count rank : ℕ)
    (start : PValues) : (adjustRanks count rank items start).2.lookup key = start.lookup key := by
  induction items generalizing rank with
  | nil => rfl
  | cons item rest ih =>
      obtain ⟨hfirst, hrest⟩ := not_or.mp (mt List.mem_cons.mpr h)
      rw [adjustRanks_cons, adjustRank, Dict.lookup_set_ne _ _ _ _ hfirst]
      exact ih hrest (rank + 1)

theorem adjustRanks_lookup (before : List (String × ℚ)) (item : String × ℚ) (after : List (String × ℚ)) (start : PValues)
    (hnodup : ((before ++ item :: after).map Prod.fst).Nodup) :
    (adjustRanks count rank (before ++ item :: after) start).2.lookup item.1 =
      some (some (StepUp.running count Prod.snd (rank + before.length) (item :: after))) := by
  induction before generalizing rank with
  | nil =>
      rw [List.nil_append, adjustRanks_cons, adjustRank, Dict.lookup_set_self, adjustRanks_fst]
      rfl
  | cons first rest ih =>
      obtain ⟨hfresh, hrest⟩ := List.nodup_cons.mp hnodup
      have hne : item.1 ≠ first.1 := by
        intro heq
        exact hfresh (heq ▸ List.mem_map_of_mem (List.mem_append_right _ List.mem_cons_self))
      have hrank : rank + (first :: rest).length = rank + 1 + rest.length := by
        rw [List.length_cons]
        omega
      rw [List.cons_append, adjustRanks_cons, adjustRank, Dict.lookup_set_ne _ _ _ _ hne, hrank]
      exact ih (rank + 1) hrest

theorem adjustRanks_keys (h : ∀ key ∈ items.map Prod.fst, key ∈ start.map Prod.fst) :
    (adjustRanks count rank items start).2.map Prod.fst = start.map Prod.fst := by
  induction items generalizing rank with
  | nil => rfl
  | cons item rest ih =>
      have hrest := ih (rank + 1) (fun key hkey => h key (List.mem_cons_of_mem _ hkey))
      rw [adjustRanks_cons, adjustRank, Dict.keys_set_of_mem _ _ _ (hrest ▸ h item.1 List.mem_cons_self), hrest]

/-! ## The adjustment -/

theorem bhQValues_eq :
    bhQValues pValues =
      (adjustRanks (testedOf pValues).length 1 (testedOf pValues) (pValues.map (fun item => (item.1, none)))).2 := rfl

theorem bhQValues_keys : (bhQValues pValues).map Prod.fst = pValues.map Prod.fst := by
  rw [bhQValues_eq, adjustRanks_keys, List.map_map]
  · rfl
  · intro key hkey
    obtain ⟨⟨name, value⟩, hmem, rfl⟩ := List.mem_map.mp hkey
    exact List.mem_map.mpr ⟨(name, none), List.mem_map.mpr ⟨(name, some value), mem_testedOf.mp hmem, rfl⟩, rfl⟩

section Family

variable {pValues : PValues}

section

variable (hkeys : (pValues.map Prod.fst).Nodup)

include hkeys

theorem bhQValues_untested {key : String} (h : (key, none) ∈ pValues) :
    (bhQValues pValues).lookup key = some none := by
  have hout : key ∉ (testedOf pValues).map Prod.fst := by
    intro hin
    obtain ⟨⟨name, value⟩, hmem, rfl⟩ := List.mem_map.mp hin
    have hsome := Dict.lookup_of_mem _ _ _ hkeys (mem_testedOf.mp hmem)
    rw [Dict.lookup_of_mem _ _ _ hkeys h] at hsome
    exact absurd (Option.some.inj hsome) (by simp)
  rw [bhQValues_eq, adjustRanks_lookup_of_notMem hout]
  refine Dict.lookup_of_mem _ _ _ ?_ (List.mem_map.mpr ⟨(key, none), h, rfl⟩)
  rw [List.map_map]
  exact hkeys

theorem bhQValues_tested (hvalues : ∀ key value, (key, some value) ∈ pValues → 0 ≤ value)
    {key : String} {value : ℚ} (h : (key, some value) ∈ pValues) :
    ∃ q, (bhQValues pValues).lookup key = some (some q) ∧ IsLeast (StepUp.Bounds (testedValues pValues) value) q := by
  obtain ⟨before, after, hsplit⟩ := List.append_of_mem (mem_testedOf.mpr h)
  have hnodup := keys_testedOf hkeys
  have hsorted := testedOf_sorted pValues
  have hnonneg : ∀ other ∈ testedOf pValues, 0 ≤ other.2 := fun other hother => hvalues other.1 other.2 (mem_testedOf.mp hother)
  have hperm := values_testedOf pValues
  rw [hsplit] at hnodup hsorted hnonneg hperm
  refine ⟨_, ?_, StepUp.bounds_perm hperm value ▸ StepUp.running_isLeast hnonneg hsorted⟩
  rw [bhQValues_eq, hsplit, adjustRanks_lookup _ 1 before (key, value) after _ hnodup, Nat.add_comm 1]

theorem isLeast_of_lookup (hvalues : ∀ key value, (key, some value) ∈ pValues → 0 ≤ value)
    {key : String} {value q : ℚ} (h : (key, some value) ∈ pValues) (hq : (bhQValues pValues).lookup key = some (some q)) :
    IsLeast (StepUp.Bounds (testedValues pValues) value) q := by
  obtain ⟨found, hfound, hleast⟩ := bhQValues_tested hkeys hvalues h
  rw [hq] at hfound
  cases hfound
  exact hleast

/-- Two families that test the same values adjust a value of both alike. -/
theorem lookup_eq_of_perm {others : PValues} (hothers : (others.map Prod.fst).Nodup)
    (hvalues : ∀ key value, (key, some value) ∈ pValues → 0 ≤ value)
    (hothervalues : ∀ key value, (key, some value) ∈ others → 0 ≤ value)
    (hperm : (testedValues pValues).Perm (testedValues others)) {key other : String} {value : ℚ}
    (hkey : (key, some value) ∈ pValues) (hother : (other, some value) ∈ others) :
    (bhQValues pValues).lookup key = (bhQValues others).lookup other := by
  obtain ⟨q, hq, hleast⟩ := bhQValues_tested hkeys hvalues hkey
  obtain ⟨q', hq', hleast'⟩ := bhQValues_tested hothers hothervalues hother
  rw [hq, hq', hleast.unique (StepUp.bounds_perm hperm value ▸ hleast')]

end

end Family

/-- What the Benjamini-Hochberg adjustment of a family is. -/
structure StepUpAdjusted (pValues : PValues) : Prop where
  keys : (bhQValues pValues).map Prod.fst = pValues.map Prod.fst
  untested : ∀ key, (key, none) ∈ pValues → (bhQValues pValues).lookup key = some none
  /-- The least of 1 and of `p' * n / #{tested values ≤ p'}` over the tested `p' ≥ p`. -/
  tested : ∀ key p, (key, some p) ∈ pValues →
    ∃ q, (bhQValues pValues).lookup key = some (some q) ∧ IsLeast (StepUp.Bounds (testedValues pValues) p) q ∧ p ≤ q
  monotone : ∀ key key' p p' q q', (key, some p) ∈ pValues → (key', some p') ∈ pValues → p ≤ p' →
    (bhQValues pValues).lookup key = some (some q) → (bhQValues pValues).lookup key' = some (some q') → q ≤ q'
  ties : ∀ key key' p, (key, some p) ∈ pValues → (key', some p) ∈ pValues →
    (bhQValues pValues).lookup key = (bhQValues pValues).lookup key'
  /-- The keys that were not tested may as well not be there. -/
  unaffected : ∀ key p, (key, some p) ∈ pValues →
    (bhQValues (pValues.filter (fun item => item.2.isSome))).lookup key = (bhQValues pValues).lookup key
  unordered : ∀ reordered, reordered.Perm pValues → ∀ key, (bhQValues reordered).lookup key = (bhQValues pValues).lookup key

/-- Three tested keys and one that is not. -/
def fourTrials : PValues := [("a", some (1 / 100)), ("b", some (4 / 100)), ("c", some (3 / 100)), ("d", none)]

/-- The lower of two adjusted values runs down from the higher rank. -/
example : bhQValues fourTrials = [("a", some (3 / 100)), ("b", some (4 / 100)), ("c", some (4 / 100)), ("d", none)] := by decide +kernel

end TradingHarness
