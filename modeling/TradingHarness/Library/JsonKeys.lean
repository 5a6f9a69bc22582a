import Mathlib.Data.List.Sort
import TradingHarness.Library.JsonText

set_option autoImplicit false

/-! # Texts with sorted keys

The fields of an object may stand in any order. The text with sorted keys is one for all of them, and it is
read back as the value with its keys sorted. -/

namespace JsonText

/-! ## Sorted keys -/

/-- The order of two fields is that of their keys. -/
def keyLe (first second : List Char × Value) : Prop := first.1 ≤ second.1

instance : DecidableRel keyLe := fun first second => inferInstanceAs (Decidable (first.1 ≤ second.1))

mutual

/-- The value with the keys of all its objects sorted. -/
def sortKeys : Value → Value
  | .word text => .word text
  | .str text => .str text
  | .arr items => .arr (sortItems items)
  | .obj fields => .obj ((sortFields fields).insertionSort keyLe)
termination_by structural value => value

def sortItems : List Value → List Value
  | [] => []
  | item :: rest => sortKeys item :: sortItems rest
termination_by structural items => items

def sortFields : List (List Char × Value) → List (List Char × Value)
  | [] => []
  | field :: rest => sortField field :: sortFields rest
termination_by structural fields => fields

def sortField : List Char × Value → List Char × Value
  | (key, value) => (key, sortKeys value)
termination_by structural field => field

end

/-- The compact text with sorted keys. -/
def canonical (value : Value) : List Char := dumps (sortKeys value)

/-! ## Fields -/

section

variable (fields : List (List Char × Value))

theorem isFields_iff :
    isFields fields = true ↔ ∀ field ∈ fields, isValue field.2 = true := by
  induction fields with
  | nil =>
      rw [isFields]
      exact ⟨fun _ field hfield => absurd hfield List.not_mem_nil, fun _ => rfl⟩
  | cons field rest ih =>
      obtain ⟨key, value⟩ := field
      rw [isFields, isField, Bool.and_eq_true, ih, List.forall_mem_cons]

theorem wellFormedFields_iff :
    wellFormedFields fields = true ↔ ∀ field ∈ fields, wellFormed field.2 = true := by
  induction fields with
  | nil =>
      rw [wellFormedFields]
      exact ⟨fun _ field hfield => absurd hfield List.not_mem_nil, fun _ => rfl⟩
  | cons field rest ih =>
      obtain ⟨key, value⟩ := field
      rw [wellFormedFields, wellFormedField, Bool.and_eq_true, ih, List.forall_mem_cons]

theorem sortFields_eq :
    sortFields fields = fields.map (fun field => (field.1, sortKeys field.2)) := by
  induction fields with
  | nil =>
      rw [sortFields]
      rfl
  | cons field rest ih =>
      obtain ⟨key, value⟩ := field
      rw [sortFields, sortField, ih, List.map_cons]

theorem keys_sortFields :
    (sortFields fields).map Prod.fst = fields.map Prod.fst := by
  rw [sortFields_eq, List.map_map]
  rfl

end

instance : Std.Total keyLe := ⟨fun first second => le_total first.1 second.1⟩

instance : IsTrans (List Char × Value) keyLe := ⟨fun _ _ _ hfirst hsecond => le_trans hfirst hsecond⟩

theorem ascending_insertionSort (fields : List (List Char × Value)) (h : (fields.map Prod.fst).Nodup) :
    ((fields.insertionSort keyLe).map Prod.fst).Pairwise (· < ·) := by
  have hsorted : (fields.insertionSort keyLe).Pairwise keyLe := List.pairwise_insertionSort keyLe fields
  have hnodup : ((fields.insertionSort keyLe).map Prod.fst).Nodup :=
    ((List.perm_insertionSort keyLe fields).map Prod.fst).nodup_iff.mpr h
  have hle : ((fields.insertionSort keyLe).map Prod.fst).Pairwise (· ≤ ·) :=
    List.pairwise_map.mpr hsorted
  exact hle.imp₂ (fun _ _ hle hne => lt_of_le_of_ne hle hne) hnodup

/-! ## Sorting -/

mutual

theorem wellFormed_sortKeys : ∀ value : Value, isValue value = true → wellFormed (sortKeys value) = true
  | .word text, h => by
      rw [isValue] at h
      rw [sortKeys, wellFormed]
      exact h
  | .str text, _ => by
      rw [sortKeys, wellFormed]
  | .arr items, h => by
      rw [isValue] at h
      rw [sortKeys, wellFormed]
      exact wellFormed_sortItems items h
  | .obj fields, h => by
      rw [isValue, Bool.and_eq_true] at h
      rw [sortKeys, wellFormed, Bool.and_eq_true]
      constructor
      · have hfields := (wellFormedFields_iff _).mp (wellFormed_sortFields fields h.1)
        rw [wellFormedFields_iff]
        exact fun field hfield => hfields field (List.mem_insertionSort keyLe |>.mp hfield)
      · refine decide_eq_true (ascending_insertionSort _ ?_)
        rw [keys_sortFields]
        exact of_decide_eq_true h.2

theorem wellFormed_sortItems : ∀ items : List Value, isValues items = true →
    wellFormedItems (sortItems items) = true
  | [], _ => by
      rw [sortItems, wellFormedItems]
  | item :: rest, h => by
      rw [isValues, Bool.and_eq_true] at h
      rw [sortItems, wellFormedItems, wellFormed_sortKeys item h.1, wellFormed_sortItems rest h.2,
        Bool.and_self]

theorem wellFormed_sortFields : ∀ fields : List (List Char × Value), isFields fields = true →
    wellFormedFields (sortFields fields) = true
  | [], _ => by
      rw [sortFields, wellFormedFields]
  | field :: rest, h => by
      rw [isFields, Bool.and_eq_true] at h
      rw [sortFields, wellFormedFields, wellFormed_sortField field h.1, wellFormed_sortFields rest h.2,
        Bool.and_self]

theorem wellFormed_sortField : ∀ field : List Char × Value, isField field = true →
    wellFormedField (sortField field) = true
  | (key, value), h => by
      rw [isField] at h
      rw [sortField, wellFormedField]
      exact wellFormed_sortKeys value h

end

mutual

theorem sortKeys_of_wellFormed : ∀ value : Value, wellFormed value = true → sortKeys value = value
  | .word text, _ => by
      rw [sortKeys]
  | .str text, _ => by
      rw [sortKeys]
  | .arr items, h => by
      rw [wellFormed] at h
      rw [sortKeys, sortItems_of_wellFormed items h]
  | .obj fields, h => by
      rw [wellFormed, Bool.and_eq_true] at h
      have hsorted : fields.Pairwise keyLe :=
        (List.pairwise_map.mp (of_decide_eq_true h.2)).imp (fun hlt => le_of_lt hlt)
      rw [sortKeys, sortFields_of_wellFormed fields h.1, hsorted.insertionSort_eq]

theorem sortItems_of_wellFormed : ∀ items : List Value, wellFormedItems items = true →
    sortItems items = items
  | [], _ => by
      rw [sortItems]
  | item :: rest, h => by
      rw [wellFormedItems, Bool.and_eq_true] at h
      rw [sortItems, sortKeys_of_wellFormed item h.1, sortItems_of_wellFormed rest h.2]

theorem sortFields_of_wellFormed : ∀ fields : List (List Char × Value), wellFormedFields fields = true →
    sortFields fields = fields
  | [], _ => by
      rw [sortFields]
  | field :: rest, h => by
      rw [wellFormedFields, Bool.and_eq_true] at h
      rw [sortFields, sortField_of_wellFormed field h.1, sortFields_of_wellFormed rest h.2]

theorem sortField_of_wellFormed : ∀ field : List Char × Value, wellFormedField field = true →
    sortField field = field
  | (key, value), h => by
      rw [wellFormedField] at h
      rw [sortField, sortKeys_of_wellFormed value h]

end

theorem canonical_of_wellFormed (value : Value) (h : wellFormed value = true) :
    canonical value = dumps value := by
  unfold canonical
  rw [sortKeys_of_wellFormed value h]

theorem canonical_sortKeys (value : Value) (h : isValue value = true) :
    canonical (sortKeys value) = canonical value :=
  canonical_of_wellFormed _ (wellFormed_sortKeys value h)

/-- **The text with sorted keys is read back as the value with its keys sorted.** -/
theorem loads_canonical (value : Value) (h : isValue value = true) :
    loads (canonical value) = some (sortKeys value) :=
  loads_dumps (sortKeys value) (isValue_of_wellFormed _ (wellFormed_sortKeys value h))

theorem lookup_sortKeys (fields : List (List Char × Value)) (key : List Char)
    (h : (fields.map Prod.fst).Nodup) :
    ((sortFields fields).insertionSort keyLe).lookup key = (fields.lookup key).map sortKeys := by
  have hperm := List.perm_insertionSort keyLe (sortFields fields)
  have hnodup : (((sortFields fields).insertionSort keyLe).map Prod.fst).Nodup := by
    rw [(hperm.map Prod.fst).nodup_iff, keys_sortFields]
    exact h
  rcases hlookup : fields.lookup key with _ | value
  · rw [Option.map_none, Dict.lookup_eq_none, (hperm.map Prod.fst).mem_iff, keys_sortFields,
      ← Dict.lookup_eq_none]
    exact hlookup
  · rw [Option.map_some]
    refine Dict.lookup_of_mem _ _ _ hnodup (hperm.mem_iff.mpr ?_)
    rw [sortFields_eq]
    exact List.mem_map.mpr ⟨(key, value), Dict.mem_of_lookup fields key value hlookup, rfl⟩

/-! ## Characters outside ASCII -/

theorem isBare_narrow (char : Char) (h : isBare char = true) : char.toNat < 128 := by
  unfold isBare at h
  simp only [Bool.or_eq_true, beq_iff_eq] at h
  rcases h with ((h | rfl) | rfl) | rfl
  · unfold Char.isAlphanum Char.isAlpha Char.isUpper Char.isLower Char.isDigit at h
    simp only [Bool.or_eq_true, Bool.and_eq_true, decide_eq_true_eq, ge_iff_le, UInt32.le_iff_toNat_le] at h
    have hval : char.val.toNat = char.toNat := rfl
    rw [hval] at h
    rcases h with (⟨-, h⟩ | ⟨-, h⟩) | ⟨-, h⟩
    · exact Nat.lt_of_le_of_lt h (by decide)
    · exact Nat.lt_of_le_of_lt h (by decide)
    · exact Nat.lt_of_le_of_lt h (by decide)
  · decide
  · decide
  · decide

section Wide

variable (char : Char) (h : 128 ≤ char.toNat)
include h

theorem escape_wide : escape char = [char] := by
  have hne : ∀ other : Char, other.toNat < 128 → char ≠ other := by
    rintro other hother rfl
    omega
  unfold escape
  rw [if_neg (hne '"' (by decide)), if_neg (hne '\\' (by decide)), if_neg (hne '\n' (by decide)),
    if_neg (hne '\r' (by decide)), if_neg (hne '\t' (by decide)), if_neg (by omega), if_neg (by omega),
    if_neg (by omega)]

theorem not_mem_escape (other : Char) (hother : other.toNat < 128) : char ∉ escape other := by
  have hne : ∀ other : Char, other.toNat < 128 → char ≠ other := by
    rintro other hother rfl
    omega
  have hhex : ∀ number < 16, (hexDigit number).toNat < 128 := by decide
  have hpair : ∀ first second : Char, first.toNat < 128 → second.toNat < 128 →
      char ∉ [first, second] := by
    intro first second hfirst hsecond hmem
    simp only [List.mem_cons, List.not_mem_nil, or_false] at hmem
    exact hmem.elim (hne first hfirst) (hne second hsecond)
  unfold escape
  split_ifs with hquote hslash hn hr ht hb hf hcontrol
  · exact hpair '\\' '"' (by decide) (by decide)
  · exact hpair '\\' '\\' (by decide) (by decide)
  · exact hpair '\\' 'n' (by decide) (by decide)
  · exact hpair '\\' 'r' (by decide) (by decide)
  · exact hpair '\\' 't' (by decide) (by decide)
  · exact hpair '\\' 'b' (by decide) (by decide)
  · exact hpair '\\' 'f' (by decide) (by decide)
  · simp only [List.mem_cons, List.not_mem_nil, or_false, not_or]
    exact ⟨hne _ (by decide), hne _ (by decide), hne _ (by decide), hne _ (by decide),
      hne _ (hhex _ (by omega)), hne _ (hhex _ (by omega))⟩
  · rw [List.mem_singleton]
    exact hne other hother

theorem mem_dumpsString (text : List Char) : char ∈ dumpsString text ↔ char ∈ text := by
  have hquote : char ≠ '"' := by
    rintro rfl
    exact absurd h (by decide)
  unfold dumpsString
  rw [List.mem_cons, List.mem_append, List.mem_singleton, List.mem_flatMap]
  constructor
  · rintro (heq | ⟨other, hother, hmem⟩ | heq)
    · exact absurd heq hquote
    · by_cases hwide : 128 ≤ other.toNat
      · rw [escape_wide other hwide, List.mem_singleton] at hmem
        rw [hmem]
        exact hother
      · exact absurd hmem (not_mem_escape char h other (by omega))
    · exact absurd heq hquote
  · intro hmem
    refine Or.inr (Or.inl ⟨char, hmem, ?_⟩)
    rw [escape_wide char h]
    exact List.mem_singleton_self char

section

variable (fields : List (List Char × Value))

theorem mem_dumpsFields :
    char ∈ dumpsFields fields ↔ ∃ field ∈ fields, char ∈ field.1 ∨ char ∈ dumps field.2 := by
  have hne : ∀ other : Char, other.toNat < 128 → char ≠ other := by
    rintro other hother rfl
    omega
  induction fields with
  | nil =>
      rw [dumpsFields]
      simp
  | cons field rest ih =>
      obtain ⟨key, value⟩ := field
      rw [dumpsFields, dumpsField]
      simp only [List.mem_cons, List.mem_append, hne ',' (by decide), hne ':' (by decide), false_or,
        mem_dumpsString char h, exists_eq_or_imp]
      exact or_congr Iff.rfl ih

theorem mem_dumps_obj :
    char ∈ dumps (.obj fields) ↔ ∃ field ∈ fields, char ∈ field.1 ∨ char ∈ dumps field.2 := by
  have hne : ∀ other : Char, other.toNat < 128 → char ≠ other := by
    rintro other hother rfl
    omega
  rw [dumps, List.mem_cons, List.mem_append, List.mem_singleton, ← mem_dumpsFields char h]
  simp only [hne '{' (by decide), hne '}' (by decide), false_or, or_false]
  cases fields with
  | nil => rw [dumpsFields, List.drop_nil]
  | cons field rest =>
      rw [dumpsFields, List.drop_succ_cons, List.drop_zero, List.mem_cons]
      simp only [hne ',' (by decide), false_or]

theorem mem_canonical_obj :
    char ∈ canonical (.obj fields) ↔ ∃ field ∈ fields, char ∈ field.1 ∨ char ∈ canonical field.2 := by
  unfold canonical
  rw [sortKeys, mem_dumps_obj char h]
  have hmem : ∀ field, field ∈ (sortFields fields).insertionSort keyLe
      ↔ ∃ other ∈ fields, (other.1, sortKeys other.2) = field := by
    intro field
    rw [List.mem_insertionSort, sortFields_eq, List.mem_map]
  constructor
  · rintro ⟨field, hfield, hchar⟩
    obtain ⟨other, hother, rfl⟩ := (hmem field).mp hfield
    exact ⟨other, hother, hchar⟩
  · rintro ⟨field, hfield, hchar⟩
    exact ⟨_, (hmem _).mpr ⟨field, hfield, rfl⟩, hchar⟩

end

theorem mem_canonical_str (text : List Char) : char ∈ canonical (.str text) ↔ char ∈ text := by
  unfold canonical
  rw [sortKeys, dumps, mem_dumpsString char h]

theorem not_mem_word (text : List Char) (hword : isWord text = true) : char ∉ text := by
  intro hmem
  unfold isWord at hword
  rw [Bool.and_eq_true, List.all_eq_true] at hword
  have hbare := isBare_narrow char (hword.1 char hmem)
  omega

end Wide

end JsonText
