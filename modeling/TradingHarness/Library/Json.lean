import Mathlib.Data.Rat.Defs
import TradingHarness.Library.Dict

set_option autoImplicit false

/-! # JSON values

Values as Python reads them: integers and floats are different types that may stand for the same
number, and the order of an object's fields does not matter to equality. `eqWith` compares two values
by a comparison of their scalars; `looseEq` is `==`, and `same` also asks for the same types. -/

inductive Json.Scalar
  | null
  | bool (value : Bool)
  | int (value : ℤ)
  | float (value : ℚ)
  | str (value : String)
  deriving DecidableEq

inductive Json
  | scalar (value : Json.Scalar)
  | arr (items : List Json)
  | obj (fields : List (String × Json))

namespace Json

/-! ## Equality -/

section Equality

variable (eq : Scalar → Scalar → Bool)

mutual

/-- Equality by a comparison of scalars. -/
def eqWith : Json → Json → Bool
  | .scalar x, .scalar y => eq x y
  | .arr xs, .arr ys => eqItems xs ys
  | .obj fields, .obj others =>
      eqFields fields others && others.all (fun other => fields.any (fun field => field.1 == other.1))
  | _, _ => false
termination_by structural value => value

def eqItems : List Json → List Json → Bool
  | [], [] => true
  | x :: xs, y :: ys => eqWith x y && eqItems xs ys
  | _, _ => false
termination_by structural items => items

/-- Every field has its equal among the others. -/
def eqFields : List (String × Json) → List (String × Json) → Bool
  | [], _ => true
  | field :: rest, others => eqField field others && eqFields rest others
termination_by structural fields => fields

def eqField : String × Json → List (String × Json) → Bool
  | (key, value), others =>
    match others.lookup key with
    | some other => eqWith value other
    | none => false
termination_by structural field => field

end

end Equality

/-- The number a scalar stands for. Booleans are 0 and 1. -/
def Scalar.number : Scalar → Option ℚ
  | .bool value => some (if value then 1 else 0)
  | .int value => some value
  | .float value => some value
  | _ => none

/-- `==` of scalars. -/
def Scalar.looseEq (a b : Scalar) : Bool :=
  match a.number, b.number with
  | some x, some y => decide (x = y)
  | none, none => decide (a = b)
  | _, _ => false

def Scalar.same (a b : Scalar) : Bool := decide (a = b)

/-- `==`. -/
def looseEq : Json → Json → Bool := eqWith Scalar.looseEq

/-- `==` of values whose types agree as well. -/
def same : Json → Json → Bool := eqWith Scalar.same

def sameItems : List Json → List Json → Bool := eqItems Scalar.same

/-! ## Well-formed values -/

mutual

/-- No object has two fields of one name. -/
def distinct : Json → Bool
  | .scalar _ => true
  | .arr items => distinctItems items
  | .obj fields => decide ((fields.map Prod.fst).Nodup) && distinctFields fields
termination_by structural value => value

def distinctItems : List Json → Bool
  | [] => true
  | item :: rest => distinct item && distinctItems rest
termination_by structural items => items

def distinctFields : List (String × Json) → Bool
  | [] => true
  | field :: rest => distinctField field && distinctFields rest
termination_by structural fields => fields

def distinctField : String × Json → Bool
  | (_, value) => distinct value
termination_by structural field => field

end

variable (fields others : List (String × Json))

theorem distinctFields_iff :
    distinctFields fields = true ↔ ∀ field ∈ fields, distinct field.2 = true := by
  induction fields with
  | nil => simp [distinctFields]
  | cons field rest ih =>
      obtain ⟨key, value⟩ := field
      simp [distinctFields, distinctField, ih]

/-! ## The lemmas -/

section Lemmas

variable {eq : Scalar → Scalar → Bool}

theorem eqFields_iff :
    eqFields eq fields others = true ↔ ∀ field ∈ fields,
      ∃ other, others.lookup field.1 = some other ∧ eqWith eq field.2 other = true := by
  induction fields with
  | nil => simp [eqFields]
  | cons field rest ih =>
      obtain ⟨key, value⟩ := field
      rw [eqFields, Bool.and_eq_true, ih, List.forall_mem_cons]
      refine and_congr_left (fun _ => ?_)
      rw [eqField]
      rcases others.lookup key with _ | other
      · simp
      · simp

theorem eqWith_obj_iff (hnodup : (fields.map Prod.fst).Nodup) :
    eqWith eq (.obj fields) (.obj others) = true ↔ ∀ key,
      Option.Rel (fun a b => eqWith eq a b = true) (fields.lookup key) (others.lookup key) := by
  rw [eqWith, Bool.and_eq_true, eqFields_iff, List.all_eq_true]
  constructor
  · rintro ⟨hfields, hothers⟩ key
    rcases hfound : fields.lookup key with _ | value
    · rcases hother : others.lookup key with _ | other
      · exact Option.Rel.none
      · have hany := hothers _ (Dict.mem_of_lookup others key other hother)
        rw [List.any_eq_true] at hany
        obtain ⟨field, hmem, hkey⟩ := hany
        rw [Dict.lookup_eq_none] at hfound
        exact absurd (List.mem_map.mpr ⟨field, hmem, eq_of_beq hkey⟩) hfound
    · obtain ⟨other, hother, hequal⟩ := hfields _ (Dict.mem_of_lookup fields key value hfound)
      rw [hother]
      exact Option.Rel.some hequal
  · intro h
    refine ⟨?_, ?_⟩
    · rintro ⟨key, value⟩ hmem
      have hrel := h key
      rw [Dict.lookup_of_mem fields key value hnodup hmem] at hrel
      rcases hother : others.lookup key with _ | other
      · rw [hother] at hrel
        exact absurd hrel (by rintro ⟨⟩)
      · rw [hother] at hrel
        rcases hrel with hequal | -
        exact ⟨other, rfl, hequal⟩
    · rintro ⟨key, other⟩ hmem
      have hrel := h key
      rw [List.any_eq_true]
      rcases hfound : fields.lookup key with _ | value
      · rw [hfound] at hrel
        rcases hother : others.lookup key with _ | found
        · rw [Dict.lookup_eq_none] at hother
          exact absurd (List.mem_map.mpr ⟨_, hmem, rfl⟩) hother
        · rw [hother] at hrel
          exact absurd hrel (by rintro ⟨⟩)
      · exact ⟨_, Dict.mem_of_lookup fields key value hfound, beq_self_eq_true key⟩

mutual

theorem eqWith_refl (heq : ∀ x, eq x x = true) :
    ∀ value : Json, distinct value = true → eqWith eq value value = true
  | .scalar x, _ => by
      rw [eqWith]
      exact heq x
  | .arr items, h => by
      rw [distinct] at h
      rw [eqWith]
      exact eqItems_refl heq items h
  | .obj fields, h => by
      rw [distinct, Bool.and_eq_true] at h
      rw [eqWith, Bool.and_eq_true]
      refine ⟨eqFields_refl heq fields fields h.2 ?_, ?_⟩
      · rintro ⟨key, value⟩ hmem
        exact Dict.lookup_of_mem fields key value (of_decide_eq_true h.1) hmem
      · rw [List.all_eq_true]
        intro field hmem
        rw [List.any_eq_true]
        exact ⟨field, hmem, beq_self_eq_true _⟩

theorem eqItems_refl (heq : ∀ x, eq x x = true) :
    ∀ items : List Json, distinctItems items = true → eqItems eq items items = true
  | [], _ => by rw [eqItems]
  | item :: rest, h => by
      rw [distinctItems, Bool.and_eq_true] at h
      rw [eqItems, Bool.and_eq_true]
      exact ⟨eqWith_refl heq item h.1, eqItems_refl heq rest h.2⟩

theorem eqFields_refl (heq : ∀ x, eq x x = true) :
    ∀ fields others : List (String × Json), distinctFields fields = true →
      (∀ field ∈ fields, others.lookup field.1 = some field.2) → eqFields eq fields others = true
  | [], _, _, _ => by rw [eqFields]
  | field :: rest, others, h, hlookup => by
      rw [distinctFields, Bool.and_eq_true] at h
      rw [List.forall_mem_cons] at hlookup
      rw [eqFields, Bool.and_eq_true]
      exact ⟨eqField_refl heq field others h.1 hlookup.1,
        eqFields_refl heq rest others h.2 hlookup.2⟩

theorem eqField_refl (heq : ∀ x, eq x x = true) :
    ∀ (field : String × Json) (others : List (String × Json)), distinctField field = true →
      others.lookup field.1 = some field.2 → eqField eq field others = true
  | (key, value), others, h, hlookup => by
      rw [distinctField] at h
      rw [eqField, hlookup]
      exact eqWith_refl heq value h

end

theorem eqItems_getElem? (items others : List Json) (h : eqItems eq items others = true)
    (position : ℕ) :
    Option.Rel (fun a b => eqWith eq a b = true) items[position]? others[position]? := by
  induction items generalizing others position with
  | nil =>
      rcases others with _ | ⟨other, rest⟩
      · exact Option.Rel.none
      · simp [eqItems] at h
  | cons item items ih =>
      rcases others with _ | ⟨other, rest⟩
      · simp [eqItems] at h
      · rw [eqItems, Bool.and_eq_true] at h
        rcases position with _ | position
        · exact Option.Rel.some h.1
        · exact ih rest h.2 position

end Lemmas

end Json
