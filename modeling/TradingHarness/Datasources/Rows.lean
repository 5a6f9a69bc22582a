import TradingHarness.Library.Dict
import TradingHarness.Tdx.Records

set_option autoImplicit false

/-! # Rows of a source

What a fetcher may return, how its rows are counted (`_row_count`), and how they are projected into the field
names of the capability (`_normalise_rows`). -/

namespace TradingHarness

/-! ## Values -/

/-- A value of a source. An object of any other kind has no length and equals itself only. -/
inductive RowValue
  | none
  | bool (value : Bool)
  | int (value : ℤ)
  | float (value : FloatValue)
  | decimal (value : FloatValue)
  | str (text : List Char)
  | list (items : List RowValue)
  | tuple (items : List RowValue)
  | dict (fields : List (String × RowValue))
  | object (identity : ℕ)

/-- `len(value)`, where the value has one. -/
def RowValue.length : RowValue → Option ℕ
  | .str text => some text.length
  | .list items => some items.length
  | .tuple items => some items.length
  | .dict fields => some fields.length
  | _ => Option.none

/-- `_row_count`. Of a tuple the first item is counted. -/
def RowValue.rowCount : RowValue → Option ℕ
  | .tuple (first :: _) => first.length
  | rows => rows.length

/-- The number that a value stands for. -/
def RowValue.number : RowValue → Option FloatValue
  | .bool value => some (.finite (if value then 1 else 0))
  | .int value => some (.finite value)
  | .float value => some value
  | .decimal value => some value
  | _ => Option.none

/-- `==` of numbers. -/
def FloatValue.looseEq : FloatValue → FloatValue → Bool
  | .finite x, .finite y => decide (x = y)
  | .infinite x, .infinite y => x == y
  | _, _ => false

/-- `==` of values that hold no others. -/
def RowValue.atomEq : RowValue → RowValue → Bool
  | .none, .none => true
  | .str text, .str other => decide (text = other)
  | .object identity, .object other => identity == other
  | left, right =>
    match left.number, right.number with
    | some x, some y => x.looseEq y
    | _, _ => false

mutual

/-- `==`. -/
def RowValue.looseEq : RowValue → RowValue → Bool
  | .list items, .list others => looseEqItems items others
  | .tuple items, .tuple others => looseEqItems items others
  | .dict fields, .dict others =>
      looseEqFields fields others && others.all (fun other => fields.any (fun field => field.1 == other.1))
  | left, right => left.atomEq right
termination_by structural left => left

def looseEqItems : List RowValue → List RowValue → Bool
  | [], [] => true
  | item :: items, other :: others => item.looseEq other && looseEqItems items others
  | _, _ => false
termination_by structural items => items

def looseEqFields : List (String × RowValue) → List (String × RowValue) → Bool
  | [], _ => true
  | field :: rest, others => looseEqField field others && looseEqFields rest others
termination_by structural fields => fields

def looseEqField : String × RowValue → List (String × RowValue) → Bool
  | (name, value), others =>
    match others.lookup name with
    | some other => value.looseEq other
    | Option.none => false
termination_by structural field => field

end

def sameValue : RowValue → RowValue → Bool
  | .float .nan, .float .nan => true
  | left, right => left.looseEq right

def RowValue.isNumber : RowValue → Bool
  | .int _ | .float _ | .decimal _ => true
  | _ => false

/-! ## The projection -/

/-- The factor of a unit, an integer or a float. -/
inductive Factor
  | int (value : ℤ)
  | float (value : ℚ)

def Factor.value : Factor → ℚ
  | .int value => value
  | .float value => value

/-- The exception that a projection raises. -/
structure RowError where
  name : List Char
  text : List Char

def FloatValue.scale : FloatValue → ℚ → FloatValue
  | .finite value, factor => .finite (value * factor)
  | .infinite negative, factor => .infinite (xor negative (decide (factor < 0)))
  | .nan, _ => .nan

/-- `_scaled`. An integer beyond the floats does not go with a float. -/
def scaled : RowValue → Factor → Except RowError RowValue
  | .int value, .int factor => .ok (.int (value * factor))
  | .int value, .float factor =>
    if 2 ^ 1024 - 2 ^ 970 ≤ value.natAbs then
      .error ⟨"OverflowError".toList, "int too large to convert to float".toList⟩
    else .ok (.float (.finite (value * factor)))
  | .float value, factor => .ok (.float (value.scale factor.value))
  | .decimal value, factor => .ok (.decimal (value.scale factor.value))
  | value, _ => .ok value

/-- What the resolver uses of a `BindingSpec`: two dictionaries. -/
structure BindingSpec where
  fieldMap : List (String × String)
  unitFactors : List (String × Factor)

/-- Why the result of a projection is not trusted. -/
inductive ProjectionFault
  | conflicted
  | invalid

structure Normalised where
  rows : RowValue
  canonical : Bool
  warnings : List (List Char) := []
  status : Option ProjectionFault := none

/-- The variables of the projection, with the row it is at. -/
structure Projection where
  row : List (String × RowValue) := []
  rows : List RowValue := []
  warnings : List (List Char) := []
  conflicted : Bool := false
  invalid : Bool := false
  matched : Bool

/-- A native field is written under its canonical name, unless another value stands there. -/
def mapField (source : List (String × RowValue)) (state : Projection) (entry : String × String) : Projection :=
  match source.lookup entry.1 with
  | none => state
  | some value =>
    if (state.row.lookup entry.2).any (fun other => !sameValue other value) then
      { state with
        matched := true
        warnings := state.warnings ++ ["field_map_conflict:".toList ++ entry.2.toList]
        conflicted := true }
    else { state with matched := true, row := Dict.set state.row entry.2 value }

def scaleField (state : Projection) (entry : String × Factor) : Except RowError Projection :=
  match state.row.lookup entry.1 with
  | none | some .none => .ok state
  | some value =>
    if value.isNumber then
      (scaled value entry.2).map (fun value => { state with row := Dict.set state.row entry.1 value })
    else
      .ok { state with
        warnings := state.warnings ++ ["unit_factor_skipped:".toList ++ entry.1.toList]
        invalid := true }

def projectRow (spec : BindingSpec) (state : Projection) (source : List (String × RowValue)) :
    Except RowError Projection := do
  let native := source.filter (fun field => !(spec.fieldMap.any (fun entry => entry.1 == field.1)))
  let mapped := spec.fieldMap.foldl (mapField source) { state with row := native }
  let projected ← spec.unitFactors.foldlM scaleField mapped
  return { projected with rows := projected.rows ++ [.dict projected.row] }

/-- The dictionaries of a list or a tuple that holds nothing else. -/
def dictRows : RowValue → Option (List (List (String × RowValue)))
  | .list items | .tuple items =>
    items.mapM (fun item =>
      match item with
      | .dict fields => some fields
      | _ => none)
  | _ => none

/-- The rows in a container of the type of others. -/
def RowValue.withItems : RowValue → List RowValue → RowValue
  | .tuple _, items => .tuple items
  | _, items => .list items

def normaliseRows (rows : RowValue) (spec : Option BindingSpec) : Except RowError Normalised :=
  match spec with
  | none => .ok { rows := rows, canonical := false }
  | some spec =>
    match dictRows rows with
    | none => .ok { rows := rows, canonical := false, warnings := ["rows_not_normalised".toList] }
    | some [] => .ok { rows := rows, canonical := false }
    | some sources => do
      let state ← sources.foldlM (projectRow spec) { matched := spec.fieldMap.isEmpty }
      if !state.matched then
        return { rows := rows, canonical := false, warnings := ["field_map_unmatched".toList] }
      return {
        rows := rows.withItems state.rows
        canonical := true
        warnings := state.warnings.eraseDups
        status :=
          if state.conflicted then some .conflicted else if state.invalid then some .invalid else none }

end TradingHarness
