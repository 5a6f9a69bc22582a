import Mathlib.Data.List.Dedup
import TradingHarness.Library.Json

set_option autoImplicit false

/-! # The minute document

`build_document` and `rows_of` (`minute_cross_section.py`): the rows of a minute as one columnar document,
and back. What `json.loads` reads of a dumped document is the document itself, as for every JSON value
with text keys, so the document stands for its stored text. -/

namespace TradingHarness

/-- `SCHEMA`. -/
def minuteSchema : String := "minute-cross-section-v1"

/-- `NESTED`: the fields that are flattened one level. -/
def nestedFields : List String := ["raw"]

/-- A row dictionary: no two fields of one name, at any depth. -/
def MinuteRow : Type := { fields : List (String × Json) // Json.distinct (.obj fields) = true }

/-! ## Paths and cells -/

/-- The paths of a field. A mapping under a nested field gives one for each of its keys. -/
def pathsOf (field : String × Json) : List (String × Json) :=
  match field with
  | (key, .obj fields) =>
    if key ∈ nestedFields then fields.map (fun sub => (key ++ "." ++ sub.1, sub.2))
    else [(key, .obj fields)]
  | (key, value) => [(key, value)]

def flatten (row : MinuteRow) : List (String × Json) := row.1.flatMap pathsOf

variable (rows : List MinuteRow) (path : String)

/-- `order`: every path, in the order of first appearance. -/
def pathOrder : List String :=
  ((rows.flatMap flatten).map Prod.fst).eraseDups

/-- What the row writes at a path; of several values the last one stays. -/
def cell (row : MinuteRow) (path : String) : Option Json := (flatten row).reverse.lookup path

def columnOf : List (Option Json) :=
  rows.map (fun row => cell row path)

/-! ## Columns -/

/-- A column of `None`s and texts. -/
def textOf : Json → Option (Option String)
  | .scalar .null => some none
  | .scalar (.str text) => some (some text)
  | _ => none

def ofText : Option String → Json
  | none => .scalar .null
  | some text => .scalar (.str text)

/-- An entry of `columns`. -/
inductive Encoded
  | values (values : List Json)
  | dict (entries : List (Option String)) (codes : List ℕ)

/-- `_encode`: a text column with few distinct values is dictionary-encoded. -/
def encodeColumn (column : List Json) : Encoded :=
  match column.mapM textOf with
  | some texts =>
    let distinct := texts.eraseDups
    if distinct.length ≤ max 16 (column.length / 4) then
      .dict distinct (texts.map (fun text => distinct.idxOf text))
    else .values column
  | none => .values column

/-- `_decode`. -/
def decodeColumn : Encoded → List Json
  | .values values => values
  | .dict entries codes => codes.map (fun code => ofText (entries[code]?.getD none))

/-! ## The document -/

structure MinuteDocument where
  schema : String
  observedAt : String
  rows : ℕ
  order : List String
  constants : List (String × Json)
  columns : List (String × Encoded)
  aliases : List (String × String)
  missing : List (String × List ℕ)
  metadata : List (String × Json)

/-- The parts that grow path by path. `seen` holds the columns whose texts were seen, with the path
    they were stored under. -/
structure DocumentParts where
  constants : List (String × Json) := []
  columns : List (String × Encoded) := []
  aliases : List (String × String) := []
  missing : List (String × List ℕ) := []
  seen : List (List Json × String) := []

/-- The rows a column is absent from. -/
def absentFrom (column : List (Option Json)) : List ℕ :=
  (List.range column.length).filter (fun position => decide (column[position]?.join.isNone))

def filled (column : List (Option Json)) : List Json := column.map (fun value => value.getD (.scalar .null))

/-- The value a constant column is stored as. -/
def firstOf : Json :=
  (filled (columnOf rows path)).head?.getD (.scalar .null)

/-- The path is stored as a constant: present in every row, with values equal to the first. -/
def IsConstant : Prop :=
  0 < rows.length ∧
    (filled (columnOf rows path)).all (fun value => value.looseEq (firstOf rows path)) = true ∧
    absentFrom (columnOf rows path) = []

instance (rows : List MinuteRow) (path : String) : Decidable (IsConstant rows path) := by
  unfold IsConstant
  infer_instance

/-- The parts with the rows a path is absent from. -/
def DocumentParts.noted (parts : DocumentParts) (path : String) (absent : List ℕ) : DocumentParts :=
  if absent = [] then parts else { parts with missing := parts.missing ++ [(path, absent)] }

/-- One path of `build_document`. Two columns have the same dumped text, keys sorted, when their values
    are the same. -/
def addPath (parts : DocumentParts) (path : String) : DocumentParts :=
  let column := filled (columnOf rows path)
  let parts := parts.noted path (absentFrom (columnOf rows path))
  if IsConstant rows path then
    { parts with constants := parts.constants ++ [(path, firstOf rows path)] }
  else
    match parts.seen.find? (fun entry => Json.sameItems entry.1 column) with
    | some entry => { parts with aliases := parts.aliases ++ [(path, entry.2)] }
    | none => { parts with
        seen := parts.seen ++ [(column, path)]
        columns := parts.columns ++ [(path, encodeColumn column)] }

def buildDocument (observedAt : String) (metadata : List (String × Json)) :
    MinuteDocument :=
  let parts := (pathOrder rows).foldl (addPath rows) {}
  { schema := minuteSchema
    observedAt := observedAt
    rows := rows.length
    order := pathOrder rows
    constants := parts.constants
    columns := parts.columns
    aliases := parts.aliases
    missing := parts.missing
    metadata := metadata }

/-! ## Rows again -/

inductive DecodeError
  | keyError
  | indexError
  | typeError

variable (document : MinuteDocument) (values : List (String × List Json)) (position : ℕ)

/-- The values by path: the columns, then the aliases in turn. -/
def columnValues : Except DecodeError (List (String × List Json)) :=
  document.aliases.foldlM (fun values entry =>
    match values.lookup entry.2 with
    | some column => .ok (Dict.set values entry.1 column)
    | none => .error .keyError)
    (document.columns.map (fun entry => (entry.1, decodeColumn entry.2)))

/-- `path.partition(".")`, without the separator. -/
def partitionDot : String × String :=
  (String.ofList (path.toList.takeWhile (fun c => decide (c ≠ '.'))),
    String.ofList ((path.toList.dropWhile (fun c => decide (c ≠ '.'))).drop 1))

/-- A value put back into its row. -/
def place (row : List (String × Json)) (entry : String × Json) :
    Except DecodeError (List (String × Json)) :=
  let (head, sub) := partitionDot entry.1
  if sub ≠ "" ∧ head ∈ nestedFields then
    match row.lookup head with
    | none => .ok (Dict.set row head (.obj [(sub, entry.2)]))
    | some (.obj fields) => .ok (Dict.set row head (.obj (Dict.set fields sub entry.2)))
    | some _ => .error .typeError
  else .ok (Dict.set row entry.1 entry.2)

/-- The value of a path in a row. -/
def storedValue (path : String) : Except DecodeError Json :=
  match document.constants.lookup path with
  | some value => .ok value
  | none =>
    match values.lookup path with
    | none => .error .keyError
    | some column =>
      match column[position]? with
      | none => .error .indexError
      | some value => .ok value

/-- The row at a position. -/
def rowAt :
    Except DecodeError (List (String × Json)) :=
  document.order.foldlM (fun row path =>
    if position ∈ (document.missing.lookup path).getD [] then .ok row
    else do
      let value ← storedValue document values position path
      place row (path, value)) []

/-- `rows_of`: the original rows, or those at some indices. -/
def rowsOf (indices : Option (List ℕ)) :
    Except DecodeError (List (List (String × Json))) := do
  let values ← columnValues document
  (indices.getD (List.range document.rows)).mapM (rowAt document values)

end TradingHarness
