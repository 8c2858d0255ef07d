import PiecewiseLinear.Evaluation.Column

/-!
# Comma-separated tables

A table is read from text with a record a line and commas between fields. The first record
names the columns. The type of a column is inferred from its first hundred fields.

- `splitRecords`: the raw fields of each record.
- `Field`: the content of a raw field, which may be quoted.
- `inferType`: the type that fits the contents of a column.
- `Delimited.column?`: the column of a given name, if the text holds a table with such a
  column and every field of it fits the type.

An empty field is missing, and so are fields beyond the end of a short record. A blank line
is a missing cell in a table of one column and is skipped in a wider one.
-/

namespace PiecewiseLinear

namespace Delimited

/-! ## Splitting -/

/-- What has been read: the field under way, the fields of its record and the records
before it, each in reverse. Inside quotes commas and line ends belong to the field. -/
structure SplitState where
  field : List Char
  inQuotes : Bool
  fields : List (List Char)
  records : List (List (List Char))

namespace SplitState

/-- Nothing read yet. -/
def start : SplitState := ⟨[], false, [], []⟩

/-- Whether the field under way began with a quote. -/
def isQuoted (s : SplitState) : Bool := s.field.getLast? = some '"'

/-- Ends the field under way. -/
def endField (s : SplitState) : SplitState :=
  { s with field := [], inQuotes := false, fields := s.field.reverse :: s.fields }

/-- Ends the record under way. A carriage return before the line end is no content. -/
def endRecord (s : SplitState) : SplitState :=
  let s := { s with field := if s.field.head? = some '\r' then s.field.tail else s.field }
  let s := s.endField
  { s with fields := [], records := s.fields.reverse :: s.records }

/-- Reads one more character. -/
def advance (s : SplitState) (c : Char) : SplitState :=
  let quotes := c = '"' && (s.field.isEmpty || s.isQuoted)
  if quotes then { s with field := c :: s.field, inQuotes := !s.inQuotes }
  else if s.inQuotes then { s with field := c :: s.field }
  else if c = ',' then s.endField
  else if c = '\n' then s.endRecord
  else { s with field := c :: s.field }

/-- The records, where the last line end may be missing. -/
def finish (s : SplitState) : List (List (List Char)) :=
  if s.field.isEmpty && s.fields.isEmpty then s.records.reverse else s.endRecord.records.reverse

end SplitState

/-- The raw fields of each record of a text. -/
def splitRecords (text : List Char) : List (List (List Char)) :=
  (text.foldl SplitState.advance .start).finish

/-! ## Fields -/

/-- A text in which doubled quotes stand for single ones. -/
def undoubled : List Char → List Char
  | '"' :: '"' :: rest => '"' :: undoubled rest
  | c :: rest => c :: undoubled rest
  | [] => []

/-- The content of a raw field: what stands between its quotes, if it has them. -/
def content (raw : List Char) : List Char :=
  match raw with
  | '"' :: c :: rest => undoubled ((c :: rest).dropLast)
  | raw => raw

/-- Whether a text is a decimal integer. -/
def isInteger (s : List Char) : Bool :=
  let digits := if s.head? = some '-' then s.tail else s
  !digits.isEmpty && digits.all Char.isDigit

/-- Whether a text is a decimal with a point or an exponent, an infinity or `NaN`. Unlike
numerals at large, a number with both must have digits after its point, and the words have
one spelling. -/
def isReal (s : List Char) : Bool :=
  let unsigned := if s.head? = some '-' || s.head? = some '+' then s.tail else s
  if unsigned = "inf".toList || unsigned = "NaN".toList then true
  else
    let isMark (c : Char) : Bool := c = '.' || c = 'e' || c = 'E'
    let afterPoint := (unsigned.dropWhile (· != '.')).tail
    match Decimal.scan unsigned with
    | some (_, []) =>
      unsigned.any isMark && !(afterPoint.head? = some 'e' || afterPoint.head? = some 'E')
    | _ => false

/-- Whether a text is a truth value, in any letter case. -/
def isTruth (s : List Char) : Bool :=
  let word := s.map Char.toLower
  word = "true".toList || word = "false".toList

/-- The type of a single content. -/
def typeOf (s : List Char) : ColumnType :=
  if isTruth s then .boolean
  else if isReal s then .float64
  else if isInteger s then .int64
  else .string

/-- The type that fits several contents: integers among reals are reals, and what does not
go together is text. -/
def inferType (contents : List (List Char)) : ColumnType :=
  match (contents.map typeOf).eraseDups with
  | [type] => type
  | [.int64, .float64] | [.float64, .int64] => .float64
  | _ => .string

/-- The integers of a column lie from minus this bound up to it, which they do not reach. -/
def int64Bound : Int := 9223372036854775808

/-- The cell of a content in a column of a type, if it fits. -/
def cell? (type : ColumnType) (s : List Char) : Option Item :=
  match type with
  | .int64 =>
    match (String.ofList s).toInt? with
    | some n => if -int64Bound ≤ n ∧ n < int64Bound then some (.int n) else none
    | none => none
  | .float64 => (Numeral.read? s).map fun n => .real n.toFloat
  | .boolean => if isTruth s then some (.text (String.ofList s)) else none
  | _ => some (.text (String.ofList s))

/-! ## Columns -/

/-- The names of columns from the first record. A name that was there before gets a mark
and a count. -/
def columnNames (header : List String) : List String :=
  header.zipIdx.map fun (name, i) =>
    match (header.take i).count name with
    | 0 => name
    | n + 1 => name ++ "_duplicated_" ++ toString n

/-- The raw field of a column in a record; none when the cell is missing. -/
def fieldAt (i : Nat) (record : List (List Char)) : Option (List Char) :=
  record[i]?.filter (!·.isEmpty)

/-- Whether a record is a blank line. -/
def isBlankLine (record : List (List Char)) : Bool := record == [[]]

/-- The column at a position among `width` columns. A table of one column has no room for
second fields. -/
def columnAt? (name : String) (i width : Nat) (records : List (List (List Char))) :
    Option Column :=
  let records := if width = 1 then records else records.filter (!isBlankLine ·)
  if width = 1 && records.any (1 < ·.length) then none
  else
    let raw := records.map (fieldAt i)
    let type := inferType ((raw.take 100).filterMap (·.map content))
    let cells := raw.mapM fun field =>
      match field with
      | none => some none
      | some field => (cell? type (content field)).map some
    cells.map fun cells => ⟨name, type, cells⟩

/-- A text without the mark of its byte order, and without blank lines at its head. -/
def withoutHead (text : List Char) : List Char :=
  let text := if text.head? = some '\ufeff' then text.tail else text
  text.dropWhile fun c => c = '\n' || c = '\r'

/-- The column of a name in a table, or nothing if the table cannot be read that far. -/
def column? (text : String) (name : String) : Option Column :=
  match splitRecords (withoutHead text.toList) with
  | [] => none
  | header :: records =>
    let names := columnNames (header.map fun raw => String.ofList (content raw))
    match names.idxOf? name with
    | some i => columnAt? name i names.length records
    | none => none

end Delimited

end PiecewiseLinear
