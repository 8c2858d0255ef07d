import PiecewiseLinear.Evaluation.Extremum

/-!
# Columns

A column is a named sequence of cells of one type, some of which may be missing. Columns of
numbers are cast to doubles as a whole and columns of texts are read cell by cell; other columns
cannot be read.

- `ColumnType`, `Column`: the types and the columns.
- `Cast`, `nearestCast`: a way to cast a column of numbers, and the one in use.
- `Column.itemsBy`: the cells of a readable column as items of input.
- `Piecewise.resultColumnBy`, `Piecewise.columnExtremumBy`: the values and the extremum of a
  function over a column.
- `Piecewise.resultNamedBy`: the values over the column of a given name in a table.
-/

namespace PiecewiseLinear

/-- The type of a column: those that can be read, and any other one by its name. -/
inductive ColumnType where
  | float64
  | float32
  | int8
  | int16
  | int32
  | int64
  | uint8
  | uint16
  | uint32
  | uint64
  | string
  | other (name : String)
deriving DecidableEq, Repr

namespace ColumnType

/-! Some of the other types. -/

/-- Truth values. -/
@[match_pattern]
def boolean : ColumnType := other "bool"

/-- Days. -/
def date : ColumnType := other "date"

/-- Days with a time, in milliseconds. -/
def datetime : ColumnType := other "datetime[ms]"

/-- Lengths of time, in microseconds. -/
def duration : ColumnType := other "duration[μs]"

/-- Times of a day. -/
def time : ColumnType := other "time"

/-- Nothing but missing cells. -/
def null : ColumnType := other "null"

/-- Runs of bytes. -/
def binary : ColumnType := other "binary"

/-- Lists of integers. -/
def list : ColumnType := other "list[i64]"

/-- How a type is named in messages. -/
def label : ColumnType → String
  | float64 => "f64"
  | float32 => "f32"
  | int8 => "i8"
  | int16 => "i16"
  | int32 => "i32"
  | int64 => "i64"
  | uint8 => "u8"
  | uint16 => "u16"
  | uint32 => "u32"
  | uint64 => "u64"
  | string => "str"
  | other name => name

/-- Whether the cells of a type are numbers. -/
def isNumeric : ColumnType → Bool
  | float64 | float32 | int8 | int16 | int32 | int64 | uint8 | uint16 | uint32 | uint64 => true
  | _ => false

end ColumnType

/-- A named sequence of cells of one type. -/
structure Column where
  name : String
  type : ColumnType
  cells : List (Option Item)
deriving Repr

/-- Why a column cannot be evaluated. -/
inductive ColumnError where
  | input (e : InputError)
  | unreadable (column : String) (type : ColumnType)
  | missing (column : String)
deriving DecidableEq, Repr

/-- The error in words. -/
def ColumnError.message : ColumnError → String
  | input e => e.message
  | unreadable column type =>
    s!"Column '{column}' of type {type.label} cannot be read as real numbers"
  | missing column => s!"Column '{column}' not found"

/-- How the cells of a column of numbers are cast to doubles: a cell that may be missing becomes
a double that may be missing. -/
abbrev Cast := Option Item → Option Float

/-- The cast to the nearest double. -/
def nearestCast : Cast := fun cell => cell.bind Item.toFloat?

/-- The cells of a readable column as items of input. -/
def Column.itemsBy (cast : Cast) (column : Column) : Except ColumnError (List Item) :=
  if column.type = .string then .ok (column.cells.map .ofOption)
  else if column.type.isNumeric then
    .ok (column.cells.map fun cell => .ofOption ((cast cell).map .real))
  else .error (.unreadable column.name column.type)

/-- The values of a function over a column, which keep its name. -/
structure ResultColumn where
  name : String
  values : List (Option Float)

namespace Piecewise

/-- The values of a function over the cells of a column. -/
def columnValuesBy (cast : Cast) (f : Piecewise) (column : Column) :
    Except ColumnError (List (Option Float)) := do
  (f.evaluateAll (← column.itemsBy cast)).mapError .input

/-- The values of a function over a column, under its name. -/
def resultColumnBy (cast : Cast) (f : Piecewise) (column : Column) :
    Except ColumnError ResultColumn := do
  return ⟨column.name, ← f.columnValuesBy cast column⟩

/-- The values of a function over the column of a given name. -/
def resultNamedBy (cast : Cast) (f : Piecewise) (table : List Column) (name : String) :
    Except ColumnError ResultColumn :=
  match table.find? fun column => column.name = name with
  | some column => f.resultColumnBy cast column
  | none => .error (.missing name)

/-- The extremum of a function over the cells of a column. -/
def columnExtremumBy (cast : Cast) (f : Piecewise) (column : Column) (sense : Sense)
    (sentinel : Float) : Except ColumnError (Option Extremum) := do
  return sense.extremumOf (← f.columnValuesBy cast column) sentinel

/-! The same by the cast in use. -/

/-- The values over the cells of a column, cast to the nearest doubles. -/
def columnValues (f : Piecewise) (column : Column) : Except ColumnError (List (Option Float)) :=
  f.columnValuesBy nearestCast column

/-- The values over a column, cast to the nearest doubles, under its name. -/
def resultColumn (f : Piecewise) (column : Column) : Except ColumnError ResultColumn :=
  f.resultColumnBy nearestCast column

/-- The values over the column of a given name, cast to the nearest doubles. -/
def resultNamed (f : Piecewise) (table : List Column) (name : String) :
    Except ColumnError ResultColumn :=
  f.resultNamedBy nearestCast table name

/-- The extremum over the cells of a column, cast to the nearest doubles. -/
def columnExtremum (f : Piecewise) (column : Column) (sense : Sense) (sentinel : Float) :
    Except ColumnError (Option Extremum) :=
  f.columnExtremumBy nearestCast column sense sentinel

end Piecewise

end PiecewiseLinear
