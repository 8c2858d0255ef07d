import PiecewiseLinear.Command.Arguments
import PiecewiseLinear.Piecewise.Compile
import PiecewiseLinear.Report
import PiecewiseLinear.Table.Delimited

/-!
# The command

The command reads a definition, evaluates it over inline values or over a column of a
table, and reports the branches, the values and the extrema.

- `Outcome`: what a run leaves behind.
- `Command.loadColumn`: the column of a table.
- `Command.run`: a run on given files and arguments.
- `Command.paths`: the files that a run may look at.

A failure is told as the step that failed and, below it, what caused that, outermost first.

Of the formats of tables only delimited text is read. Reading parquet, ipc and arrow files is
left out: every such file is refused, in words of this module.
-/

namespace PiecewiseLinear.Command

/-- What a run leaves behind: its exit code and what it wrote to its two outputs. -/
structure Outcome where
  exit : Nat
  output : String
  error : String
deriving DecidableEq, Repr

/-- Why a run fails: what failed, and its causes from the outermost inwards. -/
structure Trouble where
  summary : String
  causes : List String
deriving DecidableEq, Repr

namespace Trouble

/-- The lines about causes: a single one stands alone, several are numbered. -/
def causeLines : List String → List String
  | [] => []
  | [cause] => ["", "Caused by:", "    " ++ cause]
  | causes =>
    ["", "Caused by:"] ++ causes.zipIdx.map fun (cause, i) => "    " ++ toString i ++ ": " ++ cause

/-- The trouble in lines of text, each ended. -/
def text (t : Trouble) : String :=
  String.join ((("Error: " ++ t.summary) :: causeLines t.causes).map (· ++ "\n"))

end Trouble

/-- The files that can be read, by path. -/
abbrev Files := String → Option String

/-- What is said of a file that is not there. -/
def noSuchFile : String := "No such file or directory (os error 2)"

/-- The last component of a path. -/
def fileName (path : List Char) : List Char := (path.reverse.takeWhile (· != '/')).reverse

/-- The part of a file name behind its last point, unless that point begins the name. -/
def extension? (path : String) : Option String :=
  let name := fileName path.toList
  let stem := (name.reverse.dropWhile (· != '.')).drop 1
  if stem.isEmpty || name = "..".toList then none
  else some (String.ofList (name.reverse.takeWhile (· != '.')).reverse)

/-- Loads a column of the table in a file, or tells why that is impossible. The format goes by the
extension. Parquet, ipc and arrow files are refused whatever they hold, since reading them is left
out; the words for that, and for a table without such a column, are of this module alone. -/
def loadColumn (files : Files) (path column : String) : Except String Column :=
  match extension? path with
  | none => .error "cannot infer the input format without a file extension"
  | some "csv" =>
    match files path with
    | none => .error noSuchFile
    | some text =>
      match Delimited.column? text column with
      | some loaded => .ok loaded
      | none => .error "the table has no such column of one type"
  | some "parquet" | some "ipc" | some "arrow" => .error "the table is not in this format"
  | some ext => .error s!"unsupported input format `.{ext}` (expected parquet, csv or ipc)"

/-- The values of a function over what the arguments name. -/
def evaluate (files : Files) (args : Arguments) (f : Piecewise) :
    Except Trouble (List (Option Float)) :=
  match args.input, args.column with
  | some path, some column => do
    let loaded ← (loadColumn files path column).mapError fun cause =>
      ⟨s!"Failed to load column `{column}` of {path}", [cause]⟩
    (f.columnValues loaded).mapError fun e => ⟨e.message, []⟩
  | _, _ => (f.evaluateAll (args.values.map Item.text)).mapError fun e => ⟨e.message, []⟩

/-- The definition in the file that the arguments name. -/
def readDefinition (files : Files) (path : String) : Except Trouble Definition := do
  match files path with
  | none => .error ⟨s!"Failed to read {path}", [noSuchFile]⟩
  | some source =>
    let f ← (Script.Function.parse source).mapError fun e =>
      (⟨s!"Failed to parse {path}", [e.message]⟩ : Trouble)
    f.definition.mapError fun e => ⟨e.message, []⟩

/-- The report that the arguments ask for. -/
def report (files : Files) (args : Arguments) : Except Trouble Report := do
  let d ← readDefinition files args.definition
  let f ← d.compile.mapError fun e =>
    (⟨s!"Failed to compile {d.name}", [e.message, e.cause]⟩ : Trouble)
  let values ← evaluate files args f
  return Report.make d.name f values args.minSentinel args.maxSentinel

/-- A report in the format that was asked for. -/
def rendered (format : Format) (r : Report) : String :=
  match format with
  | .text => r.text
  | .json => r.json.pretty ++ "\n"

/-- A run on given files and arguments. -/
def run (files : Files) (args : List String) : Outcome :=
  match Arguments.parse args with
  | .error .help => ⟨0, helpText, ""⟩
  | .error .usage => ⟨2, "", "Usage: piecewise [OPTIONS] <DEFINITION>\n"⟩
  | .ok args =>
    match report files args with
    | .ok r => ⟨0, rendered args.format r, ""⟩
    | .error t => ⟨1, "", t.text⟩

/-- The files that a run may look at. -/
def paths (args : List String) : List String :=
  match Arguments.parse args with
  | .ok args => args.definition :: args.input.toList
  | .error _ => []

end PiecewiseLinear.Command
