import PiecewiseLinear.Number.Decimal

/-!
# Arguments of the command

The command takes the file of a definition and options. An option that takes a value takes
it from behind an equals sign or from the next argument.

- `Arguments`: what the command is told.
- `Arguments.parse`: reading a list of arguments.
- `helpText`: what the command says about itself.

Each option but `--values` may be given once. The values of `--values` are separated by
commas. A next argument that begins with a dash is a value only for the options whose
values may be negative numbers.
-/

namespace PiecewiseLinear.Command

/-- How the report is written. -/
inductive Format where
  | text
  | json
deriving DecidableEq, Repr

/-- What the command is told. -/
structure Arguments where
  definition : String
  values : List String
  input : Option String
  column : Option String
  minSentinel : Float
  maxSentinel : Float
  format : Format
deriving Repr

/-- Why the command does not run: it was asked for help, or it was not asked properly. -/
inductive Refusal where
  | help
  | usage
deriving DecidableEq, Repr

/-- The options that take a value. -/
inductive Key where
  | values
  | input
  | column
  | minSentinel
  | maxSentinel
  | format
deriving DecidableEq, Repr

namespace Key

/-- The option of a name. -/
def ofName? : String → Option Key
  | "values" => some values
  | "input" => some input
  | "column" => some column
  | "min-sentinel" => some minSentinel
  | "max-sentinel" => some maxSentinel
  | "format" => some format
  | _ => none

/-- Whether the next argument is the value even when it begins with a dash. -/
def takesDashes : Key → Bool
  | values | minSentinel | maxSentinel => true
  | _ => false

end Key

/-- What the arguments read so far have said. -/
structure Given where
  definition : Option String
  values : Option (List String)
  input : Option String
  column : Option String
  minSentinel : Option Float
  maxSentinel : Option Float
  format : Option Format

namespace Given

/-- Nothing said yet. -/
def nothing : Given := ⟨none, none, none, none, none, none, none⟩

/-- A text split at commas. -/
def splitCommas (s : List Char) : List (List Char) :=
  s.foldr
    (fun c parts =>
      if c = ',' then [] :: parts
      else
        match parts with
        | part :: rest => (c :: part) :: rest
        | [] => [[c]])
    [[]]

/-- The number that an option's value is. -/
def number (value : String) : Except Refusal Float :=
  match Numeral.read? value.toList with
  | some n => .ok n.toFloat
  | none => .error .usage

/-- Refuses what is said a second time. -/
def once {α : Type} (before : Option α) (value : α) : Except Refusal (Option α) :=
  match before with
  | none => .ok (some value)
  | some _ => .error .usage

/-- Takes in the value of an option. -/
def setKey (given : Given) (key : Key) (value : String) : Except Refusal Given := do
  match key with
  | .values =>
    let parts := (splitCommas value.toList).map String.ofList
    return { given with values := some (given.values.getD [] ++ parts) }
  | .input =>
    if value.isEmpty then .error .usage
    else return { given with input := ← once given.input value }
  | .column => return { given with column := ← once given.column value }
  | .minSentinel => return { given with minSentinel := ← once given.minSentinel (← number value) }
  | .maxSentinel => return { given with maxSentinel := ← once given.maxSentinel (← number value) }
  | .format =>
    match value with
    | "text" => return { given with format := ← once given.format .text }
    | "json" => return { given with format := ← once given.format .json }
    | _ => .error .usage

/-- Takes in the file of the definition. -/
def setDefinition (given : Given) (path : String) : Except Refusal Given := do
  if path.isEmpty then .error .usage
  else return { given with definition := ← once given.definition path }

/-- Takes in arguments none of which is an option. -/
def setAll (given : Given) : List String → Except Refusal Given
  | [] => .ok given
  | path :: rest => do (← given.setDefinition path).setAll rest

end Given

/-- What an argument looks like. -/
inductive Shape where
  | separator
  | long (name : String) (value : Option String)
  | short (letters : String)
  | plain (text : String)

/-- What an argument looks like; a dash alone is a plain text. -/
def shapeOf (arg : String) : Shape :=
  match arg.toList with
  | ['-', '-'] => .separator
  | '-' :: '-' :: rest =>
    let name := rest.takeWhile (· != '=')
    match rest.dropWhile (· != '=') with
    | [] => .long (String.ofList name) none
    | _ :: value => .long (String.ofList name) (some (String.ofList value))
  | '-' :: c :: rest => .short (String.ofList (c :: rest))
  | _ => .plain arg

/-- The option that an argument asks for, with the value in it if there is one. -/
def optionOf (name : String) (value : Option String) : Except Refusal (Key × Option String) :=
  match Key.ofName? name with
  | some key => .ok (key, value)
  | none => if name = "help" && value.isNone then .error .help else .error .usage

/-- Whether an argument can be the value of an option in front of it. -/
def isValueOf (key : Key) (arg : String) : Bool :=
  key.takesDashes ||
    match shapeOf arg with
    | .plain _ => true
    | _ => false

/-- Reads arguments one after another. `pending` is an option that still wants its value. -/
def readFrom (given : Given) (pending : Option Key) : List String → Except Refusal Given
  | [] => if pending.isSome then .error .usage else .ok given
  | arg :: rest =>
    match pending with
    | some key =>
      if isValueOf key arg then do readFrom (← given.setKey key arg) none rest
      else .error .usage
    | none =>
      match shapeOf arg with
      | .separator => given.setAll rest
      | .plain path => do readFrom (← given.setDefinition path) none rest
      | .short letters => if letters.startsWith "h" then .error .help else .error .usage
      | .long name value => do
        match ← optionOf name value with
        | (key, some value) => readFrom (← given.setKey key value) none rest
        | (key, none) => readFrom given (some key) rest

/-- What the command is told once all arguments are read. A definition is required, inline
values exclude an input file, and an input file and a column need each other. -/
def Given.complete (given : Given) : Except Refusal Arguments :=
  match given.definition with
  | none => .error .usage
  | some definition =>
    if given.values.isSome && given.input.isSome then .error .usage
    else if given.input.isSome != given.column.isSome then .error .usage
    else
      .ok
        { definition
          values := given.values.getD []
          input := given.input
          column := given.column
          minSentinel := given.minSentinel.getD Double.infinity
          maxSentinel := given.maxSentinel.getD (-Double.infinity)
          format := given.format.getD .text }

/-- Reads the arguments of the command. -/
def Arguments.parse (args : List String) : Except Refusal Arguments := do
  (← readFrom .nothing none args).complete

/-- What the command says about itself. -/
def helpText : String :=
"Compile and evaluate piecewise function definitions

Usage: piecewise [OPTIONS] <DEFINITION>

Arguments:
  <DEFINITION>  File holding a single `def name(x): ...` definition

Options:
      --values <VALUES>              Comma-separated inputs to evaluate
      --input <INPUT>                Parquet/csv/ipc file to read inputs from
      --column <COLUMN>              Column of --input to evaluate
      --min-sentinel <MIN_SENTINEL>  Value compared in place of undefined results when selecting the minimum [default: inf]
      --max-sentinel <MAX_SENTINEL>  Value compared in place of undefined results when selecting the maximum [default: -inf]
      --format <FORMAT>              [default: text] [possible values: text, json]
  -h, --help                         Print help

EXAMPLES:
    # Show the branch domains of a definition
    piecewise demos/demo.def

    # Evaluate inline values
    piecewise demos/demo.def --values=-6,2,3,5,5,7,0.3

    # Evaluate a column of a csv/parquet/ipc file, as JSON
    piecewise demos/demo.def --input demos/samples.csv --column x --format json
"

end PiecewiseLinear.Command
