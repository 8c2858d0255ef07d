import PiecewiseLinear.Definition.OfScript
import PiecewiseLinear.Formula.Degree
import PiecewiseLinear.Guard.Region
import PiecewiseLinear.Piecewise.Basic
import PiecewiseLinear.Script.FunctionParser

/-!
# From scripts to piecewise functions

- `Definition.compile`: the piecewise function of a definition. Every guard is looked at
  before any formula, and both before the regions are compared.
- `Piecewise.ofSource`: the piecewise function of a script.
- `PartError`, `BuildError`: what can go wrong, in the order in which it is noticed.
-/

namespace PiecewiseLinear

/-- Why a guard or a formula is refused. -/
inductive PartError where
  | guard (e : GuardError)
  | formula (e : FormulaError)
deriving DecidableEq, Repr

/-- The refusal in words. -/
def PartError.message : PartError → String
  | guard e => e.message
  | formula e => e.message

/-- Why a script or a definition has no piecewise function. -/
inductive BuildError where
  | parse (e : Script.ParseError)
  | malformed (e : Script.MalformedFunction)
  | part (e : PartError)
  | assembly (e : AssemblyError)
deriving DecidableEq, Repr

namespace BuildError

/-- The error that the stage found, in words. -/
def cause : BuildError → String
  | parse e => e.message
  | malformed e => e.message
  | part e => e.message
  | assembly e => e.message

/-- The stage that found the error. -/
def stage : BuildError → Stage
  | parse _ => .reading
  | malformed _ => .walking
  | part _ => .compiling
  | assembly _ => .assembling

/-- The error in words, with the stage that found it. -/
def message (e : BuildError) : String := e.stage.report e.cause

end BuildError

namespace Definition

/-- The regions of the guards in order, or the first reason to refuse one. -/
def domains (d : Definition) : Except PartError (List Region) :=
  (Guard.regions d.guards).mapError .guard

/-- The functions of the formulas in order, or the first reason to refuse one. -/
def values (d : Definition) : Except PartError (List (Float → Float)) :=
  (d.formulas.mapM Formula.toFunction).mapError .formula

/-- The piecewise function of a definition. -/
def compile (d : Definition) : Except BuildError Piecewise := do
  let domains ← d.domains.mapError .part
  let values ← d.values.mapError .part
  (Piecewise.assemble domains values).mapError .assembly

end Definition

/-- The definition that a script stands for. -/
def Definition.ofSource (source : String) : Except BuildError Definition := do
  let f ← (Script.Function.parse source).mapError .parse
  f.definition.mapError .malformed

/-- The piecewise function of a script. -/
def Piecewise.ofSource (source : String) : Except BuildError Piecewise := do
  (← Definition.ofSource source).compile

end PiecewiseLinear
