import PiecewiseLinear.Formula.Basic
import PiecewiseLinear.Guard.Basic

/-!
# Definitions

A definition is a list of guards and a list of formulas, paired in order. One formula more
than there are guards is the value everywhere else.

- `Definition`: a named definition.
- `Definition.branch`, `Definition.otherwise`: building a definition step by step.
- `BuildCall`, `Definition.build`: the definition that calls in any order build. Guards and
  formulas are gathered apart, each in the order of the calls.
-/

namespace PiecewiseLinear

/-- Guards and the formulas of the branches they open. -/
structure Definition where
  name : String
  guards : List Guard
  formulas : List Formula
deriving Repr

namespace Definition

/-- The definition without branches. -/
def empty (name : String) : Definition := ⟨name, [], []⟩

/-- Adds a guard and a formula. -/
def branch (d : Definition) (guard : Guard) (formula : Formula) : Definition :=
  { d with guards := d.guards ++ [guard], formulas := d.formulas ++ [formula] }

/-- Adds a formula alone. -/
def otherwise (d : Definition) (formula : Formula) : Definition :=
  { d with formulas := d.formulas ++ [formula] }

end Definition

/-! ## Building definitions -/

/-- A call that adds to a definition. -/
inductive BuildCall where
  | branch (guard : Guard) (formula : Formula)
  | otherwise (formula : Formula)
deriving Repr

namespace BuildCall

/-- The guard that a call adds. -/
def guard? : BuildCall → Option Guard
  | branch guard _ => some guard
  | otherwise _ => none

/-- The formula that a call adds. -/
def formula : BuildCall → Formula
  | branch _ formula | otherwise formula => formula

end BuildCall

namespace Definition

/-- The definition after a call. -/
def apply (d : Definition) : BuildCall → Definition
  | .branch guard formula => d.branch guard formula
  | .otherwise formula => d.otherwise formula

/-- The definition that calls build. -/
def build (name : String) (calls : List BuildCall) : Definition := calls.foldl apply (empty name)

end Definition

end PiecewiseLinear
