import PiecewiseLinear.Definition.Basic
import PiecewiseLinear.Script.Basic

/-!
# Definitions from scripts

The body of a script is walked from the top. Each condition becomes a guard and each
returned value a formula, until a `return`, an `else` or an assignment closes the walk. A
conditional without `else` passes on to the statement after it.

- `Expr.toGuard`, `Expr.toFormula`: an expression as a guard or a formula. Parts that have
  no counterpart there are kept as text.
- `Function.definition`: the definition that a function stands for. A body that yields
  neither guard nor formula is refused.
-/

namespace PiecewiseLinear.Script

namespace Expr

/-- An expression as one side of a comparison, where `param` names the argument. -/
def toOperand (param : String) : Expr → Operand
  | ident name => if name = param then .argument else .unsupported name
  | number v => .constant v
  | unary .neg operand => .neg (toOperand param operand)
  | unary .pos operand => toOperand param operand
  | e => .unsupported e.text

mutual

/-- An expression as a guard. -/
def toGuard (param : String) : Expr → Guard
  | junction .and operands => .all (toGuards param operands)
  | junction .or operands => .any (toGuards param operands)
  | compare first links =>
    .compare ⟨toOperand param first, links.map fun (op, e) => (op, toOperand param e)⟩
  | e => .unsupported e.text

/-- Expressions as guards. -/
def toGuards (param : String) : List Expr → List Guard
  | [] => []
  | e :: es => toGuard param e :: toGuards param es

end

/-- An expression as a formula. -/
def toFormula (param : String) : Expr → Formula
  | ident name => if name = param then .argument else .unsupported name
  | number v => .constant v
  | unary .neg operand => .neg (toFormula param operand)
  | unary .pos operand => toFormula param operand
  | binary lhs (.arith op) rhs => .arith (toFormula param lhs) op (toFormula param rhs)
  | e => .unsupported e.text

end Expr

/-- What a walk over statements has met: guards and formulas in order, and whether
something closed it. -/
structure Walk where
  guards : List Guard
  formulas : List Formula
  closed : Bool

namespace Walk

/-- A walk that has met nothing. -/
def start : Walk := ⟨[], [], false⟩

/-- One walk after another. -/
def append (v w : Walk) : Walk := ⟨v.guards ++ w.guards, v.formulas ++ w.formulas, w.closed⟩

mutual

/-- The walk over a statement. -/
def ofStmt (param : String) : Stmt → Walk
  | .cond test value alternative =>
    append ⟨[test.toGuard param], [value.toFormula param], false⟩ (ofAlternative param alternative)
  | .ret value => ⟨[], [value.toFormula param], true⟩
  | .assign _ _ => ⟨[], [], true⟩

/-- The walk over what follows a conditional in its chain. -/
def ofAlternative (param : String) : Option Stmt → Walk
  | none => start
  | some stmt => ofStmt param stmt

end

/-- The walk over the statements of a body, up to the first that closes it. -/
def ofBody (param : String) : List Stmt → Walk
  | [] => start
  | stmt :: rest =>
    let walk := ofStmt param stmt
    if walk.closed then walk else walk.append (ofBody param rest)

end Walk

/-- The refusal of a function whose body yields no branch. -/
structure MalformedFunction where
  name : String
deriving DecidableEq, Repr

/-- The refusal in words. -/
def MalformedFunction.message (e : MalformedFunction) : String :=
  s!"Function {e.name} is malformed: its body must start with an if/elif/else chain or a return"

/-- The definition that a function stands for. -/
def Function.definition (f : Function) : Except MalformedFunction Definition :=
  let walk := Walk.ofBody f.param f.body
  if walk.guards.isEmpty && walk.formulas.isEmpty then .error ⟨f.name⟩
  else .ok ⟨f.name, walk.guards, walk.formulas⟩

end PiecewiseLinear.Script
