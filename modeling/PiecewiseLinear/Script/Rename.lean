import PiecewiseLinear.Script.Basic

/-!
# Renaming in scripts

The names in a script: those that expressions mention, the parameter, the name of the function
itself, and those that are assigned to.

- `Expr.identifiers`, `Stmt.exprs`, `Function.Mentions`: the names that expressions mention.
- `Expr.rename`, `Stmt.rename`, `Function.rename`: another name for the parameter, in all
  expressions.
- `Stmt.unnamed`: a statement without the names that are assigned to.
-/

namespace PiecewiseLinear.Script

namespace Expr

mutual

/-- The names that an expression mentions. -/
def identifiers : Expr → List String
  | ident name => [name]
  | number _ => []
  | unary _ operand => operand.identifiers
  | binary lhs _ rhs => lhs.identifiers ++ rhs.identifiers
  | compare first links => first.identifiers ++ linkIdentifiers links
  | junction _ operands => operandIdentifiers operands
  | call callee arguments => callee.identifiers ++ operandIdentifiers arguments

/-- The names that the links of a comparison chain mention. -/
def linkIdentifiers : List (Comparator × Expr) → List String
  | [] => []
  | (_, operand) :: links => operand.identifiers ++ linkIdentifiers links

/-- The names that operands or arguments mention. -/
def operandIdentifiers : List Expr → List String
  | [] => []
  | operand :: operands => operand.identifiers ++ operandIdentifiers operands

end

mutual

/-- An expression with the name `q` for the name `p`. -/
def rename (p q : String) : Expr → Expr
  | ident name => ident (if name = p then q else name)
  | number v => number v
  | unary op operand => unary op (rename p q operand)
  | binary lhs op rhs => binary (rename p q lhs) op (rename p q rhs)
  | compare first links => compare (rename p q first) (renameLinks p q links)
  | junction connective operands => junction connective (renameOperands p q operands)
  | call callee arguments => call (rename p q callee) (renameOperands p q arguments)

/-- The links of a comparison chain with one name for another. -/
def renameLinks (p q : String) : List (Comparator × Expr) → List (Comparator × Expr)
  | [] => []
  | (op, operand) :: links => (op, rename p q operand) :: renameLinks p q links

/-- Operands or arguments with one name for another. -/
def renameOperands (p q : String) : List Expr → List Expr
  | [] => []
  | operand :: operands => rename p q operand :: renameOperands p q operands

end

end Expr

namespace Stmt

/-- The expressions in a statement. -/
def exprs : Stmt → List Expr
  | cond test value none => [test, value]
  | cond test value (some alternative) => test :: value :: alternative.exprs
  | ret value | assign _ value => [value]

/-- A statement with the name `q` for the name `p` in its expressions. -/
def rename (p q : String) : Stmt → Stmt
  | cond test value none => cond (test.rename p q) (value.rename p q) none
  | cond test value (some alternative) =>
    cond (test.rename p q) (value.rename p q) (some (rename p q alternative))
  | ret value => ret (value.rename p q)
  | assign name value => assign name (value.rename p q)

/-- A statement without the names that are assigned to. -/
def unnamed : Stmt → Stmt
  | cond test value none => cond test value none
  | cond test value (some alternative) => cond test value (some alternative.unnamed)
  | ret value => ret value
  | assign _ value => assign "" value

end Stmt

namespace Function

/-- Some expression of a function mentions a name. -/
def Mentions (f : Function) (name : String) : Prop :=
  ∃ stmt ∈ f.body, ∃ e ∈ stmt.exprs, name ∈ e.identifiers

/-- A function with another name for its parameter, in all its expressions. -/
def rename (f : Function) (q : String) : Function :=
  { f with param := q, body := f.body.map (Stmt.rename f.param q) }

end Function

end PiecewiseLinear.Script
