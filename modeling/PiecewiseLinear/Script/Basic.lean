import PiecewiseLinear.Formula.Basic

/-!
# Scripts

The language in which piecewise functions are written: one function of one parameter whose
body is a list of statements. It says more than a piecewise function can mean; what is too
much is refused later, where its text can be quoted.

- `Expr`: expressions.
- `Stmt`: conditionals, returns and assignments.
- `Function`: a name, a parameter and a body.
- `Expr.text`: an expression in print, with parentheses only where the operators need them.
- `Stmt.text`, `Function.text`: statements on lines of their own, indented by four blanks
  a level.

A printed function is a script again, and a printed expression an expression. The one
exception is an assignment as the alternative of a conditional, which has no script.
-/

namespace PiecewiseLinear.Script

/-- An operator in front of its operand. -/
inductive UnaryOp where
  | neg
  | pos
  | not
deriving DecidableEq, Repr

/-- How an operator is written in front of its operand. -/
def UnaryOp.symbol : UnaryOp → String
  | neg => "-"
  | pos => "+"
  | not => "not "

/-- An expression. Signs are operators, so a number as written is never negative. -/
inductive Expr where
  | ident (name : String)
  | number (v : Float)
  | unary (op : UnaryOp) (operand : Expr)
  | binary (lhs : Expr) (op : BinaryOp) (rhs : Expr)
  | compare (first : Expr) (links : List (Comparator × Expr))
  | junction (connective : Connective) (operands : List Expr)
  | call (callee : Expr) (arguments : List Expr)
deriving BEq, Repr

/-- A statement. The alternative of a conditional is another conditional for `elif` and a
return for `else`. -/
inductive Stmt where
  | cond (test value : Expr) (alternative : Option Stmt)
  | ret (value : Expr)
  | assign (name : String) (value : Expr)
deriving BEq, Repr

/-- A function of one parameter. -/
structure Function where
  name : String
  param : String
  body : List Stmt
deriving BEq, Repr

/-! ## Scripts in print -/

/-- The binding of an operator as the outermost one of an expression. -/
def binaryBinding : BinaryOp → Binding
  | .arith op => op.binding
  | .mod => .product
  | .pow => .power

/-- What the left operand of an operator needs at least. A power's base must be an atom;
elsewhere operators of one binding group to the left. -/
def leftBinding : BinaryOp → Binding
  | .pow => .atom
  | op => binaryBinding op

/-- What the right operand of an operator needs at least. An exponent may carry a sign. -/
def rightBinding : BinaryOp → Binding
  | .pow => .sign
  | op => (binaryBinding op).tighter

/-- The binding of a connective. -/
def connectiveBinding : Connective → Binding
  | .or => .disjunction
  | .and => .conjunction

/-- The binding of an operator in front, which its operand needs at least. -/
def unaryBinding : UnaryOp → Binding
  | .not => .negation
  | .neg | .pos => .sign

namespace Expr

/-- How tightly the outermost operator of an expression binds. -/
def binding : Expr → Binding
  | junction connective _ => connectiveBinding connective
  | unary op _ => unaryBinding op
  | compare .. => .comparison
  | binary _ op _ => binaryBinding op
  | ident _ | number _ | call .. => .atom

mutual

/-- An expression in print. -/
def text : Expr → String
  | ident name => name
  | number v => plain v
  | unary op operand => op.symbol ++ (unaryBinding op).enclose operand.binding operand.text
  | binary lhs op rhs =>
    (leftBinding op).enclose lhs.binding lhs.text ++ " " ++ op.symbol ++ " " ++
      (rightBinding op).enclose rhs.binding rhs.text
  | compare first links => Binding.sum.enclose first.binding first.text ++ linksText links
  | junction connective operands =>
    (" " ++ connective.word ++ " ").intercalate
      (operandTexts (connectiveBinding connective).tighter operands)
  | call callee arguments =>
    Binding.atom.enclose callee.binding callee.text ++ "(" ++
      ", ".intercalate (argumentTexts arguments) ++ ")"

/-- The links of a comparison chain in print. -/
def linksText : List (Comparator × Expr) → String
  | [] => ""
  | (op, operand) :: links =>
    " " ++ op.symbol ++ " " ++ Binding.sum.enclose operand.binding operand.text ++
      linksText links

/-- The operands of a connective in print. -/
def operandTexts (wanted : Binding) : List Expr → List String
  | [] => []
  | operand :: operands =>
    wanted.enclose operand.binding operand.text :: operandTexts wanted operands

/-- The arguments of a call in print. -/
def argumentTexts : List Expr → List String
  | [] => []
  | argument :: arguments => argument.text :: argumentTexts arguments

end

end Expr

/-- The blanks in front of a line at a depth. -/
def indentation (depth : Nat) : String := String.ofList (List.replicate (4 * depth) ' ')

/-- A line at a depth. -/
def line (depth : Nat) (s : String) : String := indentation depth ++ s

namespace Stmt

mutual

/-- The lines of a statement at a depth. -/
def lines (depth : Nat) : Stmt → List String
  | cond test value alternative =>
    line depth ("if " ++ test.text ++ ":") :: line (depth + 1) ("return " ++ value.text) ::
      alternativeLines depth alternative
  | ret value => [line depth ("return " ++ value.text)]
  | assign name value => [line depth (name ++ " = " ++ value.text)]

/-- The lines of what follows a conditional at a depth. -/
def alternativeLines (depth : Nat) : Option Stmt → List String
  | none => []
  | some (cond test value alternative) =>
    line depth ("elif " ++ test.text ++ ":") :: line (depth + 1) ("return " ++ value.text) ::
      alternativeLines depth alternative
  | some (ret value) => [line depth "else:", line (depth + 1) ("return " ++ value.text)]
  | some (assign name value) =>
    [line depth "else:", line (depth + 1) (name ++ " = " ++ value.text)]

end

/-- A statement in print. -/
def text (stmt : Stmt) : String := "\n".intercalate (stmt.lines 0)

end Stmt

/-- A function in print. -/
def Function.text (f : Function) : String :=
  "\n".intercalate (("def " ++ f.name ++ "(" ++ f.param ++ "):") :: f.body.flatMap (Stmt.lines 1))

end PiecewiseLinear.Script
