import PiecewiseLinear.Proofs.Script.Gaps

/-!
# Functions in print

A function in print is one of its layouts, in which line ends and blanks are the only gaps. So it
reads as itself, as every expression in print does.

- `Function.written_text`: what is printed is written.
- `parse_text_of_wellFormed`: reading undoes printing, for expressions and for functions.
-/

namespace PiecewiseLinear.Script

/-- What is printed of a function is one of its texts. -/
theorem Function.written_text {f : Function} (h : f.WellFormed) : f.Written f.text.toList :=
  written_of_laidOut h (laidOut_text h.body_ne_nil)

/-- **Reading undoes printing**, for every expression and every function that can be written. -/
theorem parse_text_of_wellFormed :
    (∀ e : Expr, e.WellFormed → Expr.parse e.text = .ok e) ∧
      ∀ f : Function, f.WellFormed → Function.parse f.text = .ok f :=
  ⟨fun _ he => Expr.parse_text he, fun _ hf => Function.parse_of_written (Function.written_text hf)⟩

/-- A power with signs on both sides, of which only the one in front needs parentheses, and a
function with both branches. -/
theorem parse_text_of_wellFormed_conditional :
    Expr.parse "(-x) ** -0.5" = .ok (.binary (.unary .neg (.ident "x")) .pow
      (.unary .neg (.number 0.5))) ∧
    Function.parse "def f(x):\n    if not (x or f):\n        return f\n    else:\n        return x" =
      .ok ⟨"f", "x", [.cond (.unary .not (.junction .or [.ident "x", .ident "f"])) (.ident "f")
        (some (.ret (.ident "x")))]⟩ := by
  have hx : IsIdentifier "x" := ⟨⟨'x', rfl, rfl⟩, List.all_eq_true.mp rfl, by simp [keywords]⟩
  have hf : IsIdentifier "f" := ⟨⟨'f', rfl, rfl⟩, List.all_eq_true.mp rfl, by simp [keywords]⟩
  have hpower : (Expr.binary (.unary .neg (.ident "x")) .pow
      (.unary .neg (.number 0.5))).WellFormed :=
    .binary (.unary (.ident hx)) (.unary (.number (by decide +kernel) (by decide +kernel)))
  have htest : (Expr.unary .not (.junction .or [.ident "x", .ident "f"])).WellFormed :=
    .unary (.junction le_rfl (by simp [Expr.WellFormed.ident, hx, hf]))
  have hcond : (Stmt.cond (.unary .not (.junction .or [.ident "x", .ident "f"])) (.ident "f")
      (some (.ret (.ident "x")))).WellFormed :=
    .cond htest (.ident hf) (by simp [Stmt.WellFormed.ret, Expr.WellFormed.ident, hx])
      (by simp [Stmt.isAssign])
  have hfunction : Function.WellFormed ⟨"f", "x", [.cond (.unary .not (.junction .or
      [.ident "x", .ident "f"])) (.ident "f") (some (.ret (.ident "x")))]⟩ :=
    ⟨hf, hx, List.cons_ne_nil _ [], List.forall_mem_singleton.mpr hcond⟩
  have htext : (Expr.binary (.unary .neg (.ident "x")) .pow (.unary .neg (.number 0.5))).text =
      "(-x) ** -0.5" := by decide +kernel
  have htext' : Function.text ⟨"f", "x", [.cond (.unary .not (.junction .or
      [.ident "x", .ident "f"])) (.ident "f") (some (.ret (.ident "x")))]⟩ =
        "def f(x):\n    if not (x or f):\n        return f\n    else:\n        return x" := by
    rw [← String.toList_inj, Function.toList_text]
    simp [onNewLines, Stmt.lines, Stmt.alternativeLines, line, indentation, Expr.text,
      Expr.operandTexts, UnaryOp.symbol, Connective.word, unaryBinding, connectiveBinding,
      Expr.binding, Binding.enclose, Binding.tighter, Binding.disjunction, Binding.negation,
      Binding.atom]
  have hparsed := parse_text_of_wellFormed.1 _ hpower
  have hparsed' := parse_text_of_wellFormed.2 _ hfunction
  rw [htext] at hparsed
  rw [htext'] at hparsed'
  exact ⟨hparsed, hparsed'⟩

end PiecewiseLinear.Script
