import PiecewiseLinear.Definition.ToScript
import PiecewiseLinear.Proofs.Script.Expr
import PiecewiseLinear.Proofs.Script.Print

/-!
# Guards and formulas in print

Guards and formulas have printers of their own, apart from the one for scripts. What these print
is a text of the expression that the tree stands for, and the expression stands for the tree
again.

- `Operand.text_toExpr`, `Formula.text_toExpr`: operands and formulas are printed as scripts are.
- `Guard.written_text`: a guard has more parentheses in print than its expression has, but the
  text is one of the expression.
- `Guard.toGuard_toExpr`, `Formula.toFormula_toExpr`: the way back from expressions.
- `Script.parts_of_text`: guards and formulas in print read as themselves.
-/

namespace PiecewiseLinear

open Script

theorem isIdentifier_x : IsIdentifier "x" :=
  ⟨⟨'x', rfl, rfl⟩, List.all_eq_true.mp rfl, by simp [keywords]⟩

/-! ## Operands and comparisons -/

namespace Operand

variable {o : Operand}

theorem WellFormed.wellFormed_toExpr (h : o.WellFormed) : o.toExpr.WellFormed := by
  induction h with
  | argument => exact .ident isIdentifier_x
  | constant hfinite hsign => exact .number hfinite hsign
  | neg _ ih => exact .unary ih

/-- Operands need no parentheses anywhere in a comparison. -/
theorem sign_le_binding_toExpr (o : Operand) :
    Binding.sign.tightness ≤ o.toExpr.binding.tightness := by
  cases o <;> simp [toExpr, Expr.binding, unaryBinding, Binding.atom, Binding.sign]

theorem enclose_toExpr {wanted : Binding} (h : wanted.tightness ≤ Binding.sign.tightness)
    (o : Operand) (s : String) : wanted.enclose o.toExpr.binding s = s :=
  if_neg (not_lt.mpr (h.trans o.sign_le_binding_toExpr))

theorem text_toExpr (o : Operand) : o.toExpr.text = o.text := by
  induction o with
  | argument | constant | unsupported => rw [toExpr, Expr.text, text]
  | neg operand ih =>
    rw [toExpr, Expr.text, unaryBinding, enclose_toExpr le_rfl, ih, text]
    rfl

theorem WellFormed.toOperand_toExpr (h : o.WellFormed) : o.toExpr.toOperand "x" = o := by
  induction h with
  | argument => rfl
  | constant => rfl
  | neg _ ih => rw [toExpr, Expr.toOperand, ih]

end Operand

namespace Comparison

variable {c : Comparison}

theorem WellFormed.wellFormed_toExpr (h : c.WellFormed) : c.toExpr.WellFormed := by
  refine .compare h.first.wellFormed_toExpr (mt List.map_eq_nil_iff.mp h.links_ne_nil) ?_
  exact List.forall_mem_map.mpr fun link hlink => (h.links link hlink).wellFormed_toExpr

theorem linksText_toExpr (links : List (Comparator × Operand)) :
    Expr.linksText (links.map fun link => (link.1, link.2.toExpr)) =
      String.join (links.map linkText) := by
  induction links with
  | nil => rfl
  | cons link links ih =>
    rw [List.map_cons, Expr.linksText, ih, Operand.enclose_toExpr (by decide),
      Operand.text_toExpr, List.map_cons, String.join_cons, linkText]

theorem text_toExpr (c : Comparison) : c.toExpr.text = c.text := by
  rw [toExpr, Expr.text, linksText_toExpr, Operand.enclose_toExpr (by decide),
    Operand.text_toExpr, text]

theorem WellFormed.toGuard_toExpr (h : c.WellFormed) : c.toExpr.toGuard "x" = .compare c := by
  have hlinks : (c.links.map fun link => (link.1, link.2.toExpr)).map
      (fun link => (link.1, link.2.toOperand "x")) = c.links := by
    rw [List.map_map]
    refine (List.map_congr_left fun link hlink => ?_).trans (List.map_id c.links)
    exact Prod.ext rfl (h.links link hlink).toOperand_toExpr
  rw [toExpr, Expr.toGuard, hlinks, h.first.toOperand_toExpr]

end Comparison

/-! ## Guards -/

namespace Guard

variable {g : Guard}

theorem toExprs_eq_map (children : List Guard) : toExprs children = children.map toExpr := by
  induction children with
  | nil => rfl
  | cons g gs ih => rw [toExprs, ih, List.map_cons]

theorem childTexts_eq_map (children : List Guard) :
    childTexts children = children.map fun g => enclosed g.isJunction g.text := by
  induction children with
  | nil => rfl
  | cons g gs ih => rw [childTexts, ih, List.map_cons]

/-- A child in print is a text of its expression wherever an operand of a connective stands: a
comparison as it is, and a junction in parentheses. -/
theorem written_enclosed (h : g.WellFormed)
    (hwritten : Expr.Written .disjunction g.text.toList g.toExpr) (connective : Connective) :
    Expr.Written (connectiveBinding connective).tighter (enclosed g.isJunction g.text).toList
      g.toExpr := by
  have hle := Expr.tighter_connectiveBinding_le connective
  cases h with
  | all | any =>
    rw [isJunction, enclosed, if_pos rfl]
    simpa using hwritten.parenthesized.of_le hle
  | @compare c hc =>
    have hcomparison : (connectiveBinding connective).tighter.tightness ≤
        Binding.comparison.tightness := by cases connective <;> decide
    rw [show (compare c).isJunction = false from rfl, enclosed, if_neg Bool.false_ne_true, text,
      ← c.text_toExpr]
    exact (Expr.written_text hc.wellFormed_toExpr).of_le hcomparison

/-- Two or more children with a connective between them are written as their junction, where each of
them is written as an operand. -/
theorem written_junction (connective : Connective) {children : List Guard}
    (hlength : 2 ≤ children.length)
    (h : ∀ g ∈ children, Expr.Written (connectiveBinding connective).tighter
      (enclosed g.isJunction g.text).toList g.toExpr) :
    Expr.Written (connectiveBinding connective)
      ((" " ++ connective.word ++ " ").intercalate (childTexts children)).toList
      (.junction connective (toExprs children)) := by
  obtain ⟨first, rest, rfl⟩ := List.exists_cons_of_length_pos (Nat.zero_lt_of_lt hlength)
  obtain ⟨hfirst, hrest⟩ := List.forall_mem_cons.mp h
  have hrest' : ∀ p ∈ rest.map fun g => ((enclosed g.isJunction g.text).toList, g.toExpr),
      Expr.Written (connectiveBinding connective).tighter p.1 p.2 := List.forall_mem_map.mpr hrest
  have hne : rest ≠ [] := by
    rintro rfl
    exact absurd hlength (Nat.lt_irrefl 1)
  have hwritten := hfirst.junction (mt List.map_eq_nil_iff.mp hne) hrest'
  rw [List.map_map, List.flatMap_map] at hwritten
  rw [toExprs_eq_map, childTexts_eq_map, List.map_cons, List.map_cons,
    Expr.toList_intercalate_spaced, List.flatMap_map]
  exact hwritten

/-- **A guard in print is a text of its expression.** -/
theorem written_text (h : g.WellFormed) : Expr.Written .disjunction g.text.toList g.toExpr := by
  induction h with
  | @all children hlength hchildren ih =>
    rw [text, toExpr]
    refine (written_junction .and hlength fun g hg => ?_).of_le (by decide)
    exact written_enclosed (hchildren g hg) (ih g hg) .and
  | @any children hlength hchildren ih =>
    rw [text, toExpr]
    refine (written_junction .or hlength fun g hg => ?_).of_le (by decide)
    exact written_enclosed (hchildren g hg) (ih g hg) .or
  | @compare c hc =>
    rw [text, toExpr, ← c.text_toExpr]
    exact Expr.written_disjunction_text hc.wellFormed_toExpr

theorem toGuards_toExprs {children : List Guard}
    (h : ∀ g ∈ children, g.toExpr.toGuard "x" = g) :
    Expr.toGuards "x" (toExprs children) = children := by
  rw [toExprs_eq_map, Expr.toGuards_eq_map, List.map_map]
  exact (List.map_congr_left h).trans (List.map_id children)

/-- The expression of a guard is that guard. -/
theorem WellFormed.toGuard_toExpr (h : g.WellFormed) : g.toExpr.toGuard "x" = g := by
  induction h with
  | all _ _ ih => rw [toExpr, Expr.toGuard, toGuards_toExprs ih]
  | any _ _ ih => rw [toExpr, Expr.toGuard, toGuards_toExprs ih]
  | compare hc => exact hc.toGuard_toExpr

end Guard

/-! ## Formulas -/

namespace Formula

variable {r : Formula}

theorem WellFormed.wellFormed_toExpr (h : r.WellFormed) : r.toExpr.WellFormed := by
  induction h with
  | constant hfinite hsign => exact .number hfinite hsign
  | argument => exact .ident isIdentifier_x
  | neg _ ih => exact .unary ih
  | arith _ _ ihlhs ihrhs => exact .binary ihlhs ihrhs

theorem WellFormed.binding_toExpr (h : r.WellFormed) : r.toExpr.binding = r.binding := by
  cases h <;> rfl

/-- Formulas are printed as scripts print their expressions. -/
theorem WellFormed.text_toExpr (h : r.WellFormed) : r.toExpr.text = r.text := by
  induction h with
  | constant | argument => rw [toExpr, Expr.text, text]
  | neg hinner ih => rw [toExpr, Expr.text, hinner.binding_toExpr, ih, text]; rfl
  | arith hlhs hrhs ihlhs ihrhs =>
    rw [toExpr, Expr.text, hlhs.binding_toExpr, hrhs.binding_toExpr, ihlhs, ihrhs, text]
    rfl

/-- The expression of a formula is that formula. -/
theorem WellFormed.toFormula_toExpr (h : r.WellFormed) : r.toExpr.toFormula "x" = r := by
  induction h with
  | constant => rfl
  | argument => rfl
  | neg _ ih => rw [toExpr, Expr.toFormula, ih]
  | arith _ _ ihlhs ihrhs => rw [toExpr, Expr.toFormula, ihlhs, ihrhs]

end Formula

/-! ## Reading what is printed -/

/-- **Guards and formulas in print read as themselves**: the text of a guard or a formula that
can be written is an expression, and that expression, with `x` for the argument, is the guard or
the formula again. -/
theorem Script.parts_of_text :
    (∀ g : Guard, g.WellFormed → (Expr.parse g.text).map (Expr.toGuard "x") = .ok g) ∧
      ∀ r : Formula, r.WellFormed → (Expr.parse r.text).map (Expr.toFormula "x") = .ok r := by
  constructor
  · intro g hg
    rw [Expr.parse_of_written (Guard.written_text hg), Except.map, hg.toGuard_toExpr]
  · intro r hr
    rw [← hr.text_toExpr, Expr.parse_text hr.wellFormed_toExpr, Except.map, hr.toFormula_toExpr]

/-- A disjunction under a conjunction, in whose chain a number has a sign, and a difference under
a sign under a product. -/
theorem Script.parts_of_text_nested :
    (Expr.parse "x != 0.5 and (x < --4 or 10 >= x > 2)").map (Expr.toGuard "x") =
      .ok (.all [.link .argument .ne (.constant 0.5),
        .any [.link .argument .lt (.neg (.neg (.constant 4))),
          .between (.constant 10) .ge .gt (.constant 2)]]) ∧
    (Expr.parse "3 / 4 * -(x - 1)").map (Expr.toFormula "x") =
      .ok (.arith (.arith (.constant 3) .div (.constant 4)) .mul
        (.neg (.arith .argument .sub (.constant 1)))) := by
  have hguard : (Guard.all [.link .argument .ne (.constant 0.5),
      .any [.link .argument .lt (.neg (.neg (.constant 4))),
        .between (.constant 10) .ge .gt (.constant 2)]]).WellFormed := by
    have hlink (op : Comparator) {o : Operand} (ho : o.WellFormed) :
        (Guard.link .argument op o).WellFormed :=
      .compare ⟨.argument, List.cons_ne_nil _ _, by simpa using ho⟩
    have hbetween : (Guard.between (.constant 10) .ge .gt (.constant 2)).WellFormed :=
      .compare ⟨.constant (by decide +kernel) (by decide +kernel), List.cons_ne_nil _ _, by
        simpa using
          ⟨Operand.WellFormed.argument, .constant (by decide +kernel) (by decide +kernel)⟩⟩
    have hhalf := hlink .ne (.constant (v := 0.5) (by decide +kernel) (by decide +kernel))
    have hfour := hlink .lt
      (.neg (.neg (.constant (v := 4) (by decide +kernel) (by decide +kernel))))
    exact .all le_rfl (by simpa using ⟨hhalf, .any le_rfl (by simpa using ⟨hfour, hbetween⟩)⟩)
  have hformula : (Formula.arith (.arith (.constant 3) .div (.constant 4)) .mul
      (.neg (.arith .argument .sub (.constant 1)))).WellFormed :=
    .arith (.arith (.constant (by decide +kernel) (by decide +kernel))
      (.constant (by decide +kernel) (by decide +kernel)))
      (.neg (.arith .argument (.constant (by decide +kernel) (by decide +kernel))))
  have htext : (Guard.all [.link .argument .ne (.constant 0.5),
      .any [.link .argument .lt (.neg (.neg (.constant 4))),
        .between (.constant 10) .ge .gt (.constant 2)]]).text =
        "x != 0.5 and (x < --4 or 10 >= x > 2)" := by decide +kernel
  have htext' : (Formula.arith (.arith (.constant 3) .div (.constant 4)) .mul
      (.neg (.arith .argument .sub (.constant 1)))).text = "3 / 4 * -(x - 1)" := by decide +kernel
  have hparsed := parts_of_text.1 _ hguard
  have hparsed' := parts_of_text.2 _ hformula
  rw [htext] at hparsed
  rw [htext'] at hparsed'
  exact ⟨hparsed, hparsed'⟩

end PiecewiseLinear
