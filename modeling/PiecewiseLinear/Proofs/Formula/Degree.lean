import PiecewiseLinear.Formula.Degree
import PiecewiseLinear.Proofs.Except

/-!
# Admitted formulas

Which formulas have a degree, said without computing one.

- `Formula.mentionsArgument`: whether the argument occurs in a formula.
- `Formula.AdmittedIn`, `Formula.Admitted`: the formulas that are admitted over a number system
  and over doubles.
- `Formula.valueIn_eq_of_not_mentions`: a formula without the argument is a number.
- `Formula.degreeIn_eq_ok_iff`: an admitted formula has degree one where the argument occurs and
  zero elsewhere, and no other formula has a degree.
- `Formula.toFunctionIn_eq_ok_iff`: which formulas become functions.
-/

namespace PiecewiseLinear.Formula

variable {α : Type}

/-- Whether the argument occurs in a formula. -/
def mentionsArgument : Formula → Bool
  | constant _ | unsupported _ => false
  | argument => true
  | neg inner => inner.mentionsArgument
  | arith lhs _ rhs => lhs.mentionsArgument || rhs.mentionsArgument

/-- Formulas that are polynomials of degree at most one by their form: signs stand before the
argument or a number only, the argument occurs in one factor of a product at most, and a
denominator is a number other than zero. -/
inductive AdmittedIn (system : Arithmetic α) : Formula → Prop where
  | constant (v : Float) : AdmittedIn system (constant v)
  | argument : AdmittedIn system argument
  | negConstant (v : Float) : AdmittedIn system (neg (.constant v))
  | negArgument : AdmittedIn system (neg .argument)
  | sum {lhs rhs : Formula} {op : Arith} : op = .add ∨ op = .sub → AdmittedIn system lhs →
    AdmittedIn system rhs → AdmittedIn system (arith lhs op rhs)
  | product {lhs rhs : Formula} : AdmittedIn system lhs → AdmittedIn system rhs →
    lhs.mentionsArgument = false ∨ rhs.mentionsArgument = false →
    AdmittedIn system (arith lhs .mul rhs)
  | quotient {lhs rhs : Formula} : AdmittedIn system lhs → AdmittedIn system rhs →
    rhs.mentionsArgument = false → (∀ x, system.isZero (rhs.valueIn system x) = false) →
    AdmittedIn system (arith lhs .div rhs)

/-- The formulas that are admitted over doubles. -/
def Admitted (formula : Formula) : Prop := formula.AdmittedIn .double

variable {system : Arithmetic α} {formula lhs rhs : Formula}

/-- A formula without the argument is a number. -/
theorem valueIn_eq_of_not_mentions (h : formula.mentionsArgument = false) (x y : α) :
    formula.valueIn system x = formula.valueIn system y := by
  induction formula with
  | constant v => rfl
  | argument => cases h
  | neg inner ih => rw [valueIn, valueIn, ih h]
  | arith lhs op rhs ihl ihr =>
    rw [mentionsArgument, Bool.or_eq_false_iff] at h
    rw [valueIn, valueIn, ihl h.1, ihr h.2]
  | unsupported source => rfl

/-- The degree of an admitted formula by what occurs in it. -/
def argumentDegree (formula : Formula) : Nat := formula.mentionsArgument.toNat

theorem argumentDegree_arith {op : Arith} :
    (arith lhs op rhs).argumentDegree = max lhs.argumentDegree rhs.argumentDegree := by
  unfold argumentDegree
  rw [mentionsArgument]
  cases lhs.mentionsArgument <;> cases rhs.mentionsArgument <;> rfl

theorem argumentDegree_eq_zero_iff :
    formula.argumentDegree = 0 ↔ formula.mentionsArgument = false := by
  unfold argumentDegree
  cases formula.mentionsArgument <;> simp

/-- A product of two formulas of known degrees, where not both are one. -/
theorem argumentDegree_add (h : lhs.mentionsArgument = false ∨ rhs.mentionsArgument = false)
    {op : Arith} :
    lhs.argumentDegree + rhs.argumentDegree = (arith lhs op rhs).argumentDegree := by
  rw [argumentDegree_arith]
  unfold argumentDegree
  rcases h with h | h <;> simp [h]

/-- Only admitted formulas have a degree, by induction over the formula. -/
theorem admittedIn_of_degreeIn {n : Nat} (h : formula.degreeIn system = .ok n) :
    formula.AdmittedIn system ∧ n = formula.argumentDegree := by
  induction formula generalizing n with
  | constant v =>
    cases h
    exact ⟨.constant v, rfl⟩
  | argument =>
    cases h
    exact ⟨.argument, rfl⟩
  | unsupported source => cases h
  | neg inner _ =>
    cases inner with
    | constant v =>
      cases h
      exact ⟨.negConstant v, rfl⟩
    | argument =>
      cases h
      exact ⟨.negArgument, rfl⟩
    | neg | arith | unsupported => cases h
  | arith lhs op rhs ihl ihr =>
    obtain ⟨left, hleft, h⟩ := bind_eq_ok_iff.mp h
    obtain ⟨right, hright, h⟩ := bind_eq_ok_iff.mp h
    obtain ⟨hl, rfl⟩ := ihl hleft
    obtain ⟨hr, rfl⟩ := ihr hright
    cases op with
    | add =>
      cases h
      exact ⟨.sum (.inl rfl) hl hr, argumentDegree_arith.symm⟩
    | sub =>
      cases h
      exact ⟨.sum (.inr rfl) hl hr, argumentDegree_arith.symm⟩
    | mul =>
      dsimp only at h
      split_ifs at h with hdegree
      cases h
      have hfactor : lhs.mentionsArgument = false ∨ rhs.mentionsArgument = false := by
        rw [← argumentDegree_eq_zero_iff, ← argumentDegree_eq_zero_iff]
        omega
      exact ⟨.product hl hr hfactor, argumentDegree_add hfactor⟩
    | div =>
      dsimp only at h
      split_ifs at h with hdegree hzero
      cases h
      have hnumber : rhs.mentionsArgument = false :=
        argumentDegree_eq_zero_iff.mp (Nat.eq_zero_of_not_pos hdegree)
      refine ⟨.quotient hl hr hnumber ?_, ?_⟩
      · intro x
        rwa [valueIn_eq_of_not_mentions hnumber x (system.constant Double.zero),
          ← Bool.not_eq_true]
      · rw [← argumentDegree_add (.inr hnumber), argumentDegree_eq_zero_iff.mpr hnumber]
        rfl

/-- Every admitted formula has a degree. -/
theorem AdmittedIn.degreeIn_eq (h : formula.AdmittedIn system) :
    formula.degreeIn system = .ok formula.argumentDegree := by
  induction h with
  | constant v => rfl
  | argument => rfl
  | negConstant v => rfl
  | negArgument => rfl
  | @sum lhs rhs op hop _ _ ihl ihr =>
    rw [argumentDegree_arith]
    refine bind_eq_ok_iff.mpr ⟨_, ihl, bind_eq_ok_iff.mpr ⟨_, ihr, ?_⟩⟩
    rcases hop with rfl | rfl <;> rfl
  | @product lhs rhs _ _ hfactor ihl ihr =>
    refine bind_eq_ok_iff.mpr ⟨_, ihl, bind_eq_ok_iff.mpr ⟨_, ihr, ?_⟩⟩
    have hdegree : ¬ lhs.argumentDegree + rhs.argumentDegree > 1 := by
      unfold argumentDegree
      rcases hfactor with h | h <;> rw [h] <;> simp [Bool.toNat_le]
    show (if lhs.argumentDegree + rhs.argumentDegree > 1 then _ else _) = _
    rw [if_neg hdegree, argumentDegree_add hfactor]
    rfl
  | @quotient lhs rhs _ _ hnumber hzero ihl ihr =>
    refine bind_eq_ok_iff.mpr ⟨_, ihl, bind_eq_ok_iff.mpr ⟨_, ihr, ?_⟩⟩
    have hdegree := argumentDegree_eq_zero_iff.mpr hnumber
    show (if rhs.argumentDegree > 0 then _
      else if system.isZero (rhs.valueIn system (system.constant Double.zero)) = true then _
      else _) = _
    rw [hdegree, if_neg (Nat.lt_irrefl 0), hzero, if_neg Bool.false_ne_true,
      ← argumentDegree_add (.inr hnumber), hdegree]
    rfl

/-- An admitted formula has degree one where the argument occurs in it and zero
elsewhere, and no other formula has a degree. -/
theorem degreeIn_eq_ok_iff {n : Nat} :
    formula.degreeIn system = .ok n ↔ formula.AdmittedIn system ∧ n = formula.argumentDegree := by
  constructor
  · exact admittedIn_of_degreeIn
  · rintro ⟨hadmitted, rfl⟩
    exact hadmitted.degreeIn_eq

/-- Exactly the formulas with a degree become functions, and each one becomes its value. -/
theorem toFunctionIn_eq_ok_iff {v : α → α} :
    formula.toFunctionIn system = .ok v ↔
      (∃ degree, formula.degreeIn system = .ok degree) ∧ (formula.valueIn system ·) = v := by
  rw [toFunctionIn, bind_eq_ok_iff]
  simp only [pure_eq_ok_iff]
  constructor
  · rintro ⟨degree, hdegree, rfl⟩
    exact ⟨⟨degree, hdegree⟩, rfl⟩
  · rintro ⟨⟨degree, hdegree⟩, rfl⟩
    exact ⟨degree, hdegree, rfl⟩

/-- A formula is admitted over doubles when it has a degree. -/
theorem admitted_iff : formula.Admitted ↔ ∃ degree, formula.degree = .ok degree := by
  constructor
  · intro h
    exact ⟨_, h.degreeIn_eq⟩
  · rintro ⟨degree, h⟩
    exact (degreeIn_eq_ok_iff.mp h).1

end PiecewiseLinear.Formula
