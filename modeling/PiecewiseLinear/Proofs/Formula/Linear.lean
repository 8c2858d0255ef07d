import PiecewiseLinear.Proofs.Formula.Degree

/-!
# The linear formulas

Which formulas are admitted, said of each of their parts on its own, and what computing an
admitted formula meets.

- `Formula.mentionsArgument_iff`: the argument is mentioned where it is a part.
- `Formula.WellPlacedIn`, `Formula.LinearIn`: what is asked of a part, and of all parts.
- `Formula.admittedIn_iff_linearIn`: those formulas are the admitted ones.
- `Formula.value_tracedIn`: tracing a computation leaves its value as it is.
- `Formula.division_mem_events_iff`, `Formula.foreign_mem_events_iff`: what is met are the divisors
  of all quotients among the parts, and all that is no formula.
- `Formula.AdmittedIn.events_eq`, `Formula.AdmittedIn.events_ne_zero`: the divisors do not depend
  on the argument, and none of them is zero.
- `Formula.toFunction_outcome`: which formulas become functions, and how these are computed.
-/

namespace PiecewiseLinear.Formula

variable {α : Type} {system : Arithmetic α} {formula lhs rhs : Formula}

/-! ## Linear part by part -/

/-- The argument is mentioned in a formula where it is one of its parts. -/
theorem mentionsArgument_iff : formula.mentionsArgument = true ↔ argument ∈ formula.parts := by
  induction formula with
  | constant v => simp [mentionsArgument, parts]
  | argument => simp [mentionsArgument, parts]
  | neg inner ih => simp [mentionsArgument, parts, ih]
  | arith lhs op rhs ihl ihr => simp [mentionsArgument, parts, ihl, ihr]
  | unsupported source => simp [mentionsArgument, parts]

theorem mentionsArgument_eq_false_iff :
    formula.mentionsArgument = false ↔ argument ∉ formula.parts := by
  rw [← mentionsArgument_iff, Bool.not_eq_true]

/-- What is asked of a part on its own: a sign stands before the argument or a number, at most
one factor of a product has the argument in it, and a denominator comes to a number other than
zero, without the argument. -/
def WellPlacedIn (system : Arithmetic α) : Formula → Prop
  | constant _ | argument | arith _ .add _ | arith _ .sub _ => True
  | neg inner => inner = argument ∨ ∃ v, inner = constant v
  | arith lhs .mul rhs => argument ∉ lhs.parts ∨ argument ∉ rhs.parts
  | arith _ .div rhs =>
    argument ∉ rhs.parts ∧ ∃ d, (∀ x, rhs.valueIn system x = d) ∧ system.isZero d = false
  | unsupported _ => False

/-- Each part of the formula is well placed. -/
def LinearIn (system : Arithmetic α) (formula : Formula) : Prop :=
  ∀ part ∈ formula.parts, part.WellPlacedIn system

theorem linearIn_neg {inner : Formula} :
    (neg inner).LinearIn system ↔ (neg inner).WellPlacedIn system ∧ inner.LinearIn system := by
  rw [LinearIn, parts, List.forall_mem_cons]
  rfl

theorem linearIn_arith {op : Arith} :
    (arith lhs op rhs).LinearIn system ↔
      (arith lhs op rhs).WellPlacedIn system ∧ lhs.LinearIn system ∧ rhs.LinearIn system := by
  rw [LinearIn, parts, List.forall_mem_cons, List.forall_mem_append]
  rfl

theorem linearIn_constant (v : Float) : (constant v).LinearIn system :=
  List.forall_mem_singleton.mpr trivial

theorem linearIn_argument : argument.LinearIn system := List.forall_mem_singleton.mpr trivial

/-- All parts of an admitted formula are well placed, the formula itself among them. -/
theorem AdmittedIn.linearIn (h : formula.AdmittedIn system) : formula.LinearIn system := by
  induction h with
  | constant v => exact linearIn_constant v
  | argument => exact linearIn_argument
  | negConstant v => exact linearIn_neg.mpr ⟨.inr ⟨v, rfl⟩, linearIn_constant v⟩
  | negArgument => exact linearIn_neg.mpr ⟨.inl rfl, linearIn_argument⟩
  | sum hop _ _ ihl ihr =>
    refine linearIn_arith.mpr ⟨?_, ihl, ihr⟩
    rcases hop with rfl | rfl <;> exact trivial
  | product _ _ hfactor ihl ihr =>
    rw [mentionsArgument_eq_false_iff, mentionsArgument_eq_false_iff] at hfactor
    exact linearIn_arith.mpr ⟨hfactor, ihl, ihr⟩
  | @quotient lhs rhs _ _ hnumber hzero ihl ihr =>
    refine linearIn_arith.mpr ⟨⟨mentionsArgument_eq_false_iff.mp hnumber, ?_⟩, ihl, ihr⟩
    -- any number will do for the argument that is not there
    let x := system.undefined
    exact ⟨rhs.valueIn system x, fun y => valueIn_eq_of_not_mentions hnumber y x, hzero x⟩

/-- A formula is admitted where all of its parts are well placed, since those of its two sides are
among them. -/
theorem admittedIn_of_linearIn (h : formula.LinearIn system) : formula.AdmittedIn system := by
  induction formula with
  | constant v => exact .constant v
  | argument => exact .argument
  | neg inner _ =>
    rcases (linearIn_neg.mp h).1 with rfl | ⟨v, rfl⟩
    · exact .negArgument
    · exact .negConstant v
  | arith lhs op rhs ihl ihr =>
    obtain ⟨hplaced, hlhs, hrhs⟩ := linearIn_arith.mp h
    cases op with
    | add => exact .sum (.inl rfl) (ihl hlhs) (ihr hrhs)
    | sub => exact .sum (.inr rfl) (ihl hlhs) (ihr hrhs)
    | mul =>
      refine .product (ihl hlhs) (ihr hrhs) ?_
      rwa [mentionsArgument_eq_false_iff, mentionsArgument_eq_false_iff]
    | div =>
      obtain ⟨hnumber, d, hvalue, hzero⟩ := hplaced
      refine .quotient (ihl hlhs) (ihr hrhs) (mentionsArgument_eq_false_iff.mpr hnumber) ?_
      intro x
      rw [hvalue x, hzero]
  | unsupported source => exact (h _ (List.mem_singleton_self _)).elim

/-- The admitted formulas are those of which each part is well placed. -/
theorem admittedIn_iff_linearIn : formula.AdmittedIn system ↔ formula.LinearIn system :=
  ⟨AdmittedIn.linearIn, admittedIn_of_linearIn⟩

/-! ## What a computation meets -/

/-- Tracing a computation leaves its value as it is. -/
theorem value_tracedIn (x : α) (formula : Formula) :
    (formula.tracedIn system x).value = formula.valueIn system x := by
  induction formula with
  | constant v => rfl
  | argument => rfl
  | neg inner ih => rw [tracedIn, valueIn, ih]
  | arith lhs op rhs ihl ihr => rw [tracedIn, valueIn, ihl, ihr]
  | unsupported source => rfl

/-- An operation meets what its two sides meet and then, if it is a division, its divisor. -/
theorem events_arith (x : α) (op : Arith) :
    ((arith lhs op rhs).tracedIn system x).events =
      (lhs.tracedIn system x).events ++ (rhs.tracedIn system x).events ++
        divisions op (rhs.valueIn system x) := by
  rw [← value_tracedIn x rhs]
  rfl

theorem division_mem_divisions_iff {op : Arith} {d e : α} :
    .division d ∈ divisions op e ↔ op = .div ∧ d = e := by
  cases op <;> simp [divisions]

theorem foreign_notMem_divisions (op : Arith) (d : α) (source : String) :
    .foreign source ∉ divisions op d := by
  cases op <;> simp [divisions]

/-- The divisors that are met are those of the quotients among the parts: none is left out, and no
other one is met. -/
theorem division_mem_events_iff {x d : α} :
    .division d ∈ (formula.tracedIn system x).events ↔
      ∃ lhs rhs, arith lhs .div rhs ∈ formula.parts ∧ d = rhs.valueIn system x := by
  induction formula with
  | constant v => simp [tracedIn, parts]
  | argument => simp [tracedIn, parts]
  | neg inner ih => simp [tracedIn, parts, ih]
  | arith lhs op rhs ihl ihr =>
    rw [events_arith, List.mem_append, List.mem_append, ihl, ihr, division_mem_divisions_iff]
    simp only [parts, List.mem_cons, List.mem_append, arith.injEq]
    constructor
    · rintro ((⟨l, r, hpart, hd⟩ | ⟨l, r, hpart, hd⟩) | ⟨rfl, hd⟩)
      · exact ⟨l, r, .inr (.inl hpart), hd⟩
      · exact ⟨l, r, .inr (.inr hpart), hd⟩
      · exact ⟨lhs, rhs, .inl ⟨rfl, rfl, rfl⟩, hd⟩
    · rintro ⟨l, r, ⟨rfl, rfl, rfl⟩ | hpart | hpart, hd⟩
      · exact .inr ⟨rfl, hd⟩
      · exact .inl (.inl ⟨l, r, hpart, hd⟩)
      · exact .inl (.inr ⟨l, r, hpart, hd⟩)
  | unsupported source => simp [tracedIn, parts]

/-- What is no formula is met wherever it is one of the parts. -/
theorem foreign_mem_events_iff {x : α} {source : String} :
    .foreign source ∈ (formula.tracedIn system x).events ↔
      unsupported source ∈ formula.parts := by
  induction formula with
  | constant v => simp [tracedIn, parts]
  | argument => simp [tracedIn, parts]
  | neg inner ih => simp [tracedIn, parts, ih]
  | arith lhs op rhs ihl ihr => simp [events_arith, parts, ihl, ihr, foreign_notMem_divisions]
  | unsupported source => simp [tracedIn, parts]

/-- An admitted formula divides by the same numbers whatever the argument is. -/
theorem AdmittedIn.events_eq (h : formula.AdmittedIn system) (x y : α) :
    (formula.tracedIn system x).events = (formula.tracedIn system y).events := by
  induction h with
  | constant v => rfl
  | argument => rfl
  | negConstant v => rfl
  | negArgument => rfl
  | sum hop _ _ ihl ihr =>
    rw [events_arith, events_arith, ihl, ihr]
    rcases hop with rfl | rfl <;> rfl
  | product _ _ _ ihl ihr =>
    rw [events_arith, events_arith, ihl, ihr]
    rfl
  | quotient _ _ hnumber _ ihl ihr =>
    rw [events_arith, events_arith, ihl, ihr, valueIn_eq_of_not_mentions hnumber x y]

/-- All that computing an admitted formula meets are divisions by numbers other than zero. -/
theorem AdmittedIn.events_ne_zero (h : formula.AdmittedIn system) (x : α) :
    ∀ event ∈ (formula.tracedIn system x).events,
      ∃ d, event = .division d ∧ system.isZero d = false := by
  intro event hevent
  cases event with
  | division d =>
    obtain ⟨lhs, rhs, hpart, rfl⟩ := division_mem_events_iff.mp hevent
    obtain ⟨-, d, hvalue, hzero⟩ := h.linearIn _ hpart
    exact ⟨_, rfl, by rw [hvalue x, hzero]⟩
  | foreign source => exact (h.linearIn _ (foreign_mem_events_iff.mp hevent)).elim

/-! ## Functions of formulas -/

theorem degreeIn_of_mem (h : formula.AdmittedIn system)
    (hmem : argument ∈ formula.parts) : formula.degreeIn system = .ok 1 := by
  rw [h.degreeIn_eq, argumentDegree, mentionsArgument_iff.mpr hmem]
  rfl

theorem degreeIn_of_not_mem (h : formula.AdmittedIn system)
    (hmem : argument ∉ formula.parts) : formula.degreeIn system = .ok 0 := by
  rw [h.degreeIn_eq, argumentDegree, mentionsArgument_eq_false_iff.mpr hmem]
  rfl

/-- **Which formulas become functions.** They are the formulas of which each part is well
placed. Their functions compute them operation by operation. On the way they divide by the same
numbers whatever the argument is, none of which is zero, and they never ask for a value that is
not there. The degree of such a formula is one where the argument is part of it and zero
elsewhere. -/
theorem toFunction_outcome (formula : Formula) :
    ((∃ f, formula.toFunction = .ok f) ↔ formula.LinearIn .double) ∧
    ∀ f, formula.toFunction = .ok f →
      (∀ x, f x = (formula.tracedIn .double x).value) ∧
      (∀ x y, (formula.tracedIn .double x).events = (formula.tracedIn .double y).events) ∧
      (∀ x, ∀ event ∈ (formula.tracedIn .double x).events,
        ∃ d, event = .division d ∧ (d == Double.zero) = false) ∧
      (argument ∈ formula.parts → formula.degree = .ok 1) ∧
      (argument ∉ formula.parts → formula.degree = .ok 0) := by
  have hadmitted : formula.LinearIn .double ↔ ∃ degree, formula.degreeIn .double = .ok degree := by
    rw [← admittedIn_iff_linearIn]
    exact admitted_iff
  constructor
  · rw [hadmitted]
    simp only [toFunction, toFunctionIn_eq_ok_iff, exists_and_left, exists_eq', and_true]
  · intro f hf
    obtain ⟨hdegree, rfl⟩ := toFunctionIn_eq_ok_iff.mp hf
    have h := admittedIn_of_linearIn (hadmitted.mpr hdegree)
    refine ⟨?_, h.events_eq, h.events_ne_zero, degreeIn_of_mem h,
      degreeIn_of_not_mem h⟩
    intro x
    exact (value_tracedIn x formula).symm

/-- Two divisions one inside the other, of which the inner one comes first: by two, and then by
the quotient of three and two. -/
theorem toFunction_outcome_nested :
    let formula := arith .argument .div (.arith (.constant 3) .div (.constant 2))
    ∃ f, formula.toFunction = .ok f ∧
      ∀ x, (formula.tracedIn .double x).events = [.division 2, .division 1.5] ∧
        ∀ event ∈ (formula.tracedIn .double x).events,
          ∃ d, event = .division d ∧ (d == Double.zero) = false := by
  intro formula
  obtain ⟨-, hfunction⟩ := toFunction_outcome formula
  obtain ⟨f, hf⟩ : ∃ f, formula.toFunction = .ok f := ⟨_, rfl⟩
  have hquotient : (3 / 2 : Float) = 1.5 := by decide +kernel
  have hevents (x : Float) :
      (formula.tracedIn .double x).events = [.division 2, .division 1.5] := by
    rw [← hquotient]
    rfl
  exact ⟨f, hf, fun x => ⟨hevents x, (hfunction f hf).2.2.1 x⟩⟩

end PiecewiseLinear.Formula
