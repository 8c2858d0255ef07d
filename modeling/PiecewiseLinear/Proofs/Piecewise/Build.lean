import PiecewiseLinear.Proofs.Piecewise.Compile

/-!
# Built definitions

What the calls that build a definition come to. Guards and formulas are paired by their
positions when the definition is compiled, and not by the calls that added them.

- `Definition.guards_build`, `Definition.formulas_build`: what calls gather.
- `Definition.evaluate_guard`, `Definition.evaluate_last`: the values of a compiled definition by
  positions.
- `Definition.evaluate_build`: the values of a built definition.
- `Definition.evaluate_build_ne`: a branch that is added behind the formula for all other
  arguments does not get its own formula.
-/

namespace PiecewiseLinear

/-! ## What calls gather -/

/-- Whether a call adds a formula alone. -/
def BuildCall.isOtherwise : BuildCall → Bool
  | branch _ _ => false
  | otherwise _ => true

/-- The calls for branches, and a last call for all other arguments. -/
def BuildCall.inOrder (branches : List (Guard × Formula)) (last : Option Formula) :
    List BuildCall :=
  branches.map (fun b => branch b.1 b.2) ++ last.toList.map otherwise

namespace Definition

variable {d : Definition} {name : String} {calls : List BuildCall} {f : Piecewise} {x : Float}

theorem guards_apply (call : BuildCall) :
    (d.apply call).guards = d.guards ++ call.guard?.toList := by
  cases call with
  | branch guard formula => rfl
  | otherwise formula => exact (List.append_nil _).symm

theorem formulas_apply (call : BuildCall) :
    (d.apply call).formulas = d.formulas ++ [call.formula] := by
  cases call with
  | branch guard formula => rfl
  | otherwise formula => rfl

theorem guards_foldl_apply :
    (calls.foldl apply d).guards = d.guards ++ calls.filterMap BuildCall.guard? := by
  induction calls generalizing d with
  | nil => exact (List.append_nil _).symm
  | cons call calls ih =>
    rw [List.foldl_cons, ih, guards_apply, List.append_assoc, List.filterMap_cons]
    cases call.guard? <;> rfl

theorem formulas_foldl_apply :
    (calls.foldl apply d).formulas = d.formulas ++ calls.map BuildCall.formula := by
  induction calls generalizing d with
  | nil => exact (List.append_nil _).symm
  | cons call calls ih =>
    rw [List.foldl_cons, ih, formulas_apply, List.append_assoc, List.map_cons]
    rfl

theorem guards_build : (build name calls).guards = calls.filterMap BuildCall.guard? :=
  guards_foldl_apply

theorem formulas_build : (build name calls).formulas = calls.map BuildCall.formula :=
  formulas_foldl_apply

/-- Every call adds a formula, and all but those for other arguments a guard. -/
theorem length_guards_add (calls : List BuildCall) :
    (calls.filterMap BuildCall.guard?).length + calls.countP BuildCall.isOtherwise =
      calls.length := by
  induction calls with
  | nil => rfl
  | cons call calls ih =>
    cases call with
    | branch guard formula =>
      have hguard : BuildCall.guard? (.branch guard formula) = some guard := rfl
      have hcall : ¬ BuildCall.isOtherwise (.branch guard formula) = true := Bool.false_ne_true
      rw [List.filterMap_cons_some hguard, List.countP_cons_of_neg hcall, List.length_cons,
        List.length_cons]
      omega
    | otherwise formula =>
      have hguard : BuildCall.guard? (.otherwise formula) = none := rfl
      have hcall : BuildCall.isOtherwise (.otherwise formula) = true := rfl
      rw [List.filterMap_cons_none hguard, List.countP_cons_of_pos hcall, List.length_cons]
      omega

/-! ## Values by positions -/

/-- Where a guard holds, the value is that of the formula at the same position. -/
theorem evaluate_guard (h : d.compile = .ok f) {i : Nat} {g : Guard} {formula : Formula}
    (hg : d.guards[i]? = some g) (hformula : d.formulas[i]? = some formula)
    (hx : x.isFinite = true) (hholds : g.holdsAt x = true) :
    f.evaluate x = some (formula.value x) := by
  obtain ⟨rs, hregions, -, hassemble⟩ := of_compile h
  have hassembled := Piecewise.assembled_of_assemble (Guard.reachable_of_forall₂ hregions) hassemble
  -- the region and the function at the position of the guard
  obtain ⟨hi, rfl⟩ := List.getElem?_eq_some_iff.mp hg
  have hi' : i < rs.length := hregions.length_eq ▸ hi
  have hregion : Guard.HasRegion d.guards[i] rs[i] := hregions.get hi hi'
  have hdomain : f.domains[i]? = some rs[i] := by
    rcases hassembled.domains_eq with ⟨heq, -⟩ | ⟨heq, -⟩
    · rw [heq, List.getElem?_eq_getElem hi']
    · rw [heq, List.getElem?_append_left hi', List.getElem?_eq_getElem hi']
  have hvalue : (f.branches.map Branch.value)[i]? = some formula.value := by
    rw [hassembled.values_eq, List.getElem?_map, hformula, Option.map_some]
  rw [Piecewise.domains, List.getElem?_map, Option.map_eq_some_iff] at hdomain
  rw [List.getElem?_map, Option.map_eq_some_iff] at hvalue
  obtain ⟨b, hb, hdomain⟩ := hdomain
  obtain ⟨b', hb', hvalue⟩ := hvalue
  obtain rfl := Option.some.inj (hb.symm.trans hb')
  have hmem : x ∈ b.domain := by
    rw [hdomain, hregion.mem_iff x hx]
    exact hholds
  rw [hassembled.evaluate_eq hb hmem, hvalue]

/-- Where no guard holds, trying the guards ends with the formula behind theirs, if there is one. -/
theorem value_outcomeFrom_of_forall_not {gs : List Guard} {fs : List Formula}
    (h : ∀ g ∈ gs, g.holdsAt x = false) :
    (Script.Walk.outcomeFrom x .passes gs fs).value = fs[gs.length]?.map (·.value x) := by
  induction gs generalizing fs with
  | nil => cases fs <;> rfl
  | cons g gs ih =>
    rw [List.forall_mem_cons] at h
    cases fs with
    | nil => rfl
    | cons formula fs =>
      rw [Script.Walk.outcomeFrom, h.1, if_neg Bool.false_ne_true, ih h.2]
      rfl

/-- Where no guard holds, the value is that of the formula behind those of the guards. -/
theorem evaluate_last (h : d.compile = .ok f) (hx : x.isFinite = true)
    (hnone : ∀ g ∈ d.guards, g.holdsAt x = false) :
    f.evaluate x = d.formulas[d.guards.length]?.map (·.value x) := by
  have hlast : Script.Outcome.passes.value = none := rfl
  rw [evaluate_of_compile h hlast hx, value_outcomeFrom_of_forall_not hnone]

/-- A definition that compiles has a formula for each guard, and perhaps one more. -/
theorem length_of_compile (h : d.compile = .ok f) :
    d.formulas.length = d.guards.length ∨ d.formulas.length = d.guards.length + 1 := by
  obtain ⟨rs, hregions, -, hassemble⟩ := of_compile h
  rw [hregions.length_eq, ← List.length_map Formula.value]
  rcases Piecewise.of_assemble hassemble with ⟨hlength, -⟩ | ⟨hlength, -⟩
  · exact .inl hlength
  · exact .inr hlength

/-! ## Values by calls -/

/-- Two calls for all other arguments are never accepted. -/
theorem countP_isOtherwise_le (h : (build name calls).compile = .ok f) :
    calls.countP BuildCall.isOtherwise ≤ 1 := by
  have hlength := length_of_compile h
  rw [guards_build, formulas_build, List.length_map] at hlength
  have hadd := length_guards_add calls
  omega

/-- The value where no guard holds is that of the last call. -/
theorem evaluate_build_last (h : (build name calls).compile = .ok f) (hx : x.isFinite = true)
    (hnone : ∀ g ∈ calls.filterMap BuildCall.guard?, g.holdsAt x = false) :
    f.evaluate x = if calls.any BuildCall.isOtherwise then
      calls.getLast?.map (·.formula.value x) else none := by
  rw [← @guards_build name] at hnone
  rw [evaluate_last h hx hnone, guards_build, formulas_build, List.getElem?_map, Option.map_map]
  have hcount := countP_isOtherwise_le h
  have hadd := length_guards_add calls
  cases hany : calls.any BuildCall.isOtherwise with
  | false =>
    have hzero : calls.countP BuildCall.isOtherwise = 0 := by
      rw [List.countP_eq_zero]
      simpa using hany
    rw [List.getElem?_eq_none (by omega)]
    rfl
  | true =>
    have hpos : 0 < calls.countP BuildCall.isOtherwise := by
      rw [List.countP_pos_iff]
      simpa using hany
    have hlast : (calls.filterMap BuildCall.guard?).length = calls.length - 1 := by omega
    rw [hlast, ← List.getLast?_eq_getElem?]
    rfl

/-- Calls in order build the guards of the branches, to which the last call adds none. -/
theorem guards_inOrder (branches : List (Guard × Formula)) (last : Option Formula) :
    (build name (BuildCall.inOrder branches last)).guards = branches.map (·.1) := by
  have hlast : last.toList.filterMap (BuildCall.guard? ∘ BuildCall.otherwise) = [] := by
    cases last <;> rfl
  have hbranches (bs : List (Guard × Formula)) :
      bs.filterMap (BuildCall.guard? ∘ fun b => BuildCall.branch b.1 b.2) = bs.map (·.1) :=
    congrFun List.filterMap_eq_map bs
  rw [guards_build, BuildCall.inOrder, List.filterMap_append, List.filterMap_map,
    List.filterMap_map, hbranches, hlast, List.append_nil]

theorem formulas_inOrder (branches : List (Guard × Formula)) (last : Option Formula) :
    (build name (BuildCall.inOrder branches last)).formulas =
      branches.map (·.2) ++ last.toList := by
  rw [formulas_build, BuildCall.inOrder, List.map_append, List.map_map, List.map_map]
  cases last <;> rfl

/-- Every branch has its own formula when the call for all other arguments comes last. -/
theorem evaluate_inOrder {branches : List (Guard × Formula)} {last : Option Formula}
    (h : (build name (BuildCall.inOrder branches last)).compile = .ok f) (hx : x.isFinite = true) :
    (∀ b ∈ branches, b.1.holdsAt x = true → f.evaluate x = some (b.2.value x)) ∧
      ((∀ b ∈ branches, b.1.holdsAt x = false) → f.evaluate x = last.map (·.value x)) := by
  have hguards := @guards_inOrder name branches last
  have hformulas := @formulas_inOrder name branches last
  constructor
  · intro b hb hholds
    obtain ⟨i, hi⟩ := List.mem_iff_getElem?.mp hb
    have hi' : i < (branches.map (·.2)).length := by
      rw [List.length_map]
      exact (List.getElem?_eq_some_iff.mp hi).1
    refine @evaluate_guard _ _ _ h i b.1 b.2 ?_ ?_ hx hholds
    · rw [hguards, List.getElem?_map, hi, Option.map_some]
    · rw [hformulas, List.getElem?_append_left hi', List.getElem?_map, hi, Option.map_some]
  · intro hnone
    have hlast : ((branches.map (·.2)) ++ last.toList)[branches.length]? = last := by
      rw [List.getElem?_append_right (by rw [List.length_map]), List.length_map, Nat.sub_self]
      cases last <;> rfl
    rw [evaluate_last h hx (by rw [hguards]; exact List.forall_mem_map.mpr hnone), hguards,
      hformulas, List.length_map, hlast]

/-- **Built definitions by their calls.** Of the calls that build a definition that compiles one
at most adds a formula alone. Where the guard of the `i`-th call for a branch holds, the value
is that of the `i`-th call of all, and where no guard holds it is that of the last call, if there
is one for all other arguments. So each branch has its own formula when that call comes last. -/
theorem evaluate_build (h : (build name calls).compile = .ok f) :
    calls.countP BuildCall.isOtherwise ≤ 1 ∧
    (∀ (i : Nat) (g : Guard) (call : BuildCall),
      (calls.filterMap BuildCall.guard?)[i]? = some g → calls[i]? = some call →
      ∀ x : Float, x.isFinite = true → g.holdsAt x = true →
        f.evaluate x = some (call.formula.value x)) ∧
    (∀ x : Float, x.isFinite = true →
      (∀ g ∈ calls.filterMap BuildCall.guard?, g.holdsAt x = false) →
        f.evaluate x = if calls.any BuildCall.isOtherwise then
          calls.getLast?.map (·.formula.value x) else none) ∧
    ∀ (branches : List (Guard × Formula)) (last : Option Formula),
      calls = BuildCall.inOrder branches last → ∀ x : Float, x.isFinite = true →
      (∀ b ∈ branches, b.1.holdsAt x = true → f.evaluate x = some (b.2.value x)) ∧
        ((∀ b ∈ branches, b.1.holdsAt x = false) → f.evaluate x = last.map (·.value x)) := by
  refine ⟨countP_isOtherwise_le h, ?_, ?_, ?_⟩
  · intro i g call hg hcall x hx hholds
    rw [← @guards_build name] at hg
    have hformula : (build name calls).formulas[i]? = some call.formula := by
      rw [formulas_build, List.getElem?_map, hcall, Option.map_some]
    exact evaluate_guard h hg hformula hx hholds
  · intro x hx hnone
    exact evaluate_build_last h hx hnone
  · rintro branches last rfl x hx
    exact evaluate_inOrder h hx

/-- Two branches and a value for all other arguments, added in this order. -/
theorem evaluate_build_in_order :
    ∃ f, (build "d" (BuildCall.inOrder [(.link .argument .lt (.constant 0), .constant 1),
        (.link .argument .gt (.constant 0), .constant 2)] (some (.constant 3)))).compile = .ok f ∧
      f.evaluate (-1) = some 1 ∧ f.evaluate 1 = some 2 ∧ f.evaluate 0 = some 3 := by
  have hok : (build "d" (BuildCall.inOrder [(.link .argument .lt (.constant 0), .constant 1),
      (.link .argument .gt (.constant 0), .constant 2)] (some (.constant 3)))).compile.toBool =
      true := by
    decide +kernel
  cases h : (build "d" (BuildCall.inOrder [(.link .argument .lt (.constant 0), .constant 1),
      (.link .argument .gt (.constant 0), .constant 2)] (some (.constant 3)))).compile with
  | error e =>
    rw [h] at hok
    cases hok
  | ok f =>
    obtain ⟨-, -, -, hinOrder⟩ := evaluate_build h
    have hvalues := hinOrder _ _ rfl
    refine ⟨f, rfl, ?_, ?_, ?_⟩
    · exact (hvalues (-1) (by decide)).1 _ List.mem_cons_self (by decide)
    · exact (hvalues 1 (by decide)).1 _ (List.mem_cons_of_mem _ List.mem_cons_self) (by decide)
    · refine (hvalues 0 (by decide)).2 ?_
      simp only [List.forall_mem_cons]
      exact ⟨by decide, by decide, nofun⟩

/-- A branch that is added behind the value for all other arguments has that value, and its own
one is the value everywhere else. -/
theorem evaluate_build_ne :
    ¬ ∀ (calls : List BuildCall) (f : Piecewise), (build "d" calls).compile = .ok f →
      ∀ (g : Guard) (formula : Formula), .branch g formula ∈ calls →
        ∀ x : Float, x.isFinite = true → g.holdsAt x = true →
          f.evaluate x = some (formula.value x) := by
  intro hall
  have hok : ((build "d" [.otherwise (.constant 1),
      .branch (.link .argument .gt (.constant 0)) (.constant 2)]).compile.toOption.bind
        (·.evaluate 1)) = some 1 := by
    decide +kernel
  cases h : (build "d" [.otherwise (.constant 1),
      .branch (.link .argument .gt (.constant 0)) (.constant 2)]).compile with
  | error e =>
    rw [h] at hok
    cases hok
  | ok f =>
    rw [h] at hok
    have hvalue : f.evaluate 1 = some 1 := hok
    have hclaim := hall _ f h _ _ (List.mem_cons_of_mem _ List.mem_cons_self) 1 (by decide)
      (by decide)
    rw [hvalue, Option.some.injEq] at hclaim
    exact absurd hclaim (by decide)

end Definition

end PiecewiseLinear
