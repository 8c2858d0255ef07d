import PiecewiseLinear.Proofs.Formula.Degree
import PiecewiseLinear.Proofs.Guard.Line
import PiecewiseLinear.Proofs.Piecewise.Compile
import PiecewiseLinear.Proofs.Script.Steps

/-!
# Which scripts are accepted

Which scripts have a definition, which definitions compile, and which error comes first
elsewhere.

- `Definition.compile_eq_error_iff`: compiling fails at one of three stages.
- `Definition.PartsAdmitted`, `Definition.GuardsApart`, `Definition.Balanced`: what a definition
  has to be.
- `Definition.compile_eq_ok_iff`, `Definition.compile_guard_iff`, `Definition.compile_formula_iff`,
  `Definition.compile_overlapping_iff`: what compiling a definition comes to.
- `Script.Function.compile_outcome`: what compiling a script comes to.
-/

namespace PiecewiseLinear

/-! ## Stages -/

namespace Guard

theorem admitted_iff {g : Guard} : g.Admitted ↔ ∃ r, g.region = .ok r := by
  constructor
  · exact Admitted.exists_region
  · rintro ⟨r, hr⟩
    exact (hasRegion hr).admitted

theorem regions_eq_error_iff {gs : List Guard} {e : GuardError} :
    regions gs = .error e ↔ FirstRefused Admitted region gs e := by
  rw [regions_eq_mapM, mapM_eq_error_iff fun _ => admitted_iff]

/-- Guards have regions together if and only if each of them is admitted. -/
theorem exists_regions_iff {gs : List Guard} :
    (∃ rs, regions gs = .ok rs) ↔ ∀ g ∈ gs, g.Admitted := by
  constructor
  · rintro ⟨rs, hrs⟩
    exact admitted_of_forall₂ (forall₂_hasRegion (fun _ _ _ => hasRegion) hrs)
  · intro h
    exact exists_regions fun g hg => (h g hg).exists_region

end Guard

namespace Formula

theorem admitted_iff_toFunction {formula : Formula} :
    formula.Admitted ↔ ∃ v, formula.toFunction = .ok v := by
  simp only [admitted_iff, toFunction_eq_ok_iff, exists_and_left, exists_eq', and_true]

/-- Formulas have functions together if and only if each is admitted, and these functions compute
them. -/
theorem mapM_toFunction_eq_ok_iff {fs : List Formula} {vs : List (Float → Float)} :
    fs.mapM toFunction = .ok vs ↔ (∀ f ∈ fs, f.Admitted) ∧ vs = fs.map value := by
  simp only [admitted_iff]
  constructor
  · exact of_mapM_toFunction
  · rintro ⟨hfs, rfl⟩
    rw [mapM_eq_ok_iff, List.forall₂_map_right_iff, List.forall₂_same]
    intro f hf
    exact toFunction_eq_ok_iff.mpr ⟨hfs f hf, rfl⟩

end Formula

/-- Regions share no real at any two places when no two of them do. -/
theorem pairwise_iff_not_overlapping {domains : List Region} :
    domains.Pairwise (fun a b => ¬ (a.reals ∩ b.reals).Nonempty) ↔
      ∀ i j, i < j → ¬ Overlapping domains i j := by
  rw [List.pairwise_iff_getElem]
  constructor
  · rintro h i j hij ⟨a, b, ha, hb, hshare⟩
    obtain ⟨hi, rfl⟩ := List.getElem?_eq_some_iff.mp ha
    obtain ⟨hj, rfl⟩ := List.getElem?_eq_some_iff.mp hb
    exact h i j hi hj hij hshare
  · intro h i j hi hj hij hshare
    exact h i j hij ⟨_, _, List.getElem?_eq_getElem hi, List.getElem?_eq_getElem hj, hshare⟩

namespace Definition

variable {d : Definition}

/-- Compiling fails at the guards, else at the formulas, else when the parts are put together. -/
theorem compile_eq_error_iff {e : BuildError} :
    d.compile = .error e ↔
      (∃ e', Guard.regions d.guards = .error e' ∧ e = .part (.guard e')) ∨
      (∃ rs, Guard.regions d.guards = .ok rs ∧
        ((∃ e', d.formulas.mapM Formula.toFunction = .error e' ∧ e = .part (.formula e')) ∨
        ∃ vs, d.formulas.mapM Formula.toFunction = .ok vs ∧
          ∃ e', Piecewise.assemble rs vs = .error e' ∧ e = .assembly e')) := by
  simp only [compile, bind_eq_error_iff, mapError_eq_error_iff, mapError_eq_ok_iff, domains, values]
  constructor
  · rintro (⟨_, ⟨e', he, rfl⟩, rfl⟩ | ⟨rs, hrs, ⟨_, ⟨e', he, rfl⟩, rfl⟩ | ⟨vs, hvs, e', he, rfl⟩⟩)
    · exact .inl ⟨e', he, rfl⟩
    · exact .inr ⟨rs, hrs, .inl ⟨e', he, rfl⟩⟩
    · exact .inr ⟨rs, hrs, .inr ⟨vs, hvs, e', he, rfl⟩⟩
  · rintro (⟨e', he, rfl⟩ | ⟨rs, hrs, ⟨e', he, rfl⟩ | ⟨vs, hvs, e', he, rfl⟩⟩)
    · exact .inl ⟨_, ⟨e', he, rfl⟩, rfl⟩
    · exact .inr ⟨rs, hrs, .inl ⟨_, ⟨e', he, rfl⟩, rfl⟩⟩
    · exact .inr ⟨rs, hrs, .inr ⟨vs, hvs, e', he, rfl⟩⟩

theorem compile_eq_ok_iff {f : Piecewise} :
    d.compile = .ok f ↔ ∃ rs, Guard.regions d.guards = .ok rs ∧
      ∃ vs, d.formulas.mapM Formula.toFunction = .ok vs ∧ Piecewise.assemble rs vs = .ok f := by
  simp only [compile, bind_eq_ok_iff, mapError_eq_ok_iff, domains, values]

/-- The first malformed guard is what is wrong with a definition, if there is one. -/
theorem compile_guard_iff {e : GuardError} :
    d.compile = .error (.part (.guard e)) ↔
      FirstRefused Guard.Admitted Guard.region d.guards e := by
  rw [← Guard.regions_eq_error_iff, compile_eq_error_iff]
  constructor
  · rintro (⟨_, he, ⟨⟩⟩ | ⟨_, _, ⟨_, _, ⟨⟩⟩ | ⟨_, _, _, _, ⟨⟩⟩⟩)
    exact he
  · intro he
    exact .inl ⟨e, he, rfl⟩

/-- The first formula that is refused is what is wrong, if no guard is malformed. -/
theorem compile_formula_iff {e : FormulaError} :
    d.compile = .error (.part (.formula e)) ↔
      (∀ g ∈ d.guards, g.Admitted) ∧
        FirstRefused Formula.Admitted Formula.toFunction d.formulas e := by
  rw [← Guard.exists_regions_iff, ← mapM_eq_error_iff fun _ => Formula.admitted_iff_toFunction,
    compile_eq_error_iff]
  constructor
  · rintro (⟨_, _, ⟨⟩⟩ | ⟨rs, hrs, ⟨_, he, ⟨⟩⟩ | ⟨_, _, _, _, ⟨⟩⟩⟩)
    exact ⟨⟨rs, hrs⟩, he⟩
  · rintro ⟨⟨rs, hrs⟩, he⟩
    exact .inr ⟨rs, hrs, .inl ⟨e, he, rfl⟩⟩

/-! ## Parts that fit together -/

/-- All parts of a definition are admitted. -/
structure PartsAdmitted (d : Definition) : Prop where
  guards : ∀ g ∈ d.guards, g.Admitted
  formulas : ∀ formula ∈ d.formulas, formula.Admitted

/-- No two guards of a definition hold at a common real. -/
def GuardsApart (d : Definition) : Prop :=
  d.guards.Pairwise fun g h => ∀ x : ℝ, ¬ (g.HoldsAtReal x ∧ h.HoldsAtReal x)

/-- There is a formula for each guard, and perhaps one more, and there is one at all. -/
structure Balanced (d : Definition) : Prop where
  formulas_ne : d.formulas ≠ []
  length : d.formulas.length = d.guards.length ∨ d.formulas.length = d.guards.length + 1

/-- All parts of a definition are admitted if and only if its guards have regions and its formulas
functions. -/
theorem exists_regions_iff :
    d.PartsAdmitted ↔ ∃ rs, Guard.regions d.guards = .ok rs ∧
      d.formulas.mapM Formula.toFunction = .ok (d.formulas.map Formula.value) := by
  constructor
  · rintro ⟨hguards, hformulas⟩
    obtain ⟨rs, hrs⟩ := Guard.exists_regions_iff.mpr hguards
    exact ⟨rs, hrs, Formula.mapM_toFunction_eq_ok_iff.mpr ⟨hformulas, rfl⟩⟩
  · rintro ⟨rs, hrs, hvs⟩
    exact ⟨Guard.exists_regions_iff.mp ⟨rs, hrs⟩, (Formula.mapM_toFunction_eq_ok_iff.mp hvs).1⟩

/-- Regions share no real where their guards hold at no common one. -/
theorem pairwise_disjoint_iff {gs : List Guard} {rs : List Region}
    (h : List.Forall₂ (fun g r => ∀ x : ℝ, x ∈ Region.reals r ↔ Guard.HoldsAtReal x g) gs rs) :
    rs.Pairwise (fun a b => ¬ (a.reals ∩ b.reals).Nonempty) ↔
      gs.Pairwise fun g h => ∀ x : ℝ, ¬ (g.HoldsAtReal x ∧ h.HoldsAtReal x) := by
  induction h with
  | nil => exact iff_of_true .nil .nil
  | @cons g r gs rs hg hgs ih =>
    rw [List.pairwise_cons, List.pairwise_cons, ih]
    refine and_congr_left fun _ => Guard.forall_mem_congr (hgs.imp ?_)
    intro g' r' hg'
    simp only [Set.not_nonempty_iff_eq_empty, Set.eq_empty_iff_forall_notMem, Set.mem_inter_iff, hg,
      hg']

/-- No two regions overlap if and only if no two guards hold at the same real. -/
theorem overlapping_iff_guards {rs : List Region} (h : Guard.regions d.guards = .ok rs) :
    overlappingPairs rs.zipIdx = [] ↔ d.GuardsApart := by
  have hregions := Guard.forall₂_hasRegion (fun _ _ _ => Guard.hasRegion) h
  rw [Guard.regions_eq_ok_iff] at h
  rw [overlappingPairs_eq_nil_iff (Guard.reachable_of_forall₂ hregions), ← pairwise_iff_not_overlapping,
    pairwise_disjoint_iff (h.imp fun _ _ hg x => Guard.mem_reals_iff hg), GuardsApart]

/-- Where the parts are admitted and fit together, only overlapping guards are refused. -/
theorem compile_of_balanced (hparts : d.PartsAdmitted) (hd : d.Balanced) :
    (d.GuardsApart ∧ ∃ f, d.compile = .ok f) ∨
      (¬ d.GuardsApart ∧ ∃ pairs, d.compile = .error (.assembly (.overlapping pairs))) := by
  obtain ⟨rs, hrs, hvs⟩ := exists_regions_iff.mp hparts
  have hregions := Guard.forall₂_hasRegion (fun _ _ _ => Guard.hasRegion) hrs
  have hfits : Piecewise.Fits rs (d.formulas.map Formula.value) := by
    rw [Piecewise.Fits, List.length_map, ← hregions.length_eq]
    exact hd.length
  have hne : d.formulas.map Formula.value ≠ [] := by
    rw [ne_eq, List.map_eq_nil_iff]
    exact hd.formulas_ne
  rw [← overlapping_iff_guards hrs]
  rcases Piecewise.assemble_of_fits (Guard.reachable_of_forall₂ hregions) hne hfits with
    ⟨hpairs, f, hf⟩ | ⟨hpairs, he⟩
  · exact .inl ⟨hpairs, f, compile_eq_ok_iff.mpr ⟨rs, hrs, _, hvs, hf⟩⟩
  · refine .inr ⟨hpairs, overlappingPairs rs.zipIdx, compile_eq_error_iff.mpr ?_⟩
    exact .inr ⟨rs, hrs, .inr ⟨_, hvs, _, he, rfl⟩⟩

theorem partsAdmitted_of_compile {f : Piecewise} (h : d.compile = .ok f) : d.PartsAdmitted := by
  obtain ⟨rs, hrs, vs, hvs, -⟩ := compile_eq_ok_iff.mp h
  exact ⟨Guard.exists_regions_iff.mp ⟨rs, hrs⟩, (Formula.mapM_toFunction_eq_ok_iff.mp hvs).1⟩

/-- Regions are put together only where all parts are admitted. -/
theorem partsAdmitted_of_assembly {e : AssemblyError} (h : d.compile = .error (.assembly e)) :
    d.PartsAdmitted := by
  rcases compile_eq_error_iff.mp h with ⟨_, _, ⟨⟩⟩ | ⟨rs, hrs, ⟨_, _, ⟨⟩⟩ | ⟨vs, hvs, _⟩⟩
  exact ⟨Guard.exists_regions_iff.mp ⟨rs, hrs⟩, (Formula.mapM_toFunction_eq_ok_iff.mp hvs).1⟩

/-- A definition compiles when its parts are admitted and its guards apart. -/
theorem compile_ok_iff (hd : d.Balanced) :
    (∃ f, d.compile = .ok f) ↔ d.PartsAdmitted ∧ d.GuardsApart := by
  constructor
  · rintro ⟨f, hf⟩
    have hparts := partsAdmitted_of_compile hf
    rcases compile_of_balanced hparts hd with ⟨hapart, -⟩ | ⟨-, pairs, he⟩
    · exact ⟨hparts, hapart⟩
    · rw [hf] at he
      cases he
  · rintro ⟨hparts, hapart⟩
    rcases compile_of_balanced hparts hd with ⟨-, hf⟩ | ⟨hnot, -⟩
    · exact hf
    · exact absurd hapart hnot

/-- What is refused once all parts are admitted are guards that overlap. -/
theorem compile_overlapping_iff (hd : d.Balanced) :
    (∃ pairs, d.compile = .error (.assembly (.overlapping pairs))) ↔
      d.PartsAdmitted ∧ ¬ d.GuardsApart := by
  constructor
  · rintro ⟨pairs, he⟩
    have hparts := partsAdmitted_of_assembly he
    rcases compile_of_balanced hparts hd with ⟨-, f, hf⟩ | ⟨hnot, -⟩
    · rw [hf] at he
      cases he
    · exact ⟨hparts, hnot⟩
  · rintro ⟨hparts, hnot⟩
    rcases compile_of_balanced hparts hd with ⟨hapart, -⟩ | ⟨-, he⟩
    · exact absurd hapart hnot
    · exact he

/-- There are no errors but those of guards, of formulas and of overlaps. -/
theorem eq_of_compile_error (hd : d.Balanced) {e : BuildError} (h : d.compile = .error e) :
    (∃ e', e = .part e') ∨ ∃ pairs, e = .assembly (.overlapping pairs) := by
  rcases compile_eq_error_iff.mp h with ⟨_, _, rfl⟩ | ⟨_, _, ⟨_, _, rfl⟩ | ⟨_, _, _, _, rfl⟩⟩
  · exact .inl ⟨_, rfl⟩
  · exact .inl ⟨_, rfl⟩
  · rcases compile_of_balanced (partsAdmitted_of_assembly h) hd with ⟨-, f, hf⟩ | ⟨-, pairs, he⟩
    · rw [hf] at h
      cases h
    · rw [he] at h
      cases h
      exact .inr ⟨pairs, rfl⟩

end Definition

/-! ## Scripts -/

namespace Script.Function

variable {f : Function}

/-- What a function offers is balanced, unless it offers nothing. -/
theorem balanced_offered (h : ¬ f.StartsNowhere) : f.offered.Balanced := by
  have hlength : f.values.length = f.tests.length ∨ f.values.length = f.tests.length + 1 :=
    length_values_reached f.steps
  rw [startsNowhere_iff] at h
  constructor
  · intro hnil
    have hvalues : f.values = [] := List.map_eq_nil_iff.mp hnil
    have htests : f.tests.length = 0 := by
      rw [hvalues, List.length_nil] at hlength
      omega
    exact h ⟨List.length_eq_zero_iff.mp htests, hvalues⟩
  · rw [offered, List.length_map, List.length_map]
    exact hlength

/-- A function has no definition if and only if it starts nowhere. -/
theorem definition_eq_error_iff {e : MalformedFunction} :
    f.definition = .error e ↔ f.StartsNowhere ∧ e = ⟨f.name⟩ := by
  rw [definition_eq, startsNowhere_iff]
  split_ifs with h
  · rw [Except.error.injEq, eq_comm, and_iff_right h]
  · exact iff_of_false nofun fun hnone => h hnone.1

/-- Any other function has one, of what it offers. -/
theorem definition_eq_ok_iff {d : Definition} :
    f.definition = .ok d ↔ ¬ f.StartsNowhere ∧ d = f.offered := by
  rw [definition_eq, startsNowhere_iff]
  split_ifs with h
  · exact iff_of_false nofun fun hsome => hsome.1 h
  · rw [Except.ok.injEq, eq_comm, and_iff_right h]

/-- Nothing behind the first step that closes a script is looked at. -/
theorem definition_append (h : f.steps.any Step.closes = true) (more : List Stmt) :
    ({ f with body := f.body ++ more } : Function).definition = f.definition := by
  have hsteps : ({ f with body := f.body ++ more } : Function).steps =
      f.steps ++ more.flatMap Stmt.steps := List.flatMap_append
  rw [definition_eq, definition_eq, offered, offered, tests, values, tests, values, hsteps,
    reached_append_of_closes h]

/-- **Which scripts are accepted.** A script has no definition when it is empty or begins with
an assignment. Any other one offers the guards and the values that are reached, in order, with
a value for each guard and perhaps one more. Its definition compiles when each guard and each
value is admitted and no two guards hold at a common real. Otherwise the error is the one of the
first malformed guard, else of the first value that is refused, else the one of an overlap, and
never one of their numbers. What is behind the first value or assignment changes nothing. -/
theorem compile_outcome (f : Function) :
    (∀ e, f.definition = .error e ↔ f.StartsNowhere ∧ e = ⟨f.name⟩) ∧
    (∀ d, f.definition = .ok d ↔ ¬ f.StartsNowhere ∧
      d = ⟨f.name, f.tests.map (Expr.toGuard f.param), f.values.map (Expr.toFormula f.param)⟩) ∧
    (f.values.length = f.tests.length ∨ f.values.length = f.tests.length + 1) ∧
    (∀ d, f.definition = .ok d →
      ((∃ p, d.compile = .ok p) ↔ d.PartsAdmitted ∧ d.GuardsApart) ∧
      (∀ e, d.compile = .error (.part (.guard e)) ↔
        FirstRefused Guard.Admitted Guard.region d.guards e) ∧
      (∀ e, d.compile = .error (.part (.formula e)) ↔
        (∀ g ∈ d.guards, g.Admitted) ∧
          FirstRefused Formula.Admitted Formula.toFunction d.formulas e) ∧
      ((∃ pairs, d.compile = .error (.assembly (.overlapping pairs))) ↔
        d.PartsAdmitted ∧ ¬ d.GuardsApart) ∧
      ∀ e, d.compile = .error e →
        (∃ e', e = .part e') ∨ ∃ pairs, e = .assembly (.overlapping pairs)) ∧
    (f.steps.any Step.closes = true → ∀ more : List Stmt,
      ({ f with body := f.body ++ more } : Function).definition = f.definition) := by
  refine ⟨?_, ?_, ?_, ?_, ?_⟩
  · intro e
    exact definition_eq_error_iff
  · intro d
    exact definition_eq_ok_iff
  · exact length_values_reached f.steps
  · intro d hd
    obtain ⟨hstarts, rfl⟩ := definition_eq_ok_iff.mp hd
    have hbalanced := balanced_offered hstarts
    refine ⟨Definition.compile_ok_iff hbalanced, ?_, ?_, ?_, ?_⟩
    · intro e
      exact Definition.compile_guard_iff
    · intro e
      exact Definition.compile_formula_iff
    · exact Definition.compile_overlapping_iff hbalanced
    · intro e he
      exact Definition.eq_of_compile_error hbalanced he
  · exact definition_append

/-- A guard and a value that are refused, and whatever stands behind the last value. -/
theorem compile_outcome_guard_first :
    ∃ d, definition ⟨"f", "x", [.cond (.ident "t") (.ident "y") none, .ret (.ident "x")]⟩ = .ok d ∧
      d.compile = .error (.part (.guard (.notComparison "t"))) ∧
      ∀ more, definition ⟨"f", "x",
        [.cond (.ident "t") (.ident "y") none, .ret (.ident "x")] ++ more⟩ = .ok d := by
  obtain ⟨-, -, -, hcompile, happend⟩ :=
    compile_outcome ⟨"f", "x", [.cond (.ident "t") (.ident "y") none, .ret (.ident "x")]⟩
  have hd : definition ⟨"f", "x", [.cond (.ident "t") (.ident "y") none, .ret (.ident "x")]⟩ =
      .ok ⟨"f", [.unsupported "t"], [.unsupported "y", .argument]⟩ := rfl
  obtain ⟨-, hguard, -⟩ := hcompile _ hd
  refine ⟨_, hd, (hguard _).mpr ⟨[], .unsupported "t", [], rfl, nofun, nofun, rfl⟩, ?_⟩
  intro more
  rw [← hd]
  exact happend rfl more

end Script.Function

end PiecewiseLinear
