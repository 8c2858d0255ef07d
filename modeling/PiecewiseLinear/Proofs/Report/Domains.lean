import PiecewiseLinear.Proofs.Region.Text
import PiecewiseLinear.Proofs.Report

/-!
# Domains in reports

The domains of a function are known from a report on it: in the report they are texts of regions,
and such texts are read off it again, be it lines of text or JSON.

- `Report.branches_of_rendered_json`: what a report in JSON tells of the branches.
- `Report.branchLines_inj`: the lines about branches, one after the other.
- `Report.branches_of_rendered_text`: what a report in lines of text tells of the branches.
- `Report.domains_of_print`: regions and reports that are the same text.
-/

namespace PiecewiseLinear.Report

open Command (rendered)
open Region (bar)

/-! ## Reports in JSON -/

theorem member?_branches (r : Report) :
    r.json.inPrint.member? "branches" = some (.arr (r.branches.map branchJson)) := by
  have hbranches : (Json.arr (r.branches.map branchJson)).inPrint =
      .arr (r.branches.map branchJson) := by
    rw [Json.inPrint, itemsInPrint_eq_map, List.map_map]
    rfl
  rw [inPrint_json, hbranches]
  rfl

theorem branchJson_inj {line line' : BranchLine} (h : branchJson line = branchJson line') :
    line = line' := by
  cases line
  cases line'
  simpa [branchJson] using h

/-- A report in JSON tells of all branches. -/
theorem branches_of_rendered_json {r r' : Report} (h : rendered .json r = rendered .json r') :
    r.branches = r'.branches := by
  have hjson : r.json.inPrint = r'.json.inPrint := by
    rw [← Option.some.injEq, ← read?_rendered, ← read?_rendered, h]
  have hmember := member?_branches r
  rw [hjson, member?_branches] at hmember
  exact ((List.map_inj_right fun _ _ => branchJson_inj).mp
    (Json.arr.inj (Option.some.inj hmember))).symm

/-! ## Reports in lines of text -/

/-- A line of a report in print. -/
def lineText (line : String) : List Char := (line ++ "\n").toList

/-- The lines about branches, numbered from the first one on. -/
def branchLines (i : Nat) (lines : List BranchLine) : List Char :=
  (lines.zipIdx i).flatMap fun p => lineText (branchText p.1 p.2)

theorem branchLines_cons (i : Nat) (line : BranchLine) (lines : List BranchLine) :
    branchLines i (line :: lines) = lineText (branchText line i) ++ branchLines (i + 1) lines := by
  rw [branchLines, List.zipIdx_cons, List.flatMap_cons, branchLines]

theorem toList_text (r : Report) :
    r.text.toList =
      lineText r.name ++ (branchLines 0 r.branches ++ r.valueLines.flatMap lineText) := by
  rw [text, String.toList_join, List.flatMap_map, lines, List.cons_append, List.flatMap_cons,
    List.flatMap_append, List.flatMap_map]
  rfl

/-- A line about a branch tells of a region. -/
def TellsRegion (line : BranchLine) : Prop :=
  ∃ a : Region, (∀ s ∈ a.segments, s.WellFormed) ∧ line.domain = a.text

/-- What a line about a branch begins with. -/
def branchLabel (i : Nat) : String := "  branch " ++ toString i ++ ": "

/-- What a line about a branch says behind the domain. -/
def branchEnd (otherwise : Bool) : String := (if otherwise then " (otherwise)" else "") ++ "\n"

theorem lineText_branchText (line : BranchLine) (i : Nat) :
    lineText (branchText line i) =
      (branchLabel i).toList ++ (line.domain.toList ++ (branchEnd line.otherwise).toList) := by
  have htext : branchText line i ++ "\n" = branchLabel i ++ line.domain ++
    (if line.otherwise then " (otherwise)" else "") ++ "\n" := rfl
  rw [lineText, htext, String.append_assoc, ← branchEnd, String.toList_append,
    String.toList_append, List.append_assoc]

/-- Lines that are about branches begin with a label. -/
theorem label_prefix_branchLines (i : Nat) (line : BranchLine) (lines : List BranchLine)
    (s : List Char) : "  branch ".toList <+: branchLines i (line :: lines) ++ s := by
  rw [branchLines_cons, lineText_branchText, branchLabel, String.toList_append,
    String.toList_append, List.append_assoc, List.append_assoc, List.append_assoc,
    List.append_assoc]
  exact List.prefix_append _ _

theorem not_bar_branchEnd (otherwise : Bool) (s : List Char) :
    ¬ bar <+: (branchEnd otherwise).toList ++ s := by
  cases otherwise <;> simp [bar, branchEnd]

theorem branchEnd_append_inj {otherwise otherwise' : Bool} {s s' : List Char}
    (h : (branchEnd otherwise).toList ++ s = (branchEnd otherwise').toList ++ s') :
    otherwise = otherwise' ∧ s = s' := by
  cases otherwise <;> cases otherwise' <;> cases h <;> exact ⟨rfl, rfl⟩

/-- Lines about branches are known by a text that does not go on with another one. -/
theorem branchLines_inj {lines lines' : List BranchLine} {s s' : List Char} {i : Nat}
    (hlines : ∀ line ∈ lines, TellsRegion line) (hlines' : ∀ line ∈ lines', TellsRegion line)
    (hs : ¬ "  branch ".toList <+: s) (hs' : ¬ "  branch ".toList <+: s')
    (h : branchLines i lines ++ s = branchLines i lines' ++ s') : lines = lines' := by
  induction lines generalizing lines' i with
  | nil =>
    cases lines' with
    | nil => rfl
    | cons line' lines' =>
      have hlabel := label_prefix_branchLines i line' lines' s'
      rw [← h] at hlabel
      exact absurd hlabel hs
  | cons line lines ih =>
    cases lines' with
    | nil =>
      have hlabel := label_prefix_branchLines i line lines s
      rw [h] at hlabel
      exact absurd hlabel hs'
    | cons line' lines' =>
      rw [List.forall_mem_cons] at hlines hlines'
      obtain ⟨⟨a, ha, hdomain⟩, hlines⟩ := hlines
      obtain ⟨⟨b, hb, hdomain'⟩, hlines'⟩ := hlines'
      rw [branchLines_cons, branchLines_cons, lineText_branchText, lineText_branchText, hdomain,
        hdomain'] at h
      simp only [List.append_assoc] at h
      -- behind the label stand the domain, the mark and the other lines
      obtain ⟨rfl, hmark⟩ := Region.text_append_inj ha hb (not_bar_branchEnd _ _)
        (not_bar_branchEnd _ _) (List.append_cancel_left h)
      obtain ⟨hotherwise, hrest⟩ := branchEnd_append_inj hmark
      obtain rfl := ih hlines hlines' hrest
      cases line
      cases line'
      simp_all

/-- The lines behind those about branches are about values. -/
theorem not_branch_valueLines (r : Report) :
    ¬ "  branch ".toList <+: r.valueLines.flatMap lineText := by
  rw [valueLines]
  split_ifs <;> simp [lineText]

/-- A report in lines of text tells of all branches. -/
theorem branches_of_rendered_text {r r' : Report} (hname : '\n' ∉ r.name.toList)
    (hname' : '\n' ∉ r'.name.toList) (hlines : ∀ line ∈ r.branches, TellsRegion line)
    (hlines' : ∀ line ∈ r'.branches, TellsRegion line)
    (h : rendered .text r = rendered .text r') : r.branches = r'.branches := by
  have htext : r.text.toList = r'.text.toList := congrArg String.toList h
  rw [toList_text, toList_text, lineText, lineText, String.toList_append, String.toList_append,
    List.append_assoc, List.append_assoc] at htext
  have hline {name : String} (h : '\n' ∉ name.toList) :
      ∀ c ∈ name.toList, (c != '\n') = true := by
    intro c hc
    rw [bne_iff_ne]
    rintro rfl
    exact h hc
  obtain ⟨-, -, hrest⟩ := run_append_inj (hline hname) (hline hname') rfl rfl htext
  exact branchLines_inj hlines hlines' (not_branch_valueLines r) (not_branch_valueLines r') hrest

/-! ## What reports tell of domains -/

section Make

variable {f g : Piecewise} {name name' : String} {values values' : List (Option Float)}
  {minSentinel maxSentinel minSentinel' maxSentinel' : Float}

/-- The domains in a report are those of the function, in print. -/
theorem map_domain_make (f : Piecewise) (name : String) (values : List (Option Float))
    (minSentinel maxSentinel : Float) :
    (make name f values minSentinel maxSentinel).branches.map (·.domain) =
      f.domains.map Region.text := by
  have hdomains : f.branches.zipIdx.map (fun p => p.1.domain.text) =
      (f.branches.zipIdx.map Prod.fst).map (fun branch => branch.domain.text) := by
    rw [List.map_map]
    rfl
  rw [make, Piecewise.domains, List.map_map, List.map_map]
  exact hdomains.trans (by rw [List.zipIdx_map_fst]; rfl)

/-- Every line of a report tells the region of a branch. -/
theorem tellsRegion_make (hf : ∀ d ∈ f.domains, d.Reachable) :
    ∀ line ∈ (make name f values minSentinel maxSentinel).branches, TellsRegion line := by
  intro line hline
  have hdomain := List.mem_map_of_mem (f := (·.domain)) hline
  rw [map_domain_make] at hdomain
  obtain ⟨d, hd, hdomain⟩ := List.mem_map.mp hdomain
  exact ⟨d, (hf d hd).separated.wellFormed, hdomain.symm⟩

/-- The texts of the domains in reports tell the domains. -/
theorem map_domain_eq_iff (hf : ∀ d ∈ f.domains, d.Reachable) (hg : ∀ d ∈ g.domains, d.Reachable) :
    (make name f values minSentinel maxSentinel).branches.map (·.domain) =
        (make name' g values' minSentinel' maxSentinel').branches.map (·.domain) ↔
      f.domains = g.domains := by
  rw [map_domain_make, map_domain_make]
  generalize f.domains = ds at hf
  generalize g.domains = es at hg
  induction ds generalizing es with
  | nil => cases es <;> simp
  | cons d ds ih =>
    cases es with
    | nil => simp
    | cons e es =>
      rw [List.forall_mem_cons] at hf hg
      rw [List.map_cons, List.map_cons, List.cons.injEq, List.cons.injEq,
        Region.text_inj hf.1 hg.1, ih hf.2 es hg.2]

end Make

/-- **Domains are known from print.** Regions have the same text exactly when they are the same
list of segments. So functions whose domains are the same texts in reports have the same domains,
and so have functions with reports that are the same text as a whole, in JSON and, under names of
one line, in lines of text. -/
theorem domains_of_print {a b : Region} (ha : a.Reachable) (hb : b.Reachable) {f g : Piecewise}
    (hf : ∀ d ∈ f.domains, d.Reachable) (hg : ∀ d ∈ g.domains, d.Reachable)
    (name name' : String) (values values' : List (Option Float))
    (minSentinel maxSentinel minSentinel' maxSentinel' : Float) :
    let r := make name f values minSentinel maxSentinel
    let r' := make name' g values' minSentinel' maxSentinel'
    (a.text = b.text ↔ a.same b = true) ∧ (a.same b = true ↔ a = b) ∧
      (r.branches.map (·.domain) = r'.branches.map (·.domain) ↔ f.domains = g.domains) ∧
      (rendered .json r = rendered .json r' → f.domains = g.domains) ∧
      ('\n' ∉ name.toList → '\n' ∉ name'.toList → rendered .text r = rendered .text r' →
        f.domains = g.domains) := by
  intro r r'
  have hdomains : r.branches = r'.branches → f.domains = g.domains :=
    fun h => (map_domain_eq_iff hf hg).mp (congrArg (List.map (·.domain)) h)
  refine ⟨?_, Region.same_iff_eq ha hb, map_domain_eq_iff hf hg, ?_, ?_⟩
  · rw [Region.text_inj ha hb, Region.same_iff_eq ha hb]
  · exact fun h => hdomains (branches_of_rendered_json h)
  · exact fun hname hname' h => hdomains
      (branches_of_rendered_text hname hname' (tellsRegion_make hf) (tellsRegion_make hg) h)

/-- A half-line with its end and without it, a punctured line built in two ways, and functions on
them: reports keep the half-lines apart. -/
theorem domains_of_print_half_lines :
    let f : Piecewise := ⟨[⟨.Iio Double.zero, fun x => x⟩], false⟩
    let g : Piecewise := ⟨[⟨.Iic Double.zero, fun x => x⟩], false⟩
    (Region.point Double.zero).compl = (Region.Iio Double.zero).union (Region.Ioi Double.zero) ∧
      (Region.point Double.zero).compl.text = "(-inf,0) | (0,+inf)" ∧
      rendered .json (make "f" f [] 0 0) ≠ rendered .json (make "f" g [] 0 0) ∧
      rendered .text (make "f" f [] 0 0) ≠ rendered .text (make "f" g [] 0 0) := by
  intro f g
  have hless : (Region.Iio Double.zero).Reachable := .ofBounds _ _ _ _
  have hle : (Region.Iic Double.zero).Reachable := .ofBounds _ _ _ _
  have hgreater : (Region.Ioi Double.zero).Reachable := .ofBounds _ _ _ _
  have hpoint : (Region.point Double.zero).Reachable := .ofBounds _ _ _ _
  have hf : ∀ d ∈ f.domains, d.Reachable := by simpa [f, Piecewise.domains] using hless
  have hg : ∀ d ∈ g.domains, d.Reachable := by simpa [g, Piecewise.domains] using hle
  have htext : (Region.point Double.zero).compl.text = "(-inf,0) | (0,+inf)" := by decide +kernel
  have htext' : ((Region.Iio Double.zero).union (Region.Ioi Double.zero)).text =
      "(-inf,0) | (0,+inf)" := by decide +kernel
  have hne : f.domains ≠ g.domains := by
    intro h
    have hregion : Region.Iio Double.zero = Region.Iic Double.zero := (List.cons.inj h).1
    exact absurd hregion (by decide +kernel)
  have hname : '\n' ∉ "f".toList := by decide
  obtain ⟨hsame, heq, -, hjson, hlines⟩ := domains_of_print hpoint.compl (hless.union hgreater) hf hg
    "f" "f" [] [] 0 0 0 0
  exact ⟨heq.mp (hsame.mp (htext.trans htext'.symm)), htext, mt hjson hne,
    mt (hlines hname hname) hne⟩

end PiecewiseLinear.Report
