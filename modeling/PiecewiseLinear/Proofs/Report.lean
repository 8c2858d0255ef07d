import PiecewiseLinear.Command.Run
import PiecewiseLinear.Proofs.Evaluation.Extremum
import PiecewiseLinear.Proofs.Evaluation.Run
import PiecewiseLinear.Proofs.Json.Reader

/-!
# Reports in JSON

What can be told of a run from its report in JSON. Finite results are there as they are; results
that are undefined, infinite or no number are all null, since JSON has no numbers for the latter.

- `Report.Tells`: what an entry in JSON tells of a result.
- `Report.SameInJson`: the results that it does not tell apart.
- `Report.read?_rendered`: the report in print as a JSON value.
- `Report.forall₂_same_of_rendered`: reports that are the same text.
- `Report.json_outcome`: the results and the extrema of a run in its report, and what the reports
  with the same text have in common.
-/

namespace PiecewiseLinear.Report

/-! ## What an entry tells -/

/-- A result is finite, so that JSON has a number for it. -/
def IsFinite (value : Option Float) : Prop := ∃ v ∈ value, v.isFinite = true

/-- What an entry tells of a result: it is null where the result is undefined, infinite or no
number, and otherwise the number that the result is. -/
structure Tells (entry : Json) (value : Option Float) : Prop where
  null_iff : entry = .null ↔ ¬ IsFinite value
  real : ∀ v ∈ value, v.isFinite = true → entry = .real v

/-- Results that are told alike: the same one, or two that are not finite. -/
def SameInJson (a b : Option Float) : Prop := a = b ∨ ¬ IsFinite a ∧ ¬ IsFinite b

/-- All results that are not finite are null. -/
theorem inPrint_valueJson_of_not_isFinite {value : Option Float} (h : ¬ IsFinite value) :
    (valueJson value).inPrint = .null := by
  cases value with
  | none => rfl
  | some v => rw [valueJson, Json.inPrint, if_neg fun hfinite => h ⟨v, rfl, hfinite⟩]

/-- The entry for a value tells it: null for none and for what is not finite, else the number
itself. -/
theorem tells_valueJson (value : Option Float) : Tells (valueJson value).inPrint value := by
  by_cases hfinite : IsFinite value
  · obtain ⟨v, hv, hv'⟩ := hfinite
    obtain rfl := Option.mem_def.mp hv
    have hreal : (valueJson (some v)).inPrint = .real v := by
      rw [valueJson, Json.inPrint, if_pos hv']
    have hne : Json.real v ≠ .null := by
      intro heq
      cases heq
    rw [hreal]
    refine ⟨iff_of_false hne (not_not.mpr ⟨v, rfl, hv'⟩), ?_⟩
    rintro w ⟨⟩ -
    rfl
  · rw [inPrint_valueJson_of_not_isFinite hfinite]
    refine ⟨iff_of_true rfl hfinite, ?_⟩
    intro v hv hv'
    exact absurd ⟨v, hv, hv'⟩ hfinite

/-- One entry tells of two results only if they are told alike. -/
theorem Tells.same {entry : Json} {a b : Option Float} (ha : Tells entry a) (hb : Tells entry b) :
    SameInJson a b := by
  by_cases hfinite : IsFinite a
  · obtain ⟨v, hv, hvfinite⟩ := hfinite
    have hfinite' : IsFinite b := by
      by_contra hb'
      have hnull := hb.null_iff.mpr hb'
      rw [ha.real v hv hvfinite] at hnull
      cases hnull
    obtain ⟨w, hw, hwfinite⟩ := hfinite'
    have heq := (ha.real v hv hvfinite).symm.trans (hb.real w hw hwfinite)
    rw [Option.mem_def.mp hv, Option.mem_def.mp hw, Json.real.inj heq]
    exact .inl rfl
  · exact .inr ⟨hfinite, hb.null_iff.mp (ha.null_iff.mpr hfinite)⟩

/-- What a JSON report says of a selection: null where nothing is selected, and otherwise the
position of the entry and what tells of its result. -/
def TellsExtremum (json : Option Json) (selected : Option Extremum) : Prop :=
  match selected with
  | none => json = some .null
  | some best => ∃ entry, json = some (.obj [("index", .int best.index), ("value", entry)]) ∧
      Tells entry best.value

theorem tellsExtremum_extremumJson (selected : Option Extremum) :
    TellsExtremum (some (extremumJson selected).inPrint) selected := by
  cases selected with
  | none => rfl
  | some best => exact ⟨_, rfl, tells_valueJson best.value⟩

/-! ## The report in print -/

theorem itemsInPrint_eq_map (items : List Json) :
    Json.itemsInPrint items = items.map Json.inPrint := by
  induction items with
  | nil => rfl
  | cons item items ih => rw [Json.itemsInPrint, ih, List.map_cons]

/-- The report in print reads as its JSON value, up to the reals that JSON has no numbers for. -/
theorem read?_rendered (r : Report) :
    Json.read? (Command.rendered .json r) = some r.json.inPrint := by
  have hblank : ∀ c ∈ "\n".toList, Json.isBlank c = true := by simp [Json.isBlank]
  exact Json.read?_pretty r.json hblank

/-- A report in print has five members. Its name stays a text, and whatever is not finite in the
others becomes null. -/
theorem inPrint_json (r : Report) :
    r.json.inPrint = .obj
      [("name", .str r.name), ("branches", (Json.arr (r.branches.map branchJson)).inPrint),
        ("values", .arr (r.values.map fun value => (valueJson value).inPrint)),
        ("argmin", (extremumJson r.argmin).inPrint),
        ("argmax", (extremumJson r.argmax).inPrint)] := by
  simp only [json, Json.inPrint, Json.membersInPrint, itemsInPrint_eq_map, List.map_map,
    Function.comp_def]

theorem member?_values (r : Report) :
    r.json.inPrint.member? "values" =
      some (.arr (r.values.map fun value => (valueJson value).inPrint)) := by
  rw [inPrint_json]
  rfl

theorem member?_argmin (r : Report) :
    r.json.inPrint.member? "argmin" = some (extremumJson r.argmin).inPrint := by
  rw [inPrint_json]
  rfl

theorem member?_argmax (r : Report) :
    r.json.inPrint.member? "argmax" = some (extremumJson r.argmax).inPrint := by
  rw [inPrint_json]
  rfl

/-- The entries of a report tell of its values. -/
theorem tells_values (values : List (Option Float)) :
    List.Forall₂ Tells (values.map fun value => (valueJson value).inPrint) values := by
  rw [List.forall₂_map_left_iff, List.forall₂_same]
  exact fun value _ => tells_valueJson value

/-- The values of reports that are the same text are told alike. -/
theorem forall₂_same_of_rendered {r r' : Report}
    (htext : Command.rendered .json r = Command.rendered .json r') :
    List.Forall₂ SameInJson r.values r'.values := by
  have hjson : r.json.inPrint = r'.json.inPrint := by
    rw [← Option.some.injEq, ← read?_rendered, ← read?_rendered, htext]
  have hentries : r.values.map (fun value => (valueJson value).inPrint) =
      r'.values.map fun value => (valueJson value).inPrint := by
    have hmember := member?_values r
    rw [hjson, member?_values] at hmember
    exact (Json.arr.inj (Option.some.inj hmember)).symm
  rw [← List.forall₂_eq_eq_eq, List.forall₂_map_left_iff, List.forall₂_map_right_iff] at hentries
  refine hentries.imp fun a b hab => (tells_valueJson a).same ?_
  rw [hab]
  exact tells_valueJson b

/-- **A run and its report in JSON.** Real items have results, and the report of them in print is
a JSON value. The entry of each item is null where its result is undefined, infinite or no number,
and otherwise a number that reads as the result. The same holds of the two entries that are
selected; they come with their positions, and none is selected only where there are no items. So
any other report, of whatever function and items, that is the same text in print is one of the same
results up to those that are not finite. -/
theorem json_outcome {α : Type} [Readable α] (f : Piecewise) {items : List α}
    (hreal : ∀ item ∈ items, Readable.toFloat? item ≠ none) (name : String)
    (minSentinel maxSentinel : Float) :
    ∃ values json entries, f.evaluateAll items = .ok values ∧
      List.Forall₂ (fun item value => ∃ x, Readable.toFloat? item = some x ∧ value = f.evaluate x)
        items values ∧
      Json.read? (Command.rendered .json (make name f values minSentinel maxSentinel)) =
        some json ∧
      json.member? "values" = some (.arr entries) ∧
      List.Forall₂ Tells entries values ∧
      TellsExtremum (json.member? "argmin") (Sense.min.extremumOf values minSentinel) ∧
      TellsExtremum (json.member? "argmax") (Sense.max.extremumOf values maxSentinel) ∧
      (∀ (sense : Sense) sentinel,
        (sense.extremumOf values sentinel = none ↔ items = []) ∧
        ∀ best, sense.extremumOf values sentinel = some best →
          values[best.index]? = some best.value) ∧
      ∀ r : Report,
        Command.rendered .json (make name f values minSentinel maxSentinel) =
          Command.rendered .json r →
        List.Forall₂ SameInJson values r.values := by
  obtain ⟨values, hok, hvalues⟩ := Piecewise.exists_evaluateAll_of_forall hreal f
  refine ⟨values, _, _, hok, hvalues, read?_rendered _, member?_values _, tells_values values,
    ?_, ?_, ?_, fun r => forall₂_same_of_rendered⟩
  · rw [member?_argmin]
    exact tellsExtremum_extremumJson _
  · rw [member?_argmax]
    exact tellsExtremum_extremumJson _
  · intro sense sentinel
    refine ⟨?_, fun best hbest => (Sense.leftmost_of_extremumOf hbest).entry⟩
    cases hvalues with
    | nil => exact iff_of_true Sense.extremumOf_nil rfl
    | cons => exact iff_of_false nofun (List.cons_ne_nil _ _)

/-- The inverse at `1`, at zero, and at an infinity, where it is undefined: the first entry is the
number, the others are null. The infinity at zero is the greatest of the results, and there is null
as well. -/
theorem json_outcome_inverse :
    let f : Piecewise := ⟨[⟨.univ, fun x => 1 / x⟩], false⟩
    let items : List Item := [.text "1", .int 0, .real Double.infinity]
    ∃ json, f.evaluateAll items = .ok [some 1, some Double.infinity, none] ∧
      Json.read? (Command.rendered .json (make "f" f [some 1, some Double.infinity, none]
        Double.infinity (-Double.infinity))) = some json ∧
      json.member? "values" = some (.arr [.real 1, .null, .null]) ∧
      json.member? "argmax" = some (.obj [("index", .int 1), ("value", .null)]) := by
  intro f items
  have hreal : ∀ item ∈ items, Readable.toFloat? item ≠ none := by decide +kernel
  have hvalues : f.evaluateAll items = .ok [some 1, some Double.infinity, none] := by
    decide +kernel
  have hgreatest : Sense.max.extremumOf [some 1, some Double.infinity, none] (-Double.infinity) =
      some ⟨1, some Double.infinity⟩ := by decide +kernel
  have hinfinite : ¬ IsFinite (some Double.infinity) := by
    rintro ⟨v, ⟨⟩, hfinite⟩
    exact absurd hfinite (by decide)
  obtain ⟨values, json, entries, hok, -, hread, hmember, htells, -, hargmax, -⟩ :=
    json_outcome f hreal "f" Double.infinity (-Double.infinity)
  obtain rfl := Except.ok.inj (hvalues.symm.trans hok)
  obtain _ | ⟨hone, _ | ⟨hinfinity, _ | ⟨hundefined, _ | _⟩⟩⟩ := htells
  rw [hgreatest] at hargmax
  obtain ⟨entry, hargmax, hentry⟩ := hargmax
  rw [hone.real 1 rfl (by decide), hinfinity.null_iff.mpr hinfinite,
    hundefined.null_iff.mpr nofun] at hmember
  rw [hentry.null_iff.mpr hinfinite] at hargmax
  exact ⟨json, hvalues, hread, hmember, hargmax⟩

/-- JSON does not keep the undefined apart from the infinite: a function that is undefined at `-1`
and overflows at `10` has the same report over either, with null for the result. -/
theorem json_eq_of_overflow :
    ∃ f, Piecewise.ofSource "def f(x):\n    if x > 0:\n        return 1e308 * x\n" = .ok f ∧
      f.evaluateAll [Item.text "-1"] = .ok [none] ∧
      f.evaluateAll [Item.text "10"] = .ok [some Double.infinity] ∧
      Command.rendered .json (make "f" f [some Double.infinity] Double.infinity
        (-Double.infinity)) =
          Command.rendered .json (make "f" f [none] Double.infinity (-Double.infinity)) ∧
      (Json.read? (Command.rendered .json (make "f" f [some Double.infinity] Double.infinity
        (-Double.infinity)))).bind (Json.member? "values") = some (.arr [.null]) := by
  have hruns : (Piecewise.ofSource
      "def f(x):\n    if x > 0:\n        return 1e308 * x\n").toOption.map (fun f =>
        (f.evaluateAll [Item.text "-1"], f.evaluateAll [Item.text "10"])) =
      some (.ok [none], .ok [some Double.infinity]) := by decide +kernel
  have hinfinity : Json.number Double.infinity = "null" := if_neg (by decide)
  cases h : Piecewise.ofSource "def f(x):\n    if x > 0:\n        return 1e308 * x\n" with
  | error e =>
    rw [h] at hruns
    cases hruns
  | ok f =>
    rw [h] at hruns
    obtain ⟨hundefined, hoverflow⟩ := Prod.mk.inj (Option.some.inj hruns)
    refine ⟨f, rfl, hundefined, hoverflow, ?_, ?_⟩
    · have hextrema (sense : Sense) (value : Option Float) (sentinel : Float) :
          sense.extremumOf [value] sentinel = some ⟨0, value⟩ := rfl
      simp only [Command.rendered, json, make, hextrema, List.map_cons, List.map_nil, extremumJson,
        valueJson, Json.pretty, Json.prettyAt, Json.prettyItems, Json.prettyMembers, hinfinity]
    · have hnull : (valueJson (some Double.infinity)).inPrint = .null := by
        rw [valueJson, Json.inPrint, if_neg (by decide)]
      rw [read?_rendered, Option.bind_some, member?_values]
      exact congrArg (fun entry => some (Json.arr [entry])) hnull

end PiecewiseLinear.Report
