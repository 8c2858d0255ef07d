import PiecewiseLinear.Evaluation.Column
import PiecewiseLinear.Proofs.Evaluation.Run
import PiecewiseLinear.Proofs.Number.Nearest

/-!
# Columns and their rows

A run over a column of a readable type gives what a run over its rows gives, the rows being taken
as items of the column's type that may be missing. The two differ in where numbers become doubles:
a column of numbers is cast as a whole, the rows are cast one by one.

- `ColumnType.Admits`, `Column.WellTyped`: what the cells of a column hold.
- `Cast.ToNearest`: casts that round to nearest, ties to even, and keep what is missing missing.
- `Alike`, `Piecewise.evaluateAll_congr`: runs cannot tell apart items that are read and, if
  refused, shown in the same way.
- `ColumnType.Admits.exists_toFloat?`: on cells of numbers all such casts agree with the reading of
  the cell as an item.
- `Piecewise.columnValuesBy_eq`: the values over a column are those over its rows.
- `Piecewise.column_outcome`: results, errors and extrema over a column, readable or not, and over
  the column of a given name in a table.
-/

namespace PiecewiseLinear

/-! ## Types and casts -/

namespace ColumnType

/-- The least and the greatest integer of an integer type. -/
def integers? : ColumnType → Option (Int × Int)
  | int8 => some (-2 ^ 7, 2 ^ 7 - 1)
  | int16 => some (-2 ^ 15, 2 ^ 15 - 1)
  | int32 => some (-2 ^ 31, 2 ^ 31 - 1)
  | int64 => some (-2 ^ 63, 2 ^ 63 - 1)
  | uint8 => some (0, 2 ^ 8 - 1)
  | uint16 => some (0, 2 ^ 16 - 1)
  | uint32 => some (0, 2 ^ 32 - 1)
  | uint64 => some (0, 2 ^ 64 - 1)
  | _ => none

/-- Whether the cells of a type can be read. -/
def isReadable (type : ColumnType) : Bool := type = .string || type.isNumeric

/-- The items that a type has. Those of types that cannot be read are left open. -/
inductive Admits : ColumnType → Item → Prop where
  | double (v : Float) : Admits .float64 (.real v)
  | single (v : Float) : Admits .float32 (.real v)
  | integer {type : ColumnType} {least greatest n : Int} :
      type.integers? = some (least, greatest) → least ≤ n → n ≤ greatest → Admits type (.int n)
  | text (s : String) : Admits .string (.text s)
  | unreadable {type : ColumnType} (item : Item) : type.isReadable = false → Admits type item

/-- No integer type goes beyond these two ends. -/
theorem integers?_bounds {type : ColumnType} {least greatest : Int}
    (h : type.integers? = some (least, greatest)) : -2 ^ 63 ≤ least ∧ greatest < 2 ^ 64 := by
  cases type <;> cases h <;> decide

end ColumnType

/-- The cells of a column hold items of its type. -/
def Column.WellTyped (column : Column) : Prop :=
  ∀ item, some item ∈ column.cells → column.type.Admits item

/-- A cast that keeps what is missing missing, keeps doubles and what they represent exactly, and
rounds integers to the nearest double, ties to even. -/
structure Cast.ToNearest (cast : Cast) : Prop where
  absent : cast none = none
  real (v : Float) : cast (some (.real v)) = some v
  int (n : Int) : -2 ^ 63 ≤ n → n < 2 ^ 64 →
    ∃ v, cast (some (.int n)) = some v ∧ Double.IsNearest n v

/-- Integers of every type are rounded to the nearest double. -/
theorem isNearest_ofInt_of_bounds {n : Int} (hle : -2 ^ 63 ≤ n) (hlt : n < 2 ^ 64) :
    Double.IsNearest n (Double.ofInt n) := by
  have hint : |n| < 2 ^ 64 := abs_lt.mpr ⟨by omega, hlt⟩
  apply Double.isNearest_ofInt
  calc |(n : ℝ)| < 2 ^ (64 : Int) := by exact_mod_cast hint
    _ ≤ 2 ^ (1023 : Int) := zpow_le_zpow_right₀ one_le_two (by decide)

theorem toNearest_nearestCast : nearestCast.ToNearest where
  absent := rfl
  real _ := rfl
  int n hle hlt := ⟨Double.ofInt n, rfl, isNearest_ofInt_of_bounds hle hlt⟩

/-- A cell of numbers is missing or a number. -/
theorem ColumnType.Admits.exists_toFloat? {type : ColumnType} {item : Item}
    (h : type.Admits item) (hnumeric : type.isNumeric = true) {cast : Cast}
    (hcast : cast.ToNearest) : ∃ v, item.toFloat? = some v ∧ cast (some item) = some v := by
  cases h with
  | double v | single v => exact ⟨v, rfl, hcast.real v⟩
  | integer htype hleast hgreatest =>
    obtain ⟨hle, hlt⟩ := integers?_bounds htype
    obtain ⟨v, hv, hnearest⟩ := hcast.int _ (hle.trans hleast) (hgreatest.trans_lt hlt)
    have hself := isNearest_ofInt_of_bounds (hle.trans hleast) (hgreatest.trans_lt hlt)
    exact ⟨v, congrArg some (hself.unique hnearest), hv⟩
  | text s => cases hnumeric
  | unreadable item hreadable =>
    rw [isReadable, hnumeric, Bool.or_true] at hreadable
    cases hreadable

/-! ## Items that are alike -/

section Alike

variable {α β : Type} [Readable α] [Readable β]

/-- Two values of input are read as the same double or both refused, and then shown alike. -/
def Alike (a : α) (b : β) : Prop :=
  Readable.toFloat? a = Readable.toFloat? b ∧
    (Readable.toFloat? a = none → Readable.shown a = Readable.shown b)

theorem Piecewise.answer_congr {a : α} {b : β} (h : Alike a b) (f : Piecewise) (n : Nat) :
    f.answer n a = f.answer n b := by
  cases hreal : Readable.toFloat? a with
  | some x => rw [answer_of_real hreal, answer_of_real (h.1.symm.trans hreal)]
  | none => rw [answer_of_not_real hreal, answer_of_not_real (h.1.symm.trans hreal), h.2 hreal]

theorem RunOver.answersFrom_congr {as : List α} {bs : List β} (h : List.Forall₂ Alike as bs)
    (f : Piecewise) (n : Nat) : answersFrom f n as = answersFrom f n bs := by
  induction h generalizing n with
  | nil => rfl
  | cons h _ ih => rw [answersFrom, answersFrom, f.answer_congr h n, ih (n + 1)]

/-- Over inputs that are alike item by item a run ends alike. -/
theorem Piecewise.evaluateAll_congr {as : List α} {bs : List β} (h : List.Forall₂ Alike as bs)
    (f : Piecewise) : f.evaluateAll as = f.evaluateAll bs := by
  unfold evaluateAll RunOver.toList RunOver.start
  rw [if_neg Bool.false_ne_true, if_neg Bool.false_ne_true, RunOver.answersFrom_congr h f 0]

end Alike

/-! ## The rows of a column -/

namespace Column

variable {cast : Cast} {column : Column}

/-- The cells of a column, each as an item that may be missing. -/
def rows (column : Column) : List Item := column.cells.map Item.ofOption

/-- A cast cell is like the row that it comes from. -/
theorem alike_cast (hcast : cast.ToNearest) (hnumeric : column.type.isNumeric = true)
    {cell : Option Item} (h : ∀ item ∈ cell, column.type.Admits item) :
    Alike (Item.ofOption ((cast cell).map .real)) (Item.ofOption cell) := by
  cases cell with
  | none => rw [hcast.absent]; exact ⟨rfl, fun _ => rfl⟩
  | some item =>
    obtain ⟨v, hitem, hv⟩ := (h item rfl).exists_toFloat? hnumeric hcast
    rw [hv]
    exact ⟨hitem.symm, nofun⟩

/-- The items of a readable column are like its rows. -/
theorem exists_itemsBy (hcast : cast.ToNearest) (hwell : column.WellTyped)
    (hreadable : column.type.isReadable = true) :
    ∃ items, column.itemsBy cast = .ok items ∧ List.Forall₂ Alike items column.rows := by
  unfold itemsBy
  split_ifs with hstring hnumeric
  · exact ⟨_, rfl, List.forall₂_same.mpr fun _ _ => ⟨rfl, fun _ => rfl⟩⟩
  · refine ⟨_, rfl, ?_⟩
    rw [rows, List.forall₂_map_left_iff, List.forall₂_map_right_iff, List.forall₂_same]
    rintro cell hcell
    exact alike_cast hcast hnumeric fun item hitem => hwell item (hitem ▸ hcell)
  · rw [ColumnType.isReadable, decide_eq_false hstring, Bool.false_or] at hreadable
    exact absurd hreadable hnumeric

theorem itemsBy_of_not_isReadable (hreadable : column.type.isReadable = false) :
    column.itemsBy cast = .error (.unreadable column.name column.type) := by
  rw [ColumnType.isReadable, Bool.or_eq_false_iff, decide_eq_false_iff_not] at hreadable
  rw [itemsBy, if_neg hreadable.1, if_neg (by rw [hreadable.2]; exact Bool.false_ne_true)]

/-- What makes a row no real number: it is missing, or a text that no number can be read from. -/
def IsRefused (cell : Option Item) : Prop :=
  cell = none ∨ ∃ s, cell = some (.text s) ∧ textToFloat? s = none

/-- The rows that no number can be read from are the missing ones and the unreadable texts. -/
theorem toFloat?_eq_none_iff (hwell : column.WellTyped)
    (hreadable : column.type.isReadable = true) {cell : Option Item} (hcell : cell ∈ column.cells) :
    (Item.ofOption cell).toFloat? = none ↔ IsRefused cell := by
  cases cell with
  | none => exact iff_of_true rfl (.inl rfl)
  | some item =>
    have hadmits := hwell item hcell
    generalize column.type = type at hreadable hadmits
    cases hadmits with
    | double v | single v | integer => exact iff_of_false nofun (by rintro (⟨⟨⟩⟩ | ⟨s, ⟨⟩, -⟩))
    | text s =>
      constructor
      · exact fun h => .inr ⟨s, rfl, h⟩
      · rintro (⟨⟨⟩⟩ | ⟨s, ⟨⟩, h⟩)
        exact h
    | unreadable item h =>
      rw [hreadable] at h
      cases h

end Column

/-! ## Evaluation over a column -/

namespace Piecewise

variable {cast : Cast} {column : Column}

/-- The items in front of one that is refused are counted. -/
theorem realCount_append {α : Type} [Readable α] {before after : List α} {item : α}
    (hbefore : ∀ a ∈ before, Readable.toFloat? a ≠ none) (hitem : Readable.toFloat? item = none) :
    realCount (before ++ item :: after) = before.length := by
  have hreal : ∀ a ∈ before, (Readable.toFloat? a).isNone = false := fun a ha =>
    Option.isNone_eq_false_iff.mpr (Option.isSome_iff_ne_none.mpr (hbefore a ha))
  rw [realCount, List.findIdx_append, if_neg, List.findIdx_cons, hitem]
  · exact Nat.zero_add _
  · rw [List.findIdx_eq_length.mpr hreal]
    exact Nat.lt_irrefl _

/-- **The values over a readable column** are those over its rows, and so is the error. -/
theorem columnValuesBy_eq (hcast : cast.ToNearest) (hwell : column.WellTyped)
    (hreadable : column.type.isReadable = true) (f : Piecewise) :
    f.columnValuesBy cast column = (f.evaluateAll column.rows).mapError .input := by
  obtain ⟨items, hitems, halike⟩ := Column.exists_itemsBy hcast hwell hreadable
  rw [columnValuesBy, hitems, ← f.evaluateAll_congr halike]
  rfl

theorem columnValuesBy_of_not_isReadable (hreadable : column.type.isReadable = false)
    (f : Piecewise) :
    f.columnValuesBy cast column = .error (.unreadable column.name column.type) := by
  rw [columnValuesBy, Column.itemsBy_of_not_isReadable hreadable]
  rfl

/-- The results over a readable column are those over its rows, under its name. -/
theorem resultColumnBy_eq (hcast : cast.ToNearest) (hwell : column.WellTyped)
    (hreadable : column.type.isReadable = true) (f : Piecewise) :
    f.resultColumnBy cast column =
      ((f.evaluateAll column.rows).map fun values => ⟨column.name, values⟩).mapError .input := by
  rw [resultColumnBy, columnValuesBy_eq hcast hwell hreadable]
  cases f.evaluateAll column.rows <;> rfl

theorem columnExtremumBy_eq (hcast : cast.ToNearest) (hwell : column.WellTyped)
    (hreadable : column.type.isReadable = true) (f : Piecewise) (sense : Sense)
    (sentinel : Float) :
    f.columnExtremumBy cast column sense sentinel =
      (f.extremum column.rows sense sentinel).mapError .input := by
  rw [columnExtremumBy, columnValuesBy_eq hcast hwell hreadable, extremum]
  cases f.evaluateAll column.rows <;> rfl

/-- A column that is there is not missing, be it readable or not. -/
theorem resultColumnBy_ne_missing (cast : Cast) (f : Piecewise) (column : Column) (name : String) :
    f.resultColumnBy cast column ≠ .error (.missing name) := by
  intro h
  rcases bind_eq_error_iff.mp h with hcolumn | ⟨values, -, ⟨⟩⟩
  rcases bind_eq_error_iff.mp hcolumn with hitems | ⟨items, -, hvalues⟩
  · rw [Column.itemsBy] at hitems
    split_ifs at hitems
    cases hitems
  · obtain ⟨e, -, ⟨⟩⟩ := mapError_eq_error_iff.mp hvalues

/-- A name is missing from a table if and only if no column has it: a column that is there fails in
other ways. -/
theorem resultNamedBy_eq_missing_iff {cast : Cast} {f : Piecewise} {table : List Column}
    {name : String} :
    f.resultNamedBy cast table name = .error (.missing name) ↔
      ∀ column ∈ table, column.name ≠ name := by
  unfold resultNamedBy
  cases hfind : table.find? fun column => column.name = name with
  | none =>
    refine iff_of_true rfl fun column hcolumn => ?_
    exact of_decide_eq_false (Bool.not_eq_true _ ▸ List.find?_eq_none.mp hfind column hcolumn)
  | some column =>
    refine iff_of_false (resultColumnBy_ne_missing cast f column name) fun h => ?_
    have hname := List.find?_some hfind
    exact h column (List.mem_of_find?_eq_some hfind) (of_decide_eq_true hname)

/-- A name stands for the first column that has it. -/
theorem resultNamedBy_append {cast : Cast} {f : Piecewise} {before after : List Column}
    {column : Column} (h : ∀ c ∈ before, c.name ≠ column.name) :
    f.resultNamedBy cast (before ++ column :: after) column.name = f.resultColumnBy cast column := by
  have hfind : (before ++ column :: after).find? (fun c => c.name = column.name) = some column := by
    rw [List.find?_append, List.find?_eq_none.mpr fun c hc => by simpa using h c hc]
    simp
  rw [resultNamedBy, hfind]

/-- **Columns and rows.** Over a column of a readable type, a run succeeds if and only if the run
over its rows does, with the same values under the column's name, and fails with the same position
and text otherwise: at the first row that is missing or an unreadable text. Where all rows are
real, each has the value of the function at its double, which is missing exactly where the function
is undefined. Extrema agree as well. A column of any other type is refused, whatever its cells
are. A name that no column of a table has is refused, and any other name stands for the first
column that has it. -/
theorem column_outcome (f : Piecewise) {cast : Cast} (hcast : cast.ToNearest) {column : Column}
    (hwell : column.WellTyped) :
    (column.type.isReadable = true →
      (∀ result, f.resultColumnBy cast column = .ok result ↔
        result.name = column.name ∧ f.evaluateAll column.rows = .ok result.values) ∧
      (∀ e, f.resultColumnBy cast column = .error e ↔
        ∃ e', f.evaluateAll column.rows = .error e' ∧ e = .input e') ∧
      (∀ sense sentinel, f.columnExtremumBy cast column sense sentinel =
        (f.extremum column.rows sense sentinel).mapError .input) ∧
      ((∀ cell ∈ column.cells, ¬ Column.IsRefused cell) →
        ∃ values, f.evaluateAll column.rows = .ok values ∧
          List.Forall₂ (fun row value => ∃ x, row.toFloat? = some x ∧ value = f.evaluate x)
            column.rows values) ∧
      (∀ before cell after, column.cells = before ++ cell :: after →
        (∀ c ∈ before, ¬ Column.IsRefused c) → Column.IsRefused cell →
        f.evaluateAll column.rows = .error ⟨before.length, (Item.ofOption cell).shown⟩)) ∧
    (column.type.isReadable = false →
      f.resultColumnBy cast column = .error (.unreadable column.name column.type) ∧
      ∀ sense sentinel, f.columnExtremumBy cast column sense sentinel =
        .error (.unreadable column.name column.type)) ∧
    (∀ table name, f.resultNamedBy cast table name = .error (.missing name) ↔
      ∀ c ∈ table, c.name ≠ name) ∧
    (∀ before after, (∀ c ∈ before, c.name ≠ column.name) →
      f.resultNamedBy cast (before ++ column :: after) column.name =
        f.resultColumnBy cast column) := by
  refine ⟨fun hreadable => ⟨?_, ?_, ?_, ?_, ?_⟩, fun hreadable => ⟨?_, ?_⟩, ?_, ?_⟩
  · rintro ⟨name, values⟩
    rw [resultColumnBy_eq hcast hwell hreadable, mapError_eq_ok_iff]
    cases f.evaluateAll column.rows with
    | error e => exact iff_of_false nofun (by rintro ⟨-, ⟨⟩⟩)
    | ok values' =>
      show Except.ok (⟨column.name, values'⟩ : ResultColumn) = .ok ⟨name, values⟩ ↔ _
      rw [Except.ok.injEq, Except.ok.injEq, ResultColumn.mk.injEq, eq_comm (a := name)]
  · intro e
    rw [resultColumnBy_eq hcast hwell hreadable, mapError_eq_error_iff]
    cases f.evaluateAll column.rows with
    | error e' =>
      refine exists_congr fun e'' => ?_
      show (Except.error e' : Except InputError ResultColumn) = .error e'' ∧ _ ↔ _
      rw [Except.error.injEq, Except.error.injEq, eq_comm (a := e)]
    | ok values => exact iff_of_false (by rintro ⟨_, ⟨⟩, -⟩) (by rintro ⟨_, ⟨⟩, -⟩)
  · exact columnExtremumBy_eq hcast hwell hreadable f
  · intro hall
    refine exists_evaluateAll_of_forall (List.forall_mem_map.mpr fun cell hcell => ?_) f
    exact mt (Column.toFloat?_eq_none_iff hwell hreadable hcell).mp (hall cell hcell)
  · intro before cell after hcells hbefore hcell
    have hmem {c : Option Item} (hc : c ∈ before ∨ c = cell) : c ∈ column.cells := by
      rw [hcells, List.mem_append, List.mem_cons]
      exact hc.imp_right .inl
    have hrefused := (Column.toFloat?_eq_none_iff hwell hreadable (hmem (.inr rfl))).mpr hcell
    have hreal : ∀ row ∈ before.map Item.ofOption, Readable.toFloat? row ≠ none := by
      refine List.forall_mem_map.mpr fun c hc => ?_
      exact mt (Column.toFloat?_eq_none_iff hwell hreadable (hmem (.inl hc))).mp (hbefore c hc)
    have hrows : column.rows =
        before.map Item.ofOption ++ Item.ofOption cell :: after.map Item.ofOption := by
      rw [Column.rows, hcells, List.map_append, List.map_cons]
    have hcount : realCount column.rows = before.length := by
      rw [hrows, realCount_append hreal hrefused, List.length_map]
    have hrow : column.rows[realCount column.rows]? = some (Item.ofOption cell) := by
      rw [hcount, hrows]
      simp
    rw [f.evaluateAll_of_not_real hrow, hcount]
    rfl
  · rw [resultColumnBy, columnValuesBy_of_not_isReadable hreadable]
    rfl
  · intro sense sentinel
    rw [columnExtremumBy, columnValuesBy_of_not_isReadable hreadable]
    rfl
  · intro table name
    exact resultNamedBy_eq_missing_iff
  · intro before after hbefore
    exact resultNamedBy_append hbefore

/-- The identity over integers, the second of which no double represents and the third of which is
missing. -/
theorem column_outcome_absent :
    let f : Piecewise := ⟨[⟨.univ, id⟩], true⟩
    let column : Column := ⟨"n", .int64, [some (.int 1), some (.int (2 ^ 53 + 1)), none]⟩
    f.resultColumnBy nearestCast column = .error (.input ⟨2, "None"⟩) ∧
      f.resultNamedBy nearestCast [⟨"m", .boolean, []⟩, column] "n" =
        .error (.input ⟨2, "None"⟩) ∧
      f.resultNamedBy nearestCast [⟨"m", .boolean, []⟩, column] "k" = .error (.missing "k") := by
  intro f column
  have hwell : column.WellTyped := by
    intro item hitem
    rcases List.mem_cons.mp hitem with ⟨⟨⟩⟩ | hitem
    · exact .integer rfl (by decide) (by decide)
    · rcases List.mem_cons.mp hitem with ⟨⟨⟩⟩ | hitem
      · exact .integer rfl (by decide) (by decide)
      · cases List.mem_singleton.mp hitem
  obtain ⟨hreadable, -, hmissing, hnamed⟩ := f.column_outcome toNearest_nearestCast hwell
  obtain ⟨-, herror, -, -, hfirst⟩ := hreadable rfl
  have hbefore : ∀ cell ∈ [some (.int 1), some (.int (2 ^ 53 + 1))], ¬ Column.IsRefused cell := by
    intro cell hcell
    rcases List.mem_cons.mp hcell with rfl | hcell
    · rintro (⟨⟨⟩⟩ | ⟨s, ⟨⟩, -⟩)
    · cases List.mem_singleton.mp hcell
      rintro (⟨⟨⟩⟩ | ⟨s, ⟨⟩, -⟩)
  have hrows := hfirst _ none [] rfl hbefore (.inl rfl)
  have hcolumn := (herror _).mpr ⟨_, hrows, rfl⟩
  have hbefore' : ∀ c ∈ [(⟨"m", .boolean, []⟩ : Column)], c.name ≠ column.name := by
    intro c hc
    rw [List.mem_singleton.mp hc]
    exact (by decide : "m" ≠ "n")
  have habsent : ∀ c ∈ [(⟨"m", .boolean, []⟩ : Column), column], c.name ≠ "k" := by
    intro c hc
    rcases List.mem_cons.mp hc with rfl | hc
    · exact (by decide : "m" ≠ "k")
    · rw [List.mem_singleton.mp hc]
      exact (by decide : "n" ≠ "k")
  exact ⟨hcolumn, (hnamed _ [] hbefore').trans hcolumn, (hmissing _ "k").mpr habsent⟩

end Piecewise

end PiecewiseLinear
