import Mathlib.Data.List.ReduceOption
import Mathlib.Order.Lattice
import PiecewiseLinear.Evaluation.Extremum
import PiecewiseLinear.Proofs.Except

/-!
# What a run answers

A run keeps count of the items that it has taken and remembers whether it has failed. Where it
stands depends on nothing but its items and on how often it has been asked for an answer, and so
does each answer.

- `RunOver.next_of_over`, `RunOver.next_of_cons`: all that one call for an answer can do.
- `RunOver.stage`: where a run stands after a number of such calls, told from the items alone.
- `RunOver.next_stage`, `RunOver.after_stage`, `RunOver.answers_stage`: one call goes from one
  stage to the next, and so do any number of calls with others in between.
- `Piecewise.exists_evaluateAll_of_forall`, `Piecewise.evaluateAll_of_not_real`: collecting the
  answers.
- `RunOver.calls_outcome`: the answers to calls in any order, the items taken and the bounds told
  at any moment, and what is made of all answers together.
-/

namespace PiecewiseLinear

variable {α : Type} [Readable α] {f : Piecewise} {items : List α} {n : Nat}

/-! ## Answers to items -/

theorem Piecewise.answer_of_real {item : α} {x : Float} (h : Readable.toFloat? item = some x)
    (n : Nat) : f.answer n item = .ok (f.evaluate x) := by
  rw [answer, h]

theorem Piecewise.answer_of_not_real {item : α} (h : Readable.toFloat? item = none) (n : Nat) :
    f.answer n item = .error ⟨n, Readable.shown item⟩ := by
  rw [answer, h]

theorem Piecewise.evaluateItem_eq (f : Piecewise) (item : α) :
    f.evaluateItem item = f.answer 0 item := rfl

theorem realCount_le (items : List α) : realCount items ≤ items.length := List.findIdx_le_length

/-- The items in front of the first that is not real are real. -/
theorem exists_real (h : n < realCount items) :
    ∃ item x, items[n]? = some item ∧ Readable.toFloat? item = some x := by
  have hlength := Nat.lt_of_lt_of_le h (realCount_le items)
  have hreal := List.not_of_lt_findIdx h
  rw [Option.isNone_eq_false_iff, Option.isSome_iff_exists] at hreal
  obtain ⟨x, hx⟩ := hreal
  exact ⟨items[n], x, List.getElem?_eq_getElem hlength, hx⟩

theorem toFloat?_realCount {item : α} (h : items[realCount items]? = some item) :
    Readable.toFloat? item = none := by
  obtain ⟨hlt, rfl⟩ := List.getElem?_eq_some_iff.mp h
  exact Option.isNone_iff_eq_none.mp (List.findIdx_getElem (w := hlt))

/-! ## Answers that are due -/

namespace Piecewise

/-- In front of the first item that is not real, the value at an item is due. -/
theorem dueAnswer_of_lt (h : n < realCount items) :
    ∃ item x, items[n]? = some item ∧ Readable.toFloat? item = some x ∧
      f.dueAnswer items n = some (.ok (f.evaluate x)) := by
  obtain ⟨item, x, hitem, hx⟩ := exists_real h
  refine ⟨item, x, hitem, hx, ?_⟩
  rw [dueAnswer, if_pos (Nat.le_of_lt h), hitem, Option.map_some, answer_of_real hx]

/-- At that item its error is due. -/
theorem dueAnswer_realCount :
    f.dueAnswer items (realCount items) =
      items[realCount items]?.map fun item => .error ⟨realCount items, Readable.shown item⟩ := by
  rw [dueAnswer, if_pos (Nat.le_refl _)]
  cases h : items[realCount items]? with
  | none => rfl
  | some item => rw [Option.map_some, Option.map_some, answer_of_not_real (toFloat?_realCount h)]

theorem dueAnswer_of_gt (h : realCount items < n) : f.dueAnswer items n = none :=
  if_neg (Nat.not_le_of_lt h)

end Piecewise

namespace RunOver

/-! ## One call -/

/-- A run that has failed, or has no items left, gives nothing and stays as it is. -/
theorem next_of_over {run : RunOver α} (h : run.failed = true ∨ run.pending = []) :
    run.next = (none, run) := by
  unfold next
  split_ifs with hfailed
  · rfl
  · rw [h.resolve_left hfailed]

/-- Any other run answers its first item, and fails if that is not real. -/
theorem next_of_cons {run : RunOver α} {item : α} {pending : List α} (hfailed : run.failed = false)
    (hpending : run.pending = item :: pending) :
    run.next = (some (run.function.answer run.index item),
      ⟨run.function, pending, run.index + 1, (Readable.toFloat? item).isNone⟩) := by
  rw [next, hfailed, if_neg Bool.false_ne_true, hpending]
  cases h : Readable.toFloat? item with
  | none => simp only [Piecewise.answer_of_not_real h, Option.isNone_none]
  | some x => simp only [Piecewise.answer_of_real h, Option.isNone_some]

/-! ## Any number of calls -/

/-- Where a run over items stands after `n` calls for an answer: it has taken no item past the
first that is not real, and has failed once it has taken that one. -/
def stage (f : Piecewise) (items : List α) (n : Nat) : RunOver α where
  function := f
  pending := items.drop (min n (realCount items + 1))
  index := min n (min (realCount items + 1) items.length)
  failed := realCount items < min n items.length

theorem start_eq_stage (f : Piecewise) (items : List α) : start f items = stage f items 0 := by
  simp [start, stage]

/-- Past the item that is not real, and past the end, a further call changes nothing. -/
theorem stage_succ_of_over (f : Piecewise) (h : realCount items < n ∨ items.length ≤ n) :
    stage f items (n + 1) = stage f items n := by
  have hle := realCount_le items
  have hpending : items.drop (min (n + 1) (realCount items + 1)) =
      items.drop (min n (realCount items + 1)) := by
    rw [List.drop_eq_drop_iff]
    omega
  have hindex : min (n + 1) (min (realCount items + 1) items.length) =
      min n (min (realCount items + 1) items.length) := by omega
  have hfailed : realCount items < min (n + 1) items.length ↔
      realCount items < min n items.length := by omega
  simp only [stage, hpending, hindex, hfailed]

/-- Behind an item that is not real, and at the end, a call gets nothing and changes nothing. -/
theorem next_stage_of_over (f : Piecewise) (h : realCount items < n ∨ items.length ≤ n) :
    (stage f items n).next = (none, stage f items n) := by
  apply next_of_over
  by_cases hfailed : realCount items < min n items.length
  · exact .inl (decide_eq_true hfailed)
  · refine .inr (List.drop_eq_nil_of_le ?_)
    have hle := realCount_le items
    omega

/-- Up to the first item that is not real, a call takes the next item and answers it. -/
theorem next_stage_of_due (f : Piecewise) (hreal : n ≤ realCount items) (hlt : n < items.length) :
    (stage f items n).next = (some (f.answer n items[n]), stage f items (n + 1)) := by
  have hfailed : (stage f items n).failed = false := decide_eq_false (by omega)
  have hpending : (stage f items n).pending = items[n] :: items.drop (n + 1) := by
    rw [stage, Nat.min_eq_left (by omega), List.drop_eq_getElem_cons hlt]
  have hindex : (stage f items n).index = n := Nat.min_eq_left (by omega)
  -- the run fails now if and only if this is the item that is not real
  have hfails : (Readable.toFloat? items[n]).isNone =
      decide (realCount items < min (n + 1) items.length) := by
    rcases Nat.lt_or_eq_of_le hreal with hbefore | heq
    · obtain ⟨item, x, hitem, hx⟩ := exists_real hbefore
      rw [List.getElem?_eq_getElem hlt, Option.some.injEq] at hitem
      rw [hitem, hx, decide_eq_false (by omega)]
      rfl
    · subst heq
      rw [toFloat?_realCount (List.getElem?_eq_getElem hlt), decide_eq_true (by omega)]
      rfl
  have hnext : stage f items (n + 1) = ⟨f, items.drop (n + 1), n + 1,
      decide (realCount items < min (n + 1) items.length)⟩ := by
    rw [stage, Nat.min_eq_left (by omega), Nat.min_eq_left (by omega)]
  rw [next_of_cons hfailed hpending, hindex, hfails, hnext]
  rfl

/-- **One call** for an answer gets what is due and leads to the next stage. -/
theorem next_stage (f : Piecewise) (items : List α) (n : Nat) :
    (stage f items n).next = (f.dueAnswer items n, stage f items (n + 1)) := by
  by_cases hover : realCount items < n ∨ items.length ≤ n
  · have hdue : f.dueAnswer items n = none := by
      rcases hover with hgt | hend
      · exact Piecewise.dueAnswer_of_gt hgt
      · rw [Piecewise.dueAnswer, List.getElem?_eq_none hend]
        exact ite_self none
    rw [next_stage_of_over f hover, stage_succ_of_over f hover, hdue]
  · obtain ⟨hreal, hlt⟩ := not_or.mp hover
    rw [Nat.not_lt] at hreal
    rw [Nat.not_le] at hlt
    rw [next_stage_of_due f hreal hlt, Piecewise.dueAnswer, if_pos hreal,
      List.getElem?_eq_getElem hlt, Option.map_some]

/-- The stage after calls in any order: calls for bounds do not count. -/
theorem after_stage (f : Piecewise) (items : List α) (n : Nat) (calls : List Call) :
    (stage f items n).after calls = stage f items (n + calls.count .next) := by
  induction calls generalizing n with
  | nil => rfl
  | cons call calls ih =>
    cases call with
    | next => rw [after, next_stage, ih, List.count_cons_self, Nat.add_assoc, Nat.add_comm 1]
    | bounds => rw [after, ih, List.count_cons_of_ne (by decide)]

/-- The answers to calls in any order: those that are due, one after the other. -/
theorem answers_stage (f : Piecewise) (items : List α) (n : Nat) (calls : List Call) :
    (stage f items n).answers calls =
      (List.range' n (calls.count .next)).map (f.dueAnswer items) := by
  induction calls generalizing n with
  | nil => rfl
  | cons call calls ih =>
    cases call with
    | next => rw [answers, next_stage, ih, List.count_cons_self, List.range'_succ, List.map_cons]
    | bounds => rw [answers, ih, List.count_cons_of_ne (by decide)]

/-! ## All answers to come -/

/-- The answers to come are the next one and those that come after it. -/
theorem toList_eq (run : RunOver α) :
    run.toList = match run.next.1 with
      | none => []
      | some answer => answer :: run.next.2.toList := by
  by_cases hover : run.failed = true ∨ run.pending = []
  · rw [next_of_over hover, toList]
    split_ifs with hfailed
    · rfl
    · rw [hover.resolve_left hfailed]
      rfl
  · obtain ⟨hfailed, hne⟩ := not_or.mp hover
    rw [Bool.not_eq_true] at hfailed
    obtain ⟨item, pending, hpending⟩ := List.exists_cons_of_ne_nil hne
    rw [next_of_cons hfailed hpending, toList, hfailed, if_neg Bool.false_ne_true, hpending]
    cases h : Readable.toFloat? item with
    | none => rw [answersFrom, Piecewise.answer_of_not_real h]; rfl
    | some x => rw [answersFrom, Piecewise.answer_of_real h]; rfl

theorem answers_replicate_of_over {run : RunOver α} (h : run.failed = true ∨ run.pending = [])
    (n : Nat) : run.answers (List.replicate n .next) = List.replicate n none := by
  induction n with
  | zero => rfl
  | succ n ih => rw [List.replicate_succ, answers, next_of_over h, ih, List.replicate_succ]

/-- Calling for an answer often enough gives all the answers to come. -/
theorem reduceOption_answers {run : RunOver α} (h : run.pending.length ≤ n) :
    (run.answers (List.replicate n .next)).reduceOption = run.toList := by
  induction n generalizing run with
  | zero =>
    have hover := List.eq_nil_of_length_eq_zero (Nat.eq_zero_of_le_zero h)
    rw [toList_eq, next_of_over (.inr hover)]
    rfl
  | succ n ih =>
    by_cases hover : run.failed = true ∨ run.pending = []
    · rw [answers_replicate_of_over hover, List.reduceOption_replicate_none, toList_eq,
        next_of_over hover]
    · obtain ⟨hfailed, hne⟩ := not_or.mp hover
      rw [Bool.not_eq_true] at hfailed
      obtain ⟨item, pending, hpending⟩ := List.exists_cons_of_ne_nil hne
      have hlength : pending.length ≤ n := by
        rw [hpending, List.length_cons] at h
        omega
      rw [List.replicate_succ, answers, toList_eq, next_of_cons hfailed hpending]
      exact (List.reduceOption_cons_of_some _ _).trans (congrArg _ (ih hlength))

/-- There are no more answers than items. -/
theorem length_answersFrom_le (f : Piecewise) (n : Nat) (items : List α) :
    (answersFrom f n items).length ≤ items.length := by
  induction items generalizing n with
  | nil => exact Nat.le_refl 0
  | cons item items ih =>
    rw [answersFrom]
    split
    · exact Nat.succ_le_succ (ih (n + 1))
    · exact Nat.succ_le_succ (Nat.zero_le _)

/-- The number of answers to come lies within the bounds, if the input has not said too little. -/
theorem length_toList_within {run : RunOver α} {inputBound : Option Nat}
    (h : ∀ n ∈ inputBound, run.pending.length ≤ n) :
    (run.boundsWithin inputBound).1 ≤ run.toList.length ∧
      ∀ high ∈ (run.boundsWithin inputBound).2, run.toList.length ≤ high := by
  unfold boundsWithin toList
  split_ifs
  · exact ⟨Nat.zero_le _, fun high hhigh => Nat.zero_le high⟩
  · exact ⟨Nat.zero_le _, fun high hhigh => (length_answersFrom_le _ _ _).trans (h high hhigh)⟩

/-! ## All answers together -/

/-- Real items are answered with values, and the run goes on behind them. -/
theorem exists_answersFrom_append {before : List α}
    (h : ∀ item ∈ before, ∃ x, Readable.toFloat? item = some x) (f : Piecewise) (n : Nat)
    (rest : List α) :
    ∃ values, List.Forall₂ (fun item value => f.evaluateItem item = .ok value) before values ∧
      answersFrom f n (before ++ rest) =
        values.map .ok ++ answersFrom f (n + before.length) rest := by
  induction before generalizing n with
  | nil => exact ⟨[], .nil, rfl⟩
  | cons item before ih =>
    obtain ⟨⟨x, hx⟩, hbefore⟩ := List.forall_mem_cons.mp h
    obtain ⟨values, hvalues, heq⟩ := ih hbefore (n + 1)
    refine ⟨f.evaluate x :: values, .cons (Piecewise.answer_of_real hx 0) hvalues, ?_⟩
    rw [List.cons_append, answersFrom, Piecewise.answer_of_real hx, List.map_cons, List.cons_append,
      List.length_cons, Nat.add_comm before.length, ← Nat.add_assoc]
    exact congrArg _ heq

end RunOver

namespace Piecewise

theorem exists_real_of_mem_take {item : α} (h : item ∈ items.take (realCount items)) :
    ∃ x, Readable.toFloat? item = some x := by
  obtain ⟨i, hi, rfl⟩ := List.getElem_of_mem h
  rw [List.length_take] at hi
  have hlt : i < realCount items := by omega
  obtain ⟨item, x, hitem, hx⟩ := exists_real hlt
  rw [List.getElem?_eq_getElem (by omega), Option.some.injEq] at hitem
  rw [List.getElem_take, hitem]
  exact ⟨x, hx⟩

/-- Collecting gives all values where all items are real. -/
theorem exists_evaluateAll (f : Piecewise) (h : realCount items = items.length) :
    ∃ values, List.Forall₂ (fun item value => f.evaluateItem item = .ok value) items values ∧
      f.evaluateAll items = .ok values := by
  have hreal : ∀ item ∈ items, ∃ x, Readable.toFloat? item = some x := by
    intro item hitem
    rw [← List.take_length (l := items), ← h] at hitem
    exact exists_real_of_mem_take hitem
  obtain ⟨values, hvalues, heq⟩ := RunOver.exists_answersFrom_append hreal f 0 []
  refine ⟨values, hvalues, mapM_eq_ok_iff.mpr ?_⟩
  rw [List.append_nil] at heq
  rw [RunOver.toList, RunOver.start, if_neg Bool.false_ne_true, heq, RunOver.answersFrom,
    List.append_nil, List.forall₂_map_left_iff]
  exact List.forall₂_same.mpr fun _ _ => rfl

/-- Collecting over items that are all real gives the value at each. -/
theorem exists_evaluateAll_of_forall (h : ∀ item ∈ items, Readable.toFloat? item ≠ none)
    (f : Piecewise) :
    ∃ values, f.evaluateAll items = .ok values ∧
      List.Forall₂ (fun item value => ∃ x, Readable.toFloat? item = some x ∧ value = f.evaluate x)
        items values := by
  have hall : realCount items = items.length := List.findIdx_eq_length.mpr fun item hitem =>
    Option.isNone_eq_false_iff.mpr (Option.isSome_iff_ne_none.mpr (h item hitem))
  obtain ⟨values, hvalues, hok⟩ := f.exists_evaluateAll hall
  refine ⟨values, hok, hvalues.imp fun item value hvalue => ?_⟩
  cases hreal : Readable.toFloat? item with
  | none =>
    rw [evaluateItem_eq, answer_of_not_real hreal] at hvalue
    cases hvalue
  | some x =>
    rw [evaluateItem_eq, answer_of_real hreal, Except.ok.injEq] at hvalue
    exact ⟨x, rfl, hvalue.symm⟩

/-- Collecting fails at the first item that is not real. -/
theorem evaluateAll_of_not_real (f : Piecewise) {item : α}
    (h : items[realCount items]? = some item) :
    f.evaluateAll items = .error ⟨realCount items, Readable.shown item⟩ := by
  obtain ⟨hlt, hitem⟩ := List.getElem?_eq_some_iff.mp h
  have hnone := toFloat?_realCount h
  have hreal : ∀ item ∈ items.take (realCount items), ∃ x, Readable.toFloat? item = some x :=
    fun item => exists_real_of_mem_take
  obtain ⟨values, -, heq⟩ := RunOver.exists_answersFrom_append hreal f 0
    (items.drop (realCount items))
  rw [List.take_append_drop, List.drop_eq_getElem_cons hlt, hitem, RunOver.answersFrom,
    answer_of_not_real hnone, Nat.zero_add, List.length_take, Nat.min_eq_left hlt.le] at heq
  have herror : FirstRefused (fun answer : Answer => ∃ v, id answer = .ok v) id
      (RunOver.answersFrom f 0 items) ⟨realCount items, Readable.shown item⟩ := by
    refine ⟨values.map .ok, .error ⟨realCount items, Readable.shown item⟩, [], heq, ?_, nofun, rfl⟩
    exact List.forall_mem_map.mpr fun v _ => ⟨v, rfl⟩
  exact (mapM_eq_error_iff fun _ => Iff.rfl).mpr herror

end Piecewise

/-- **Calls on a run.** Calls for an answer, with calls for bounds between them in any way, get
the answers that are due: the values at the items in front of the first that is not real, an
error for that one, and nothing from then on. No item behind that one is taken. At any moment the
number of answers to come, which is what further calls give, lies within the bounds, provided
that the input tells the truth. All answers together are the error, whatever came before, or all
values, and so is the extremum the error, or the extremum of all values. -/
theorem RunOver.calls_outcome (f : Piecewise) (items : List α) (calls : List Call) :
    let run := (start f items).after calls
    let taken := calls.count .next
    let k := realCount items
    (start f items).answers calls = (List.range taken).map (f.dueAnswer items) ∧
    (∀ j < k, ∃ item x, items[j]? = some item ∧ Readable.toFloat? item = some x ∧
      f.dueAnswer items j = some (.ok (f.evaluate x))) ∧
    f.dueAnswer items k = items[k]?.map (fun item => .error ⟨k, Readable.shown item⟩) ∧
    (∀ j > k, f.dueAnswer items j = none) ∧
    run.pending = items.drop (min taken (k + 1)) ∧
    (∀ n, run.pending.length ≤ n →
      (run.answers (List.replicate n .next)).reduceOption = run.toList) ∧
    (∀ inputBound : Option Nat, (∀ n ∈ inputBound, run.pending.length ≤ n) →
      (run.boundsWithin inputBound).1 ≤ run.toList.length ∧
        ∀ high ∈ (run.boundsWithin inputBound).2, run.toList.length ≤ high) ∧
    (∀ item, items[k]? = some item → Readable.toFloat? item = none ∧
      f.evaluateAll items = .error ⟨k, Readable.shown item⟩ ∧
      ∀ sense sentinel, f.extremum items sense sentinel = .error ⟨k, Readable.shown item⟩) ∧
    (k = items.length → ∃ values,
      List.Forall₂ (fun item value => f.evaluateItem item = .ok value) items values ∧
      f.evaluateAll items = .ok values ∧
      ∀ sense sentinel, f.extremum items sense sentinel =
        .ok (sense.extremumOf values sentinel)) := by
  dsimp only
  refine ⟨?_, ?_, ?_, ?_, ?_, ?_, ?_, ?_, ?_⟩
  · rw [start_eq_stage, answers_stage, List.range_eq_range']
  · intro j hj
    exact Piecewise.dueAnswer_of_lt hj
  · exact Piecewise.dueAnswer_realCount
  · intro j hj
    exact Piecewise.dueAnswer_of_gt hj
  · rw [start_eq_stage, after_stage, Nat.zero_add]
    rfl
  · intro n hn
    exact reduceOption_answers hn
  · intro inputBound hbound
    exact length_toList_within hbound
  · intro item hitem
    have herror := f.evaluateAll_of_not_real hitem
    refine ⟨toFloat?_realCount hitem, herror, fun sense sentinel => ?_⟩
    rw [Piecewise.extremum, herror]
    rfl
  · intro hreal
    obtain ⟨values, hvalues, hok⟩ := f.exists_evaluateAll hreal
    refine ⟨values, hvalues, hok, fun sense sentinel => ?_⟩
    rw [Piecewise.extremum, hok]
    rfl

/-- A missing item between two others: one value, one error, and nothing from then on. The last
item is not taken, so the input goes on saying that one item is to come. -/
theorem RunOver.calls_outcome_absent :
    let f : Piecewise := ⟨[⟨.univ, id⟩], true⟩
    let items : List Item := [.present (.real 1), .absent, .present (.real 2)]
    let calls : List Call := [.bounds, .next, .next, .bounds, .next]
    let run := (start f items).after calls
    (start f items).answers calls = [some (.ok (some 1)), some (.error ⟨1, "None"⟩), none] ∧
      run.pending = [.present (.real 2)] ∧
      (∀ high ∈ (run.boundsWithin (some 1)).2, run.toList.length ≤ high) ∧
      f.extremum items .min Double.infinity = .error ⟨1, "None"⟩ := by
  intro f items calls run
  obtain ⟨hanswers, -, -, -, hpending, -, hbounds, hfail, -⟩ := calls_outcome f items calls
  have hdue : (List.range (calls.count .next)).map (f.dueAnswer items) =
      [some (.ok (some 1)), some (.error ⟨1, "None"⟩), none] := by decide
  have hinput : ∀ n ∈ some 1, run.pending.length ≤ n := by decide
  exact ⟨hanswers.trans hdue, hpending, (hbounds (some 1) hinput).2,
    (hfail .absent rfl).2.2 .min Double.infinity⟩

end PiecewiseLinear
