import PiecewiseLinear.Proofs.Script.Depth
import PiecewiseLinear.Proofs.Script.Level
import PiecewiseLinear.Proofs.Script.Remainder

/-!
# Reading ends

Whatever the text, reading comes to an end by itself. A loop ends because what it repeats is not
there any more, a reference back is made behind a character of its own, and no bound on a count or
on a depth decides a result.

- `Scan.Run`, `Parse.Run`: loops without a bound on the count.
- `Scan.many_eq_some_iff`, `Parse.many_eq_iff`: the bound of a loop is never reached.
- `Expr.IsReader`, `Function.IsReader`: the readers that scripts are read with.
- `Expr.IsRepeated`, `Function.IsRepeated`: what their loops repeat.
- `reading_ends`: progress and termination.
-/

namespace PiecewiseLinear.Script

/-! ## Loops -/

namespace Scan

variable {α : Type} {item : Scan α} {s r : List Char} {as : List α}

/-- Reading the same thing until it is not there any more, however often that is. -/
inductive Run (item : Scan α) : List Char → List α → List Char → Prop where
  | done {s : List Char} (h : item s = none) : Run item s [] s
  | more {s t r : List Char} {a : α} {as : List α} (h : item s = some (a, t))
      (hmore : Run item t as r) : Run item s (a :: as) r

/-- Every text has a run of what takes a character each time. -/
theorem exists_run (hitem : Takes item) (s : List Char) : ∃ as r, Run item s as r := by
  -- on the length of the text: each time leaves a shorter one
  induction hn : s.length using Nat.strong_induction_on generalizing s with
  | _ n ih =>
    cases h : item s with
    | none => exact ⟨[], s, .done h⟩
    | some x =>
      obtain ⟨as, r, hrun⟩ := ih x.2.length (hn ▸ (hitem h).2) x.2 rfl
      exact ⟨x.1 :: as, r, .more h hrun⟩

/-- A run is what repeating comes to, once the count is as large as the text is long. -/
theorem upTo_of_run (hitem : Takes item) (h : Run item s as r) {count : Nat}
    (hcount : s.length ≤ count) : upTo item count s = (as, r) := by
  induction h generalizing count with
  | @done s h => cases count <;> simp [upTo, h]
  | @more s t r a as h hmore ih =>
    have hlt := (hitem h).2
    obtain ⟨count, rfl⟩ := Nat.exists_eq_add_one_of_ne_zero (by omega : count ≠ 0)
    rw [upTo, h]
    dsimp only
    rw [ih (by omega)]

theorem many_eq_some_iff (hitem : Takes item) : many item s = some (as, r) ↔ Run item s as r := by
  constructor
  · intro h
    obtain ⟨as', r', hrun⟩ := exists_run hitem s
    rw [many, upTo_of_run hitem hrun le_rfl] at h
    cases h
    exact hrun
  · intro h
    rw [many, upTo_of_run hitem h le_rfl]

/-- What can be repeated: each time takes a character, so that the loop ends by itself and any
count that covers the text gives the same. -/
structure Repeatable (item : Scan α) : Prop where
  takes : Takes item
  keeps_many : Keeps (many item)
  upTo_eq : ∀ s count, s.length ≤ count → some (upTo item count s) = many item s
  exists_run : ∀ s, ∃ as r, Run item s as r
  many_iff : ∀ s as r, many item s = some (as, r) ↔ Run item s as r

theorem Takes.repeatable (hitem : Takes item) : Repeatable item where
  takes := hitem
  keeps_many := hitem.keeps.many
  upTo_eq _ _ hcount := congrArg some (upTo_congr hitem hcount le_rfl)
  exists_run := Scan.exists_run hitem
  many_iff _ _ _ := many_eq_some_iff hitem

end Scan

namespace Parse

variable {α : Type} {p : Parse α} {s t : List Char} {a : α} {e : Failure}
  {x : EStateM.Result Failure (List Char) (List α)}

/-- One more item in front of what is read after it. -/
def prepended (a : α) : EStateM.Result Failure (List Char) (List α) →
    EStateM.Result Failure (List Char) (List α)
  | .ok as r => .ok (a :: as) r
  | .error e stop => .error e stop

/-- Reading the same thing until it is not there any more, however often that is. Only a final
failure ends the loop with a failure. -/
inductive Run (p : Parse α) : List Char → EStateM.Result Failure (List Char) (List α) → Prop where
  | done {s : List Char} (h : Fails p s) : Run p s (.ok [] s)
  | final {s stop : List Char} {e : Failure} (h : p s = .error e stop) (hfinal : e.final = true) :
      Run p s (.error e stop)
  | more {s t : List Char} {a : α} {x : EStateM.Result Failure (List Char) (List α)}
      (h : p s = .ok a t) (hmore : Run p t x) : Run p s (prepended a x)

/-- Every text has a run of what takes a character each time: to results, or to a final failure. -/
theorem exists_run (hp : Takes p) (s : List Char) : ∃ x, Run p s x := by
  induction hn : s.length using Nat.strong_induction_on generalizing s with
  | _ n ih =>
    cases h : p s with
    | ok a t =>
      obtain ⟨x, hrun⟩ := ih t.length (hn ▸ hp.length_lt_of_ok h) t rfl
      exact ⟨prepended a x, .more h hrun⟩
    | error e stop =>
      by_cases hfinal : e.final = true
      · exact ⟨.error e stop, .final h hfinal⟩
      · exact ⟨.ok [] s, .done ⟨e, stop, h, Bool.eq_false_iff.mpr hfinal⟩⟩

theorem upTo_succ (h : p s = .ok a t) (count : Nat) :
    upTo p (count + 1) s = prepended a (upTo p count t) := by
  cases hmore : upTo p count t with
  | ok as r => exact upTo_succ_of_ok h hmore
  | error e stop => exact (bind_of_ok (optional_of_ok h)).trans (bind_of_error hmore)

/-- At the end of the text the count is used up, and nothing is there. -/
theorem upTo_of_run (hp : Takes p) (hnil : Fails p []) (h : Run p s x) {count : Nat}
    (hcount : s.length ≤ count) : upTo p count s = x := by
  induction h generalizing count with
  | done h => exact upTo_of_fails h count
  | @final s stop e h hfinal =>
    have hne : s ≠ [] := by
      rintro rfl
      obtain ⟨e', stop', h', hfinal'⟩ := hnil
      cases h.symm.trans h'
      rw [hfinal] at hfinal'
      cases hfinal'
    have hpos := List.length_pos_of_ne_nil hne
    obtain ⟨count, rfl⟩ := Nat.exists_eq_add_one_of_ne_zero (by omega : count ≠ 0)
    exact upTo_succ_of_final h hfinal
  | @more s t a x h hmore ih =>
    have hlt := hp.length_lt_of_ok h
    obtain ⟨count, rfl⟩ := Nat.exists_eq_add_one_of_ne_zero (by omega : count ≠ 0)
    rw [upTo_succ h, ih (by omega)]

theorem many_eq_iff (hp : Takes p) (hnil : Fails p []) : many p s = x ↔ Run p s x := by
  constructor
  · rintro rfl
    obtain ⟨x, hrun⟩ := exists_run hp s
    rw [many, upTo_of_run hp hnil hrun le_rfl]
    exact hrun
  · intro h
    rw [many, upTo_of_run hp hnil h le_rfl]

/-- What can be repeated: each time takes a character, so that the loop ends by itself and any
count that covers the text gives the same. -/
structure Repeatable (p : Parse α) : Prop where
  takes : Takes p
  keeps_many : Keeps (many p)
  upTo_eq : ∀ s count, s.length ≤ count → upTo p count s = many p s
  exists_run : ∀ s, ∃ x, Run p s x
  many_iff : ∀ s x, many p s = x ↔ Run p s x

theorem Takes.repeatable (hp : Takes p) (hnil : Fails p []) : Repeatable p where
  takes := hp
  keeps_many := hp.toKeeps.many
  upTo_eq s count hcount := by
    obtain ⟨x, hrun⟩ := Parse.exists_run hp s
    rw [upTo_of_run hp hnil hrun hcount, (many_eq_iff hp hnil).mpr hrun]
  exists_run := Parse.exists_run hp
  many_iff _ _ := many_eq_iff hp hnil

end Parse

/-! ## Readers -/

namespace Expr

open Scan

variable {α : Type} {nested : Nested} {p : Scan α}

/-- What is repeated in expressions, above the readers for references back. -/
inductive IsRepeated (nested : Nested) : ∀ {α : Type}, Scan α → Prop where
  | argument : IsRepeated nested (furtherArgument nested)
  | call : IsRepeated nested (furtherCall nested)
  | factor : IsRepeated nested (link productOp (signed nested))
  | term : IsRepeated nested (link sumOp (product nested))
  | link : IsRepeated nested (link comparator (sum nested))
  | conjunct : IsRepeated nested (furtherOperand .and (negated nested))
  | disjunct : IsRepeated nested (furtherOperand .or (conjunction nested))

/-- The readers of expressions, from the lexemes to the levels of the grammar, above the readers
for references back. -/
inductive IsReader (nested : Nested) : ∀ {α : Type}, Scan α → Prop where
  | piece {text : List Char} (hne : text ≠ []) : IsReader nested (piece text)
  | pieceNotBefore {text : List Char} (hne : text ≠ []) (next : Char) :
      IsReader nested (pieceNotBefore text next)
  | keyword {word : List Char} (hne : word ≠ []) : IsReader nested (keyword word)
  | number : IsReader nested number?
  | name : IsReader nested name?
  | comparator : IsReader nested comparator
  | sumOp : IsReader nested sumOp
  | productOp : IsReader nested productOp
  | parenthesized : IsReader nested (parenthesized nested)
  | someArguments : IsReader nested (someArguments nested)
  | callArguments : IsReader nested (callArguments nested)
  | exponent : IsReader nested (exponent nested)
  | level (b : Binding) : IsReader nested (reader nested b)
  | repeated {α : Type} {item : Scan α} (h : IsRepeated nested item) : IsReader nested item

theorem IsRepeated.takes (hp : IsRepeated nested p) (h : ∀ entry, Takes (nested entry)) :
    Takes p := by
  cases hp with
  | argument => exact takes_furtherArgument h
  | call => exact takes_furtherCall h
  | factor => exact takes_link takes_productOp (takes_signed h)
  | term => exact takes_link takes_sumOp (takes_product h)
  | link => exact takes_link takes_comparator (takes_sum h)
  | conjunct => exact takes_furtherOperand .and (takes_negated h)
  | disjunct => exact takes_furtherOperand .or (takes_conjunction h)

/-- Every reader of expressions takes a character, if the readers for references back do. -/
theorem IsReader.takes (hp : IsReader nested p) (h : ∀ entry, Takes (nested entry)) :
    Takes p := by
  cases hp with
  | piece hne => exact takes_piece hne
  | pieceNotBefore hne next => exact takes_pieceNotBefore hne next
  | keyword hne => exact takes_keyword hne
  | number => exact takes_number?
  | name => exact takes_name?
  | comparator => exact takes_comparator
  | sumOp => exact takes_sumOp
  | productOp => exact takes_productOp
  | parenthesized => exact takes_parenthesized h
  | someArguments => exact takes_someArguments h
  | callArguments => exact takes_callArguments h
  | exponent => exact takes_exponent h
  | level b => exact takes_reader h b
  | repeated hrepeated => exact hrepeated.takes h

end Expr

namespace Function

open Parse

variable {α : Type} {p : Parse α}

/-- What is repeated in functions. -/
inductive IsRepeated : ∀ {α : Type}, Parse α → Prop where
  | branch : IsRepeated furtherBranch
  | statement : IsRepeated layoutStatement

/-- The readers of functions, from the lexemes to whole functions. -/
inductive IsReader : ∀ {α : Type}, Parse α → Prop where
  | piece {text : List Char} (hne : text ≠ []) : IsReader (piece text)
  | keyword {word : List Char} (hne : word ≠ []) : IsReader (Parse.keyword word)
  | ident : IsReader Parse.ident
  | expression : IsReader expression
  | returned : IsReader returned
  | branch : IsReader branch
  | otherwise : IsReader otherwiseValue
  | conditional : IsReader conditional
  | assignment : IsReader assignment
  | statement : IsReader statement
  | function : IsReader function
  | repeated {α : Type} {p : Parse α} (h : IsRepeated p) : IsReader p

theorem IsRepeated.repeatable (hp : IsRepeated p) : p.Repeatable := by
  cases hp with
  | branch => exact takes_furtherBranch.repeatable (fails_furtherBranch rfl)
  | statement => exact takes_layoutStatement.repeatable (fails_layoutStatement rfl)

/-- Every reader of functions takes a character. -/
theorem IsReader.takes (hp : IsReader p) : p.Takes := by
  cases hp with
  | piece hne => exact takes_piece hne
  | keyword hne => exact takes_keyword hne
  | ident => exact takes_ident
  | expression => exact takes_expression
  | returned => exact takes_returned
  | branch => exact takes_branch
  | otherwise => exact takes_otherwiseValue
  | conditional => exact takes_conditional
  | assignment => exact takes_assignment
  | statement => exact takes_statement
  | function => exact takes_function
  | repeated hrepeated => exact hrepeated.repeatable.takes

end Function

/-! ## Every text -/

/-- Layout is skipped up to a character that is none and begins no comment. -/
theorem not_isLayout_of_head_skipLayoutFrom (inComment : Bool) (s : List Char) :
    ∀ c ∈ (skipLayoutFrom inComment s).head?, isLayout c = false ∧ c ≠ '#' := by
  induction s generalizing inComment with
  | nil => exact nofun
  | cons d s ih =>
    rw [skipLayoutFrom]
    split_ifs with hcomment hlayout hhash
    · exact ih _
    · exact ih _
    · exact ih _
    · rintro c ⟨⟩
      exact ⟨Bool.eq_false_iff.mpr hlayout, hhash⟩

/-- **Reading makes progress and ends.** Whatever the text, and with any depth or without a bound on
it, a reader that gives a result leaves a shorter end of the text, and what only skips leaves an end
of it. So every loop comes to its end by itself, as it would without a bound on the count. Layout is
skipped up to a character that is none. With more depth than there are characters the depth is never
used up: the result is the same whatever stands at its end, and it is that of the only readers which
are what the grammar makes of them. -/
theorem reading_ends :
    (∀ nested : Nested, nested = Expr.solution ∨ (∃ depth, nested = Expr.scanAt depth) →
      (∀ {α : Type} (p : Scan α), Expr.IsReader nested p → p.Takes) ∧
        ∀ {α : Type} (item : Scan α), Expr.IsRepeated nested item → item.Repeatable) ∧
    (∀ {α : Type} (p : Parse α), Function.IsReader p → p.Takes) ∧
    (∀ {α : Type} (p : Parse α), Function.IsRepeated p → p.Repeatable) ∧
    (Scan.blanks.Keeps ∧ Scan.layout.Keeps ∧ Parse.blanks.Keeps ∧ Parse.layout.Keeps) ∧
    (∀ s, ∀ c ∈ (skipLayout s).head?, c ∉ [' ', '\t', '\r', '\n', '#']) ∧
    (∀ (nested : Nested) (depth : Nat) (entry : Entry) (s : List Char), s.length < depth →
      Expr.scanFrom^[depth] nested entry s = Expr.solution entry s) ∧
    (∀ nested, Expr.scanFrom nested = nested ↔ nested = Expr.solution) ∧
    Expr.scan = Expr.solution .disjunction := by
  refine ⟨fun nested hnested => ?_, fun p hp => hp.takes, fun p hp => hp.repeatable,
    ⟨Scan.keeps_blanks, Scan.keeps_layout, Parse.keeps_blanks, Parse.keeps_layout⟩,
    fun s c hc => ?_, fun nested depth entry s h => Expr.iterate_scanFrom nested entry h,
    fun nested => Expr.scanFrom_eq_self_iff, rfl⟩
  · have htakes : ∀ entry, Scan.Takes (nested entry) := by
      obtain rfl | ⟨depth, rfl⟩ := hnested
      · exact Expr.takes_solution
      · exact Expr.takes_scanAt depth
    exact ⟨fun p hp => hp.takes htakes, fun item hitem => (hitem.takes htakes).repeatable⟩
  · obtain ⟨hlayout, hhash⟩ := not_isLayout_of_head_skipLayoutFrom false s c hc
    have hnone : ¬(c = ' ' ∨ c = '\t' ∨ c = '\n' ∨ c = '\r') := by
      rw [← or_assoc, ← isBlankInLine_iff, ← isLayout_iff, hlayout]
      exact Bool.false_ne_true
    simp only [List.mem_cons, List.not_mem_nil, or_false]
    tauto

/-- A sign without an operand. Two references are deep enough for its one character, and one is
not: then the sign would take its operand from what stands where the depth ends. -/
theorem reading_ends_sign :
    let base : Nested := fun _ s => some (.ident "base", s)
    (1 < 2 ∧ Expr.scanFrom^[2] base .disjunction ['-'] = Expr.scan ['-']) ∧
      Expr.scan ['-'] = none ∧ (Expr.scanFrom^[1] base .disjunction ['-']).isSome = true ∧
      Scan.Takes (Expr.reader (Expr.scanAt 2) .disjunction) ∧ Parse.Takes conditional ∧
      Scan.Repeatable (Expr.furtherCall Expr.solution) ∧ Parse.Repeatable furtherBranch ∧
      (skipLayout "# x\n\ty".toList).head? = some 'y' ∧ 'y' ∉ [' ', '\t', '\r', '\n', '#'] := by
  intro base
  have hlt : ['-'].length < 2 := by decide
  have hnone : (Expr.scan ['-']).isNone = true := by decide +kernel
  have hsome : (Expr.scanFrom^[1] base .disjunction ['-']).isSome = true := by decide +kernel
  have hhead : (skipLayout "# x\n\ty".toList).head? = some 'y' := by decide
  obtain ⟨hexpr, hreader, hrepeated, -, hlayout, hdepth, -, hscan⟩ := reading_ends
  refine ⟨⟨hlt, ?_⟩, Option.isNone_iff_eq_none.mp hnone, hsome,
    (hexpr _ (.inr ⟨2, rfl⟩)).1 _ (.level .disjunction), hreader _ .conditional,
    (hexpr _ (.inl rfl)).2 _ .call, hrepeated _ .branch, hhead, hlayout _ _ hhead⟩
  rw [hscan]
  exact hdepth base 2 .disjunction ['-'] hlt

end PiecewiseLinear.Script
