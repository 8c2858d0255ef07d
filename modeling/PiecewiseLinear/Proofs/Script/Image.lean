import PiecewiseLinear.Proofs.Script.Completeness
import PiecewiseLinear.Proofs.Script.RoundTrip
import PiecewiseLinear.Proofs.Script.Walk
import PiecewiseLinear.Script.Reread

/-!
# What readers give back

Whatever is read off a text can be written, apart from numbers beyond the range of doubles: with
a name for each of these it is well formed.

- `Expr.text_reread`, `Function.text_reread`: such a name is printed as the number was.
- `Expr.reread_eq_self_iff`, `Function.reread_eq_self_iff`: nothing changes just in case every
  number is finite.
- `Phrase.wellFormed_reread`: the expressions that the grammar has.
- `Parse.Yields`: what holds of every result of a reader, through all the ways of combining
  readers.
- `Function.wellFormed_reread_of_parse`: the functions that are read.
-/

namespace PiecewiseLinear.Script

variable {source : String} {b : Binding} {s r : List Char} {e : Expr}

theorem map_eq_self_iff {α : Type} {f : α → α} {as : List α} :
    as.map f = as ↔ ∀ a ∈ as, f a = a := by
  induction as with
  | nil => simp
  | cons a as ih => rw [List.map_cons, List.cons.injEq, ih, List.forall_mem_cons]

/-! ## Numbers and names -/

namespace Expr

theorem linkNumbers_eq_flatMap (links : List (Comparator × Expr)) :
    linkNumbers links = links.flatMap (·.2.numbers) := by
  induction links with
  | nil => rfl
  | cons l links ih => rw [linkNumbers, ih, List.flatMap_cons]

theorem operandNumbers_eq_flatMap (operands : List Expr) :
    operandNumbers operands = operands.flatMap numbers := by
  induction operands with
  | nil => rfl
  | cons e operands ih => rw [operandNumbers, ih, List.flatMap_cons]

theorem rereadLinks_eq_map (links : List (Comparator × Expr)) :
    rereadLinks links = links.map fun l => (l.1, l.2.reread) := by
  induction links with
  | nil => rfl
  | cons l links ih => rw [rereadLinks, ih, List.map_cons]

theorem rereadOperands_eq_map (operands : List Expr) :
    rereadOperands operands = operands.map reread := by
  induction operands with
  | nil => rfl
  | cons e operands ih => rw [rereadOperands, ih, List.map_cons]

/-- An expression stays as it is if and only if all its numbers are finite. Otherwise some number
becomes a name. -/
theorem reread_eq_self_iff (e : Expr) :
    e.reread = e ↔ ∀ v ∈ e.numbers, v.isFinite = true := by
  induction e using induction with
  | ident name => simp [reread, numbers]
  | number v =>
    rw [reread, rereadNumber, numbers, List.forall_mem_singleton]
    by_cases hfinite : v.isFinite = true
    · simp [hfinite]
    · simp [hfinite]
  | unary op operand ih => rw [reread, numbers, unary.injEq, eq_self, true_and, ih]
  | binary lhs op rhs ihlhs ihrhs =>
    rw [reread, numbers, binary.injEq, eq_self, true_and, ihlhs, ihrhs, List.forall_mem_append]
  | compare first links ihfirst ihlinks =>
    have hlinks : rereadLinks links = links ↔ ∀ v ∈ linkNumbers links, v.isFinite = true := by
      rw [rereadLinks_eq_map, map_eq_self_iff, linkNumbers_eq_flatMap, List.forall_mem_flatMap]
      refine forall₂_congr fun l hl => ?_
      rw [← ihlinks l hl, Prod.ext_iff, eq_self, true_and]
    rw [reread, numbers, compare.injEq, ihfirst, hlinks, List.forall_mem_append]
  | junction connective operands ih =>
    rw [reread, numbers, junction.injEq, eq_self, true_and, rereadOperands_eq_map,
      map_eq_self_iff, operandNumbers_eq_flatMap, List.forall_mem_flatMap]
    exact forall₂_congr ih
  | call callee arguments ihcallee ih =>
    have harguments : rereadOperands arguments = arguments ↔
        ∀ v ∈ operandNumbers arguments, v.isFinite = true := by
      rw [rereadOperands_eq_map, map_eq_self_iff, operandNumbers_eq_flatMap,
        List.forall_mem_flatMap]
      exact forall₂_congr ih
    rw [reread, numbers, call.injEq, ihcallee, harguments, List.forall_mem_append]

/-- A number and the name that it becomes bind alike. -/
theorem binding_reread (e : Expr) : e.reread.binding = e.binding := by
  cases e with
  | number v =>
    rw [reread, rereadNumber]
    split_ifs <;> rfl
  | ident | unary | binary | compare | junction | call => rfl

/-- The name that stands for a number is printed as the number. -/
theorem text_reread (e : Expr) : e.reread.text = e.text := by
  induction e using induction with
  | ident name => rfl
  | number v =>
    rw [reread, rereadNumber]
    split_ifs
    · rfl
    · rw [text, text]
  | unary op operand ih => rw [reread, text, text, binding_reread, ih]
  | binary lhs op rhs ihlhs ihrhs =>
    rw [reread, text, text, binding_reread, binding_reread, ihlhs, ihrhs]
  | compare first links ihfirst ihlinks =>
    have hlinks : linksText (rereadLinks links) = linksText links := by
      rw [← String.toList_inj, toList_linksText, toList_linksText, rereadLinks_eq_map,
        List.flatMap_map]
      refine List.flatMap_congr fun l hl => ?_
      rw [binding_reread, ihlinks l hl]
    rw [reread, text, text, binding_reread, ihfirst, hlinks]
  | junction connective operands ih =>
    have hoperands (wanted : Binding) :
        operandTexts wanted (rereadOperands operands) = operandTexts wanted operands := by
      rw [operandTexts_eq_map, operandTexts_eq_map, rereadOperands_eq_map, List.map_map]
      refine List.map_congr_left fun e he => ?_
      rw [Function.comp_apply, binding_reread, ih e he]
    rw [reread, text, text, hoperands]
  | call callee arguments ihcallee ih =>
    have harguments : argumentTexts (rereadOperands arguments) = argumentTexts arguments := by
      rw [argumentTexts_eq_map, argumentTexts_eq_map, rereadOperands_eq_map, List.map_map]
      exact List.map_congr_left ih
    rw [reread, text, text, binding_reread, ihcallee, harguments]

end Expr

namespace Stmt

theorem reread_cond (test value : Expr) (alternative : Option Stmt) :
    (cond test value alternative).reread =
      cond test.reread value.reread (alternative.map reread) := by
  cases alternative <;> rfl

theorem numbers_cond (test value : Expr) (alternative : Option Stmt) :
    (cond test value alternative).numbers =
      test.numbers ++ value.numbers ++ alternative.toList.flatMap numbers := by
  cases alternative with
  | none => rw [numbers, Option.toList_none, List.flatMap_nil, List.append_nil]
  | some stmt => rw [numbers, Option.toList_some, List.flatMap_singleton]

theorem isAssign_reread (stmt : Stmt) : stmt.reread.isAssign = stmt.isAssign := by
  cases stmt with
  | cond test value alternative =>
    rw [reread_cond]
    rfl
  | ret | assign => rfl

/-- A statement stays as it is if and only if all its numbers are finite. -/
theorem reread_eq_self_iff (stmt : Stmt) :
    stmt.reread = stmt ↔ ∀ v ∈ stmt.numbers, v.isFinite = true := by
  induction stmt using Stmt.induction with
  | cond test value alternative ih =>
    have halternative : alternative.map reread = alternative ↔
        ∀ v ∈ alternative.toList.flatMap numbers, v.isFinite = true := by
      cases alternative with
      | none => simp
      | some stmt =>
        rw [Option.map_some, Option.some.injEq, ih stmt rfl, Option.toList_some,
          List.flatMap_singleton]
    rw [reread_cond, numbers_cond, cond.injEq, test.reread_eq_self_iff, value.reread_eq_self_iff,
      halternative, List.forall_mem_append, List.forall_mem_append, and_assoc]
  | ret value => rw [reread, numbers, ret.injEq, value.reread_eq_self_iff]
  | assign name value =>
    rw [reread, numbers, assign.injEq, eq_self, true_and, value.reread_eq_self_iff]

/-- A statement is printed as before, on its own and as an alternative. -/
theorem lines_reread (stmt : Stmt) :
    (∀ depth, stmt.reread.lines depth = stmt.lines depth) ∧
      ∀ depth, alternativeLines depth (some stmt.reread) = alternativeLines depth (some stmt) := by
  induction stmt using Stmt.induction with
  | cond test value alternative ih =>
    have halternative (depth : Nat) :
        alternativeLines depth (alternative.map reread) = alternativeLines depth alternative := by
      cases alternative with
      | none => rfl
      | some stmt => exact (ih stmt rfl).2 depth
    rw [reread_cond]
    constructor
    · intro depth
      rw [lines, lines, test.text_reread, value.text_reread, halternative]
    · intro depth
      rw [alternativeLines, alternativeLines, test.text_reread, value.text_reread, halternative]
  | ret value =>
    constructor
    · intro depth
      rw [reread, lines, lines, value.text_reread]
    · intro depth
      rw [reread, alternativeLines, alternativeLines, value.text_reread]
  | assign name value =>
    constructor
    · intro depth
      rw [reread, lines, lines, value.text_reread]
    · intro depth
      rw [reread, alternativeLines, alternativeLines, value.text_reread]

end Stmt

namespace Function

/-- A function that was printed and read again is printed as before. -/
theorem text_reread (f : Function) : f.reread.text = f.text := by
  have hbody : (f.body.map Stmt.reread).flatMap (Stmt.lines 1) =
      f.body.flatMap (Stmt.lines 1) := by
    rw [List.flatMap_map]
    exact List.flatMap_congr fun stmt _ => stmt.lines_reread.1 1
  rw [text, text, reread, hbody]

/-- A function stays as it is if and only if all its numbers are finite. -/
theorem reread_eq_self_iff (f : Function) :
    f.reread = f ↔ ∀ v ∈ f.numbers, v.isFinite = true := by
  have hbody : f.reread = f ↔ f.body.map Stmt.reread = f.body :=
    ⟨congrArg body, fun h => congrArg (Function.mk f.name f.param) h⟩
  rw [hbody, map_eq_self_iff, numbers, List.forall_mem_flatMap]
  exact forall₂_congr fun stmt _ => stmt.reread_eq_self_iff

end Function

/-! ## Expressions of the grammar -/

namespace Expr

variable {first : Expr} {rest : List Expr} {links : List (Comparator × Expr)}
  {terms : List (BinaryOp × Expr)} {calls : List (List Expr)}

/-- A literal is written again as a number, or as the name of what is beyond all numbers. -/
theorem wellFormed_rereadNumber (d : Decimal) : (rereadNumber d.toFloat).WellFormed := by
  have hsign := Decimal.isNegative_toFloat d
  by_cases hfinite : d.toFloat.isFinite = true
  · rw [rereadNumber, if_pos hfinite]
    exact .number hfinite hsign
  · rw [rereadNumber, if_neg hfinite]
    refine .ident ?_
    by_cases hnan : d.toFloat.isNaN = true
    · have hplain : plain d.toFloat = "NaN" := by rw [plain, Layout.write, if_pos hnan]
      rw [hplain]
      exact ⟨⟨'N', rfl, rfl⟩, List.all_eq_true.mp rfl, by simp [keywords]⟩
    · have hinf : d.toFloat.isInf = true := by
        by_contra hinf
        rw [Bool.not_eq_true] at hnan hinf
        exact hfinite ((Double.isFinite_iff _).mpr ⟨hnan, hinf⟩)
      have hplain : plain d.toFloat = "inf" := by
        rw [plain, Layout.write, if_neg hnan, hinf, hsign]
        rfl
      rw [hplain]
      exact ⟨⟨'i', rfl, rfl⟩, List.all_eq_true.mp rfl, by simp [keywords]⟩

/-- Operands that can be written make a junction that can be, or stand alone. -/
theorem wellFormed_joined {connective : Connective} (hfirst : first.reread.WellFormed)
    (hrest : ∀ e ∈ rest, e.reread.WellFormed) :
    (joined connective first rest).reread.WellFormed := by
  cases rest with
  | nil => exact hfirst
  | cons second rest =>
    rw [joined, reread, rereadOperands_eq_map]
    · exact .junction (by simp) (List.forall_mem_map.mpr (List.forall_mem_cons.mpr ⟨hfirst, hrest⟩))
    · exact List.cons_ne_nil second rest

/-- Operands that can be written make a chain that can be, or stand alone. -/
theorem wellFormed_chained (hfirst : first.reread.WellFormed)
    (hlinks : ∀ l ∈ links, l.2.reread.WellFormed) : (chained first links).reread.WellFormed := by
  cases links with
  | nil => exact hfirst
  | cons l links =>
    rw [chained, reread, rereadLinks_eq_map]
    · exact .compare hfirst (by simp) (List.forall_mem_map.mpr hlinks)
    · exact List.cons_ne_nil l links

theorem wellFormed_grouped (hfirst : first.reread.WellFormed)
    (hterms : ∀ t ∈ terms, t.2.reread.WellFormed) : (grouped first terms).reread.WellFormed := by
  induction terms generalizing first with
  | nil => exact hfirst
  | cons t terms ih =>
    obtain ⟨ht, hterms⟩ := List.forall_mem_cons.mp hterms
    exact ih (hfirst.binary ht) hterms

/-- Calls of what can be written, with arguments that can be, can be written. -/
theorem wellFormed_calls (hcallee : first.reread.WellFormed)
    (hcalls : ∀ arguments ∈ calls, ∀ e ∈ arguments, e.reread.WellFormed) :
    (calls.foldl call first).reread.WellFormed := by
  induction calls generalizing first with
  | nil => exact hcallee
  | cons arguments calls ih =>
    obtain ⟨harguments, hcalls⟩ := List.forall_mem_cons.mp hcalls
    refine ih ?_ hcalls
    rw [reread, rereadOperands_eq_map]
    exact hcallee.call (List.forall_mem_map.mpr harguments)

end Expr

mutual

/-- **What the grammar has can be written** once its numbers are finite or have names. -/
theorem Phrase.wellFormed_reread {b : Binding} {s r : List Char} {e : Expr}
    (h : Phrase b s e r) : e.reread.WellFormed := by
  match h with
  | .junction hfirst hrest =>
    exact Expr.wellFormed_joined hfirst.wellFormed_reread hrest.wellFormed_reread
  | .negated _ _ h => exact .unary h.wellFormed_reread
  | .unnegated h => exact h.wellFormed_reread
  | .comparison hfirst hlinks =>
    exact Expr.wellFormed_chained hfirst.wellFormed_reread hlinks.wellFormed_reread
  | .sum hfirst hterms =>
    exact Expr.wellFormed_grouped hfirst.wellFormed_reread hterms.wellFormed_reread
  | .product hfirst hterms =>
    exact Expr.wellFormed_grouped hfirst.wellFormed_reread hterms.wellFormed_reread
  | .signed _ _ h => exact .unary h.wellFormed_reread
  | .unsigned h => exact h.wellFormed_reread
  | .power _ _ hbase hexponent =>
    exact .binary hbase.wellFormed_reread hexponent.wellFormed_reread
  | .unraised h => exact h.wellFormed_reread
  | .called hcallee hcalls =>
    exact Expr.wellFormed_calls hcallee.wellFormed_reread hcalls.wellFormed_reread
  | .parenthesized _ _ h => exact h.wellFormed_reread
  | .number _ => exact Expr.wellFormed_rereadNumber _
  | .ident hname _ => exact .ident hname

theorem Operands.wellFormed_reread {connective : Connective} {s r : List Char}
    {rest : List Expr} (h : Operands connective s rest r) :
    ∀ e ∈ rest, e.reread.WellFormed := by
  match h with
  | .nil => exact nofun
  | .cons _ _ _ h hrest =>
    exact List.forall_mem_cons.mpr ⟨h.wellFormed_reread, hrest.wellFormed_reread⟩

theorem Links.wellFormed_reread {s r : List Char} {links : List (Comparator × Expr)}
    (h : Links s links r) : ∀ l ∈ links, l.2.reread.WellFormed := by
  match h with
  | .nil => exact nofun
  | .cons _ _ h hlinks =>
    exact List.forall_mem_cons.mpr ⟨h.wellFormed_reread, hlinks.wellFormed_reread⟩

theorem Terms.wellFormed_reread {b : Binding} {s r : List Char} {terms : List (BinaryOp × Expr)}
    (h : Terms b s terms r) : ∀ t ∈ terms, t.2.reread.WellFormed := by
  match h with
  | .nil => exact nofun
  | .cons _ _ _ _ h hterms =>
    exact List.forall_mem_cons.mpr ⟨h.wellFormed_reread, hterms.wellFormed_reread⟩

theorem Calls.wellFormed_reread {s r : List Char} {calls : List (List Expr)}
    (h : Calls s calls r) : ∀ arguments ∈ calls, ∀ e ∈ arguments, e.reread.WellFormed := by
  match h with
  | .nil => exact nofun
  | .cons _ _ _ harguments hcalls =>
    exact List.forall_mem_cons.mpr ⟨harguments.wellFormed_reread, hcalls.wellFormed_reread⟩

theorem Arguments.wellFormed_reread {s r : List Char} {arguments : List Expr}
    (h : Arguments s arguments r) : ∀ e ∈ arguments, e.reread.WellFormed := by
  match h with
  | .none => exact nofun
  | .some hfirst hrest | .trailing _ hfirst hrest =>
    exact List.forall_mem_cons.mpr ⟨hfirst.wellFormed_reread, hrest.wellFormed_reread⟩

theorem FurtherArguments.wellFormed_reread {s r : List Char} {rest : List Expr}
    (h : FurtherArguments s rest r) : ∀ e ∈ rest, e.reread.WellFormed := by
  match h with
  | .nil => exact nofun
  | .cons _ _ h hrest =>
    exact List.forall_mem_cons.mpr ⟨h.wellFormed_reread, hrest.wellFormed_reread⟩

end

/-! ## Results of readers -/

namespace Parse

variable {α β : Type} {p q : Parse α} {f : α → Parse β} {P : α → Prop} {Q : β → Prop} {a : α}

/-- Whatever is read satisfies the predicate. -/
def Yields (p : Parse α) (P : α → Prop) : Prop := ∀ ⦃s a r⦄, p s = .ok a r → P a

theorem yields_any : Yields p fun _ => True := fun _ _ _ _ => trivial

theorem yields_pure (h : P a) : Yields (pure a) P := by
  rintro s b r ⟨⟩
  exact h

theorem Yields.bind (hp : Yields p P) (hf : ∀ a, P a → Yields (f a) Q) : Yields (p >>= f) Q := by
  intro s b t h
  obtain ⟨a, r, hpa, hb⟩ := bind_eq_ok h
  exact hf a (hp hpa) hb

theorem Yields.map {g : α → β} (hp : Yields p P) (hg : ∀ a, P a → Q (g a)) :
    Yields (g <$> p) Q := by
  rw [map_eq_bind]
  exact hp.bind fun a ha => yields_pure (hg a ha)

theorem yields_ofScan {scan : Scan α} (h : ∀ ⦃s a r⦄, scan s = some (a, r) → P a) :
    Yields (ofScan scan) P := fun _ _ _ hs => h (ofScan_eq_ok hs)

theorem Yields.named (construct : Construct) (hp : Yields p P) : Yields (named construct p) P :=
  fun _ _ _ h => hp (named_eq_ok h)

theorem Yields.committed (hp : Yields p P) : Yields (committed p) P :=
  fun _ _ _ h => hp (committed_eq_ok h)

theorem Yields.either (hp : Yields p P) (hq : Yields q P) : Yields (either p q) P :=
  fun _ _ _ h => (either_eq_ok h).elim (@hp _ _ _) (@hq _ _ _)

theorem Yields.optional (hp : Yields p P) : Yields (Parse.optional p) fun o => ∀ a ∈ o, P a := by
  refine .either (hp.map fun a ha => ?_) (yields_pure nofun)
  rintro _ ⟨⟩
  exact ha

theorem Yields.upTo (hp : Yields p P) (count : Nat) :
    Yields (upTo p count) fun as => ∀ a ∈ as, P a := by
  induction count with
  | zero => exact yields_pure nofun
  | succ count ih =>
    refine hp.optional.bind fun o ho => ?_
    cases o with
    | none => exact yields_pure nofun
    | some a =>
      exact ih.bind fun as has => yields_pure (List.forall_mem_cons.mpr ⟨ho a rfl, has⟩)

theorem Yields.many (hp : Yields p P) : Yields (many p) fun as => ∀ a ∈ as, P a :=
  fun _ _ _ h => hp.upTo _ h

theorem Yields.many1 (hp : Yields p P) :
    Yields (many1 p) fun as => as ≠ [] ∧ ∀ a ∈ as, P a :=
  hp.bind fun _ ha => hp.many.bind fun _ has =>
    yields_pure ⟨List.cons_ne_nil _ _, List.forall_mem_cons.mpr ⟨ha, has⟩⟩

end Parse

/-! ## Statements and functions -/

open Parse

/-- The expressions of a script can be written, once infinite numbers are read again as names. -/
theorem yields_expression : Yields expression fun e => e.reread.WellFormed :=
  (yields_ofScan fun _ _ _ h => (Expr.phrase_of_scan h).wellFormed_reread).named _

theorem yields_ident : Yields Parse.ident IsIdentifier :=
  yields_ofScan fun _ _ _ h => (ident?_eq_some_iff.mp h).1

theorem yields_returned : Yields returned fun e => e.reread.WellFormed :=
  .named _ (yields_any.bind fun _ _ => yields_any.bind fun _ _ => yields_expression.committed)

theorem yields_branch : Yields branch fun b => b.1.reread.WellFormed ∧ b.2.reread.WellFormed :=
  yields_any.bind fun _ _ => yields_expression.bind fun _ htest => yields_any.bind fun _ _ =>
    yields_any.bind fun _ _ => yields_any.bind fun _ _ => yields_returned.bind fun _ hvalue =>
      yields_pure ⟨htest, hvalue⟩

/-- A conditional becomes one that can be written if its parts do and its alternative is no
assignment. -/
theorem Stmt.wellFormed_cond {test value : Expr} {alternative : Option Stmt}
    (htest : test.reread.WellFormed) (hvalue : value.reread.WellFormed)
    (halternative : ∀ stmt ∈ alternative, stmt.reread.WellFormed ∧ stmt.isAssign = false) :
    (cond test value alternative).reread.WellFormed := by
  rw [reread_cond]
  refine .cond htest hvalue ?_ ?_
  · intro stmt hstmt
    obtain ⟨original, horiginal, rfl⟩ := Option.mem_map.mp hstmt
    exact (halternative original horiginal).1
  · intro stmt hstmt
    obtain ⟨original, horiginal, rfl⟩ := Option.mem_map.mp hstmt
    rw [isAssign_reread, (halternative original horiginal).2]

/-- A chain ends in no assignment. -/
theorem forall_mem_alternativeOf {branches : List (Expr × Expr)} {otherwise : Option Expr}
    (hbranches : ∀ b ∈ branches, b.1.reread.WellFormed ∧ b.2.reread.WellFormed)
    (hotherwise : ∀ e ∈ otherwise, e.reread.WellFormed) :
    ∀ stmt ∈ alternativeOf branches otherwise,
      stmt.reread.WellFormed ∧ stmt.isAssign = false := by
  induction branches with
  | nil =>
    intro stmt hstmt
    obtain ⟨value, hvalue, rfl⟩ := Option.mem_map.mp hstmt
    exact ⟨.ret (hotherwise value hvalue), rfl⟩
  | cons b branches ih =>
    obtain ⟨hb, hbranches⟩ := List.forall_mem_cons.mp hbranches
    rintro _ ⟨⟩
    exact ⟨Stmt.wellFormed_cond hb.1 hb.2 (ih hbranches), rfl⟩

theorem yields_conditional : Yields conditional fun stmt => stmt.reread.WellFormed := by
  have hfurther : Yields furtherBranch fun b => b.1.reread.WellFormed ∧ b.2.reread.WellFormed :=
    yields_any.bind fun _ _ => yields_any.bind fun _ _ => yields_branch.committed
  have hotherwise : Yields otherwiseValue fun e => e.reread.WellFormed :=
    yields_any.bind fun _ _ => yields_any.bind fun _ _ => .committed (yields_any.bind fun _ _ =>
      yields_any.bind fun _ _ => yields_any.bind fun _ _ => yields_returned)
  exact yields_any.bind fun _ _ => yields_branch.committed.bind fun _ hb =>
    hfurther.many.bind fun _ hbranches => hotherwise.optional.bind fun _ hvalue =>
      yields_pure (Stmt.wellFormed_cond hb.1 hb.2 (forall_mem_alternativeOf hbranches hvalue))

/-- An assignment that is read has a name that can be written. -/
theorem yields_assignment : Yields assignment fun stmt => stmt.reread.WellFormed := by
  refine yields_ident.bind fun name hname => yields_any.bind fun _ _ => yields_any.bind fun _ _ =>
    yields_any.bind fun s _ => ?_
  have hrest : Yields (do blanks; return .assign name (← committed expression) : Parse Stmt)
      fun stmt => stmt.reread.WellFormed :=
    yields_any.bind fun _ _ => yields_expression.committed.bind fun _ hvalue =>
      yields_pure (.assign hname hvalue)
  -- nothing is read behind a doubled equality sign
  split_ifs
  · exact yields_any.bind fun _ _ => hrest
  · exact hrest

theorem yields_statement : Yields statement fun stmt => stmt.reread.WellFormed :=
  .named _ (yields_conditional.either
    ((yields_returned.map fun _ hvalue => .ret hvalue).either yields_assignment))

/-- Every function that is read becomes one that can be written. -/
theorem yields_function : Yields function fun f => f.reread.WellFormed := by
  have hstatement : Yields (do layout; statement : Parse Stmt) fun stmt => stmt.reread.WellFormed :=
    yields_any.bind fun _ _ => yields_statement
  refine yields_any.bind fun _ _ => yields_any.bind fun _ _ => yields_any.bind fun _ _ => ?_
  refine (yields_ident.committed.named _).bind fun name hname => ?_
  refine yields_any.bind fun _ _ => yields_any.bind fun _ _ => yields_any.bind fun _ _ => ?_
  refine (yields_ident.committed.named _).bind fun param hparam => ?_
  refine yields_any.bind fun _ _ => yields_any.bind fun _ _ => yields_any.bind fun _ _ => ?_
  refine yields_any.bind fun _ _ => yields_any.bind fun _ _ => yields_any.bind fun _ _ => ?_
  refine (hstatement.many1.named _).bind fun body hbody => ?_
  refine yields_any.bind fun _ _ => yields_pure ⟨hname, hparam, ?_, ?_⟩
  · exact mt List.map_eq_nil_iff.mp hbody.1
  · exact List.forall_mem_map.mpr hbody.2

theorem Function.wellFormed_reread_of_parse {f : Function} (h : Function.parse source = .ok f) :
    f.reread.WellFormed := by
  unfold Function.parse at h
  dsimp only at h
  split at h
  · next hf =>
    obtain ⟨-, rfl⟩ := complete_eq_ok_iff.mp h
    exact yields_function hf
  · cases h

/-! ## Printing and reading again -/

theorem Expr.parse_text_reread (h : Expr.parse source = .ok e) :
    Expr.parse e.text = .ok e.reread := by
  have hphrase : Phrase .disjunction (trimBlank source.toList) e [] := Expr.parse_eq_ok_iff.mp h
  rw [← e.text_reread]
  exact Expr.parse_text hphrase.wellFormed_reread

theorem Function.parse_text_reread {f : Function} (h : Function.parse source = .ok f) :
    Function.parse f.text = .ok f.reread := by
  rw [← f.text_reread]
  exact Function.parse_of_written (Function.written_text (Function.wellFormed_reread_of_parse h))

/-- A literal beyond the range of doubles is read as an infinity. -/
theorem Expr.parse_overflow : Expr.parse "1e999" = .ok (.number Double.infinity) := by
  have hliteral : IsLiteral "1e999".toList (.ofDigits ['1'] [] 999) :=
    .whole ⟨List.cons_ne_nil '1' [], List.all_eq_true.mp rfl⟩
      (.plain (.inl rfl) ⟨List.cons_ne_nil '9' ['9', '9'], List.all_eq_true.mp rfl⟩)
  have hvalue : (Decimal.ofDigits ['1'] [] 999).toFloat = Double.infinity := by decide +kernel
  have hnumber : Phrase Binding.atom.tighter ("1e999".toList ++ []) (.number Double.infinity) [] := by
    rw [← hvalue]
    exact .number hliteral
  exact Expr.parse_eq_ok_iff.mpr (hnumber.of_le (by decide) (by decide) (by decide))

/-- **Reading print back.** What was read and then printed is read again, and as the same thing
just in case every number in it is finite. A literal that is too large for a double is read as
infinity, and infinity is printed as a name. -/
theorem parse_text_of_parse (source : String) :
    (∀ e : Expr, Expr.parse source = .ok e →
      Expr.parse e.text = .ok e.reread ∧
        (Expr.parse e.text = .ok e ↔ ∀ v ∈ e.numbers, v.isFinite = true)) ∧
    ∀ f : Function, Function.parse source = .ok f →
      Function.parse f.text = .ok f.reread ∧
        (Function.parse f.text = .ok f ↔ ∀ v ∈ f.numbers, v.isFinite = true) := by
  constructor
  · intro e h
    have hprint := Expr.parse_text_reread h
    refine ⟨hprint, ?_⟩
    rw [hprint, Except.ok.injEq, e.reread_eq_self_iff]
  · intro f h
    have hprint := Function.parse_text_reread h
    refine ⟨hprint, ?_⟩
    rw [hprint, Except.ok.injEq, f.reread_eq_self_iff]

/-- A number beyond all doubles, on its own and as the value of a function. -/
theorem parse_text_of_parse_overflow :
    Expr.parse (Expr.number Double.infinity).text = .ok (.ident "inf") ∧
      ∃ f, Function.parse "def f(inf): return 1e999" = .ok f ∧
        f.text = "def f(inf):\n    return inf" ∧ Function.parse f.text = .ok f.reread := by
  have hreread : (Expr.number Double.infinity).reread = .ident "inf" := by
    have hplain : plain Double.infinity = "inf" := by decide +kernel
    rw [Expr.reread, Expr.rereadNumber, if_neg (by decide +kernel), hplain]
  have hprint := ((parse_text_of_parse "1e999").1 _ Expr.parse_overflow).1
  rw [hreread] at hprint
  have hok : (Function.parse "def f(inf): return 1e999").toOption.map Function.text =
    some "def f(inf):\n    return inf" := by decide +kernel
  cases h : Function.parse "def f(inf): return 1e999" with
  | error e =>
    rw [h] at hok
    cases hok
  | ok f =>
    rw [h] at hok
    exact ⟨hprint, f, rfl, Option.some.inj hok, ((parse_text_of_parse _).2 f h).1⟩

/-- Print does not always read as what was printed: `1e999` reads as infinity, which is printed as
`inf`, and that reads as a name. -/
theorem parse_text_ne_of_overflow :
    ∃ e, Expr.parse "1e999" = .ok e ∧ e.text = "inf" ∧ Expr.parse "inf" = .ok (.ident "inf") ∧
      Expr.parse e.text ≠ .ok e := by
  have htext : (Expr.number Double.infinity).text = "inf" := by
    rw [Expr.text]
    decide +kernel
  have hinf : IsIdentifier "inf" := ⟨⟨'i', rfl, rfl⟩, List.all_eq_true.mp rfl, by simp [keywords]⟩
  have hname : Expr.parse "inf" = .ok (.ident "inf") := by
    have hparse := Expr.parse_text (.ident hinf)
    rwa [Expr.text] at hparse
  refine ⟨_, Expr.parse_overflow, htext, hname, ?_⟩
  rw [htext, hname]
  rintro ⟨⟩

end PiecewiseLinear.Script
