import PiecewiseLinear.Proofs.Script.Soundness

/-!
# Every phrase is read

The readers of expressions take as much as they can, and where one thing has been read they never
try another one. No phrase is lost that way: in front of a text at which the readers for its
binding stop, a phrase is read as a whole, with whatever separators and parentheses it has.

- `Halts` in front of separators, operators and connectives, which may stand right behind an
  operand.
- `Phrase.reader_eq`: every phrase is read as the expression that it is a phrase for. It is proved
  along with the like for operands, links, terms, calls and arguments.
- `Expr.parse_eq_ok_iff_phrase`: a text is read as an expression just in case it is a phrase for
  it, and then it is a phrase for no other one.
-/

namespace PiecewiseLinear.Script

open Scan

variable {nested : Nested} {b : Binding} {g g' s t r : List Char} {e : Expr}

/-! ## Where readers stop -/

theorem endsLiteral_cons {c : Char} (hdigit : c.isDigit = false)
    (hne : c ≠ '.' ∧ c ≠ 'e' ∧ c ≠ 'E') : EndsLiteral (c :: s) := by
  rintro d ⟨⟩
  exact ⟨hdigit, hne⟩

/-- Readers halt in front of blanks if they halt in front of what follows these. -/
theorem Halts.blanks (h : Halts b s) (hg : IsBlanks g) : Halts b (g ++ s) where
  ends := by
    cases g with
    | nil => exact h.ends
    | cons c g =>
      rcases isBlankInLine_iff.mp (hg c List.mem_cons_self) with rfl | rfl <;>
        exact endsLiteral_cons rfl (by decide)
  call hb := by rw [hg.skipBlanks_append, h.call hb]
  power hb := by rw [hg.skipBlanks_append, h.power hb]
  product hb := by rw [hg.skipBlanks_append, h.product hb]
  sum hb := by rw [hg.skipBlanks_append, h.sum hb]
  comparison hb := by rw [hg.skipBlanks_append, h.comparison hb]
  junction connective hb := by rw [hg.skipBlanks_append, h.junction connective hb]

/-- An exponent takes no more than the power that it stands in. -/
theorem Halts.sign (h : Halts .power r) : Halts .sign r where
  ends := h.ends
  call _ := h.call (by decide)
  power _ := h.power (by decide)
  product hb := absurd hb (by decide)
  sum hb := absurd hb (by decide)
  comparison hb := absurd hb (by decide)
  junction connective hb := by cases connective <;> exact absurd hb (by decide)

/-- Tighter readers stop in front of an operator that is not doubled. -/
theorem halts_operator {op : BinaryOp} (hdoubled : NotDoubled op s) :
    Halts (binaryBinding op).tighter (op.symbol.toList ++ s) := by
  have hpower (hs : s.head? ≠ some '*') : after? "**".toList ('*' :: s) = none := by
    rw [show "**".toList = ['*', '*'] from rfl, after?, if_pos rfl]
    refine Expr.after?_eq_none fun d hd => ?_
    rintro rfl
    exact hs hd
  rcases op with (_ | _ | _ | _) | _ | _ <;>
    refine ⟨endsLiteral_cons rfl (by decide), ?_, ?_, ?_, ?_, ?_,
      fun connective _ => by cases connective <;> rfl⟩ <;>
    first
      | exact fun _ => rfl
      | exact fun h => absurd h (by decide)
      | exact fun _ => hpower (hdoubled.1 rfl)

theorem halts_comparator (op : Comparator) (s : List Char) :
    Halts .sum (op.symbol.toList ++ s) := by
  cases op <;>
    refine ⟨endsLiteral_cons rfl (by decide), fun _ => rfl, fun _ => rfl, fun _ => rfl,
      fun _ => rfl, fun h => absurd h (by decide), fun connective _ => by cases connective <;> rfl⟩

theorem halts_connective (connective : Connective) (s : List Char) :
    Halts (connectiveBinding connective).tighter (connective.word.toList ++ s) := by
  cases connective <;>
    refine ⟨endsLiteral_cons rfl (by decide), fun _ => rfl, fun _ => rfl, fun _ => rfl,
      fun _ => rfl, fun _ => rfl, ?_⟩ <;>
    rintro (_ | _) h <;>
    first | rfl | exact absurd h (by decide)

/-- What is left of a gap behind blanks begins with a line end or a comment. -/
theorem IsGap.head_skipBlanks (hg : IsGap g) : ∀ c ∈ (skipBlanks (g ++ ')' :: r)).head?,
    c = '\n' ∨ c = '\r' ∨ c = '#' ∨ c = ')' := by
  induction hg with
  | nil =>
    rintro c ⟨⟩
    exact .inr (.inr (.inr rfl))
  | @cons c g hc _ ih =>
    by_cases hblank : isBlankInLine c = true
    · rwa [List.cons_append, skipBlanks, List.dropWhile_cons_of_pos hblank]
    · rw [List.cons_append, skipBlanks, List.dropWhile_cons_of_neg hblank]
      rintro d ⟨⟩
      rcases (isLayout_iff.mp hc).resolve_left hblank with rfl | rfl
      · exact .inl rfl
      · exact .inr (.inl rfl)
  | comment =>
    rintro c ⟨⟩
    exact .inr (.inr (.inl rfl))

/-- All readers stop in front of a gap that a closing parenthesis follows. -/
theorem IsGap.halts (hg : IsGap g) (b : Binding) : Halts b (g ++ ')' :: r) := by
  have hends : EndsLexeme (g ++ ')' :: r) := by
    cases hg with
    | nil => exact endsLexeme_cons rfl (by decide)
    | cons hc =>
      refine endsLexeme_of_layout ?_
      rintro d ⟨⟩
      exact .inl hc
    | comment => exact endsLexeme_cons rfl (by decide)
  have hhead := hg.head_skipBlanks (r := r)
  refine (stops_of_head hends (fun c hc => ?_) (fun connective => ?_) b).halts
  · rcases hhead c hc with rfl | rfl | rfl | rfl <;> rfl
  · generalize skipBlanks (g ++ ')' :: r) = u at hhead
    cases u with
    | nil => cases connective <;> rfl
    | cons c u => rcases hhead c rfl with rfl | rfl | rfl | rfl <;> cases connective <;> rfl

theorem IsGap.no_comma (hg : IsGap g) : after? ",".toList (skipBlanks (g ++ ')' :: r)) = none := by
  refine Expr.after?_eq_none fun c hc => ?_
  rcases hg.head_skipBlanks c hc with rfl | rfl | rfl | rfl <;> decide

theorem halts_comma (hg : IsBlanks g) (b : Binding) : Halts b (g ++ ',' :: s) :=
  (stops_of_closes rfl b s).halts.blanks hg

/-! ## What stands behind an operand -/

section Behind

variable {connective : Connective} {rest : List Expr} {links : List (Comparator × Expr)}
  {terms : List (BinaryOp × Expr)} {calls : List (List Expr)}

/-- In front of further operands, or of what follows them, the readers of an operand halt. -/
theorem Operands.halts (h : Operands connective s rest r)
    (hr : Halts (connectiveBinding connective) r) :
    Halts (connectiveBinding connective).tighter s := by
  cases h with
  | nil => exact hr.mono (Nat.le_succ _)
  | cons hg => exact (halts_connective connective _).blanks hg

theorem Links.halts (h : Links s links r) (hr : Halts .comparison r) : Halts .sum s := by
  cases h with
  | nil => exact hr.mono (Nat.le_succ _)
  | cons hg => exact (halts_comparator _ _).blanks hg

theorem Terms.halts (h : Terms b s terms r) (hr : Halts b r) : Halts b.tighter s := by
  cases h with
  | nil => exact hr.mono (Nat.le_succ _)
  | cons hop hg _ hdoubled =>
    subst hop
    exact (halts_operator hdoubled).blanks hg

theorem Calls.halts (h : Calls s calls r) (hr : Halts .atom r) :
    Halts Binding.atom.tighter s := by
  cases h with
  | nil => exact hr.mono (Nat.le_succ _)
  | cons hg => exact (Expr.Reads.stops_call _).halts.blanks hg

theorem FurtherArguments.halts (h : FurtherArguments s rest r) (hr : Halts .disjunction r) :
    Halts .disjunction s := by
  cases h with
  | nil => exact hr
  | cons hg => exact halts_comma hg _

end Behind

namespace Scan

variable {α : Type} {p : Scan α} {a : α} {as : List α}

theorem many_cons (hp : Takes p) (h : p s = some (a, t)) (hmany : many p t = some (as, r)) :
    many p s = some (a :: as, r) := by
  rw [many_of_some hp h, hmany]
  rfl

end Scan

namespace Expr

variable {depth : Nat} {x : Expr × List Char}

/-! ## One step of reading -/

theorem skipBlanks_of_reader (hg : IsBlanks g) (h : reader nested b s = some x) :
    skipBlanks (g ++ s) = s := by
  rw [hg.skipBlanks_append, skipBlanks_of_startsExpr (startsExpr_of_reader h)]

theorem skipLayout_of_reader (hg : IsGap g) (h : reader nested b s = some x) :
    skipLayout (g ++ s) = s := by
  rw [hg.isLayout, skipLayout_of_startsExpr (startsExpr_of_reader h)]

/-- A reference back reads what the readers read, with one level less. -/
theorem scanAt_of_forall (entry : Entry) (hdepth : s.length < depth)
    (h : ∀ d, s.length ≤ d → reader (scanAt d) (entryBinding entry) s = some x) :
    scanAt depth entry s = some x := by
  obtain ⟨depth, rfl⟩ := Nat.exists_eq_add_one_of_ne_zero (Nat.ne_zero_of_lt hdepth)
  have hread := h depth (Nat.le_of_lt_succ hdepth)
  cases entry <;> exact hread

theorem link_append {α : Type} {op : Scan α} {operand : Scan Expr} {o : α} {symbol : List Char}
    (hg : IsBlanks g) (hsymbol : skipBlanks (symbol ++ (g' ++ s)) = symbol ++ (g' ++ s))
    (hop : op (symbol ++ (g' ++ s)) = some (o, g' ++ s)) (hskip : skipBlanks (g' ++ s) = s)
    (hoperand : operand s = some (e, r)) :
    link op operand (g ++ (symbol ++ (g' ++ s))) = some ((o, e), r) := by
  refine link_of_some (t := g' ++ s) ?_ (by rwa [hskip])
  rw [hg.skipBlanks_append, hsymbol, hop]

/-- No equality sign stands in front of an operand. -/
theorem head_ne_of_reader (hg : IsBlanks g) (h : reader nested b s = some x) :
    (g ++ s).head? ≠ some '=' := by
  intro hhead
  cases g with
  | nil => exact absurd (startsExpr_of_reader h '=' hhead) (by decide)
  | cons c g =>
    obtain rfl := Option.some.inj hhead
    exact absurd (hg '=' List.mem_cons_self) (by decide)

theorem furtherOperand_append {connective : Connective} (hg : IsBlanks g) (hg' : IsBlanks g')
    (hword : continuesWord (g' ++ s) = false) (h : reader nested b s = some (e, r)) :
    furtherOperand connective (reader nested b) (g ++ (connective.word.toList ++ (g' ++ s))) =
      some (e, r) := by
  refine furtherOperand_of_some (t := g' ++ s) ?_ (by rwa [skipBlanks_of_reader hg' h])
  have hskip : skipBlanks (connective.word.toList ++ (g' ++ s)) =
      connective.word.toList ++ (g' ++ s) := by cases connective <;> rfl
  rw [hg.skipBlanks_append, hskip, keyword?_append hword]

/-- A literal is read as a primary where the literal ends. -/
theorem primary_literal {d : Decimal} (hs : IsLiteral s d) (hr : EndsLiteral r) :
    primary nested (s ++ r) = some (number d.toFloat, r) := by
  have hhead : ∀ c ∈ (s ++ r).head?, c ≠ '(' := by
    cases hs with
    | whole h | point h =>
      obtain ⟨c, digits, rfl⟩ := List.exists_cons_of_ne_nil h.ne_nil
      have hdigit := h.isDigit c List.mem_cons_self
      rintro d ⟨⟩ rfl
      cases hdigit
    | fraction =>
      rintro d ⟨⟩
      decide
  have hnumber : number? (s ++ r) = some (number d.toFloat, r) := by
    rw [number?, hs.scan_append hr, Option.map_some]
  rw [primary_of_not_parenthesized hhead, orElse_of_some hnumber]

/-- An identifier is read as a primary where the word ends. -/
theorem primary_identifier {name : String} (hname : IsIdentifier name) (hr : continuesWord r = false) :
    primary nested (name.toList ++ r) = some (ident name, r) := by
  have hhead : ∀ c ∈ (name.toList ++ r).head?, isWordStart c = true := by
    obtain ⟨c, hc, hstart⟩ := hname.start
    simp_all
  have hstart := fun c hc => ne_of_isWordStart (hhead c hc)
  rw [primary_of_not_parenthesized fun c hc => (hstart c hc).1,
    orElse_of_none (number?_eq_none fun c hc => (hstart c hc).2), name?, ident?_append hname hr,
    Option.map_some]

theorem parenthesized_append (hg' : IsGap g')
    (hskip : skipLayout (g ++ s) = s)
    (h : nested .disjunction s = some (e, g' ++ ')' :: r)) :
    primary nested ('(' :: (g ++ s)) = some (e, r) := by
  have hclose : layout (g' ++ ')' :: r) = some ((), ')' :: r) := layout_eq (hg'.isLayout _)
  have hblock : parenthesized nested ('(' :: (g ++ s)) = some (e, r) :=
    (bind_of_some rfl).trans ((bind_of_some (layout_eq hskip)).trans
      ((bind_of_some h).trans ((bind_of_some hclose).trans rfl)))
  exact orElse_of_some hblock

theorem someArguments_append {first : Expr} {rest : List Expr} {comma : Option Unit}
    {u : List Char} (hfirst : nested .disjunction s = some (first, t))
    (hrest : many (furtherArgument nested) t = some (rest, u))
    (hcomma : Scan.optional (do blanks; piece ",".toList) u = some (comma, r)) :
    someArguments nested s = some (first :: rest, r) :=
  (bind_of_some hfirst).trans ((bind_of_some hrest).trans ((bind_of_some hcomma).trans rfl))

theorem callArguments_append {arguments : List Expr} (hskip : skipLayout (g ++ s) = s)
    (hsome : someArguments nested s = some (arguments, r)) (hclose : skipLayout r = ')' :: t) :
    callArguments nested ('(' :: (g ++ s)) = some (arguments, t) :=
  (bind_of_some rfl).trans ((bind_of_some (layout_eq hskip)).trans
    ((bind_of_some (orElse_of_some hsome)).trans ((bind_of_some (layout_eq hclose)).trans rfl)))

theorem callArguments_of_none (hskip : skipLayout (g ++ s) = ')' :: t)
    (hnone : someArguments nested (')' :: t) = none) :
    callArguments nested ('(' :: (g ++ s)) = some ([], t) :=
  (bind_of_some rfl).trans ((bind_of_some (layout_eq hskip)).trans
    ((bind_of_some ((orElse_of_none hnone).trans rfl)).trans rfl))

/-- A sign is read with the signed operand behind it. -/
theorem signed_append {op : UnaryOp} (hop : op = .neg ∨ op = .pos)
    (hskip : skipBlanks (g ++ s) = s) (h : nested .signed s = some (e, r)) :
    signed nested (op.symbol.toList ++ (g ++ s)) = some (unary op e, r) := by
  have hoperand (op : UnaryOp) :
      (do blanks; return unary op (← nested .signed) : Scan Expr) (g ++ s) =
        some (unary op e, r) := (bind_of_some (blanks_eq hskip)).trans (bind_of_some h)
  rcases hop with rfl | rfl
  · exact orElse_of_some ((bind_of_some rfl).trans (hoperand .neg))
  · exact (orElse_of_none rfl).trans (orElse_of_some ((bind_of_some rfl).trans (hoperand .pos)))

theorem negated_append (hword : continuesWord (g ++ s) = false) (hskip : skipBlanks (g ++ s) = s)
    (h : nested .negated s = some (e, r)) :
    negated nested ("not".toList ++ (g ++ s)) = some (unary .not e, r) := by
  have hkeyword : keyword "not".toList ("not".toList ++ (g ++ s)) = some ((), g ++ s) := by
    rw [keyword, keyword?_append hword, Option.map_some]
  exact orElse_of_some ((bind_of_some hkeyword).trans
    ((bind_of_some (blanks_eq hskip)).trans (bind_of_some h)))

theorem exponent_append (hg : IsBlanks g) (hskip : skipBlanks (g' ++ s) = s)
    (h : nested .signed s = some (e, r)) :
    exponent nested (g ++ ("**".toList ++ (g' ++ s))) = some (e, r) := by
  have hblanks : blanks (g ++ ("**".toList ++ (g' ++ s))) = some ((), "**".toList ++ (g' ++ s)) :=
    blanks_eq (hg.skipBlanks_append _)
  exact (bind_of_some hblanks).trans ((bind_of_some rfl).trans
    ((bind_of_some (blanks_eq hskip)).trans h))

theorem furtherCall_eq_none (h : after? "(".toList (skipBlanks s) = none) :
    furtherCall nested s = none := by
  have hpiece : piece "(".toList (skipBlanks s) = none := by rw [piece, h, Option.map_none]
  exact (bind_of_some rfl).trans (bind_of_none hpiece)

end Expr

/-! ## Every phrase is read -/

section Reading

open PiecewiseLinear.Script.Expr

mutual

/-- **Every phrase is read** as the expression that it is a phrase for, where the readers for its
binding stop behind it. -/
theorem Phrase.reader_eq {b : Binding} {s r : List Char} {e : Expr} (h : Phrase b s e r)
    (depth : Nat) (hdepth : s.length ≤ depth) (hr : Halts b r) :
    reader (scanAt depth) b s = some (e, r) := by
  match h, hdepth, hr with
  | @Phrase.junction connective s t r first rest hfirst hrest, hdepth, hr =>
    have hfirst' := hfirst.reader_eq depth hdepth (hrest.halts hr)
    have hlt := (takes_reader (takes_scanAt depth) _ hfirst').2
    have hmany := hrest.many_eq depth (by omega) hr
    cases connective <;> exact (bind_of_some hfirst').trans (bind_of_some hmany)
  | @Phrase.negated g s r e hg hword h, hdepth, hr =>
    have hs : s.length < depth := by
      simp only [List.length_append, show "not".toList.length = 3 from rfl] at hdepth
      omega
    have hskip := skipBlanks_of_reader hg (h.reader_eq depth hs.le hr)
    exact negated_append hword hskip
      (scanAt_of_forall .negated hs fun d hd => h.reader_eq d hd hr)
  | .unnegated h, hdepth, hr =>
    exact (reader_of_tighter (h.reader_eq depth hdepth (hr.mono (Nat.le_succ _)))).trans
      (goOn_of_halts hr _)
  | .comparison hfirst hlinks, hdepth, hr =>
    have hfirst' := hfirst.reader_eq depth hdepth (hlinks.halts hr)
    have hlt := (takes_reader (takes_scanAt depth) _ hfirst').2
    have hmany := hlinks.many_eq depth (by omega) hr
    exact (bind_of_some hfirst').trans (bind_of_some hmany)
  | .sum hfirst hterms, hdepth, hr =>
    have hfirst' := hfirst.reader_eq depth hdepth (hterms.halts hr)
    have hlt := (takes_reader (takes_scanAt depth) _ hfirst').2
    have hmany := hterms.many_eq (fun _ _ hop _ => sumOp_append hop _) takes_sumOp depth
      (by omega) hr (hr.sum (by decide))
    exact (bind_of_some hfirst').trans (bind_of_some hmany)
  | .product hfirst hterms, hdepth, hr =>
    have hfirst' := hfirst.reader_eq depth hdepth (hterms.halts hr)
    have hlt := (takes_reader (takes_scanAt depth) _ hfirst').2
    have hmany := hterms.many_eq (fun _ _ hop => productOp_append hop) takes_productOp depth
      (by omega) hr (hr.product (by decide))
    exact (bind_of_some hfirst').trans (bind_of_some hmany)
  | @Phrase.signed op g s r e hop hg h, hdepth, hr =>
    have hs : s.length < depth := by
      rcases hop with rfl | rfl <;>
        simp only [List.length_append, UnaryOp.symbol, show "-".toList.length = 1 from rfl,
          show "+".toList.length = 1 from rfl] at hdepth <;>
        omega
    have hskip := skipBlanks_of_reader hg (h.reader_eq depth hs.le hr)
    exact signed_append hop hskip
      (scanAt_of_forall .signed hs fun d hd => h.reader_eq d hd hr)
  | .unsigned h, hdepth, hr =>
    exact (reader_of_tighter (h.reader_eq depth hdepth (hr.mono (Nat.le_succ _)))).trans
      (goOn_of_halts hr _)
  | @Phrase.power g g' s t r base exponent hg hg' hbase hexponent, hdepth, hr =>
    have hends : Halts .atom (g ++ ("**".toList ++ (g' ++ t))) :=
      (@halts_operator (g' ++ t) .pow ⟨nofun, nofun⟩).blanks hg
    have hbase' := hbase.reader_eq depth hdepth hends
    have hlt := (takes_reader (takes_scanAt depth) _ hbase').2
    have ht : t.length < depth := by
      simp only [List.length_append, show "**".toList.length = 2 from rfl] at hlt
      omega
    have hskip := skipBlanks_of_reader hg' (hexponent.reader_eq depth ht.le hr.sign)
    have hfound := exponent_append hg hskip
      (scanAt_of_forall .signed ht fun d hd => hexponent.reader_eq d hd hr.sign)
    exact (bind_of_some hbase').trans (bind_of_some (optional_of_some hfound))
  | .unraised h, hdepth, hr =>
    exact (reader_of_tighter (h.reader_eq depth hdepth (hr.mono (Nat.le_succ _)))).trans
      (goOn_of_halts hr _)
  | .called hcallee hcalls, hdepth, hr =>
    have hcallee' := hcallee.reader_eq depth hdepth (hcalls.halts hr)
    have hlt := (takes_reader (takes_scanAt depth) _ hcallee').2
    have hmany := hcalls.many_eq depth (by omega) hr
    exact (bind_of_some hcallee').trans (bind_of_some hmany)
  | @Phrase.parenthesized g g' s r e hg hg' h, hdepth, hr =>
    have hs : s.length < depth := by
      simp only [List.length_cons, List.length_append] at hdepth
      omega
    have hskip := skipLayout_of_reader hg (h.reader_eq depth hs.le (hg'.halts _))
    exact parenthesized_append hg' hskip
      (scanAt_of_forall .disjunction hs fun d hd => h.reader_eq d hd (hg'.halts _))
  | .number hs, hdepth, hr => exact primary_literal hs hr.ends
  | .ident hname hword, hdepth, hr => exact primary_identifier hname hword

/-- Operands that are phrases are read one after the other, up to where no connective follows. -/
theorem Operands.many_eq {connective : Connective} {s r : List Char} {rest : List Expr}
    (h : Operands connective s rest r) (depth : Nat) (hdepth : s.length ≤ depth)
    (hr : Halts (connectiveBinding connective) r) :
    many (furtherOperand connective
      (reader (scanAt depth) (connectiveBinding connective).tighter)) s = some (rest, r) := by
  have htakes := takes_reader (takes_scanAt depth) (connectiveBinding connective).tighter
  match h, hdepth, hr with
  | .nil, hdepth, hr => exact many_of_none (furtherOperand_eq_none (hr.junction connective le_rfl))
  | .cons hg hg' hword h hrest, hdepth, hr =>
    simp only [List.length_append] at hdepth
    have hread := h.reader_eq depth (by omega) (hrest.halts hr)
    have hlt := (htakes hread).2
    exact many_cons (takes_furtherOperand connective htakes)
      (furtherOperand_append hg hg' hword hread) (hrest.many_eq depth (by omega) hr)

/-- Links that are phrases are read one after the other, up to where no comparator follows. -/
theorem Links.many_eq {s r : List Char} {links : List (Comparator × Expr)} (h : Links s links r)
    (depth : Nat) (hdepth : s.length ≤ depth) (hr : Halts .comparison r) :
    many (link comparator (reader (scanAt depth) .sum)) s = some (links, r) := by
  have htakes := takes_reader (takes_scanAt depth) .sum
  match h, hdepth, hr with
  | .nil, hdepth, hr => exact many_of_none (link_eq_none (hr.comparison le_rfl))
  | @Links.cons op g g' s t r e links hg hg' h hlinks, hdepth, hr =>
    simp only [List.length_append] at hdepth
    have hread := h.reader_eq depth (by omega) (hlinks.halts hr)
    have hlt := (htakes hread).2
    have hsymbol : skipBlanks (op.symbol.toList ++ (g' ++ s)) = op.symbol.toList ++ (g' ++ s) := by
      cases op <;> rfl
    exact many_cons (takes_link takes_comparator htakes)
      (link_append hg hsymbol (comparator_append op (head_ne_of_reader hg' hread))
        (skipBlanks_of_reader hg' hread) hread) (hlinks.many_eq depth (by omega) hr)

/-- Terms are read where their operators are read. -/
theorem Terms.many_eq {b : Binding} {s r : List Char} {terms : List (BinaryOp × Expr)}
    (h : Terms b s terms r) {op : Scan BinaryOp}
    (hop : ∀ o rest, binaryBinding o = b → NotDoubled o rest →
      op (o.symbol.toList ++ rest) = some (o, rest)) (hopTakes : Takes op) (depth : Nat)
    (hdepth : s.length ≤ depth) (hr : Halts b r) (hnone : op (skipBlanks r) = none) :
    many (link op (reader (scanAt depth) b.tighter)) s = some (terms, r) := by
  have htakes := takes_reader (takes_scanAt depth) b.tighter
  match h, hop, hdepth, hr with
  | .nil, hop, hdepth, hr => exact many_of_none (link_eq_none hnone)
  | @Terms.cons b o g g' s t r e terms hbinding hg hg' hdoubled h hterms, hop, hdepth, hr =>
    simp only [List.length_append] at hdepth
    have hread := h.reader_eq depth (by omega) (hterms.halts hr)
    have hlt := (htakes hread).2
    have hsymbol : skipBlanks (o.symbol.toList ++ (g' ++ s)) = o.symbol.toList ++ (g' ++ s) := by
      rcases o with (_ | _ | _ | _) | _ | _ <;> rfl
    exact many_cons (takes_link hopTakes htakes)
      (link_append hg hsymbol (hop o _ hbinding hdoubled) (skipBlanks_of_reader hg' hread) hread)
      (hterms.many_eq hop hopTakes depth (by omega) hr hnone)

/-- Calls that are phrases are read one after the other, up to where no parenthesis follows. -/
theorem Calls.many_eq {s r : List Char} {calls : List (List Expr)} (h : Calls s calls r)
    (depth : Nat) (hdepth : s.length ≤ depth) (hr : Halts .atom r) :
    many (furtherCall (scanAt depth)) s = some (calls, r) := by
  have htakes := takes_furtherCall (takes_scanAt depth)
  match h, hdepth, hr with
  | .nil, hdepth, hr => exact many_of_none (furtherCall_eq_none (hr.call le_rfl))
  | @Calls.cons g w w' s t r arguments calls hg hw hw' harguments hcalls, hdepth, hr =>
    simp only [List.length_append, List.length_cons] at hdepth
    have hblanks : blanks (g ++ '(' :: (w ++ s)) = some ((), '(' :: (w ++ s)) :=
      blanks_eq (hg.skipBlanks_append _)
    have hcall : furtherCall (scanAt depth) (g ++ '(' :: (w ++ s)) = some (arguments, t) :=
      (bind_of_some hblanks).trans (harguments.callArguments_eq depth (by omega) hw
        (hw'.isLayout _) (hw'.halts _) hw'.no_comma)
    have hlt := (htakes hcall).2
    simp only [List.length_append, List.length_cons] at hlt
    exact many_cons htakes hcall (hcalls.many_eq depth (by omega) hr)

/-- Arguments are read up to the closing parenthesis behind them. -/
theorem Arguments.callArguments_eq {s r : List Char} {arguments : List Expr}
    (h : Arguments s arguments r) (depth : Nat) (hdepth : s.length < depth) {w t : List Char}
    (hw : IsGap w) (hclose : skipLayout r = ')' :: t) (hr : Halts .disjunction r)
    (hcomma : after? ",".toList (skipBlanks r) = none) :
    callArguments (scanAt depth) ('(' :: (w ++ s)) = some (arguments, t) := by
  have hend : scanAt depth .disjunction (')' :: t) = none :=
    Reads.scanAt_disjunction_eq_none depth (by simp; decide)
  match h, hdepth, hclose, hr, hcomma with
  | .none, hdepth, hclose, hr, hcomma =>
    have hskip : skipLayout (w ++ s) = ')' :: t := by rw [hw.isLayout, hclose]
    exact callArguments_of_none hskip (bind_of_none hend)
  | .some hfirst hrest, hdepth, hclose, hr, hcomma =>
    have hhalts := hrest.halts hr
    have hread := hfirst.reader_eq depth hdepth.le hhalts
    have hlt := (takes_reader (takes_scanAt depth) _ hread).2
    have hfirst' := scanAt_of_forall .disjunction hdepth fun d hd => hfirst.reader_eq d hd hhalts
    have hpiece : piece ",".toList (skipBlanks r) = none := by rw [piece, hcomma, Option.map_none]
    have hmany := hrest.many_eq depth (by omega) hr ((bind_of_some rfl).trans (bind_of_none hpiece))
    have htrailing : (do blanks; piece ",".toList : Scan Unit) r = none :=
      (bind_of_some rfl).trans hpiece
    exact callArguments_append (skipLayout_of_reader hw hread)
      (someArguments_append hfirst' hmany (optional_of_none htrailing)) hclose
  | @Arguments.trailing g s t' r first rest hg hfirst hrest, hdepth, hclose, hr, hcomma =>
    have hends : Halts .disjunction (g ++ ',' :: r) := halts_comma hg _
    have hhalts := hrest.halts hends
    have hread := hfirst.reader_eq depth hdepth.le hhalts
    have hlt := (takes_reader (takes_scanAt depth) _ hread).2
    have hfirst' := scanAt_of_forall .disjunction hdepth fun d hd => hfirst.reader_eq d hd hhalts
    -- behind the last comma stands no argument
    have hblanks : blanks (g ++ ',' :: r) = some ((), ',' :: r) :=
      blanks_eq (hg.skipBlanks_append _)
    have hnone : furtherArgument (scanAt depth) (g ++ ',' :: r) = none :=
      (bind_of_some hblanks).trans ((bind_of_some rfl).trans
        ((bind_of_some (layout_eq hclose)).trans hend))
    have hmany := hrest.many_eq depth (by omega) hends hnone
    have htrailing : (do blanks; piece ",".toList : Scan Unit) (g ++ ',' :: r) = some ((), r) :=
      (bind_of_some hblanks).trans rfl
    exact callArguments_append (skipLayout_of_reader hw hread)
      (someArguments_append hfirst' hmany (optional_of_some htrailing)) hclose

/-- Arguments behind the first one are read one after the other. What ends them may be a comma, as
long as no argument follows it. -/
theorem FurtherArguments.many_eq {s r : List Char} {rest : List Expr}
    (h : FurtherArguments s rest r) (depth : Nat) (hdepth : s.length ≤ depth)
    (hr : Halts .disjunction r) (hnone : furtherArgument (scanAt depth) r = none) :
    many (furtherArgument (scanAt depth)) s = some (rest, r) := by
  have htakes := takes_furtherArgument (takes_scanAt depth)
  match h, hdepth, hr, hnone with
  | .nil, hdepth, hr, hnone => exact many_of_none hnone
  | @FurtherArguments.cons g w s t r e rest hg hw h hrest, hdepth, hr, hnone =>
    simp only [List.length_append, List.length_cons] at hdepth
    have hs : s.length < depth := by omega
    have hread := h.reader_eq depth hs.le (hrest.halts hr)
    have hlt := (takes_reader (takes_scanAt depth) _ hread).2
    have hread' := scanAt_of_forall .disjunction hs fun d hd => h.reader_eq d hd (hrest.halts hr)
    have hblanks : blanks (g ++ ',' :: (w ++ s)) = some ((), ',' :: (w ++ s)) :=
      blanks_eq (hg.skipBlanks_append _)
    have hargument : furtherArgument (scanAt depth) (g ++ ',' :: (w ++ s)) = some (e, t) :=
      (bind_of_some hblanks).trans ((bind_of_some rfl).trans
        ((bind_of_some (layout_eq (skipLayout_of_reader hw hread))).trans hread'))
    exact many_cons htakes hargument (hrest.many_eq depth (by omega) hr hnone)
end

end Reading

theorem Phrase.scan_eq (h : Phrase .disjunction s e r) (hr : Halts .disjunction r) :
    Expr.scan s = some (e, r) :=
  Expr.scanAt_of_forall .disjunction (Nat.lt_succ_self s.length) fun d hd => h.reader_eq d hd hr

/-! ## Looser bindings -/

/-- What binds more tightly is a phrase of the looser binding as well. -/
theorem Phrase.looser (hpos : 1 ≤ b.tightness) (hle : b.tightness ≤ 9)
    (h : Phrase b.tighter s e r) : Phrase b s e r := by
  match b with
  | ⟨1⟩ => exact @Phrase.junction .or _ _ _ _ [] h .nil
  | ⟨2⟩ => exact @Phrase.junction .and _ _ _ _ [] h .nil
  | ⟨3⟩ => exact .unnegated h
  | ⟨4⟩ => exact @Phrase.comparison _ _ _ _ [] h .nil
  | ⟨5⟩ => exact @Phrase.sum _ _ _ _ [] h .nil
  | ⟨6⟩ => exact @Phrase.product _ _ _ _ [] h .nil
  | ⟨7⟩ => exact .unsigned h
  | ⟨8⟩ => exact .unraised h
  | ⟨9⟩ => exact @Phrase.called _ _ _ _ [] h .nil
  | ⟨n + 10⟩ => exact absurd hle (by simp)

/-- A phrase that binds more tightly is a phrase where a looser one is asked for. -/
theorem Phrase.of_le {b' : Binding} (hpos : 1 ≤ b.tightness) (hle : b.tightness ≤ b'.tightness)
    (hle' : b'.tightness ≤ 10) (h : Phrase b' s e r) : Phrase b s e r := by
  obtain ⟨n, hn⟩ := Nat.exists_eq_add_of_le hle
  obtain rfl : b' = ⟨b.tightness + n⟩ := congrArg Binding.mk hn
  clear hle hn
  induction n with
  | zero => exact h
  | succ n ih =>
    have hle : b.tightness + n ≤ 9 := Nat.le_of_succ_le_succ hle'
    have hpos' : 1 ≤ b.tightness + n := Nat.le_add_right_of_le hpos
    exact ih (Nat.le_succ_of_le hle) (Phrase.looser (b := ⟨b.tightness + n⟩) hpos' hle h)

/-! ## Whole texts -/

/-- Nothing but white space is left at the end of a trimmed text only where nothing is left. -/
theorem eq_nil_of_suffix_trimBlank (hsuffix : r <:+ trimBlank s)
    (hblank : r.dropWhile isBlank = []) : r = [] := by
  rw [List.dropWhile_eq_nil_iff] at hblank
  rw [trimBlank, trimBlankEnd, ← List.reverse_reverse r, List.reverse_suffix] at hsuffix
  cases hr : r.reverse with
  | nil => exact List.reverse_eq_nil_iff.mp hr
  | cons c t =>
    -- the last character that is left is the last one of the text
    rw [hr] at hsuffix
    obtain ⟨u, hu⟩ := hsuffix
    have hlast := List.head?_dropWhile_not isBlank (s.dropWhile isBlank).reverse
    rw [← hu] at hlast
    have hmem : c ∈ r := List.mem_reverse.mp (by rw [hr]; exact List.mem_cons_self)
    have hfalse : isBlank c = false := hlast
    rw [hblank c hmem] at hfalse
    cases hfalse

/-- A whole text is accepted if and only if nothing but blanks follow. -/
theorem complete_eq_ok_iff {α : Type} {text : List Char} {result value : α} :
    complete text result r = .ok value ↔ r.dropWhile isBlank = [] ∧ result = value := by
  unfold complete
  split
  · next h => rw [h, Except.ok.injEq, eq_self, true_and]
  · next h => exact ⟨nofun, fun hblank => absurd hblank.1 h⟩

/-- **A text is read as an expression** if and only if it is a phrase for it, between blanks. -/
theorem Expr.parse_eq_ok_iff {source : String} :
    Expr.parse source = .ok e ↔ Phrase .disjunction (trimBlank source.toList) e [] := by
  constructor
  · intro h
    unfold Expr.parse at h
    dsimp only at h
    split at h
    · next rest hscan =>
      obtain ⟨hblank, rfl⟩ := complete_eq_ok_iff.mp h
      have hsuffix := (takes_scanAt _ _ hscan).1
      rw [← eq_nil_of_suffix_trimBlank hsuffix hblank]
      exact phrase_of_scan hscan
    · cases h
  · intro h
    unfold Expr.parse
    dsimp only
    rw [h.scan_eq (stops_nil _).halts]
    rfl

/-- **The grammar of expressions is what the reader accepts.** A text without the white space at
its ends is read as an expression just in case it is a phrase for it, and no text is a phrase for
two expressions. -/
theorem parse_eq_ok_iff_phrase :
    (∀ (source : String) (e : Expr),
      Expr.parse source = .ok e ↔ Phrase .disjunction (trimBlank source.toList) e []) ∧
    ∀ (s : List Char) (e e' : Expr),
      Phrase .disjunction s e [] → Phrase .disjunction s e' [] → e = e' := by
  refine ⟨fun _ _ => Expr.parse_eq_ok_iff, fun s e e' h h' => ?_⟩
  have hhalts : Halts .disjunction [] := (stops_nil _).halts
  have heq : some (e, []) = some (e', []) := (h.scan_eq hhalts).symm.trans (h'.scan_eq hhalts)
  exact (Prod.mk.inj (Option.some.inj heq)).1

/-- A number ends where a word begins. -/
theorem parse_eq_ok_iff_phrase_one_or :
    Expr.parse "1or x" = .ok (.junction .or [.number 1, .ident "x"]) ∧
      ∀ e, Phrase .disjunction "1or x".toList e [] → e = .junction .or [.number 1, .ident "x"] := by
  have hone : IsLiteral ['1'] (.ofDigits ['1'] [] 0) :=
    IsLiteral.whole (e := []) ⟨List.cons_ne_nil '1' [], List.all_eq_true.mp rfl⟩ .none
  have hvalue : (Decimal.ofDigits ['1'] [] 0).toFloat = 1 := by decide +kernel
  have hx : IsIdentifier "x" := ⟨⟨'x', rfl, rfl⟩, List.all_eq_true.mp rfl, by simp [keywords]⟩
  have hleft : Phrase .conjunction "1or x".toList (.number 1) "or x".toList := by
    rw [← hvalue]
    exact (Phrase.number (r := "or x".toList) hone).of_le (by decide) (by decide) (by decide)
  have hright : Phrase .conjunction ['x'] (.ident "x") [] :=
    (Phrase.ident (r := []) hx rfl).of_le (by decide) (by decide) (by decide)
  have hrest : Operands .or "or x".toList [.ident "x"] [] :=
    @Operands.cons .or [] [' '] ['x'] [] [] _ [] (List.forall_mem_nil _)
      (List.all_eq_true.mp rfl) rfl hright .nil
  have hphrase : Phrase .disjunction "1or x".toList (.junction .or [.number 1, .ident "x"]) [] :=
    @Phrase.junction .or _ _ _ _ _ hleft hrest
  exact ⟨(parse_eq_ok_iff_phrase.1 _ _).mpr hphrase,
    fun e h => parse_eq_ok_iff_phrase.2 _ _ _ h hphrase⟩

end PiecewiseLinear.Script
