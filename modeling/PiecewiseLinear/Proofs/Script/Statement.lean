import PiecewiseLinear.Proofs.Script.Attempt
import PiecewiseLinear.Proofs.Script.Piece

/-!
# Functions in writing

What a function may look like, whatever the layout between its statements, and that it is read as
that function. Nothing closes a statement: it ends because its last expression cannot go on, and
a conditional ends because neither keyword of an alternative follows.

- `Stmt.Written`, `Function.Written`: the texts of functions.
- `EndsStatement`: texts that may follow a statement.
- `statement_append`, `function_of_written`: what is written is read.
-/

namespace PiecewiseLinear.Script

open Parse

/-! ## Texts -/

namespace Stmt

/-- The texts of a condition and the value under it. -/
inductive WrittenBranch : List Char → Expr × Expr → Prop where
  | intro {s g t : List Char} {test value : Expr} (htest : Expr.Written .disjunction s test)
      (hg : IsLayout g) (hvalue : Expr.Written .disjunction t value) :
      WrittenBranch (' ' :: (s ++ ':' :: (g ++ ("return ".toList ++ t)))) (test, value)

/-- The texts of what follows the first branch of a conditional. -/
inductive WrittenAlternative : List Char → Option Stmt → Prop where
  | none : WrittenAlternative [] none
  | otherwise {g g' s : List Char} {value : Expr} (hg : IsLayout g) (hne : g ≠ [])
      (hg' : IsLayout g') (hvalue : Expr.Written .disjunction s value) :
      WrittenAlternative (g ++ ("else:".toList ++ (g' ++ ("return ".toList ++ s))))
        (some (ret value))
  | further {g s t : List Char} {test value : Expr} {alternative : Option Stmt} (hg : IsLayout g)
      (hne : g ≠ []) (hbranch : WrittenBranch s (test, value))
      (halternative : WrittenAlternative t alternative) :
      WrittenAlternative (g ++ ("elif".toList ++ (s ++ t))) (some (cond test value alternative))

/-- The texts of a statement. -/
inductive Written : List Char → Stmt → Prop where
  | cond {s t : List Char} {test value : Expr} {alternative : Option Stmt}
      (hbranch : WrittenBranch s (test, value)) (halternative : WrittenAlternative t alternative) :
      Written ("if".toList ++ (s ++ t)) (cond test value alternative)
  | ret {s : List Char} {value : Expr} (hvalue : Expr.Written .disjunction s value) :
      Written ("return ".toList ++ s) (ret value)
  | assign {name : String} {s : List Char} {value : Expr} (hname : IsIdentifier name)
      (hvalue : Expr.Written .disjunction s value) :
      Written (name.toList ++ (" = ".toList ++ s)) (assign name value)

end Stmt

variable {g r s t u : List Char} {name : String} {test value : Expr} {stmt : Stmt}
  {alternative : Option Stmt}

/-! ## Ends of statements -/

/-- A text does not go on with the statement in front of it. -/
structure EndsStatement (r : List Char) : Prop where
  stops : Stops .disjunction r
  no_elif : keyword? "elif".toList (skipLayout r) = none
  no_else : keyword? "else".toList (skipLayout r) = none

theorem isWordChar_of_mem_keywords : ∀ word ∈ keywords, ∀ c ∈ word, isWordChar c = true := by
  intro word hword
  refine List.all_eq_true.mp ?_
  revert word
  exact List.all_eq_true.mp rfl

/-- An identifier is read as no keyword. -/
theorem keyword?_eq_none_of_isIdentifier {word : List Char} (hmem : word ∈ keywords)
    (hname : IsIdentifier name) (hr : continuesWord r = false) :
    keyword? word (name.toList ++ r) = none := by
  by_contra hsome
  obtain ⟨t, ht⟩ := Option.ne_none_iff_exists'.mp hsome
  obtain ⟨happend, hends⟩ := eq_append_of_keyword? ht
  have hword := takeWhile_isWordChar_append (isWordChar_of_mem_keywords word hmem) hends
  have hname' := takeWhile_isWordChar_append hname.word hr
  rw [happend, hword.1] at hname'
  exact hname.not_keyword (hname'.1 ▸ hmem)

theorem StartsWord.of_cons {c : Char} (hc : isWordStart c = true)
    (hconnective : ∀ connective : Connective, keyword? connective.word.toList (c :: s) = none) :
    StartsWord (c :: s) where
  head := by
    rintro d ⟨⟩
    exact hc
  no_connective := hconnective

theorem StartsWord.of_isIdentifier (hname : IsIdentifier name) (hr : continuesWord r = false) :
    StartsWord (name.toList ++ r) := by
  have hnone (connective : Connective) :
      keyword? connective.word.toList (name.toList ++ r) = none :=
    keyword?_eq_none_of_isIdentifier (by cases connective <;> simp [keywords, Connective.word])
      hname hr
  obtain ⟨c, hc, hstart⟩ := hname.start
  obtain ⟨s, hs⟩ := List.head?_eq_some_iff.mp hc
  rw [hs] at hnone ⊢
  exact .of_cons hstart hnone

/-- A statement begins with a word that is no connective and none of the keywords of an
alternative. -/
theorem Stmt.Written.start (h : stmt.Written s) (r : List Char) : StartsWord (s ++ r) ∧
    keyword? "elif".toList (s ++ r) = none ∧ keyword? "else".toList (s ++ r) = none := by
  cases h with
  | cond hbranch _ =>
    cases hbranch
    exact ⟨.of_cons (c := 'i') rfl (by rintro (_ | _) <;> rfl), rfl, rfl⟩
  | ret _ => exact ⟨.of_cons (c := 'r') rfl (by rintro (_ | _) <;> rfl), rfl, rfl⟩
  | assign hname _ =>
    rw [List.append_assoc]
    exact ⟨.of_isIdentifier hname rfl,
      keyword?_eq_none_of_isIdentifier (by simp [keywords]) hname rfl,
      keyword?_eq_none_of_isIdentifier (by simp [keywords]) hname rfl⟩

/-- A statement ends in front of layout that another statement follows. -/
theorem EndsStatement.of_layout (hg : IsLayout g) (hne : g ≠ []) (h : stmt.Written s)
    (r : List Char) : EndsStatement (g ++ (s ++ r)) := by
  obtain ⟨hword, helif, helse⟩ := h.start r
  have hskip : skipLayout (g ++ (s ++ r)) = s ++ r := by rw [hg, hword.skipLayout]
  exact ⟨stops_layout hg hne hword _, by rw [hskip, helif], by rw [hskip, helse]⟩

/-- A statement ends where nothing but layout follows. -/
theorem EndsStatement.of_skipLayout (h : skipLayout r = []) : EndsStatement r :=
  ⟨stops_of_skipLayout_eq_nil h _, by rw [h]; rfl, by rw [h]; rfl⟩

/-! ## Reading statements -/

theorem expression_append (h : Expr.Written .disjunction s value) (hstops : Stops .disjunction r) :
    expression (s ++ r) = .ok value r :=
  named_of_ok _ (ofScan_of_some (Expr.scan_of_written h hstops))

theorem skipBlanks_expression (h : Expr.Written .disjunction s value)
    (hstops : Stops .disjunction r) : skipBlanks (' ' :: (s ++ r)) = s ++ r :=
  (Expr.reads_of_written h).skipBlanks_append hstops

theorem returned_append (h : Expr.Written .disjunction s value) (hstops : Stops .disjunction r) :
    returned ("return ".toList ++ (s ++ r)) = .ok value r := by
  have hword : keyword? "return".toList ("return ".toList ++ (s ++ r)) = some (' ' :: (s ++ r)) :=
    rfl
  exact named_of_ok _ ((bind_of_ok (keyword_of_some hword)).trans
    ((bind_of_ok (blanks_eq (skipBlanks_expression h hstops))).trans
      (committed_of_ok (expression_append h hstops))))

/-- A condition and the value under it are read from any of their texts. -/
theorem branch_append (h : Stmt.WrittenBranch s (test, value)) (hstops : Stops .disjunction r) :
    branch (s ++ r) = .ok (test, value) r := by
  cases h with
  | @intro s g t _ _ htest hg hvalue =>
    simp only [List.cons_append, List.append_assoc]
    have hends : Stops .disjunction (':' :: (g ++ ("return ".toList ++ (t ++ r)))) :=
      stops_of_closes rfl _ _
    refine (bind_of_ok (blanks_eq (skipBlanks_expression htest hends))).trans ?_
    refine (bind_of_ok (expression_append htest hends)).trans ?_
    refine (bind_of_ok (blanks_cons rfl _)).trans ?_
    refine (bind_of_ok (piece_cons ':' _)).trans ?_
    refine (bind_of_ok (layout_eq (hg _))).trans ?_
    exact bind_of_ok (returned_append hvalue hstops)

theorem Stmt.WrittenBranch.continuesWord {b : Expr × Expr} (h : Stmt.WrittenBranch s b) :
    continuesWord (s ++ r) = false := by
  cases h
  rfl

/-! ### Alternatives -/

/-- A further branch behind `elif`. -/
def furtherBranch : Parse (Expr × Expr) := do layout; keyword "elif".toList; committed branch

/-- The value behind `else`. -/
def otherwiseValue : Parse Expr := do
  layout; keyword "else".toList
  committed do blanks; piece ":".toList; layout; returned

theorem conditional_of_ok {branches : List (Expr × Expr)} {otherwise : Option Expr}
    (hbranch : branch s = .ok (test, value) t)
    (hmany : Parse.many furtherBranch t = .ok branches u)
    (hotherwise : Parse.optional otherwiseValue u = .ok otherwise r)
    (hword : continuesWord s = false) :
    conditional ("if".toList ++ s) =
      .ok (.cond test value (alternativeOf branches otherwise)) r :=
  (bind_of_ok (keyword_of_some (keyword?_append hword))).trans
    ((bind_of_ok (committed_of_ok hbranch)).trans ((bind_of_ok hmany).trans
      (bind_of_ok hotherwise)))

/-- What follows the first branch ends the value of that branch. -/
theorem Stmt.WrittenAlternative.stops (h : Stmt.WrittenAlternative s alternative)
    (hends : EndsStatement r) : Stops .disjunction (s ++ r) := by
  cases h with
  | none => exact hends.stops
  | @otherwise g g' s value hg hne hg' hvalue =>
    rw [List.append_assoc]
    exact stops_layout hg hne (.of_cons (c := 'e') rfl (by rintro (_ | _) <;> rfl)) _
  | @further g s t test value alternative hg hne hbranch =>
    cases hbranch
    rw [List.append_assoc]
    exact stops_layout hg hne (.of_cons (c := 'e') rfl (by rintro (_ | _) <;> rfl)) _

theorem fails_furtherBranch (h : keyword? "elif".toList (skipLayout s) = none) :
    Fails furtherBranch s :=
  fails_bind_of_ok (layout_eq rfl) (fails_keyword h).bind

theorem fails_otherwiseValue (h : keyword? "else".toList (skipLayout s) = none) :
    Fails otherwiseValue s :=
  fails_bind_of_ok (layout_eq rfl) (fails_keyword h).bind

theorem furtherBranch_append (hg : IsLayout g) (hbranch : Stmt.WrittenBranch s (test, value))
    (hstops : Stops .disjunction r) :
    furtherBranch (g ++ ("elif".toList ++ (s ++ r))) = .ok (test, value) r := by
  refine (bind_of_ok (layout_eq (hg _))).trans ?_
  refine (bind_of_ok (keyword_of_some (keyword?_append hbranch.continuesWord))).trans ?_
  exact committed_of_ok (branch_append hbranch hstops)

/-- The value behind `else` is read from any of its texts. -/
theorem otherwiseValue_append {g' : List Char} (hg : IsLayout g) (hg' : IsLayout g')
    (hvalue : Expr.Written .disjunction s value) (hstops : Stops .disjunction r) :
    otherwiseValue (g ++ ("else:".toList ++ (g' ++ ("return ".toList ++ (s ++ r))))) =
      .ok value r := by
  have hword : keyword? "else".toList ("else:".toList ++ (g' ++ ("return ".toList ++ (s ++ r)))) =
    some (':' :: (g' ++ ("return ".toList ++ (s ++ r)))) := rfl
  refine (bind_of_ok (layout_eq (hg _))).trans ?_
  refine (bind_of_ok (keyword_of_some hword)).trans (committed_of_ok ?_)
  refine (bind_of_ok (blanks_cons rfl _)).trans ?_
  refine (bind_of_ok (piece_cons ':' _)).trans ?_
  refine (bind_of_ok (layout_eq (hg' _))).trans ?_
  exact returned_append hvalue hstops

/-- **The branches of a chain and the value at its end are read as the chain.** Each alternative
but the last one is read as one more branch, so the count grows with the text. -/
theorem read_alternative (h : Stmt.WrittenAlternative s alternative) (hends : EndsStatement r) :
    ∃ branches otherwise t, alternativeOf branches otherwise = alternative ∧
      (∀ count, s.length ≤ count → upTo furtherBranch count (s ++ r) = .ok branches t) ∧
      Parse.optional otherwiseValue t = .ok otherwise r := by
  induction h with
  | none =>
    exact ⟨[], none, r, rfl, fun count _ => upTo_of_fails (fails_furtherBranch hends.no_elif) count,
      optional_of_fails (fails_otherwiseValue hends.no_else)⟩
  | @otherwise g g' s value hg hne hg' hvalue =>
    simp only [List.append_assoc]
    -- no branch is there, since the keyword is another one
    have hnone : keyword? "elif".toList
        (skipLayout (g ++ ("else:".toList ++ (g' ++ ("return ".toList ++ (s ++ r)))))) = none := by
      rw [hg]
      rfl
    exact ⟨[], some value, _, rfl, fun count _ => upTo_of_fails (fails_furtherBranch hnone) count,
      optional_of_ok (otherwiseValue_append hg hg' hvalue hends.stops)⟩
  | @further g s t test value alternative hg hne hbranch halternative ih =>
    obtain ⟨branches, otherwise, u, rfl, hmany, hotherwise⟩ := ih
    refine ⟨(test, value) :: branches, otherwise, u, rfl, fun count hcount => ?_, hotherwise⟩
    simp only [List.append_assoc]
    simp only [List.length_append] at hcount
    have hlength := List.length_pos_of_ne_nil hne
    obtain ⟨count, rfl⟩ := Nat.exists_eq_add_one_of_ne_zero (by omega : count ≠ 0)
    exact upTo_succ_of_ok (furtherBranch_append hg hbranch (halternative.stops hends))
      (hmany count (by omega))

/-! ### Statements -/

theorem fails_conditional (h : keyword? "if".toList s = none) : Fails conditional s :=
  (fails_keyword h).bind

theorem fails_returned (h : keyword? "return".toList s = none) : Fails returned s :=
  (fails_keyword h).bind.named _

/-- A conditional is read from any of its texts, up to where the next statement begins. -/
theorem conditional_append (hbranch : Stmt.WrittenBranch s (test, value))
    (halternative : Stmt.WrittenAlternative t alternative) (hends : EndsStatement r) :
    conditional ("if".toList ++ (s ++ (t ++ r))) = .ok (.cond test value alternative) r := by
  obtain ⟨branches, otherwise, u, rfl, hmany, hotherwise⟩ := read_alternative halternative hends
  have hlength : t.length ≤ (t ++ r).length := by
    rw [List.length_append]
    exact Nat.le_add_right _ _
  exact conditional_of_ok (branch_append hbranch (halternative.stops hends))
    (hmany _ hlength) hotherwise hbranch.continuesWord

/-- An assignment is read from its text. -/
theorem assignment_append (hname : IsIdentifier name) (h : Expr.Written .disjunction s value)
    (hstops : Stops .disjunction r) :
    assignment (name.toList ++ (" = ".toList ++ (s ++ r))) = .ok (.assign name value) r := by
  have hskip : skipBlanks (" = ".toList ++ (s ++ r)) = '=' :: ' ' :: (s ++ r) := rfl
  have hget : (get : Parse (List Char)) (' ' :: (s ++ r)) = .ok (' ' :: (s ++ r)) _ := rfl
  refine (bind_of_ok (ident_append hname rfl)).trans ?_
  refine (bind_of_ok (blanks_eq hskip)).trans ?_
  refine (bind_of_ok (piece_cons '=' _)).trans ?_
  refine (bind_of_ok hget).trans ?_
  refine (bind_of_ok (blanks_eq (skipBlanks_expression h hstops))).trans ?_
  exact bind_of_ok (committed_of_ok (expression_append h hstops))

/-- **A statement is read as itself** in front of what ends it. -/
theorem statement_append (h : stmt.Written s) (hends : EndsStatement r) :
    statement (s ++ r) = .ok stmt r := by
  cases h with
  | cond hbranch halternative =>
    simp only [List.append_assoc]
    exact named_of_ok _ (either_of_ok (conditional_append hbranch halternative hends))
  | ret hvalue =>
    rw [List.append_assoc]
    refine named_of_ok _ ((either_of_fails (fails_conditional rfl)).trans (either_of_ok ?_))
    exact map_of_ok (returned_append hvalue hends.stops) _
  | assign hname hvalue =>
    -- the other two ways of reading fail at their keywords, so their failures are not final
    simp only [List.append_assoc]
    refine named_of_ok _ ((either_of_fails (fails_conditional ?_)).trans
      ((either_of_fails (Fails.map (fails_returned ?_) _)).trans
        (assignment_append hname hvalue hends.stops)))
    · exact keyword?_eq_none_of_isIdentifier (by simp [keywords]) hname rfl
    · exact keyword?_eq_none_of_isIdentifier (by simp [keywords]) hname rfl

/-! ## Bodies -/

/-- The texts of the statements behind the first one of a body. -/
inductive WrittenMore : List Char → List Stmt → Prop where
  | nil : WrittenMore [] []
  | cons {g s t : List Char} {stmt : Stmt} {body : List Stmt} (hg : IsLayout g) (hne : g ≠ [])
      (hstmt : stmt.Written s) (hmore : WrittenMore t body) :
      WrittenMore (g ++ (s ++ t)) (stmt :: body)

/-- The texts of a body. -/
inductive WrittenBody : List Char → List Stmt → Prop where
  | intro {g s t : List Char} {stmt : Stmt} {body : List Stmt} (hg : IsLayout g)
      (hstmt : stmt.Written s) (hmore : WrittenMore t body) :
      WrittenBody (g ++ (s ++ t)) (stmt :: body)

variable {body : List Stmt}

/-- A statement ends in front of further statements. -/
theorem WrittenMore.endsStatement (h : WrittenMore s body) (hends : EndsStatement r) :
    EndsStatement (s ++ r) := by
  cases h with
  | nil => exact hends
  | cons hg hne hstmt _ =>
    simp only [List.append_assoc]
    exact .of_layout hg hne hstmt _

/-- A statement of a body behind its layout. -/
def layoutStatement : Parse Stmt := do layout; statement

theorem layoutStatement_append (hg : IsLayout g) (h : stmt.Written s) (hends : EndsStatement r) :
    layoutStatement (g ++ (s ++ r)) = .ok stmt r := by
  have hskip : skipLayout (g ++ (s ++ r)) = s ++ r := by rw [hg, (h.start r).1.skipLayout]
  exact (bind_of_ok (layout_eq hskip)).trans (statement_append h hends)

theorem fails_layoutStatement (h : skipLayout s = []) : Fails layoutStatement s := by
  have hreturned : Fails (Stmt.ret <$> returned) [] := (fails_returned rfl).map _
  have hassignment : Fails assignment [] := (fails_ofScan rfl).bind
  exact fails_bind_of_ok (layout_eq h)
    (((fails_conditional rfl).either (hreturned.either hassignment)).named _)

/-- Statements are read one after the other, as long as the text goes on. -/
theorem upTo_layoutStatement (h : WrittenMore s body) (hr : skipLayout r = []) {count : Nat}
    (hcount : s.length ≤ count) :
    upTo layoutStatement count (s ++ r) = .ok body r := by
  induction h generalizing count with
  | nil => exact upTo_of_fails (fails_layoutStatement hr) count
  | @cons g s t stmt body hg hne hstmt hmore ih =>
    simp only [List.length_append] at hcount
    have hlength := List.length_pos_of_ne_nil hne
    obtain ⟨count, rfl⟩ := Nat.exists_eq_add_one_of_ne_zero (by omega : count ≠ 0)
    simp only [List.append_assoc]
    have hends := hmore.endsStatement (.of_skipLayout hr)
    exact upTo_succ_of_ok (layoutStatement_append hg hstmt hends) (ih (by omega))

/-- The statements of a body are read from any of their texts, up to where nothing but layout
follows. -/
theorem body_append (h : WrittenBody s body) (hr : skipLayout r = []) :
    many1 layoutStatement (s ++ r) = .ok body r := by
  cases h with
  | @intro g s t stmt body hg hstmt hmore =>
    simp only [List.append_assoc]
    have hends := hmore.endsStatement (.of_skipLayout hr)
    have hmany : Parse.many layoutStatement (t ++ r) = .ok body r :=
      upTo_layoutStatement hmore hr (by simp)
    exact (bind_of_ok (layoutStatement_append hg hstmt hends)).trans (bind_of_ok hmany)

/-! ## Functions -/

/-- The texts of a function. -/
inductive Function.Written : List Char → Function → Prop where
  | intro {g p q s r : List Char} {name param : String} {body : List Stmt} (hg : IsLayout g)
      (hname : IsIdentifier name) (hparam : IsIdentifier param) (hp : IsHint ":" p)
      (hq : IsHint "->" q) (hbody : WrittenBody s body) (hr : skipLayout r = []) :
      Written (g ++ ("def ".toList ++ (name.toList ++ '(' :: (param.toList ++
        (p ++ ')' :: (q ++ ':' :: (s ++ r))))))) ⟨name, param, body⟩

theorem skipBlanks_name (hname : IsIdentifier name) (hr : continuesWord r = false) :
    skipBlanks (name.toList ++ r) = name.toList ++ r :=
  (StartsWord.of_isIdentifier hname hr).skipBlanks

theorem blanks_name (hname : IsIdentifier name) (hr : continuesWord r = false) :
    blanks (' ' :: (name.toList ++ r)) = .ok () (name.toList ++ r) :=
  blanks_eq (show skipBlanks (name.toList ++ r) = _ from skipBlanks_name hname hr)

theorem name_append (construct : Construct) (hname : IsIdentifier name)
    (hr : continuesWord r = false) :
    named construct (committed ident) (name.toList ++ r) = .ok name r :=
  named_of_ok _ (committed_of_ok (ident_append hname hr))

theorem IsHint.continuesWord {mark : String} (h : IsHint mark s)
    (hmark : ∀ t, continuesWord (mark.toList ++ t) = false) (hr : continuesWord r = false) :
    continuesWord (s ++ r) = false := by
  cases h with
  | none => exact hr
  | some hg _ _ =>
    simp only [List.append_assoc]
    exact hg.continuesWord (hmark _)

/-- A type hint is read where its name ends, and none where its mark does not follow. -/
theorem hint_append {mark : String} (h : IsHint mark s)
    (hmark : ∀ t, skipBlanks (mark.toList ++ t) = mark.toList ++ t)
    (hends : continuesWord r = false) (hnone : after? mark.toList (skipBlanks r) = none) :
    ∃ hint, Parse.optional (do blanks; piece mark.toList; blanks; ident) (s ++ r) =
      .ok hint r := by
  cases h with
  | none =>
    have hpiece : Fails (piece mark.toList) (skipBlanks r) :=
      fails_ofScan (by rw [Scan.piece, hnone]; rfl)
    exact ⟨none, optional_of_fails (fails_bind_of_ok (blanks_eq rfl) hpiece.bind)⟩
  | @some g g' name hg hg' hname =>
    simp only [List.append_assoc]
    have hskip := (hg.skipBlanks_append _).trans (hmark (g' ++ (name.toList ++ r)))
    have hskip' := (hg'.skipBlanks_append _).trans (skipBlanks_name hname hends)
    exact ⟨some name, optional_of_ok ((bind_of_ok (blanks_eq hskip)).trans
      ((bind_of_ok (piece_append mark.toList _)).trans
        ((bind_of_ok (blanks_eq hskip')).trans (ident_append hname hends))))⟩

/-- **A function is read as itself**, to the end of its text. -/
theorem function_of_written {f : Function} (h : f.Written s) : function s = .ok f [] := by
  cases h with
  | @intro g p q s r name param body hg hname hparam hp hq hbody hr =>
    have hparamEnds : continuesWord (p ++ ')' :: (q ++ ':' :: (s ++ r))) = false :=
      hp.continuesWord (fun _ => rfl) rfl
    obtain ⟨hint, hhint⟩ :=
      hint_append (r := ')' :: (q ++ ':' :: (s ++ r))) hp (fun _ => rfl) rfl rfl
    obtain ⟨returns, hreturns⟩ :=
      hint_append (r := ':' :: (s ++ r)) hq (fun _ => rfl) rfl rfl
    refine (bind_of_ok (layout_eq (hg _))).trans ?_
    refine (bind_of_ok (keyword_of_some (r := ' ' :: _) rfl)).trans ?_
    refine (bind_of_ok (blanks_name hname rfl)).trans ?_
    refine (bind_of_ok (name_append _ hname rfl)).trans ?_
    refine (bind_of_ok (blanks_cons rfl _)).trans ?_
    refine (bind_of_ok (piece_cons '(' _)).trans ?_
    refine (bind_of_ok (blanks_eq (skipBlanks_name hparam hparamEnds))).trans ?_
    refine (bind_of_ok (name_append _ hparam hparamEnds)).trans ?_
    refine (bind_of_ok hhint).trans ?_
    refine (bind_of_ok (blanks_cons rfl _)).trans ?_
    refine (bind_of_ok (piece_cons ')' _)).trans ?_
    refine (bind_of_ok hreturns).trans ?_
    refine (bind_of_ok (blanks_cons rfl _)).trans ?_
    refine (bind_of_ok (piece_cons ':' _)).trans ?_
    refine (bind_of_ok (named_of_ok _ (body_append hbody hr))).trans ?_
    exact bind_of_ok (layout_eq hr)

end PiecewiseLinear.Script
