import PiecewiseLinear.Proofs.Script.Statement

/-!
# What readers of statements leave

A reader of statements stops at an end of its text, where it gives a result and where it fails,
and a result takes at least a character. So a failure can be told by how much of the text is left.

- `Parse.Keeps`, `Parse.Takes`: reading stops at an end of the text, perhaps or surely behind its
  first character.
- `takes_statement`, `takes_function`: the readers of scripts.
-/

namespace PiecewiseLinear.Script

namespace Parse

variable {α β : Type} {p q : Parse α} {f : α → Parse β}

/-- Reading stops at an end of the text, with a result and with a failure. -/
structure Keeps (p : Parse α) : Prop where
  suffix_of_ok : ∀ ⦃s a r⦄, p s = .ok a r → r <:+ s
  suffix_of_error : ∀ ⦃s e stop⦄, p s = .error e stop → stop <:+ s

/-- The same, and a result takes at least a character. -/
structure Takes (p : Parse α) : Prop extends Keeps p where
  length_lt_of_ok : ∀ ⦃s a r⦄, p s = .ok a r → r.length < s.length

/-! ## One reader after another -/

theorem keeps_pure (a : α) : Keeps (pure a : Parse α) where
  suffix_of_ok := by
    rintro s _ _ ⟨⟩
    exact List.suffix_rfl
  suffix_of_error := nofun

theorem keeps_get : Keeps (get : Parse (List Char)) where
  suffix_of_ok := by
    rintro s _ _ ⟨⟩
    exact List.suffix_rfl
  suffix_of_error := nofun

theorem keeps_fail : Keeps (fail : Parse α) where
  suffix_of_ok := nofun
  suffix_of_error := by
    rintro s _ _ ⟨⟩
    exact List.suffix_rfl

/-- In sequence, readers keep an end of the text, whichever of them fails. -/
theorem Keeps.bind (hp : Keeps p) (hf : ∀ a, Keeps (f a)) : Keeps (p >>= f) where
  suffix_of_ok := by
    intro s b t h
    obtain ⟨a, r, ha, hb⟩ := bind_eq_ok h
    exact ((hf a).suffix_of_ok hb).trans (hp.suffix_of_ok ha)
  suffix_of_error := by
    intro s e t h
    obtain hstop | ⟨a, r, ha, hstop⟩ := bind_eq_error h
    · exact hp.suffix_of_error hstop
    · exact ((hf a).suffix_of_error hstop).trans (hp.suffix_of_ok ha)

theorem Takes.bind (hp : Takes p) (hf : ∀ a, Keeps (f a)) : Takes (p >>= f) where
  toKeeps := hp.toKeeps.bind hf
  length_lt_of_ok := by
    intro s b t h
    obtain ⟨a, r, ha, hb⟩ := bind_eq_ok h
    exact ((hf a).suffix_of_ok hb).length_le.trans_lt (hp.length_lt_of_ok ha)

theorem Keeps.bind_takes (hp : Keeps p) (hf : ∀ a, Takes (f a)) : Takes (p >>= f) where
  toKeeps := hp.bind fun a => (hf a).toKeeps
  length_lt_of_ok := by
    intro s b t h
    obtain ⟨a, r, ha, hb⟩ := bind_eq_ok h
    exact ((hf a).length_lt_of_ok hb).trans_le (hp.suffix_of_ok ha).length_le

theorem Keeps.map (hp : Keeps p) (g : α → β) : Keeps (g <$> p) := by
  rw [map_eq_bind]
  exact hp.bind fun _ => keeps_pure _

theorem Takes.map (hp : Takes p) (g : α → β) : Takes (g <$> p) := by
  rw [map_eq_bind]
  exact hp.bind fun _ => keeps_pure _

/-! ## Other ways of combining readers -/

theorem Keeps.ofScan {scan : Scan α} (h : scan.Keeps) : Keeps (ofScan scan) where
  suffix_of_ok _ _ _ hs := h (ofScan_eq_ok hs)
  suffix_of_error _ _ _ hs := ofScan_eq_error hs ▸ List.suffix_rfl

theorem Takes.ofScan {scan : Scan α} (h : scan.Takes) : Takes (ofScan scan) where
  toKeeps := .ofScan h.keeps
  length_lt_of_ok _ _ _ hs := (h (ofScan_eq_ok hs)).2

theorem Keeps.named (construct : Construct) (hp : Keeps p) : Keeps (named construct p) where
  suffix_of_ok _ _ _ h := hp.suffix_of_ok (named_eq_ok h)
  suffix_of_error _ _ _ h := (named_eq_error h).elim fun _ he => hp.suffix_of_error he

theorem Takes.named (construct : Construct) (hp : Takes p) : Takes (named construct p) where
  toKeeps := hp.toKeeps.named construct
  length_lt_of_ok _ _ _ h := hp.length_lt_of_ok (named_eq_ok h)

theorem Keeps.committed (hp : Keeps p) : Keeps (committed p) where
  suffix_of_ok _ _ _ h := hp.suffix_of_ok (committed_eq_ok h)
  suffix_of_error _ _ _ h := (committed_eq_error h).elim fun _ he => hp.suffix_of_error he

theorem Takes.committed (hp : Takes p) : Takes (committed p) where
  toKeeps := hp.toKeeps.committed
  length_lt_of_ok _ _ _ h := hp.length_lt_of_ok (committed_eq_ok h)

theorem Keeps.either (hp : Keeps p) (hq : Keeps q) : Keeps (either p q) where
  suffix_of_ok _ _ _ h := (either_eq_ok h).elim (@hp.suffix_of_ok _ _ _) (@hq.suffix_of_ok _ _ _)
  suffix_of_error _ _ _ h :=
    (either_eq_error h).elim (@hp.suffix_of_error _ _ _) (@hq.suffix_of_error _ _ _)

theorem Takes.either (hp : Takes p) (hq : Takes q) : Takes (either p q) where
  toKeeps := hp.toKeeps.either hq.toKeeps
  length_lt_of_ok _ _ _ h :=
    (either_eq_ok h).elim (@hp.length_lt_of_ok _ _ _) (@hq.length_lt_of_ok _ _ _)

theorem Keeps.optional (hp : Keeps p) : Keeps (Parse.optional p) :=
  (hp.map some).either (keeps_pure none)

theorem Keeps.upTo (hp : Keeps p) (count : Nat) : Keeps (upTo p count) := by
  induction count with
  | zero => exact keeps_pure []
  | succ count ih =>
    refine hp.optional.bind fun o => ?_
    cases o with
    | none => exact keeps_pure []
    | some a => exact ih.bind fun _ => keeps_pure _

theorem Keeps.many (hp : Keeps p) : Keeps (many p) where
  suffix_of_ok s _ _ h := (hp.upTo s.length).suffix_of_ok h
  suffix_of_error s _ _ h := (hp.upTo s.length).suffix_of_error h

theorem Takes.many1 (hp : Takes p) : Takes (many1 p) :=
  hp.bind fun _ => hp.toKeeps.many.bind fun _ => keeps_pure _

/-! ## Lexemes -/

theorem keeps_blanks : Keeps blanks where
  suffix_of_ok := by
    rintro s _ _ ⟨⟩
    exact List.dropWhile_suffix _
  suffix_of_error := nofun

theorem keeps_layout : Keeps layout where
  suffix_of_ok := by
    rintro s _ _ ⟨⟩
    exact Scan.skipLayoutFrom_suffix false s
  suffix_of_error := nofun

theorem takes_piece {text : List Char} (hne : text ≠ []) : Takes (piece text) :=
  .ofScan (Scan.takes_piece hne)

theorem keeps_ite_fail (c : Prop) [Decidable c] (hp : Keeps p) :
    Keeps (if c then fail else p) := by
  split_ifs
  · exact keeps_fail
  · exact hp

theorem takes_keyword {word : List Char} (hne : word ≠ []) : Takes (Parse.keyword word) :=
  (takes_piece hne).bind fun _ => keeps_get.bind fun _ => keeps_ite_fail _ (keeps_pure _)

theorem takes_ident : Takes Parse.ident := by
  refine .ofScan fun s a r h => Expr.takes_name? (s := s) (a := .ident a) (r := r) ?_
  rw [Expr.name?, h, Option.map_some]

end Parse

/-! ## Statements and functions -/

open Parse

theorem takes_expression : Takes expression :=
  .named _ (.ofScan fun _ _ _ h => Expr.takes_scanAt _ .disjunction h)

theorem takes_returned : Takes returned :=
  .named _ ((takes_keyword (by decide)).bind fun _ => keeps_blanks.bind fun _ =>
    takes_expression.toKeeps.committed)

theorem takes_branch : Takes branch :=
  keeps_blanks.bind_takes fun _ => takes_expression.bind fun _ => keeps_blanks.bind fun _ =>
    (takes_piece (by decide)).toKeeps.bind fun _ => keeps_layout.bind fun _ =>
      takes_returned.toKeeps.bind fun _ => keeps_pure _

theorem takes_furtherBranch : Takes furtherBranch :=
  keeps_layout.bind_takes fun _ => (takes_keyword (by decide)).bind fun _ =>
    takes_branch.toKeeps.committed

theorem takes_otherwiseValue : Takes otherwiseValue := by
  refine keeps_layout.bind_takes fun _ => (takes_keyword (by decide)).bind fun _ => .committed ?_
  exact keeps_blanks.bind fun _ => (takes_piece (by decide)).toKeeps.bind fun _ =>
    keeps_layout.bind fun _ => takes_returned.toKeeps

theorem takes_conditional : Takes conditional :=
  (takes_keyword (by decide)).bind fun _ => takes_branch.toKeeps.committed.bind fun _ =>
    takes_furtherBranch.toKeeps.many.bind fun _ => takes_otherwiseValue.toKeeps.optional.bind
      fun _ => keeps_pure _

theorem takes_assignment : Takes assignment := by
  refine takes_ident.bind fun name => keeps_blanks.bind fun _ =>
    (takes_piece (by decide)).toKeeps.bind fun _ => keeps_get.bind fun s => ?_
  have hrest : Keeps (do blanks; return .assign name (← committed expression) : Parse Stmt) :=
    keeps_blanks.bind fun _ => takes_expression.toKeeps.committed.bind fun _ => keeps_pure _
  split_ifs
  · exact keeps_fail.bind fun _ => hrest
  · exact hrest

theorem takes_statement : Takes statement :=
  .named _ (takes_conditional.either ((takes_returned.map _).either takes_assignment))

theorem takes_layoutStatement : Takes layoutStatement :=
  keeps_layout.bind_takes fun _ => takes_statement

/-- The type behind a parameter, or behind the parentheses around it. -/
theorem keeps_hint (mark : List Char) (hne : mark ≠ []) :
    Keeps (Parse.optional do blanks; piece mark; blanks; Parse.ident) :=
  .optional (keeps_blanks.bind fun _ => (takes_piece hne).toKeeps.bind fun _ =>
    keeps_blanks.bind fun _ => takes_ident.toKeeps)

/-- **What is left of a function.** Reading a function stops at an end of its text, and a function
takes at least a character. -/
theorem takes_function : Takes function := by
  refine keeps_layout.bind_takes fun _ => (takes_keyword (by decide)).bind fun _ =>
    keeps_blanks.bind fun _ => (takes_ident.toKeeps.committed.named _).bind fun name => ?_
  refine keeps_blanks.bind fun _ => (takes_piece (by decide)).toKeeps.bind fun _ =>
    keeps_blanks.bind fun _ => (takes_ident.toKeeps.committed.named _).bind fun param => ?_
  refine (keeps_hint _ (by decide)).bind fun _ => keeps_blanks.bind fun _ =>
    (takes_piece (by decide)).toKeeps.bind fun _ => ?_
  refine (keeps_hint _ (by decide)).bind fun _ => keeps_blanks.bind fun _ =>
    (takes_piece (by decide)).toKeeps.bind fun _ => ?_
  exact (takes_layoutStatement.many1.toKeeps.named _).bind fun _ => keeps_layout.bind fun _ =>
    keeps_pure _

end PiecewiseLinear.Script
