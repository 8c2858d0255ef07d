import PiecewiseLinear.Proofs.Script.Piece

/-!
# Only phrases are read

Whatever the readers of expressions read off a text is a phrase of the grammar at its head.

- `Scan.many_induction`: what holds of a repetition because it holds of one item more.
- `Expr.ReadsPhrases`: references back to the grammar that read phrases.
- `Expr.ReadsPhrases.primary` up to `Expr.ReadsPhrases.disjunction`: so do the readers of the
  levels with these references, one lemma for each level.
- `Expr.readsPhrases_scanAt`, `Expr.phrase_of_scan`: the readers of expressions.
-/

namespace PiecewiseLinear.Script

open Scan

variable {nested : Nested} {b : Binding} {s t r : List Char} {e : Expr}

/-- A repetition reads nothing, or an item and then a repetition. -/
theorem Scan.many_induction {α : Type} {item : Scan α}
    {motive : List Char → List α → List Char → Prop} (nil : ∀ s, motive s [] s)
    (cons : ∀ s a t as r, item s = some (a, t) → motive t as r → motive s (a :: as) r)
    {as : List α} (h : many item s = some (as, r)) : motive s as r := by
  have hupTo (count : Nat) (s : List Char) : motive s (upTo item count s).1 (upTo item count s).2 := by
    induction count generalizing s with
    | zero => exact nil s
    | succ count ih =>
      rw [upTo]
      split
      · next a t hitem => exact cons s a t _ _ hitem (ih t)
      · exact nil s
  have heq : upTo item s.length s = (as, r) := Option.some.inj h
  have hmotive := hupTo s.length s
  rwa [heq] at hmotive

/-! ## One step at a time -/

namespace Scan

variable {α : Type} {p : Scan α} {text : List Char} {f : Unit → Scan α} {x : α × List Char}

/-- Nothing is read off an empty text. -/
theorem Takes.nil (hp : Takes p) : p [] = none := by
  cases h : p [] with
  | none => rfl
  | some x => exact absurd (hp h).2 (Nat.not_lt_zero _)

theorem blanks_bind (h : (blanks >>= f) s = some x) :
    ∃ g t, IsBlanks g ∧ s = g ++ t ∧ f () t = some x := by
  obtain ⟨g, hg, hs⟩ := exists_isBlanks s
  exact ⟨g, _, hg, hs, h⟩

/-- Layout in front of something is a gap. -/
theorem layout_bind (hnil : f () [] = none) (h : (layout >>= f) s = some x) :
    ∃ g t, IsGap g ∧ s = g ++ t ∧ f () t = some x := by
  have hne : skipLayout s ≠ [] := by
    intro hskip
    have hnone : f () (skipLayout s) = none := by rw [hskip, hnil]
    exact Option.some_ne_none x (h.symm.trans hnone)
  obtain ⟨g, hg, hs⟩ := exists_isGap hne
  exact ⟨g, _, hg, hs, h⟩

theorem piece_bind (h : (piece text >>= f) s = some x) : ∃ t, s = text ++ t ∧ f () t = some x := by
  obtain ⟨_, t, hpiece, h⟩ := bind_eq_some h
  exact ⟨t, piece_eq_some hpiece, h⟩

theorem keyword_bind (h : (keyword text >>= f) s = some x) :
    ∃ t, s = text ++ t ∧ continuesWord t = false ∧ f () t = some x := by
  obtain ⟨_, t, hkeyword, h⟩ := bind_eq_some h
  exact ⟨t, (keyword_eq_some hkeyword).1, (keyword_eq_some hkeyword).2, h⟩

/-- What may be missing is read, or nothing is and the text stays. -/
theorem optional_eq_some {found : Option α} (h : Scan.optional p s = some (found, r)) :
    (∃ a, found = some a ∧ p s = some (a, r)) ∨ (found = none ∧ r = s) := by
  rw [Scan.optional] at h
  split at h
  · next a rest hp =>
    cases h
    exact .inl ⟨a, rfl, hp⟩
  · cases h
    exact .inr ⟨rfl, rfl⟩

end Scan

namespace Expr

/-- References back to the grammar that read phrases. -/
structure ReadsPhrases (nested : Nested) : Prop where
  takes : ∀ entry, Takes (nested entry)
  phrase : ∀ ⦃entry s e r⦄, nested entry s = some (e, r) → Phrase (entryBinding entry) s e r

/-! ## Primaries and calls -/

theorem phrase_of_number? (h : number? s = some (e, r)) : Phrase Binding.atom.tighter s e r := by
  obtain ⟨⟨d, rest⟩, hscan, heq⟩ := Option.map_eq_some_iff.mp h
  cases heq
  obtain ⟨l, hl, rfl⟩ := exists_isLiteral hscan
  exact .number hl

theorem phrase_of_name? (h : name? s = some (e, r)) : Phrase Binding.atom.tighter s e r := by
  obtain ⟨⟨name, rest⟩, hscan, heq⟩ := Option.map_eq_some_iff.mp h
  cases heq
  obtain ⟨hname, hword, rfl⟩ := ident?_eq_some_iff.mp hscan
  exact .ident hname hword

namespace ReadsPhrases

/-- What is read in parentheses is a phrase. -/
theorem parenthesized (hn : ReadsPhrases nested) (h : parenthesized nested s = some (e, r)) :
    Phrase Binding.atom.tighter s e r := by
  obtain ⟨t, hs, h⟩ := piece_bind h
  obtain ⟨g, u, hg, ht, h⟩ := layout_bind (bind_of_none (hn.takes _).nil) h
  obtain ⟨inner, v, hinner, h⟩ := bind_eq_some h
  obtain ⟨g', w, hg', hv, h⟩ := layout_bind rfl h
  obtain ⟨x, hw, h⟩ := piece_bind h
  cases h
  rw [hv, hw] at hinner
  rw [hs, ht]
  show Phrase _ ('(' :: (g ++ u)) e r
  exact .parenthesized hg hg' (hn.phrase hinner)

theorem primary (hn : ReadsPhrases nested) (h : primary nested s = some (e, r)) :
    Phrase Binding.atom.tighter s e r := by
  rcases orElse_eq_some h with h | h
  · exact hn.parenthesized h
  rcases orElse_eq_some h with h | h
  · exact phrase_of_number? h
  · exact phrase_of_name? h

theorem furtherArguments (hn : ReadsPhrases nested) {rest : List Expr}
    (h : many (furtherArgument nested) s = some (rest, r)) : FurtherArguments s rest r := by
  refine many_induction (motive := FurtherArguments) (fun _ => .nil) ?_ h
  intro s e t rest r h hrest
  obtain ⟨g, u, hg, hs, h⟩ := blanks_bind h
  obtain ⟨v, hu, h⟩ := piece_bind h
  obtain ⟨g', w, hg', hv, h⟩ := layout_bind (hn.takes _).nil h
  rw [hs, hu, hv]
  show FurtherArguments (g ++ ',' :: (g' ++ w)) (e :: rest) r
  exact .cons hg hg' (hn.phrase h) hrest

/-- What is read between the parentheses of a call are arguments. -/
theorem someArguments (hn : ReadsPhrases nested) {arguments : List Expr}
    (h : someArguments nested s = some (arguments, r)) : Arguments s arguments r := by
  obtain ⟨first, t, hfirst, h⟩ := bind_eq_some h
  obtain ⟨rest, u, hrest, h⟩ := bind_eq_some h
  obtain ⟨comma, v, hcomma, h⟩ := bind_eq_some h
  cases h
  have hrest' := hn.furtherArguments hrest
  rcases optional_eq_some hcomma with ⟨_, -, hcomma⟩ | ⟨-, rfl⟩
  · obtain ⟨g, v, hg, hu, hcomma⟩ := blanks_bind hcomma
    rw [hu, piece_eq_some hcomma] at hrest'
    exact .trailing hg (hn.phrase hfirst) hrest'
  · exact .some (hn.phrase hfirst) hrest'

/-- What is read as calls are calls, one behind the other. -/
theorem calls (hn : ReadsPhrases nested) {calls : List (List Expr)}
    (h : many (furtherCall nested) s = some (calls, r)) : Calls s calls r := by
  refine many_induction (motive := Calls) (fun _ => .nil) ?_ h
  intro s arguments t calls r h hcalls
  obtain ⟨g, u, hg, hs, h⟩ := blanks_bind h
  obtain ⟨v, hu, h⟩ := piece_bind h
  -- without an argument the layout ends in front of the closing parenthesis
  have hsome : Expr.someArguments nested [] = none := bind_of_none (hn.takes _).nil
  have hpure : (Expr.someArguments nested <|> pure []) [] = some ([], []) := orElse_of_none hsome
  obtain ⟨w, x, hw, hv, h⟩ := layout_bind (bind_of_some hpure) h
  obtain ⟨found, y, harguments, h⟩ := bind_eq_some h
  obtain ⟨w', z, hw', hy, h⟩ := layout_bind rfl h
  obtain ⟨_, hz, h⟩ := piece_bind h
  cases h
  have harguments' : Arguments x arguments y := by
    rcases orElse_eq_some harguments with h | h
    · exact hn.someArguments h
    · cases h
      exact .none
  rw [hy, hz] at harguments'
  rw [hs, hu, hv]
  show Calls (g ++ '(' :: (w ++ x)) (arguments :: calls) r
  exact .cons hg hw hw' harguments' hcalls

theorem called (hn : ReadsPhrases nested) (h : called nested s = some (e, r)) :
    Phrase .atom s e r := by
  obtain ⟨callee, t, hcallee, h⟩ := bind_eq_some h
  obtain ⟨calls, u, hcalls, h⟩ := bind_eq_some h
  cases h
  exact .called (hn.primary hcallee) (hn.calls hcalls)

/-! ## Powers and signs -/

/-- What is read as a power is a phrase for one, or for its base alone. -/
theorem power (hn : ReadsPhrases nested) (h : power nested s = some (e, r)) :
    Phrase .power s e r := by
  obtain ⟨base, t, hbase, h⟩ := bind_eq_some h
  obtain ⟨found, u, hfound, h⟩ := bind_eq_some h
  cases h
  have hbase' := hn.called hbase
  rcases optional_eq_some hfound with ⟨exponent, rfl, hexponent⟩ | ⟨rfl, rfl⟩
  · obtain ⟨g, v, hg, ht, hexponent⟩ := blanks_bind hexponent
    obtain ⟨w, hv, hexponent⟩ := piece_bind hexponent
    obtain ⟨g', x, hg', hw, hexponent⟩ := blanks_bind hexponent
    rw [ht, hv, hw] at hbase'
    exact .power hg hg' hbase' (hn.phrase hexponent)
  · exact .unraised hbase'

/-- An operator in front of its operand. -/
theorem prefixed (hn : ReadsPhrases nested) {op : UnaryOp} (hop : op = .neg ∨ op = .pos)
    (h : (do piece op.symbol.toList; blanks; return unary op (← nested .signed) : Scan Expr) s =
      some (e, r)) : Phrase .sign s e r := by
  obtain ⟨t, hs, h⟩ := piece_bind h
  obtain ⟨g, u, hg, ht, h⟩ := blanks_bind h
  obtain ⟨operand, v, hoperand, h⟩ := bind_eq_some h
  cases h
  rw [hs, ht]
  exact .signed hop hg (hn.phrase hoperand)

theorem signed (hn : ReadsPhrases nested) (h : signed nested s = some (e, r)) :
    Phrase .sign s e r := by
  rcases orElse_eq_some h with h | h
  · exact hn.prefixed (.inl rfl) h
  rcases orElse_eq_some h with h | h
  · exact hn.prefixed (.inr rfl) h
  · exact .unsigned (hn.power h)

end ReadsPhrases

/-! ## Sums and products -/

/-- What is read as the terms of a sum or a product are terms, whichever of the two it is. -/
theorem terms_of_many {op : Scan BinaryOp} {operand : Scan Expr}
    (hop : ∀ ⦃s o r⦄, op s = some (o, r) →
      binaryBinding o = b ∧ NotDoubled o r ∧ s = o.symbol.toList ++ r)
    (hoperand : ∀ ⦃s e r⦄, operand s = some (e, r) → Phrase b.tighter s e r)
    {terms : List (BinaryOp × Expr)} (h : many (link op operand) s = some (terms, r)) :
    Terms b s terms r := by
  refine many_induction (motive := Terms b) (fun _ => .nil) ?_ h
  intro s term t terms r h hterms
  obtain ⟨g, u, hg, hs, h⟩ := blanks_bind h
  obtain ⟨o, v, ho, h⟩ := bind_eq_some h
  obtain ⟨hbinding, hdoubled, hu⟩ := hop ho
  obtain ⟨g', w, hg', hv, h⟩ := blanks_bind h
  obtain ⟨e, x, he, h⟩ := bind_eq_some h
  cases h
  rw [hv] at hdoubled
  rw [hs, hu, hv]
  exact .cons hbinding hg hg' hdoubled (hoperand he) hterms

namespace ReadsPhrases

theorem product (hn : ReadsPhrases nested) (h : product nested s = some (e, r)) :
    Phrase .product s e r := by
  obtain ⟨first, t, hfirst, h⟩ := bind_eq_some h
  obtain ⟨terms, u, hterms, h⟩ := bind_eq_some h
  cases h
  exact .product (hn.signed hfirst)
    (terms_of_many (fun _ _ _ => productOp_eq_some) (fun _ _ _ => hn.signed) hterms)

theorem sum (hn : ReadsPhrases nested) (h : sum nested s = some (e, r)) : Phrase .sum s e r := by
  obtain ⟨first, t, hfirst, h⟩ := bind_eq_some h
  obtain ⟨terms, u, hterms, h⟩ := bind_eq_some h
  cases h
  exact .sum (hn.product hfirst)
    (terms_of_many (fun _ _ _ => sumOp_eq_some) (fun _ _ _ => hn.product) hterms)

/-! ## Comparisons and negations -/

theorem links (hn : ReadsPhrases nested) {links : List (Comparator × Expr)}
    (h : many (link comparator (Expr.sum nested)) s = some (links, r)) : Links s links r := by
  refine many_induction (motive := Links) (fun _ => .nil) ?_ h
  intro s l t links r h hlinks
  obtain ⟨g, u, hg, hs, h⟩ := blanks_bind h
  obtain ⟨op, v, hop, h⟩ := bind_eq_some h
  obtain ⟨g', w, hg', hv, h⟩ := blanks_bind h
  obtain ⟨e, x, he, h⟩ := bind_eq_some h
  cases h
  rw [hs, comparator_eq_some hop, hv]
  exact .cons hg hg' (hn.sum he) hlinks

theorem comparison (hn : ReadsPhrases nested) (h : comparison nested s = some (e, r)) :
    Phrase .comparison s e r := by
  obtain ⟨first, t, hfirst, h⟩ := bind_eq_some h
  obtain ⟨links, u, hlinks, h⟩ := bind_eq_some h
  cases h
  exact .comparison (hn.sum hfirst) (hn.links hlinks)

theorem negated (hn : ReadsPhrases nested) (h : negated nested s = some (e, r)) :
    Phrase .negation s e r := by
  rcases orElse_eq_some h with h | h
  · obtain ⟨t, hs, hword, h⟩ := keyword_bind h
    obtain ⟨g, u, hg, ht, h⟩ := blanks_bind h
    obtain ⟨operand, v, hoperand, h⟩ := bind_eq_some h
    cases h
    rw [ht] at hword
    rw [hs, ht]
    exact .negated hg hword (hn.phrase hoperand)
  · exact .unnegated (hn.comparison h)

end ReadsPhrases

/-! ## Connectives -/

/-- What is read as the further operands of a connective are operands. -/
theorem operands_of_many {connective : Connective} {operand : Scan Expr}
    (hoperand : ∀ ⦃s e r⦄, operand s = some (e, r) →
      Phrase (connectiveBinding connective).tighter s e r)
    {rest : List Expr} (h : many (furtherOperand connective operand) s = some (rest, r)) :
    Operands connective s rest r := by
  refine many_induction (motive := Operands connective) (fun _ => .nil) ?_ h
  intro s e t rest r h hrest
  obtain ⟨g, u, hg, hs, h⟩ := blanks_bind h
  obtain ⟨v, hu, hword, h⟩ := keyword_bind h
  obtain ⟨g', w, hg', hv, h⟩ := blanks_bind h
  rw [hv] at hword
  rw [hs, hu, hv]
  exact .cons hg hg' hword (hoperand h) hrest

namespace ReadsPhrases

theorem conjunction (hn : ReadsPhrases nested) (h : conjunction nested s = some (e, r)) :
    Phrase .conjunction s e r := by
  obtain ⟨first, t, hfirst, h⟩ := bind_eq_some h
  obtain ⟨rest, u, hrest, h⟩ := bind_eq_some h
  cases h
  exact @Phrase.junction .and _ _ _ _ _ (hn.negated hfirst)
    (operands_of_many (fun _ _ _ => hn.negated) hrest)

theorem disjunction (hn : ReadsPhrases nested) (h : disjunction nested s = some (e, r)) :
    Phrase .disjunction s e r := by
  obtain ⟨first, t, hfirst, h⟩ := bind_eq_some h
  obtain ⟨rest, u, hrest, h⟩ := bind_eq_some h
  cases h
  exact @Phrase.junction .or _ _ _ _ _ (hn.conjunction hfirst)
    (operands_of_many (fun _ _ _ => hn.conjunction) hrest)

end ReadsPhrases

/-! ## References back -/

theorem readsPhrases_scanAt (depth : Nat) : ReadsPhrases (scanAt depth) := by
  refine ⟨takes_scanAt depth, ?_⟩
  induction depth with
  | zero => exact nofun
  | succ depth ih =>
    intro entry s e r h
    have hn : ReadsPhrases (scanAt depth) := ⟨takes_scanAt depth, ih⟩
    cases entry with
    | disjunction => exact hn.disjunction h
    | negated => exact hn.negated h
    | signed => exact hn.signed h

/-- **Only phrases are read.** -/
theorem phrase_of_scan (h : scan s = some (e, r)) : Phrase .disjunction s e r :=
  (readsPhrases_scanAt _).phrase h

end Expr

end PiecewiseLinear.Script
