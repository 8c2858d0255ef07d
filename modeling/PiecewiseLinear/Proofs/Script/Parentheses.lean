import PiecewiseLinear.Proofs.Script.Image

/-!
# Parentheses in print

No text that reads as an expression has fewer parentheses than the expression in print. So none
of those in print can go: without it the text no longer reads as the expression, whatever it
stands in and whatever it encloses.

- `Expr.parenthesesAt`: the parentheses in print where a binding is asked for, construct by
  construct.
- `Phrase.parenthesesAt_le`: every text of an expression has as many, by the grammar.
- `Expr.count_text_le`: every text that is read has as many.
- `Expr.parse_ne_without_pair`: what is left without a pair reads otherwise or not at all.
-/

namespace PiecewiseLinear.Script

variable {b b' : Binding} {s t r : List Char} {e : Expr}

/-! ## Parentheses in print -/

namespace Expr

/-- The parentheses that an expression in print opens. -/
def parentheses (e : Expr) : Nat := e.text.toList.count '('

/-- The tightest binding at which an expression stands without parentheses of its own. Names and
numbers are primaries; calls are not. -/
def level : Expr → Binding
  | ident _ | number _ => Binding.atom.tighter
  | e => e.binding

/-- The parentheses that an expression opens where a binding is asked for. -/
def parenthesesAt (b : Binding) (e : Expr) : Nat :=
  e.parentheses + if e.level.tightness < b.tightness then 1 else 0

theorem binding_le_level (e : Expr) : e.binding.tightness ≤ e.level.tightness := by
  cases e with
  | ident | number => exact Nat.le_succ _
  | unary | binary | compare | junction | call => exact Nat.le_refl _

/-- These are those in print, where nothing tighter than an atom is asked for. -/
theorem count_enclose (h : b.tightness ≤ Binding.atom.tightness) (e : Expr) :
    (b.enclose e.binding e.text).toList.count '(' = e.parenthesesAt b := by
  have hiff : e.level.tightness < b.tightness ↔ e.binding.tightness < b.tightness := by
    cases e with
    | ident | number => exact iff_of_false (by simp [level, Binding.tighter]; omega) (not_lt.mpr h)
    | unary | binary | compare | junction | call => exact Iff.rfl
  rw [parenthesesAt, parentheses, Binding.enclose, if_congr hiff rfl rfl]
  split_ifs
  · simp [Nat.add_comm]
  · rfl

theorem parenthesesAt_mono (h : b.tightness ≤ b'.tightness) :
    e.parenthesesAt b ≤ e.parenthesesAt b' := by
  rw [parenthesesAt, parenthesesAt]
  split_ifs <;> omega

/-- One pair is enough wherever an expression stands. -/
theorem parenthesesAt_le_succ (b : Binding) (e : Expr) : e.parenthesesAt b ≤ e.parentheses + 1 := by
  rw [parenthesesAt]
  split_ifs <;> omega

/-- No pair is needed where nothing tighter is asked for. -/
theorem parenthesesAt_of_le (h : b.tightness ≤ e.level.tightness) :
    e.parenthesesAt b = e.parentheses := by
  rw [parenthesesAt, if_neg (not_lt.mpr h), Nat.add_zero]

theorem parenthesesAt_disjunction (e : Expr) : e.parenthesesAt .disjunction = e.parentheses :=
  parenthesesAt_of_le (e.binding_pos.trans e.binding_le_level)

theorem count_spaced {symbol : String} (h : symbol.toList.count '(' = 0) (t : List Char) :
    (spaced symbol t).count '(' = t.count '(' := by
  simp [spaced, h]

theorem parentheses_unary (op : UnaryOp) (operand : Expr) :
    (unary op operand).parentheses = operand.parenthesesAt (unaryBinding op) := by
  have hsymbol : op.symbol.toList.count '(' = 0 := by cases op <;> rfl
  have hle : (unaryBinding op).tightness ≤ Binding.atom.tightness := by cases op <;> decide
  rw [parentheses, text, String.toList_append, List.count_append, hsymbol, Nat.zero_add,
    count_enclose hle]

/-- An operator has the parentheses of its two operands, with those that their places ask for. -/
theorem parentheses_binary (lhs : Expr) (op : BinaryOp) (rhs : Expr) :
    (binary lhs op rhs).parentheses =
      lhs.parenthesesAt (leftBinding op) + rhs.parenthesesAt (rightBinding op) := by
  have hsymbol : op.symbol.toList.count '(' = 0 := by rcases op with (_ | _ | _ | _) | _ | _ <;> rfl
  have hleft : (leftBinding op).tightness ≤ Binding.atom.tightness := by
    rcases op with (_ | _ | _ | _) | _ | _ <;> decide
  have hright : (rightBinding op).tightness ≤ Binding.atom.tightness := by
    rcases op with (_ | _ | _ | _) | _ | _ <;> decide
  rw [parentheses, toList_text_binary, List.count_append, count_spaced hsymbol,
    count_enclose hleft, count_enclose hright]

theorem parentheses_compare (first : Expr) (links : List (Comparator × Expr)) :
    (compare first links).parentheses =
      first.parenthesesAt .sum + (links.map fun l => l.2.parenthesesAt .sum).sum := by
  have hsymbol (op : Comparator) : op.symbol.toList.count '(' = 0 := by cases op <;> rfl
  have hle : Binding.sum.tightness ≤ Binding.atom.tightness := by decide
  rw [parentheses, toList_text_compare, List.count_append, List.count_flatMap, count_enclose hle]
  refine congrArg (_ + List.sum ·) (List.map_congr_left fun l _ => ?_)
  exact (count_spaced (hsymbol l.1) _).trans (count_enclose hle l.2)

/-- A junction has the parentheses of its operands, with those that their places ask for. -/
theorem parentheses_junction (connective : Connective) (first : Expr) (rest : List Expr) :
    (junction connective (first :: rest)).parentheses =
      first.parenthesesAt (connectiveBinding connective).tighter +
        (rest.map (parenthesesAt (connectiveBinding connective).tighter)).sum := by
  have hword : connective.word.toList.count '(' = 0 := by cases connective <;> rfl
  have hle : (connectiveBinding connective).tighter.tightness ≤ Binding.atom.tightness := by
    cases connective <;> decide
  rw [parentheses, toList_text_junction, List.count_append, List.count_flatMap, count_enclose hle]
  refine congrArg (_ + List.sum ·) (List.map_congr_left fun e _ => ?_)
  exact (count_spaced hword _).trans (count_enclose hle e)

theorem count_intercalate (texts : List (List Char)) :
    ([',', ' '].intercalate texts).count '(' = (texts.map (List.count '(')).sum := by
  cases texts with
  | nil => rfl
  | cons text texts =>
    rw [intercalate_cons, List.count_append, List.count_flatMap, List.map_cons, List.sum_cons]
    refine congrArg (_ + List.sum ·) (List.map_congr_left fun text _ => ?_)
    simp

/-- A call opens one pair of its own, for its arguments. -/
theorem parentheses_call (callee : Expr) (arguments : List Expr) :
    (call callee arguments).parentheses =
      callee.parenthesesAt .atom + ((arguments.map parentheses).sum + 1) := by
  rw [parentheses, toList_text_call, List.count_append, List.count_cons_self, List.count_append,
    count_intercalate, List.map_map, count_enclose (Nat.le_refl _)]
  rfl

/-! ### Numbers and names -/

theorem count_eq_zero_of_isWordChar (h : ∀ c ∈ s, isWordChar c = true) : s.count '(' = 0 := by
  rw [List.count_eq_zero]
  intro hmem
  cases h _ hmem

theorem parentheses_ident {name : String} (hname : IsIdentifier name) :
    (ident name).parentheses = 0 := by
  rw [parentheses, text]
  exact count_eq_zero_of_isWordChar hname.word

/-- A literal is printed in digits, or as a word where it is beyond all numbers. -/
theorem parentheses_number (d : Decimal) : (number d.toFloat).parentheses = 0 := by
  have hwellFormed := wellFormed_rereadNumber d
  rw [parentheses, ← text_reread, reread]
  by_cases hfinite : d.toFloat.isFinite = true
  · obtain ⟨c, s, hs, hc, hrest⟩ :=
      (isPositional_plain hfinite (Decimal.isNegative_toFloat d)).eq_cons
    rw [rereadNumber, if_pos hfinite, text, hs, List.count_eq_zero]
    rintro (_ | ⟨_, hmem⟩)
    · cases hc
    · rcases hrest _ hmem with hdigit | hpoint
      · cases hdigit
      · cases hpoint
  · rw [rereadNumber, if_neg hfinite] at hwellFormed ⊢
    cases hwellFormed with
    | ident hname => exact parentheses_ident hname

/-! ### Where the own binding is asked for -/

theorem parenthesesAt_unary (op : UnaryOp) (operand : Expr) :
    (unary op operand).parenthesesAt (unaryBinding op) =
      operand.parenthesesAt (unaryBinding op) :=
  (parenthesesAt_of_le (Nat.le_refl _)).trans (parentheses_unary op operand)

theorem parenthesesAt_signed {op : UnaryOp} (h : op = .neg ∨ op = .pos) (operand : Expr) :
    (unary op operand).parenthesesAt .sign = operand.parenthesesAt .sign := by
  obtain rfl | rfl := h
  · exact parenthesesAt_unary .neg operand
  · exact parenthesesAt_unary .pos operand

theorem parenthesesAt_binary (lhs : Expr) (op : BinaryOp) (rhs : Expr) :
    (binary lhs op rhs).parenthesesAt (binaryBinding op) =
      lhs.parenthesesAt (leftBinding op) + rhs.parenthesesAt (rightBinding op) :=
  (parenthesesAt_of_le (Nat.le_refl _)).trans (parentheses_binary lhs op rhs)

theorem parenthesesAt_compare (first : Expr) (links : List (Comparator × Expr)) :
    (compare first links).parenthesesAt .comparison =
      first.parenthesesAt .sum + (links.map fun l => l.2.parenthesesAt .sum).sum :=
  (parenthesesAt_of_le (Nat.le_refl _)).trans (parentheses_compare first links)

theorem parenthesesAt_junction (connective : Connective) (first : Expr) (rest : List Expr) :
    (junction connective (first :: rest)).parenthesesAt (connectiveBinding connective) =
      first.parenthesesAt (connectiveBinding connective).tighter +
        (rest.map (parenthesesAt (connectiveBinding connective).tighter)).sum :=
  (parenthesesAt_of_le (Nat.le_refl _)).trans (parentheses_junction connective first rest)

theorem parenthesesAt_call (callee : Expr) (arguments : List Expr) :
    (call callee arguments).parenthesesAt .atom =
      callee.parenthesesAt .atom + ((arguments.map parentheses).sum + 1) :=
  (parenthesesAt_of_le (Nat.le_refl _)).trans (parentheses_call callee arguments)

theorem parenthesesAt_ident {name : String} (hname : IsIdentifier name) :
    (ident name).parenthesesAt Binding.atom.tighter = 0 :=
  (parenthesesAt_of_le (Nat.le_refl _)).trans (parentheses_ident hname)

theorem parenthesesAt_number (d : Decimal) :
    (number d.toFloat).parenthesesAt Binding.atom.tighter = 0 :=
  (parenthesesAt_of_le (Nat.le_refl _)).trans (parentheses_number d)

/-! ### Repeated parts -/

/-- Joining operands adds no parentheses to those in the places of the operands. -/
theorem parenthesesAt_joined (connective : Connective) (first : Expr) (rest : List Expr) :
    (joined connective first rest).parenthesesAt (connectiveBinding connective) ≤
      first.parenthesesAt (connectiveBinding connective).tighter +
        (rest.map (parenthesesAt (connectiveBinding connective).tighter)).sum := by
  cases rest with
  | nil => exact parenthesesAt_mono (Nat.le_succ _)
  | cons second rest =>
    rw [joined, parenthesesAt_junction]
    exact List.cons_ne_nil second rest

theorem parenthesesAt_chained (first : Expr) (links : List (Comparator × Expr)) :
    (chained first links).parenthesesAt .comparison ≤
      first.parenthesesAt .sum + (links.map fun l => l.2.parenthesesAt .sum).sum := by
  cases links with
  | nil => exact parenthesesAt_mono (by decide)
  | cons l links =>
    rw [chained, parenthesesAt_compare]
    exact List.cons_ne_nil l links

/-- Operators that group to the left need no parentheses on that side. -/
theorem parenthesesAt_grouped (first : Expr) (terms : List (BinaryOp × Expr))
    (h : ∀ t ∈ terms, leftBinding t.1 = b ∧ rightBinding t.1 = b.tighter ∧ binaryBinding t.1 = b) :
    (grouped first terms).parenthesesAt b ≤
      first.parenthesesAt b + (terms.map fun t => t.2.parenthesesAt b.tighter).sum := by
  induction terms generalizing first with
  | nil => exact Nat.le_refl _
  | cons t terms ih =>
    obtain ⟨⟨hleft, hright, hbinding⟩, hterms⟩ := List.forall_mem_cons.mp h
    have hfirst : (binary first t.1 t.2).parenthesesAt b =
        first.parenthesesAt b + t.2.parenthesesAt b.tighter := by
      rw [← hbinding, parenthesesAt_binary, hleft, hright, hbinding]
    have hrest := ih (binary first t.1 t.2) hterms
    rw [hfirst] at hrest
    rw [List.map_cons, List.sum_cons, ← Nat.add_assoc]
    exact hrest

/-- Each call adds one opening parenthesis to those of its arguments. -/
theorem parenthesesAt_calls (callee : Expr) (calls : List (List Expr)) :
    (calls.foldl call callee).parenthesesAt .atom ≤
      callee.parenthesesAt .atom +
        (calls.map fun arguments => (arguments.map parentheses).sum + 1).sum := by
  induction calls generalizing callee with
  | nil => exact Nat.le_refl _
  | cons arguments calls ih =>
    have hrest := ih (call callee arguments)
    rw [parenthesesAt_call] at hrest
    rw [List.foldl_cons, List.map_cons, List.sum_cons, ← Nat.add_assoc]
    exact hrest

end Expr

/-! ## Parentheses in texts -/

/-- What stands in front of a text adds to its parentheses. -/
theorem count_le_append (s t : List Char) : t.count '(' ≤ (s ++ t).count '(' := by
  rw [List.count_append]
  exact Nat.le_add_left _ _

theorem Terms.binaryBinding_eq {terms : List (BinaryOp × Expr)} (h : Terms b s terms r) :
    ∀ t ∈ terms, binaryBinding t.1 = b := by
  induction terms generalizing s with
  | nil => exact List.forall_mem_nil _
  | cons t terms ih =>
    cases h with
    | cons hop _ _ _ _ hterms => exact List.forall_mem_cons.mpr ⟨hop, ih hterms⟩

/-- The operators of a sum or a product group to the left. -/
theorem groups_of_binaryBinding {op : BinaryOp} (h : binaryBinding op = b) (hpow : op ≠ .pow) :
    leftBinding op = b ∧ rightBinding op = b.tighter ∧ binaryBinding op = b := by
  subst h
  cases op with
  | arith | mod => exact ⟨rfl, rfl, rfl⟩
  | pow => exact absurd rfl hpow

/-- Grouping terms to the left adds no parentheses: each left operand binds as its place asks
for. -/
theorem Terms.parenthesesAt_grouped {terms : List (BinaryOp × Expr)} (h : Terms b s terms r)
    (hb : b ≠ .power) (first : Expr) :
    (Expr.grouped first terms).parenthesesAt b ≤
      first.parenthesesAt b + (terms.map fun t => t.2.parenthesesAt b.tighter).sum := by
  refine Expr.parenthesesAt_grouped first terms fun t ht => ?_
  have hop := h.binaryBinding_eq t ht
  refine groups_of_binaryBinding hop ?_
  rintro hpow
  rw [hpow] at hop
  exact hb hop.symm

/-- What stands in front of an operand adds to its parentheses. -/
theorem count_le_operand (g symbol g' t : List Char) :
    t.count '(' ≤ (g ++ (symbol ++ (g' ++ t))).count '(' :=
  (count_le_append g' t).trans ((count_le_append symbol _).trans (count_le_append g _))

/-- One part of a text behind another. -/
theorem add_count_le {m n : Nat} (h : m + t.count '(' ≤ s.count '(')
    (h' : n + r.count '(' ≤ t.count '(') : m + n + r.count '(' ≤ s.count '(' := by
  omega

/-- A pair in a text adds one to the parentheses of what it encloses. -/
theorem enclosed_count_le {n : Nat} (g w w' : List Char)
    (h : n + (w' ++ ')' :: r).count '(' ≤ s.count '(') :
    n + 1 + r.count '(' ≤ (g ++ '(' :: (w ++ s)).count '(' := by
  have hclosed : r.count '(' ≤ (w' ++ ')' :: r).count '(' := count_le_operand w' [')'] [] r
  have hopened : s.count '(' + 1 ≤ (g ++ '(' :: (w ++ s)).count '(' := by
    simp only [List.count_append, List.count_cons_self]
    omega
  omega

theorem parentheses_add_le (h : e.parenthesesAt .disjunction + r.count '(' ≤ s.count '(') :
    e.parentheses + r.count '(' ≤ s.count '(' := by
  rwa [Expr.parenthesesAt_disjunction] at h

theorem parenthesesAt_add_le (h : b.tightness ≤ b'.tightness)
    (hle : e.parenthesesAt b' + r.count '(' ≤ s.count '(') :
    e.parenthesesAt b + r.count '(' ≤ s.count '(' :=
  (Nat.add_le_add_right (Expr.parenthesesAt_mono h) _).trans hle

mutual

/-- **A text of an expression has as many parentheses as the expression in print**, where the same
binding is asked for. -/
theorem Phrase.parenthesesAt_le {b : Binding} {s r : List Char} {e : Expr}
    (h : Phrase b s e r) : e.parenthesesAt b + r.count '(' ≤ s.count '(' := by
  match h with
  | .junction hfirst hrest =>
    refine (Nat.add_le_add_right (Expr.parenthesesAt_joined _ _ _) _).trans ?_
    exact add_count_le hfirst.parenthesesAt_le hrest.parenthesesAt_le
  | .negated _ _ h =>
    refine (Nat.add_le_add_right (Expr.parenthesesAt_unary .not _).le _).trans ?_
    exact h.parenthesesAt_le.trans ((count_le_append _ _).trans (count_le_append _ _))
  | .unnegated h => exact parenthesesAt_add_le (by decide) h.parenthesesAt_le
  | .comparison hfirst hlinks =>
    refine (Nat.add_le_add_right (Expr.parenthesesAt_chained _ _) _).trans ?_
    exact add_count_le hfirst.parenthesesAt_le hlinks.parenthesesAt_le
  | .sum hfirst hterms =>
    refine (Nat.add_le_add_right (hterms.parenthesesAt_grouped (by decide) _) _).trans ?_
    exact add_count_le (parenthesesAt_add_le (by decide) hfirst.parenthesesAt_le)
      hterms.parenthesesAt_le
  | .product hfirst hterms =>
    refine (Nat.add_le_add_right (hterms.parenthesesAt_grouped (by decide) _) _).trans ?_
    exact add_count_le (parenthesesAt_add_le (by decide) hfirst.parenthesesAt_le)
      hterms.parenthesesAt_le
  | .signed hop _ h =>
    refine (Nat.add_le_add_right (Expr.parenthesesAt_signed hop _).le _).trans ?_
    exact h.parenthesesAt_le.trans ((count_le_append _ _).trans (count_le_append _ _))
  | .unsigned h => exact parenthesesAt_add_le (by decide) h.parenthesesAt_le
  | .power _ _ hbase hexponent =>
    refine (Nat.add_le_add_right (Expr.parenthesesAt_binary _ .pow _).le _).trans ?_
    exact add_count_le hbase.parenthesesAt_le
      (hexponent.parenthesesAt_le.trans (count_le_operand _ _ _ _))
  | .unraised h => exact parenthesesAt_add_le (by decide) h.parenthesesAt_le
  | .called hcallee hcalls =>
    refine (Nat.add_le_add_right (Expr.parenthesesAt_calls _ _) _).trans ?_
    exact add_count_le (parenthesesAt_add_le (by decide) hcallee.parenthesesAt_le)
      hcalls.parenthesesAt_le
  | .parenthesized _ _ h =>
    -- the pair of the text makes up for the one in print, if there is one
    refine (Nat.add_le_add_right (Expr.parenthesesAt_le_succ _ _) _).trans ?_
    exact enclosed_count_le [] _ _ (parentheses_add_le h.parenthesesAt_le)
  | .number _ =>
    rw [Expr.parenthesesAt_number, Nat.zero_add]
    exact count_le_append _ _
  | .ident hname _ =>
    rw [Expr.parenthesesAt_ident hname, Nat.zero_add]
    exact count_le_append _ _

theorem Operands.parenthesesAt_le {connective : Connective} {s r : List Char}
    {rest : List Expr} (h : Operands connective s rest r) :
    (rest.map (Expr.parenthesesAt (connectiveBinding connective).tighter)).sum + r.count '(' ≤
      s.count '(' := by
  match h with
  | .nil => exact (Nat.zero_add _).le
  | .cons _ _ _ h hrest =>
    exact (add_count_le h.parenthesesAt_le hrest.parenthesesAt_le).trans (count_le_operand _ _ _ _)

theorem Links.parenthesesAt_le {s r : List Char} {links : List (Comparator × Expr)}
    (h : Links s links r) :
    (links.map fun l => l.2.parenthesesAt .sum).sum + r.count '(' ≤ s.count '(' := by
  match h with
  | .nil => exact (Nat.zero_add _).le
  | .cons _ _ h hlinks =>
    exact (add_count_le h.parenthesesAt_le hlinks.parenthesesAt_le).trans (count_le_operand _ _ _ _)

/-- The terms of a sum or a product have no more parentheses than the text that they are read
from. -/
theorem Terms.parenthesesAt_le {b : Binding} {s r : List Char} {terms : List (BinaryOp × Expr)}
    (h : Terms b s terms r) :
    (terms.map fun t => t.2.parenthesesAt b.tighter).sum + r.count '(' ≤ s.count '(' := by
  match h with
  | .nil => exact (Nat.zero_add _).le
  | .cons _ _ _ _ h hterms =>
    exact (add_count_le h.parenthesesAt_le hterms.parenthesesAt_le).trans (count_le_operand _ _ _ _)

theorem Calls.parenthesesAt_le {s r : List Char} {calls : List (List Expr)}
    (h : Calls s calls r) :
    (calls.map fun arguments => (arguments.map Expr.parentheses).sum + 1).sum + r.count '(' ≤
      s.count '(' := by
  match h with
  | .nil => exact (Nat.zero_add _).le
  | .cons (g := g) _ _ _ harguments hcalls =>
    exact add_count_le (enclosed_count_le g _ _ harguments.parentheses_le) hcalls.parenthesesAt_le

theorem Arguments.parentheses_le {s r : List Char} {arguments : List Expr}
    (h : Arguments s arguments r) :
    (arguments.map Expr.parentheses).sum + r.count '(' ≤ s.count '(' := by
  match h with
  | .none => exact (Nat.zero_add _).le
  | .some hfirst hrest =>
    exact add_count_le (parentheses_add_le hfirst.parenthesesAt_le) hrest.parentheses_le
  | .trailing (g := g) _ hfirst hrest =>
    refine (Nat.add_le_add_left (count_le_operand g [','] [] _) _).trans ?_
    exact add_count_le (parentheses_add_le hfirst.parenthesesAt_le) hrest.parentheses_le

theorem FurtherArguments.parentheses_le {s r : List Char} {rest : List Expr}
    (h : FurtherArguments s rest r) :
    (rest.map Expr.parentheses).sum + r.count '(' ≤ s.count '(' := by
  match h with
  | .nil => exact (Nat.zero_add _).le
  | .cons (g := g) _ _ h hrest =>
    refine (add_count_le (parentheses_add_le h.parenthesesAt_le) hrest.parentheses_le).trans ?_
    exact count_le_operand g [','] _ _

end

/-! ## Texts that are read -/

theorem trimBlank_sublist (s : List Char) : List.Sublist (trimBlank s) s := by
  have hend := (List.dropWhile_sublist isBlank (l := (s.dropWhile isBlank).reverse)).reverse
  rw [List.reverse_reverse] at hend
  exact hend.trans (List.dropWhile_sublist isBlank)

/-- Every text that is read as an expression has as many parentheses as the expression in
print. -/
theorem Expr.count_text_le {source : String} (h : Expr.parse source = .ok e) :
    e.text.toList.count '(' ≤ source.toList.count '(' := by
  have hphrase := parentheses_add_le (Expr.parse_eq_ok_iff.mp h).parenthesesAt_le
  exact hphrase.trans ((trimBlank_sublist source.toList).count_le '(')

/-- **No pair of parentheses in print can go.** What is left of an expression in print without an
opening parenthesis and a closing one behind it is read as another expression or not at all. -/
theorem Expr.parse_ne_without_pair (e : Expr) (s t u : List Char)
    (htext : e.text.toList = s ++ '(' :: (t ++ ')' :: u)) :
    Expr.parse (String.ofList (s ++ (t ++ u))) ≠ .ok e := by
  intro hparse
  have hle := Expr.count_text_le hparse
  rw [htext, String.toList_ofList] at hle
  simp only [List.count_append, List.count_cons_self] at hle
  have hclosing : u.count '(' ≤ (')' :: u).count '(' := List.count_le_count_cons
  omega

/-- Without its only pair of parentheses, a product of a sum and a number reads as another sum. -/
theorem Expr.parse_ne_without_pair_sum :
    (binary (binary (ident "x") (.arith .add) (number 1)) (.arith .mul) (number 2)).text =
      "(x + 1) * 2" ∧
    Expr.parse "x + 1 * 2" ≠
      .ok (binary (binary (ident "x") (.arith .add) (number 1)) (.arith .mul) (number 2)) := by
  have htext : (binary (binary (ident "x") (.arith .add) (number 1)) (.arith .mul)
      (number 2)).text = "(x + 1) * 2" := by decide +kernel
  refine ⟨htext, Expr.parse_ne_without_pair _ [] "x + 1".toList " * 2".toList ?_⟩
  rw [htext]
  rfl

end PiecewiseLinear.Script
