import PiecewiseLinear.Proofs.Script.Level

/-!
# Reading what is written

The texts of expressions are described apart from the readers, with operators spaced as in print
and with as many parentheses as one likes. The readers read every one of them as the expression
that it is a text of.

- `Expr.Written`: the texts of an expression where a binding is asked for.
- `Stops` in front of the pieces that may follow an operand.
- `Expr.Reads`: what reading does to a text that other text follows, one lemma for each way of
  writing an expression.
- `Expr.reads_of_written`, `Expr.scan_of_written`: readers read what is written.
-/

namespace PiecewiseLinear.Script

open Scan

variable {nested : Nested} {b : Binding} {s t r : List Char} {e : Expr} {depth : Nat}

/-! ## Operators between blanks -/

/-- An operator between blanks in front of the text of its right operand. -/
def spaced (symbol : String) (text : List Char) : List Char :=
  ' ' :: (symbol.toList ++ ' ' :: text)

theorem spaced_append (symbol : String) (text rest : List Char) :
    spaced symbol text ++ rest = spaced symbol (text ++ rest) := by
  simp [spaced]

theorem length_lt_spaced (symbol : String) (text : List Char) :
    text.length + 2 ≤ (spaced symbol text).length := by
  simp only [spaced, List.length_append, List.length_cons]
  omega

namespace Expr

/-! ## Texts of expressions -/

/-- The texts of an expression where a binding is asked for. -/
inductive Written : Binding → List Char → Expr → Prop where
  | ident {name : String} (hname : IsIdentifier name) :
      Written Binding.atom.tighter name.toList (ident name)
  | number {v : Float} (hfinite : v.isFinite = true) (hsign : Double.isNegative v = false) :
      Written Binding.atom.tighter (plain v).toList (number v)
  | parenthesized {s : List Char} {e : Expr} (h : Written .disjunction s e) :
      Written Binding.atom.tighter ('(' :: (s ++ [')'])) e
  | looser {b : Binding} {s : List Char} {e : Expr} (h : Written b.tighter s e) : Written b s e
  | unary {op : UnaryOp} {s : List Char} {e : Expr} (h : Written (unaryBinding op) s e) :
      Written (unaryBinding op) (op.symbol.toList ++ s) (unary op e)
  | binary {op : BinaryOp} {s t : List Char} {lhs rhs : Expr} (hlhs : Written (leftBinding op) s lhs)
      (hrhs : Written (rightBinding op) t rhs) :
      Written (binaryBinding op) (s ++ spaced op.symbol t) (binary lhs op rhs)
  | compare {s : List Char} {first : Expr} {links : List (Comparator × List Char × Expr)}
      (hfirst : Written .sum s first) (hne : links ≠ [])
      (hlinks : ∀ l ∈ links, Written .sum l.2.1 l.2.2) :
      Written .comparison (s ++ links.flatMap fun l => spaced l.1.symbol l.2.1)
        (compare first (links.map fun l => (l.1, l.2.2)))
  | junction {connective : Connective} {s : List Char} {first : Expr}
      {rest : List (List Char × Expr)}
      (hfirst : Written (connectiveBinding connective).tighter s first) (hne : rest ≠ [])
      (hrest : ∀ p ∈ rest, Written (connectiveBinding connective).tighter p.1 p.2) :
      Written (connectiveBinding connective)
        (s ++ rest.flatMap fun p => spaced connective.word p.1)
        (junction connective (first :: rest.map (·.2)))
  | call {s : List Char} {callee : Expr} {arguments : List (List Char × Expr)}
      (hcallee : Written .atom s callee)
      (harguments : ∀ p ∈ arguments, Written .disjunction p.1 p.2) :
      Written .atom (s ++ '(' :: ([',', ' '].intercalate (arguments.map (·.1)) ++ [')']))
        (call callee (arguments.map (·.2)))

/-- A text that is written for a binding is written for looser ones. -/
theorem Written.of_le {b' : Binding} (h : Written b' s e) (hle : b.tightness ≤ b'.tightness) :
    Written b s e := by
  obtain ⟨n, hn⟩ := Nat.exists_eq_add_of_le hle
  obtain rfl : b' = ⟨b.tightness + n⟩ := congrArg Binding.mk hn
  clear hle hn
  induction n with
  | zero => exact h
  | succ n ih => exact ih (looser h)

end Expr

/-! ## What may follow an operand -/

theorem endsLexeme_cons {c : Char} (hword : isWordChar c = false) (hpoint : c ≠ '.') :
    EndsLexeme (c :: s) := by
  intro d hd
  obtain rfl := Option.some.inj hd
  exact ⟨hword, hpoint⟩

/-- Tighter readers stop in front of an operator. -/
theorem stops_operator (op : BinaryOp) (s : List Char) :
    Stops (binaryBinding op).tighter (spaced op.symbol s) := by
  -- no other operator reads so, and its own is not asked for
  rcases op with (_ | _ | _ | _) | _ | _ <;>
    refine ⟨endsLexeme_cons (by decide) (by decide), ?_, ?_, ?_, ?_, ?_,
      fun connective _ => by cases connective <;> rfl⟩ <;>
    first | exact fun _ => rfl | exact fun h => absurd h (by decide)

theorem stops_comparator (op : Comparator) (s : List Char) :
    Stops .sum (spaced op.symbol s) := by
  cases op <;>
    refine ⟨endsLexeme_cons (by decide) (by decide), fun _ => rfl, fun _ => rfl, fun _ => rfl,
      fun _ => rfl, fun h => absurd h (by decide), fun connective _ => by cases connective <;> rfl⟩

theorem stops_connective (connective : Connective) (s : List Char) :
    Stops (connectiveBinding connective).tighter (spaced connective.word s) := by
  cases connective <;>
    refine ⟨endsLexeme_cons (by decide) (by decide), fun _ => rfl, fun _ => rfl, fun _ => rfl,
      fun _ => rfl, fun _ => rfl, ?_⟩ <;>
    rintro (_ | _) h <;>
    first | rfl | exact absurd h (by decide)

/-- Whether a character closes what stands in front of it. -/
def closes (c : Char) : Bool := c = ')' || c = ',' || c = ':' || c = '\n'

/-- All readers stop in front of a character that closes what stands in front of it. -/
theorem stops_of_closes {c : Char} (h : closes c = true) (b : Binding) (s : List Char) :
    Stops b (c :: s) := by
  simp only [closes, Bool.or_eq_true, decide_eq_true_eq] at h
  rcases h with ((rfl | rfl) | rfl) | rfl <;>
    exact ⟨endsLexeme_cons (by decide) (by decide), fun _ => rfl, fun _ => rfl, fun _ => rfl,
      fun _ => rfl, fun _ => rfl, fun connective _ => by cases connective <;> rfl⟩

theorem stops_nil (b : Binding) : Stops b [] :=
  ⟨nofun, fun _ => rfl, fun _ => rfl, fun _ => rfl, fun _ => rfl, fun _ => rfl,
    fun connective _ => by cases connective <;> rfl⟩

/-- An exponent takes no more than the power that it stands in. -/
theorem Stops.sign (h : Stops .power r) : Stops .sign r where
  ends := h.ends
  call _ := h.call (by decide)
  power _ := h.power (by decide)
  product hb := absurd hb (by decide)
  sum hb := absurd hb (by decide)
  comparison hb := absurd hb (by decide)
  junction connective hb := by cases connective <;> exact absurd hb (by decide)

/-- Whether operators of a binding group to the left: what has been read before one of them is
its left operand. -/
def groupsLeft (b : Binding) : Bool := b = .sum || b = .product || b = .atom

/-- A text may follow what is written where a binding is asked for. An operator that takes it for
its left operand may do so. -/
def Follows (b : Binding) (r : List Char) : Prop := Stops (if groupsLeft b then b.tighter else b) r

theorem Stops.follows (h : Stops b r) : Follows b r := by
  unfold Follows
  split_ifs
  · exact h.mono (Nat.le_succ _)
  · exact h

theorem Follows.stops (h : Follows b r) : Stops b.tighter r := by
  unfold Follows at h
  split_ifs at h
  · exact h
  · exact h.mono (Nat.le_succ _)

namespace Expr

/-! ## Reading what is written -/

/-- Reading a text where other text follows gives the expression, and it goes on from there. -/
def Reads (b : Binding) (s : List Char) (e : Expr) : Prop :=
  ∀ ⦃depth r⦄, s.length ≤ depth → Follows b r →
    reader (scanAt depth) b (s ++ r) = goOn (scanAt depth) b e r

/-- The binding that a reference back to the grammar asks for. -/
def entryBinding : Entry → Binding
  | .disjunction => .disjunction
  | .negated => .negation
  | .signed => .sign

/-- What begins a name begins neither parentheses nor a number. -/
theorem ne_of_isWordStart {c : Char} (h : isWordStart c = true) :
    c ≠ '(' ∧ c.isDigit = false ∧ c ≠ '.' := by
  refine ⟨?_, ?_, ?_⟩
  · rintro rfl
    cases h
  · by_contra hdigit
    simp only [isWordStart, Char.isAlpha, Char.isUpper, Char.isLower, Char.isDigit] at h hdigit
    simp only [UInt32.le_iff_toNat_le, Bool.or_eq_true, Bool.and_eq_true, decide_eq_true_eq,
      Bool.not_eq_false] at h hdigit
    rcases h with (h | h) | rfl
    · exact absurd h.1 (not_le.mpr (hdigit.2.trans_lt (by decide)))
    · exact absurd h.1 (not_le.mpr (hdigit.2.trans_lt (by decide)))
    · exact absurd hdigit.2 (by decide)
  · rintro rfl
    cases h

theorem blanks_eq (h : skipBlanks s = t) : blanks s = some ((), t) := by rw [blanks, h]

theorem layout_eq (h : skipLayout s = t) : layout s = some ((), t) := by rw [layout, h]

namespace Reads

theorem eq (h : Reads b s e) (hdepth : s.length ≤ depth) (hstops : Stops b r) :
    reader (scanAt depth) b (s ++ r) = some (e, r) :=
  (h hdepth hstops.follows).trans (goOn_of_stops hstops e)

theorem scanAt_eq (entry : Entry) (h : Reads (entryBinding entry) s e) (hdepth : s.length < depth)
    (hstops : Stops (entryBinding entry) r) : scanAt depth entry (s ++ r) = some (e, r) := by
  obtain ⟨depth, rfl⟩ := Nat.exists_eq_add_one_of_ne_zero (Nat.ne_zero_of_lt hdepth)
  have heq := h.eq (Nat.le_of_lt_succ hdepth) hstops
  cases entry <;> exact heq

/-- Nothing is skipped in front of what can be read. -/
theorem skipBlanks_append (h : Reads b s e) (hstops : Stops b r) :
    skipBlanks (s ++ r) = s ++ r :=
  skipBlanks_of_startsExpr (startsExpr_of_reader (h.eq le_rfl hstops))

theorem skipLayout_append (h : Reads b s e) (hstops : Stops b r) :
    skipLayout (s ++ r) = s ++ r :=
  skipLayout_of_startsExpr (startsExpr_of_reader (h.eq le_rfl hstops))

theorem looser (h : Reads b.tighter s e) : Reads b s e :=
  fun _ _ hdepth hfollows => reader_of_tighter (h.eq hdepth hfollows.stops)

/-- A name is read as that name. -/
theorem ident {name : String} (hname : IsIdentifier name) :
    Reads Binding.atom.tighter name.toList (ident name) := by
  intro depth r _ hfollows
  have hhead : ∀ c ∈ (name.toList ++ r).head?, isWordStart c = true := by
    obtain ⟨c, hc, hstart⟩ := hname.start
    simp_all
  have hstart := fun c hc => ne_of_isWordStart (hhead c hc)
  have hident := ident?_append hname hfollows.stops.ends.continuesWord
  show primary (scanAt depth) (name.toList ++ r) = some (Expr.ident name, r)
  rw [primary_of_not_parenthesized fun c hc => (hstart c hc).1,
    orElse_of_none (number?_eq_none fun c hc => (hstart c hc).2), name?, hident, Option.map_some]

/-- A number in print is read as that number. -/
theorem number {v : Float} (hfinite : v.isFinite = true) (hsign : Double.isNegative v = false) :
    Reads Binding.atom.tighter (plain v).toList (number v) := by
  intro depth r _ hfollows
  obtain ⟨c, s, hs, hdigit, -⟩ := (isPositional_plain hfinite hsign).eq_cons
  have hhead : ∀ c ∈ ((plain v).toList ++ r).head?, c ≠ '(' := by
    rintro d hd rfl
    rw [hs] at hd
    cases hd
    cases hdigit
  obtain ⟨d, hscan, hvalue⟩ := scan_plain hfinite hsign hfollows.stops.ends.endsLiteral
  have hnumber : number? ((plain v).toList ++ r) = some (Expr.number v, r) := by
    rw [number?, hscan, ← hvalue]
    rfl
  show primary (scanAt depth) ((plain v).toList ++ r) = some (Expr.number v, r)
  rw [primary_of_not_parenthesized hhead, orElse_of_some hnumber]

/-- What is read in parentheses is read as it is without them. -/
theorem parenthesized (h : Reads .disjunction s e) :
    Reads Binding.atom.tighter ('(' :: (s ++ [')'])) e := by
  intro depth r hdepth _
  have hstops : Stops .disjunction (')' :: r) := stops_of_closes rfl _ _
  have hinner : scanAt depth .disjunction (s ++ ')' :: r) = some (e, ')' :: r) :=
    scanAt_eq .disjunction h (by simp at hdepth; omega) hstops
  have hblock : Expr.parenthesized (scanAt depth) ('(' :: (s ++ ')' :: r)) = some (e, r) :=
    (bind_of_some rfl).trans ((bind_of_some (layout_eq (h.skipLayout_append hstops))).trans
      ((bind_of_some hinner).trans rfl))
  rw [List.cons_append, List.append_assoc]
  exact orElse_of_some hblock

/-- An operator in front of what is read as its operand is read with it. -/
theorem unary {op : UnaryOp} (h : Reads (unaryBinding op) s e) :
    Reads (unaryBinding op) (op.symbol.toList ++ s) (unary op e) := by
  intro depth r hdepth hfollows
  rw [List.length_append] at hdepth
  -- the operand is one step deeper, for which the character of the operator makes up
  cases op with
  | neg =>
    have hstops : Stops .sign r := hfollows
    have hoperand : scanAt depth .signed (s ++ r) = some (e, r) :=
      scanAt_eq .signed h (Nat.lt_of_lt_of_le (Nat.lt_add_of_pos_left Nat.one_pos) hdepth) hstops
    exact orElse_of_some ((bind_of_some rfl).trans
      ((bind_of_some (blanks_eq (h.skipBlanks_append hstops))).trans (bind_of_some hoperand)))
  | pos =>
    have hstops : Stops .sign r := hfollows
    have hoperand : scanAt depth .signed (s ++ r) = some (e, r) :=
      scanAt_eq .signed h (Nat.lt_of_lt_of_le (Nat.lt_add_of_pos_left Nat.one_pos) hdepth) hstops
    exact (orElse_of_none rfl).trans (orElse_of_some ((bind_of_some rfl).trans
      ((bind_of_some (blanks_eq (h.skipBlanks_append hstops))).trans (bind_of_some hoperand))))
  | not =>
    have hstops : Stops .negation r := hfollows
    have hoperand : scanAt depth .negated (s ++ r) = some (e, r) :=
      scanAt_eq .negated h
        (Nat.lt_of_lt_of_le (Nat.lt_add_of_pos_left (Nat.succ_pos 3)) hdepth) hstops
    have hblanks : blanks (' ' :: (s ++ r)) = some ((), s ++ r) :=
      blanks_eq (h.skipBlanks_append hstops)
    exact orElse_of_some ((bind_of_some rfl).trans
      ((bind_of_some hblanks).trans (bind_of_some hoperand)))

/-- An operator and its operand behind what has been read for its left operand. -/
theorem goOn_operator {op : BinaryOp} {lhs rhs : Expr} (hop : op ≠ .pow)
    (h : reader (scanAt depth) (binaryBinding op).tighter s = some (rhs, r)) :
    goOn (scanAt depth) (binaryBinding op) lhs (spaced op.symbol s) =
      goOn (scanAt depth) (binaryBinding op) (.binary lhs op rhs) r := by
  have htakes := takes_scanAt depth
  have hskip : skipBlanks (' ' :: s) = s := skipBlanks_of_startsExpr (startsExpr_of_reader h)
  have hskip' : reader (scanAt depth) (binaryBinding op).tighter (skipBlanks (' ' :: s)) =
    some (rhs, r) := by rw [hskip, h]
  match op with
  | .arith .add | .arith .sub =>
    exact bind_many_of_some (takes_link takes_sumOp (takes_product htakes))
      (link_of_some rfl hskip') _
  | .arith .mul | .arith .div | .mod =>
    exact bind_many_of_some (takes_link takes_productOp (takes_signed htakes))
      (link_of_some rfl hskip') _
  | .pow => exact absurd rfl hop

/-- A base and an exponent with the operator between them are read as a power. -/
theorem power {base exponent : Expr} (hbase : Reads .atom s base)
    (hexponent : Reads .sign t exponent) :
    Reads .power (s ++ spaced BinaryOp.pow.symbol t) (.binary base .pow exponent) := by
  intro depth r hdepth hfollows
  have hstops : Stops .power r := hfollows
  have hlength := length_lt_spaced BinaryOp.pow.symbol t
  rw [List.length_append] at hdepth
  have hsigned : scanAt depth .signed (t ++ r) = some (exponent, r) :=
    scanAt_eq .signed hexponent (by omega) hstops.sign
  have hblanks : blanks (' ' :: (t ++ r)) = some ((), t ++ r) :=
    blanks_eq (hexponent.skipBlanks_append hstops.sign)
  have hfound : Expr.exponent (scanAt depth) (spaced BinaryOp.pow.symbol (t ++ r)) =
      some (exponent, r) :=
    (bind_of_some rfl).trans ((bind_of_some rfl).trans ((bind_of_some hblanks).trans hsigned))
  rw [List.append_assoc, spaced_append]
  calc reader (scanAt depth) .power (s ++ spaced BinaryOp.pow.symbol (t ++ r))
      = goOn (scanAt depth) .power base (spaced BinaryOp.pow.symbol (t ++ r)) :=
        reader_of_tighter (hbase.eq (by omega) (stops_operator .pow (t ++ r)))
    _ = some (.binary base .pow exponent, r) := bind_of_some (optional_of_some hfound)
    _ = goOn (scanAt depth) .power (.binary base .pow exponent) r := (goOn_of_stops hstops _).symm

/-- Two operands with an operator between them are read together. The operators other than powers
group to the left, so reading goes on behind the right operand as behind an operand. -/
theorem binary {op : BinaryOp} {lhs rhs : Expr} (hlhs : Reads (leftBinding op) s lhs)
    (hrhs : Reads (rightBinding op) t rhs) :
    Reads (binaryBinding op) (s ++ spaced op.symbol t) (.binary lhs op rhs) := by
  by_cases hop : op = .pow
  · subst hop
    exact power hlhs hrhs
  -- the other operators group to the left, so each may follow its own left operand
  have hleft : leftBinding op = binaryBinding op := by cases op <;> first | rfl | contradiction
  have hright : rightBinding op = (binaryBinding op).tighter := by
    cases op <;> first | rfl | contradiction
  have hgroups : groupsLeft (binaryBinding op) = true := by
    rcases op with (_ | _ | _ | _) | _ | _ <;> first | rfl | contradiction
  rw [hleft] at hlhs
  rw [hright] at hrhs
  intro depth r hdepth hfollows
  have hlength := length_lt_spaced op.symbol t
  rw [List.length_append] at hdepth
  have hfollows' : Follows (binaryBinding op) (spaced op.symbol (t ++ r)) := by
    rw [Follows, if_pos hgroups]
    exact stops_operator op (t ++ r)
  rw [List.append_assoc, spaced_append]
  calc reader (scanAt depth) (binaryBinding op) (s ++ spaced op.symbol (t ++ r))
      = goOn (scanAt depth) (binaryBinding op) lhs (spaced op.symbol (t ++ r)) :=
        hlhs (by omega) hfollows'
    _ = goOn (scanAt depth) (binaryBinding op) (.binary lhs op rhs) r :=
        goOn_operator hop (hrhs.eq (by omega) hfollows.stops)

theorem comparator_spaced (op : Comparator) (s : List Char) :
    comparator (skipBlanks (spaced op.symbol s)) = some (op, ' ' :: s) := by
  cases op <;> rfl

/-- The links of a chain are read one after the other. -/
theorem many_link {links : List (Comparator × List Char × Expr)}
    (hlinks : ∀ l ∈ links, Reads .sum l.2.1 l.2.2)
    (hdepth : (links.flatMap fun l => spaced l.1.symbol l.2.1).length ≤ depth)
    (hstops : Stops .comparison r) :
    many (link comparator (sum (scanAt depth)))
        ((links.flatMap fun l => spaced l.1.symbol l.2.1) ++ r) =
      some (links.map fun l => (l.1, l.2.2), r) := by
  refine many_flatMap (takes_link takes_comparator (takes_sum (takes_scanAt depth))) ?_ ?_
    (hstops.mono (Nat.le_succ _)) (link_eq_none (hstops.comparison le_rfl))
  · intro l hl rest hrest
    have hlength : l.2.1.length ≤ depth := by
      have := length_le_flatMap (f := fun l => spaced l.1.symbol l.2.1) hl
      have := length_lt_spaced l.1.symbol l.2.1
      omega
    have hskip : skipBlanks (' ' :: (l.2.1 ++ rest)) = l.2.1 ++ rest :=
      (hlinks l hl).skipBlanks_append hrest
    rw [spaced_append]
    refine link_of_some (comparator_spaced l.1 _) ?_
    rw [hskip]
    exact (hlinks l hl).eq hlength hrest
  · intro l _ rest
    rw [spaced_append]
    exact stops_comparator l.1 _

/-- A first operand and the links behind it are read as one chain. -/
theorem compare {first : Expr} {links : List (Comparator × List Char × Expr)}
    (hfirst : Reads .sum s first) (hne : links ≠ [])
    (hlinks : ∀ l ∈ links, Reads .sum l.2.1 l.2.2) :
    Reads .comparison (s ++ links.flatMap fun l => spaced l.1.symbol l.2.1)
      (.compare first (links.map fun l => (l.1, l.2.2))) := by
  intro depth r hdepth hfollows
  rw [List.length_append] at hdepth
  have hstops : Stops .comparison r := hfollows
  have hmany := many_link hlinks (Nat.le_of_add_left_le hdepth) hstops
  -- the first operand ends where the first link begins
  have hnext : Stops .sum ((links.flatMap fun l => spaced l.1.symbol l.2.1) ++ r) := by
    obtain ⟨l, links, rfl⟩ := List.exists_cons_of_ne_nil hne
    rw [List.flatMap_cons, List.append_assoc, spaced_append]
    exact stops_comparator l.1 _
  have hchained : chained first (links.map fun l => (l.1, l.2.2)) =
      .compare first (links.map fun l => (l.1, l.2.2)) := by
    obtain ⟨l, links, rfl⟩ := List.exists_cons_of_ne_nil hne
    rfl
  rw [List.append_assoc, goOn_of_stops hstops, ← hchained]
  exact (reader_of_tighter (b := .comparison)
    (hfirst.eq (Nat.le_of_add_right_le hdepth) hnext)).trans (bind_of_some hmany)

theorem keyword_spaced (connective : Connective) (s : List Char) :
    keyword? connective.word.toList (skipBlanks (spaced connective.word s)) = some (' ' :: s) := by
  cases connective <;> rfl

/-- The further operands of a connective are read one after the other. -/
theorem many_furtherOperand {connective : Connective} {rest : List (List Char × Expr)}
    (hrest : ∀ p ∈ rest, Reads (connectiveBinding connective).tighter p.1 p.2)
    (hdepth : (rest.flatMap fun p => spaced connective.word p.1).length ≤ depth)
    (hstops : Stops (connectiveBinding connective) r) :
    many (furtherOperand connective
        (reader (scanAt depth) (connectiveBinding connective).tighter))
        ((rest.flatMap fun p => spaced connective.word p.1) ++ r) =
      some (rest.map (·.2), r) := by
  refine many_flatMap (takes_furtherOperand connective (takes_reader (takes_scanAt depth) _)) ?_ ?_
    (hstops.mono (Nat.le_succ _)) (furtherOperand_eq_none (hstops.junction connective le_rfl))
  · intro p hp rest hends
    have hlength : p.1.length ≤ depth := by
      have := length_le_flatMap (f := fun p => spaced connective.word p.1) hp
      have := length_lt_spaced connective.word p.1
      omega
    have hskip : skipBlanks (' ' :: (p.1 ++ rest)) = p.1 ++ rest :=
      (hrest p hp).skipBlanks_append hends
    rw [spaced_append]
    refine furtherOperand_of_some (keyword_spaced connective _) ?_
    rw [hskip]
    exact (hrest p hp).eq hlength hends
  · intro p _ rest
    rw [spaced_append]
    exact stops_connective connective _

/-- Operands with a connective between them are read as one junction. -/
theorem junction {connective : Connective} {first : Expr} {rest : List (List Char × Expr)}
    (hfirst : Reads (connectiveBinding connective).tighter s first) (hne : rest ≠ [])
    (hrest : ∀ p ∈ rest, Reads (connectiveBinding connective).tighter p.1 p.2) :
    Reads (connectiveBinding connective) (s ++ rest.flatMap fun p => spaced connective.word p.1)
      (.junction connective (first :: rest.map (·.2))) := by
  intro depth r hdepth hfollows
  rw [List.length_append] at hdepth
  have hstops : Stops (connectiveBinding connective) r := by cases connective <;> exact hfollows
  have hmany := many_furtherOperand hrest (Nat.le_of_add_left_le hdepth) hstops
  have hnext : Stops (connectiveBinding connective).tighter
      ((rest.flatMap fun p => spaced connective.word p.1) ++ r) := by
    obtain ⟨p, rest, rfl⟩ := List.exists_cons_of_ne_nil hne
    rw [List.flatMap_cons, List.append_assoc, spaced_append]
    exact stops_connective connective _
  have hjoined : joined connective first (rest.map (·.2)) =
      .junction connective (first :: rest.map (·.2)) := by
    obtain ⟨p, rest, rfl⟩ := List.exists_cons_of_ne_nil hne
    rfl
  rw [List.append_assoc, goOn_of_stops hstops, ← hjoined,
    reader_of_tighter (hfirst.eq (Nat.le_of_add_right_le hdepth) hnext)]
  cases connective <;> exact bind_of_some hmany

/-- The arguments behind the first one are read one after the other. -/
theorem many_furtherArgument {arguments : List (List Char × Expr)}
    (harguments : ∀ p ∈ arguments, Reads .disjunction p.1 p.2)
    (hdepth : (arguments.flatMap fun p => ',' :: ' ' :: p.1).length ≤ depth) :
    many (furtherArgument (scanAt depth))
        ((arguments.flatMap fun p => ',' :: ' ' :: p.1) ++ ')' :: r) =
      some (arguments.map (·.2), ')' :: r) := by
  refine many_flatMap (takes_furtherArgument (takes_scanAt depth)) ?_ ?_
    (stops_of_closes rfl .disjunction r) rfl
  · intro p hp rest hends
    have hlength : p.1.length < depth := by
      have hle := length_le_flatMap (f := fun p => ',' :: ' ' :: p.1) hp
      simp only [List.length_cons] at hle
      omega
    have hskip : layout (' ' :: (p.1 ++ rest)) = some ((), p.1 ++ rest) :=
      layout_eq ((harguments p hp).skipLayout_append hends)
    exact (bind_of_some rfl).trans ((bind_of_some rfl).trans ((bind_of_some hskip).trans
      (scanAt_eq .disjunction (harguments p hp) hlength hends)))
  · exact fun p _ rest => stops_of_closes rfl .disjunction _

/-- Nothing is read as an expression where none begins. -/
theorem scanAt_disjunction_eq_none (depth : Nat) (h : ∀ c ∈ s.head?, startsExpr c = false) :
    scanAt depth .disjunction s = none := by
  cases depth with
  | zero => rfl
  | succ depth =>
    cases hread : reader (scanAt depth) .disjunction s with
    | none => exact hread
    | some x =>
      obtain ⟨c, hc, hstart⟩ := head_of_reader hread
      rw [h c hc] at hstart
      cases hstart

/-- Arguments between commas are read up to the closing parenthesis, also where there are none. -/
theorem callArguments_eq {arguments : List (List Char × Expr)}
    (harguments : ∀ p ∈ arguments, Reads .disjunction p.1 p.2)
    (hdepth : ([',', ' '].intercalate (arguments.map (·.1))).length < depth) :
    callArguments (scanAt depth)
        ('(' :: ([',', ' '].intercalate (arguments.map (·.1)) ++ ')' :: r)) =
      some (arguments.map (·.2), r) := by
  cases arguments with
  | nil =>
    -- the parenthesis begins no argument
    have hnone : someArguments (scanAt depth) (')' :: r) = none :=
      bind_of_none (scanAt_disjunction_eq_none depth (by simp; decide))
    exact (bind_of_some rfl).trans ((bind_of_some rfl).trans
      ((bind_of_some ((orElse_of_none hnone).trans rfl)).trans rfl))
  | cons p arguments =>
    obtain ⟨hfirst, hrest⟩ := List.forall_mem_cons.mp harguments
    rw [List.map_cons, intercalate_cons, List.flatMap_map] at *
    rw [List.length_append] at hdepth
    have hends : Stops .disjunction
        ((arguments.flatMap fun p => ',' :: ' ' :: p.1) ++ ')' :: r) := by
      cases arguments <;> exact stops_of_closes rfl _ _
    have hmany := many_furtherArgument (r := r) hrest (Nat.le_of_add_left_le hdepth.le)
    have hsome : someArguments (scanAt depth)
        (p.1 ++ ((arguments.flatMap fun p => ',' :: ' ' :: p.1) ++ ')' :: r)) =
          some (p.2 :: arguments.map (·.2), ')' :: r) :=
      (bind_of_some (scanAt_eq .disjunction hfirst (by omega) hends)).trans
        ((bind_of_some hmany).trans rfl)
    rw [List.append_assoc]
    exact (bind_of_some rfl).trans ((bind_of_some (layout_eq (hfirst.skipLayout_append hends))).trans
      ((bind_of_some (orElse_of_some hsome)).trans rfl))

theorem stops_call (s : List Char) : Stops Binding.atom.tighter ('(' :: s) where
  ends := endsLexeme_cons (by decide) (by decide)
  call h := absurd h (by decide)
  power h := absurd h (by decide)
  product h := absurd h (by decide)
  sum h := absurd h (by decide)
  comparison h := absurd h (by decide)
  junction connective h := by cases connective <;> exact absurd h (by decide)

/-- A callee and arguments in parentheses are read as a call. -/
theorem call {callee : Expr} {arguments : List (List Char × Expr)} (hcallee : Reads .atom s callee)
    (harguments : ∀ p ∈ arguments, Reads .disjunction p.1 p.2) :
    Reads .atom (s ++ '(' :: ([',', ' '].intercalate (arguments.map (·.1)) ++ [')']))
      (.call callee (arguments.map (·.2))) := by
  intro depth r hdepth _
  simp only [List.length_append, List.length_cons] at hdepth
  have hcall : furtherCall (scanAt depth)
      ('(' :: ([',', ' '].intercalate (arguments.map (·.1)) ++ ')' :: r)) =
        some (arguments.map (·.2), r) :=
    (bind_of_some rfl).trans (callArguments_eq harguments (by omega))
  rw [List.append_assoc, List.cons_append, List.append_assoc]
  exact (hcallee (by omega) (stops_call _)).trans
    (bind_many_of_some (takes_furtherCall (takes_scanAt depth)) hcall _)

end Reads

/-- **Readers read what is written.** -/
theorem reads_of_written (h : Written b s e) : Reads b s e := by
  induction h with
  | ident hname => exact .ident hname
  | number hfinite hsign => exact .number hfinite hsign
  | parenthesized _ ih => exact ih.parenthesized
  | looser _ ih => exact ih.looser
  | unary _ ih => exact ih.unary
  | binary _ _ ihlhs ihrhs => exact ihlhs.binary ihrhs
  | compare _ hne _ ihfirst ihlinks => exact ihfirst.compare hne ihlinks
  | junction _ hne _ ihfirst ihrest => exact ihfirst.junction hne ihrest
  | call _ _ ihcallee iharguments => exact ihcallee.call iharguments

theorem scan_of_written (h : Written .disjunction s e) (hstops : Stops .disjunction r) :
    scan (s ++ r) = some (e, r) := by
  refine Reads.scanAt_eq .disjunction (reads_of_written h) ?_ hstops
  rw [List.length_append]
  omega

end Expr

end PiecewiseLinear.Script
