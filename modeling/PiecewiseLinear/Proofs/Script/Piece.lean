import PiecewiseLinear.Proofs.Script.Layout

/-!
# Pieces of the grammar

Separators, words, operators and literals are read exactly as the grammar has them.

- `exists_isBlanks`, `exists_isGap`: what is skipped is a separator.
- `IsBlanks.skipBlanks_append`, `IsGap.isLayout`: separators are skipped.
- `ident?_eq_some_iff`: identifiers.
- `comparator_eq_some`, `sumOp_eq_some`, `productOp_eq_some` and their converses: operators.
- `exists_isLiteral`, `IsLiteral.scan_append`: literals.
-/

namespace PiecewiseLinear.Script

open Scan

variable {g s t r : List Char}

/-! ## Separators -/

theorem exists_isBlanks (s : List Char) : ∃ g, IsBlanks g ∧ s = g ++ skipBlanks s :=
  ⟨s.takeWhile isBlankInLine, fun _ hc => List.mem_takeWhile_imp hc,
    List.takeWhile_append_dropWhile.symm⟩

theorem IsBlanks.skipBlanks_append (hg : IsBlanks g) (s : List Char) :
    skipBlanks (g ++ s) = skipBlanks s := List.dropWhile_append_of_pos hg

theorem IsBlanks.continuesWord (hg : IsBlanks g) (hs : continuesWord s = false) :
    continuesWord (g ++ s) = false := by
  cases g with
  | nil => exact hs
  | cons c g =>
    obtain rfl | rfl := isBlankInLine_iff.mp (hg c List.mem_cons_self)
    · rfl
    · rfl

/-- Where something is left, what has been skipped is a gap, and within a comment it is the end
of the line and then a gap. -/
theorem exists_isGap_skipLayoutFrom (s : List Char) :
    (skipLayoutFrom false s ≠ [] → ∃ g, IsGap g ∧ s = g ++ skipLayoutFrom false s) ∧
      (skipLayoutFrom true s ≠ [] → ∃ text g, '\n' ∉ text ∧ IsGap g ∧
        s = text ++ '\n' :: (g ++ skipLayoutFrom true s)) := by
  induction s with
  | nil => exact ⟨fun h => absurd rfl h, fun h => absurd rfl h⟩
  | cons c s ih =>
    obtain ⟨ihgap, ihcomment⟩ := ih
    constructor
    · intro hne
      rw [skipLayoutFrom, if_neg Bool.false_ne_true] at hne ⊢
      split_ifs at hne ⊢ with hlayout hcomment
      · obtain ⟨g, hg, hs⟩ := ihgap hne
        exact ⟨c :: g, .cons hlayout hg, congrArg (c :: ·) hs⟩
      · obtain ⟨text, g, htext, hg, hs⟩ := ihcomment hne
        refine ⟨'#' :: (text ++ '\n' :: g), .comment htext hg, ?_⟩
        rw [hcomment, List.cons_append, List.append_assoc, List.cons_append, ← hs]
      · exact ⟨[], .nil, rfl⟩
    · intro hne
      rw [skipLayoutFrom, if_pos rfl] at hne ⊢
      by_cases hc : c = '\n'
      · subst hc
        obtain ⟨g, hg, hs⟩ := ihgap hne
        exact ⟨[], g, List.not_mem_nil, hg, congrArg ('\n' :: ·) hs⟩
      · rw [show (c != '\n') = true by simpa using hc] at hne ⊢
        obtain ⟨text, g, htext, hg, hs⟩ := ihcomment hne
        refine ⟨c :: text, g, ?_, hg, congrArg (c :: ·) hs⟩
        rw [List.mem_cons, not_or]
        exact ⟨Ne.symm hc, htext⟩

theorem exists_isGap (h : skipLayout s ≠ []) : ∃ g, IsGap g ∧ s = g ++ skipLayout s :=
  (exists_isGap_skipLayoutFrom s).1 h

/-- A comment is skipped up to the end of its line, and the layout behind it too. -/
theorem skipLayoutFrom_comment {text : List Char} (h : '\n' ∉ text) (s : List Char) :
    skipLayoutFrom true (text ++ '\n' :: s) = skipLayout s := by
  induction text with
  | nil => rfl
  | cons c text ih =>
    rw [List.mem_cons, not_or] at h
    rw [List.cons_append, skipLayoutFrom, if_pos rfl,
      show (c != '\n') = true by simpa using Ne.symm h.1]
    exact ih h.2

/-- A gap is skipped, whatever follows it. -/
theorem IsGap.isLayout (hg : IsGap g) : IsLayout g := by
  induction hg with
  | nil => exact isLayout_nil
  | cons hc _ ih => exact (isLayout_cons_iff hc).mpr ih
  | @comment text g htext _ ih =>
    intro s
    rw [List.cons_append, List.append_assoc, List.cons_append, skipLayout, skipLayoutFrom,
      if_neg Bool.false_ne_true, if_neg (by decide), if_pos rfl, skipLayoutFrom_comment htext, ih]

/-! ## Words -/

/-- What is read as an identifier is one, and it ends there. -/
theorem ident?_eq_some_iff {name : String} :
    ident? s = some (name, r) ↔
      IsIdentifier name ∧ continuesWord r = false ∧ s = name.toList ++ r := by
  constructor
  · intro h
    cases s with
    | nil => cases h
    | cons c s =>
      rw [ident?_cons] at h
      split_ifs at h with hstart
      rw [Bool.and_eq_true, Bool.not_eq_true'] at hstart
      cases h
      rw [String.toList_ofList]
      refine ⟨⟨⟨c, ?_, hstart.1⟩, ?_, ?_⟩, ?_, List.takeWhile_append_dropWhile.symm⟩
      · rw [String.toList_ofList,
          List.takeWhile_cons_of_pos (Expr.isWordChar_of_isWordStart hstart.1)]
        rfl
      · rw [String.toList_ofList]
        exact fun d hd => List.mem_takeWhile_imp hd
      · rw [String.toList_ofList]
        simpa using hstart.2
      · rw [continuesWord_eq_false_iff]
        intro d hd
        have hdrop := List.head?_dropWhile_not isWordChar (c :: s)
        rwa [hd] at hdrop
  · rintro ⟨hname, hr, rfl⟩
    exact ident?_append hname hr

theorem piece_eq_some {text : List Char} (h : piece text s = some ((), r)) : s = text ++ r := by
  obtain ⟨rest, hrest, heq⟩ := Option.map_eq_some_iff.mp h
  cases heq
  exact eq_append_of_after? hrest

theorem keyword_eq_some {word : List Char} (h : keyword word s = some ((), r)) :
    s = word ++ r ∧ continuesWord r = false := by
  obtain ⟨rest, hrest, heq⟩ := Option.map_eq_some_iff.mp h
  cases heq
  exact eq_append_of_keyword? hrest

/-! ## Operators -/

/-- An operator that is read when its symbol is there. -/
theorem of_symbol {α : Type} {text : List Char} {op o : α}
    (h : (do piece text; return op : Scan α) s = some (o, r)) : o = op ∧ s = text ++ r := by
  obtain ⟨_, t, ht, h⟩ := bind_eq_some h
  cases h
  exact ⟨rfl, piece_eq_some ht⟩

theorem eq_symbol_append {text : List Char} {o op : Comparator}
    (h : (do piece text; return o : Scan Comparator) s = some (op, r))
    (htext : text = o.symbol.toList) : s = op.symbol.toList ++ r := by
  obtain ⟨rfl, hs⟩ := of_symbol h
  rw [hs, htext]

/-- A comparator is read off its symbol. -/
theorem comparator_eq_some {op : Comparator} (h : comparator s = some (op, r)) :
    s = op.symbol.toList ++ r := by
  rcases orElse_eq_some h with h | h
  · exact eq_symbol_append h rfl
  rcases orElse_eq_some h with h | h
  · exact eq_symbol_append h rfl
  rcases orElse_eq_some h with h | h
  · exact eq_symbol_append h rfl
  rcases orElse_eq_some h with h | h
  · exact eq_symbol_append h rfl
  rcases orElse_eq_some h with h | h
  · exact eq_symbol_append h rfl
  · exact eq_symbol_append h rfl

/-- A comparison is read as a whole where no equality sign follows it. -/
theorem comparator_append (op : Comparator) (h : r.head? ≠ some '=') :
    comparator (op.symbol.toList ++ r) = some (op, r) := by
  have hlonger (c : Char) : piece [c, '='] (c :: r) = none := by
    rw [piece, after?, if_pos rfl, Expr.after?_eq_none fun d hd => ?_, Option.map_none]
    rintro rfl
    exact h hd
  cases op with
  | eq | ne | le | ge => rfl
  | lt =>
    have hle : piece "<=".toList ('<' :: r) = none := hlonger '<'
    exact (orElse_of_none rfl).trans ((orElse_of_none rfl).trans
      ((orElse_of_none (bind_of_none hle)).trans ((orElse_of_none rfl).trans
        (orElse_of_some rfl))))
  | gt =>
    have hge : piece ">=".toList ('>' :: r) = none := hlonger '>'
    exact (orElse_of_none rfl).trans ((orElse_of_none rfl).trans ((orElse_of_none rfl).trans
      ((orElse_of_none (bind_of_none hge)).trans ((orElse_of_none rfl).trans rfl))))

theorem sumOp_eq_some {op : BinaryOp} (h : sumOp s = some (op, r)) :
    binaryBinding op = .sum ∧ NotDoubled op r ∧ s = op.symbol.toList ++ r := by
  rcases orElse_eq_some h with h | h <;> obtain ⟨rfl, hs⟩ := of_symbol h <;>
    exact ⟨rfl, ⟨nofun, nofun⟩, hs⟩

/-- An operator that is read when its symbol is there once. -/
theorem of_pieceNotBefore {text : List Char} {next : Char} {op o : BinaryOp}
    (h : (do pieceNotBefore text next; return op : Scan BinaryOp) s = some (o, r)) :
    o = op ∧ r.head? ≠ some next ∧ s = text ++ r := by
  obtain ⟨_, t, ht, h⟩ := bind_eq_some h
  cases h
  unfold pieceNotBefore at ht
  split at ht
  · next rest hrest =>
    split_ifs at ht with hnext
    cases ht
    exact ⟨rfl, hnext, eq_append_of_after? hrest⟩
  · cases ht

/-- What is read as the operator of a product is one, and no half of a doubled one. -/
theorem productOp_eq_some {op : BinaryOp} (h : productOp s = some (op, r)) :
    binaryBinding op = .product ∧ NotDoubled op r ∧ s = op.symbol.toList ++ r := by
  rcases orElse_eq_some h with h | h
  · obtain ⟨rfl, hnext, hs⟩ := of_pieceNotBefore h
    exact ⟨rfl, ⟨fun _ => hnext, nofun⟩, hs⟩
  rcases orElse_eq_some h with h | h
  · obtain ⟨rfl, hnext, hs⟩ := of_pieceNotBefore h
    exact ⟨rfl, ⟨nofun, fun _ => hnext⟩, hs⟩
  · obtain ⟨rfl, hs⟩ := of_symbol h
    exact ⟨rfl, ⟨nofun, nofun⟩, hs⟩

theorem sumOp_append {op : BinaryOp} (hop : binaryBinding op = .sum) (r : List Char) :
    sumOp (op.symbol.toList ++ r) = some (op, r) := by
  match op with
  | .arith .add | .arith .sub => rfl
  | .arith .mul | .arith .div | .mod | .pow => exact absurd hop (by decide)

/-- The operator of a product is read off its symbol, unless it is one half of a doubled one. -/
theorem productOp_append {op : BinaryOp} (hop : binaryBinding op = .product)
    (hdoubled : NotDoubled op r) : productOp (op.symbol.toList ++ r) = some (op, r) := by
  match op with
  | .arith .mul =>
    have hpiece : pieceNotBefore "*".toList '*' ('*' :: r) = some ((), r) :=
      if_neg (hdoubled.1 rfl)
    exact orElse_of_some (bind_of_some hpiece)
  | .arith .div =>
    have hpiece : pieceNotBefore "/".toList '/' ('/' :: r) = some ((), r) :=
      if_neg (hdoubled.2 rfl)
    exact (orElse_of_none rfl).trans (orElse_of_some (bind_of_some hpiece))
  | .mod => rfl
  | .arith .add | .arith .sub | .pow => exact absurd hop (by decide)

/-! ## Literals -/

theorem scanDigits_eq {digits : List Char} (h : Decimal.scanDigits s = (digits, r)) :
    (∀ c ∈ digits, c.isDigit = true) ∧ s = digits ++ r := by
  refine ⟨?_, Expr.eq_append_of_scanDigits h⟩
  cases h
  exact fun c hc => List.mem_takeWhile_imp hc

/-- What is read as an exponent is one, or nothing at all. -/
theorem exists_isExponent {n : Int} (h : Decimal.scanExponent s = (n, r)) :
    ∃ e, IsExponent e n ∧ s = e ++ r := by
  unfold Decimal.scanExponent at h
  split at h
  · cases h
    exact ⟨[], .none, rfl⟩
  · next mark afterMark =>
    split_ifs at h with hmark
    · dsimp only at h
      split at h
      · cases h
        exact ⟨[], .none, rfl⟩
      · next digits rest hne hdigits =>
        obtain ⟨hall, hbody⟩ := scanDigits_eq hdigits
        have hall' : IsDigits digits := ⟨hne, hall⟩
        split at hbody <;> dsimp only at hbody h
        · cases h
          exact ⟨_, .plus hmark hall', congrArg (mark :: '+' :: ·) hbody⟩
        · cases h
          exact ⟨_, .minus hmark hall', congrArg (mark :: '-' :: ·) hbody⟩
        · next hplus hminus =>
          split at h
          · next t => exact absurd rfl (hplus t)
          · next t => exact absurd rfl (hminus t)
          · cases h
            exact ⟨mark :: digits, .plain hmark hall', congrArg (mark :: ·) hbody⟩
    · cases h
      exact ⟨[], .none, rfl⟩

/-- What is read as a literal is one. -/
theorem exists_isLiteral {d : Decimal} (h : Decimal.scan s = some (d, r)) :
    ∃ l, IsLiteral l d ∧ s = l ++ r := by
  unfold Decimal.scan at h
  split at h
  · next afterPoint hpoint =>
    split at h
    · cases h
    · next fraction rest hne hfraction =>
      obtain ⟨-, rfl⟩ := scanDigits_eq hpoint
      obtain ⟨hdigits, rfl⟩ := scanDigits_eq hfraction
      obtain ⟨e, he, hrest⟩ := exists_isExponent (s := rest) rfl
      cases h
      refine ⟨_, .fraction ⟨hne, hdigits⟩ he, ?_⟩
      rw [List.cons_append, List.append_assoc, ← hrest]
      rfl
  · cases h
  · next whole afterPoint hne hwhole =>
    obtain ⟨hdigits, rfl⟩ := scanDigits_eq hwhole
    obtain ⟨hfraction, hafter⟩ := scanDigits_eq (s := afterPoint) rfl
    obtain ⟨e, he, hrest⟩ := exists_isExponent (s := (Decimal.scanDigits afterPoint).2) rfl
    cases h
    refine ⟨_, .point ⟨hne, hdigits⟩ hfraction he, ?_⟩
    rw [List.append_assoc, List.cons_append, List.append_assoc]
    exact congrArg (whole ++ '.' :: ·) (hafter.trans (congrArg (_ ++ ·) hrest))
  · next whole rest _ hne _ hwhole =>
    obtain ⟨hdigits, rfl⟩ := scanDigits_eq hwhole
    obtain ⟨e, he, hrest⟩ := exists_isExponent (s := rest) rfl
    cases h
    refine ⟨_, .whole ⟨hne, hdigits⟩ he, ?_⟩
    rw [List.append_assoc, ← hrest]

/-- What is read after the mark of an exponent, where a sign and digits are there. -/
theorem scanExponent_body {whole digits : List Char} {p q : Bool × List Char}
    (hdigits : digits ≠ []) (hp : p = q) (hscan : Decimal.scanDigits q.2 = (digits, r)) :
    (match Decimal.scanDigits p.2 with
      | ([], _) => (0, whole)
      | (digits, rest) =>
        (if p.1 then -(Decimal.value digits : Int) else Decimal.value digits, rest)) =
      (if q.1 then -(Decimal.value digits : Int) else Decimal.value digits, r) := by
  obtain ⟨d, digits, rfl⟩ := List.exists_cons_of_ne_nil hdigits
  rw [hp, hscan]

/-- An exponent is read from its mark, its sign and its digits. -/
theorem scanExponent_eq {mark : Char} {afterMark body digits : List Char} {negative : Bool}
    (hmark : mark = 'e' ∨ mark = 'E')
    (hbody : (match afterMark with
      | '+' :: r => (false, r)
      | '-' :: r => (true, r)
      | r => (false, r)) = (negative, body)) (hdigits : IsDigits digits)
    (hscan : Decimal.scanDigits body = (digits, r)) :
    Decimal.scanExponent (mark :: afterMark) =
      (if negative then -(Decimal.value digits : Int) else Decimal.value digits, r) := by
  unfold Decimal.scanExponent
  dsimp only
  rw [if_pos hmark]
  exact scanExponent_body hdigits.ne_nil hbody hscan

/-- An exponent is read as a whole where the literal ends. -/
theorem IsExponent.scanExponent_append {e : List Char} {n : Int} (he : IsExponent e n)
    (hr : EndsLiteral r) : Decimal.scanExponent (e ++ r) = (n, r) := by
  have hscan {digits : List Char} (h : IsDigits digits) :
      Decimal.scanDigits (digits ++ r) = (digits, r) :=
    Decimal.scanDigits_append h.isDigit fun c hc => (hr c hc).1
  cases he with
  | none => exact Decimal.scanExponent_of_endsLiteral hr
  | @plain mark digits hmark h =>
    refine @scanExponent_eq r mark _ _ digits false hmark ?_ h (hscan h)
    -- a digit is no sign
    obtain ⟨d, digits, rfl⟩ := List.exists_cons_of_ne_nil h.ne_nil
    have hd : d.isDigit = true := h.isDigit d List.mem_cons_self
    split
    · next heq =>
      obtain rfl := (List.cons.inj heq).1
      cases hd
    · next heq =>
      obtain rfl := (List.cons.inj heq).1
      cases hd
    · rfl
  | plus hmark h => exact scanExponent_eq hmark rfl h (hscan h)
  | minus hmark h => exact scanExponent_eq hmark rfl h (hscan h)

/-- Neither an exponent nor what may follow a literal begins with a digit or a point. -/
theorem IsExponent.head {e : List Char} {n : Int} (he : IsExponent e n) (hr : EndsLiteral r) :
    ∀ c ∈ (e ++ r).head?, c.isDigit = false ∧ c ≠ '.' := by
  intro c hc
  cases he with
  | none => exact ⟨(hr c hc).1, (hr c hc).2.1⟩
  | plain hmark | plus hmark | minus hmark =>
    cases hc
    rcases hmark with rfl | rfl <;> exact ⟨rfl, by decide⟩

/-- A literal is read as a whole where it ends. -/
theorem IsLiteral.scan_append {d : Decimal} (h : IsLiteral s d) (hr : EndsLiteral r) :
    Decimal.scan (s ++ r) = some (d, r) := by
  cases h with
  | whole hwhole he =>
    rw [List.append_assoc, Decimal.scan_whole hwhole.ne_nil hwhole.isDigit (he.head hr),
      he.scanExponent_append hr]
  | point hwhole hfraction he =>
    rw [List.append_assoc, List.cons_append, List.append_assoc,
      Decimal.scan_point hwhole.ne_nil hwhole.isDigit hfraction fun c hc => (he.head hr c hc).1,
      he.scanExponent_append hr]
  | fraction hfraction he =>
    rw [List.cons_append, List.append_assoc,
      Decimal.scan_fraction hfraction.ne_nil hfraction.isDigit fun c hc => (he.head hr c hc).1,
      he.scanExponent_append hr]

end PiecewiseLinear.Script
