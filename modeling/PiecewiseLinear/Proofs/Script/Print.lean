import PiecewiseLinear.Proofs.Script.Written

/-!
# Expressions in print

An expression in print is one of its texts, so it reads as itself.

- `Expr.written_text`: what is printed is written.
- `Expr.scan_text`: an expression in print reads as itself, also where other text follows.
- `Expr.parse_text`: and so it does as a whole text.
-/

namespace PiecewiseLinear.Script.Expr

variable {e : Expr} {r s : List Char}

/-! ## What is printed is written -/

/-- No expression binds more loosely than a disjunction. -/
theorem binding_pos (e : Expr) : 1 ≤ e.binding.tightness := by
  cases e with
  | ident | number | call | compare => exact Nat.succ_pos _
  | unary op => cases op <;> exact Nat.succ_pos _
  | binary lhs op rhs => rcases op with (_ | _ | _ | _) | _ | _ <;> exact Nat.succ_pos _
  | junction connective => cases connective <;> exact Nat.succ_pos _

/-- A text goes into parentheses only where its own operator binds too loosely. -/
theorem Written.enclose {wanted actual : Binding} {text : String}
    (h : Written actual text.toList e) (hactual : 1 ≤ actual.tightness)
    (hwanted : wanted.tightness ≤ 10) :
    Written wanted (wanted.enclose actual text).toList e := by
  unfold Binding.enclose
  split_ifs with hlt
  · have hinner : Written .disjunction text.toList e := h.of_le hactual
    have htext : ("(" ++ text ++ ")").toList = '(' :: (text.toList ++ [')']) := by simp
    rw [htext]
    exact hinner.parenthesized.of_le hwanted
  · exact h.of_le (not_lt.mp hlt)

/-- The links of a chain in print are its comparators and operands, each operand in parentheses
where it needs them. -/
theorem toList_linksText (links : List (Comparator × Expr)) :
    (linksText links).toList = links.flatMap fun l =>
      spaced l.1.symbol (Binding.sum.enclose l.2.binding l.2.text).toList := by
  induction links with
  | nil => rfl
  | cons l links ih =>
    obtain ⟨op, operand⟩ := l
    rw [linksText, List.flatMap_cons, ← ih]
    simp [spaced]

theorem operandTexts_eq_map (wanted : Binding) (operands : List Expr) :
    operandTexts wanted operands = operands.map fun e => wanted.enclose e.binding e.text := by
  induction operands with
  | nil => rfl
  | cons e operands ih => rw [operandTexts, ih, List.map_cons]

theorem argumentTexts_eq_map (arguments : List Expr) :
    argumentTexts arguments = arguments.map text := by
  induction arguments with
  | nil => rfl
  | cons e arguments ih => rw [argumentTexts, ih, List.map_cons]

theorem leftBinding_le (op : BinaryOp) : (leftBinding op).tightness ≤ 10 := by
  rcases op with (_ | _ | _ | _) | _ | _ <;> decide

theorem rightBinding_le (op : BinaryOp) : (rightBinding op).tightness ≤ 10 := by
  rcases op with (_ | _ | _ | _) | _ | _ <;> decide

theorem tighter_connectiveBinding_le (connective : Connective) :
    (connectiveBinding connective).tighter.tightness ≤ 10 := by
  cases connective <;> decide

/-! ### Texts as characters -/

theorem toList_text_binary (lhs : Expr) (op : BinaryOp) (rhs : Expr) :
    (binary lhs op rhs).text.toList = ((leftBinding op).enclose lhs.binding lhs.text).toList ++
      spaced op.symbol ((rightBinding op).enclose rhs.binding rhs.text).toList := by
  rw [text]
  simp [spaced]

theorem toList_text_compare (first : Expr) (links : List (Comparator × Expr)) :
    (compare first links).text.toList = (Binding.sum.enclose first.binding first.text).toList ++
      links.flatMap fun l =>
        spaced l.1.symbol (Binding.sum.enclose l.2.binding l.2.text).toList := by
  rw [text, String.toList_append, toList_linksText]

/-- Texts with a word between them: the first one, and each other one behind the word. -/
theorem toList_intercalate_spaced (word first : String) (rest : List String) :
    ((" " ++ word ++ " ").intercalate (first :: rest)).toList =
      first.toList ++ rest.flatMap fun s => spaced word s.toList := by
  rw [String.toList_intercalate, List.map_cons, intercalate_cons, List.flatMap_map]
  simp [spaced]

theorem toList_text_junction (connective : Connective) (first : Expr) (rest : List Expr) :
    (junction connective (first :: rest)).text.toList =
      ((connectiveBinding connective).tighter.enclose first.binding first.text).toList ++
        rest.flatMap fun e => spaced connective.word
          ((connectiveBinding connective).tighter.enclose e.binding e.text).toList := by
  rw [text, operandTexts_eq_map, List.map_cons, toList_intercalate_spaced, List.flatMap_map]

theorem toList_text_call (callee : Expr) (arguments : List Expr) :
    (call callee arguments).text.toList =
      (Binding.atom.enclose callee.binding callee.text).toList ++
        '(' :: ([',', ' '].intercalate (arguments.map fun e => e.text.toList) ++ [')']) := by
  rw [text, argumentTexts_eq_map]
  simp [String.toList_intercalate, Function.comp_def]

/-! ### One text for each operand -/

variable {textOf : Expr → List Char}

/-- A chain of comparisons is written with a text for each of its operands. -/
theorem Written.compare_of_forall {first : Expr} {links : List (Comparator × Expr)}
    {linkText : Comparator × Expr → List Char} (hfirst : Written .sum s first) (hne : links ≠ [])
    (hlinks : ∀ l ∈ links, Written .sum (linkText l) l.2) :
    Written .comparison (s ++ links.flatMap fun l => spaced l.1.symbol (linkText l))
      (.compare first links) := by
  have hlinks' : ∀ l ∈ links.map fun l => (l.1, linkText l, l.2), Written .sum l.2.1 l.2.2 :=
    List.forall_mem_map.mpr hlinks
  have hmap : (links.map fun l => (l.1, linkText l, l.2)).map (fun l => (l.1, l.2.2)) = links := by
    rw [List.map_map]
    exact List.map_id links
  have h := hfirst.compare (mt List.map_eq_nil_iff.mp hne) hlinks'
  rwa [hmap, List.flatMap_map] at h

/-- A junction is written with a text for each of its operands. -/
theorem Written.junction_of_forall {connective : Connective} {first : Expr} {rest : List Expr}
    (hfirst : Written (connectiveBinding connective).tighter s first) (hne : rest ≠ [])
    (hrest : ∀ e ∈ rest, Written (connectiveBinding connective).tighter (textOf e) e) :
    Written (connectiveBinding connective)
      (s ++ rest.flatMap fun e => spaced connective.word (textOf e))
      (.junction connective (first :: rest)) := by
  have hrest' : ∀ p ∈ rest.map fun e => (textOf e, e),
      Written (connectiveBinding connective).tighter p.1 p.2 := List.forall_mem_map.mpr hrest
  have hmap : (rest.map fun e => (textOf e, e)).map (·.2) = rest := by
    rw [List.map_map]
    exact List.map_id rest
  have h := hfirst.junction (mt List.map_eq_nil_iff.mp hne) hrest'
  rwa [hmap, List.flatMap_map] at h

/-- A call is written with a text for each of its arguments. -/
theorem Written.call_of_forall {callee : Expr} {arguments : List Expr}
    (hcallee : Written .atom s callee)
    (harguments : ∀ e ∈ arguments, Written .disjunction (textOf e) e) :
    Written .atom (s ++ '(' :: ([',', ' '].intercalate (arguments.map textOf) ++ [')']))
      (.call callee arguments) := by
  have harguments' : ∀ p ∈ arguments.map fun e => (textOf e, e), Written .disjunction p.1 p.2 :=
    List.forall_mem_map.mpr harguments
  have hmap : (arguments.map fun e => (textOf e, e)).map (·.2) = arguments := by
    rw [List.map_map]
    exact List.map_id arguments
  have h := hcallee.call harguments'
  rwa [hmap, List.map_map] at h

/-- **What is printed is written**, for the binding of the expression. Parentheses stand wherever
the binding that is wanted is a tighter one. -/
theorem written_text (h : e.WellFormed) : Written e.binding e.text.toList e := by
  induction h with
  | ident hname =>
    rw [text]
    exact (Written.ident hname).of_le (Nat.le_succ _)
  | number hfinite hsign =>
    rw [text]
    exact (Written.number hfinite hsign).of_le (Nat.le_succ _)
  | @unary op operand _ ih =>
    rw [text, String.toList_append]
    exact .unary (ih.enclose operand.binding_pos (by cases op <;> decide))
  | @binary lhs op rhs _ _ ihlhs ihrhs =>
    rw [toList_text_binary]
    exact (ihlhs.enclose lhs.binding_pos (leftBinding_le op)).binary
      (ihrhs.enclose rhs.binding_pos (rightBinding_le op))
  | @compare first links _ hne _ ihfirst ihlinks =>
    have hfirst : Written .sum (Binding.sum.enclose first.binding first.text).toList first :=
      ihfirst.enclose first.binding_pos (by decide)
    have hlinks : ∀ l ∈ links,
        Written .sum (Binding.sum.enclose l.2.binding l.2.text).toList l.2 :=
      fun l hl => (ihlinks l hl).enclose l.2.binding_pos (by decide)
    rw [toList_text_compare]
    exact hfirst.compare_of_forall hne hlinks
  | @junction connective operands hlength _ ih =>
    -- the first operand stands apart from those that follow a connective
    match operands with
    | [] | [_] => simp at hlength
    | first :: second :: rest =>
      rw [toList_text_junction]
      have hle := tighter_connectiveBinding_le connective
      exact ((ih first (by simp)).enclose first.binding_pos hle).junction_of_forall
        (List.cons_ne_nil second rest)
        fun e he => (ih e (List.mem_cons_of_mem first he)).enclose e.binding_pos hle
  | @call callee arguments _ _ ihcallee iharguments =>
    have hcallee : Written .atom (Binding.atom.enclose callee.binding callee.text).toList callee :=
      ihcallee.enclose callee.binding_pos (by decide)
    rw [toList_text_call]
    exact hcallee.call_of_forall fun e he => (iharguments e he).of_le e.binding_pos

theorem written_disjunction_text (h : e.WellFormed) : Written .disjunction e.text.toList e :=
  (written_text h).of_le e.binding_pos

/-- **An expression in print reads as itself**, where a character follows at which readers stop. -/
theorem scan_text (h : e.WellFormed) (hstops : Stops .disjunction r) :
    scan (e.text.toList ++ r) = some (e, r) :=
  scan_of_written (written_disjunction_text h) hstops

/-! ## Whole texts -/

/-- Printable characters of ASCII are no white space. -/
theorem isBlank_eq_false {c : Char} (h : 32 < c.toNat) (h' : c.toNat < 127) :
    isBlank c = false := by
  simp [isBlank, blankRanges]
  omega

theorem isBlank_of_isWordChar {c : Char} (h : isWordChar c = true) : isBlank c = false := by
  simp only [isWordChar, Char.isAlphanum, Char.isAlpha, Char.isUpper, Char.isLower, Char.isDigit,
    UInt32.le_iff_toNat_le, Bool.or_eq_true, Bool.and_eq_true, decide_eq_true_eq] at h
  rcases h with ((h | h) | h) | rfl
  · exact isBlank_eq_false (Nat.lt_of_lt_of_le (by decide) h.1) (Nat.lt_of_le_of_lt h.2 (by decide))
  · exact isBlank_eq_false (Nat.lt_of_lt_of_le (by decide) h.1) (Nat.lt_of_le_of_lt h.2 (by decide))
  · exact isBlank_eq_false (Nat.lt_of_lt_of_le (by decide) h.1) (Nat.lt_of_le_of_lt h.2 (by decide))
  · rfl

theorem isBlank_of_isDigit {c : Char} (h : c.isDigit = true) : isBlank c = false :=
  isBlank_of_isWordChar (by rw [isWordChar, Char.isAlphanum, h, Bool.or_true, Bool.true_or])

theorem isBlank_of_startsExpr {c : Char} (h : startsExpr c = true) : isBlank c = false := by
  simp only [startsExpr, startsPrimary, Bool.or_eq_true, decide_eq_true_eq] at h
  rcases h with ((((rfl | rfl) | h) | h) | rfl) | rfl
  · rfl
  · rfl
  · exact isBlank_of_isDigit h
  · exact isBlank_of_isWordChar (isWordChar_of_isWordStart h)
  · rfl
  · rfl

/-- The last character of a text is no white space. -/
def EndsInPrint (s : List Char) : Prop := ∃ c ∈ s.getLast?, isBlank c = false

theorem EndsInPrint.append {t : List Char} (h : EndsInPrint t) (s : List Char) :
    EndsInPrint (s ++ t) := by
  obtain ⟨c, hc, hblank⟩ := h
  refine ⟨c, ?_, hblank⟩
  rw [List.getLast?_append, hc]
  rfl

theorem EndsInPrint.spaced {t : List Char} (h : EndsInPrint t) (symbol : String) :
    EndsInPrint (spaced symbol t) :=
  ((h.append [' ']).append symbol.toList).append [' ']

theorem EndsInPrint.flatMap {ι : Type} {items : List ι} {f : ι → List Char} (hne : items ≠ [])
    (h : ∀ i ∈ items, EndsInPrint (f i)) : EndsInPrint (items.flatMap f) := by
  obtain ⟨init, last, rfl⟩ := (List.eq_nil_or_concat' items).resolve_left hne
  rw [List.flatMap_append, List.flatMap_singleton]
  exact (h last (by simp)).append _

theorem endsInPrint_of_forall (hne : s ≠ []) (h : ∀ c ∈ s, isBlank c = false) : EndsInPrint s :=
  ⟨s.getLast hne, List.getLast?_eq_some_getLast hne, h _ (List.getLast_mem hne)⟩

theorem endsInPrint_close : EndsInPrint [')'] := ⟨')', rfl, rfl⟩

/-- No text of an expression ends in white space: the last character is one of a name, of a number
or a closing parenthesis. -/
theorem endsInPrint_of_written {b : Binding} (h : Written b s e) : EndsInPrint s := by
  induction h with
  | ident hname =>
    obtain ⟨c, hc, -⟩ := hname.start
    refine endsInPrint_of_forall ?_ fun c hc => isBlank_of_isWordChar (hname.word c hc)
    intro hnil
    rw [hnil] at hc
    cases hc
  | number hfinite hsign =>
    obtain ⟨c, s, hs, hdigit, hrest⟩ := (isPositional_plain hfinite hsign).eq_cons
    rw [hs]
    refine endsInPrint_of_forall (List.cons_ne_nil c s) fun d hd => ?_
    rcases List.mem_cons.mp hd with rfl | hd
    · exact isBlank_of_isDigit hdigit
    · rcases hrest d hd with hd | rfl
      · exact isBlank_of_isDigit hd
      · rfl
  | @parenthesized s => exact endsInPrint_close.append ('(' :: s)
  | looser _ ih => exact ih
  | unary _ ih => exact ih.append _
  | binary _ _ _ ihrhs => exact (ihrhs.spaced _).append _
  | compare _ hne _ _ ihlinks =>
    exact (EndsInPrint.flatMap hne fun l hl => (ihlinks l hl).spaced _).append _
  | junction _ hne _ _ ihrest =>
    exact (EndsInPrint.flatMap hne fun p hp => (ihrest p hp).spaced _).append _
  | @call s _ arguments =>
    exact (endsInPrint_close.append ('(' :: [',', ' '].intercalate (arguments.map (·.1)))).append s

/-- A written text has no white space at its ends. -/
theorem trimBlank_of_written (h : Written .disjunction s e) : trimBlank s = s := by
  -- the first character begins an expression, and the last one is in print
  have hread := (reads_of_written h).eq (r := []) le_rfl (stops_nil _)
  rw [List.append_nil] at hread
  obtain ⟨c, hc, hstart⟩ := head_of_reader hread
  obtain ⟨t, rfl⟩ := List.head?_eq_some_iff.mp hc
  obtain ⟨d, hd, hblank⟩ := endsInPrint_of_written h
  rw [← List.head?_reverse] at hd
  obtain ⟨u, hu⟩ := List.head?_eq_some_iff.mp hd
  rw [trimBlank, List.dropWhile_cons_of_neg (by rw [isBlank_of_startsExpr hstart]; decide),
    trimBlankEnd, hu, List.dropWhile_cons_of_neg (by rw [hblank]; decide), ← hu,
    List.reverse_reverse]

/-- A written text as a whole is read as its expression. -/
theorem parse_of_written {source : String} (h : Written .disjunction source.toList e) :
    parse source = .ok e := by
  have hscan := scan_of_written h (stops_nil .disjunction)
  rw [List.append_nil] at hscan
  rw [parse, trimBlank_of_written h, hscan]
  rfl

/-- **An expression in print is an expression**, and as a whole text. -/
theorem parse_text (h : e.WellFormed) : parse e.text = .ok e :=
  parse_of_written (written_disjunction_text h)

end PiecewiseLinear.Script.Expr
