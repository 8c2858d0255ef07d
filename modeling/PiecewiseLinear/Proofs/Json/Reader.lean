import PiecewiseLinear.Proofs.Json.Number

/-!
# Reading JSON in print

What is written is read again, up to the reals that JSON has no numbers for.

- `Json.readChars_string`: strings in print.
- `Json.readValue_of_readNumber`: numbers as values.
- `Json.toList_block_cons`: the lines of a list or an object.
- `Json.readItems_lines`, `Json.readMembers_lines`: the items of a list and the members of an object
  in print.
- `Json.readsBack`: values in print, by induction on the value.
- `Json.read?_pretty`: a whole value in print.
-/

namespace PiecewiseLinear.Json

variable {g s rest : List Char}

/-! ## Blanks -/

theorem skip_append (hg : ∀ c ∈ g, isBlank c = true) : skip (g ++ s) = skip s :=
  List.dropWhile_append_of_pos hg

theorem skip_cons {c : Char} (hc : isBlank c = false) : skip (c :: s) = c :: s :=
  List.dropWhile_cons_of_neg (by rw [hc]; exact Bool.false_ne_true)

/-- A line end and the blanks of the next line. -/
def newLine (depth : Nat) : List Char := '\n' :: List.replicate (2 * depth) ' '

theorem isBlank_newLine (depth : Nat) : ∀ c ∈ newLine depth, isBlank c = true := by
  intro c hc
  rcases List.mem_cons.mp hc with rfl | hc
  · rfl
  · rw [List.eq_of_mem_replicate hc]
    rfl

theorem endsLiteral_cons_of {c : Char} (h : isBlank c = true ∨ c = ',' ∨ c = ']' ∨ c = '\x7d') :
    EndsLiteral (c :: s) := by
  rintro d ⟨⟩
  rw [isBlank] at h
  simp only [Bool.or_eq_true, decide_eq_true_eq] at h
  rcases h with (((rfl | rfl) | rfl) | rfl) | rfl | rfl | rfl <;> decide

theorem endsLiteral_comma (s : List Char) : EndsLiteral (',' :: s) :=
  endsLiteral_cons_of (.inr (.inl rfl))

/-- A value ends where blanks or a separator follow. -/
theorem endsLiteral_append {c : Char} (hg : ∀ c ∈ g, isBlank c = true)
    (hc : c = ',' ∨ c = ']' ∨ c = '\x7d') : EndsLiteral (g ++ c :: s) := by
  cases g with
  | nil => exact endsLiteral_cons_of (.inr hc)
  | cons d g => exact endsLiteral_cons_of (.inl (hg d List.mem_cons_self))

/-! ## Strings -/

/-- A control character has a code point of two zeros and two digits. -/
theorem codePoint?_fourDigits : ∀ n < 32,
    fourDigits n = ['0', '0', Nat.digitChar (n / 16), Nat.digitChar (n % 16)] ∧
      codePoint? '0' '0' (Nat.digitChar (n / 16)) (Nat.digitChar (n % 16)) =
        some (Char.ofNat n) := by
  decide

/-- A character in print reads back. -/
theorem readChars_escaped (c : Char) (s : List Char) :
    readChars (escaped c ++ s) = (readChars s).map fun (cs, rest) => (c :: cs, rest) := by
  unfold escaped
  split
  -- the characters with an escape of their own
  iterate 7 rfl
  next hquote hbackslash _ _ _ _ _ =>
    split_ifs with hcontrol
    · obtain ⟨hdigits, hcode⟩ := codePoint?_fourDigits c.toNat hcontrol
      rw [hdigits]
      show (codePoint? '0' '0' _ _).bind _ = _
      rw [hcode, Char.ofNat_toNat, Option.bind_some]
      rfl
    · rw [List.singleton_append, readChars]
      · exact hquote
      · exact fun _ _ _ _ _ h => absurd h hbackslash
      · exact fun _ _ h => absurd h hbackslash
      · exact fun h => absurd h hbackslash

/-- The characters of a string in print read back. -/
theorem readChars_string (cs rest : List Char) :
    readChars (cs.flatMap escaped ++ '"' :: rest) = some (cs, rest) := by
  induction cs with
  | nil => rfl
  | cons c cs ih =>
    rw [List.flatMap_cons, List.append_assoc, readChars_escaped, ih, Option.map_some]

theorem toList_string (s : String) :
    (string s).toList = '"' :: (s.toList.flatMap escaped ++ ['"']) := String.toList_ofList

/-! ## Values -/

/-- Blanks in front of a value do not matter. -/
theorem readValue_append (hg : ∀ c ∈ g, isBlank c = true) (fuel : Nat) (s : List Char) :
    readValue fuel (g ++ s) = readValue fuel s := by
  cases fuel with
  | zero => rfl
  | succ fuel => rw [readValue, readValue, skip_append hg]

/-- A number begins with a digit, a sign or a point. -/
theorem head_of_readNumber {value : Json} (h : readNumber s = some (value, rest)) :
    ∃ c t, s = c :: t ∧ (c = '-' ∨ c = '.' ∨ c.isDigit = true) := by
  cases s with
  | nil => cases h
  | cons c t =>
    refine ⟨c, t, rfl, ?_⟩
    by_contra hne
    obtain ⟨hsign, hne⟩ := not_or.mp hne
    obtain ⟨hpoint, hdigit⟩ := not_or.mp hne
    have hscan : Decimal.scan (c :: t) = none := Decimal.scan_eq_none <| by
      rintro d ⟨⟩
      exact ⟨Bool.not_eq_true _ ▸ hdigit, hpoint⟩
    unfold readNumber at h
    split at h
    · next heq => exact hsign (List.cons.inj heq).1
    · rw [readMagnitude, hscan] at h
      cases h

/-- What begins like a number is no blank and begins no other value. -/
theorem head_ne_of_number {c : Char} (h : c = '-' ∨ c = '.' ∨ c.isDigit = true) :
    isBlank c = false ∧ ∀ d ∈ ['n', 't', 'f', '"', '[', ']', '\x7b'], c ≠ d := by
  constructor
  · rcases h with rfl | rfl | hdigit
    · rfl
    · rfl
    · by_contra hblank
      rw [Bool.not_eq_false, isBlank] at hblank
      simp only [Bool.or_eq_true, decide_eq_true_eq] at hblank
      rcases hblank with ((rfl | rfl) | rfl) | rfl <;> cases hdigit
  · rintro d hd rfl
    rcases h with rfl | rfl | hdigit
    · exact absurd hd (by decide)
    · exact absurd hd (by decide)
    · simp only [List.mem_cons, List.not_mem_nil, or_false] at hd
      rcases hd with rfl | rfl | rfl | rfl | rfl | rfl | rfl <;> cases hdigit

/-- Numbers are values. -/
theorem readValue_of_readNumber {value : Json} (fuel : Nat)
    (h : readNumber s = some (value, rest)) : readValue (fuel + 1) s = some (value, rest) := by
  obtain ⟨c, t, rfl, hc⟩ := head_of_readNumber h
  obtain ⟨hblank, hne⟩ := head_ne_of_number hc
  rw [readValue, skip_cons hblank]
  split
  iterate 6 next heq => exact absurd (List.cons.inj heq).1 (hne _ (by decide))
  exact h

/-! ## Lists and objects in print -/

/-- The lines of the further items or members of a list or an object. -/
def furtherLines (depth : Nat) (texts : List String) : List Char :=
  texts.flatMap fun text => ',' :: (newLine depth ++ text.toList)

theorem furtherLines_cons (depth : Nat) (text : String) (texts : List String) :
    furtherLines depth (text :: texts) =
      ',' :: (newLine depth ++ (text.toList ++ furtherLines depth texts)) := by
  rw [furtherLines, List.flatMap_cons, List.cons_append, List.append_assoc]
  rfl

theorem toList_block_cons (depth : Nat) (opening closing text : String) (texts : List String) :
    (block depth opening closing (text :: texts)).toList =
      opening.toList ++ (newLine (depth + 1) ++ (text.toList ++
        (furtherLines (depth + 1) texts ++ (newLine depth ++ closing.toList)))) := by
  have hindentation (depth : Nat) :
      (indentation depth).toList = List.replicate (2 * depth) ' ' := String.toList_ofList
  simp [block, newLine, furtherLines, hindentation, intercalate_cons, List.flatMap_map]

/-! ## Values in print -/

/-- Induction over values: what holds of an array or an object may be taken to hold of its parts. -/
theorem induction {motive : Json → Prop} (null : motive null) (bool : ∀ b, motive (bool b))
    (int : ∀ n, motive (int n)) (real : ∀ v, motive (real v)) (str : ∀ s, motive (str s))
    (arr : ∀ items, (∀ item ∈ items, motive item) → motive (arr items))
    (obj : ∀ members, (∀ member ∈ members, motive member.2) → motive (obj members))
    (value : Json) : motive value :=
  @Json.rec motive (fun items => ∀ item ∈ items, motive item)
    (fun members => ∀ member ∈ members, motive member.2) (fun member => motive member.2)
    null bool int real str arr obj
    nofun (fun _ _ hitem hitems => List.forall_mem_cons.mpr ⟨hitem, hitems⟩)
    nofun (fun _ _ hmember hmembers => List.forall_mem_cons.mpr ⟨hmember, hmembers⟩)
    (fun _ _ hvalue => hvalue) value

/-- A value in print begins neither with a blank nor with the end of a list. -/
theorem exists_prettyAt_eq_cons (value : Json) (depth : Nat) :
    ∃ c t, (prettyAt depth value).toList = c :: t ∧ isBlank c = false ∧ c ≠ ']' := by
  have hnumber {s : List Char} {value : Json} (h : readNumber (s ++ []) = some (value, [])) :
      ∃ c t, s = c :: t ∧ isBlank c = false ∧ c ≠ ']' := by
    rw [List.append_nil] at h
    obtain ⟨c, t, rfl, hc⟩ := head_of_readNumber h
    obtain ⟨hblank, hne⟩ := head_ne_of_number hc
    exact ⟨c, t, rfl, hblank, hne _ (by decide)⟩
  have hnil : EndsLiteral [] := nofun
  cases value with
  | null =>
    have htext : "null".toList = ['n', 'u', 'l', 'l'] := by decide
    exact ⟨_, _, htext, by decide, by decide⟩
  | bool b =>
    cases b with
    | false =>
      have htext : "false".toList = ['f', 'a', 'l', 's', 'e'] := by decide
      exact ⟨_, _, htext, by decide, by decide⟩
    | true =>
      have htext : "true".toList = ['t', 'r', 'u', 'e'] := by decide
      exact ⟨_, _, htext, by decide, by decide⟩
  | int n => exact hnumber (readNumber_int n hnil)
  | real v =>
    by_cases hfinite : v.isFinite = true
    · exact hnumber (readNumber_number hfinite hnil)
    · rw [prettyAt, number, if_neg hfinite]
      exact ⟨'n', ['u', 'l', 'l'], by decide, by decide, by decide⟩
  | str s => exact ⟨'"', _, toList_string s, by decide, by decide⟩
  | arr items =>
    cases items with
    | nil =>
      have htext : ("[" ++ "]").toList = ['[', ']'] := by decide
      exact ⟨_, _, htext, by decide, by decide⟩
    | cons item items =>
      rw [prettyAt, prettyItems, toList_block_cons]
      exact ⟨'[', _, rfl, by decide, by decide⟩
  | obj members =>
    cases members with
    | nil =>
      have htext : ("\x7b" ++ "\x7d").toList = ['\x7b', '\x7d'] := by decide
      exact ⟨_, _, htext, by decide, by decide⟩
    | cons member members =>
      rw [prettyAt, prettyMembers, toList_block_cons]
      exact ⟨'\x7b', _, rfl, by decide, by decide⟩

/-- Nothing is skipped in front of a value, and no value begins like the end of an array. -/
theorem skip_prettyAt_append (value : Json) (depth : Nat) (s : List Char) :
    skip ((prettyAt depth value).toList ++ s) = (prettyAt depth value).toList ++ s ∧
      ((prettyAt depth value).toList ++ s).head? ≠ some ']' := by
  obtain ⟨c, t, htext, hblank, hne⟩ := exists_prettyAt_eq_cons value depth
  rw [htext, List.cons_append, skip_cons hblank]
  exact ⟨rfl, fun h => hne (Option.some.inj h)⟩

/-- A value in print reads back, up to the reals that JSON has no numbers for. -/
def ReadsBack (value : Json) : Prop :=
  ∀ (depth fuel : Nat) (rest : List Char), (prettyAt depth value).toList.length ≤ fuel →
    EndsLiteral rest →
      readValue fuel ((prettyAt depth value).toList ++ rest) = some (value.inPrint, rest)

/-- No text of a value is empty, so some fuel is left to read it. -/
theorem exists_fuel {value : Json} {depth fuel : Nat}
    (h : (prettyAt depth value).toList.length ≤ fuel) : ∃ n, fuel = n + 1 := by
  obtain ⟨c, t, htext, -, -⟩ := exists_prettyAt_eq_cons value depth
  rw [htext, List.length_cons] at h
  exact Nat.exists_eq_add_one_of_ne_zero (by omega)

theorem readItems_append (hg : ∀ c ∈ g, isBlank c = true) (fuel : Nat) (s : List Char) :
    readItems fuel (g ++ s) = readItems fuel s := by
  cases fuel with
  | zero => rfl
  | succ fuel => rw [readItems, readItems, readValue_append hg]

theorem readMembers_append (hg : ∀ c ∈ g, isBlank c = true) (fuel : Nat) (s : List Char) :
    readMembers fuel (g ++ s) = readMembers fuel s := by
  cases fuel with
  | zero => rfl
  | succ fuel => rw [readMembers, readMembers, skip_append hg]

/-- An item with a comma behind it is followed by others. -/
theorem readItems_next {t u : List Char} {item : Json} {fuel : Nat}
    (hitem : readValue fuel s = some (item, t)) (ht : skip t = ',' :: u) :
    readItems (fuel + 1) s = (readItems fuel u).map fun (items, rest) => (item :: items, rest) := by
  rw [readItems, hitem]
  simp only [Option.bind_eq_bind, Option.bind_some, ht]

/-- An item with a closing bracket behind it is the last one. -/
theorem readItems_last {t u : List Char} {item : Json} {fuel : Nat}
    (hitem : readValue fuel s = some (item, t)) (ht : skip t = ']' :: u) :
    readItems (fuel + 1) s = some ([item], u) := by
  rw [readItems, hitem]
  simp only [Option.bind_eq_bind, Option.bind_some, ht]

/-- A list that does not end where it begins is its items. -/
theorem readValue_list (hg : ∀ c ∈ g, isBlank c = true) (hs : skip s = s)
    (hne : s.head? ≠ some ']') (fuel : Nat) :
    readValue (fuel + 1) ('[' :: (g ++ s)) =
      (readItems fuel s).map fun (items, rest) => (arr items, rest) := by
  rw [readValue, skip_cons (by decide)]
  simp only [skip_append hg, hs]
  split
  · exact absurd rfl hne
  · rfl

/-- An object that does not end where it begins is its members. -/
theorem readValue_object (hg : ∀ c ∈ g, isBlank c = true) (fuel : Nat) (s : List Char) :
    readValue (fuel + 1) ('\x7b' :: (g ++ '"' :: s)) =
      (readMembers fuel ('"' :: s)).map fun (members, rest) => (obj members, rest) := by
  have hquote : skip ('"' :: s) = '"' :: s := skip_cons (by decide)
  rw [readValue, skip_cons (by decide)]
  simp only [skip_append hg, hquote]
  rfl

/-- The items of a list in print read back, each after the other. -/
theorem readItems_lines {item : Json} {items : List Json} (hitem : ReadsBack item)
    (hitems : ∀ item ∈ items, ReadsBack item) (hg : ∀ c ∈ g, isBlank c = true)
    {depth fuel : Nat} (rest : List Char)
    (hfuel : ((prettyAt depth item).toList ++
      (furtherLines depth (prettyItems depth items) ++ (g ++ [']']))).length ≤ fuel) :
    readItems fuel ((prettyAt depth item).toList ++
      (furtherLines depth (prettyItems depth items) ++ (g ++ ']' :: rest))) =
        some (item.inPrint :: itemsInPrint items, rest) := by
  induction items generalizing item fuel with
  | nil =>
    simp only [prettyItems, furtherLines, List.flatMap_nil, List.nil_append,
      List.length_append, List.length_singleton] at hfuel ⊢
    obtain ⟨fuel, rfl⟩ := Nat.exists_eq_add_one_of_ne_zero (show fuel ≠ 0 by omega)
    have hend : EndsLiteral (g ++ ']' :: rest) := endsLiteral_append hg (.inr (.inl rfl))
    have hskip : skip (g ++ ']' :: rest) = ']' :: rest :=
      (skip_append hg).trans (skip_cons (by decide))
    exact readItems_last (hitem depth fuel _ (by omega) hend) hskip
  | cons next items ih =>
    obtain ⟨hnext, hitems⟩ := List.forall_mem_cons.mp hitems
    rw [prettyItems, furtherLines_cons] at hfuel ⊢
    simp only [List.cons_append, List.append_assoc, List.length_append, List.length_cons,
      List.length_nil] at hfuel ⊢
    obtain ⟨fuel, rfl⟩ := Nat.exists_eq_add_one_of_ne_zero (show fuel ≠ 0 by omega)
    have hlength : ((prettyAt depth next).toList ++
        (furtherLines depth (prettyItems depth items) ++ (g ++ [']']))).length ≤ fuel := by
      simp only [List.length_append, List.length_cons, List.length_nil]
      omega
    have hread (s : List Char) := hitem depth fuel (',' :: s) (by omega) (endsLiteral_comma s)
    rw [readItems_next (hread _) (skip_cons (by decide)),
      readItems_append (isBlank_newLine depth), ih hnext hitems hlength]
    rfl

/-- A member in print: its name, a colon and a blank, and its value. -/
def memberText (depth : Nat) (key : String) (value : Json) : String :=
  string key ++ ": " ++ prettyAt depth value

theorem toList_memberText (depth : Nat) (key : String) (value : Json) :
    (memberText depth key value).toList =
      '"' :: (key.toList.flatMap escaped ++
        '"' :: ':' :: ' ' :: (prettyAt depth value).toList) := by
  have hcolon : ": ".toList = [':', ' '] := by decide
  rw [memberText, String.toList_append, String.toList_append, toList_string, hcolon]
  simp

/-- A member with a comma behind it is followed by others. -/
theorem readMembers_next {t u v key : List Char} {value : Json} {fuel : Nat}
    (hkey : readChars s = some (key, ':' :: t)) (hvalue : readValue fuel t = some (value, u))
    (hu : skip u = ',' :: v) :
    readMembers (fuel + 1) ('"' :: s) =
      (readMembers fuel v).map fun (members, rest) =>
        ((String.ofList key, value) :: members, rest) := by
  have hcolon : skip (':' :: t) = ':' :: t := skip_cons (by decide)
  rw [readMembers, skip_cons (by decide)]
  simp only [hkey, hcolon, hvalue, hu, Option.bind_eq_bind, Option.bind_some]

/-- A member with a closing brace behind it is the last one. -/
theorem readMembers_last {t u v key : List Char} {value : Json} {fuel : Nat}
    (hkey : readChars s = some (key, ':' :: t)) (hvalue : readValue fuel t = some (value, u))
    (hu : skip u = '\x7d' :: v) :
    readMembers (fuel + 1) ('"' :: s) = some ([(String.ofList key, value)], v) := by
  have hcolon : skip (':' :: t) = ':' :: t := skip_cons (by decide)
  rw [readMembers, skip_cons (by decide)]
  simp only [hkey, hcolon, hvalue, hu, Option.bind_eq_bind, Option.bind_some]

/-- A member in print is a quote, its name up to a colon, and its value. -/
theorem exists_memberText_eq_cons {key : String} {value : Json} (hvalue : ReadsBack value)
    {depth fuel : Nat} (hfuel : (memberText depth key value).toList.length ≤ fuel + 1)
    (hrest : EndsLiteral rest) :
    ∃ s t, (memberText depth key value).toList ++ rest = '"' :: s ∧
      readChars s = some (key.toList, ':' :: t) ∧
      readValue fuel t = some (value.inPrint, rest) := by
  have hblank : ∀ c ∈ [' '], isBlank c = true := by simp [isBlank]
  rw [toList_memberText] at hfuel ⊢
  simp only [List.cons_append, List.append_assoc, List.length_append, List.length_cons] at hfuel ⊢
  refine ⟨_, _, rfl, readChars_string _ _, ?_⟩
  exact (readValue_append hblank fuel _).trans (hvalue depth fuel rest (by omega) hrest)

/-- The members of an object in print read back, each after the other. -/
theorem readMembers_lines {key : String} {value : Json} {members : List (String × Json)}
    (hvalue : ReadsBack value) (hmembers : ∀ member ∈ members, ReadsBack member.2)
    (hg : ∀ c ∈ g, isBlank c = true) {depth fuel : Nat} (rest : List Char)
    (hfuel : ((memberText depth key value).toList ++
      (furtherLines depth (prettyMembers depth members) ++ (g ++ ['\x7d']))).length ≤ fuel) :
    readMembers fuel ((memberText depth key value).toList ++
      (furtherLines depth (prettyMembers depth members) ++ (g ++ '\x7d' :: rest))) =
        some ((key, value.inPrint) :: membersInPrint members, rest) := by
  induction members generalizing key value fuel with
  | nil =>
    simp only [prettyMembers, furtherLines, List.flatMap_nil, List.nil_append,
      List.length_append, List.length_singleton] at hfuel ⊢
    obtain ⟨fuel, rfl⟩ := Nat.exists_eq_add_one_of_ne_zero (show fuel ≠ 0 by omega)
    have hend : EndsLiteral (g ++ '\x7d' :: rest) := endsLiteral_append hg (.inr (.inr rfl))
    have hskip : skip (g ++ '\x7d' :: rest) = '\x7d' :: rest :=
      (skip_append hg).trans (skip_cons (by decide))
    have hmember : (memberText depth key value).toList.length ≤ fuel + 1 := by omega
    obtain ⟨s, t, htext, hkey, hread⟩ := exists_memberText_eq_cons hvalue hmember hend
    rw [htext, readMembers_last hkey hread hskip, String.ofList_toList]
    rfl
  | cons next members ih =>
    obtain ⟨nextKey, nextValue⟩ := next
    obtain ⟨hnext, hmembers⟩ := List.forall_mem_cons.mp hmembers
    rw [prettyMembers, furtherLines_cons] at hfuel ⊢
    simp only [List.cons_append, List.append_assoc, List.length_append, List.length_cons,
      List.length_nil] at hfuel ⊢
    obtain ⟨fuel, rfl⟩ := Nat.exists_eq_add_one_of_ne_zero (show fuel ≠ 0 by omega)
    have hlength : ((memberText depth nextKey nextValue).toList ++
        (furtherLines depth (prettyMembers depth members) ++ (g ++ ['\x7d']))).length ≤ fuel := by
      simp only [memberText, List.length_append, List.length_cons, List.length_nil]
      omega
    have hmember : (memberText depth key value).toList.length ≤ fuel + 1 := by omega
    obtain ⟨s, t, htext, hkey, hread⟩ :=
      exists_memberText_eq_cons hvalue hmember (endsLiteral_comma _)
    rw [htext, readMembers_next hkey hread (skip_cons (by decide)), String.ofList_toList,
      readMembers_append (isBlank_newLine depth)]
    exact congrArg _ (ih hnext hmembers hlength)

theorem readValue_null (fuel : Nat) (rest : List Char) :
    readValue (fuel + 1) ("null".toList ++ rest) = some (null, rest) := by
  have htext : "null".toList = ['n', 'u', 'l', 'l'] := by decide
  rw [htext]
  rfl

theorem readValue_bool (b : Bool) (fuel : Nat) (rest : List Char) :
    readValue (fuel + 1) ((toString b).toList ++ rest) = some (bool b, rest) := by
  cases b with
  | false =>
    have htext : (toString false).toList = ['f', 'a', 'l', 's', 'e'] := by decide
    rw [htext]
    rfl
  | true =>
    have htext : (toString true).toList = ['t', 'r', 'u', 'e'] := by decide
    rw [htext]
    rfl

theorem readValue_string (s : String) (fuel : Nat) (rest : List Char) :
    readValue (fuel + 1) ((string s).toList ++ rest) = some (str s, rest) := by
  rw [toList_string, List.cons_append, List.append_assoc, readValue, skip_cons (by decide)]
  show (readChars (s.toList.flatMap escaped ++ '"' :: rest)).map _ = _
  rw [readChars_string, Option.map_some]
  exact congrArg (fun s => some (str s, rest)) String.ofList_toList

/-- A list reads back if its items do. -/
theorem readsBack_arr {items : List Json} (h : ∀ item ∈ items, ReadsBack item) :
    ReadsBack (arr items) := by
  intro depth fuel rest hfuel hrest
  obtain ⟨fuel, rfl⟩ := exists_fuel hfuel
  cases items with
  | nil =>
    have htext : ("[" ++ "]").toList = ['[', ']'] := by decide
    show readValue (fuel + 1) (("[" ++ "]").toList ++ rest) = _
    rw [htext]
    rfl
  | cons item items =>
    obtain ⟨hitem, hitems⟩ := List.forall_mem_cons.mp h
    have hopening : "[".toList = ['['] := by decide
    have hclosing : "]".toList = [']'] := by decide
    rw [prettyAt, prettyItems, toList_block_cons, hopening, hclosing] at hfuel ⊢
    have hlength : ((prettyAt (depth + 1) item).toList ++
        (furtherLines (depth + 1) (prettyItems (depth + 1) items) ++
          (newLine depth ++ [']']))).length ≤ fuel := by
      simp only [List.length_append, List.length_cons, List.length_nil] at hfuel ⊢
      omega
    have hread := readItems_lines hitem hitems (isBlank_newLine depth) rest hlength
    obtain ⟨hskip, hne⟩ := skip_prettyAt_append item (depth + 1)
      (furtherLines (depth + 1) (prettyItems (depth + 1) items) ++ (newLine depth ++ ']' :: rest))
    simp only [List.cons_append, List.nil_append, List.append_assoc]
    rw [readValue_list (isBlank_newLine _) hskip hne, hread]
    rfl

/-- An object reads back if the values of its members do. -/
theorem readsBack_obj {members : List (String × Json)}
    (h : ∀ member ∈ members, ReadsBack member.2) : ReadsBack (obj members) := by
  intro depth fuel rest hfuel hrest
  obtain ⟨fuel, rfl⟩ := exists_fuel hfuel
  cases members with
  | nil =>
    have htext : ("\x7b" ++ "\x7d").toList = ['\x7b', '\x7d'] := by decide
    show readValue (fuel + 1) (("\x7b" ++ "\x7d").toList ++ rest) = _
    rw [htext]
    rfl
  | cons member members =>
    obtain ⟨key, value⟩ := member
    obtain ⟨hvalue, hmembers⟩ := List.forall_mem_cons.mp h
    have htext := toList_memberText (depth + 1) key value
    have hopening : "\x7b".toList = ['\x7b'] := by decide
    have hclosing : "\x7d".toList = ['\x7d'] := by decide
    rw [prettyAt, prettyMembers, toList_block_cons, hopening, hclosing] at hfuel ⊢
    have hlength : ((memberText (depth + 1) key value).toList ++
        (furtherLines (depth + 1) (prettyMembers (depth + 1) members) ++
          (newLine depth ++ ['\x7d']))).length ≤ fuel := by
      simp only [memberText, List.length_append, List.length_cons, List.length_nil] at hfuel ⊢
      omega
    have hread := readMembers_lines hvalue hmembers (isBlank_newLine depth) rest hlength
    have hmember : string key ++ ": " ++ prettyAt (depth + 1) value =
        memberText (depth + 1) key value := rfl
    simp only [List.cons_append, List.nil_append, List.append_assoc, hmember]
    rw [htext] at hread ⊢
    rw [List.cons_append] at hread ⊢
    rw [readValue_object (isBlank_newLine _), hread]
    rfl

/-- **A value in print** reads back, up to the reals that JSON has no numbers for. -/
theorem readsBack (value : Json) : ReadsBack value := by
  induction value using induction with
  | null =>
    intro depth fuel rest hfuel hrest
    obtain ⟨fuel, rfl⟩ := exists_fuel hfuel
    exact readValue_null fuel rest
  | bool b =>
    intro depth fuel rest hfuel hrest
    obtain ⟨fuel, rfl⟩ := exists_fuel hfuel
    exact readValue_bool b fuel rest
  | int n =>
    intro depth fuel rest hfuel hrest
    obtain ⟨fuel, rfl⟩ := exists_fuel hfuel
    exact readValue_of_readNumber fuel (readNumber_int n hrest)
  | real v =>
    intro depth fuel rest hfuel hrest
    obtain ⟨fuel, rfl⟩ := exists_fuel hfuel
    rw [prettyAt, inPrint]
    by_cases hfinite : v.isFinite = true
    · rw [if_pos hfinite]
      exact readValue_of_readNumber fuel (readNumber_number hfinite hrest)
    · rw [number, if_neg hfinite, if_neg hfinite]
      exact readValue_null fuel rest
  | str s =>
    intro depth fuel rest hfuel hrest
    obtain ⟨fuel, rfl⟩ := exists_fuel hfuel
    exact readValue_string s fuel rest
  | arr items ih => exact readsBack_arr ih
  | obj members ih => exact readsBack_obj ih

/-- **A whole value in print** reads back, whatever blanks end the text. -/
theorem read?_pretty (value : Json) {ending : String} (h : ∀ c ∈ ending.toList, isBlank c = true) :
    read? (value.pretty ++ ending) = some value.inPrint := by
  have hend : EndsLiteral ending.toList := by
    cases htext : ending.toList with
    | nil => exact nofun
    | cons c s => exact endsLiteral_cons_of (.inl (h c (htext ▸ List.mem_cons_self)))
  have hskip : skip ending.toList = [] := by
    rw [← List.append_nil ending.toList]
    exact skip_append h
  have hread := readsBack value 0 (value.pretty ++ ending).toList.length ending.toList
    (by rw [String.toList_append, List.length_append]; exact Nat.le_add_right _ _) hend
  rw [String.toList_append, pretty] at hread
  rw [read?, String.toList_append, pretty, hread]
  exact if_pos hskip

end PiecewiseLinear.Json
