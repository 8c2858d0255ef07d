import PiecewiseLinear.Proofs.Script.Print
import PiecewiseLinear.Proofs.Script.Statement

/-!
# Functions in any layout

Every layout of a function is one of its texts, whatever stands in its gaps, and the function in
print is one of its layouts.

- `Function.printed_stretches`: the stretches of a function are what is printed.
- `Function.written_of_laidOut`: what is laid out is written.
- `Function.laidOut_text`: what is printed is laid out.
- `Function.parse_laidOut`: a function is read as itself in every layout.
-/

namespace PiecewiseLinear.Script

variable {s r : List Char} {a b : List Stretch} {stmt : Stmt} {body : List Stmt} {f : Function}

/-! ## Gaps -/

theorem skipLayoutFrom_of_not_mem {text : List Char} (h : '\n' ∉ text) :
    skipLayoutFrom true text = [] := by
  induction text with
  | nil => rfl
  | cons c text ih =>
    rw [List.mem_cons, not_or] at h
    rw [skipLayoutFrom, if_pos rfl, show (c != '\n') = true by simpa using Ne.symm h.1]
    exact ih h.2

/-- Nothing is left of the end of a text, whether or not its last comment is closed. -/
theorem IsEnd.skipLayout (h : IsEnd r) : skipLayout r = [] := by
  cases h with
  | gap hg =>
    have hskip := hg.isLayout []
    rwa [List.append_nil] at hskip
  | comment hg htext => exact (hg.isLayout _).trans (skipLayoutFrom_of_not_mem htext)

theorem isGap_replicate_blank (count : Nat) : IsGap (List.replicate count ' ') := by
  induction count with
  | zero => exact .nil
  | succ count ih => exact .cons rfl ih

/-- The indentation of a new line is a gap. -/
theorem isGap_newLine (depth : Nat) : IsGap (newLine depth).toList := by
  have hgap : IsGap ('\n' :: List.replicate (4 * depth) ' ') := .cons rfl (isGap_replicate_blank _)
  simpa [newLine, indentation] using hgap

theorem newLine_ne_empty (depth : Nat) : (newLine depth).toList ≠ [] := by
  rw [newLine, String.toList_append]
  exact List.cons_ne_nil _ _

/-! ## Stretches -/

theorem laidOut_nil_iff : LaidOut [] s ↔ s = [] := by
  constructor
  · rintro ⟨⟩
    rfl
  · rintro rfl
    exact .nil

theorem laidOut_words_iff {text : String} :
    LaidOut (.words text :: a) s ↔ ∃ t, s = text.toList ++ t ∧ LaidOut a t := by
  constructor
  · rintro (_ | h)
    exact ⟨_, rfl, h⟩
  · rintro ⟨t, rfl, h⟩
    exact .words h

theorem laidOut_gap_iff {separates : Bool} {printed : String} :
    LaidOut (.gap separates printed :: a) s ↔
      ∃ g t, s = g ++ t ∧ IsGap g ∧ (separates = true → g ≠ []) ∧ LaidOut a t := by
  constructor
  · rintro (_ | _ | ⟨hg, hne, h⟩)
    exact ⟨_, _, rfl, hg, hne, h⟩
  · rintro ⟨g, t, rfl, hg, hne, h⟩
    exact .gap hg hne h

/-- A text laid out from two lists of stretches falls into the texts of the two. -/
theorem LaidOut.exists_of_append (h : LaidOut (a ++ b) s) :
    ∃ t u, s = t ++ u ∧ LaidOut a t ∧ LaidOut b u := by
  induction a generalizing s with
  | nil => exact ⟨[], s, rfl, .nil, h⟩
  | cons stretch a ih =>
    cases h with
    | words h =>
      obtain ⟨t, u, rfl, ht, hu⟩ := ih h
      exact ⟨_, u, (List.append_assoc ..).symm, .words ht, hu⟩
    | gap hg hne h =>
      obtain ⟨t, u, rfl, ht, hu⟩ := ih h
      exact ⟨_, u, (List.append_assoc ..).symm, .gap hg hne ht, hu⟩

/-! ## Stretches in print -/

/-- Lines that follow another line. -/
def onNewLines (lines : List String) : List Char := lines.flatMap fun l => '\n' :: l.toList

theorem onNewLines_flatMap_lines (body : List Stmt) (depth : Nat) :
    onNewLines (body.flatMap (Stmt.lines depth)) =
      body.flatMap fun stmt => onNewLines (stmt.lines depth) := List.flatMap_assoc

@[simp] theorem Stretch.text_words (text : String) : (words text).text = text := rfl

@[simp] theorem Stretch.text_gap (separates : Bool) (printed : String) :
    (gap separates printed).text = printed := rfl

theorem toList_printed (stretches : List Stretch) :
    (printed stretches).toList = stretches.flatMap fun stretch => stretch.text.toList := by
  rw [printed, String.toList_join, List.flatMap_map]

/-- Whether a stretch is laid out as it is printed. Words always are. -/
def Stretch.IsPrinted : Stretch → Prop
  | words _ => True
  | gap separates printed => IsGap printed.toList ∧ (separates = true → printed.toList ≠ [])

/-- Stretches are laid out as they are printed. -/
theorem laidOut_printed (h : ∀ stretch ∈ a, stretch.IsPrinted) :
    LaidOut a (a.flatMap fun stretch => stretch.text.toList) := by
  induction a with
  | nil => exact .nil
  | cons stretch a ih =>
    obtain ⟨hstretch, ha⟩ := List.forall_mem_cons.mp h
    cases stretch with
    | words text => exact .words (ih ha)
    | gap separates printed => exact .gap hstretch.1 hstretch.2 (ih ha)

theorem isPrinted_words (text : String) : (Stretch.words text).IsPrinted := trivial

theorem isPrinted_empty : (Stretch.gap false "").IsPrinted :=
  ⟨.nil, fun h => absurd h Bool.false_ne_true⟩

theorem isPrinted_newLine (separates : Bool) (depth : Nat) :
    (Stretch.gap separates (newLine depth)).IsPrinted :=
  ⟨isGap_newLine depth, fun _ => newLine_ne_empty depth⟩

namespace Stmt

theorem isPrinted_branchStretches (keyword : String) (depth : Nat) (test value : Expr) :
    ∀ stretch ∈ branchStretches keyword depth test value, stretch.IsPrinted := by
  simp [branchStretches, isPrinted_words, isPrinted_newLine]

theorem isPrinted_alternativeStretches (depth : Nat) (alternative : Option Stmt) :
    ∀ stretch ∈ alternativeStretches depth alternative, stretch.IsPrinted := by
  fun_induction alternativeStretches depth alternative with
  | case1 => exact List.forall_mem_nil _
  | case2 test value alternative ih =>
    exact List.forall_mem_cons.mpr ⟨isPrinted_newLine true depth,
      List.forall_mem_append.mpr ⟨isPrinted_branchStretches _ _ _ _, ih⟩⟩
  | case3 | case4 => simp [isPrinted_words, isPrinted_newLine]

theorem isPrinted_stretches (depth : Nat) (stmt : Stmt) :
    ∀ stretch ∈ stmt.stretches depth, stretch.IsPrinted := by
  cases stmt with
  | cond test value alternative =>
    exact List.forall_mem_append.mpr
      ⟨isPrinted_branchStretches _ _ _ _, isPrinted_alternativeStretches _ _⟩
  | ret | assign => simp [stretches, isPrinted_words]

/-- What follows a conditional is printed as its stretches are. -/
theorem onNewLines_alternativeLines (depth : Nat) (alternative : Option Stmt) :
    onNewLines (alternativeLines depth alternative) =
      (alternativeStretches depth alternative).flatMap fun stretch => stretch.text.toList := by
  fun_induction alternativeStretches depth alternative with
  | case1 => simp [onNewLines, alternativeLines]
  | case2 test value alternative ih =>
    simp only [alternativeLines, onNewLines, List.flatMap_cons, List.flatMap_append] at ih ⊢
    rw [ih]
    simp [branchStretches, newLine, line]
  | case3 value => simp [onNewLines, alternativeLines, newLine, line]
  | case4 name value => simp [onNewLines, alternativeLines, newLine, line]

/-- A statement is printed on lines of its own. -/
theorem onNewLines_lines (depth : Nat) (stmt : Stmt) :
    onNewLines (stmt.lines depth) = (newLine depth).toList ++
      (stmt.stretches depth).flatMap fun stretch => stretch.text.toList := by
  cases stmt with
  | cond test value alternative =>
    simp only [lines, onNewLines, List.flatMap_cons, stretches, List.flatMap_append,
      ← onNewLines_alternativeLines]
    simp [branchStretches, newLine, line]
  | ret value => simp [onNewLines, lines, stretches, newLine, line]
  | assign name value => simp [onNewLines, lines, stretches, newLine, line]

end Stmt

/-! ## Layouts are texts -/

namespace Stmt

/-- The layouts of a condition and the value under it are their texts, behind the keyword. -/
theorem writtenBranch_of_laidOut {keyword : String} {depth : Nat} {test value : Expr}
    (htest : test.WellFormed) (hvalue : value.WellFormed)
    (h : LaidOut (branchStretches keyword depth test value) s) :
    ∃ t, s = keyword.toList ++ t ∧ WrittenBranch t (test, value) := by
  simp only [branchStretches, laidOut_words_iff, laidOut_gap_iff, laidOut_nil_iff] at h
  obtain ⟨_, rfl, g, _, rfl, hg, -, _, rfl, rfl⟩ := h
  refine ⟨_, ?_, .intro (Expr.written_disjunction_text htest) hg.isLayout
    (Expr.written_disjunction_text hvalue)⟩
  simp

/-- The layouts of an alternative are its texts, where that is so of the statement in it. -/
theorem writtenAlternative_of_forall {alternative : Option Stmt} {depth : Nat}
    (h : ∀ stmt ∈ alternative, LaidOut (alternativeStretches depth (some stmt)) s →
      WrittenAlternative s (some stmt))
    (hs : LaidOut (alternativeStretches depth alternative) s) :
    WrittenAlternative s alternative := by
  cases alternative with
  | none =>
    rw [alternativeStretches, laidOut_nil_iff] at hs
    exact hs ▸ .none
  | some stmt => exact h stmt rfl hs

/-- What is laid out behind a conditional is an alternative, unless it is an assignment. -/
theorem writtenAlternative_of_laidOut {depth : Nat} (h : stmt.WellFormed)
    (hassign : stmt.isAssign = false) (hs : LaidOut (alternativeStretches depth (some stmt)) s) :
    WrittenAlternative s (some stmt) := by
  -- along the chain, whose every keyword has a gap of its own in front
  induction h generalizing s with
  | @cond test value alternative htest hvalue _ hassigns ih =>
    rw [alternativeStretches, laidOut_gap_iff] at hs
    obtain ⟨g, _, rfl, hg, hne, hs⟩ := hs
    obtain ⟨_, t, rfl, hs, ht⟩ := hs.exists_of_append
    obtain ⟨u, rfl, hbranch⟩ := writtenBranch_of_laidOut htest hvalue hs
    rw [List.append_assoc]
    exact .further hg.isLayout (hne rfl) hbranch
      (writtenAlternative_of_forall (fun stmt hstmt => ih stmt hstmt (hassigns stmt hstmt)) ht)
  | @ret value hvalue =>
    simp only [alternativeStretches, laidOut_words_iff, laidOut_gap_iff, laidOut_nil_iff] at hs
    obtain ⟨g, _, rfl, hg, hne, _, rfl, g', _, rfl, hg', -, _, rfl, rfl⟩ := hs
    rw [String.toList_append, List.append_nil]
    exact .otherwise hg.isLayout (hne trivial) hg'.isLayout (Expr.written_disjunction_text hvalue)
  | assign => cases hassign

/-- The layouts of a statement that can be written are among its texts. -/
theorem written_of_laidOut {depth : Nat} (h : stmt.WellFormed)
    (hs : LaidOut (stmt.stretches depth) s) : stmt.Written s := by
  cases h with
  | cond htest hvalue halternative hassigns =>
    obtain ⟨_, t, rfl, hs, ht⟩ := hs.exists_of_append
    obtain ⟨u, rfl, hbranch⟩ := writtenBranch_of_laidOut htest hvalue hs
    rw [List.append_assoc]
    exact .cond hbranch (writtenAlternative_of_forall (fun stmt hstmt =>
      writtenAlternative_of_laidOut (halternative stmt hstmt) (hassigns stmt hstmt)) ht)
  | ret hvalue =>
    simp only [stretches, laidOut_words_iff, laidOut_nil_iff] at hs
    obtain ⟨_, rfl, rfl⟩ := hs
    rw [String.toList_append, List.append_nil]
    exact .ret (Expr.written_disjunction_text hvalue)
  | assign hname hvalue =>
    simp only [stretches, laidOut_words_iff, laidOut_nil_iff] at hs
    obtain ⟨_, rfl, rfl⟩ := hs
    rw [String.toList_append, String.toList_append, List.append_nil, List.append_assoc]
    exact .assign hname (Expr.written_disjunction_text hvalue)

end Stmt

/-- The layouts of the statements behind the first one are among their texts, each behind its
gap. -/
theorem writtenMore_of_laidOut {depth : Nat} {printed : String}
    (h : ∀ stmt ∈ body, stmt.WellFormed)
    (hs : LaidOut (body.flatMap fun stmt => .gap true printed :: stmt.stretches depth) s) :
    WrittenMore s body := by
  induction body generalizing s with
  | nil =>
    rw [List.flatMap_nil, laidOut_nil_iff] at hs
    exact hs ▸ .nil
  | cons stmt body ih =>
    obtain ⟨hstmt, hbody⟩ := List.forall_mem_cons.mp h
    rw [List.flatMap_cons, List.cons_append, laidOut_gap_iff] at hs
    obtain ⟨g, _, rfl, hg, hne, hs⟩ := hs
    obtain ⟨t, u, rfl, ht, hu⟩ := hs.exists_of_append
    exact .cons hg.isLayout (hne rfl) (Stmt.written_of_laidOut hstmt ht) (ih hbody hu)

namespace Function

/-- A function with a first statement is laid out as its head, this statement and the others, each
behind a new line. -/
theorem stretches_eq (hbody : f.body = stmt :: body) (hint returns : String) :
    f.stretches hint returns = .gap false "" ::
      .words ("def " ++ f.name ++ "(" ++ f.param ++ hint ++ ")" ++ returns ++ ":") ::
        .gap false (newLine 1) :: (stmt.stretches 1 ++
          body.flatMap fun stmt => .gap true (newLine 1) :: stmt.stretches 1) := by
  rw [stretches, hbody, List.map_cons, intercalate_cons, List.flatMap_map]
  rfl

/-- **What is laid out is written**: every layout of a function is one of its texts. -/
theorem written_of_laidOut (h : f.WellFormed) (hs : f.LaidOut s) : f.Written s := by
  cases hs with
  | @intro hint returns s r hhint hreturns hs hr =>
    obtain ⟨stmt, body, hbody⟩ := List.exists_cons_of_ne_nil h.body_ne_nil
    obtain ⟨hstmt, hmore⟩ := List.forall_mem_cons.mp (hbody ▸ h.body)
    rw [stretches_eq hbody] at hs
    simp only [laidOut_words_iff, laidOut_gap_iff] at hs
    obtain ⟨g, _, rfl, hg, -, _, rfl, g', _, rfl, hg', -, hs⟩ := hs
    obtain ⟨t, u, rfl, ht, hu⟩ := hs.exists_of_append
    have hwritten := Written.intro hg.isLayout h.name h.param hhint hreturns
      (.intro hg'.isLayout (Stmt.written_of_laidOut hstmt ht) (writtenMore_of_laidOut hmore hu))
      hr.skipLayout
    rw [← hbody] at hwritten
    simpa using hwritten

theorem parse_of_written {source : String} (h : f.Written source.toList) :
    Function.parse source = .ok f := by
  rw [Function.parse, function_of_written h]
  rfl

/-! ### The layout in print -/

theorem toList_text (f : Function) :
    f.text.toList = "def ".toList ++ (f.name.toList ++ '(' :: (f.param.toList ++
      ')' :: ':' :: onNewLines (f.body.flatMap (Stmt.lines 1)))) := by
  rw [text, String.toList_intercalate, List.map_cons, intercalate_cons,
    List.flatMap_map]
  simp [onNewLines]

/-- The stretches of a function, in print, are the function in print. -/
theorem printed_stretches (h : f.body ≠ []) : printed (f.stretches "" "") = f.text := by
  obtain ⟨stmt, body, hbody⟩ := List.exists_cons_of_ne_nil h
  rw [← String.toList_inj, toList_printed, toList_text, onNewLines_flatMap_lines,
    stretches_eq hbody, hbody]
  simp [Stmt.onNewLines_lines, List.flatMap_assoc]

/-- All gaps of a function are printed as gaps. -/
theorem isPrinted_stretches (h : f.body ≠ []) (hint returns : String) :
    ∀ stretch ∈ f.stretches hint returns, stretch.IsPrinted := by
  obtain ⟨stmt, body, hbody⟩ := List.exists_cons_of_ne_nil h
  have hmore : ∀ stretch ∈ body.flatMap fun stmt => .gap true (newLine 1) :: stmt.stretches 1,
      stretch.IsPrinted := by
    intro stretch hmem
    obtain ⟨stmt, -, hmem⟩ := List.mem_flatMap.mp hmem
    exact List.forall_mem_cons.mpr
      ⟨isPrinted_newLine true 1, Stmt.isPrinted_stretches 1 stmt⟩ stretch hmem
  rw [stretches_eq hbody]
  refine List.forall_mem_cons.mpr ⟨isPrinted_empty, List.forall_mem_cons.mpr
    ⟨isPrinted_words _, List.forall_mem_cons.mpr ⟨isPrinted_newLine false 1, ?_⟩⟩⟩
  exact List.forall_mem_append.mpr ⟨Stmt.isPrinted_stretches 1 stmt, hmore⟩

/-- What is printed is laid out. -/
theorem laidOut_text (h : f.body ≠ []) : f.LaidOut f.text.toList := by
  have hprinted := laidOut_printed (isPrinted_stretches h "" "")
  rw [← toList_printed, printed_stretches h] at hprinted
  have hlaidOut := @LaidOut.intro f "" "" _ _ .none .none hprinted (.gap .nil)
  rwa [List.append_nil] at hlaidOut

/-- **Layout has no meaning.** A function in print is the words of the function and the gaps
between them. Whatever stands in the gaps, with or without type hints, the text is read as the
function. -/
theorem parse_laidOut (f : Function) (h : f.WellFormed) :
    printed (f.stretches "" "") = f.text ∧
      ∀ source : String, f.LaidOut source.toList → Function.parse source = .ok f :=
  ⟨printed_stretches h.body_ne_nil,
    fun _ hsource => parse_of_written (written_of_laidOut h hsource)⟩

/-- Comments, carriage returns and single blanks are layout, and so is nothing behind a colon. -/
theorem parse_laidOut_one_line :
    Function.parse "#\ndef f(x : real)->real:y = x if y:return x#\r\n else:\treturn y # end" =
      .ok ⟨"f", "x", [.assign "y" (.ident "x"),
        .cond (.ident "y") (.ident "x") (some (.ret (.ident "y")))]⟩ := by
  have hf : IsIdentifier "f" := ⟨⟨'f', rfl, rfl⟩, List.all_eq_true.mp rfl, by simp [keywords]⟩
  have hx : IsIdentifier "x" := ⟨⟨'x', rfl, rfl⟩, List.all_eq_true.mp rfl, by simp [keywords]⟩
  have hy : IsIdentifier "y" := ⟨⟨'y', rfl, rfl⟩, List.all_eq_true.mp rfl, by simp [keywords]⟩
  have hreal : IsIdentifier "real" :=
    ⟨⟨'r', rfl, rfl⟩, List.all_eq_true.mp rfl, by simp [keywords]⟩
  have hcond : Stmt.WellFormed (.cond (.ident "y") (.ident "x") (some (.ret (.ident "y")))) :=
    .cond (.ident hy) (.ident hx) (by simp [Stmt.WellFormed.ret, Expr.WellFormed.ident, hy])
      (by simp [Stmt.isAssign])
  have hwellFormed : WellFormed ⟨"f", "x", [.assign "y" (.ident "x"),
      .cond (.ident "y") (.ident "x") (some (.ret (.ident "y")))]⟩ :=
    ⟨hf, hx, List.cons_ne_nil _ _, List.forall_mem_cons.mpr
      ⟨.assign hy (.ident hx), List.forall_mem_singleton.mpr hcond⟩⟩
  have hstretches : stretches ⟨"f", "x", [.assign "y" (.ident "x"),
      .cond (.ident "y") (.ident "x") (some (.ret (.ident "y")))]⟩ " : real" "->real" =
      [.gap false "", .words "def f(x : real)->real:", .gap false (newLine 1), .words "y = x",
        .gap true (newLine 1), .words "if y:", .gap false (newLine 2), .words "return x",
        .gap true (newLine 1), .words "else:", .gap false (newLine 2), .words "return y"] := by
    rw [stretches_eq rfl]
    simp [Stmt.stretches, Stmt.branchStretches, Stmt.alternativeStretches, Expr.text]
  have hempty {g : List Char} (h : false = true) : g ≠ [] := absurd h Bool.false_ne_true
  have hblank {c : Char} (hc : isLayout c = true) : IsGap [c] := .cons hc .nil
  have hcomment : IsGap ['#', '\n'] := @IsGap.comment [] [] List.not_mem_nil .nil
  have hcomment' : IsGap ['#', '\r', '\n', ' '] :=
    @IsGap.comment ['\r'] [' '] (by decide) (hblank rfl)
  have hhint : IsHint ":" " : real".toList :=
    @IsHint.some ":" [' '] [' '] "real" (List.all_eq_true.mp rfl) (List.all_eq_true.mp rfl) hreal
  have hreturns : IsHint "->" "->real".toList := @IsHint.some "->" [] [] "real"
    (List.forall_mem_nil _) (List.forall_mem_nil _) hreal
  have hend : IsEnd [' ', '#', ' ', 'e', 'n', 'd'] :=
    @IsEnd.comment [' '] [' ', 'e', 'n', 'd'] (hblank rfl) (by decide)
  obtain ⟨s, hs, hsource⟩ : ∃ s, Script.LaidOut (stretches ⟨"f", "x", [.assign "y" (.ident "x"),
      .cond (.ident "y") (.ident "x") (some (.ret (.ident "y")))]⟩ " : real" "->real") s ∧
      s ++ [' ', '#', ' ', 'e', 'n', 'd'] =
        "#\ndef f(x : real)->real:y = x if y:return x#\r\n else:\treturn y # end".toList := by
    rw [hstretches]
    exact ⟨_, .gap hcomment hempty (.words (.gap .nil hempty (.words
      (.gap (hblank (c := ' ') rfl) (fun _ => List.cons_ne_nil _ _) (.words (.gap .nil hempty
        (.words (.gap hcomment' (fun _ => List.cons_ne_nil _ _) (.words
          (.gap (hblank (c := '\t') rfl) hempty (.words .nil))))))))))), by simp⟩
  exact (parse_laidOut _ hwellFormed).2 _ (hsource ▸ .intro hhint hreturns hs hend)

end Function

end PiecewiseLinear.Script
