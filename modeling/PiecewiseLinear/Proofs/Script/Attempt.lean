import PiecewiseLinear.Proofs.Script.Lexeme
import PiecewiseLinear.Script.FunctionParser

/-!
# Attempts at reading

Readers of statements give up with a failure, and the choice between two ways of reading looks at
whether the failure is final. One lemma per combinator says what it does with a result and what it
does with a failure that leaves the choice open.

- `Parse.bind_eq_ok`, `Parse.either_eq_ok`: where a result comes from, and likewise a failure.
- `Parse.retold`: results with their failures told in another way.
- `Parse.Fails`: failures that leave open another way of reading.
- `Parse.keyword_of_some`, `Parse.fails_keyword`: reading a keyword.
- `Parse.upTo_of_fails`, `Parse.upTo_succ_of_ok`, `Parse.upTo_succ_of_final`: repeated reading,
  one step at a time.
-/

namespace PiecewiseLinear.Script.Parse

variable {α β : Type} {p q : Parse α} {f : α → Parse β} {s r t : List Char} {a : α} {b : β}
  {e : Failure}

/-! ## Results -/

theorem bind_of_ok (h : p s = .ok a r) : (p >>= f) s = f a r := by
  show EStateM.bind p f s = f a r
  rw [EStateM.bind, h]

theorem map_of_ok (h : p s = .ok a r) (g : α → β) : (g <$> p) s = .ok (g a) r := by
  show EStateM.map g p s = .ok (g a) r
  rw [EStateM.map, h]

theorem ofScan_of_some {scan : Scan α} (h : scan s = some (a, r)) : ofScan scan s = .ok a r := by
  rw [ofScan, h]

theorem named_of_ok (construct : Construct) (h : p s = .ok a r) :
    named construct p s = .ok a r := by rw [named, h]

theorem committed_of_ok (h : p s = .ok a r) : committed p s = .ok a r := by rw [committed, h]

theorem either_of_ok (h : p s = .ok a r) : either p q s = .ok a r := by rw [either, h]

theorem optional_of_ok (h : p s = .ok a r) : Parse.optional p s = .ok (some a) r :=
  either_of_ok (map_of_ok h some)

/-! ## Where a result or a failure comes from -/

theorem bind_of_error (h : p s = .error e r) : (p >>= f) s = .error e r := by
  show EStateM.bind p f s = .error e r
  rw [EStateM.bind, h]

theorem bind_eq_ok (h : (p >>= f) s = .ok b r) : ∃ a t, p s = .ok a t ∧ f a t = .ok b r := by
  cases hp : p s with
  | ok a t => exact ⟨a, t, rfl, (bind_of_ok hp).symm.trans h⟩
  | error e stop => cases (bind_of_error (f := f) hp).symm.trans h

theorem bind_eq_error (h : (p >>= f) s = .error e r) :
    p s = .error e r ∨ ∃ a t, p s = .ok a t ∧ f a t = .error e r := by
  cases hp : p s with
  | ok a t => exact .inr ⟨a, t, rfl, (bind_of_ok hp).symm.trans h⟩
  | error e stop =>
    cases (bind_of_error (f := f) hp).symm.trans h
    exact .inl rfl

theorem map_eq_bind (g : α → β) (p : Parse α) : g <$> p = p >>= fun a => pure (g a) := by
  funext s
  show EStateM.map g p s = EStateM.bind p (fun a => EStateM.pure (g a)) s
  rw [EStateM.map, EStateM.bind]
  cases p s <;> rfl

/-- What an attempt made of a reader reads, the reader reads. -/
theorem ofScan_eq_ok {scan : Scan α} (h : ofScan scan s = .ok a r) : scan s = some (a, r) := by
  cases hs : scan s with
  | none =>
    rw [ofScan, hs] at h
    cases h
  | some x =>
    rw [ofScan, hs] at h
    cases h
    rfl

/-- An attempt made of a reader fails where it begins. -/
theorem ofScan_eq_error {scan : Scan α} (h : ofScan scan s = .error e r) : r = s := by
  cases hs : scan s with
  | none =>
    rw [ofScan, hs] at h
    cases h
    rfl
  | some x =>
    rw [ofScan, hs] at h
    cases h

/-- A result with its failure told in another way. -/
def retold (tell : Failure → Failure) :
    EStateM.Result Failure (List Char) α → EStateM.Result Failure (List Char) α
  | .ok a r => .ok a r
  | .error e r => .error (tell e) r

/-- Naming a construct and making failures final are two ways of telling them. -/
theorem named_eq_retold (construct : Construct) (p : Parse α) (s : List Char) :
    named construct p s =
      retold (fun e => { e with expected := e.expected <|> some construct }) (p s) := by
  rw [named]
  cases p s <;> rfl

theorem committed_eq_retold (p : Parse α) (s : List Char) :
    committed p s = retold (fun e => { e with final := true }) (p s) := by
  rw [committed]
  cases p s <;> rfl

section Retold

variable {tell : Failure → Failure} {result : EStateM.Result Failure (List Char) α}

theorem eq_ok_of_retold (h : retold tell result = .ok a r) : result = .ok a r := by
  cases result with
  | ok => exact h
  | error => cases h

/-- Telling a failure in another way does not move it. -/
theorem eq_error_of_retold (h : retold tell result = .error e r) : ∃ e', result = .error e' r := by
  cases result with
  | ok => cases h
  | error e' stop =>
    cases h
    exact ⟨e', rfl⟩

end Retold

theorem named_eq_ok {construct : Construct} (h : named construct p s = .ok a r) :
    p s = .ok a r := by
  rw [named_eq_retold] at h
  exact eq_ok_of_retold h

theorem named_eq_error {construct : Construct} (h : named construct p s = .error e r) :
    ∃ e', p s = .error e' r := by
  rw [named_eq_retold] at h
  exact eq_error_of_retold h

theorem committed_eq_ok (h : committed p s = .ok a r) : p s = .ok a r := by
  rw [committed_eq_retold] at h
  exact eq_ok_of_retold h

theorem committed_eq_error (h : committed p s = .error e r) : ∃ e', p s = .error e' r := by
  rw [committed_eq_retold] at h
  exact eq_error_of_retold h

/-- What is read in either of two ways is read in one of them. -/
theorem either_eq_ok (h : either p q s = .ok a r) : p s = .ok a r ∨ q s = .ok a r := by
  cases hp : p s with
  | ok a t =>
    rw [either, hp] at h
    exact .inl h
  | error e stop =>
    rw [either, hp] at h
    dsimp only at h
    split_ifs at h
    exact .inr h

/-- Where neither of two ways works, the failure is that of one of them. -/
theorem either_eq_error (h : either p q s = .error e r) :
    p s = .error e r ∨ q s = .error e r := by
  cases hp : p s with
  | ok a t =>
    rw [either, hp] at h
    cases h
  | error e stop =>
    rw [either, hp] at h
    dsimp only at h
    split_ifs at h
    · exact .inl h
    · exact .inr h

/-! ## Failures -/

/-- Reading fails, and the failure leaves open another way of reading. -/
def Fails (p : Parse α) (s : List Char) : Prop :=
  ∃ e stop, p s = .error e stop ∧ e.final = false

theorem Fails.bind (h : Fails p s) : Fails (p >>= f) s := by
  obtain ⟨e, stop, hp, hfinal⟩ := h
  exact ⟨e, stop, bind_of_error hp, hfinal⟩

theorem fails_bind_of_ok (h : p s = .ok a r) (hf : Fails (f a) r) : Fails (p >>= f) s := by
  obtain ⟨e, stop, hp, hfinal⟩ := hf
  exact ⟨e, stop, (bind_of_ok h).trans hp, hfinal⟩

theorem Fails.map (h : Fails p s) (g : α → β) : Fails (g <$> p) s := by
  rw [map_eq_bind]
  exact h.bind

theorem fails_ofScan {scan : Scan α} (h : scan s = none) : Fails (ofScan scan) s :=
  ⟨⟨none, false⟩, s, by rw [ofScan, h], rfl⟩

theorem Fails.named (construct : Construct) (h : Fails p s) : Fails (named construct p) s := by
  obtain ⟨e, stop, hp, hfinal⟩ := h
  exact ⟨{ e with expected := e.expected <|> some construct }, stop, by rw [Parse.named, hp],
    hfinal⟩

theorem either_of_fails (h : Fails p s) : either p q s = q s := by
  obtain ⟨e, stop, hp, hfinal⟩ := h
  rw [either, hp]
  exact if_neg (by rw [hfinal]; exact Bool.false_ne_true)

theorem either_of_final (h : p s = .error e r) (hfinal : e.final = true) :
    either p q s = .error e r := by
  rw [either, h]
  exact if_pos hfinal

theorem Fails.either (hp : Fails p s) (hq : Fails q s) : Fails (either p q) s := by
  obtain ⟨e, stop, hstop, hfinal⟩ := hq
  exact ⟨e, stop, (either_of_fails hp).trans hstop, hfinal⟩

theorem optional_of_fails (h : Fails p s) : Parse.optional p s = .ok none s :=
  either_of_fails (h.map some)

/-! ## Lexemes -/

theorem blanks_eq (h : skipBlanks s = t) : blanks s = .ok () t := h ▸ rfl

theorem blanks_cons {c : Char} (hc : isBlankInLine c = false) (s : List Char) :
    blanks (c :: s) = .ok () (c :: s) := blanks_eq (skipBlanks_of_head (by simpa using hc))

theorem layout_eq (h : skipLayout s = t) : layout s = .ok () t := h ▸ rfl

theorem piece_append (text s : List Char) : piece text (text ++ s) = .ok () s :=
  ofScan_of_some (by rw [Scan.piece, after?_append]; rfl)

theorem piece_cons (c : Char) (s : List Char) : piece [c] (c :: s) = .ok () s := piece_append [c] s

theorem keyword_of_some {word : List Char} (h : keyword? word s = some r) :
    Parse.keyword word s = .ok () r := by
  obtain ⟨rfl, hends⟩ := eq_append_of_keyword? h
  have hget : (get : Parse (List Char)) r = .ok r r := rfl
  refine (bind_of_ok (piece_append word r)).trans ((bind_of_ok hget).trans ?_)
  rw [hends]
  rfl

theorem fails_keyword {word : List Char} (h : keyword? word s = none) :
    Fails (Parse.keyword word) s := by
  cases hafter : after? word s with
  | none => exact Fails.bind (fails_ofScan (by rw [Scan.piece, hafter]; rfl))
  | some r =>
    have hword : continuesWord r = true := by simpa [keyword?, hafter] using h
    have hpiece : piece word s = .ok () r := ofScan_of_some (by rw [Scan.piece, hafter]; rfl)
    have hget : (get : Parse (List Char)) r = .ok r r := rfl
    refine fails_bind_of_ok hpiece (fails_bind_of_ok hget ?_)
    rw [hword]
    exact ⟨⟨none, false⟩, r, rfl, rfl⟩

theorem ident_append {name : String} (hname : IsIdentifier name)
    (hr : continuesWord r = false) : ident (name.toList ++ r) = .ok name r :=
  ofScan_of_some (ident?_append hname hr)

/-! ## Repetitions -/

theorem upTo_of_fails (h : Fails p s) (count : Nat) : upTo p count s = .ok [] s := by
  cases count with
  | zero => rfl
  | succ count => exact bind_of_ok (optional_of_fails h)

theorem upTo_succ_of_ok {count : Nat} {more : List α} (h : p s = .ok a r)
    (hmore : upTo p count r = .ok more t) : upTo p (count + 1) s = .ok (a :: more) t :=
  (bind_of_ok (optional_of_ok h)).trans (bind_of_ok hmore)

/-- A final failure ends the loop with that failure. -/
theorem upTo_succ_of_final {count : Nat} (h : p s = .error e r) (hfinal : e.final = true) :
    upTo p (count + 1) s = .error e r := by
  have hmap : (some <$> p) s = .error e r := by
    rw [map_eq_bind]
    exact bind_of_error h
  exact bind_of_error (either_of_final hmap hfinal)

end PiecewiseLinear.Script.Parse
