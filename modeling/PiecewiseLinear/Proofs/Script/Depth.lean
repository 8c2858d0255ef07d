import PiecewiseLinear.Proofs.Script.Progress

/-!
# Depth of the grammar

A reference back of the grammar stands behind a character of its own. So what is read off a text
depends on what the readers for references back do with shorter texts only, and the grammar has
one solution: the depth that comes with a text is never used up, and more of it changes nothing.

- `Scan.AgreeBelow`: two readers that do the same with every text below a length.
- `Expr.Guarded`: readers that go one character further than the readers for references back.
- `Expr.iterate_scanFrom`: depth beyond the length of a text.
- `Expr.scanFrom_eq_self_iff`: the solution of the grammar.
-/

namespace PiecewiseLinear.Script

namespace Scan

variable {α β : Type} {m n : Nat} {p p' q q' item item' : Scan α} {f g : α → Scan β}
  {s : List Char}

/-- Two readers do the same with every text below a length. -/
def AgreeBelow (n : Nat) (p q : Scan α) : Prop := ∀ ⦃s⦄, s.length < n → p s = q s

namespace AgreeBelow

theorem refl (p : Scan α) : AgreeBelow n p p := fun _ _ => rfl

theorem mono (h : AgreeBelow n p q) (hle : m ≤ n) : AgreeBelow m p q :=
  fun _ hs => h (hs.trans_le hle)

/-- Readers that agree on shorter texts agree on them in sequence, as the first one leaves no longer
text. -/
theorem bind (h : AgreeBelow n p q) (hkeeps : Keeps q) (hf : ∀ a, AgreeBelow n (f a) (g a)) :
    AgreeBelow n (p >>= f) (q >>= g) := by
  intro s hs
  have hp := h hs
  cases hq : q s with
  | none => rw [bind_of_none (hp.trans hq), bind_of_none hq]
  | some x =>
    rw [bind_of_some (hp.trans hq), bind_of_some hq]
    exact hf x.1 ((hkeeps hq).length_le.trans_lt hs)

theorem orElse (hp : AgreeBelow n p p') (hq : AgreeBelow n q q') :
    AgreeBelow n (p <|> q) (p' <|> q') := by
  intro s hs
  have hps := hp hs
  cases hp' : p' s with
  | none => rw [orElse_of_none (hps.trans hp'), orElse_of_none hp', hq hs]
  | some x => rw [orElse_of_some (hps.trans hp'), orElse_of_some hp']

theorem optional (h : AgreeBelow n p q) : AgreeBelow n (Scan.optional p) (Scan.optional q) := by
  intro s hs
  rw [Scan.optional, Scan.optional, h hs]

/-- Repeating agrees where the items do, for no more of the text is left each time. -/
theorem upTo (h : AgreeBelow n item item') (hkeeps : Keeps item') (count : Nat)
    (hs : s.length < n) : upTo item count s = upTo item' count s := by
  induction count generalizing s with
  | zero => rfl
  | succ count ih =>
    rw [Scan.upTo, Scan.upTo, h hs]
    split
    · next hitem => rw [ih ((hkeeps hitem).length_le.trans_lt hs)]
    · rfl

theorem many (h : AgreeBelow n item item') (hkeeps : Keeps item') :
    AgreeBelow n (many item) (many item') :=
  fun _ hs => congrArg some (h.upTo hkeeps _ hs)

/-- An operand and what follows it as often as it is there. -/
theorem bind_many {γ : Type} (h : AgreeBelow n p q) (htakes : Takes q)
    {item item' : Scan β} (hitem : AgreeBelow n item item') (hitems : Takes item')
    (f : α → List β → γ) :
    AgreeBelow n (do let a ← p; let as ← Scan.many item; return f a as)
      (do let a ← q; let as ← Scan.many item'; return f a as) :=
  h.bind htakes.keeps fun _ => (hitem.many hitems.keeps).bind hitems.keeps.many fun _ => .refl _

end AgreeBelow

theorem Keeps.agreeBelow (hp : Keeps p) (hf : ∀ a, AgreeBelow n (f a) (g a)) :
    AgreeBelow n (p >>= f) (p >>= g) := (AgreeBelow.refl p).bind hp hf

/-- Behind a character, agreement on shorter texts is enough. -/
theorem Takes.agreeBelow (hp : Takes p) (hf : ∀ a, AgreeBelow n (f a) (g a)) :
    AgreeBelow (n + 1) (p >>= f) (p >>= g) := by
  intro s hs
  cases h : p s with
  | none => rw [bind_of_none h, bind_of_none h]
  | some x =>
    rw [bind_of_some h, bind_of_some h]
    exact hf x.1 ((hp h).2.trans_le (Nat.le_of_lt_succ hs))

end Scan

namespace Expr

open Scan

variable {n : Nat} {nested nested' : Nested} {s : List Char}

/-- The reader goes one character further than the readers for references back: where these agree
on texts below a length, it agrees on those of that length as well. -/
def Guarded {α : Type} (p : Nested → Scan α) : Prop :=
  ∀ ⦃n nested nested'⦄, (∀ entry, Takes (nested' entry)) →
    (∀ entry, AgreeBelow n (nested entry) (nested' entry)) →
    AgreeBelow (n + 1) (p nested) (p nested')

theorem guarded_parenthesized : Guarded parenthesized := fun _ _ _ htakes h =>
  (takes_piece (by decide)).agreeBelow fun _ => keeps_layout.agreeBelow fun _ =>
    (h _).bind (htakes _).keeps fun _ => .refl _

theorem guarded_primary : Guarded primary := fun _ _ _ htakes h =>
  (guarded_parenthesized htakes h).orElse (.refl _)

theorem guarded_furtherArgument : Guarded furtherArgument := fun _ _ _ _ h =>
  keeps_blanks.agreeBelow fun _ => (takes_piece (by decide)).agreeBelow fun _ =>
    keeps_layout.agreeBelow fun _ => h _

theorem agreeBelow_someArguments (htakes : ∀ entry, Takes (nested' entry))
    (h : ∀ entry, AgreeBelow n (nested entry) (nested' entry)) :
    AgreeBelow n (someArguments nested) (someArguments nested') := by
  have hfurther := (guarded_furtherArgument htakes h).mono n.le_succ
  have hkeeps := (takes_furtherArgument htakes).keeps
  exact (h _).bind (htakes _).keeps fun _ => (hfurther.many hkeeps).bind hkeeps.many fun _ =>
    .refl _

theorem guarded_callArguments : Guarded callArguments := fun _ _ _ htakes h =>
  (takes_piece (by decide)).agreeBelow fun _ => keeps_layout.agreeBelow fun _ =>
    ((agreeBelow_someArguments htakes h).orElse (.refl _)).bind
      ((takes_someArguments htakes).keeps.orElse (keeps_pure _)) fun _ => .refl _

theorem guarded_furtherCall : Guarded furtherCall := fun _ _ _ htakes h =>
  keeps_blanks.agreeBelow fun _ => guarded_callArguments htakes h

theorem guarded_called : Guarded called := fun _ _ _ htakes h =>
  (guarded_primary htakes h).bind_many (takes_primary htakes) (guarded_furtherCall htakes h)
    (takes_furtherCall htakes) _

theorem guarded_exponent : Guarded exponent := fun _ _ _ _ h =>
  keeps_blanks.agreeBelow fun _ => (takes_piece (by decide)).agreeBelow fun _ =>
    keeps_blanks.agreeBelow fun _ => h _

theorem guarded_power : Guarded power := fun _ _ _ htakes h =>
  (guarded_called htakes h).bind (takes_called htakes).keeps fun _ =>
    (guarded_exponent htakes h).optional.bind (takes_exponent htakes).keeps.optional fun _ =>
      .refl _

theorem guarded_signed : Guarded signed := by
  intro n nested nested' htakes h
  refine .orElse ?_ (.orElse ?_ (guarded_power htakes h)) <;>
  exact (takes_piece (by decide)).agreeBelow fun _ => keeps_blanks.agreeBelow fun _ =>
    (h _).bind (htakes _).keeps fun _ => .refl _

theorem agreeBelow_link {α : Type} {op : Scan α} {operand operand' : Scan Expr} (hop : Takes op)
    (h : AgreeBelow n operand operand') (htakes : Takes operand') :
    AgreeBelow n (link op operand) (link op operand') :=
  keeps_blanks.agreeBelow fun _ => hop.keeps.agreeBelow fun _ => keeps_blanks.agreeBelow fun _ =>
    h.bind htakes.keeps fun _ => .refl _

theorem guarded_product : Guarded product := fun _ _ _ htakes h =>
  (guarded_signed htakes h).bind_many (takes_signed htakes)
    (agreeBelow_link takes_productOp (guarded_signed htakes h) (takes_signed htakes))
    (takes_link takes_productOp (takes_signed htakes)) _

theorem guarded_sum : Guarded sum := fun _ _ _ htakes h =>
  (guarded_product htakes h).bind_many (takes_product htakes)
    (agreeBelow_link takes_sumOp (guarded_product htakes h) (takes_product htakes))
    (takes_link takes_sumOp (takes_product htakes)) _

theorem guarded_comparison : Guarded comparison := fun _ _ _ htakes h =>
  (guarded_sum htakes h).bind_many (takes_sum htakes)
    (agreeBelow_link takes_comparator (guarded_sum htakes h) (takes_sum htakes))
    (takes_link takes_comparator (takes_sum htakes)) _

theorem guarded_negated : Guarded negated := by
  intro n nested nested' htakes h
  refine .orElse ?_ (guarded_comparison htakes h)
  exact (takes_keyword (by decide)).agreeBelow fun _ => keeps_blanks.agreeBelow fun _ =>
    (h _).bind (htakes _).keeps fun _ => .refl _

theorem agreeBelow_furtherOperand (connective : Connective) {operand operand' : Scan Expr}
    (h : AgreeBelow n operand operand') :
    AgreeBelow n (furtherOperand connective operand) (furtherOperand connective operand') := by
  have hkeyword : Takes (keyword connective.word.toList) :=
    takes_keyword (by cases connective <;> decide)
  exact keeps_blanks.agreeBelow fun _ => hkeyword.keeps.agreeBelow fun _ =>
    keeps_blanks.agreeBelow fun _ => h

theorem guarded_conjunction : Guarded conjunction := fun _ _ _ htakes h =>
  (guarded_negated htakes h).bind_many (takes_negated htakes)
    (agreeBelow_furtherOperand .and (guarded_negated htakes h))
    (takes_furtherOperand .and (takes_negated htakes)) _

theorem guarded_disjunction : Guarded disjunction := fun _ _ _ htakes h =>
  (guarded_conjunction htakes h).bind_many (takes_conjunction htakes)
    (agreeBelow_furtherOperand .or (guarded_conjunction htakes h))
    (takes_furtherOperand .or (takes_conjunction htakes)) _

theorem guarded_scanFrom (entry : Entry) : Guarded fun nested => scanFrom nested entry := by
  cases entry with
  | disjunction => exact guarded_disjunction
  | negated => exact guarded_negated
  | signed => exact guarded_signed

/-! ## Solutions -/

/-- The readers of the grammar, with as much depth as the text may need. -/
def solution : Nested := fun entry s => scanAt (s.length + 1) entry s

theorem takes_solution (entry : Entry) : Takes (solution entry) :=
  fun s _ _ h => takes_scanAt (s.length + 1) entry h

/-- Below the depth of the references it does not matter what stands at their end. -/
theorem agreeBelow_iterate (nested : Nested) (depth : Nat) (entry : Entry) :
    AgreeBelow depth (scanFrom^[depth] nested entry) (scanAt depth entry) := by
  induction depth generalizing entry with
  | zero => exact fun _ hs => absurd hs (Nat.not_lt_zero _)
  | succ depth ih =>
    rw [Function.iterate_succ_apply']
    exact guarded_scanFrom entry (takes_scanAt depth) ih

/-- **Depth is never used up.** With more depth than there are characters, the result is the same
whatever is read where the depth ends. -/
theorem iterate_scanFrom (nested : Nested) (entry : Entry) {depth : Nat}
    (h : s.length < depth) : scanFrom^[depth] nested entry s = solution entry s := by
  obtain ⟨more, rfl⟩ := Nat.exists_eq_add_of_le (Nat.succ_le_of_lt h)
  rw [Function.iterate_add_apply]
  exact agreeBelow_iterate _ _ entry (Nat.lt_succ_self _)

/-- A depth counts how often the grammar has been unfolded. -/
theorem scanAt_eq_iterate (depth : Nat) : scanAt depth = scanFrom^[depth] (scanAt 0) := by
  induction depth with
  | zero => rfl
  | succ depth ih =>
    rw [Function.iterate_succ_apply', ← ih]
    rfl

theorem scanFrom_solution : scanFrom solution = solution := by
  funext entry s
  refine guarded_scanFrom entry (takes_scanAt s.length) (fun entry' t ht => ?_) (Nat.lt_succ_self _)
  rw [scanAt_eq_iterate, iterate_scanFrom _ _ ht]

/-- **The grammar has one solution.** -/
theorem scanFrom_eq_self_iff : scanFrom nested = nested ↔ nested = solution := by
  constructor
  · intro h
    funext entry s
    rw [← iterate_scanFrom nested entry (Nat.lt_succ_self s.length), Function.iterate_fixed h]
  · rintro rfl
    exact scanFrom_solution

end Expr

end PiecewiseLinear.Script
