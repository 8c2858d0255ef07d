import Mathlib.Data.List.Forall2

/-!
# Results of passes

What it means for a pass in steps to succeed, and to fail.

- `bind_eq_ok_iff`, `mapError_eq_ok_iff`: one step after another, and a step with its
  errors reworded.
- `mapM_eq_ok_iff`: one step for each item of a list.
- `FirstRefused`, `mapM_eq_error_iff`: the first item of a list for which the step fails.
-/

namespace PiecewiseLinear

variable {ε ε' α β : Type}

theorem pure_eq_ok_iff {a b : α} : (pure a : Except ε α) = .ok b ↔ a = b := by
  show Except.ok a = Except.ok b ↔ _
  rw [Except.ok.injEq]

/-- A computation succeeds if and only if each of its two steps does. -/
theorem bind_eq_ok_iff {x : Except ε α} {f : α → Except ε β} {b : β} :
    x >>= f = .ok b ↔ ∃ a, x = .ok a ∧ f a = .ok b := by
  cases x with
  | error e => exact iff_of_false nofun fun ⟨a, h, _⟩ => nomatch h
  | ok a =>
    show f a = .ok b ↔ _
    constructor
    · intro h
      exact ⟨a, rfl, h⟩
    · rintro ⟨a', ⟨⟩, h⟩
      exact h

/-- A computation fails with the error of the first of its two steps that fails. -/
theorem bind_eq_error_iff {x : Except ε α} {f : α → Except ε β} {e : ε} :
    x >>= f = .error e ↔ x = .error e ∨ ∃ a, x = .ok a ∧ f a = .error e := by
  cases x with
  | error e' =>
    show Except.error e' = Except.error e ↔ _
    simp
  | ok a =>
    show f a = .error e ↔ _
    simp

theorem mapError_eq_error_iff {x : Except ε α} {f : ε → ε'} {e' : ε'} :
    x.mapError f = .error e' ↔ ∃ e, x = .error e ∧ f e = e' := by
  cases x with
  | error e =>
    show Except.error (f e) = Except.error e' ↔ _
    simp
  | ok a => exact iff_of_false nofun nofun

theorem mapError_eq_ok_iff {x : Except ε α} {f : ε → ε'} {a : α} :
    x.mapError f = .ok a ↔ x = .ok a := by
  cases x with
  | error e => exact iff_of_false nofun nofun
  | ok a' =>
    show Except.ok a' = Except.ok a ↔ _
    rw [Except.ok.injEq, Except.ok.injEq]

/-- All results are there if and only if each single one is, in the same order. -/
theorem mapM_eq_ok_iff {f : α → Except ε β} {as : List α} {bs : List β} :
    as.mapM f = .ok bs ↔ List.Forall₂ (fun a b => f a = .ok b) as bs := by
  induction as generalizing bs with
  | nil =>
    rw [List.mapM_nil, List.forall₂_nil_left_iff, pure_eq_ok_iff, eq_comm]
  | cons a as ih =>
    rw [List.mapM_cons, List.forall₂_cons_left_iff, bind_eq_ok_iff]
    refine exists_congr fun b => ?_
    rw [exists_and_left, bind_eq_ok_iff]
    refine and_congr_right fun _ => exists_congr fun bs' => ?_
    rw [ih, pure_eq_ok_iff, eq_comm (a := bs)]

/-- The first item of a list that is not accepted, and the error that a check finds in it. -/
def FirstRefused (accepted : α → Prop) (check : α → Except ε β) (items : List α) (e : ε) : Prop :=
  ∃ before item after, items = before ++ item :: after ∧ (∀ a ∈ before, accepted a) ∧
    ¬ accepted item ∧ check item = .error e

/-- A pass over a list fails with the error of the first item that is refused. -/
theorem mapM_eq_error_iff {accepted : α → Prop} {f : α → Except ε β} {as : List α} {e : ε}
    (h : ∀ a, accepted a ↔ ∃ b, f a = .ok b) :
    as.mapM f = .error e ↔ FirstRefused accepted f as e := by
  induction as with
  | nil =>
    refine iff_of_false nofun ?_
    rintro ⟨before, item, after, heq, -⟩
    cases before <;> cases heq
  | cons a as ih =>
    rw [List.mapM_cons, bind_eq_error_iff]
    constructor
    · rintro (herror | ⟨b, hb, hrest⟩)
      · refine ⟨[], a, as, rfl, nofun, ?_, herror⟩
        rw [h, herror]
        rintro ⟨b, ⟨⟩⟩
      · rcases bind_eq_error_iff.mp hrest with herror | ⟨bs, -, hpure⟩
        · obtain ⟨before, item, after, rfl, hbefore, hitem⟩ := ih.mp herror
          refine ⟨a :: before, item, after, rfl, ?_, hitem⟩
          exact List.forall_mem_cons.mpr ⟨(h a).mpr ⟨b, hb⟩, hbefore⟩
        · cases hpure
    · rintro ⟨before, item, after, heq, hbefore, hitem⟩
      cases before with
      | nil =>
        obtain ⟨rfl, rfl⟩ := List.cons.inj heq
        exact .inl hitem.2
      | cons a' before =>
        obtain ⟨rfl, rfl⟩ := List.cons.inj heq
        rw [List.forall_mem_cons] at hbefore
        obtain ⟨b, hb⟩ := (h a).mp hbefore.1
        have herror := ih.mpr ⟨before, item, after, rfl, hbefore.2, hitem⟩
        exact .inr ⟨b, hb, bind_eq_error_iff.mpr (.inl herror)⟩

end PiecewiseLinear
