import PiecewiseLinear.Evaluation.Extremum
import PiecewiseLinear.Proofs.Double.Real

/-!
# The entry that is selected

Selecting an extremum goes through the values once and replaces the best entry so far by a
later one under three rules. All three say one thing: the later entry costs strictly less. So
what a run leaves is the leftmost entry of least cost, and entries of equal key differ in cost
only where one of them is defined and the other is not.

- `Sense.cost`: what an entry costs. An entry whose key is NaN costs more than any other.
- `Sense.replaces_iff`: replacing is costing less.
- `Sense.Leftmost`: the leftmost entry of least cost among those seen.
- `Sense.leftmost_better`, `Sense.leftmost_foldl`: a step keeps it, and so does a run.
- `Sense.extremumOf_outcome`: which entry is selected, by keys and positions.
-/

namespace PiecewiseLinear.Sense

open Double (rank)

variable {sense : Sense} {sentinel : Float}

/-! ## What an entry costs -/

theorem key_some (sentinel x : Float) : key sentinel (some x) = x := rfl

theorem key_none (sentinel : Float) : key sentinel none = sentinel := rfl

/-- How far a number is from the end that is looked for. -/
def score (sense : Sense) (v : Float) : Int :=
  match sense with
  | min => rank v
  | max => -rank v

/-- One number beats another if its score is less. -/
theorem beats_iff {a b : Float} (ha : a.isNaN = false) (hb : b.isNaN = false) :
    sense.beats a b = true ↔ sense.score a < sense.score b := by
  cases sense with
  | min => exact decide_eq_true_iff.trans (Double.lt_iff_rank_lt ha hb)
  | max =>
    rw [score, score, neg_lt_neg_iff]
    exact decide_eq_true_iff.trans (Double.lt_iff_rank_lt hb ha)

theorem beats_of_isNaN {a b : Float} (h : a.isNaN = true ∨ b.isNaN = true) :
    sense.beats a b = false := by
  cases sense with
  | min => exact decide_eq_false (Double.not_lt_of_isNaN h)
  | max => exact decide_eq_false (Double.not_lt_of_isNaN h.symm)

theorem beq_iff_score (sense : Sense) {a b : Float} (ha : a.isNaN = false) (hb : b.isNaN = false) :
    (a == b) = true ↔ sense.score a = sense.score b := by
  rw [Double.beq_iff_rank_eq ha hb]
  cases sense with
  | min => rfl
  | max => exact neg_inj.symm

theorem isNaN_sentinel (sense : Sense) : sense.sentinel.isNaN = false := by
  cases sense <;> decide

/-- No number is further from the end that is looked for than the default sentinel. -/
theorem score_le_sentinel (sense : Sense) {v : Float} (h : v.isNaN = false) :
    sense.score v ≤ sense.score sense.sentinel := by
  have hle := Double.natAbs_rank_le h
  cases sense with
  | min =>
    rw [score, score, sentinel, Double.rank_infinity]
    omega
  | max =>
    rw [score, score, sentinel, Double.rank_neg_infinity]
    omega

/-- What an entry costs: first how far its key is from the end that is looked for, then whether
it is undefined. A key that is NaN costs more than anything else. -/
def cost (sense : Sense) (sentinel : Float) (value : Option Float) : WithTop (Int ×ₗ Bool) :=
  if (key sentinel value).isNaN then ⊤
  else (toLex (sense.score (key sentinel value), value.isNone) : Int ×ₗ Bool)

theorem cost_of_isNaN {value : Option Float} (h : (key sentinel value).isNaN = true) :
    sense.cost sentinel value = ⊤ := if_pos h

theorem cost_of_not_isNaN {value : Option Float} (h : (key sentinel value).isNaN = false) :
    sense.cost sentinel value =
      (toLex (sense.score (key sentinel value), value.isNone) : Int ×ₗ Bool) :=
  if_neg (by rw [h]; exact Bool.false_ne_true)

/-- Only a NaN costs as much as anything can. -/
theorem cost_eq_top_iff (sense : Sense) {value : Option Float} :
    sense.cost sentinel value = ⊤ ↔ (key sentinel value).isNaN = true := by
  cases h : (key sentinel value).isNaN with
  | true => exact iff_of_true (cost_of_isNaN h) rfl
  | false =>
    rw [cost_of_not_isNaN h]
    exact iff_of_false (WithTop.coe_ne_top) Bool.false_ne_true

/-- Costs of entries with numbers for keys go by key, and then by definedness. -/
theorem cost_lt_iff {a b : Option Float} (ha : (key sentinel a).isNaN = false)
    (hb : (key sentinel b).isNaN = false) :
    sense.cost sentinel a < sense.cost sentinel b ↔
      sense.beats (key sentinel a) (key sentinel b) = true ∨
        (key sentinel a == key sentinel b) = true ∧ a.isSome = true ∧ b.isNone = true := by
  rw [cost_of_not_isNaN ha, cost_of_not_isNaN hb, WithTop.coe_lt_coe, Prod.Lex.toLex_lt_toLex,
    beats_iff ha hb, beq_iff_score sense ha hb, Bool.lt_iff]
  cases a <;> simp

/-- Entries of one key differ in cost only where one is defined and the other is not. -/
theorem cost_lt_iff_of_beq (sense : Sense) {a b : Option Float} {m : Float}
    (ha : (key sentinel a == m) = true) (hb : (key sentinel b == m) = true) :
    sense.cost sentinel a < sense.cost sentinel b ↔ a.isSome = true ∧ b.isNone = true := by
  obtain ⟨hna, hnm⟩ := Double.isNaN_of_beq ha
  obtain ⟨hnb, -⟩ := Double.isNaN_of_beq hb
  rw [beq_iff_score sense hna hnm] at ha
  rw [beq_iff_score sense hnb hnm] at hb
  rw [cost_lt_iff hna hnb, beats_iff hna hnb, beq_iff_score sense hna hnb, ha, hb]
  simp

/-- The three rules for replacing an entry come to one: a later entry takes the place of one
that costs more. -/
theorem replaces_iff {candidate best : Option Float} :
    sense.replaces sentinel candidate best = true ↔
      sense.cost sentinel candidate < sense.cost sentinel best := by
  simp only [replaces, Bool.or_eq_true, Bool.and_eq_true, Bool.not_eq_true']
  cases hc : (key sentinel candidate).isNaN with
  | true =>
    -- a candidate without a number for a key replaces nothing
    rw [cost_of_isNaN hc, beats_of_isNaN (.inl hc), Double.beq_of_isNaN (.inl hc)]
    simp
  | false =>
    cases hb : (key sentinel best).isNaN with
    | true =>
      rw [cost_of_isNaN hb, lt_top_iff_ne_top, ne_eq, cost_eq_top_iff sense, hc]
      simp
    | false =>
      rw [cost_lt_iff hc hb]
      simp [and_assoc, and_comm]

/-! ## One step and a whole run -/

/-- The entry is the leftmost one of least cost among those seen. -/
structure Leftmost (sense : Sense) (sentinel : Float) (seen : List (Option Float))
    (best : Extremum) : Prop where
  entry : seen[best.index]? = some best.value
  least : ∀ v ∈ seen, sense.cost sentinel best.value ≤ sense.cost sentinel v
  first : ∀ i < best.index, ∀ v, seen[i]? = some v →
    sense.cost sentinel best.value < sense.cost sentinel v

theorem leftmost_singleton (value : Option Float) :
    Leftmost sense sentinel [value] ⟨0, value⟩ := by
  refine ⟨rfl, ?_, ?_⟩
  · intro v hv
    rw [List.mem_singleton.mp hv]
  · intro i hi
    exact absurd hi (Nat.not_lt_zero i)

/-- One more entry: the better of the two is the leftmost one of least cost again. -/
theorem leftmost_better {seen : List (Option Float)} {best : Extremum}
    (h : Leftmost sense sentinel seen best) (value : Option Float) :
    Leftmost sense sentinel (seen ++ [value])
      (sense.better sentinel best (value, seen.length)) := by
  have hindex : best.index < seen.length := (List.getElem?_eq_some_iff.mp h.entry).1
  unfold better
  split
  next hreplaces =>
    have hless := replaces_iff.mp hreplaces
    refine ⟨?_, ?_, ?_⟩
    · exact List.getElem?_concat_length
    · intro v hv
      rcases List.mem_append.mp hv with hv | hv
      · exact hless.le.trans (h.least v hv)
      · rw [List.mem_singleton.mp hv]
    · intro i hi v hv
      rw [List.getElem?_append_left hi] at hv
      exact hless.trans_le (h.least v (List.mem_of_getElem? hv))
  next hkept =>
    have hle := not_lt.mp (mt replaces_iff.mpr hkept)
    refine ⟨?_, ?_, ?_⟩
    · rw [List.getElem?_append_left hindex]
      exact h.entry
    · intro v hv
      rcases List.mem_append.mp hv with hv | hv
      · exact h.least v hv
      · rw [List.mem_singleton.mp hv]
        exact hle
    · intro i hi v hv
      rw [List.getElem?_append_left (hi.trans hindex)] at hv
      exact h.first i hi v hv

/-- A run over further entries, by induction over them. -/
theorem leftmost_foldl {seen rest : List (Option Float)} {best : Extremum}
    (h : Leftmost sense sentinel seen best) :
    Leftmost sense sentinel (seen ++ rest)
      ((rest.zipIdx seen.length).foldl (sense.better sentinel) best) := by
  induction rest generalizing seen best with
  | nil =>
    rw [List.append_nil]
    exact h
  | cons value rest ih =>
    have hnext := ih (leftmost_better h value)
    rw [List.append_assoc, List.length_append, List.length_singleton] at hnext
    exact hnext

theorem extremumOf_nil : sense.extremumOf [] sentinel = none := rfl

/-- What is selected is the leftmost entry of least cost. -/
theorem exists_leftmost (sense : Sense) (sentinel : Float) {values : List (Option Float)}
    (h : values ≠ []) :
    ∃ best, sense.extremumOf values sentinel = some best ∧ Leftmost sense sentinel values best := by
  cases values with
  | nil => exact absurd rfl h
  | cons value rest => exact ⟨_, rfl, leftmost_foldl (leftmost_singleton value)⟩

/-- What is selected is the leftmost of the entries that no other one takes the place of. -/
theorem leftmost_of_extremumOf {values : List (Option Float)} {best : Extremum}
    (h : sense.extremumOf values sentinel = some best) :
    Leftmost sense sentinel values best := by
  have hne : values ≠ [] := by
    rintro rfl
    cases h
  obtain ⟨best', hbest, hleftmost⟩ := exists_leftmost sense sentinel hne
  rw [h] at hbest
  rwa [Option.some.inj hbest]

/-! ## The entry by keys and positions -/

/-- The best of the keys that are numbers: the least of them or the greatest. -/
structure IsBest (sense : Sense) (keys : List Float) (m : Float) : Prop where
  mem : m ∈ keys
  isNaN : m.isNaN = false
  bound : ∀ k ∈ keys, k.isNaN = false →
    match sense with
    | min => m ≤ k
    | max => k ≤ m

/-- The best key has the least score among the numbers. -/
theorem IsBest.score_le {keys : List Float} {m k : Float} (h : IsBest sense keys m)
    (hk : k ∈ keys) (hnan : k.isNaN = false) : sense.score m ≤ sense.score k := by
  have hbound := h.bound k hk hnan
  cases sense with
  | min => exact (Double.le_iff_rank_le h.isNaN hnan).mp hbound
  | max => exact neg_le_neg ((Double.le_iff_rank_le hnan h.isNaN).mp hbound)

/-- A key with the least score is the best one. -/
theorem isBest_of_score_le {keys : List Float} {m : Float} (hm : m ∈ keys)
    (hnan : m.isNaN = false)
    (h : ∀ k ∈ keys, k.isNaN = false → sense.score m ≤ sense.score k) :
    IsBest sense keys m := by
  refine ⟨hm, hnan, ?_⟩
  intro k hk hk'
  have hle := h k hk hk'
  cases sense with
  | min => exact (Double.le_iff_rank_le hnan hk').mpr hle
  | max => exact (Double.le_iff_rank_le hk' hnan).mpr (neg_le_neg_iff.mp hle)

namespace Leftmost

variable {values : List (Option Float)} {best : Extremum} {m : Float}
  (h : Leftmost sense sentinel values best)
include h

theorem mem : best.value ∈ values := List.mem_of_getElem? h.entry

/-- Where no key is a number all entries cost the same, and the first one is kept. -/
theorem index_eq_zero (hnan : ∀ v ∈ values, (key sentinel v).isNaN = true) : best.index = 0 := by
  by_contra hindex
  have hlength : best.index < values.length := (List.getElem?_eq_some_iff.mp h.entry).1
  obtain ⟨v, hv⟩ : ∃ v, values[0]? = some v := ⟨_, List.getElem?_eq_getElem (by omega)⟩
  have hless := h.first 0 (Nat.pos_of_ne_zero hindex) v hv
  rw [cost_of_isNaN (hnan best.value h.mem)] at hless
  exact not_top_lt hless

/-- A NaN is selected only where all keys are NaN. -/
theorem isNaN_eq_false (hnumber : ∃ v ∈ values, (key sentinel v).isNaN = false) :
    (key sentinel best.value).isNaN = false := by
  obtain ⟨v, hv, hnan⟩ := hnumber
  rw [← Bool.not_eq_true, ← cost_eq_top_iff sense]
  intro htop
  have hle := h.least v hv
  rw [htop, top_le_iff, cost_eq_top_iff sense, hnan] at hle
  cases hle

/-- The key of the entry is the best of all keys. -/
theorem isBest (hnumber : ∃ v ∈ values, (key sentinel v).isNaN = false) :
    IsBest sense (values.map (key sentinel)) (key sentinel best.value) := by
  have hnan := h.isNaN_eq_false hnumber
  refine isBest_of_score_le (List.mem_map_of_mem h.mem) hnan ?_
  rw [List.forall_mem_map]
  intro v hv hv'
  by_contra hbetter
  have hless := (cost_lt_iff hv' hnan).mpr (.inl ((beats_iff hv' hnan).mpr (not_le.mp hbetter)))
  exact hless.not_ge (h.least v hv)

/-- The key that is selected is the best one, up to the sign of a zero. -/
theorem key_beq (hm : IsBest sense (values.map (key sentinel)) m) :
    (key sentinel best.value == m) = true := by
  have hnumber : ∃ v ∈ values, (key sentinel v).isNaN = false := by
    obtain ⟨v, hv, rfl⟩ := List.mem_map.mp hm.mem
    exact ⟨v, hv, hm.isNaN⟩
  have hbest := h.isBest hnumber
  rw [beq_iff_score sense hbest.isNaN hm.isNaN]
  exact le_antisymm (hbest.score_le hm.mem hm.isNaN) (hm.score_le hbest.mem hbest.isNaN)

/-- The position is the first one with a defined entry of the best key, or else the first one
with any entry of that key. -/
theorem findIdx?_eq (hm : IsBest sense (values.map (key sentinel)) m) :
    (values.findIdx? fun v => v.isSome && key sentinel v == m).or
      (values.findIdx? fun v => key sentinel v == m) = some best.index := by
  obtain ⟨hindex, hentry⟩ := List.getElem?_eq_some_iff.mp h.entry
  have hkey := h.key_beq hm
  have hearlier (i : Nat) (hi : i < best.index) (hv : (key sentinel (values[i]) == m) = true) :
      best.value.isSome = true ∧ (values[i]).isNone = true := by
    rw [← cost_lt_iff_of_beq sense hkey hv]
    exact h.first i hi _ (List.getElem?_eq_getElem (hi.trans hindex))
  cases hdefined : best.value.isSome with
  | true =>
    rw [Option.or_eq_some_iff]
    refine .inl (List.findIdx?_eq_some_iff_getElem.mpr ⟨hindex, ?_, ?_⟩)
    · rw [hentry, hdefined, hkey]
      rfl
    · intro i hi hv
      rw [Bool.and_eq_true] at hv
      have hnone := (hearlier i hi hv.2).2
      rw [Option.isNone_iff_eq_none] at hnone
      rw [hnone] at hv
      cases hv.1
  | false =>
    rw [Option.or_eq_some_iff]
    refine .inr ⟨List.findIdx?_eq_none_iff.mpr ?_, ?_⟩
    · intro v hv
      rw [← Bool.not_eq_true, Bool.and_eq_true]
      rintro ⟨hsome, hv'⟩
      have hless := (cost_lt_iff_of_beq sense hv' hkey).mpr
        ⟨hsome, by rw [← Option.not_isSome, hdefined]; rfl⟩
      exact hless.not_ge (h.least v hv)
    · refine List.findIdx?_eq_some_iff_getElem.mpr ⟨hindex, ?_, ?_⟩
      · rw [hentry, hkey]
      · intro i hi hv
        have hsome := (hearlier i hi hv).1
        rw [hdefined] at hsome
        cases hsome

/-- With the default sentinel an undefined entry costs more than any number. -/
theorem isNaN_of_eq_none (hsentinel : sentinel = sense.sentinel) (hnone : best.value = none)
    {x : Float} (hx : some x ∈ values) : x.isNaN = true := by
  subst hsentinel
  rw [← Bool.not_eq_false]
  intro hnan
  have hnan' := isNaN_sentinel sense
  rw [← key_some sense.sentinel x] at hnan
  rw [← key_none sense.sentinel] at hnan'
  have hless : sense.cost sense.sentinel (some x) < sense.cost sense.sentinel none := by
    rw [cost_lt_iff hnan hnan', beats_iff hnan hnan', beq_iff_score sense hnan hnan']
    rcases lt_or_eq_of_le (score_le_sentinel sense hnan) with hlt | heq
    · exact .inl hlt
    · exact .inr ⟨heq, rfl, rfl⟩
  rw [← hnone] at hless
  exact hless.not_ge (h.least _ hx)

end Leftmost

/-- **The entry that is selected.** Nothing is selected where there are no values. What is
selected is an entry at its position. Where no key is a number it is the first entry. Elsewhere
there is a best key, and the entry is the first defined one of that key, or else the first one
of that key. With the default sentinel an undefined entry is selected only where no defined one
is a number. -/
theorem extremumOf_outcome (sense : Sense) (values : List (Option Float)) (sentinel : Float) :
    (sense.extremumOf values sentinel = none ↔ values = []) ∧
    (∀ best, sense.extremumOf values sentinel = some best →
      values[best.index]? = some best.value) ∧
    (values ≠ [] → (∀ v ∈ values, (key sentinel v).isNaN = true) →
      ∃ best, sense.extremumOf values sentinel = some best ∧ best.index = 0) ∧
    ((∃ v ∈ values, (key sentinel v).isNaN = false) →
      ∃ m, IsBest sense (values.map (key sentinel)) m) ∧
    (∀ m, IsBest sense (values.map (key sentinel)) m →
      ∃ best, sense.extremumOf values sentinel = some best ∧
        (values.findIdx? fun v => v.isSome && key sentinel v == m).or
          (values.findIdx? fun v => key sentinel v == m) = some best.index) ∧
    (sentinel = sense.sentinel → ∀ best, sense.extremumOf values sentinel = some best →
      best.value = none → ∀ x, some x ∈ values → x.isNaN = true) := by
  refine ⟨?_, ?_, ?_, ?_, ?_, ?_⟩
  · constructor
    · intro hnone
      by_contra hne
      obtain ⟨best, hbest, -⟩ := exists_leftmost sense sentinel hne
      rw [hnone] at hbest
      cases hbest
    · rintro rfl
      exact extremumOf_nil
  · intro best hbest
    exact (leftmost_of_extremumOf hbest).entry
  · intro hne hnan
    obtain ⟨best, hbest, hleftmost⟩ := exists_leftmost sense sentinel hne
    exact ⟨best, hbest, hleftmost.index_eq_zero hnan⟩
  · rintro ⟨v, hv, hnan⟩
    obtain ⟨best, -, hleftmost⟩ := exists_leftmost sense sentinel (List.ne_nil_of_mem hv)
    exact ⟨_, hleftmost.isBest ⟨v, hv, hnan⟩⟩
  · intro m hm
    obtain ⟨v, hv, -⟩ := List.mem_map.mp hm.mem
    obtain ⟨best, hbest, hleftmost⟩ := exists_leftmost sense sentinel (List.ne_nil_of_mem hv)
    exact ⟨best, hbest, hleftmost.findIdx?_eq hm⟩
  · intro hsentinel best hbest hnone x hx
    exact (leftmost_of_extremumOf hbest).isNaN_of_eq_none hsentinel hnone hx

/-- A defined infinity takes the place of an undefined entry of the same key, and neither a NaN
in front nor a later infinity changes that. -/
theorem extremumOf_outcome_infinity :
    ∃ best, min.extremumOf [some Double.nan, none, some Double.infinity, some Double.infinity]
        Double.infinity = some best ∧ best.index = 2 := by
  have hm : IsBest min ([some Double.nan, none, some Double.infinity, some Double.infinity].map
      (key Double.infinity)) Double.infinity := by
    refine ⟨List.mem_map.mpr ⟨none, by simp, rfl⟩, Double.isNaN_infinity, ?_⟩
    rw [List.forall_mem_map]
    simp only [List.forall_mem_cons]
    have hle : Double.infinity ≤ Double.infinity := by decide
    exact ⟨fun hnan => absurd hnan (by decide), fun _ => hle, fun _ => hle, fun _ => hle, nofun⟩
  obtain ⟨-, -, -, -, hbest, -⟩ := extremumOf_outcome min
    [some Double.nan, none, some Double.infinity, some Double.infinity] Double.infinity
  obtain ⟨best, heq, hindex⟩ := hbest Double.infinity hm
  exact ⟨best, heq, (Option.some.inj hindex).symm⟩

end PiecewiseLinear.Sense
