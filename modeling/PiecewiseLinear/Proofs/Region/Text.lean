import PiecewiseLinear.Proofs.Number.Print
import PiecewiseLinear.Proofs.Region.Canonical

/-!
# Regions in print

A region is known by its text. A segment in print shows where it ends: a bracket opens it, its
endpoints hold neither commas nor brackets, and a bracket closes it. So the segments are read off
one after the other, for as long as a bar follows.

- `endpointText_inj`: an endpoint is known by its text.
- `Segment.Printed`: the two shapes of a segment in print.
- `Segment.text_append_inj`, `Region.text_append_inj`: what begins a text is known by it.
- `Region.text_inj`: regions with the same text are equal.
-/

namespace PiecewiseLinear

open Double (toEReal)

variable {r r' : List Char}

/-! ## Endpoints in print -/

/-- An endpoint in print is an infinity with its sign or a finite double. -/
theorem endpointText_cases {v : Float} (hnan : v.isNaN = false) (hne : v ≠ -Double.zero) :
    v = Double.infinity ∧ endpointText v = "+inf" ∨
      v = -Double.infinity ∧ endpointText v = "-inf" ∨
        v.isFinite = true ∧ endpointText v = plain v := by
  have hnan' := Double.isNaN_infinity
  have hnan'' := Double.isNaN_neg_infinity
  unfold endpointText
  split_ifs with htop hbot
  · rw [← Double.toEReal_eq_iff hnan hnan'] at htop
    exact .inl ⟨Double.eq_of_toEReal_eq hnan hnan' hne (by decide) htop, rfl⟩
  · rw [← Double.toEReal_eq_iff hnan hnan''] at hbot
    exact .inr (.inl ⟨Double.eq_of_toEReal_eq hnan hnan'' hne (by decide) hbot, rfl⟩)
  · refine .inr (.inr ⟨(Double.isFinite_iff v).mpr ⟨hnan, ?_⟩, rfl⟩)
    rw [← Double.toEReal_eq_iff hnan hnan', Double.toEReal_infinity] at htop
    rw [← Double.toEReal_eq_iff hnan hnan'', Double.toEReal_neg_infinity] at hbot
    rw [← Bool.not_eq_true, Double.isInf_iff hnan]
    exact not_or.mpr ⟨htop, hbot⟩

/-- Whether a character may stand behind an endpoint. -/
def closesEndpoint (c : Char) : Bool := c = ',' || c = '\x7d' || c = ')' || c = ']'

/-- No number in print has a character that closes an endpoint. -/
theorem not_closesEndpoint_of_mem_plain {v : Float} (hfinite : v.isFinite = true) {c : Char}
    (hc : c ∈ (plain v).toList) : (!closesEndpoint c) = true := by
  rw [Bool.not_eq_true', ← Bool.not_eq_true]
  intro hcloses
  simp only [closesEndpoint, Bool.or_eq_true, decide_eq_true_eq] at hcloses
  have hplain := mem_plain hfinite hc
  rcases hcloses with ((rfl | rfl) | rfl) | rfl <;> exact absurd hplain (by decide)

/-- An endpoint in print holds nothing that may stand behind it. -/
theorem not_closesEndpoint_of_mem {v : Float} (hnan : v.isNaN = false) (hne : v ≠ -Double.zero) :
    ∀ c ∈ (endpointText v).toList, (!closesEndpoint c) = true := by
  rcases endpointText_cases hnan hne with ⟨-, htext⟩ | ⟨-, htext⟩ | ⟨hfinite, htext⟩
  · rw [htext]
    exact List.all_eq_true.mp rfl
  · rw [htext]
    exact List.all_eq_true.mp rfl
  · rw [htext]
    exact fun c => not_closesEndpoint_of_mem_plain hfinite

/-- The name of an infinity is not the text of a finite double. -/
theorem plain_ne_of_mem {v : Float} (hfinite : v.isFinite = true) {text : String}
    (h : 'i' ∈ text.toList) : plain v ≠ text := by
  rintro rfl
  exact absurd (mem_plain hfinite h) (by decide)

/-- **An endpoint is known by its text.** -/
theorem endpointText_inj {v w : Float} (hv : v.isNaN = false) (hv' : v ≠ -Double.zero)
    (hw : w.isNaN = false) (hw' : w ≠ -Double.zero) (h : endpointText v = endpointText w) :
    v = w := by
  have htop : 'i' ∈ "+inf".toList := by decide
  have hbot : 'i' ∈ "-inf".toList := by decide
  have hne : "+inf" ≠ "-inf" := by decide
  rcases endpointText_cases hv hv' with ⟨hpoint, htext⟩ | ⟨hpoint, htext⟩ | ⟨hfinite, htext⟩ <;>
    rcases endpointText_cases hw hw' with ⟨hpoint', htext'⟩ | ⟨hpoint', htext'⟩ |
      ⟨hfinite', htext'⟩ <;>
    rw [htext, htext'] at h
  · exact hpoint.trans hpoint'.symm
  · exact absurd h hne
  · exact absurd h.symm (plain_ne_of_mem hfinite' htop)
  · exact absurd h.symm hne
  · exact hpoint.trans hpoint'.symm
  · exact absurd h.symm (plain_ne_of_mem hfinite' hbot)
  · exact absurd h (plain_ne_of_mem hfinite htop)
  · exact absurd h (plain_ne_of_mem hfinite hbot)
  · exact (plain_inj hfinite hfinite').mp h

/-! ## Segments in print -/

namespace Segment

/-- The two shapes of a segment in print: a single real in braces, and two endpoints in the
brackets of their edges. -/
inductive Printed : Segment → List Char → Prop where
  | point {v : Float} (hfinite : v.isFinite = true) :
    Printed ⟨.included, v, v, .included⟩ ('\x7b' :: ((plain v).toList ++ ['\x7d']))
  | proper {s : Segment} (h : s.WellFormed) :
    Printed s (s.left.leftBracket.toList ++ ((endpointText s.lower).toList ++
      ',' :: ((endpointText s.upper).toList ++ s.right.rightBracket.toList)))

/-- A segment is printed in one of the two shapes. Equal endpoints are a single real, since a
segment is not empty. -/
theorem printed_text {s : Segment} (h : s.WellFormed) : Printed s s.text.toList := by
  have hpoint := Double.toEReal_eq_iff h.lower_isNaN h.upper_isNaN
  rw [text]
  split_ifs with heq
  · have hendpoints := Double.eq_of_toEReal_eq h.lower_isNaN h.upper_isNaN h.lower_ne h.upper_ne
      (hpoint.mpr heq)
    have hlt : ¬ s.lower < s.upper := by
      rw [← Double.toEReal_lt_iff h.lower_isNaN h.upper_isNaN, hpoint.mpr heq]
      exact lt_irrefl _
    obtain ⟨-, hleft, hright⟩ := h.nonempty.resolve_left hlt
    have hfinite : s.lower.isFinite = true := by
      rw [Double.isFinite_iff, ← Bool.not_eq_true (Float.isInf _)]
      refine ⟨h.lower_isNaN, fun hinf => ?_⟩
      cases hleft.symm.trans (h.left_of_isInf hinf)
    obtain ⟨left, lower, upper, right⟩ := s
    obtain rfl : lower = upper := hendpoints
    obtain rfl : left = .included := hleft
    obtain rfl : right = .included := hright
    rw [String.toList_append, String.toList_append, List.append_assoc]
    exact .point hfinite
  · simp only [String.toList_append, List.append_assoc]
    exact .proper h

theorem leftBracket_append_inj {edge edge' : Edge}
    (h : edge.leftBracket.toList ++ r = edge'.leftBracket.toList ++ r') :
    edge = edge' ∧ r = r' := by
  cases edge <;> cases edge' <;> cases h <;> exact ⟨rfl, rfl⟩

/-- A bracket behind an endpoint tells the edge. -/
theorem rightBracket_append_inj {edge edge' : Edge} {run run' : List Char}
    (hrun : ∀ c ∈ run, (!closesEndpoint c) = true) (hrun' : ∀ c ∈ run', (!closesEndpoint c) = true)
    (h : run ++ (edge.rightBracket.toList ++ r) = run' ++ (edge'.rightBracket.toList ++ r')) :
    run = run' ∧ edge = edge' ∧ r = r' := by
  cases edge <;> cases edge' <;>
    obtain ⟨rfl, hbracket, rfl⟩ := run_append_inj hrun hrun' (by decide) (by decide) h <;>
    cases hbracket <;> exact ⟨rfl, rfl, rfl⟩

theorem brace_ne_leftBracket {edge : Edge} : '\x7b' :: r ≠ edge.leftBracket.toList ++ r' := by
  cases edge <;> exact nofun

/-- **A segment at the head of a text is known by the text.** -/
theorem text_append_inj {s t : Segment} (hs : s.WellFormed) (ht : t.WellFormed)
    (h : s.text.toList ++ r = t.text.toList ++ r') : s = t ∧ r = r' := by
  have hprinted := printed_text hs
  have hprinted' := printed_text ht
  generalize s.text.toList = text at h hprinted
  generalize t.text.toList = text' at h hprinted'
  cases hprinted with
  | point hfinite =>
    cases hprinted' with
    | point hfinite' =>
      rw [List.cons_append, List.cons_append, List.append_assoc, List.append_assoc] at h
      obtain ⟨hplain, -, hrest⟩ := run_append_inj
        (fun _ => not_closesEndpoint_of_mem_plain hfinite)
        (fun _ => not_closesEndpoint_of_mem_plain hfinite') rfl rfl (List.cons.inj h).2
      rw [(plain_inj hfinite hfinite').mp (String.toList_inj.mp hplain)]
      exact ⟨rfl, hrest⟩
    | proper _ =>
      rw [List.append_assoc] at h
      exact absurd h brace_ne_leftBracket
  | proper _ =>
    cases hprinted' with
    | point hfinite' =>
      rw [List.append_assoc] at h
      exact absurd h.symm brace_ne_leftBracket
    | proper _ =>
      simp only [List.append_assoc, List.cons_append] at h
      -- bracket, endpoint, comma, endpoint, bracket
      obtain ⟨hleft, h⟩ := leftBracket_append_inj h
      obtain ⟨hlower, -, h⟩ := run_append_inj
        (not_closesEndpoint_of_mem hs.lower_isNaN hs.lower_ne)
        (not_closesEndpoint_of_mem ht.lower_isNaN ht.lower_ne) rfl rfl h
      obtain ⟨hupper, hright, hrest⟩ := rightBracket_append_inj
        (not_closesEndpoint_of_mem hs.upper_isNaN hs.upper_ne)
        (not_closesEndpoint_of_mem ht.upper_isNaN ht.upper_ne) h
      have hlower' := endpointText_inj hs.lower_isNaN hs.lower_ne ht.lower_isNaN ht.lower_ne
        (String.toList_inj.mp hlower)
      have hupper' := endpointText_inj hs.upper_isNaN hs.upper_ne ht.upper_isNaN ht.upper_ne
        (String.toList_inj.mp hupper)
      refine ⟨?_, hrest⟩
      cases s
      cases t
      simp_all

/-- A segment in print is not what stands for the empty region. -/
theorem text_append_ne {s : Segment} (hs : s.WellFormed) :
    s.text.toList ++ r ≠ "()".toList ++ r' := by
  intro h
  have hprinted := printed_text hs
  generalize s.text.toList = text at h hprinted
  cases hprinted with
  | point _ => cases h
  | proper _ =>
    rw [List.append_assoc] at h
    -- behind the parenthesis of an excluded end stands no endpoint
    have hempty : "()".toList ++ r' = Edge.excluded.leftBracket.toList ++ ([] ++ ')' :: r') := rfl
    obtain ⟨-, h⟩ := leftBracket_append_inj (h.trans hempty)
    rw [List.append_assoc, List.cons_append] at h
    obtain ⟨-, hcomma, -⟩ := run_append_inj
      (not_closesEndpoint_of_mem hs.lower_isNaN hs.lower_ne) (List.forall_mem_nil _) rfl rfl h
    cases hcomma

end Segment

/-! ## Regions in print -/

namespace Region

/-- What stands between two segments. -/
def bar : List Char := " | ".toList

/-- Segments behind another one, each behind a bar. -/
def furtherText (ss : List Segment) : List Char := ss.flatMap fun s => bar ++ s.text.toList

/-- Further segments are known by a text that does not go on with one. -/
theorem furtherText_append_inj {ss ts : List Segment} (hs : ∀ s ∈ ss, s.WellFormed)
    (ht : ∀ t ∈ ts, t.WellFormed) (hr : ¬ bar <+: r) (hr' : ¬ bar <+: r')
    (h : furtherText ss ++ r = furtherText ts ++ r') : ss = ts ∧ r = r' := by
  induction ss generalizing ts with
  | nil =>
    cases ts with
    | nil => exact ⟨rfl, h⟩
    | cons t ts =>
      refine absurd ?_ hr
      have hfurther : r = bar ++ (t.text.toList ++ (furtherText ts ++ r')) := by
        simpa [furtherText] using h
      exact hfurther ▸ List.prefix_append _ _
  | cons s ss ih =>
    cases ts with
    | nil =>
      refine absurd ?_ hr'
      have hfurther : bar ++ (s.text.toList ++ (furtherText ss ++ r)) = r' := by
        simpa [furtherText] using h
      exact hfurther ▸ List.prefix_append _ _
    | cons t ts =>
      rw [List.forall_mem_cons] at hs ht
      simp only [furtherText, List.flatMap_cons, List.append_assoc] at h
      obtain ⟨rfl, hfurther⟩ := Segment.text_append_inj hs.1 ht.1 (List.append_cancel_left h)
      obtain ⟨rfl, hrest⟩ := ih hs.2 ht.2 hfurther
      exact ⟨rfl, hrest⟩

theorem toList_text_nil : (text ⟨[]⟩).toList = "()".toList := rfl

theorem toList_text_cons (s : Segment) (ss : List Segment) :
    (text ⟨s :: ss⟩).toList = s.text.toList ++ furtherText ss := by
  rw [text, if_neg (by simp [isEmpty]), String.toList_intercalate, List.map_cons, List.map_cons,
    intercalate_cons, furtherText, List.map_map, List.flatMap_map]
  rfl

/-- **A region at the head of a text is known by the text** if that does not go on with another
segment. -/
theorem text_append_inj {a b : Region} (ha : ∀ s ∈ a.segments, s.WellFormed)
    (hb : ∀ s ∈ b.segments, s.WellFormed) (hr : ¬ bar <+: r) (hr' : ¬ bar <+: r')
    (h : a.text.toList ++ r = b.text.toList ++ r') : a = b ∧ r = r' := by
  obtain ⟨ss⟩ := a
  obtain ⟨ts⟩ := b
  cases ss with
  | nil =>
    cases ts with
    | nil => exact ⟨rfl, List.append_cancel_left h⟩
    | cons t ts =>
      rw [toList_text_nil, toList_text_cons, List.append_assoc] at h
      exact absurd h.symm (Segment.text_append_ne (hb t List.mem_cons_self))
  | cons s ss =>
    cases ts with
    | nil =>
      rw [toList_text_nil, toList_text_cons, List.append_assoc] at h
      exact absurd h (Segment.text_append_ne (ha s List.mem_cons_self))
    | cons t ts =>
      rw [List.forall_mem_cons] at ha hb
      rw [toList_text_cons, toList_text_cons, List.append_assoc, List.append_assoc] at h
      obtain ⟨rfl, hfurther⟩ := Segment.text_append_inj ha.1 hb.1 h
      obtain ⟨rfl, hrest⟩ := furtherText_append_inj ha.2 hb.2 hr hr' hfurther
      exact ⟨rfl, hrest⟩

/-- **Regions with the same text are equal.** -/
theorem text_inj {a b : Region} (ha : Reachable a) (hb : Reachable b) :
    a.text = b.text ↔ a = b := by
  refine ⟨fun h => ?_, congrArg text⟩
  have hend : ¬ bar <+: [] := nofun
  exact (text_append_inj ha.separated.wellFormed hb.separated.wellFormed hend hend (by rw [h])).1

end Region

end PiecewiseLinear
