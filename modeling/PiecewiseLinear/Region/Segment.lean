import PiecewiseLinear.Number.Rounding

/-!
# Segments of the real line

A segment is a nonempty connected set of reals between two endpoints, each of which may
or may not belong to it. Endpoints are doubles; an infinite one never belongs.

- `Segment.ofBounds?`: the segment between two endpoints, unless that is empty.
- `Segment.contains`: membership of a double.
- `Segment.same`: equality, with endpoints compared as numbers.
- `Segment.inter?`: the common part of two segments, unless that is empty.
- `Segment.meets`, `Segment.extend`: whether two segments in order leave no gap, and
  their union in that case.

`Segment.ofBounds?` is the only way in which the library builds a segment from endpoints.
It refuses endpoints that are no number and turns negative zero into zero, so equal
segments are equal field by field.
-/

namespace PiecewiseLinear

/-- Whether an endpoint belongs to its segment. -/
inductive Edge where
  | excluded
  | included
deriving DecidableEq, Repr

namespace Edge

/-- The edge on the other side of the same cut. -/
def flip : Edge → Edge
  | excluded => included
  | included => excluded

/-- The edge of a common part: included where both are. -/
def both : Edge → Edge → Edge
  | included, included => included
  | _, _ => excluded

end Edge

/-- The reals from `lower` to `upper`, with or without either end. -/
structure Segment where
  left : Edge
  lower : Float
  upper : Float
  right : Edge
deriving DecidableEq, Repr

namespace Segment

/-- The edge that an endpoint can have: infinities stay outside. -/
def edgeAt (endpoint : Float) (edge : Edge) : Edge :=
  if endpoint.isInf then .excluded else edge

/-- An endpoint in its one form: both zeros are the positive one. -/
def endpoint (v : Float) : Float := if v == Double.zero then Double.zero else v

/-- The segment between two endpoints, unless no real lies between them. -/
def ofBounds? (left : Edge) (lower upper : Float) (right : Edge) : Option Segment :=
  if lower.isNaN || upper.isNaN then none
  else
    let left := edgeAt lower left
    let right := edgeAt upper right
    let lower := endpoint lower
    let upper := endpoint upper
    if lower < upper || (lower == upper && left.both right = .included) then
      some ⟨left, lower, upper, right⟩
    else none

/-- Whether a double lies in a segment. -/
def contains (s : Segment) (v : Float) : Bool :=
  (s.lower < v || (s.left = .included && s.lower == v)) &&
    (v < s.upper || (s.right = .included && v == s.upper))

/-- Whether two segments have the same edges and equal endpoints. -/
def same (s t : Segment) : Bool :=
  s.left = t.left && s.lower == t.lower && s.upper == t.upper && s.right = t.right

/-- The larger of two lower ends, and the edge that both sides allow there. -/
def laterStart (a b : Segment) : Float × Edge :=
  if b.lower < a.lower then (a.lower, a.left)
  else if a.lower < b.lower then (b.lower, b.left)
  else (a.lower, a.left.both b.left)

/-- The smaller of two upper ends, and the edge that both sides allow there. -/
def earlierEnd (a b : Segment) : Float × Edge :=
  if a.upper < b.upper then (a.upper, a.right)
  else if b.upper < a.upper then (b.upper, b.right)
  else (a.upper, a.right.both b.right)

/-- The common part of two segments, unless it is empty. -/
def inter? (a b : Segment) : Option Segment :=
  let (lower, left) := laterStart a b
  let (upper, right) := earlierEnd a b
  ofBounds? left lower upper right

/-- Whether `a` starts no later than `b`: at the smaller lower end, and of two equal ones
at the one that belongs to its segment. -/
def startsBy (a b : Segment) : Bool :=
  a.lower < b.lower || (a.lower == b.lower && (a.left = .included || b.left = .excluded))

/-- Whether `b`, which starts no earlier than `a`, overlaps it or touches it without
a gap. -/
def meets (a b : Segment) : Bool :=
  b.lower < a.upper ||
    (b.lower == a.upper && (a.right = .included || b.left = .included))

/-- The union of `a` with a segment that it meets. -/
def extend (a b : Segment) : Segment :=
  if a.upper < b.upper then { a with upper := b.upper, right := b.right }
  else if b.upper == a.upper && b.right = .included then { a with right := .included }
  else a

end Segment

end PiecewiseLinear
