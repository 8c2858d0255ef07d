import PiecewiseLinear.Number.Layout
import PiecewiseLinear.Region.Segment

/-!
# Regions of the real line

A region is a finite union of segments. Its segments are kept in order and apart, so a
set of reals has one representation.

- `Region.ofBounds`, `Region.point`: regions of at most one segment.
- `Region.univ`, `Region.Iio`, `Region.Iic`, `Region.Ioi`, `Region.Ici`: the real line and
  the half-lines.
- `Region.union`, `Region.inter`, `Region.compl`, `Region.unions`: the set operations.
- `Region.contains`, `Region.same`, `Region.overlaps`: membership, equality, and whether two
  regions share a real.
- `Segment.text`, `Region.text`: `(0,1]` with round brackets at excluded ends and square ones at
  included ends, `{5}` for a single real, bars between segments, and `()` for none.

Every operation that gathers segments goes through `Region.ofSegments`, which sorts them
by where they start and then joins neighbours that leave no gap.
-/

namespace PiecewiseLinear

/-- A finite union of segments, in order and with a gap between neighbours. -/
structure Region where
  segments : List Segment
deriving DecidableEq, Repr

namespace Region

/-! ## Regions of at most one segment -/

/-- The empty region. -/
def empty : Region := ⟨[]⟩

/-- The reals between two endpoints. -/
def ofBounds (left : Edge) (lower upper : Float) (right : Edge) : Region :=
  ⟨(Segment.ofBounds? left lower upper right).toList⟩

/-- The whole real line. -/
def univ : Region := ofBounds .excluded (-Double.infinity) Double.infinity .excluded

/-- A single real. -/
def point (v : Float) : Region := ofBounds .included v v .included

/-- The reals less than `bound`. -/
def Iio (bound : Float) : Region := ofBounds .excluded (-Double.infinity) bound .excluded

/-- The reals up to `bound`. -/
def Iic (bound : Float) : Region := ofBounds .excluded (-Double.infinity) bound .included

/-- The reals greater than `bound`. -/
def Ioi (bound : Float) : Region := ofBounds .excluded bound Double.infinity .excluded

/-- The reals from `bound` on. -/
def Ici (bound : Float) : Region := ofBounds .included bound Double.infinity .excluded

/-! ## Gathering segments -/

/-- Puts a segment in front of the first one that it starts no later than. -/
def insert (s : Segment) : List Segment → List Segment
  | [] => [s]
  | t :: ts => if s.startsBy t then s :: t :: ts else t :: insert s ts

/-- Segments in the order of their starts. -/
def sorted (ss : List Segment) : List Segment := ss.foldr insert []

/-- Joins `current` with the segments after it for as long as they meet. -/
def joinFrom (current : Segment) : List Segment → List Segment
  | [] => [current]
  | s :: ss => if current.meets s then joinFrom (current.extend s) ss else current :: joinFrom s ss

/-- Joins neighbours that leave no gap. -/
def join : List Segment → List Segment
  | [] => []
  | s :: ss => joinFrom s ss

/-- The union of segments given in any order. -/
def ofSegments (ss : List Segment) : Region := ⟨join (sorted ss)⟩

/-! ## Queries -/

/-- Whether no real lies in a region. -/
def isEmpty (a : Region) : Bool := a.segments.isEmpty

/-- Whether a double lies in a region. -/
def contains (a : Region) (v : Float) : Bool := a.segments.any (·.contains v)

/-- Whether two regions have the same segments in the same order. -/
def same (a b : Region) : Bool := a.segments.isEqv b.segments Segment.same

instance : Membership Float Region := ⟨fun a v => a.contains v = true⟩

instance (v : Float) (a : Region) : Decidable (v ∈ a) :=
  inferInstanceAs (Decidable (a.contains v = true))

/-! ## Set operations -/

/-- The reals in either region. -/
def union (a b : Region) : Region := ofSegments (a.segments ++ b.segments)

/-- The reals in both regions. -/
def inter (a b : Region) : Region :=
  ofSegments (a.segments.flatMap fun s => b.segments.filterMap s.inter?)

/-- The gaps that the segments leave after a cut, where `edge` tells whether the cut
itself is still to be covered. -/
def gapsFrom (cut : Float) (edge : Edge) : List Segment → List Segment
  | [] => (Segment.ofBounds? edge cut Double.infinity .excluded).toList
  | s :: ss =>
    (Segment.ofBounds? edge cut s.lower s.left.flip).toList ++ gapsFrom s.upper s.right.flip ss

/-- The reals outside a region. -/
def compl (a : Region) : Region :=
  ⟨gapsFrom (-Double.infinity) .excluded a.segments⟩

/-- Whether two regions share a real. -/
def overlaps (a b : Region) : Bool := !(a.inter b).isEmpty

/-- The reals in any of the regions. -/
def unions (regions : List Region) : Region := ofSegments (regions.flatMap (·.segments))

instance : Union Region := ⟨union⟩

instance : Inter Region := ⟨inter⟩

end Region

/-! ## Regions in print -/

/-- An endpoint in print: infinities carry their sign. -/
def endpointText (v : Float) : String :=
  if v == Double.infinity then "+inf"
  else if v == -Double.infinity then "-inf"
  else plain v

namespace Edge

/-- The bracket in front of a lower end. -/
def leftBracket : Edge → String
  | excluded => "("
  | included => "["

/-- The bracket behind an upper end. -/
def rightBracket : Edge → String
  | excluded => ")"
  | included => "]"

end Edge

/-- A segment in print. -/
def Segment.text (s : Segment) : String :=
  if s.lower == s.upper then "\x7b" ++ plain s.lower ++ "\x7d"
  else
    s.left.leftBracket ++ endpointText s.lower ++ "," ++ endpointText s.upper ++
      s.right.rightBracket

/-- A region in print. -/
def Region.text (a : Region) : String :=
  if a.isEmpty then "()" else " | ".intercalate (a.segments.map Segment.text)

end PiecewiseLinear
