import ViewBinding.Error
import ViewBinding.Text.Blank
import ViewBinding.Text.Identifier
import ViewBinding.Text.Search

/-!
# Dotted paths

An expression is a path: identifiers joined by dots, with blanks around the whole. The last segment
names the property that is read or written, those before it lead to the object that holds it.
-/

namespace ViewBinding

/-- What is wrong with a segment by itself, if it is no identifier. -/
def segmentFault? (segment : List Char) : Option PathFault :=
  if segment.isEmpty then some .empty
  else if segment.all Text.isIdentifierChar then none
  else some .invalid

structure Path where
  segments : List String
  nonempty : segments ≠ []
  identifiers : ∀ s ∈ segments, segmentFault? s.toList = none
  deriving DecidableEq

namespace Path

/-- A path of one segment, which is the underscore. -/
instance : Inhabited Path := ⟨⟨["_"], by simp, by simp [segmentFault?, Text.isIdentifierChar]⟩⟩

/-- The segment that names the property. -/
def last (p : Path) : String :=
  p.segments.getLast p.nonempty

/-- The segments that lead to the object. -/
def parents (p : Path) : List String :=
  p.segments.dropLast

/-- The segments joined by dots. -/
def text (p : Path) : String :=
  ".".intercalate p.segments

/-- The first fault of a list of segments, with the segment it lies in. -/
def firstFault? (segments : List (List Char)) : Option (List Char × PathFault) :=
  segments.findSome? fun segment => (segmentFault? segment).map fun fault => (segment, fault)

theorem firstFault?_eq_none {segments : List (List Char)} :
    firstFault? segments = none ↔ ∀ s ∈ segments, segmentFault? s = none := by
  simp [firstFault?]

/-- The path of segments without fault. -/
def ofSegments (first : List Char) (others : List (List Char))
    (h : firstFault? (first :: others) = none) : Path where
  segments := (first :: others).map String.ofList
  nonempty := by simp
  identifiers s hs := by
    obtain ⟨cs, hcs, rfl⟩ := List.mem_map.mp hs
    rw [String.toList_ofList]
    exact firstFault?_eq_none.mp h cs hcs

/--
Reads a path. The blanks around an expression do not belong to it; an expression of blanks only is
reported as it stands.
-/
def parse (expression : String) : Except Error Path :=
  let trimmed := Text.trim expression.toList
  if trimmed.isEmpty then .error (.path expression "" .empty)
  else
    let fields := Text.fields '.' trimmed
    match h : firstFault? (fields.1 :: fields.2) with
    | some (segment, fault) =>
      .error (.path (String.ofList trimmed) (String.ofList segment) fault)
    | none => .ok (ofSegments fields.1 fields.2 h)

theorem parse_empty : parse "" = .error (.path "" "" .empty) := by
  simp [parse, Text.trim]

end Path

end ViewBinding
