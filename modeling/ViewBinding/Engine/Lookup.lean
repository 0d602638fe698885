import ViewBinding.Decimal.Reading
import ViewBinding.Engine.Property

/-!
# Reading and writing along paths

A path is walked from a root value, every property on the way being read. The walk stops where a
value has no properties, and the fault names the segment that gave this value. Writes walk to the
object that holds the last segment without tracking anybody.
-/

namespace ViewBinding

variable {Code Memory : Type} [Inhabited Code]

/-- The natural number that a segment of ASCII digits spells. -/
def index? (segment : String) : Option Nat :=
  let digits := segment.toList
  if !digits.isEmpty && digits.all Char.isDigit then some (Decimal.digitsValue digits) else none

/-- What a segment means on an array: its length, or the item at an index. -/
def itemAt (items : List Value) (segment : String) : Value :=
  if segment = "length" then .number (Float.ofNat items.length)
  else ((index? segment).bind (items[·]?)).getD .undefined

/-- The fault of a value that has no properties. -/
def Path.faultAt (path : Path) (segment : String) : Value → Error
  | .undefined => .path path.text segment .missing
  | .null => .path path.text segment .missing
  | _ => .path path.text segment .notAnObject

namespace Engine

/-- Reads the segments one after the other. `owner` names the segment that gave the value. -/
def walk (c : Reentry Code Memory) (path : Path) (reader : Option TrackerId) :
    Option String → Value → List String → Engine Code Memory Value
  | _, value, [] => return value
  | owner, value, segment :: rest =>
    match value with
    | .object object => do
      let next ← get c object segment reader
      walk c path reader (some segment) next rest
    | .array _ items => walk c path reader (some segment) (itemAt items segment) rest
    | other => throw (path.faultAt (owner.getD segment) other)

def readPath (c : Reentry Code Memory) (root : Value) (path : Path)
    (reader : Option TrackerId) : Engine Code Memory Value :=
  walk c path reader none root path.segments

/-- Writes the property that a path names. Tracking is paused until all subscribers are told, and the
value is kept alive until it is stored. -/
def writePath (c : Reentry Code Memory) (root : Value) (path : Path) (value : Value)
    (reader : Option TrackerId) : Engine Code Memory Unit := framed reader none do
  match ← keeping value.refs (walk c path reader none root path.parents) with
  | .object object => set c object path.last value
  | other => throw (path.faultAt (path.parents.getLastD path.last) other)

/-- The text of the segments of a template. -/
def renderSegments (c : Reentry Code Memory) (root : Value) (reader : Option TrackerId) :
    List Template.Segment → Engine Code Memory String
  | [] => return ""
  | .literal text :: rest => do
    let others ← renderSegments c root reader rest
    return text ++ others
  | .placeholder path :: rest => do
    let value ← readPath c root path reader
    let others ← renderSegments c root reader rest
    return value.text ++ others

def renderTemplate (c : Reentry Code Memory) (template : Template) (root : Value)
    (reader : Option TrackerId) : Engine Code Memory String :=
  renderSegments c root reader template.segments

end Engine

end ViewBinding
