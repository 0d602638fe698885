import ViewBinding.Json
import ViewBinding.World.Property

/-!
# Values and JSON documents

`load` makes the value of a document, with new objects that nobody observes. `json` writes a value:
only stored fields are written, functions and what is no finite number are `null`, and integral
numbers below 9 * 10^15 are integers.
-/

namespace ViewBinding.World

variable {Code Memory : Type} [Inhabited Code]

mutual

/-- The value of a document. -/
def load (w : World Code Memory) : Json → Value × World Code Memory
  | .null => (.null, w)
  | .bool b => (.bool b, w)
  | .integer n => (.number (Float.ofInt n), w)
  | .real x => (.number x, w)
  | .string s => (.string s, w)
  | .array items =>
    let (values, w) := w.loadItems items
    w.addArray values
  | .object members =>
    let (object, w) := w.addObject
    (.object object, w.loadMembers object members)

def loadItems (w : World Code Memory) : List Json → List Value × World Code Memory
  | [] => ([], w)
  | item :: rest =>
    let (value, w) := w.load item
    let (values, w) := w.loadItems rest
    (value :: values, w)

/-- Stores members in an object that nobody observes. -/
def loadMembers (w : World Code Memory) (object : ObjectId) :
    List (String × Json) → World Code Memory
  | [] => w
  | (key, json) :: rest =>
    let (value, w) := w.load json
    (w.store object key value).2.loadMembers object rest

end

/-- A number as JSON. -/
def numberJson (x : Float) : Json :=
  match Decimal.Binary.ofFloat x with
  | .finite negative mantissa exponent =>
    match (Decimal.Binary.finite negative mantissa exponent).integer? with
    | some n => if n.natAbs < 9000000000000000 then .integer n else .real x
    | none => .real x
  | _ => .null

mutual

/-- A value as JSON, with objects down to a depth. -/
def jsonWithin (w : World Code Memory) (depth : Nat) (value : Value) : Json :=
  match value with
  | .undefined => .null
  | .null => .null
  | .bool b => .bool b
  | .number x => numberJson x
  | .string s => .string s
  | .object id =>
    match depth with
    | 0 => .null
    | depth + 1 => .object (w.membersWithin depth (w.object id).fields)
  | .array _ items => .array (w.itemsWithin depth items)
  | .function _ _ => .null
termination_by (depth, sizeOf value)

def itemsWithin (w : World Code Memory) (depth : Nat) (items : List Value) : List Json :=
  match items with
  | [] => []
  | item :: rest => w.jsonWithin depth item :: w.itemsWithin depth rest
termination_by (depth, sizeOf items)

def membersWithin (w : World Code Memory) (depth : Nat) (fields : List (String × Value)) :
    List (String × Json) :=
  match fields with
  | [] => []
  | (key, value) :: rest => (key, w.jsonWithin depth value) :: w.membersWithin depth rest
termination_by (depth, sizeOf fields)

end

/-- A value as JSON. Objects that do not hold themselves are nested no deeper than their number. -/
def json (w : World Code Memory) (value : Value) : Json :=
  w.jsonWithin w.objects.size value

/-- The stored data of a view model as JSON. -/
def snapshot (w : World Code Memory) (owner : ViewModelId) : Json :=
  w.json (.object (w.viewModel owner).data)

end ViewBinding.World
