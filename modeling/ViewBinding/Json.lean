import ViewBinding.Decimal.Layout
import ViewBinding.Text.Quoted

/-!
# JSON documents

A document as it is written: integers are apart from other numbers, and the members of an object
stand in an order of their own. `compact` writes without blanks; `sorted` puts members in the order
of their names.
-/

namespace ViewBinding

inductive Json where
  | null
  | bool (b : Bool)
  | integer (n : Int)
  | real (x : Float)
  | string (s : String)
  | array (items : List Json)
  | object (members : List (String × Json))
  deriving Repr

namespace Json

/--
A number that is not written as an integer has the fewest digits that read back, an exact tie going
to the even digit. It is positional when its first digit has an exponent from -5 to 15, with `.0`
where there is no fraction, and scientific otherwise. What is no number is `null`.
-/
def realText (x : Float) : String :=
  match Decimal.Binary.ofFloat x with
  | .nan => "null"
  | .infinite _ => "null"
  | .finite negative 0 _ => String.ofList (Decimal.signed negative ['0', '.', '0'])
  | .finite negative mantissa exponent =>
    let d := Decimal.shortest .even mantissa exponent
    let digits :=
      if d.leading < -5 || 16 ≤ d.leading then d.scientific
      else if d.isInteger then d.positional ++ ['.', '0']
      else d.positional
    String.ofList (Decimal.signed negative digits)

mutual

/-- The document without blanks. -/
def compact : Json → String
  | null => "null"
  | bool b => if b then "true" else "false"
  | integer n => toString n
  | real x => realText x
  | string s => Text.Quoted.json s
  | array items => "[" ++ ",".intercalate (compactItems items) ++ "]"
  | object members => "\x7b" ++ ",".intercalate (compactMembers members) ++ "\x7d"

def compactItems : List Json → List String
  | [] => []
  | item :: rest => item.compact :: compactItems rest

def compactMembers : List (String × Json) → List String
  | [] => []
  | (name, value) :: rest => (Text.Quoted.json name ++ ":" ++ value.compact) :: compactMembers rest

end

/-- Members in the order of their names, character by character. -/
def sortMembers (members : List (String × Json)) : List (String × Json) :=
  members.mergeSort fun a b => decide (a.1 ≤ b.1)

mutual

/-- The document with the members of every object in the order of their names. -/
def sorted : Json → Json
  | array items => array (sortedItems items)
  | object members => object (sortMembers (sortedMembers members))
  | other => other

def sortedItems : List Json → List Json
  | [] => []
  | item :: rest => item.sorted :: sortedItems rest

def sortedMembers : List (String × Json) → List (String × Json)
  | [] => []
  | (name, value) :: rest => (name, value.sorted) :: sortedMembers rest

end

end Json

end ViewBinding
