import ViewBinding.Decimal.Layout
import ViewBinding.Id

/-!
# Values

What a path resolves to: primitives, and things that are the same only if they are one and the same.
Objects are referred to; the items of an array never change, so an array is its items together with
an identity.
-/

namespace ViewBinding

inductive Value where
  /-- What an absent property reads as. -/
  | undefined
  | null
  | bool (b : Bool)
  | number (x : Float)
  | string (s : String)
  | object (id : ObjectId)
  | array (id : ArrayId) (items : List Value)
  | function (id : FunctionId) (name : String)
  deriving Repr, Inhabited

namespace Value

/-- Equality that decides whether a write changes anything: objects, arrays and functions by
identity, primitives by value. -/
def same : Value → Value → Bool
  | undefined, undefined => true
  | null, null => true
  | bool a, bool b => a == b
  | number a, number b => (Decimal.Binary.ofFloat a).same (Decimal.Binary.ofFloat b)
  | string a, string b => a == b
  | object a, object b => a == b
  | array a _, array b _ => a == b
  | function a _, function b _ => a == b
  | _, _ => false

def isUndefined : Value → Bool
  | undefined => true
  | _ => false

def string? : Value → Option String
  | string s => some s
  | _ => none

def number? : Value → Option Float
  | number x => some x
  | _ => none

def bool? : Value → Option Bool
  | bool b => some b
  | _ => none

def object? : Value → Option ObjectId
  | object id => some id
  | _ => none

def function? : Value → Option FunctionId
  | function id _ => some id
  | _ => none

def typeName : Value → String
  | undefined => "undefined"
  | null => "null"
  | bool _ => "boolean"
  | number _ => "number"
  | string _ => "string"
  | object _ => "object"
  | array _ _ => "array"
  | function _ _ => "function"

/-- The fewest digits that read back, all in their places; an exact tie goes up. -/
def digitsText (negative : Bool) (mantissa : Nat) (exponent : Int) : String :=
  String.ofList (Decimal.signed negative (Decimal.shortest .up mantissa exponent).positional)

/-- A number as it is rendered; zero has no sign. -/
def numberText (x : Float) : String :=
  match Decimal.Binary.ofFloat x with
  | .nan => "NaN"
  | .infinite negative => if negative then "-Infinity" else "Infinity"
  | .finite _ 0 _ => "0"
  | .finite negative mantissa exponent => digitsText negative mantissa exponent

/-- A number as it is shown to people; here zero has its sign. -/
def shownNumber (x : Float) : String :=
  match Decimal.Binary.ofFloat x with
  | .nan => "NaN"
  | .infinite negative => if negative then "-inf" else "inf"
  | .finite negative 0 _ => if negative then "-0" else "0"
  | .finite negative mantissa exponent => digitsText negative mantissa exponent

mutual

/-- The text that a value renders as. -/
def text : Value → String
  | undefined => ""
  | null => ""
  | bool b => if b then "true" else "false"
  | number x => numberText x
  | string s => s
  | object _ => "[object Object]"
  | array _ items => ",".intercalate (texts items)
  | function _ name => s!"function {name}()"

def texts : List Value → List String
  | [] => []
  | item :: rest => item.text :: texts rest

end

end Value

end ViewBinding
