import ViewBinding.Store.Entries
import ViewBinding.Value

/-!
# Properties of objects

An object is an ordered list of named slots. A slot holds a value or says where to find one. Once an
object is observed, every stored field has a change source that readers register with, and so has
every absent key that somebody waits for.
-/

namespace ViewBinding

inductive Slot where
  /-- A stored value, with its change source if there is one. -/
  | field (value : Value) (source : Option SourceId)
  /-- A value that a getter produces. -/
  | computed (id : ComputedId)
  /-- A value that cannot be written. -/
  | constant (value : Value)
  /-- Another name for a property of another object. -/
  | proxy (target : ObjectId) (key : String)
  deriving Repr, Inhabited

structure Object where
  slots : Entries String Slot := {}
  /-- The sources of absent keys that were read by a subscriber. -/
  awaited : Entries String SourceId := {}
  observed : Bool := false
  deriving Inhabited

namespace Object

def keys (o : Object) : List String :=
  o.slots.keys

def slot? (o : Object) (key : String) : Option Slot :=
  o.slots.find? key

/-- The stored fields with their values, in order. -/
def fields (o : Object) : List (String × Value) :=
  o.slots.toList.filterMap fun
    | (key, .field value _) => some (key, value)
    | _ => none

/-- The objects that are values of stored fields. -/
def children (o : Object) : List ObjectId :=
  o.fields.filterMap fun (_, value) => value.object?

end Object

end ViewBinding
