import ViewBinding.Store.Reach
import ViewBinding.World

/-!
# Observing objects

Observing a value gives every stored field of the objects reachable from it a change source. A field
that has one keeps it, so observing again changes nothing.
-/

namespace ViewBinding.World

variable {Code Memory : Type} [Inhabited Code]

/-- A slot that has a source if it is a stored field. -/
def equip (w : World Code Memory) : Slot → Slot × World Code Memory
  | .field value none =>
    let (source, w) := w.addSource
    (.field value (some source), w)
  | slot => (slot, w)

/-- Makes one object observed. -/
def instrument (w : World Code Memory) (id : ObjectId) : World Code Memory :=
  let (slots, w) := (w.object id).slots.mapThread equip w
  w.mapObject id fun o => { o with slots, observed := true }

/-- The objects reachable from a value through stored fields, each once. -/
def reachable (w : World Code Memory) (value : Value) : List ObjectId :=
  explore (fun id => (w.object id).children) w.objects.keys value.object?.toList

/-- Makes a value and all that is reachable from it observed. -/
def observe (w : World Code Memory) (value : Value) : World Code Memory :=
  (w.reachable value).foldl instrument w

end ViewBinding.World
