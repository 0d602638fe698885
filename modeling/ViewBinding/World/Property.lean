import ViewBinding.World.Observation

/-!
# Slots in a world

Which property a key stands for, which source hears of its changes, and how a field is stored. A
field that comes into being takes over the source that readers of the absent key wait on, so that
they hear of it.
-/

namespace ViewBinding.World

variable {Code Memory : Type} [Inhabited Code]

/-- Follows proxies to the property they stand for. -/
def follow (w : World Code Memory) : Nat → ObjectId → String → ObjectId × String
  | 0, object, key => (object, key)
  | steps + 1, object, key =>
    match (w.object object).slot? key with
    | some (.proxy target name) => w.follow steps target name
    | _ => (object, key)

/-- The property that a key of an object stands for. A proxy is made after its target, so no chain of
proxies is longer than there are objects. -/
def resolve (w : World Code Memory) (object : ObjectId) (key : String) : ObjectId × String :=
  w.follow w.objects.size object key

/-- The source that hears of changes of a key, if there is one. -/
def sourceAt (w : World Code Memory) (object : ObjectId) (key : String) : Option SourceId :=
  match (w.object object).slot? key with
  | some (.field _ source) => source
  | some (.computed id) => some (w.computed id).source
  | _ => none

def putSlot (w : World Code Memory) (object : ObjectId) (key : String) (slot : Slot) :
    World Code Memory :=
  w.mapObject object fun o => { o with slots := o.slots.put key slot }

/-- The source of an absent key, made if nobody has waited for the key before. -/
def await (w : World Code Memory) (object : ObjectId) (key : String) :
    SourceId × World Code Memory :=
  match (w.object object).awaited.find? key with
  | some source => (source, w)
  | none =>
    let (source, w) := w.addSource
    (source, w.mapObject object fun o => { o with awaited := o.awaited.put key source })

/-- The source that a stored field keeps, and the one whose subscribers are told of the value. -/
def handover (o : Object) (key : String) (value : Value) : Option SourceId × Option SourceId :=
  match o.slot? key with
  | some (.field old source) => (source, if old.same value then none else source)
  | some _ => (none, none)
  | none =>
    let waiting := if o.observed then o.awaited.find? key else none
    (waiting, waiting)

/-- A source that is there, or a new one. -/
def sourceOrNew (w : World Code Memory) : Option SourceId → SourceId × World Code Memory
  | some source => (source, w)
  | none => w.addSource

/-- Takes a key that comes into being from the keys that are waited for. -/
def arrive (w : World Code Memory) (object : ObjectId) (key : String) : World Code Memory :=
  if (w.object object).observed && ((w.object object).slot? key).isNone then
    w.mapObject object fun o => { o with awaited := o.awaited.erase key }
  else w

/-- Stores a field whatever the key held before. Answers the source to notify, if any. -/
def store (w : World Code Memory) (object : ObjectId) (key : String) (value : Value) :
    Option SourceId × World Code Memory :=
  let (kept, told) := handover (w.object object) key value
  let w := w.arrive object key
  if (w.object object).observed then
    let (source, w) := w.sourceOrNew kept
    (told, (w.putSlot object key (.field value (some source))).observe value)
  else (told, w.putSlot object key (.field value kept))

end ViewBinding.World
