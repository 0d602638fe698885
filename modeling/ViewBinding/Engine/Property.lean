import ViewBinding.Engine.Tracking
import ViewBinding.World.Property

/-!
# Reading and writing properties

Reading a property registers the reader with the source of the field, of the computed property, or
of the key it waits for. Writing a different value to an observed field tells the subscribers of its
source; a key that comes into being takes over the source that readers of the absent key wait on.
-/

namespace ViewBinding

variable {Code Memory : Type} [Inhabited Code]

namespace Engine

/-- Runs the getter of a computed property, on its view model if it has one, which has to be alive. -/
def runGetter (c : Reentry Code Memory) (id : ComputedId) : Engine Code Memory Value := do
  update (·.mapComputed id fun x => { x with evaluations := x.evaluations + 1 })
  note c (.computing id)
  match ← inspect fun w => (w.computed id).getter with
  | .free code => c.run (c.application.getter code none)
  | .ofViewModel owner code =>
    if ← inspect fun w => w.alive (c.application.holds w.memory) (.viewModel owner) then
      keeping [.viewModel owner] (c.run (c.application.getter code (some owner)))
    else throw .detached

/-- The value of a memoized property, computed if it is not known. -/
def memoizedValue (c : Reentry Code Memory) (id : ComputedId) : Engine Code Memory Value := do
  let x ← inspect (·.computed id)
  match x.cache with
  | some value => return value
  | none =>
    let value ← evaluate c x.tracker (.computed id) (runGetter c id)
    update (·.mapComputed id fun x => { x with cache := some value })
    return value

/-- The value of a computed property. Without memoization the getter reads for the reader. -/
def readComputed (c : Reentry Code Memory) (id : ComputedId) (reader : Option TrackerId) :
    Engine Code Memory Value := keeping [.computed id] do
  let x ← inspect (·.computed id)
  if x.memoize then
    depend c reader x.source
    memoizedValue c id
  else runGetter c id

/-- The value of what a key of an object stands for. -/
def readSlot (c : Reentry Code Memory) (holder : ObjectId) (name : String)
    (reader : Option TrackerId) : Option Slot → Engine Code Memory Value
  | some (.field value source) => do
    if let some source := source then depend c reader source
    return value
  | some (.constant value) => return value
  | some (.computed id) => readComputed c id reader
  | some (.proxy _ _) => return .undefined
  | none => do
    if ← inspect fun w => (w.object holder).observed && (w.current? reader).isSome then
      let source ← create (·.await holder name)
      depend c reader source
    return .undefined

/-- Reads a property for whoever is evaluating on the reader. -/
def get (c : Reentry Code Memory) (object : ObjectId) (key : String)
    (reader : Option TrackerId) : Engine Code Memory Value := do
  let (holder, name) ← inspect (·.resolve object key)
  keeping [.object object, .object holder] do
    readSlot c holder name reader (← inspect fun w => (w.object holder).slot? name)

/-- Notifies a source, if there is one. -/
def tell (c : Reentry Code Memory) (source : Option SourceId) : Engine Code Memory Unit :=
  match source with
  | some source => c.notify source
  | none => return

/-- Stores a field in place of whatever the key held, and tells its subscribers of a change. -/
def insert (c : Reentry Code Memory) (object : ObjectId) (key : String) (value : Value) :
    Engine Code Memory Unit := keeping [.object object] do
  let source ← create (·.store object key value)
  tell c source

/-- Stores a field and passes over what its subscribers report. -/
def place (c : Reentry Code Memory) (object : ObjectId) (key : String) (value : Value) :
    Engine Code Memory Unit := do
  let _ ← attempt (insert c object key value)

/-- Writes what a key of an object stands for. The object and a value that replaces another live until the subscribers
are told. -/
def writeSlot (c : Reentry Code Memory) (holder : ObjectId) (name : String) (value : Value) :
    Option Slot → Engine Code Memory Unit
  | some (.field old source) => do
    if old.same value then return
    update (·.putSlot holder name (.field value source))
    match source with
    | none => return
    | some source =>
      update (·.observe value)
      keeping (.object holder :: value.refs) (c.notify source)
  | some _ => throw (.readOnly name)
  | none => insert c holder name value

/-- Writes a property. A value that is the same changes nothing; getters cannot be written. An object lives while what
its key stands for on another object is written. -/
def set (c : Reentry Code Memory) (object : ObjectId) (key : String) (value : Value) :
    Engine Code Memory Unit := do
  let (holder, name) ← inspect (·.resolve object key)
  keeping (if holder = object then [] else [.object object]) do
    writeSlot c holder name value (← inspect fun w => (w.object holder).slot? name)

end Engine

end ViewBinding
