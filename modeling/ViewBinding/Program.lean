import ViewBinding.World.Document

/-!
# Programs of the embedder

Callbacks, getters, methods, listeners, probes and installers are programs that the embedding
program brings. A program looks at the world, makes requests of the engine and goes on with the
answers; it changes the world in no other way. The world stores only the embedder's codes, and an
`Application` says which program each code stands for.
-/

namespace ViewBinding

/-- What a program can ask of the engine. A reader is a tracker, or nobody. -/
inductive Request (Code Memory : Type) where
  | newObject
  | newArray (items : List Value)
  | newFunction (name : String) (code : Code)
  /-- Makes the value of a JSON document. -/
  | load (json : Json)
  /-- Stores a field and passes over what its subscribers report. -/
  | place (object : ObjectId) (key : String) (value : Value)
  /-- Stores a field in place of whatever is there. -/
  | insert (object : ObjectId) (key : String) (value : Value)
  /-- Writes a property. -/
  | set (object : ObjectId) (key : String) (value : Value)
  | get (object : ObjectId) (key : String) (reader : Option TrackerId)
  | observe (value : Value)
  | readPath (root : Value) (path : Path) (reader : Option TrackerId)
  | writePath (root : Value) (path : Path) (value : Value) (reader : Option TrackerId)
  | renderTemplate (template : Template) (root : Value) (reader : Option TrackerId)
  | newTracker
  /-- Puts a frame on a tracker's stack. -/
  | enter (tracker : TrackerId) (frame : Frame)
  /-- Takes the newest frame from a tracker's stack. -/
  | leave (tracker : TrackerId)
  | depend (tracker : TrackerId) (source : SourceId)
  | newSource
  | register (source : SourceId) (subscriber : Subscriber)
  | unregister (source : SourceId) (subscriber : Subscriber)
  | notify (source : SourceId)
  | newProbe (code : Code)
  | watch (tracker : TrackerId) (root : Value) (path : Path) (code : Code)
  /-- Watches a path of a view model. -/
  | watchOn (owner : ViewModelId) (path : Path) (code : Code)
  | updateWatcher (id : WatcherId)
  | teardownWatcher (id : WatcherId)
  | newComputed (name : String) (tracker : TrackerId) (memoize : Bool) (code : Code)
  | readComputed (id : ComputedId) (reader : Option TrackerId)
  | newElement (tag : String) (attributes : List (String × String)) (children : List NodeId)
  | newText (content : String)
  /-- Shows a value on a node. -/
  | display (updater : Updater) (node : NodeId) (value : Value)
  | takeChildren (node : NodeId)
  | appendChildren (node : NodeId) (children : List NodeId)
  | listen (node : NodeId) (event : String) (code : Code)
  | dispatch (node : NodeId) (event : String)
  /-- Sets the form value and dispatches `input`. -/
  | input (node : NodeId) (value : Value)
  | newViewModel (options : Options Code)
  | read (owner : ViewModelId) (expression : String)
  | write (owner : ViewModelId) (expression : String) (value : Value)
  | call (owner : ViewModelId) (method : String) (event : Event)
  /-- Renders a text as a template on the data of a view model. -/
  | render (owner : ViewModelId) (text : String)
  | mount (owner : ViewModelId) (target : Target)
  | compile (owner : ViewModelId) (node : NodeId)
  | unmount (owner : ViewModelId) (node : NodeId)
  | install (installer : Installer Code) (owner : ViewModelId) (node : NodeId)
      (directive : Directive)
  /-- A binding without watchers. -/
  | newBinding (node : NodeId) (kind : DirectiveKind) (expression : String)
  | teardownBinding (id : BindingId)
  /-- Keeps things alive until they are released. -/
  | hold (refs : List Ref)
  | release (refs : List Ref)
  /-- Changes the memory of the embedder. -/
  | remember (f : Memory → Memory)

/-- The type of the answer to a request. -/
def Request.Answer {Code Memory : Type} : Request Code Memory → Type
  | newObject => ObjectId
  | newArray .. => Value
  | newFunction .. => Value
  | load .. => Value
  | get .. => Value
  | readPath .. => Value
  | renderTemplate .. => String
  | newTracker => TrackerId
  | newSource => SourceId
  | newProbe .. => ProbeId
  | watch .. => WatcherId
  | watchOn .. => WatcherId
  | newComputed .. => ComputedId
  | readComputed .. => Value
  | newElement .. => NodeId
  | newText .. => NodeId
  | takeChildren .. => List NodeId
  | newViewModel .. => ViewModelId
  | read .. => Value
  | render .. => String
  | mount .. => Nat
  | compile .. => Nat
  | unmount .. => Nat
  | install .. => BindingId
  | newBinding .. => BindingId
  | _ => Unit

inductive Program (Code Memory α : Type) where
  | done (result : α)
  | fail (error : Error)
  /-- Looks at the world. -/
  | look (next : World Code Memory → Program Code Memory α)
  /-- Makes a request and goes on with its answer, or with the error it ended in. -/
  | ask (request : Request Code Memory)
      (next : Except Error request.Answer → Program Code Memory α)

namespace Program

variable {Code Memory α β : Type}

def bind (p : Program Code Memory α) (f : α → Program Code Memory β) : Program Code Memory β :=
  match p with
  | done result => f result
  | fail error => fail error
  | look next => look fun w => (next w).bind f
  | ask request next => ask request fun answer => (next answer).bind f

/-- Goes on with `handle` when the program ends in an error. -/
def recover (p : Program Code Memory α) (handle : Error → Program Code Memory α) :
    Program Code Memory α :=
  match p with
  | done result => done result
  | fail error => handle error
  | look next => look fun w => (next w).recover handle
  | ask request next => ask request fun answer => (next answer).recover handle

instance : Monad (Program Code Memory) where
  pure := done
  bind := bind

instance : MonadExceptOf Error (Program Code Memory) where
  throw := fail
  tryCatch := recover

/-- A program that makes one request and ends as it does. -/
def request (r : Request Code Memory) : Program Code Memory r.Answer :=
  ask r fun
    | .ok answer => done answer
    | .error error => fail error

/-- What is seen of the world. -/
def inspect (f : World Code Memory → α) : Program Code Memory α :=
  look fun w => done (f w)

/-- A program that ends in a result or an error as told. -/
def ofExcept : Except Error α → Program Code Memory α
  | .ok result => done result
  | .error error => fail error

/-- A program that does not fail and answers how `p` ended. -/
def attempt (p : Program Code Memory α) : Program Code Memory (Except Error α) :=
  recover (.ok <$> p) fun error => done (.error error)

/-- Runs `p` and keeps things alive meanwhile. -/
def keeping (refs : List Ref) (p : Program Code Memory α) : Program Code Memory α :=
  if refs.isEmpty then p
  else do
    request (.hold refs)
    let result ← attempt p
    request (.release refs)
    ofExcept result

end Program

/-- What the engine does, as far as an embedder can take note of it. -/
inductive Occurrence where
  /-- A subscriber begins to evaluate. -/
  | evaluating (subscriber : Subscriber)
  /-- A subscriber that is evaluating has met a source. -/
  | tracked (subscriber : Subscriber) (source : SourceId)
  /-- An evaluation is over. -/
  | evaluated (subscriber : Subscriber) (succeeded : Bool)
  /-- A source begins to tell its subscribers. It has forgotten those that are gone. -/
  | telling (source : SourceId) (live : List Subscriber)
  /-- A subscriber is told that something it read has changed. -/
  | updating (subscriber : Subscriber)
  /-- A watcher begins to react to a new value. -/
  | reacting (id : WatcherId) (value : Value)
  /-- The getter of a computed property begins to run. -/
  | computing (id : ComputedId)
  /-- A method of a view model is called. -/
  | calling (owner : ViewModelId) (method : String) (event : Event)
  /-- Input is written back to a path of a view model. -/
  | writing (owner : ViewModelId) (path : Path) (value : Value)

/-- The meaning of an embedder's codes, what its memory keeps alive, and what it takes note of. -/
structure Application (Code Memory : Type) where
  holds : Memory → List Ref
  /-- The memory after an occurrence; the world is as it is then. -/
  notes : Occurrence → World Code Memory → Memory := fun _ w => w.memory
  /-- What a watcher does with a new value. -/
  callback : Code → Value → Program Code Memory Unit
  method : Code → ViewModelId → Event → Program Code Memory Unit
  listener : Code → Event → Program Code Memory Unit
  /-- The value of a computed property, on a view model if it belongs to one. -/
  getter : Code → Option ViewModelId → Program Code Memory Value
  /-- What a probe does when it is told of a change. -/
  update : Code → Program Code Memory Unit
  install : Code → ViewModelId → NodeId → Directive → Program Code Memory BindingId

end ViewBinding
