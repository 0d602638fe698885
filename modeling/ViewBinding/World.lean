import ViewBinding.Node
import ViewBinding.Property
import ViewBinding.ViewModel

/-!
# The world of an engine

All that is shared and changes: a table for each kind of thing, and the memory of the embedding
program. `held` lists what operations that are under way keep alive.
-/

namespace ViewBinding

/-- A thing that other things can keep alive. -/
inductive Ref where
  | object (id : ObjectId)
  | array (id : ArrayId)
  | computed (id : ComputedId)
  | watcher (id : WatcherId)
  | probe (id : ProbeId)
  | node (id : NodeId)
  | binding (id : BindingId)
  | viewModel (id : ViewModelId)
  deriving DecidableEq, Repr

def Subscriber.ref : Subscriber → Ref
  | .watcher id => .watcher id
  | .computed id => .computed id
  | .probe id => .probe id

structure World (Code Memory : Type) where
  objects : Table ObjectId Object := {}
  functions : Table FunctionId (Function Code) := {}
  /-- The items of every array, which the values of the array carry too. -/
  arrays : Table ArrayId (List Value) := {}
  sources : Table SourceId Source := {}
  trackers : Table TrackerId Tracker := {}
  watchers : Table WatcherId (Watcher Code) := {}
  computeds : Table ComputedId (Computed Code) := {}
  probes : Table ProbeId (Probe Code) := {}
  nodes : Table NodeId (Node Code) := {}
  bindings : Table BindingId Binding := {}
  viewModels : Table ViewModelId (ViewModel Code) := {}
  /-- What operations under way keep alive. -/
  held : List Ref := []
  memory : Memory

namespace World

variable {Code Memory : Type} [Inhabited Code]

def object (w : World Code Memory) (id : ObjectId) : Object := w.objects.get id

/-- The items of an array. -/
def array (w : World Code Memory) (id : ArrayId) : List Value := w.arrays.get id

def function (w : World Code Memory) (id : FunctionId) : Function Code := w.functions.get id

def source (w : World Code Memory) (id : SourceId) : Source := w.sources.get id

def tracker (w : World Code Memory) (id : TrackerId) : Tracker := w.trackers.get id

def watcher (w : World Code Memory) (id : WatcherId) : Watcher Code := w.watchers.get id

def computed (w : World Code Memory) (id : ComputedId) : Computed Code := w.computeds.get id

def probe (w : World Code Memory) (id : ProbeId) : Probe Code := w.probes.get id

def node (w : World Code Memory) (id : NodeId) : Node Code := w.nodes.get id

def binding (w : World Code Memory) (id : BindingId) : Binding := w.bindings.get id

def viewModel (w : World Code Memory) (id : ViewModelId) : ViewModel Code := w.viewModels.get id

def mapObject (w : World Code Memory) (id : ObjectId) (f : Object → Object) : World Code Memory :=
  { w with objects := w.objects.modify id f }

def mapSource (w : World Code Memory) (id : SourceId) (f : Source → Source) : World Code Memory :=
  { w with sources := w.sources.modify id f }

def mapTracker (w : World Code Memory) (id : TrackerId) (f : Tracker → Tracker) :
    World Code Memory :=
  { w with trackers := w.trackers.modify id f }

def mapWatcher (w : World Code Memory) (id : WatcherId) (f : Watcher Code → Watcher Code) :
    World Code Memory :=
  { w with watchers := w.watchers.modify id f }

def mapComputed (w : World Code Memory) (id : ComputedId) (f : Computed Code → Computed Code) :
    World Code Memory :=
  { w with computeds := w.computeds.modify id f }

def mapNode (w : World Code Memory) (id : NodeId) (f : Node Code → Node Code) : World Code Memory :=
  { w with nodes := w.nodes.modify id f }

def mapBinding (w : World Code Memory) (id : BindingId) (f : Binding → Binding) :
    World Code Memory :=
  { w with bindings := w.bindings.modify id f }

def mapViewModel (w : World Code Memory) (id : ViewModelId)
    (f : ViewModel Code → ViewModel Code) : World Code Memory :=
  { w with viewModels := w.viewModels.modify id f }

/-- A new object without properties. -/
def addObject (w : World Code Memory) : ObjectId × World Code Memory :=
  (w.objects.fresh, { w with objects := w.objects.add {} })

def addFunction (w : World Code Memory) (f : Function Code) : FunctionId × World Code Memory :=
  (w.functions.fresh, { w with functions := w.functions.add f })

/-- An array with an identity of its own. -/
def addArray (w : World Code Memory) (items : List Value) : Value × World Code Memory :=
  (.array w.arrays.fresh items, { w with arrays := w.arrays.add items })

/-- A new source without subscribers. -/
def addSource (w : World Code Memory) : SourceId × World Code Memory :=
  (w.sources.fresh, { w with sources := w.sources.add {} })

/-- A new tracker on which nobody evaluates. -/
def addTracker (w : World Code Memory) : TrackerId × World Code Memory :=
  (w.trackers.fresh, { w with trackers := w.trackers.add {} })

def addWatcher (w : World Code Memory) (x : Watcher Code) : WatcherId × World Code Memory :=
  (w.watchers.fresh, { w with watchers := w.watchers.add x })

def addComputed (w : World Code Memory) (x : Computed Code) : ComputedId × World Code Memory :=
  (w.computeds.fresh, { w with computeds := w.computeds.add x })

def addProbe (w : World Code Memory) (x : Probe Code) : ProbeId × World Code Memory :=
  (w.probes.fresh, { w with probes := w.probes.add x })

def addNode (w : World Code Memory) (x : Node Code) : NodeId × World Code Memory :=
  (w.nodes.fresh, { w with nodes := w.nodes.add x })

def addBinding (w : World Code Memory) (x : Binding) : BindingId × World Code Memory :=
  (w.bindings.fresh, { w with bindings := w.bindings.add x })

def addViewModel (w : World Code Memory) (x : ViewModel Code) :
    ViewModelId × World Code Memory :=
  (w.viewModels.fresh, { w with viewModels := w.viewModels.add x })

end World

end ViewBinding
