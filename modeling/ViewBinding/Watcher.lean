import ViewBinding.Subscription
import ViewBinding.Template
import ViewBinding.Value

/-!
# Subscribers

A watcher evaluates one path and reacts when the value differs from the one it knows. A computed
property runs a getter and, if it is memoized, keeps the value until something it read changes. A
probe runs a program of the embedder. `Code` stands for the programs that the embedder brings.
-/

namespace ViewBinding

/-- The property of a node that shows a value. -/
inductive Updater where
  | value
  | html
  | text
  deriving DecidableEq, Repr, Inhabited

/-- What a watcher does with a new value. -/
inductive Reaction (Code : Type) where
  /-- Shows the value on a node. -/
  | render (updater : Updater) (node : NodeId)
  /-- Shows a whole template on a node. -/
  | interpolate (template : Template) (root : Value) (tracker : TrackerId) (node : NodeId)
  | run (code : Code)

instance {Code : Type} : Inhabited (Reaction Code) := ⟨.render .text default⟩

structure Watcher (Code : Type) where
  tracker : TrackerId
  root : Value
  path : Path
  /-- The value that the watcher knows. -/
  cached : Value := .undefined
  reaction : Reaction Code
  dependencies : Dependencies := {}
  disposed : Bool := false
  /-- How often the watcher has reacted. -/
  fires : Nat := 0

instance {Code : Type} : Inhabited (Watcher Code) :=
  ⟨⟨default, .undefined, default, .undefined, default, {}, false, 0⟩⟩

/-- Where the value of a computed property comes from. -/
inductive Getter (Code : Type) where
  /-- A program that runs on a view model, for as long as that lives. -/
  | ofViewModel (owner : ViewModelId) (code : Code)
  | free (code : Code)

instance {Code : Type} [Inhabited Code] : Inhabited (Getter Code) := ⟨.free default⟩

structure Computed (Code : Type) where
  name : String
  /-- The tracker that the getter reads on. -/
  tracker : TrackerId
  memoize : Bool
  getter : Getter Code
  /-- The source that readers register with. -/
  source : SourceId
  /-- The value that is kept; none while it has to be computed. -/
  cache : Option Value := none
  dependencies : Dependencies := {}
  /-- How often the getter has been run. -/
  evaluations : Nat := 0
  deriving Inhabited

/-- Whether the value has to be computed at the next reading. -/
def Computed.isDirty {Code : Type} (x : Computed Code) : Bool :=
  x.cache.isNone

structure Probe (Code : Type) where
  code : Code
  deriving Inhabited

/-- A function value: a program of the embedder. -/
structure Function (Code : Type) where
  name : String
  code : Code
  deriving Inhabited

end ViewBinding
