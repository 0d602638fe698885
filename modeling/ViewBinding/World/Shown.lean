import ViewBinding.Text.Quoted
import ViewBinding.World.Ownership
import ViewBinding.World.Tree

/-!
# Things as they are shown to people

Every kind of thing has a text that names it and its main properties. Identities appear by number.
-/

namespace ViewBinding

/-- A list between brackets. -/
def shownList (items : List String) : String :=
  "[" ++ ", ".intercalate items ++ "]"

/-- A name followed by named fields. -/
def shownRecord (name : String) (fields : List (String × String)) : String :=
  let shown := ", ".intercalate (fields.map fun (field, value) => s!"{field}: {value}")
  s!"{name} \x7b {shown} \x7d"

def shownBool (b : Bool) : String :=
  if b then "true" else "false"

def shownOption : Option String → String
  | none => "None"
  | some text => s!"Some({text})"

def shownStrings (texts : List String) : String :=
  shownList (texts.map Text.Quoted.shown)

def NodeName.shown (n : NodeName) : String :=
  s!"<{n.name} #{n.node.index}>"

def DirectiveKind.shown : DirectiveKind → String
  | .model => "Model"
  | .on => "On"
  | .html => "Html"
  | .text => "Text"

def Registry.shown {Code : Type} (r : Registry Code) : String :=
  shownList (r.keys.map DirectiveKind.shown)

def Subscriber.shownId : Subscriber → String
  | .watcher id => s!"SubscriberId({id.index})"
  | .computed id => s!"SubscriberId({id.index})"
  | .probe id => s!"SubscriberId({id.index})"

def Event.shown (e : Event) : String :=
  shownRecord "Event"
    [("name", Text.Quoted.shown e.name), ("target", s!"NodeId({e.target.index})")]

namespace World

variable {Code Memory : Type} [Inhabited Code]

def shownObject (w : World Code Memory) (id : ObjectId) : String :=
  let o := w.object id
  shownRecord "Object"
    [("id", s!"ObjectId({id.index})"), ("keys", shownStrings o.keys),
     ("observed", shownBool o.observed)]

mutual

def shown (w : World Code Memory) : Value → String
  | .undefined => "Undefined"
  | .null => "Null"
  | .bool b => s!"Bool({shownBool b})"
  | .number x => s!"Number({Value.shownNumber x})"
  | .string s => s!"String({Text.Quoted.shown s})"
  | .object id => w.shownObject id
  | .array _ items => shownList (w.shownAll items)
  | .function _ name => s!"Function({name})"

def shownAll (w : World Code Memory) : List Value → List String
  | [] => []
  | item :: rest => w.shown item :: w.shownAll rest

end

def shownNode (w : World Code Memory) (id : NodeId) : String :=
  (w.nodeName id).shown

def shownTarget (w : World Code Memory) : Target → String
  | .node id => s!"Target::Node({w.shownNode id})"
  | .selector text => s!"Target::Selector({Text.Quoted.shown text})"

def shownSource (w : World Code Memory) (embedder : List Ref) (id : SourceId) : String :=
  shownRecord "ChangeSource"
    [("id", s!"SourceId({id.index})"),
     ("subscriber_count", toString (w.subscriberCount embedder id))]

def shownWatcher (w : World Code Memory) (id : WatcherId) : String :=
  let x := w.watcher id
  shownRecord "Watcher"
    [("id", (Subscriber.watcher id).shownId), ("expression", Text.Quoted.shown x.path.text),
     ("fire_count", toString x.fires),
     ("dependency_count", toString x.dependencies.current.length),
     ("disposed", shownBool x.disposed)]

def shownComputed (w : World Code Memory) (id : ComputedId) : String :=
  let x := w.computed id
  shownRecord "Computed"
    [("name", Text.Quoted.shown x.name), ("memoize", shownBool x.memoize),
     ("dirty", shownBool x.isDirty), ("evaluations", toString x.evaluations)]

def shownTracker (w : World Code Memory) (id : TrackerId) : String :=
  let t := w.tracker id
  shownRecord "Tracker"
    [("depth", toString t.frames.length),
     ("current", shownOption (t.current?.map Subscriber.shownId))]

def shownViewModel (w : World Code Memory) (id : ViewModelId) : String :=
  let vm := w.viewModel id
  shownRecord "ViewModel"
    [("keys", shownStrings (w.object vm.root).keys),
     ("el", shownOption (vm.mounted.map w.shownNode)),
     ("bindings", toString vm.bindingCount)]

end World

end ViewBinding
