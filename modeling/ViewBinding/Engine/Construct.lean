import ViewBinding.Engine.Compile

/-!
# View models

Making a view model observes the data in place, gives it the computed properties, and makes a root
object that names the methods, every data key, and the data itself. Mounting binds the tree below a
node; unmounting takes the bindings of a tree away again.
-/

namespace ViewBinding

variable {Code Memory : Type} [Inhabited Code]

/-- The first of some names that satisfies a condition, as a fault. -/
def Options.checkNames (names : List String) (taken : String → Bool)
    (fault : String → OptionsFault) : Except Error Unit :=
  match names.find? taken with
  | some name => .error (.invalidOptions (fault name))
  | none => .ok ()

namespace World

/-- The data object of options whose settings and names are in order. -/
def checkOptions (w : World Code Memory) (options : Options Code) : Except Error ObjectId := do
  options.settings.validate
  match options.data with
  | .object data =>
    let inData (name : String) := (w.object data).slots.contains name
    Options.checkNames (options.methods.keys ++ options.computed.keys) inData .dataKeyTaken
    Options.checkNames options.methods.keys options.computed.contains .methodAndComputed
    return data
  | other => throw (.invalidOptions (.dataNotAnObject other.typeName))

/-- Defines computed properties on the data of a view model. -/
def defineComputed (owner : ViewModelId) (data : ObjectId) (tracker : TrackerId)
    (memoize : Bool) (w : World Code Memory) : List (String × Code) → World Code Memory
  | [] => w
  | (name, code) :: rest =>
    let (source, w) := w.addSource
    let (id, w) := w.addComputed
      { name, tracker, memoize, getter := .ofViewModel owner code, source }
    defineComputed owner data tracker memoize (w.putSlot data name (.computed id)) rest

/-- Defines methods on the root object of a view model. -/
def defineMethods (root : ObjectId) (w : World Code Memory) :
    List (String × Code) → World Code Memory
  | [] => w
  | (name, code) :: rest =>
    let (id, w) := w.addFunction { name, code }
    defineMethods root (w.putSlot root name (.constant (.function id name))) rest

/-- Makes a view model that is not mounted yet. -/
def assemble (w : World Code Memory) (options : Options Code) (data : ObjectId) :
    ViewModelId × World Code Memory :=
  let w := w.observe (.object data)
  let (tracker, w) := w.addTracker
  let (root, w) := w.addObject
  let registry := options.directives.foldl (fun r (kind, installer) => r.put kind installer)
    Registry.standard
  let (owner, w) := w.addViewModel
    { settings := options.settings, tracker, data, root, registry, document := options.document }
  let w := defineComputed owner data tracker options.settings.memoize w options.computed.toList
  let w := defineMethods root w options.methods.toList
  let w := (w.object data).keys.foldl (fun w key => w.putSlot root key (.proxy data key)) w
  (owner, w.putSlot root "$data" (.constant (.object data)))

/-- The nodes of a tree as unmounting goes through it, the last children first. -/
def unmountOrder (w : World Code Memory) (node : NodeId) : List NodeId :=
  explore (fun id => (w.node id).children.reverse) w.nodes.keys [node]

/-- Takes the bindings of a tree from a view model and tears them down. Answers how many. -/
def unmount (w : World Code Memory) (owner : ViewModelId) (node : NodeId) :
    Nat × World Code Memory :=
  let nodes := w.unmountOrder node
  let removed := nodes.flatMap (w.bindingsOf owner)
  let w := w.mapViewModel owner fun vm => { vm with bindings := nodes.foldl Entries.erase vm.bindings }
  (removed.length, removed.foldl teardownBinding w)

end World

namespace Engine

/-- Mounts a view model on the node that a target means. -/
def mount (c : Reentry Code Memory) (owner : ViewModelId) (target : Target) :
    Engine Code Memory Nat := keeping [.viewModel owner] do
  let vm ← inspect (·.viewModel owner)
  let node ← ofExcept (← inspect (·.locate vm.document target))
  update (·.mapViewModel owner fun vm => { vm with mounted := some node })
  compileDetached c owner node

/-- Makes a view model and mounts it if a target is given. -/
def construct (c : Reentry Code Memory) (options : Options Code) :
    Engine Code Memory ViewModelId := keeping (options.data.refs) do
  let data ← ofExcept (← inspect (·.checkOptions options))
  let owner ← create (·.assemble options data)
  if let some target := options.target then
    let _ ← mount c owner target
  return owner

/-- Renders a text as a template on the data of a view model, for nobody. -/
def renderOn (c : Reentry Code Memory) (owner : ViewModelId) (text : String) :
    Engine Code Memory String := do
  let vm ← inspect (·.viewModel owner)
  let template ← ofExcept (Template.parse text vm.settings.delimiters)
  framed (some vm.tracker) none (renderTemplate c template (.object vm.root) (some vm.tracker))

end Engine

end ViewBinding
