import ViewBinding.Engine.Install

/-!
# Compiling a tree

A tree is walked depth first. Every element gets a binding for each of its directives or, if one of
them fails, none at all, and then what is below it is passed over. Every text node that holds the
opening delimiter gets a binding for its template. A node that is bound is left as it is. Failures
are gathered and do not stop the walk.
-/

namespace ViewBinding

variable {Code Memory : Type} [Inhabited Code]

/-- What a walk has done so far. -/
structure Tally where
  installed : Nat := 0
  errors : List Error := []
  deriving Repr, Inhabited

namespace Tally

def add (a b : Tally) : Tally :=
  ⟨a.installed + b.installed, a.errors ++ b.errors⟩

/-- The number of bindings made, or all failures. -/
def result (t : Tally) : Except Error Nat :=
  if t.errors.isEmpty then .ok t.installed else .error (.compile t.errors)

end Tally

namespace World

def isBound (w : World Code Memory) (owner : ViewModelId) (node : NodeId) : Bool :=
  (w.viewModel owner).bindings.contains node

def bindingsOf (w : World Code Memory) (owner : ViewModelId) (node : NodeId) : List BindingId :=
  ((w.viewModel owner).bindings.find? node).getD []

/-- Adds bindings to those that a view model has for a node. -/
def record (w : World Code Memory) (owner : ViewModelId) (node : NodeId)
    (bindings : List BindingId) : World Code Memory :=
  if bindings.isEmpty then w
  else w.mapViewModel owner fun vm =>
    { vm with bindings := vm.bindings.put node ((vm.bindings.find? node).getD [] ++ bindings) }

/-- A failure of a binding of a node. -/
def bindingError (w : World Code Memory) (node : NodeId) (expression : String) (error : Error) :
    Error :=
  .binding (w.nodeName node) expression error

end World

namespace Engine

/-- Carries out an attribute if it is a directive. -/
def installAttribute (c : Reentry Code Memory) (owner : ViewModelId) (node : NodeId)
    (name value : String) : Engine Code Memory (Option BindingId) := do
  let vm ← inspect (·.viewModel owner)
  match ← ofExcept (Directive.parse name value vm.settings.mark) with
  | none => return none
  | some directive =>
    match vm.registry.find? directive.kind with
    | none => throw (.unknownDirective directive.kind.name)
    | some installer => return some (← install c installer owner node directive)

/-- Carries out attributes in order. Answers the bindings made and the failures. -/
def installAttributes (c : Reentry Code Memory) (owner : ViewModelId) (node : NodeId) :
    List (String × String) → Engine Code Memory (List BindingId × List Error)
  | [] => return ([], [])
  | (name, value) :: rest => do
    match ← attempt (installAttribute c owner node name value) with
    | .ok none => installAttributes c owner node rest
    | .ok (some binding) =>
      let (bindings, errors) ← keeping [.binding binding] (installAttributes c owner node rest)
      return (binding :: bindings, errors)
    | .error error =>
      let error ← inspect (·.bindingError node value error)
      let (bindings, errors) ← installAttributes c owner node rest
      return (bindings, error :: errors)

/-- Binds an element. Answers what was done and whether to go on below it. -/
def compileElement (c : Reentry Code Memory) (owner : ViewModelId) (node : NodeId) :
    Engine Code Memory (Tally × Bool) := do
  if ← inspect (·.isBound owner node) then return ({}, true)
  let attributes ← inspect fun w => (w.node node).attributes
  let (bindings, errors) ← installAttributes c owner node attributes
  if errors.isEmpty then
    update (·.record owner node bindings)
    return (⟨bindings.length, []⟩, true)
  else
    update fun w => bindings.foldl World.teardownBinding w
    return (⟨0, errors⟩, false)

/-- Binds a text node that holds the opening delimiter. -/
def compileText (c : Reentry Code Memory) (owner : ViewModelId) (node : NodeId) :
    Engine Code Memory Tally := do
  if ← inspect (·.isBound owner node) then return {}
  let text ← inspect (·.textContent node)
  let vm ← inspect (·.viewModel owner)
  if !Template.mentions text vm.settings.delimiters then return {}
  match ← attempt (installInterpolation c owner node text) with
  | .ok binding =>
    update (·.record owner node [binding])
    return ⟨1, []⟩
  | .error error => return ⟨0, [← inspect (·.bindingError node text error)]⟩

/-- Runs a step for every member of a list and adds up what was done. -/
def tallyAll (step : NodeId → Engine Code Memory Tally) :
    List NodeId → Engine Code Memory Tally
  | [] => return {}
  | node :: rest => do
    let first ← step node
    let others ← tallyAll step rest
    return first.add others

/-- Binds nodes and what is below them, down to a depth. -/
def compileNodes (c : Reentry Code Memory) (owner : ViewModelId) :
    Nat → List NodeId → Engine Code Memory Tally
  | 0, _ => exhausted
  | depth + 1, nodes => keeping (nodes.map .node) (tallyAll (fun node => do
      if ← inspect fun w => (w.node node).isElement then
        let (here, descend) ← compileElement c owner node
        if descend then
          let children ← inspect fun w => (w.node node).children
          let below ← compileNodes c owner depth children
          return here.add below
        else return here
      else compileText c owner node) nodes)

/-- Binds what is below a node where it stands. -/
def compile (c : Reentry Code Memory) (owner : ViewModelId) (node : NodeId) :
    Engine Code Memory Nat := keeping [.viewModel owner, .node node] do
  let children ← inspect fun w => (w.node node).children
  let tally ← compileNodes c owner c.depth children
  ofExcept tally.result

/-- Binds what is below a node while it is taken out, and puts it back. -/
def compileDetached (c : Reentry Code Memory) (owner : ViewModelId) (node : NodeId) :
    Engine Code Memory Nat := keeping [.viewModel owner, .node node] do
  let children ← inspect fun w => (w.node node).children
  update (·.mapNode node (·.setChildren []))
  let tally ← compileNodes c owner c.depth children
  update (·.appendChildren node children)
  ofExcept tally.result

end Engine

end ViewBinding
