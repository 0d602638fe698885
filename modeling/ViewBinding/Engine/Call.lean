import ViewBinding.Engine.Watch

/-!
# Methods and events

A method is called with a view model as receiver. An event runs the listeners that a node has for it
when the event is dispatched, all of them even if some fail.
-/

namespace ViewBinding

variable {Code Memory : Type} [Inhabited Code]

namespace Engine

/-- Runs `x` on a view model, which has to be alive and is kept so meanwhile. -/
def onLiving (c : Reentry Code Memory) (owner : ViewModelId) {α : Type}
    (x : Engine Code Memory α) : Engine Code Memory α := do
  if ← inspect fun w => w.alive (c.application.holds w.memory) (.viewModel owner) then
    keeping [.viewModel owner] x
  else throw .detached

/-- Reads a path of a view model. -/
def readOn (c : Reentry Code Memory) (owner : ViewModelId) (path : Path) :
    Engine Code Memory Value := do
  let vm ← inspect (·.viewModel owner)
  readPath c (.object vm.root) path (some vm.tracker)

/-- Writes a path of a view model. -/
def writeOn (c : Reentry Code Memory) (owner : ViewModelId) (path : Path) (value : Value) :
    Engine Code Memory Unit := do
  let vm ← inspect (·.viewModel owner)
  writePath c (.object vm.root) path value (some vm.tracker)

/-- Calls a method of a view model. Looking it up registers nobody. -/
def callMethod (c : Reentry Code Memory) (owner : ViewModelId) (method : String)
    (event : Event) : Engine Code Memory Unit := do
  note c (.calling owner method event)
  let vm ← inspect (·.viewModel owner)
  match ← get c vm.root method none with
  | .function id _ =>
    let code ← inspect fun w => (w.function id).code
    c.run (c.application.method code owner event)
  | _ => throw (.notCallable method)

/-- Writes the form value of the target of an event to a path of a view model. -/
def writeBack (c : Reentry Code Memory) (owner : ViewModelId) (path : Path) (event : Event) :
    Engine Code Memory Unit := do
  let value ← inspect fun w => (w.node event.target).value
  note c (.writing owner path value)
  writeOn c owner path value

/-- What a listener does about an event. -/
def handle (c : Reentry Code Memory) (event : Event) :
    Listener Code → Engine Code Memory Unit
  | .run code => c.run (c.application.listener code event)
  | .writeBack owner binding path => do
    if ← inspect fun w => (w.binding binding).active then
      onLiving c owner (writeBack c owner path event)
  | .invoke owner binding method => do
    if ← inspect fun w => (w.binding binding).active then
      onLiving c owner (callMethod c owner method event)

/-- Runs the listeners of a node for an event, in the order in which they were added. -/
def dispatch (c : Reentry Code Memory) (node : NodeId) (event : String) :
    Engine Code Memory Unit := keeping [.node node] do
  let listeners ← inspect fun w => (w.node node).listeners event
  collect .notify (← failures (fun _ => none) (handle c ⟨event, node⟩) listeners)

/-- Sets the form value of a node, as typing does, and dispatches `input`. -/
def input (c : Reentry Code Memory) (node : NodeId) (value : Value) :
    Engine Code Memory Unit := do
  update (·.display .value node value)
  dispatch c node "input"

end Engine

end ViewBinding
