import ViewBinding.Engine.Call

/-!
# Installing directives

Carrying out a directive makes a binding: a watcher that keeps the node current, or a listener that
acts while the binding is active. The node shows the value at once.
-/

namespace ViewBinding

variable {Code Memory : Type} [Inhabited Code]

namespace Engine

/-- Watches a path of a view model. -/
def watchOn (c : Reentry Code Memory) (owner : ViewModelId) (path : Path)
    (reaction : Reaction Code) : Engine Code Memory WatcherId := do
  let vm ← inspect (·.viewModel owner)
  watch c vm.tracker (.object vm.root) path reaction

/-- Adds a watcher of a path to a binding. -/
def watchFor (c : Reentry Code Memory) (owner : ViewModelId) (binding : BindingId) (path : Path)
    (reaction : Reaction Code) : Engine Code Memory WatcherId := do
  let watcher ← watchOn c owner path reaction
  update (·.mapBinding binding fun b => { b with watchers := b.watchers ++ [watcher] })
  return watcher

/-- A binding whose watcher shows a path on the node. -/
def installRender (c : Reentry Code Memory) (owner : ViewModelId) (node : NodeId)
    (kind : DirectiveKind) (updater : Updater) (path : Path) : Engine Code Memory BindingId := do
  let binding ← create (·.addBinding { node, kind, expression := path.text })
  keeping [.binding binding] do
    let watcher ← watchFor c owner binding path (.render updater node)
    update fun w => w.display updater node (w.watcher watcher).cached
    return binding

/-- A binding that shows a path as the form value and writes input back to it. -/
def installModel (c : Reentry Code Memory) (owner : ViewModelId) (node : NodeId)
    (directive : Directive) : Engine Code Memory BindingId := do
  let path ← ofExcept (Path.parse directive.expression)
  let binding ← installRender c owner node .model .value path
  update (·.mapNode node (·.addListener "input" (.writeBack owner binding path)))
  return binding

/-- A binding that calls a method on an event. -/
def installOn (c : Reentry Code Memory) (owner : ViewModelId) (node : NodeId)
    (directive : Directive) : Engine Code Memory BindingId := do
  let method := directive.expression
  let some event := directive.argument
    | throw (.missingArgument DirectiveKind.on.name)
  let vm ← inspect (·.viewModel owner)
  match ← get c vm.root method none with
  | .function _ _ =>
    let binding ← create (·.addBinding { node, kind := .on, expression := method })
    update (·.mapNode node (·.addListener event (.invoke owner binding method)))
    return binding
  | _ => throw (.notCallable method)

/-- Carries out a directive. -/
def install (c : Reentry Code Memory) (installer : Installer Code) (owner : ViewModelId)
    (node : NodeId) (directive : Directive) : Engine Code Memory BindingId :=
  match installer with
  | .model => installModel c owner node directive
  | .on => installOn c owner node directive
  | .render updater => do
    let path ← ofExcept (Path.parse directive.expression)
    installRender c owner node directive.kind updater path
  | .custom code => c.run (c.application.install code owner node directive)

/-- Adds a watcher to a binding for every path, each showing the whole template. -/
def watchPlaceholders (c : Reentry Code Memory) (owner : ViewModelId) (binding : BindingId)
    (reaction : Reaction Code) : List Path → Engine Code Memory Unit
  | [] => return
  | path :: rest => do
    let _ ← watchFor c owner binding path reaction
    watchPlaceholders c owner binding reaction rest

/-- A binding that keeps a text node showing its template. -/
def installInterpolation (c : Reentry Code Memory) (owner : ViewModelId) (node : NodeId)
    (text : String) : Engine Code Memory BindingId := do
  let vm ← inspect (·.viewModel owner)
  let root := .object vm.root
  let template ← ofExcept (Template.parse text vm.settings.delimiters)
  let binding ← create (·.addBinding { node, kind := .text, expression := template.source })
  keeping [.binding binding] do
    watchPlaceholders c owner binding (.interpolate template root vm.tracker node) template.paths
    framed (some vm.tracker) none do
      let shown ← renderTemplate c template root (some vm.tracker)
      update (·.setText node shown)
    return binding

end Engine

end ViewBinding
