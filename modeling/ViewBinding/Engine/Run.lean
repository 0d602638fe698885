import ViewBinding.Engine.Construct

/-!
# Running programs

`fulfil` says what each request does, `run` follows a program from request to request. Notifications
and programs run inside each other; `reentry` ties them together, one level of depth for each time
the engine is entered again.
-/

namespace ViewBinding

variable {Code Memory : Type} [Inhabited Code]

namespace Engine

/-- Parses an expression and goes on with the path. -/
def withPath {α : Type} (expression : String) (x : Path → Engine Code Memory α) :
    Engine Code Memory α := do
  x (← ofExcept (Path.parse expression))

/-- Carries out a request. -/
def fulfil (c : Reentry Code Memory) :
    (request : Request Code Memory) → Engine Code Memory request.Answer
  | .newObject => create (·.addObject)
  | .newArray items => create (·.addArray items)
  | .newFunction name code =>
    create fun w => let (id, w) := w.addFunction { name, code }; (.function id name, w)
  | .load json => create (·.load json)
  | .place object key value => place c object key value
  | .insert object key value => insert c object key value
  | .set object key value => set c object key value
  | .get object key reader => get c object key reader
  | .observe value => update (·.observe value)
  | .readPath root path reader => keeping root.refs (readPath c root path reader)
  | .writePath root path value reader => keeping root.refs (writePath c root path value reader)
  | .renderTemplate template root reader =>
    keeping root.refs (renderTemplate c template root reader)
  | .newTracker => create (·.addTracker)
  | .enter tracker frame => update (·.mapTracker tracker (·.push frame))
  | .leave tracker => update (·.mapTracker tracker (·.pop))
  | .depend tracker source => depend c (some tracker) source
  | .newSource => create (·.addSource)
  | .register source subscriber => update (·.mapSource source (·.register subscriber))
  | .unregister source subscriber => update (·.mapSource source (·.unregister subscriber))
  | .notify source => c.notify source
  | .newProbe code => create (·.addProbe ⟨code⟩)
  | .watch tracker root path code => watch c tracker root path (.run code)
  | .watchOn owner path code => keeping [.viewModel owner] (watchOn c owner path (.run code))
  | .updateWatcher id => updateWatcher c id
  | .teardownWatcher id => update (·.teardownWatcher id)
  | .newComputed name tracker memoize code =>
    create fun w =>
      let (source, w) := w.addSource
      w.addComputed { name, tracker, memoize, getter := .free code, source }
  | .readComputed id reader => readComputed c id reader
  | .newElement tag attributes children =>
    create (·.addNode (.element { tag, attributes := .ofList attributes, children }))
  | .newText content => create (·.addNode (.text content))
  | .display updater node value => update (·.display updater node value)
  | .takeChildren node =>
    create fun w => ((w.node node).children, w.mapNode node (·.setChildren []))
  | .appendChildren node children => update (·.appendChildren node children)
  | .listen node event code => update (·.mapNode node (·.addListener event (.run code)))
  | .dispatch node event => dispatch c node event
  | .input node value => keeping [.node node] (input c node value)
  | .newViewModel options => construct c options
  | .read owner expression => keeping [.viewModel owner] (withPath expression (readOn c owner))
  | .write owner expression value =>
    keeping [.viewModel owner] (withPath expression fun path => writeOn c owner path value)
  | .call owner method event =>
    keeping [.viewModel owner, .node event.target] (callMethod c owner method event)
  | .render owner text => keeping [.viewModel owner] (renderOn c owner text)
  | .mount owner target => mount c owner target
  | .compile owner node => compile c owner node
  | .unmount owner node => create (·.unmount owner node)
  | .install installer owner node directive =>
    keeping [.viewModel owner, .node node] (install c installer owner node directive)
  | .newBinding node kind expression => create (·.addBinding { node, kind, expression })
  | .teardownBinding id => update (·.teardownBinding id)
  | .hold refs => update fun w => { w with held := refs ++ w.held }
  | .release refs => update fun w => { w with held := refs.foldl List.erase w.held }
  | .remember f => update fun w => { w with memory := f w.memory }

/-- Follows a program. -/
def follow {α : Type} (c : Reentry Code Memory) :
    Program Code Memory α → Engine Code Memory α
  | .done result => return result
  | .fail error => throw error
  | .look next => fun w => follow c (next w) w
  | .ask request next => do
    follow c (next (← attempt (fulfil c request)))

/-- The engine as its own steps enter it again, down to a depth. -/
def reentry (application : Application Code Memory) : Nat → Reentry Code Memory
  | 0 => { application, depth := 0, notify := fun _ => exhausted, run := fun _ => exhausted }
  | depth + 1 =>
    { application, depth := depth + 1,
      notify := fun source => notify (reentry application depth) source,
      run := fun program => follow (reentry application depth) program }

/-- Runs a program of the embedder. Inside it, programs and notifications nest down to a depth. -/
def run {α : Type} (application : Application Code Memory) (depth : Nat)
    (program : Program Code Memory α) : Engine Code Memory α :=
  follow (reentry application depth) program

end Engine

end ViewBinding
