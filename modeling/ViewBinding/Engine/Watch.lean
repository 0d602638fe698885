import ViewBinding.Engine.Lookup
import ViewBinding.World.Tree

/-!
# Watchers at work

A watcher evaluates its path when it is made and whenever a source it read tells it to. It reacts
when the value is not the one it knows, and then it knows the new value, whether or not the reaction
fails. A watcher that was torn down does nothing.
-/

namespace ViewBinding

variable {Code Memory : Type} [Inhabited Code]

namespace Engine

def evaluateWatcher (c : Reentry Code Memory) (id : WatcherId) : Engine Code Memory Value := do
  let x ← inspect (·.watcher id)
  evaluate c x.tracker (.watcher id) (readPath c x.root x.path (some x.tracker))

/-- Makes a watcher that knows the value of its path. If there is none, the watcher is over at once and
no source lists it. -/
def watch (c : Reentry Code Memory) (tracker : TrackerId) (root : Value) (path : Path)
    (reaction : Reaction Code) : Engine Code Memory WatcherId := do
  let id ← create (·.addWatcher { tracker, root, path, reaction })
  keeping [.watcher id] do
    match ← attempt (evaluateWatcher c id) with
    | .ok value =>
      update (·.mapWatcher id fun x => { x with cached := value })
      return id
    | .error error =>
      update (·.teardownWatcher id)
      throw error

/-- Does what a watcher does with a new value. -/
def react (c : Reentry Code Memory) (reaction : Reaction Code) (value : Value) :
    Engine Code Memory Unit :=
  match reaction with
  | .render updater node => update (·.display updater node value)
  | .interpolate template root tracker node => do
    let text ← renderTemplate c template root (some tracker)
    update (·.setText node text)
  | .run code => c.run (c.application.callback code value)

/-- Evaluates a watcher again and lets it react to a value that it does not know. -/
def updateWatcher (c : Reentry Code Memory) (id : WatcherId) : Engine Code Memory Unit :=
  keeping [.watcher id] do
    if ← inspect fun w => (w.watcher id).disposed then return
    let value ← evaluateWatcher c id
    let x ← inspect (·.watcher id)
    if x.cached.same value then return
    update (·.mapWatcher id fun x => { x with cached := value, fires := x.fires + 1 })
    keeping value.refs do
      framed (some x.tracker) none do
        note c (.reacting id value)
        react c x.reaction value

/-- Tells a subscriber that something it read has changed. A computed property forgets its value and
passes the news on. -/
def updateSubscriber (c : Reentry Code Memory) (subscriber : Subscriber) :
    Engine Code Memory Unit := do
  note c (.updating subscriber)
  match subscriber with
  | .watcher id => updateWatcher c id
  | .computed id =>
    update (·.mapComputed id fun x => { x with cache := none })
    c.notify (← inspect fun w => (w.computed id).source)
  | .probe id => c.run (c.application.update (← inspect fun w => (w.probe id).code))

/-- Tells every living subscriber of a source, in the order of registration. -/
def notify (c : Reentry Code Memory) (source : SourceId) : Engine Code Memory Unit := do
  let live ← inspect fun w => w.liveSubscribers (c.application.holds w.memory) source
  update (·.mapSource source fun _ => ⟨live⟩)
  note c (.telling source live)
  collect .notify (← failures (fun s => some s.ref) (updateSubscriber c) live)

end Engine

end ViewBinding
