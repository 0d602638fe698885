import ViewBinding.World

/-!
# Joining and leaving sources

A subscriber is listed by sources and keeps a list of them. When an evaluation ends well, the sources
that it did not read again are left. What was torn down has left every source of its list.
-/

namespace ViewBinding.World

variable {Code Memory : Type} [Inhabited Code]

/-- The subscriber that a reader reads for. -/
def current? (w : World Code Memory) (reader : Option TrackerId) : Option Subscriber :=
  reader.bind fun t => (w.tracker t).current?

def dependencies (w : World Code Memory) : Subscriber → Dependencies
  | .watcher id => (w.watcher id).dependencies
  | .computed id => (w.computed id).dependencies
  | .probe _ => {}

/-- Changes what a subscriber notes. A probe notes nothing. -/
def mapDependencies (w : World Code Memory) (subscriber : Subscriber)
    (f : Dependencies → Dependencies) : World Code Memory :=
  match subscriber with
  | .watcher id => w.mapWatcher id fun x => { x with dependencies := f x.dependencies }
  | .computed id => w.mapComputed id fun x => { x with dependencies := f x.dependencies }
  | .probe _ => w

def unregisterAll (w : World Code Memory) (subscriber : Subscriber) (sources : List SourceId) :
    World Code Memory :=
  sources.foldl (fun w source => w.mapSource source (·.unregister subscriber)) w

/-- A successful evaluation is over. -/
def settle (w : World Code Memory) (subscriber : Subscriber) : World Code Memory :=
  let stale := (w.dependencies subscriber).stale
  (w.mapDependencies subscriber (·.settle)).unregisterAll subscriber stale

/-- Leaves every source. -/
def clear (w : World Code Memory) (subscriber : Subscriber) : World Code Memory :=
  let sources := (w.dependencies subscriber).current
  (w.mapDependencies subscriber fun _ => {}).unregisterAll subscriber sources

/-- Leaves every source for good. -/
def teardownWatcher (w : World Code Memory) (id : WatcherId) : World Code Memory :=
  if (w.watcher id).disposed then w
  else (w.mapWatcher id fun x => { x with disposed := true }).clear (.watcher id)

/-- Removes the watchers of a binding from their sources and silences its listeners. -/
def teardownBinding (w : World Code Memory) (id : BindingId) : World Code Memory :=
  let w := w.mapBinding id fun b => { b with active := false }
  (w.binding id).watchers.foldl teardownWatcher w

end ViewBinding.World
