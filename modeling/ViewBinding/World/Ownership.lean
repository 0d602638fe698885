import ViewBinding.World

/-!
# What is kept alive

Sources and listeners do not keep alive what they tell. A thing lives while the embedder, an
operation under way or a tracker's stack holds it, or while a living thing owns it; things that own
each other in a circle stay alive together. So a thing is gone when nothing holds it and all that owns
it is gone.
-/

namespace ViewBinding

/-- What a value keeps alive. -/
def Value.refs : Value → List Ref
  | .object id => [.object id]
  | .array id _ => [.array id]
  | _ => []

def Slot.refs : Slot → List Ref
  | .field value _ => value.refs
  | .computed id => [.computed id]
  | .constant value => value.refs
  | .proxy target _ => [.object target]

def Object.refs (o : Object) : List Ref :=
  o.slots.values.flatMap Slot.refs

def Reaction.refs {Code : Type} : Reaction Code → List Ref
  | .render _ node => [.node node]
  | .interpolate _ root _ node => .node node :: root.refs
  | .run _ => []

def Watcher.refs {Code : Type} (x : Watcher Code) : List Ref :=
  x.root.refs ++ x.cached.refs ++ x.reaction.refs

def Computed.refs {Code : Type} (x : Computed Code) : List Ref :=
  (x.cache.map Value.refs).getD []

def Node.refs {Code : Type} (x : Node Code) : List Ref :=
  x.children.map .node ++ x.value.refs

def Binding.refs (x : Binding) : List Ref :=
  x.watchers.map .watcher

def ViewModel.refs {Code : Type} (x : ViewModel Code) : List Ref :=
  .object x.data :: .object x.root :: (x.document.toList ++ x.mounted.toList).map .node
    ++ (x.bindings.values.flatten).map .binding

namespace World

variable {Code Memory : Type} [Inhabited Code]

/-- What a thing keeps alive by itself. -/
def owned (w : World Code Memory) : Ref → List Ref
  | .object id => (w.object id).refs
  | .array id => (w.array id).flatMap Value.refs
  | .computed id => (w.computed id).refs
  | .watcher id => (w.watcher id).refs
  | .probe _ => []
  | .node id => (w.node id).refs
  | .binding id => (w.binding id).refs
  | .viewModel id => (w.viewModel id).refs

/-- Everything that can keep something alive. -/
def refs (w : World Code Memory) : List Ref :=
  w.bindings.keys.map .binding ++ w.viewModels.keys.map .viewModel
    ++ w.objects.keys.map .object ++ w.arrays.keys.map .array
    ++ w.computeds.keys.map .computed ++ w.watchers.keys.map .watcher ++ w.nodes.keys.map .node

/-- How many things can keep something alive. -/
def size (w : World Code Memory) : Nat :=
  w.bindings.size + w.viewModels.size + w.objects.size + w.arrays.size + w.computeds.size
    + w.watchers.size + w.nodes.size

omit [Inhabited Code] in
theorem length_refs (w : World Code Memory) : w.refs.length = w.size := by
  simp [refs, size, Table.keys, Nat.add_assoc]

/-- The subscribers on the stack of some tracker. -/
def evaluating (w : World Code Memory) : List Ref :=
  (w.trackers.keys.map w.tracker).flatMap fun t => t.frames.filterMap fun frame =>
    frame.map Subscriber.ref

/-- Everything that is held, given what the embedder holds. -/
def roots (w : World Code Memory) (embedder : List Ref) : List Ref :=
  embedder ++ w.held ++ w.evaluating

/--
Looks whether `x` is gone, passing over what is known to be gone. Answers what is known then, or
nothing when a chain of owners in `all` leads from `x` to a root or goes on for `length` steps.
-/
def gone? (w : World Code Memory) (roots all : List Ref) :
    (length : Nat) → (known : List Ref) → (x : Ref) → Option (List Ref)
  | 0, _, _ => none
  | length + 1, known, x =>
    if known.contains x then some known
    else if roots.contains x then none
    else
      let known? := all.foldlM (fun known y =>
        if (w.owned y).contains x then w.gone? roots all length known y else some known) known
      known?.map (x :: ·)

/-- Whether a thing lives, given all that is held and all things. -/
def lives (w : World Code Memory) (roots all : List Ref) (x : Ref) : Bool :=
  (w.gone? roots all (w.size + 1) [] x).isNone

/--
Whether a thing lives, given what the embedder holds. A chain of owners that is longer than there
are things runs in a circle, and a circle keeps itself alive.
-/
def alive (w : World Code Memory) (embedder : List Ref) (x : Ref) : Bool :=
  let roots := w.roots embedder
  roots.contains x || w.lives roots w.refs x

/-- The subscribers of a source that live, in the order of registration. -/
def liveSubscribers (w : World Code Memory) (embedder : List Ref) (id : SourceId) :
    List Subscriber :=
  let roots := w.roots embedder
  let all := w.refs
  (w.source id).subscribers.filter fun subscriber => w.lives roots all subscriber.ref

def subscriberCount (w : World Code Memory) (embedder : List Ref) (id : SourceId) : Nat :=
  (w.liveSubscribers embedder id).length

theorem lives_of_mem {w : World Code Memory} {roots all : List Ref} {x : Ref} (h : x ∈ roots) :
    w.lives roots all x = true := by
  simp [lives, gone?, h]

theorem alive_eq_lives (w : World Code Memory) (embedder : List Ref) (x : Ref) :
    w.alive embedder x = w.lives (w.roots embedder) w.refs x := by
  by_cases h : x ∈ w.roots embedder
  · simp [alive, lives_of_mem h]
  · simp [alive, h]

/-- What is held lives. -/
theorem alive_of_mem_roots {w : World Code Memory} {embedder : List Ref} {x : Ref}
    (h : x ∈ w.roots embedder) : w.alive embedder x = true := by
  rw [alive_eq_lives, lives_of_mem h]

theorem liveSubscribers_eq_filter (w : World Code Memory) (embedder : List Ref) (id : SourceId) :
    w.liveSubscribers embedder id
      = (w.source id).subscribers.filter fun subscriber => w.alive embedder subscriber.ref := by
  simp [liveSubscribers, alive_eq_lives]

end World

end ViewBinding
