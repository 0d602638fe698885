import ViewBinding.Proofs.Conduct

/-!
# The stacks are balanced

Every operation leaves the stacks of evaluating subscribers as it found them, whatever it ends in and however deep
it nests, as long as the programs of the embedder take off the frames that they put on. Meanwhile a watcher reacts
only while its tracker is paused, and the getter of a memoized property runs only in a frame of the property.
-/

namespace ViewBinding

open Engine

variable {Code Memory : Type}

/-- A request that does not spoil a property of memories by changing the memory itself. -/
def Request.Respects (Q : Memory → Prop) : Request Code Memory → Prop
  | .remember f => ∀ memory, Q memory → Q (f memory)
  | _ => True

variable [Inhabited Code]

namespace World

/-- The stacks are the same, and what `Q` says of the memory has not become wrong. -/
structure Balanced (Q : Memory → Prop) (w w' : World Code Memory) : Prop where
  tracker : ∀ t, w'.tracker t = w.tracker t
  memory : Q w.memory → Q w'.memory

variable {Q : Memory → Prop} {w w₁ w₂ : World Code Memory}

omit [Inhabited Code] in
theorem Balanced.trans (h : w.Balanced Q w₁) (h' : w₁.Balanced Q w₂) : w.Balanced Q w₂ :=
  ⟨fun t => (h'.tracker t).trans (h.tracker t), fun hw => h'.memory (h.memory hw)⟩

omit [Inhabited Code] in
/-- Whatever keeps the memory and the stacks keeps the balance. -/
theorem balanced_of_eq (htrackers : w₁.trackers = w.trackers) (hmemory : w₁.memory = w.memory) :
    w.Balanced Q w₁ :=
  ⟨fun t => by rw [tracker, htrackers, tracker], fun hw => hmemory ▸ hw⟩

omit [Inhabited Code] in
theorem balanced_mapSource (w : World Code Memory) (s : SourceId) (f : Source → Source) :
    w.Balanced Q (w.mapSource s f) :=
  balanced_of_eq rfl rfl

theorem balanced_mapDependencies (w : World Code Memory) (x : Subscriber) (f : Dependencies → Dependencies) :
    w.Balanced Q (w.mapDependencies x f) :=
  ⟨tracker_mapDependencies w x f, fun hw => (memory_mapDependencies w x f).symm ▸ hw⟩

theorem balanced_settle (w : World Code Memory) (x : Subscriber) : w.Balanced Q (w.settle x) := by
  refine (balanced_mapDependencies w x (·.settle)).trans ?_
  rw [settle_eq]
  exact balanced_of_eq rfl rfl

theorem balanced_teardownWatcher (w : World Code Memory) (id : WatcherId) : w.Balanced Q (w.teardownWatcher id) where
  tracker := tracker_teardownWatcher w id
  memory hw := by
    unfold teardownWatcher
    split
    · exact hw
    · rw [clear, unregisterAll_eq]
      exact hw

omit [Inhabited Code] in
/-- A frame is taken off from where it was put. -/
theorem balanced_pop {frame : Frame} {t : TrackerId} (h : (w.mapTracker t (·.push frame)).Balanced Q w₁) :
    w.Balanced Q (w₁.mapTracker t (·.pop)) :=
  ⟨tracker_pop_push w t frame w₁ h.tracker, h.memory⟩

section Noting

variable {application : Application Code Memory}
  (hnotes : ∀ occurrence (w : World Code Memory), occurrence.Framed w → Q w.memory →
    Q (application.notes occurrence w))

include hnotes

theorem balanced_note {occurrence : Occurrence} (hframed : occurrence.Framed w) :
    w.Balanced Q (w.note application occurrence) :=
  ⟨fun _ => rfl, hnotes occurrence w hframed⟩

theorem balanced_closing {t : TrackerId} {x : Subscriber} (r : Except Error Value)
    (h : (w.opening application t x).Balanced Q w₁) : w.Balanced Q (w₁.closing application t x r) := by
  have hbegin : w.Balanced Q ((w.mapDependencies x (·.begin)).note application (.evaluating x)) :=
    (balanced_mapDependencies w x _).trans (balanced_note hnotes trivial)
  have hpopped := hbegin.trans (balanced_pop h)
  cases r with
  | ok value => exact (hpopped.trans (balanced_settle _ x)).trans (balanced_note hnotes trivial)
  | error error =>
    exact (hpopped.trans (balanced_mapDependencies _ x _)).trans (balanced_note hnotes trivial)

end Noting

end World

namespace Engine

open World

variable {Q : Memory → Prop} {application : Application Code Memory}

/-- The balance allows whatever the engine does. -/
theorem conduct_balanced
    (hnotes : ∀ occurrence (w : World Code Memory), occurrence.Framed w → Q w.memory →
      Q (application.notes occurrence w)) :
    Conduct application (Request.Respects Q) (fun _ => True) (fun _ => True) (fun _ => True) (fun _ => True)
      (World.Balanced Q) where
  refl w := balanced_of_eq rfl rfl
  trans := Balanced.trans
  calm_lasts _ _ := trivial
  secret_lasts _ _ := trivial
  calm_of_secret _ := trivial
  builds h _ := ⟨h.trackers, fun hw => h.memory.symm ▸ hw⟩
  note hframed _ := balanced_note hnotes hframed
  meets source _ _ := (balanced_mapSource _ source _).trans (balanced_mapDependencies _ _ _)
  opens _ _ _ := trivial
  closes r _ _ _ := balanced_closing hnotes r
  pauses _ := trivial
  resumes _ := balanced_pop
  tells source _ := balanced_mapSource _ source _
  probes _ _ := trivial
  watchers _ _ := Or.inl trivial
  lasting _ _ _ := trivial
  learns _ _ _ _ _ := balanced_of_eq rfl rfl
  watches _ _ _ _ := balanced_of_eq rfl rfl
  teardown id _ := balanced_teardownWatcher _ id
  viewModels _ _ := trivial
  watch _ := trivial
  serves _ _ := trivial
  assemble data _ _ :=
    have h := builds_assemble _ _ data
    ⟨h.trackers, fun hw => h.memory.symm ▸ hw⟩
  register _ _ := balanced_mapSource _ _ _
  unregister _ _ := balanced_mapSource _ _ _
  remember hok _ := ⟨fun _ => rfl, hok _⟩
  enters _ _ := trivial
  lowers n _ h := ⟨fun t => by rw [tracker_lowered, tracker_lowered, h.tracker], h.memory⟩

/--
The stacks are balanced. If no program of the embedder leaves a frame behind, every request other than to put a
frame on a stack or to take one off, and every program that leaves none behind, leaves the stack of every tracker as
it was, in a result or an error, at any depth and from any world. And a property of memories that stays true when
the embedder takes note with the stacks as they should be (a watcher reacting while its tracker is paused, the
getter of a memoized property in a frame of the property) stays true: no note is taken with the stacks otherwise.
-/
theorem stacks_balanced
    (hnotes : ∀ occurrence (w : World Code Memory), occurrence.Framed w → Q w.memory →
      Q (application.notes occurrence w))
    (happ : application.Closes (Request.Respects Q)) (depth : Nat) :
    (∀ (request : Request Code Memory) r (w w' : World Code Memory), ¬ request.Guards → request.Respects Q →
      fulfil (reentry application depth) request w = some (r, w') →
        (∀ t, (w'.tracker t).frames = (w.tracker t).frames) ∧ (Q w.memory → Q w'.memory)) ∧
    ∀ {α : Type} (program : Program Code Memory α) r (w w' : World Code Memory),
      program.Closes (Request.Respects Q) [] → run application depth program w = some (r, w') →
        (∀ t, (w'.tracker t).frames = (w.tracker t).frames) ∧ (Q w.memory → Q w'.memory) := by
  have hconducts := (conduct_balanced hnotes).conducts happ depth
  constructor
  · intro request r w w' hplain hok hrun
    have h := (hconducts.fulfil (conduct_balanced hnotes) hplain hok w trivial r w' hrun).2
    exact ⟨fun t => congrArg Tracker.frames (h.tracker t), h.memory⟩
  · intro α program r w w' hprogram hrun
    have h := (hconducts.follow (conduct_balanced hnotes) hprogram w trivial r w' hrun).2
    exact ⟨fun t => congrArg Tracker.frames (h.tracker t), h.memory⟩

end Engine

/-! ### An embedder that watches the stacks -/

instance (w : World Code Memory) (occurrence : Occurrence) : Decidable (occurrence.Framed w) := by
  cases occurrence with
  | reacting id value => exact decidable_of_iff _ framed_reacting.symm
  | computing id => exact decidable_of_iff _ framed_computing.symm
  | _ => exact .isTrue trivial

/-- An embedder that notes whether the stacks are as they should be when a watcher reacts or a getter runs. Its
getters read the key `a` of the first object, and its callbacks pause tracking for a while. -/
def Application.usher : Application Unit (List Bool) where
  holds _ := [.object ⟨0⟩, .watcher ⟨0⟩, .viewModel ⟨0⟩]
  notes
    | .reacting id value, w => decide (Occurrence.Framed w (.reacting id value)) :: w.memory
    | .computing id, w => decide (Occurrence.Framed w (.computing id)) :: w.memory
    | _, w => w.memory
  callback _ _ := do
    .request (.enter ⟨0⟩ none)
    .request (.leave ⟨0⟩)
  method _ _ _ := .done ()
  listener _ _ := .done ()
  getter _ _ := .request (.get ⟨0⟩ "a" (some ⟨0⟩))
  update _ := .done ()
  install _ _ _ _ := .fail .detached

/-- Watches a computed property and changes what it is computed from. -/
def Program.rehearsal : Program Unit (List Bool) Unit := do
  let object ← request .newObject
  request (.insert object "a" (.string "x"))
  let owner ← request (.newViewModel { data := .object object, computed := .ofList [("_", ())] })
  let _ ← request (.watchOn owner default ())
  request (.set object "a" (.string "y"))

theorem Application.closes_usher : usher.Closes (Request.Respects fun notes => ∀ note ∈ notes, note = true) where
  callback _ _ := .enter trivial (.leave List.mem_cons_self (.done ()))
  method _ _ _ := .done ()
  listener _ _ := .done ()
  getter _ _ := Program.closes_request id trivial
  update _ := .done ()
  install _ _ _ _ := .fail _

theorem Program.closes_rehearsal :
    rehearsal.Closes (Request.Respects fun notes => ∀ note ∈ notes, note = true) [] := by
  refine (closes_request id trivial).bind fun object => ?_
  refine (closes_request id trivial).bind fun _ => ?_
  refine (closes_request id trivial).bind fun owner => ?_
  refine (closes_request id trivial).bind fun _ => ?_
  exact closes_request id trivial

theorem Application.notes_usher (occurrence : Occurrence) (w : World Unit (List Bool)) (hframed : occurrence.Framed w)
    (hw : ∀ note ∈ w.memory, note = true) : ∀ note ∈ usher.notes occurrence w, note = true := by
  cases occurrence with
  | reacting id value => exact List.forall_mem_cons.mpr ⟨decide_eq_true hframed, hw⟩
  | computing id => exact List.forall_mem_cons.mpr ⟨decide_eq_true hframed, hw⟩
  | _ => exact hw

/-- Two getters run and a watcher reacts, all of them with the stacks as they should be. -/
theorem Engine.stacks_balanced_rehearsal :
    Application.usher.Closes (Request.Respects fun notes => ∀ note ∈ notes, note = true) ∧
      Program.rehearsal.Closes (Request.Respects fun notes => ∀ note ∈ notes, note = true) [] ∧
      ∃ r w', run Application.usher 6 Program.rehearsal { memory := [] } = some (r, w') ∧
        w'.memory.length = 3 ∧ (∀ t, (w'.tracker t).frames = []) ∧ ∀ note ∈ w'.memory, note = true := by
  refine ⟨Application.closes_usher, Program.closes_rehearsal, ?_⟩
  have hends : (run Application.usher 6 Program.rehearsal { memory := [] }).map (fun (_, w') => w'.memory.length)
      = some 3 := by decide +kernel
  obtain ⟨⟨r, w'⟩, hrun, hlength⟩ := Option.map_eq_some_iff.mp hends
  obtain ⟨hframes, hnotes⟩ := (stacks_balanced Application.notes_usher Application.closes_usher 6).2
    Program.rehearsal r _ w' Program.closes_rehearsal hrun
  exact ⟨r, w', hrun, hlength, hframes, hnotes (List.forall_mem_nil _)⟩

end ViewBinding
