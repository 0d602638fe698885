import ViewBinding.Proofs.Abiding

/-!
# What holds everywhere

Whatever the programs of the embedder do, they change what objects hold by a few steps only: storing,
writing, observing, waiting for a key, loading a document, and making a view model. A property of worlds
that these steps keep, and that does not look at anything else, holds at every moment of every run.
-/

namespace ViewBinding

variable {Code Memory : Type} [Inhabited Code]

namespace Engine

/-- A property of worlds that every step of the engine keeps that leaves alone what objects hold, and every change that
the embedder makes in its memory if it is one that is `ok`. -/
structure Remains (application : Application Code Memory)
    (ok : Request Code Memory → World Code Memory → Prop) (I : World Code Memory → Prop) : Prop where
  steady {w w' : World Code Memory} : w.Steady w' → w'.memory = w.memory → I w → I w'
  note (w : World Code Memory) (occurrence : Occurrence) : I w → I (w.note application occurrence)
  remember {w : World Code Memory} {f : Memory → Memory} :
    ok (.remember f) w → I w → I { w with memory := f w.memory }
  await {w : World Code Memory} {object : ObjectId} {key : String} :
    (w.object object).observed = true → (w.object object).slot? key = none → I w →
      I (w.await object key).2

/-- A property of worlds that every step of the engine keeps. -/
structure Invariant (application : Application Code Memory)
    (ok : Request Code Memory → World Code Memory → Prop) (I : World Code Memory → Prop) : Prop
    extends Remains application ok I where
  store (w : World Code Memory) (object : ObjectId) (key : String) (value : Value) :
    I w → I (w.store object key value).2
  write {w : World Code Memory} {object : ObjectId} {key : String} {old value : Value} :
    (w.object object).slot? key = some (.field old none) → I w →
      I (w.putSlot object key (.field value none))
  writeObserved {w : World Code Memory} {object : ObjectId} {key : String} {old value : Value}
    {source : SourceId} : (w.object object).slot? key = some (.field old (some source)) → I w →
      I ((w.putSlot object key (.field value (some source))).observe value)
  observe (w : World Code Memory) (value : Value) : I w → I (w.observe value)
  load (w : World Code Memory) (json : Json) : I w → I (w.load json).2
  assemble (w : World Code Memory) (options : Options Code) (data : ObjectId) :
    I w → I (w.assemble options data).2

section Invariant

variable {application : Application Code Memory} {P P' : Proviso Code Memory}
  {ok : Request Code Memory → World Code Memory → Prop} {I : World Code Memory → Prop} {α : Type}

namespace Remains

variable (hI : Remains application ok I)

include hI

theorem rows {w w' : World Code Memory} (hobjects : w'.objects = w.objects)
    (hsources : w'.sources = w.sources) (hcomputeds : w'.computeds = w.computeds)
    (hviewModels : w'.viewModels = w.viewModels) (hmemory : w'.memory = w.memory) : I w → I w' :=
  hI.steady (World.steady_of_eq hobjects (hsources ▸ Nat.le_refl _) hcomputeds hviewModels) hmemory

/-- What reading does keeps the property, too. -/
theorem peruses : Peruses application I where
  note w occurrence hw := hI.note w occurrence hw
  held {w} held hw := hI.rows (w := w) rfl rfl rfl rfl rfl hw
  mapTracker {w} t f hw := hI.rows (w := w) rfl rfl rfl rfl rfl hw
  mapSource s f hw := hI.steady (World.steady_mapSource _ s f) rfl hw
  mapDependencies subscriber f hw := by
    refine hI.steady (World.steady_mapDependencies _ subscriber f) ?_ hw
    cases subscriber <;> rfl
  settle subscriber hw := by
    refine hI.steady (World.steady_settle _ subscriber) ?_ hw
    rw [World.settle_eq]
    cases subscriber <;> rfl
  mapComputed id _ hf hw := hI.steady (World.steady_mapComputed _ id hf) rfl hw
  await hobserved hslot hw := hI.await hobserved hslot hw

theorem teardown {w : World Code Memory} (id : WatcherId) (hw : I w) : I (w.teardownWatcher id) := by
  refine hI.steady (World.steady_teardownWatcher w id) ?_ hw
  unfold World.teardownWatcher World.clear
  split
  · rfl
  · rw [World.unregisterAll_eq]
    rfl

/-- A property that does not look at watchers, sources and stacks is a family by itself. -/
theorem endures : Endures application ok fun _ : Unit => I where
  quiet hsteady hbuilds hw := hI.steady hsteady hbuilds.memory hw
  mapTracker := hI.peruses.mapTracker
  note _ hw := hI.note _ _ hw
  meeting {i _} := hI.peruses.recurs.meeting (i := i)
  evaluating := hI.peruses.recurs.evaluating
  making {i w x} held _ hw := by
    obtain ⟨j, hj⟩ := hI.peruses.recurs.evaluating i (.watcher w.watchers.fresh)
    refine ⟨j, (hj _).1 _ ?_, fun v value hv => ?_, fun v error hv => ?_⟩
    · exact hI.rows (w := w) rfl rfl rfl rfl rfl hw
    · have hclosed := (hj x.tracker).2 v (.ok value) hv
      exact hI.rows (w := v.closing application x.tracker _ (.ok value)) rfl rfl rfl rfl rfl hclosed
    · exact hI.teardown _ ((hj x.tracker).2 v (.error error) hv)
  reacting {_ w} _ _ _ _ hw := hI.note _ _ (hI.rows (w := w) rfl rfl rfl rfl rfl hw)
  telling _ hw := hI.note _ _ (hI.peruses.mapSource _ _ hw)
  teardown := hI.teardown
  register _ hw := hI.peruses.mapSource _ _ hw
  unregister _ hw := hI.peruses.mapSource _ _ hw
  remember := hI.remember
  await := hI.await

end Remains

namespace Invariant

variable (hI : Invariant application ok I)

include hI

theorem abides : Abides application ok fun _ : Unit => I where
  toEndures := hI.toRemains.endures
  store := hI.store _
  write := hI.write
  writeObserved := hI.writeObserved
  observe := hI.observe _
  load := hI.load _
  assemble := hI.assemble _

/-- A run under one supervision is a run under another one that follows from the property. -/
theorem runUnder (hP' : ∀ waiting moment w, I w → P waiting moment w → P' waiting moment w)
    (hprograms : application.Makes ok) (depth : Nat) {program : Program Code Memory α}
    (hprogram : program.Makes ok) :
    Keeps I (Engine.runUnder P application depth program) (Engine.runUnder P' application depth program) :=
  hI.abides.runUnder (i := ()) (fun _ => hP') hprograms depth hprogram

end Invariant

end Invariant

end Engine

end ViewBinding
