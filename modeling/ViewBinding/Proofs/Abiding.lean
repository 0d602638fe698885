import ViewBinding.Proofs.Perusing
import ViewBinding.Proofs.Writing

/-!
# What abides

Whatever the programs of the embedder do, the engine changes a world in a few ways only. A family of
properties abides if each of these changes leads from every property of the family back to it, though
another one may hold while a subscriber evaluates. What abides holds at every moment of every run.
-/

namespace ViewBinding

variable {Code Memory : Type} [Inhabited Code]

/-- All programs of an embedder make requests that satisfy a condition. -/
structure Application.Makes (application : Application Code Memory)
    (ok : Request Code Memory → World Code Memory → Prop) : Prop where
  callback (code : Code) (value : Value) : (application.callback code value).Makes ok
  method (code : Code) (owner : ViewModelId) (event : Event) :
    (application.method code owner event).Makes ok
  listener (code : Code) (event : Event) : (application.listener code event).Makes ok
  getter (code : Code) (owner? : Option ViewModelId) : (application.getter code owner?).Makes ok
  update (code : Code) : (application.update code).Makes ok
  install (code : Code) (owner : ViewModelId) (node : NodeId) (directive : Directive) :
    (application.install code owner node directive).Makes ok

omit [Inhabited Code] in
/-- Any embedder makes any requests. -/
theorem Application.makes_true (application : Application Code Memory) :
    application.Makes fun _ _ => True where
  callback _ _ := Program.makes_true _
  method _ _ _ := Program.makes_true _
  listener _ _ := Program.makes_true _
  getter _ _ := Program.makes_true _
  update _ := Program.makes_true _
  install _ _ _ _ := Program.makes_true _

omit [Inhabited Code] in
theorem Application.Makes.imp {application : Application Code Memory}
    {ok ok' : Request Code Memory → World Code Memory → Prop} (himp : ∀ r w, ok r w → ok' r w)
    (h : application.Makes ok) : application.Makes ok' where
  callback code value := (h.callback code value).imp himp
  method code owner event := (h.method code owner event).imp himp
  listener code event := (h.listener code event).imp himp
  getter code owner? := (h.getter code owner?).imp himp
  update code := (h.update code).imp himp
  install code owner node directive := (h.install code owner node directive).imp himp

/-- An occurrence that goes with no change of what sources and subscribers have noted. -/
inductive Occurrence.Plain : Occurrence → Prop
  | updating (subscriber : Subscriber) : Plain (.updating subscriber)
  | computing (id : ComputedId) : Plain (.computing id)
  | calling (owner : ViewModelId) (method : String) (event : Event) : Plain (.calling owner method event)
  | writing (owner : ViewModelId) (path : Path) (value : Value) : Plain (.writing owner path value)

/-- A watcher as it is made. -/
structure Watcher.New (x : Watcher Code) : Prop where
  cached : x.cached = .undefined
  dependencies : x.dependencies = {}
  disposed : x.disposed = false
  fires : x.fires = 0

namespace World

/-- The world in which a watcher knows a value. -/
def learning (w : World Code Memory) (id : WatcherId) (value : Value) : World Code Memory :=
  w.mapWatcher id fun x => { x with cached := value, fires := x.fires + 1 }

/-- The world in which a watcher has begun to react to a new value. Its tracker is paused, and what
`refs` names is held. -/
def reacting (w : World Code Memory) (application : Application Code Memory) (id : WatcherId)
    (value : Value) (refs : List Ref) : World Code Memory :=
  World.note (({ w.learning id value with held := refs ++ w.held } : World Code Memory).mapTracker
    (w.watcher id).tracker (·.push none)) application (.reacting id value)

end World

namespace Engine

/-- A family of properties of worlds to which every change leads back that the engine makes in what is
listed, read and known, and every change that the embedder makes by hand or in its memory if it is one
that is `ok`. -/
structure Withstands (application : Application Code Memory)
    (ok : Request Code Memory → World Code Memory → Prop) {ι : Type} (I : ι → World Code Memory → Prop) :
    Prop where
  mapTracker {i : ι} {w : World Code Memory} (t : TrackerId) (f : Tracker → Tracker) :
    I i w → I i (w.mapTracker t f)
  note {i : ι} {w : World Code Memory} {occurrence : Occurrence} : occurrence.Plain → I i w →
    I i (w.note application occurrence)
  meeting {i : ι} {w : World Code Memory} (subscriber : Subscriber) (source : SourceId) :
    I i w → I i (w.meeting application subscriber source)
  /-- While a subscriber evaluates another property of the family may hold. -/
  evaluating (i : ι) (subscriber : Subscriber) : ∃ j, ∀ t : TrackerId,
    (∀ w, I i w → I j (w.opening application t subscriber)) ∧
      ∀ w r, I j w → I i (w.closing application t subscriber r)
  /-- A watcher evaluates when it is made. Then it knows its value or is torn down. -/
  making {i : ι} {w : World Code Memory} {x : Watcher Code} (held : List Ref) : x.New → I i w →
    let id := w.watchers.fresh
    ∃ j, I j (World.opening { (w.addWatcher x).2 with held } application x.tracker (.watcher id)) ∧
      (∀ v value, I j v → I i ((v.closing application x.tracker (.watcher id) (.ok value)).mapWatcher
        id fun x => { x with cached := value })) ∧
      ∀ v error, I j v →
        I i ((v.closing application x.tracker (.watcher id) (.error error)).teardownWatcher id)
  reacting {i : ι} {w : World Code Memory} {id : WatcherId} {value : Value} (refs : List Ref) :
    (w.watcher id).cached.same value = false → I i w → I i (w.reacting application id value refs)
  telling {i : ι} {w : World Code Memory} (s : SourceId) : I i w → I i (w.telling application s)
  teardown {i : ι} {w : World Code Memory} (id : WatcherId) : I i w → I i (w.teardownWatcher id)
  register {i : ι} {w : World Code Memory} {s : SourceId} {subscriber : Subscriber} :
    ok (.register s subscriber) w → I i w → I i (w.mapSource s (·.register subscriber))
  unregister {i : ι} {w : World Code Memory} {s : SourceId} {subscriber : Subscriber} :
    ok (.unregister s subscriber) w → I i w → I i (w.mapSource s (·.unregister subscriber))
  remember {i : ι} {w : World Code Memory} {f : Memory → Memory} :
    ok (.remember f) w → I i w → I i { w with memory := f w.memory }

/-- Besides, every change leads back that the engine makes in tables, and that it makes in an object for a reader. -/
structure Endures (application : Application Code Memory)
    (ok : Request Code Memory → World Code Memory → Prop) {ι : Type} (I : ι → World Code Memory → Prop) :
    Prop extends Withstands application ok I where
  quiet {i : ι} {w w' : World Code Memory} : w.Steady w' → w.Builds w' → I i w → I i w'
  await {i : ι} {w : World Code Memory} {object : ObjectId} {key : String} :
    (w.object object).observed = true → (w.object object).slot? key = none → I i w →
      I i (w.await object key).2

/-- Besides, every change leads back that the engine makes in objects. -/
structure Abides (application : Application Code Memory)
    (ok : Request Code Memory → World Code Memory → Prop) {ι : Type} (I : ι → World Code Memory → Prop) :
    Prop extends Endures application ok I where
  store {i : ι} {w : World Code Memory} (object : ObjectId) (key : String) (value : Value) :
    I i w → I i (w.store object key value).2
  write {i : ι} {w : World Code Memory} {object : ObjectId} {key : String} {old value : Value} :
    (w.object object).slot? key = some (.field old none) → I i w →
      I i (w.putSlot object key (.field value none))
  writeObserved {i : ι} {w : World Code Memory} {object : ObjectId} {key : String} {old value : Value}
    {source : SourceId} : (w.object object).slot? key = some (.field old (some source)) → I i w →
      I i ((w.putSlot object key (.field value (some source))).observe value)
  observe {i : ι} {w : World Code Memory} (value : Value) : I i w → I i (w.observe value)
  load {i : ι} {w : World Code Memory} (json : Json) : I i w → I i (w.load json).2
  assemble {i : ι} {w : World Code Memory} (options : Options Code) (data : ObjectId) :
    I i w → I i (w.assemble options data).2

/-- What does not look at objects abides if it outlasts whatever is built. -/
theorem Withstands.abides {application : Application Code Memory}
    {ok : Request Code Memory → World Code Memory → Prop} {ι : Type} {I : ι → World Code Memory → Prop}
    (hI : Withstands application ok I) (hbuilds : ∀ i {w w'}, w.Builds w' → I i w → I i w') :
    Abides application ok I where
  toWithstands := hI
  quiet {i _ _} _ := hbuilds i
  store {i w} object key value := hbuilds i (World.raises_store w object key value).toBuilds
  write {i w object key _ _} _ := hbuilds i (World.raises_putSlot w object key _).toBuilds
  writeObserved {i w object key _ value _} _ :=
    hbuilds i ((World.raises_putSlot w object key _).trans (World.raises_observe _ value)).toBuilds
  await {i w object key} _ _ := hbuilds i (World.raises_await w object key).toBuilds
  observe {i w} value := hbuilds i (World.raises_observe w value).toBuilds
  load {i w} json := hbuilds i (World.raises_load w json).toBuilds
  assemble {i w} options data := hbuilds i (World.builds_assemble w options data)

/-- Two families that abide do so together. -/
theorem Abides.and {application : Application Code Memory}
    {ok : Request Code Memory → World Code Memory → Prop} {ι κ : Type} {I : ι → World Code Memory → Prop}
    {J : κ → World Code Memory → Prop} (hI : Abides application ok I) (hJ : Abides application ok J) :
    Abides application ok fun (k : ι × κ) w => I k.1 w ∧ J k.2 w where
  mapTracker t f := And.imp (hI.mapTracker t f) (hJ.mapTracker t f)
  note ho := And.imp (hI.note ho) (hJ.note ho)
  meeting x s := And.imp (hI.meeting x s) (hJ.meeting x s)
  evaluating k x := by
    obtain ⟨i, hi⟩ := hI.evaluating k.1 x
    obtain ⟨j, hj⟩ := hJ.evaluating k.2 x
    refine ⟨(i, j), fun t => ⟨fun w => ?_, fun w r => ?_⟩⟩
    · exact And.imp ((hi t).1 w) ((hj t).1 w)
    · exact And.imp ((hi t).2 w r) ((hj t).2 w r)
  making held hx hw := by
    obtain ⟨i, hi, hi', hi''⟩ := hI.making held hx hw.1
    obtain ⟨j, hj, hj', hj''⟩ := hJ.making held hx hw.2
    refine ⟨(i, j), ⟨hi, hj⟩, fun v value => ?_, fun v error => ?_⟩
    · exact And.imp (hi' v value) (hj' v value)
    · exact And.imp (hi'' v error) (hj'' v error)
  reacting refs hnew := And.imp (hI.reacting refs hnew) (hJ.reacting refs hnew)
  telling s := And.imp (hI.telling s) (hJ.telling s)
  teardown id := And.imp (hI.teardown id) (hJ.teardown id)
  register hok := And.imp (hI.register hok) (hJ.register hok)
  unregister hok := And.imp (hI.unregister hok) (hJ.unregister hok)
  remember hok := And.imp (hI.remember hok) (hJ.remember hok)
  quiet hsteady hbuilds := And.imp (hI.quiet hsteady hbuilds) (hJ.quiet hsteady hbuilds)
  store object key value := And.imp (hI.store object key value) (hJ.store object key value)
  write hslot := And.imp (hI.write hslot) (hJ.write hslot)
  writeObserved hslot := And.imp (hI.writeObserved hslot) (hJ.writeObserved hslot)
  await hobserved hslot := And.imp (hI.await hobserved hslot) (hJ.await hobserved hslot)
  observe value := And.imp (hI.observe value) (hJ.observe value)
  load json := And.imp (hI.load json) (hJ.load json)
  assemble options data := And.imp (hI.assemble options data) (hJ.assemble options data)

/-- What is entered again leads back to every property of a family, for programs that make requests that
are `ok`. -/
structure Revisits (application : Application Code Memory)
    (ok : Request Code Memory → World Code Memory → Prop) {ι : Type} (I : ι → World Code Memory → Prop)
    (c d : Reentry Code Memory) : Prop where
  programs : application.Makes ok
  left : c.application = application
  right : d.application = application
  depth : d.depth = c.depth
  notify (i : ι) (source : SourceId) : Keeps (I i) (c.notify source) (d.notify source)
  run (i : ι) {α : Type} {program : Program Code Memory α} :
    program.Makes ok → Keeps (I i) (c.run program) (d.run program)

section Steps

variable {application : Application Code Memory}
  {ok : Request Code Memory → World Code Memory → Prop} {ι : Type} {I : ι → World Code Memory → Prop}
  {c d : Reentry Code Memory} {i : ι}

namespace Endures

variable (hI : Endures application ok I)

include hI

theorem rows {w w' : World Code Memory} (hobjects : w'.objects = w.objects)
    (hsources : w'.sources = w.sources) (htrackers : w'.trackers = w.trackers)
    (hwatchers : w'.watchers = w.watchers) (hcomputeds : w'.computeds = w.computeds)
    (hviewModels : w'.viewModels = w.viewModels) (hmemory : w'.memory = w.memory) : I i w → I i w' :=
  hI.quiet (World.steady_of_eq hobjects (hsources ▸ Nat.le_refl _) hcomputeds hviewModels)
    (World.builds_of_eq hsources htrackers hwatchers hcomputeds hmemory)

theorem fringe {w w' : World Code Memory} (hfringe : w.Fringe w') : I i w → I i w' :=
  hI.quiet hfringe.steady hfringe.builds

theorem recurs : Recurs application I where
  held held := hI.rows rfl rfl rfl rfl rfl rfl rfl
  mapTracker := hI.mapTracker
  mapComputed {i w} id f hf hdependencies := by
    refine hI.quiet (World.steady_mapComputed w id hf) ⟨fun _ => rfl, fun _ => rfl, rfl, fun j => ?_, rfl⟩
    rw [World.computed_mapComputed]
    split
    · next h => rw [hdependencies, h]
    · rfl
  computing id := hI.note (.computing id)
  meeting := hI.meeting
  evaluating := hI.evaluating
  await := hI.await

end Endures

omit [Inhabited Code] in
theorem Revisits.recurring (h : Revisits application ok I c d) : Recurring application I c d where
  left := h.left
  right := h.right
  getter i code owner? := h.run i (h.programs.getter code owner?)

section Watching

variable (hI : Endures application ok I) (h : Revisits application ok I c d)

include hI h

/-! ### Watching -/

theorem Revisits.watch (t : TrackerId) (root : Value) (path : Path) (reaction : Reaction Code) :
    Keeps (I i) (watch c t root path reaction) (watch d t root path reaction) := by
  intro w hw
  let x : Watcher Code := { tracker := t, root, path, reaction }
  have hx : x.New := ⟨rfl, rfl, rfl, rfl⟩
  unfold Engine.watch
  rw [ends_create_bind]
  obtain ⟨j, hopening, hsuccess, hfailure⟩ :=
    hI.making (.watcher w.watchers.fresh :: (w.addWatcher x).2.held) hx hw
  refine Ends.keeping _ (R := fun _ => I i) ?_ fun _ _ => hI.recurs.held _
  refine Ends.attempt_bind (R := fun r w' => ∃ v, I j v ∧
    w' = v.closing application t (.watcher w.watchers.fresh) r) ?_ ?_
  · have htracker : ((w.watchers.add x).get w.watchers.fresh).tracker = t := by
      rw [Table.get_add_fresh]
    refine h.recurring.ends_evaluateWatcher hI.recurs (i := j) ?_ fun r w' hw' => ⟨w', hw', ?_⟩
    · exact (congrArg (fun t => I j (World.opening _ application t _)) htracker).mpr hopening
    · exact congrArg (fun t => w'.closing application t _ r) htracker
  · rintro r w' ⟨v, hv, rfl⟩
    cases r with
    | ok value => exact (ends_pure _).mpr (hsuccess v value hv)
    | error error => exact (ends_throw _).mpr (hfailure v error hv)

theorem Revisits.fitting : Fitting (I i) c d where
  toPerusal := h.recurring.perusal hI.recurs
  fringe hfringe _ := hI.fringe hfringe
  watch := h.watch hI

theorem Revisits.upkeep : Upkeep (I i) c d where
  toFitting := h.fitting hI
  depth := h.depth
  display {w} updater node value := hI.fringe (World.fringe_display w updater node value)
  setText {w} node content := hI.fringe (World.fringe_setText w node content)
  installRender owner node kind updater path := (h.fitting hI).installRender owner node kind updater path
    fun {w} value => hI.fringe (World.fringe_display w updater node value)
  installInterpolation node _ := (h.fitting hI).installInterpolation _ node _
    (fun {w} content => hI.fringe (World.fringe_setText w node content)) _
  calling _ _ _ _ hw := h.left ▸ hI.note (.calling _ _ _) hw
  teardown _ id := hI.teardown id
  callback code value := h.left ▸ h.run i (h.programs.callback code value)
  method code owner event := h.left ▸ h.run i (h.programs.method code owner event)
  install node _ hw := h.left ▸ h.run i (h.programs.install _ _ node _) _ hw

theorem Revisits.updateWatcher (id : WatcherId) :
    Keeps (I i) (updateWatcher c id) (updateWatcher d id) := by
  refine hI.recurs.keeping _ ((Keeps.inspect _).bind fun disposed => ?_)
  cases disposed with
  | true => exact Keeps.pure ()
  | false =>
    refine (h.recurring.evaluateWatcher hI.recurs id).bind fun value w hw => ?_
    rw [ends_inspect_bind]
    split
    · exact (ends_pure ()).mpr hw
    · next hnew =>
      rw [ends_update_bind]
      have hreacting : I i (w.reacting application id value value.refs) :=
        hI.reacting value.refs (Bool.eq_false_iff.mpr hnew) hw
      refine Ends.keeping _ (R := fun _ => I i) ?_ fun _ _ => hI.recurs.held _
      refine Ends.framed _ _ (R := fun _ => I i) ?_ fun _ _ => hI.mapTracker _ _
      unfold Engine.note
      rw [h.left, h.right, ends_update_bind]
      exact (h.upkeep hI).react _ value _ hreacting

theorem Revisits.updateSubscriber (subscriber : Subscriber) :
    Keeps (I i) (updateSubscriber c subscriber) (updateSubscriber d subscriber) := by
  intro w hw
  have hnote : I i (w.note application (.updating subscriber)) := hI.note (.updating _) hw
  refine ends_updateSubscriber h.left h.right hnote (fun id _ => h.updateWatcher hI id _ hnote) (fun id hw => ?_)
    (h.notify i) fun code => h.run i (h.programs.update code)
  exact hI.recurs.mapComputed id (fun _ => ⟨rfl, rfl, rfl⟩) (fun _ => rfl) hw

end Watching

variable (hI : Abides application ok I) (h : Revisits application ok I c d)

include hI h

/-! ### Writing and requests -/

theorem Revisits.writing : Writing (I i) c d where
  toPerusal := h.recurring.perusal hI.recurs
  notify := h.notify i
  store object key value := hI.store object key value
  write := hI.write
  writeObserved := hI.writeObserved

theorem Revisits.chores (P : Moment Code Memory → World Code Memory → Prop) : Chores ok P (I i) c d where
  toWriting := h.writing hI
  tables hsteady hraises := hI.quiet hsteady hraises.toBuilds
  observe value := hI.observe value
  load json := hI.load json
  enter _ := hI.mapTracker _ _
  leave t := hI.mapTracker t _
  depend t source := h.recurring.depend hI.recurs (some t) source
  register := hI.register
  unregister := hI.unregister
  updateWatcher id _ hw := h.updateWatcher hI.toEndures id _ hw
  readComputed := h.recurring.readComputed hI.recurs
  install _ hw := (h.upkeep hI.toEndures).installDirective (fun code _ =>
    h.left ▸ h.run i (h.programs.install code _ _ _) _ hw) hw
  addBinding _ := hI.rows rfl rfl rfl rfl rfl rfl rfl
  teardownBinding {w id} _ := (h.upkeep hI.toEndures).teardownBinding w id
  remember := hI.remember

theorem Revisits.service {P P' : Moment Code Memory → World Code Memory → Prop}
    (hP' : ∀ moment w, I i w → P moment w → P' moment w) :
    Service ok P P' (I i) (I i) (I i) c d where
  toPerusal := (h.upkeep hI.toEndures).toPerusal
  rests hw := hw
  loose hw := hw
  moment moment hw hP := ⟨hP' moment _ hw hP, hw⟩
  retaining := (h.upkeep hI.toEndures).held
  margin hmargin _ := hI.fringe hmargin.fringe
  display _ := (h.upkeep hI.toEndures).display _ _ _
  teardown _ id := hI.teardown id
  watch := h.watch hI.toEndures
  callMethod := (h.upkeep hI.toEndures).callMethod
  mount := (h.upkeep hI.toEndures).walking.mount
  compile := (h.upkeep hI.toEndures).walking.compile
  unmount := (h.upkeep hI.toEndures).unmount
  writing _ _ _ _ hw := h.left ▸ hI.note (.writing _ _ _) hw
  reading := h.recurring.get hI.recurs
  shading t := (h.upkeep hI.toEndures).pausing t
  set := (h.writing hI).set
  listener code event := h.left ▸ h.run i (h.programs.listener code event)
  assemble held _ _ _ hw := hI.assemble _ _ ((h.upkeep hI.toEndures).held held hw)
  simple hsimple hP hok hw := (h.chores hI P).simple hsimple hP hok hw

end Steps

/-! ### Nesting -/

section Nesting

variable {application : Application Code Memory} {P P' : Proviso Code Memory}
  {ok : Request Code Memory → World Code Memory → Prop} {ι : Type} {I : ι → World Code Memory → Prop}
  {α : Type} {i : ι}

theorem Endures.notifyUnder (hI : Endures application ok I)
    (hacting : ∀ i waiting w, I i w → P waiting .acting w → P' waiting .acting w)
    (htelling : ∀ i waiting source w, I i w → P waiting (.telling source) w → P' waiting (.telling source) w)
    {next next' : List Subscriber → Reentry Code Memory}
    (h : ∀ waiting, Revisits application ok I (next waiting) (next' waiting))
    (waiting : List Subscriber) (source : SourceId) :
    Keeps (I i) (notifyUnder P application next waiting source)
      (notifyUnder P' application next' waiting source) := by
  refine keeps_notifyUnder (fun _ held hw => hI.recurs.held held hw) (fun source hw => hI.telling source hw) (hacting i)
    (htelling i) (fun waiting subscriber w _ hw => ?_) waiting source
  exact (h waiting).updateSubscriber hI subscriber w hw

variable (hI : Abides application ok I)
  (hP' : ∀ i waiting moment w, I i w → P waiting moment w → P' waiting moment w)

include hI hP'

/-- However deep the engine is entered again, it leads back to every property of the family. -/
theorem Abides.revisits (hprograms : application.Makes ok) (depth : Nat) (waiting : List Subscriber) :
    Revisits application ok I (reentryUnder P application depth waiting)
      (reentryUnder P' application depth waiting) := by
  induction depth generalizing waiting with
  | zero =>
    exact ⟨hprograms, rfl, rfl, rfl, fun _ _ => Keeps.exhausted _, fun _ _ _ _ => Keeps.exhausted _⟩
  | succ depth inductionHypothesis =>
    refine ⟨hprograms, rfl, rfl, rfl, fun i => ?_, fun i _ _ hprogram => ?_⟩
    · exact hI.toEndures.notifyUnder (fun i waiting => hP' i waiting .acting)
        (fun i waiting source => hP' i waiting (.telling source)) inductionHypothesis waiting
    · exact ((inductionHypothesis waiting).service hI (hP' i waiting)).followUnder hprogram

omit hP' in
/-- So it does without supervision. -/
theorem Abides.reentry (hprograms : application.Makes ok) (depth : Nat) :
    Revisits application ok I (reentry application depth) (reentry application depth) := by
  rw [← reentryUnder_of_holds (P := fun _ _ _ => True) (fun _ _ _ => trivial) application depth []]
  exact hI.revisits (fun _ _ _ _ _ h => h) hprograms depth []

/-- A run under one supervision is a run under another one that follows from the properties. -/
theorem Abides.runUnder (hprograms : application.Makes ok) (depth : Nat)
    {program : Program Code Memory α} (hprogram : program.Makes ok) :
    Keeps (I i) (runUnder P application depth program) (runUnder P' application depth program) :=
  ((hI.revisits hP' hprograms depth []).service hI (hP' i [])).followUnder hprogram

omit hP' in
/-- What abides holds throughout a run that begins with it. -/
theorem Abides.throughout (hprograms : application.Makes ok) {depth : Nat}
    {program : Program Code Memory α} (hprogram : program.Makes ok)
    (hP' : ∀ i waiting moment w, I i w → P' waiting moment w) {w : World Code Memory} (hw : I i w) :
    Throughout P' application depth program w := by
  rintro ⟨result, w'⟩ hrun
  rw [← runUnder_of_holds (P := fun _ _ _ => True) fun _ _ _ => trivial] at hrun
  have hkeeps := hI.runUnder (i := i) (P := fun _ _ _ => True)
    (fun i waiting moment w hw _ => hP' i waiting moment w hw) hprograms depth hprogram
  exact (hkeeps w hw result w' hrun).1

end Nesting

end Engine

end ViewBinding
