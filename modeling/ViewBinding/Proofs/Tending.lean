import ViewBinding.Proofs.Abreast
import ViewBinding.Proofs.Compiling
import ViewBinding.Proofs.Turns
import ViewBinding.Proofs.Writing

/-!
# What is kept while nodes are bound and left

What is bound changes only when a node is visited, when a directive is carried out by hand, when a tree is
unmounted and when a binding is torn down. A property of worlds that these steps keep, and that lasts while
what is bound stands by, holds at every moment of every run.
-/

namespace ViewBinding

open Engine

variable {Code Memory : Type} [Inhabited Code]

/-- A request that leaves the watchers to the engine and brings no installer. Programs get hold of a
watcher as a subscriber only while it evaluates, and then only getters run. -/
def Request.Regular : Request Code Memory → Prop
  | .register _ (.watcher _) => False
  | .enter _ (some (.watcher _)) => False
  | .newViewModel options => options.directives = []
  | .install installer _ _ directive => Registry.standard.find? directive.kind = some installer
  | _ => True

/-- An embedder whose getters only read, and whose other programs make requests that are `ok`. Taking note
of what happens does not change what its memory keeps alive. -/
structure Application.Regular (application : Application Code Memory)
    (ok : Request Code Memory → World Code Memory → Prop) : Prop where
  quiet : ∀ o w, application.holds (application.notes o w) = application.holds w.memory
  getters : application.GettersRead
  callback (code : Code) (value : Value) : (application.callback code value).Makes ok
  method (code : Code) (owner : ViewModelId) (event : Event) :
    (application.method code owner event).Makes ok
  listener (code : Code) (event : Event) : (application.listener code event).Makes ok
  update (code : Code) : (application.update code).Makes ok

/-- A moment at which a program makes a request that does more than read, or a source tells its
subscribers. -/
def Moment.Stirs : Moment Code Memory → Prop
  | .acting => False
  | .asking request => ¬ request.ReadsOnly
  | .telling _ => True

omit [Inhabited Code] in
/-- A proviso on the moments at which something stirs leaves reading alone. -/
theorem Moment.lenient (Q : World Code Memory → Prop) :
    Proviso.Lenient fun _ (moment : Moment Code Memory) w => moment.Stirs → Q w where
  acting _ _ h := h.elim
  asking _ _ hreads h := absurd hreads h

namespace Engine

/-- A property of worlds that binding nodes and leaving them keeps, for requests that are `ok`. -/
structure Tends (application : Application Code Memory)
    (ok : Request Code Memory → World Code Memory → Prop) (I : World Code Memory → Prop) : Prop
    extends World.Lasts application I where
  regular {request : Request Code Memory} {w : World Code Memory} : ok request w → request.Regular
  element {c : Reentry Code Memory} {w : World Code Memory} {owner : ViewModelId} {n : NodeId} :
    Abreast application c c → I w → (w.node n).isElement = true →
      Ends w (compileElement c owner n) (compileElement c owner n) fun _ => I
  text {c : Reentry Code Memory} {w : World Code Memory} {owner : ViewModelId} {n : NodeId}
    {text : String} : Abreast application c c → I w → w.node n = .text text →
      Ends w (compileText c owner n) (compileText c owner n) fun _ => I
  install {c : Reentry Code Memory} {v w : World Code Memory} {installer : Installer Code}
    {owner : ViewModelId} {n : NodeId} {directive : Directive} : Abreast application c c →
      ok (.install installer owner n directive) v → I w →
      Ends w (install c installer owner n directive) (install c installer owner n directive) fun _ => I
  unmount {w : World Code Memory} (owner : ViewModelId) (n : NodeId) : I w → I (w.unmount owner n).2
  teardownBinding {w : World Code Memory} {b : BindingId} :
    ok (.teardownBinding b) w → I w → I (w.teardownBinding b)
  remember {w : World Code Memory} {f : Memory → Memory} :
    ok (.remember f) w → I w → I { w with memory := f w.memory }

/-- What is entered again keeps a property, for programs that make requests that are `ok`. -/
structure Tending (application : Application Code Memory)
    (ok : Request Code Memory → World Code Memory → Prop) (I : World Code Memory → Prop)
    (c d : Reentry Code Memory) : Prop extends Abreast application c d where
  notify (source : SourceId) : Keeps I (c.notify source) (d.notify source)
  run {α : Type} {program : Program Code Memory α} :
    program.Makes ok → Keeps I (c.run program) (d.run program)

namespace Tending

variable {application : Application Code Memory}
  {ok : Request Code Memory → World Code Memory → Prop} {I : World Code Memory → Prop}
  {c d : Reentry Code Memory} {α : Type}

variable (hI : Tends application ok I) (happ : application.Regular ok) (h : Tending application ok I c d)

include hI

theorem keeping (refs : List Ref) {x y : Engine Code Memory α} (hx : Keeps I x y) :
    Keeps I (keeping refs x) (keeping refs y) :=
  hx.keeping (fun w held hw => hI.bystands (World.bystands_held w held) rfl hw) refs

include h

/-! ### Binding -/

theorem walking : Walking I c d where
  depth := h.depth
  held held hw := hI.bystands (World.bystands_held _ held) rfl hw
  element helement hw :=
    (((h.upright _).compileElement _ _ _ (Abreast.upright_self (hI.staffed hw))).and
      (hI.element h.self hw helement)).mono fun _ _ hr => hr.2
  text {w owner n} htext hw := by
    obtain ⟨text, hnode⟩ : ∃ text, w.node n = .text text := by
      cases hrow : w.node n with
      | text content => exact ⟨content, rfl⟩
      | element e =>
        rw [hrow] at htext
        cases htext
    exact (((h.upright w).compileText _ _ _ (Abreast.upright_self (hI.staffed hw))).and
      (hI.text h.self hw hnode)).mono fun _ _ hr => hr.2
  setChildren node children hw := hI.bystands (World.margin_setChildren _ node children).bystands rfl hw
  appendChildren node children hw := hI.bystands (World.margin_appendChildren _ node children).bystands rfl hw
  mounted owner node hw := hI.bystands (World.bystands_mounted _ owner (some node)) rfl hw

/-! ### Writing -/

theorem writing : Writing I c d where
  toPerusal := h.perusal hI.toLasts
  notify := h.notify
  store {w} object key value := hI.raises (World.raises_store w object key value)
  write {w object key _ _} _ := hI.raises (World.raises_putSlot w object key _)
  writeObserved {w object key _ value _} _ :=
    hI.raises ((World.raises_putSlot w object key _).trans (World.raises_observe _ value))

include happ

/-! ### Reacting -/

theorem react (reaction : Reaction Code) (value : Value) :
    Keeps I (react c reaction value) (react d reaction value) := by
  cases reaction with
  | render updater node =>
    exact Keeps.update fun w hw => hI.margin (World.margin_display w updater node value) hw
  | interpolate template root tracker node =>
    refine ((h.perusal hI.toLasts).renderTemplate template root (some tracker)).bind fun text => ?_
    exact Keeps.update fun w hw => hI.margin (World.margin_setText w node text) hw
  | run code =>
    unfold Engine.react
    rw [h.left, h.right]
    exact h.run (happ.callback code value)

theorem callMethod (owner : ViewModelId) (method : String) (event : Event) :
    Keeps I (callMethod c owner method event) (callMethod d owner method event) := by
  unfold Engine.callMethod
  refine (h.note hI.toLasts _).bind fun _ => (Keeps.inspect _).bind fun vm => ?_
  refine ((h.perusal hI.toLasts).get vm.root method none).bind fun value => ?_
  cases value with
  | function id name =>
    rw [h.left, h.right]
    exact (Keeps.inspect _).bind fun code => h.run (happ.method code owner event)
  | _ => exact Keeps.throw _

theorem updateWatcher (id : WatcherId) : Keeps I (updateWatcher c id) (updateWatcher d id) := by
  have hperusal := h.perusal hI.toLasts
  refine keeping hI _ fun w hw => ?_
  rw [ends_inspect_bind]
  cases hdisposed : (w.watcher id).disposed with
  | true => exact (ends_pure ()).mpr hw
  | false =>
    refine (h.evaluateWatcher hI.toLasts hw hdisposed).bind (fun value v hv => ?_) fun _ _ hv => hv
    refine ((Keeps.inspect _).bind fun x => ?_) v hv
    split
    · exact Keeps.pure ()
    · refine Keeps.bind (Keeps.update fun w hw => ?_) fun _ => ?_
      · exact hI.bystands (World.bystands_mapWatcher w id (fun _ => rfl) (fun _ => rfl) fun _ => rfl) rfl hw
      · refine keeping hI _ (hperusal.pausing x.tracker ?_)
        exact (h.note hI.toLasts _).bind fun _ => h.react hI happ x.reaction value

theorem updateSubscriber (subscriber : Subscriber) :
    Keeps I (updateSubscriber c subscriber) (updateSubscriber d subscriber) := by
  intro w hw
  have hnote : I (w.note application (.updating subscriber)) := hI.note hw _
  refine ends_updateSubscriber h.left h.right hnote (fun id _ => h.updateWatcher hI happ id _ hnote)
    (fun {w} id hw => ?_) h.notify fun code => h.run (happ.update code)
  refine hI.bystands (w := w) ?_ rfl hw
  exact World.bystands_of_same rfl rfl rfl rfl (fun _ _ hs => hs) fun _ hx => hx

/-! ### Requests -/

theorem chores (P : Moment Code Memory → World Code Memory → Prop) : Chores ok P I c d where
  toWriting := h.writing hI
  tables _ hraises := hI.raises hraises
  observe value := hI.raises (World.raises_observe _ value)
  load json := hI.raises (World.raises_load _ json)
  enter {w tracker frame} hok := by
    refine hI.bystands (World.bystands_push w tracker fun x hx => ?_) rfl
    exact absurd (hI.regular hok) (hx ▸ id)
  leave {w} tracker := hI.bystands (World.bystands_pop w tracker) rfl
  depend tracker source := h.depend hI.toLasts (some tracker) source
  register {w source subscriber} hok := by
    refine hI.bystands (World.bystands_mapSource w source fun x hx => ?_) rfl
    refine (Source.mem_register.mp hx).resolve_right fun heq => ?_
    exact absurd (hI.regular hok) (heq ▸ id)
  unregister {w source subscriber} _ :=
    hI.bystands (World.bystands_mapSource w source fun x hx => (Source.mem_unregister.mp hx).1) rfl
  updateWatcher id _ hw := h.updateWatcher hI happ id _ hw
  readComputed := h.readComputed hI.toLasts
  install {_ w installer owner node directive} hok hw := by
    have hinstall : Ends w (Engine.install c installer owner node directive)
        (Engine.install d installer owner node directive) fun _ => Abreast.Upright application w :=
      (h.upright w).installDirective
        (fun code hcode => absurd (hcode ▸ hI.regular hok) (Registry.find?_standard_ne_custom _ code))
        (Abreast.upright_self (hI.staffed hw))
    exact (hinstall.and (hI.install h.self hok hw)).mono fun _ _ hr => hr.2
  addBinding {w _} hwatchers := hI.bystands (World.bystands_addBinding w hwatchers) rfl
  teardownBinding := hI.teardownBinding
  remember := hI.remember

theorem service {P P' : Moment Code Memory → World Code Memory → Prop}
    (hP' : ∀ moment w, I w → P moment w → P' moment w) : Service ok P P' I I I c d where
  toPerusal := h.perusal hI.toLasts
  rests hw := hw
  loose hw := hw
  moment moment hw hP := ⟨hP' moment _ hw hP, hw⟩
  retaining held hw := hI.bystands (World.bystands_held _ held) rfl hw
  margin hmargin _ := hI.margin hmargin
  display {w _ updater node value} _ := hI.margin (World.margin_display w updater node value)
  teardown w id hw :=
    hI.bystands (World.bystands_teardownWatcher w id) (World.memory_teardownWatcher w id) hw
  watch := h.watch hI.toLasts
  callMethod := h.callMethod hI happ
  mount := (h.walking hI).mount
  compile := (h.walking hI).compile
  unmount _ owner node hw := hI.unmount owner node hw
  writing _ _ _ _ hw := h.left ▸ hI.note hw _
  reading := (h.perusal hI.toLasts).get
  shading t := (h.perusal hI.toLasts).pausing t
  set := (h.writing hI).set
  listener code event := h.left ▸ h.run (happ.listener code event)
  assemble held _ hok _ hw :=
    hI.bystands ((World.bystands_held _ held).trans (World.bystands_assemble _ _ (hI.regular hok)))
      (World.builds_assemble _ _ _).memory hw
  simple hsimple hP hok hw := (h.chores hI happ P).simple hsimple hP hok hw

end Tending

/-! ### Nesting -/

section Nesting

variable {application : Application Code Memory} {P P' : Proviso Code Memory}
  {ok : Request Code Memory → World Code Memory → Prop} {I : World Code Memory → Prop} {α : Type}

variable (hI : Tends application ok I) (happ : application.Regular ok)
  (hP' : ∀ waiting moment w, I w → P waiting moment w → P' waiting moment w)

include hI happ hP'

theorem Tends.notifyUnder {next next' : List Subscriber → Reentry Code Memory}
    (h : ∀ waiting, Tending application ok I (next waiting) (next' waiting))
    (waiting : List Subscriber) (source : SourceId) :
    Keeps I (notifyUnder P application next waiting source)
      (notifyUnder P' application next' waiting source) := by
  refine keeps_notifyUnder (fun w held hw => hI.bystands (World.bystands_held w held) rfl hw)
    (fun {w} source hw => hI.note (hI.bystands (World.bystands_mapSource w source fun x hx => ?_) rfl hw) _)
    (fun waiting => hP' waiting .acting) (fun waiting source => hP' waiting (.telling source))
    (fun waiting subscriber w _ hw => (h waiting).updateSubscriber hI happ subscriber w hw) waiting source
  rw [World.liveSubscribers_eq_filter] at hx
  exact (List.mem_filter.mp hx).1

/-- However deep the engine is entered again, it keeps the property. -/
theorem Tends.tending (hP : P.Lenient) (hP'_lenient : P'.Lenient) (depth : Nat) (waiting : List Subscriber) :
    Tending application ok I (reentryUnder P application depth waiting)
      (reentryUnder P' application depth waiting) := by
  induction depth generalizing waiting with
  | zero =>
    have habreast := abreast_reentryUnder happ.quiet happ.getters hP hP'_lenient 0 waiting
    exact ⟨habreast, fun _ => Keeps.exhausted _, fun _ => Keeps.exhausted _⟩
  | succ depth inductionHypothesis =>
    have habreast := abreast_reentryUnder happ.quiet happ.getters hP hP'_lenient (depth + 1) waiting
    refine ⟨habreast, hI.notifyUnder happ hP' inductionHypothesis waiting, fun hprogram => ?_⟩
    exact ((inductionHypothesis waiting).service hI happ (hP' waiting)).followUnder hprogram

end Nesting

section Turns

variable {application : Application Code Memory} {ok : Request Code Memory → World Code Memory → Prop}
  {I : World Code Memory → Prop} {w v : World Code Memory}

variable (hI : Tends application ok I) (happ : application.Regular ok)

include hI happ

/-- The engine itself keeps a property that is tended. -/
theorem Tends.reentry (depth : Nat) :
    Tending application ok I (Engine.reentry application depth) (Engine.reentry application depth) := by
  have htending : Tending application ok I (reentryUnder (fun _ _ _ => True) application depth [])
      (reentryUnder (fun _ _ _ => True) application depth []) :=
    hI.tending happ (fun _ _ _ _ _ => trivial) ⟨fun _ _ => trivial, fun _ _ _ => trivial⟩
      ⟨fun _ _ => trivial, fun _ _ _ => trivial⟩ depth []
  rwa [reentryUnder_of_holds fun _ _ _ => trivial] at htending

/-- A property that is tended holds at the turn of every subscriber that is told of a change. -/
theorem Tends.tellsAt {depth : Nat} {source : SourceId} {subscriber : Subscriber}
    (h : w.TellsAt application depth source subscriber v) (hw : I w) : I v := by
  refine h.of_keeps (fun _ held hw => hI.bystands (World.bystands_held _ held) rfl hw)
    ((hI.reentry happ depth).updateSubscriber hI happ) (hI.note ?_ _)
  refine hI.bystands (World.bystands_mapSource w source fun x hx => ?_) rfl hw
  rw [World.liveSubscribers_eq_filter] at hx
  exact (List.mem_filter.mp hx).1

/-- A property that is tended holds at the turn of every listener that an event runs. -/
theorem Tends.handsAt {depth : Nat} {event : Event} {listener : Listener Code}
    (h : w.HandsAt application depth event listener v) (hw : I w) : I v := by
  have hservice : Service ok (fun _ _ => True) (fun _ _ => True) I I I (Engine.reentry application depth)
      (Engine.reentry application depth) := (hI.reentry happ depth).service hI happ fun _ _ _ _ => trivial
  have hheld : ∀ (w : World Code Memory) held, I w → I { w with held } := fun _ held hw =>
    hI.bystands (World.bystands_held _ held) rfl hw
  exact h.of_keeps hheld (hservice.handle event) (hheld w _ hw)

end Turns

/-- A property that is tended holds throughout a run. -/
theorem Tends.throughout {application : Application Code Memory} {P : Proviso Code Memory}
    {ok : Request Code Memory → World Code Memory → Prop} {I : World Code Memory → Prop} {α : Type}
    (hI : Tends application ok I) (happ : application.Regular ok) (hP : P.Lenient)
    (hholds : ∀ waiting moment w, I w → P waiting moment w) {program : Program Code Memory α}
    (hprogram : program.Makes ok) (depth : Nat) {w : World Code Memory} (hw : I w) :
    Throughout P application depth program w := by
  rintro ⟨r, w'⟩ hrun
  have hholds' : ∀ waiting moment w, I w → True → P waiting moment w :=
    fun waiting moment w hw _ => hholds waiting moment w hw
  have htending := hI.tending (P := fun _ _ _ => True) happ hholds'
    ⟨fun _ _ => trivial, fun _ _ _ => trivial⟩ hP depth []
  have hkeeps := (htending.service hI happ (P := fun _ _ => True) (hholds' [])).followUnder hprogram
  rw [← runUnder_of_holds (P := fun _ _ _ => True) (fun _ _ _ => trivial)] at hrun
  exact (hkeeps w hw r w' hrun).1

end Engine

end ViewBinding
