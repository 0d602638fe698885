import ViewBinding.Proofs.Building
import ViewBinding.Proofs.Observing
import ViewBinding.Proofs.Serving

/-!
# What writing and telling keep

A field is stored or written by a few changes of an object, and then a source tells its subscribers one after the
other. A property of worlds that these changes keep is kept by writing and by telling, and by all requests that are
carried out at once.
-/

namespace ViewBinding

variable {Code Memory : Type} [Inhabited Code]

/-- The world in which a source has begun to tell its subscribers. -/
def World.telling (w : World Code Memory) (application : Application Code Memory) (s : SourceId) :
    World Code Memory :=
  let live := w.liveSubscribers (application.holds w.memory) s
  (w.mapSource s fun _ => ⟨live⟩).note application (.telling s live)

namespace Engine

variable {I : World Code Memory → Prop} {c d : Reentry Code Memory}

/-! ### Writing -/

/-- The steps of writing keep a property of worlds, or keep it in two engines alike. -/
structure Writing (I : World Code Memory → Prop) (c d : Reentry Code Memory) : Prop
    extends Perusal I c d where
  notify (source : SourceId) : Keeps I (c.notify source) (d.notify source)
  store {w : World Code Memory} (object : ObjectId) (key : String) (value : Value) :
    I w → I (w.store object key value).2
  write {w : World Code Memory} {object : ObjectId} {key : String} {old value : Value} :
    (w.object object).slot? key = some (.field old none) → I w → I (w.putSlot object key (.field value none))
  writeObserved {w : World Code Memory} {object : ObjectId} {key : String} {old value : Value}
    {source : SourceId} : (w.object object).slot? key = some (.field old (some source)) → I w →
      I ((w.putSlot object key (.field value (some source))).observe value)

namespace Writing

variable (h : Writing I c d)

include h

theorem tell (source : Option SourceId) : Keeps I (tell c source) (tell d source) := by
  cases source with
  | none => exact Keeps.pure ()
  | some source => exact h.notify source

theorem insert (object : ObjectId) (key : String) (value : Value) :
    Keeps I (insert c object key value) (insert d object key value) :=
  h.keeping _ ((Keeps.create fun _ hw => h.store object key value hw).bind fun source => h.tell source)

theorem place (object : ObjectId) (key : String) (value : Value) :
    Keeps I (place c object key value) (place d object key value) :=
  (h.insert object key value).attempt.bind fun _ => Keeps.pure ()

theorem set (object : ObjectId) (key : String) (value : Value) :
    Keeps I (set c object key value) (set d object key value) := by
  refine (Keeps.inspect _).bind fun target => ?_
  obtain ⟨holder, name⟩ := target
  refine h.keeping _ fun w hw => ?_
  rw [ends_inspect_bind]
  cases hslot : (w.object holder).slot? name with
  | none => exact h.insert holder name value w hw
  | some slot =>
    cases slot with
    | field old source =>
      simp only [writeSlot]
      split
      · exact (ends_pure _).mpr hw
      · rw [ends_update_bind]
        cases source with
        | none => exact (ends_pure _).mpr (h.write hslot hw)
        | some source =>
          rw [ends_update_bind]
          exact h.keeping _ (h.notify source) _ (h.writeObserved hslot hw)
    | computed id => exact (ends_throw _).mpr hw
    | constant value => exact (ends_throw _).mpr hw
    | proxy target key => exact (ends_throw _).mpr hw

end Writing

/-! ### Telling -/

section Telling

variable {application : Application Code Memory}

/-- A subscriber is told of a change. -/
theorem ends_updateSubscriber {w : World Code Memory} {subscriber : Subscriber} (hleft : c.application = application)
    (hright : d.application = application) (hnote : I (w.note application (.updating subscriber)))
    (hwatcher : ∀ id, subscriber = .watcher id →
      Ends (w.note application (.updating subscriber)) (updateWatcher c id) (updateWatcher d id) fun _ => I)
    (hforget : ∀ {w : World Code Memory} id, I w → I (w.mapComputed id fun x => { x with cache := none }))
    (hnotify : ∀ source, Keeps I (c.notify source) (d.notify source))
    (hprobe : ∀ code, Keeps I (c.run (application.update code)) (d.run (application.update code))) :
    Ends w (updateSubscriber c subscriber) (updateSubscriber d subscriber) fun _ => I := by
  unfold Engine.updateSubscriber Engine.note
  rw [hleft, hright, ends_update_bind]
  cases subscriber with
  | watcher id => exact hwatcher id rfl
  | computed id =>
    refine ((Keeps.update fun w hw => ?_).bind fun _ => ?_) _ hnote
    · exact hforget id hw
    · exact (Keeps.inspect _).bind fun source => hnotify source
  | probe id => exact ((Keeps.inspect _).bind fun code => hprobe code) _ hnote

variable {P P' : Proviso Code Memory} {next next' : List Subscriber → Reentry Code Memory}

/-- A source tells its subscribers in turn, each at a moment of its own. -/
theorem keeps_notifyUnder (hheld : ∀ (w : World Code Memory) held, I w → I { w with held })
    (htells : ∀ {w : World Code Memory} source, I w → I (w.telling application source))
    (hacting : ∀ waiting w, I w → P waiting .acting w → P' waiting .acting w)
    (htelling : ∀ waiting source w, I w → P waiting (.telling source) w → P' waiting (.telling source) w)
    (h : ∀ waiting subscriber {w : World Code Memory}, P (subscriber :: waiting) .acting w → I w →
      Ends w (updateSubscriber (next waiting) subscriber) (updateSubscriber (next' waiting) subscriber) fun _ => I)
    (waiting : List Subscriber) (source : SourceId) :
    Keeps I (notifyUnder P application next waiting source) (notifyUnder P' application next' waiting source) := by
  have htell : ∀ l : List Subscriber, Keeps I (tellUnder P next waiting l) (tellUnder P' next' waiting l) := by
    intro l
    induction l with
    | nil => exact Keeps.pure []
    | cons subscriber rest inductionHypothesis =>
      refine (Keeps.keeping hheld _ fun w hw => ?_).attempt.bind fun result => ?_
      · exact Ends.under (hacting _ w hw) fun hP => h _ subscriber hP hw
      · refine inductionHypothesis.bind fun errors => ?_
        cases result with
        | ok _ => exact Keeps.pure errors
        | error error => exact Keeps.pure (error :: errors)
  intro w hw
  refine Ends.under (htelling waiting source w hw) fun _ => ?_
  rw [ends_inspect_bind, ends_update_bind, ends_update_bind]
  exact ((htell _).bind fun errors => Keeps.ofExcept _) _ (htells source hw)

end Telling

/-! ### Requests -/

/-- The steps of requests that are carried out at once keep a property of worlds, for requests that are `ok` and are
made at moments that `P` passes. -/
structure Chores (ok : Request Code Memory → World Code Memory → Prop)
    (P : Moment Code Memory → World Code Memory → Prop) (I : World Code Memory → Prop) (c d : Reentry Code Memory) :
    Prop extends Writing I c d where
  tables {w w' : World Code Memory} : w.Steady w' → w.Raises w' → I w → I w'
  observe {w : World Code Memory} (value : Value) : I w → I (w.observe value)
  load {w : World Code Memory} (json : Json) : I w → I (w.load json).2
  enter {w : World Code Memory} {t : TrackerId} {frame : Frame} :
    ok (.enter t frame) w → I w → I (w.mapTracker t (·.push frame))
  leave {w : World Code Memory} (t : TrackerId) : I w → I (w.mapTracker t (·.pop))
  depend (t : TrackerId) (source : SourceId) : Keeps I (depend c (some t) source) (depend d (some t) source)
  register {w : World Code Memory} {s : SourceId} {subscriber : Subscriber} :
    ok (.register s subscriber) w → I w → I (w.mapSource s (·.register subscriber))
  unregister {w : World Code Memory} {s : SourceId} {subscriber : Subscriber} :
    ok (.unregister s subscriber) w → I w → I (w.mapSource s (·.unregister subscriber))
  updateWatcher {w : World Code Memory} (id : WatcherId) : P (.asking (.updateWatcher id)) w → I w →
    Ends w (updateWatcher c id) (updateWatcher d id) fun _ => I
  readComputed (id : ComputedId) (reader : Option TrackerId) :
    Keeps I (readComputed c id reader) (readComputed d id reader)
  install {v w : World Code Memory} {installer : Installer Code} {owner : ViewModelId} {node : NodeId}
    {directive : Directive} : ok (.install installer owner node directive) v → I w →
      Ends w (install c installer owner node directive) (install d installer owner node directive) fun _ => I
  addBinding {w : World Code Memory} {binding : Binding} : binding.watchers = [] → I w → I (w.addBinding binding).2
  teardownBinding {w : World Code Memory} {id : BindingId} :
    ok (.teardownBinding id) w → I w → I (w.teardownBinding id)
  remember {w : World Code Memory} {f : Memory → Memory} :
    ok (.remember f) w → I w → I { w with memory := f w.memory }

theorem Chores.simple {ok : Request Code Memory → World Code Memory → Prop}
    {P : Moment Code Memory → World Code Memory → Prop} (h : Chores ok P I c d) {w : World Code Memory}
    {request : Request Code Memory} (hsimple : ¬ request.Compound) (hP : P (.asking request) w)
    (hok : ok request w) (hw : I w) : Ends w (fulfil c request) (fulfil d request) fun _ => I := by
  have htable : ∀ {w' : World Code Memory}, w'.objects = w.objects → w'.sources = w.sources →
      w'.trackers = w.trackers → w'.watchers = w.watchers → w'.computeds = w.computeds → w'.nodes = w.nodes →
      w'.bindings = w.bindings → w'.viewModels = w.viewModels → w'.memory = w.memory → I w' :=
    fun hobjects hsources htrackers hwatchers hcomputeds hnodes hbindings hviewModels hmemory =>
      h.tables (World.steady_of_eq hobjects (hsources ▸ Nat.le_refl _) hcomputeds hviewModels)
        (World.raises_of_eq hsources htrackers hwatchers hcomputeds hmemory hnodes hbindings hviewModels) hw
  cases request with
  | newObject =>
    refine (ends_create _).mpr (h.tables (World.steady_addObject w) ?_ hw)
    exact World.raises_of_eq rfl rfl rfl rfl rfl rfl rfl rfl
  | newArray items => exact (ends_create _).mpr (htable rfl rfl rfl rfl rfl rfl rfl rfl rfl)
  | newFunction name code => exact (ends_create _).mpr (htable rfl rfl rfl rfl rfl rfl rfl rfl rfl)
  | load json => exact (ends_create _).mpr (h.load json hw)
  | place object key value => exact h.place object key value w hw
  | insert object key value => exact h.insert object key value w hw
  | observe value => exact (ends_update _).mpr (h.observe value hw)
  | newTracker =>
    refine (ends_create _).mpr (h.tables ?_ (World.raises_addTracker w) hw)
    exact World.steady_of_eq rfl (Nat.le_refl _) rfl rfl
  | enter tracker frame => exact (ends_update _).mpr (h.enter hok hw)
  | leave tracker => exact (ends_update _).mpr (h.leave tracker hw)
  | depend tracker source => exact h.depend tracker source w hw
  | newSource => exact (ends_create _).mpr (h.tables (World.steady_addSource w) (World.raises_addSource w) hw)
  | register source subscriber => exact (ends_update _).mpr (h.register hok hw)
  | unregister source subscriber => exact (ends_update _).mpr (h.unregister hok hw)
  | notify source => exact h.notify source w hw
  | newProbe code => exact (ends_create _).mpr (htable rfl rfl rfl rfl rfl rfl rfl rfl rfl)
  | updateWatcher id => exact h.updateWatcher id hP hw
  | newComputed name tracker memoize code =>
    let y : Computed Code := { name, tracker, memoize, getter := .free code, source := w.addSource.1 }
    have hsteady := (World.steady_addSource w).trans (World.steady_addComputed w.addSource.2 y)
    have hraises := (World.raises_addSource w).trans (World.raises_addComputed w.addSource.2 y rfl)
    exact (ends_create _).mpr (h.tables hsteady hraises hw)
  | readComputed id reader => exact h.readComputed id reader w hw
  | install installer owner node directive => exact h.keeping _ (fun _ hv => h.install hok hv) w hw
  | newBinding node kind expression => exact (ends_create _).mpr (h.addBinding rfl hw)
  | teardownBinding id => exact (ends_update _).mpr (h.teardownBinding hok hw)
  | remember f => exact (ends_update _).mpr (h.remember hok hw)
  | _ => exact absurd trivial hsimple

end Engine

end ViewBinding
