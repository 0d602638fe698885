import ViewBinding.Proofs.Moving
import ViewBinding.Proofs.Registration

/-!
# Rules of conduct

Every operation is made of a few kinds of changes. A relation that holds between the worlds before and after each
of them, and that outlasts a frame put on a stack for a while, holds between the worlds before and after every
operation, however deep it is nested. Some changes are made from calm worlds, where the subscribers of a source
may be told; all others are made from private ones, where programs may read.
-/

namespace ViewBinding

variable {Code Memory : Type} [Inhabited Code]

/-- A watcher that has nothing to watch and has never had. -/
def Watcher.Blank (x : Watcher Code) : Prop :=
  x.root = .undefined ∧ x.cached = .undefined

/-- A request that makes watchers for a view model. -/
def Request.Serves (owner : ViewModelId) : Request Code Memory → Prop
  | .watchOn other .. | .mount other .. | .compile other .. | .install _ other .. => other = owner
  | .newViewModel .. => True
  | _ => False

namespace Engine

/--
A relation `ρ` and the changes that it allows, for programs that make requests that are `ok`. Watchers are made on
trackers that are `mine`, and for view models that are `hosts`.
-/
structure Conduct (application : Application Code Memory) (ok : Request Code Memory → Prop)
    (mine : TrackerId → Prop) (hosts : ViewModelId → Prop) (calm secret : World Code Memory → Prop)
    (ρ : World Code Memory → World Code Memory → Prop) : Prop where
  refl (w : World Code Memory) : ρ w w
  trans {w w₁ w₂ : World Code Memory} : ρ w w₁ → ρ w₁ w₂ → ρ w w₂
  calm_lasts {w w₁ : World Code Memory} : ρ w w₁ → calm w → calm w₁
  secret_lasts {w w₁ : World Code Memory} : ρ w w₁ → secret w → secret w₁
  calm_of_secret {w : World Code Memory} : secret w → calm w
  builds {w w₁ : World Code Memory} : w.Builds w₁ →
    (∀ owner, (w₁.viewModel owner).tracker = (w.viewModel owner).tracker) → ρ w w₁
  note {w : World Code Memory} {occurrence : Occurrence} : occurrence.Framed w → calm w →
    ρ w (w.note application occurrence)
  -- reading
  meets {w : World Code Memory} {reader : Option TrackerId} {x : Subscriber} (source : SourceId) :
    w.current? reader = some x → secret w →
      ρ w ((w.mapSource source (·.register x)).mapDependencies x (·.record source))
  opens {w : World Code Memory} {t : TrackerId} {x : Subscriber} : (∀ id, x ≠ .probe id) → ¬ w.IsOver x →
    mine t ∧ calm w ∨ secret w → secret (w.opening application t x)
  closes {w w₁ : World Code Memory} {t : TrackerId} {x : Subscriber} (r : Except Error Value) :
    (∀ id, x ≠ .probe id) → ¬ w.IsOver x → calm w → ρ (w.opening application t x) w₁ →
      ρ w (w₁.closing application t x r)
  pauses {w : World Code Memory} {t : TrackerId} : mine t ∧ calm w ∨ secret w →
    secret (w.mapTracker t (·.push none))
  resumes {w w₁ : World Code Memory} {t : TrackerId} : calm w →
    ρ (w.mapTracker t (·.push none)) w₁ → ρ w (w₁.mapTracker t (·.pop))
  -- telling
  tells {w : World Code Memory} (source : SourceId) : calm w →
    ρ w (w.mapSource source fun _ => ⟨w.liveSubscribers (application.holds w.memory) source⟩)
  probes {w : World Code Memory} {source : SourceId} {id : ProbeId} : calm w →
    .probe id ∈ (w.source source).subscribers → secret w
  -- watching
  watchers {w : World Code Memory} (id : WatcherId) : calm w →
    mine (w.watcher id).tracker ∨ (w.watcher id).Blank
  lasting {w w₁ : World Code Memory} {id : WatcherId} : ρ w w₁ → (w.watcher id).root ≠ .undefined →
    mine (w.watcher id).tracker → mine (w₁.watcher id).tracker
  /-- A watcher was not torn down before it evaluated, though it may be when it learns the value. -/
  learns {w₀ w : World Code Memory} {id : WatcherId} {f : Watcher Code → Watcher Code} :
    (∀ x, (f x).tracker = x.tracker ∧ (f x).root = x.root ∧ (f x).dependencies = x.dependencies ∧
      (f x).disposed = x.disposed) → ¬ w₀.IsOver (.watcher id) → calm w₀ → ρ w₀ w →
    mine (w.watcher id).tracker → ρ w (w.mapWatcher id f)
  watches {w : World Code Memory} {x : Watcher Code} : x.dependencies = {} → x.disposed = false →
    mine x.tracker → secret w → ρ w (w.addWatcher x).2
  teardown {w : World Code Memory} (id : WatcherId) : secret w → ρ w (w.teardownWatcher id)
  viewModels {w : World Code Memory} {owner : ViewModelId} : hosts owner → secret w →
    mine (w.viewModel owner).tracker
  -- requests
  watch {t : TrackerId} {root : Value} {path : Path} {code : Code} : ok (.watch t root path code) → mine t
  serves {request : Request Code Memory} {owner : ViewModelId} : ok request → request.Serves owner → hosts owner
  assemble {w : World Code Memory} {options : Options Code} (data : ObjectId) :
    ok (.newViewModel options) → secret w → ρ w (w.assemble options data).2
  register {w : World Code Memory} {source : SourceId} {x : Subscriber} : ok (.register source x) →
    secret w → ρ w (w.mapSource source (·.register x))
  unregister {w : World Code Memory} {source : SourceId} {x : Subscriber} : ok (.unregister source x) →
    secret w → ρ w (w.mapSource source (·.unregister x))
  remember {w : World Code Memory} {f : Memory → Memory} : ok (.remember f) → secret w →
    ρ w { w with memory := f w.memory }
  -- guards
  enters {w : World Code Memory} {t : TrackerId} {frame : Frame} : ok (.enter t frame) → secret w →
    secret (w.mapTracker t (·.push frame))
  lowers {w w₁ : World Code Memory} (n : TrackerId → Nat) : secret w → ρ w w₁ → ρ (w.lowered n) (w₁.lowered n)

/-- The engine as it is entered again keeps to the rules. -/
structure Conducts (application : Application Code Memory) (ok : Request Code Memory → Prop)
    (calm secret : World Code Memory → Prop) (ρ : World Code Memory → World Code Memory → Prop)
    (c : Reentry Code Memory) : Prop where
  programs : application.Closes ok
  left : c.application = application
  notify (source : SourceId) : Moves calm ρ (c.notify source)
  run {α : Type} {program : Program Code Memory α} : program.Closes ok [] → Moves secret ρ (c.run program)

section Operations

variable {application : Application Code Memory} {ok : Request Code Memory → Prop}
  {mine : TrackerId → Prop} {hosts : ViewModelId → Prop} {calm secret : World Code Memory → Prop}
  {ρ : World Code Memory → World Code Memory → Prop} {c : Reentry Code Memory} {α β : Type}

namespace Conduct

variable (hρ : Conduct application ok mine hosts calm secret ρ)

include hρ

theorem rows {w w₁ : World Code Memory} (hsources : w₁.sources = w.sources) (htrackers : w₁.trackers = w.trackers)
    (hwatchers : w₁.watchers = w.watchers) (hcomputeds : w₁.computeds = w.computeds)
    (hviewModels : w₁.viewModels = w.viewModels) (hmemory : w₁.memory = w.memory) : ρ w w₁ :=
  hρ.builds (World.builds_of_eq hsources htrackers hwatchers hcomputeds hmemory) fun owner => by
    rw [World.viewModel, hviewModels, World.viewModel]

theorem raises {w w₁ : World Code Memory} (h : w.Raises w₁) : ρ w w₁ :=
  hρ.builds h.toBuilds fun owner => by rw [World.viewModel, h.viewModels, World.viewModel]

theorem fringe {w w₁ : World Code Memory} (h : w.Fringe w₁) : ρ w w₁ :=
  hρ.builds h.builds fun owner =>
    congrArg (fun vm => vm.tracker) (h.viewModels owner)

theorem calmly : Coherent calm ρ :=
  ⟨hρ.refl, hρ.trans, hρ.calm_lasts, fun _ _ => hρ.rows rfl rfl rfl rfl rfl rfl⟩

theorem secretly : Coherent secret ρ :=
  ⟨hρ.refl, hρ.trans, hρ.secret_lasts, fun _ _ => hρ.rows rfl rfl rfl rfl rfl rfl⟩

theorem mapComputed (w : World Code Memory) (id : ComputedId) {f : Computed Code → Computed Code}
    (hf : ∀ x, (f x).dependencies = x.dependencies) : ρ w (w.mapComputed id f) := by
  refine hρ.builds ⟨fun _ => rfl, fun _ => rfl, rfl, fun j => ?_, rfl⟩ fun _ => rfl
  rw [World.computed_mapComputed]
  split
  · next h => rw [hf, h]
  · rfl

theorem fringes {P : World Code Memory → Prop} {f : World Code Memory → World Code Memory}
    (hf : ∀ w : World Code Memory, w.Fringe (f w)) : Moves P ρ (update f) :=
  Moves.update fun w _ => hρ.fringe (hf w)

theorem pausing (t : TrackerId) {x : Engine Code Memory α} (hx : Moves secret ρ x) :
    Moves secret ρ (framed (some t) none x) := fun _ hw =>
  Ends.framed t none (hx _ (hρ.pauses (.inr hw))) fun _ _ => hρ.resumes (hρ.calm_of_secret hw)

end Conduct

namespace Conducts

variable (hρ : Conduct application ok mine hosts calm secret ρ) (hc : Conducts application ok calm secret ρ c)

include hρ hc

theorem note {occurrence : Occurrence} (hframed : ∀ w : World Code Memory, occurrence.Framed w) :
    Moves calm ρ (note c occurrence) := by
  unfold Engine.note
  rw [hc.left]
  exact Moves.update fun w hw => hρ.note (hframed w) hw

theorem mentions {occurrence : Occurrence} (hframed : ∀ w : World Code Memory, occurrence.Framed w) :
    Moves secret ρ (Engine.note c occurrence) :=
  (hc.note hρ hframed).of_imp fun _ => hρ.calm_of_secret

/-! ### Reading -/

theorem depend (reader : Option TrackerId) (source : SourceId) : Moves secret ρ (depend c reader source) := by
  refine Moves.update fun w hw => ?_
  cases hcurrent : w.current? reader with
  | none => exact hρ.refl w
  | some x =>
    have hmeets := hρ.meets source hcurrent hw
    simp only
    rw [hc.left]
    exact hρ.trans hmeets (hρ.note trivial (hρ.calm_of_secret (hρ.secret_lasts hmeets hw)))

theorem evaluate {w : World Code Memory} (hw : calm w) (t : TrackerId) {x : Subscriber} (hx : ∀ id, x ≠ .probe id)
    (hlives : ¬ w.IsOver x) {body : Engine Code Memory Value}
    (hbody : Ends (w.opening application t x) body body fun _ => ρ (w.opening application t x)) :
    Ends w (evaluate c t x body) (evaluate c t x body) fun _ => ρ w := by
  refine ends_evaluate rfl t x (R := fun _ => ρ (w.opening application t x)) ?_ ?_
  · rw [hc.left]
    exact hbody
  · rw [hc.left]
    exact fun r w' => hρ.closes r hx hlives hw

theorem runGetter {w : World Code Memory} {id : ComputedId}
    (hframed : Occurrence.Framed w (.computing id)) (hw : secret w) :
    Ends w (runGetter c id) (runGetter c id) fun _ => ρ w := by
  have hcount : ρ w (w.mapComputed id fun x => { x with evaluations := x.evaluations + 1 }) :=
    hρ.mapComputed w id fun _ => rfl
  have hframed' : Occurrence.Framed (w.mapComputed id fun x => { x with evaluations := x.evaluations + 1 })
      (.computing id) := by
    rw [framed_computing, World.computed_mapComputed, if_pos rfl]
    exact hframed
  have hw₁ := hρ.secret_lasts hcount hw
  have hnote := hρ.note hframed' (hρ.calm_of_secret hw₁)
  unfold Engine.runGetter Engine.note
  rw [ends_update_bind, ends_update_bind, hc.left]
  refine Ends.mono (Moves.bind hρ.secretly (Moves.inspect hρ.secretly _) (fun getter => ?_) _
    (hρ.secret_lasts hnote hw₁)) fun _ _ h => hρ.trans (hρ.trans hcount hnote) h
  cases getter with
  | free code => exact hc.run (hc.programs.getter code none)
  | ofViewModel owner code =>
    refine Moves.bind hρ.secretly (Moves.inspect hρ.secretly _) fun alive => ?_
    cases alive with
    | true => exact Moves.keeping hρ.secretly _ (hc.run (hc.programs.getter code (some owner)))
    | false => exact Moves.throw hρ.secretly _

/-- A getter runs in a frame of its own property, so that a private world is not needed if the tracker is `mine`. -/
theorem memoizedValue_of {w : World Code Memory} {id : ComputedId}
    (hw : mine (w.computed id).tracker ∧ calm w ∨ secret w) :
    Ends w (memoizedValue c id) (memoizedValue c id) fun _ => ρ w := by
  have hcalm : calm w := hw.elim And.right hρ.calm_of_secret
  unfold Engine.memoizedValue
  rw [ends_inspect_bind]
  cases (w.computed id).cache with
  | some value => exact (ends_pure value).mpr (hρ.refl w)
  | none =>
    have hx : ∀ other, Subscriber.computed id ≠ .probe other := fun _ => Subscriber.noConfusion
    have hlives : ¬ w.IsOver (.computed id) := fun ⟨_, hid, _⟩ => Subscriber.noConfusion hid
    have hopened : secret (w.opening application (w.computed id).tracker (.computed id)) := hρ.opens hx hlives hw
    have hbody := hc.runGetter hρ (framed_opening w application id) hopened
    refine Ends.bind (hc.evaluate hρ hcalm _ hx hlives hbody) ?_ fun _ _ h => h
    intro value w' hw'
    rw [ends_update_bind, ends_pure]
    exact hρ.trans hw' (hρ.mapComputed w' id fun _ => rfl)

theorem memoizedValue (id : ComputedId) : Moves secret ρ (memoizedValue c id) :=
  fun _ hw => hc.memoizedValue_of hρ (.inr hw)

theorem readComputed (id : ComputedId) (reader : Option TrackerId) :
    Moves secret ρ (readComputed c id reader) := by
  refine Moves.keeping hρ.secretly _ fun w hw => ?_
  rw [ends_inspect_bind]
  cases hmemoize : (w.computed id).memoize with
  | false =>
    refine hc.runGetter hρ (fun h => ?_) hw
    rw [hmemoize] at h
    cases h
  | true =>
    exact (hc.depend hρ reader _).bind hρ.secretly (fun _ => hc.memoizedValue hρ id) w hw

theorem get (object : ObjectId) (key : String) (reader : Option TrackerId) :
    Moves secret ρ (get c object key reader) := by
  refine (Moves.inspect hρ.secretly _).bind hρ.secretly fun target => ?_
  obtain ⟨holder, name⟩ := target
  refine Moves.keeping hρ.secretly _ ((Moves.inspect hρ.secretly _).bind hρ.secretly fun slot? => ?_)
  rcases slot? with _ | (⟨value, _ | source⟩ | id | value | ⟨target, key⟩)
  · refine (Moves.inspect hρ.secretly _).bind hρ.secretly fun waits => ?_
    cases waits with
    | true =>
      refine (Moves.create fun w _ => hρ.raises (World.raises_await w holder name)).bind hρ.secretly fun source => ?_
      exact (hc.depend hρ reader source).bind hρ.secretly fun _ => Moves.pure hρ.secretly _
    | false => exact Moves.pure hρ.secretly _
  · exact Moves.pure hρ.secretly _
  · exact (hc.depend hρ reader source).bind hρ.secretly fun _ => Moves.pure hρ.secretly _
  · exact hc.readComputed hρ id reader
  · exact Moves.pure hρ.secretly _
  · exact Moves.pure hρ.secretly _

theorem walk (path : Path) (reader : Option TrackerId) (segments : List String) (owner : Option String)
    (value : Value) : Moves secret ρ (walk c path reader owner value segments) := by
  induction segments generalizing owner value with
  | nil => exact Moves.pure hρ.secretly value
  | cons segment rest inductionHypothesis =>
    cases value with
    | object object =>
      exact (hc.get hρ object segment reader).bind hρ.secretly fun next => inductionHypothesis (some segment) next
    | array id items => exact inductionHypothesis (some segment) (itemAt items segment)
    | _ => exact Moves.throw hρ.secretly _

theorem readPath (root : Value) (path : Path) (reader : Option TrackerId) :
    Moves secret ρ (readPath c root path reader) :=
  hc.walk hρ path reader path.segments none root

theorem renderTemplate (template : Template) (root : Value) (reader : Option TrackerId) :
    Moves secret ρ (renderTemplate c template root reader) := by
  unfold Engine.renderTemplate
  induction template.segments with
  | nil => exact Moves.pure hρ.secretly ""
  | cons segment rest inductionHypothesis =>
    cases segment with
    | literal text => exact inductionHypothesis.bind hρ.secretly fun others => Moves.pure hρ.secretly _
    | placeholder path =>
      refine (hc.readPath hρ root path reader).bind hρ.secretly fun value => ?_
      exact inductionHypothesis.bind hρ.secretly fun others => Moves.pure hρ.secretly _

theorem readOn (owner : ViewModelId) (path : Path) : Moves secret ρ (readOn c owner path) :=
  (Moves.inspect hρ.secretly _).bind hρ.secretly fun vm => hc.readPath hρ (.object vm.root) path (some vm.tracker)

theorem renderOn (owner : ViewModelId) (text : String) : Moves secret ρ (renderOn c owner text) := by
  refine (Moves.inspect hρ.secretly _).bind hρ.secretly fun vm => ?_
  refine (Moves.ofExcept hρ.secretly _).bind hρ.secretly fun template => ?_
  exact hρ.pausing vm.tracker (hc.renderTemplate hρ template (.object vm.root) (some vm.tracker))

/-! ### Watching -/

/-- A watcher stays on a tracker that is `mine`, and one that has nothing to watch learns nothing. -/
theorem evaluateWatcher {w : World Code Memory} (hw : calm w) {id : WatcherId} (hlives : ¬ w.IsOver (.watcher id)) :
    Ends w (evaluateWatcher c id) (evaluateWatcher c id) fun r w' => ρ w w' ∧
      (mine (w.watcher id).tracker → mine (w'.watcher id).tracker) ∧
      ((w.watcher id).Blank → (w'.watcher id).cached = .undefined ∧ ∀ value, r = .ok value → value = .undefined) := by
  have hx : ∀ other, Subscriber.watcher id ≠ .probe other := fun _ => Subscriber.noConfusion
  unfold Engine.evaluateWatcher
  rw [ends_inspect_bind]
  by_cases hroot : (w.watcher id).root = .undefined
  · obtain ⟨result, hresult, hnothing⟩ :=
      readPath_undefined c (w.watcher id).path (some (w.watcher id).tracker)
    rw [hroot, hresult]
    refine ends_evaluate rfl _ _ (R := fun r w' => r = result ∧
      w' = w.opening application (w.watcher id).tracker (.watcher id)) ?_ ?_
    · rw [hc.left, ends_ofExcept]
      exact ⟨rfl, rfl⟩
    · rintro r w' ⟨rfl, rfl⟩
      rw [hc.left]
      have hface := (World.face_closing (w.opening application (w.watcher id).tracker (.watcher id)) application
        (w.watcher id).tracker (.watcher id) r id).trans (World.face_opening w application (w.watcher id).tracker
          (.watcher id) id)
      refine ⟨hρ.closes r hx hlives hw (hρ.refl _), fun hmine => ?_, fun hblank => ⟨?_, hnothing⟩⟩
      · exact (congrArg (fun x => mine x.tracker) hface).mpr hmine
      · exact (congrArg (fun x => x.cached) hface).trans hblank.2
  · have hmine : mine (w.watcher id).tracker :=
      (hρ.watchers id hw).resolve_right fun hblank => hroot hblank.1
    have hbody := hc.readPath hρ (w.watcher id).root (w.watcher id).path (some (w.watcher id).tracker) _
      (hρ.opens hx hlives (.inl ⟨hmine, hw⟩))
    refine (hc.evaluate hρ hw _ hx hlives hbody).mono fun r w' h => ⟨h, fun hmine => ?_, fun hblank => ?_⟩
    · exact hρ.lasting h hroot hmine
    · exact absurd hblank.1 hroot

theorem watch {t : TrackerId} (ht : mine t) (root : Value) (path : Path) (reaction : Reaction Code) :
    Moves secret ρ (watch c t root path reaction) := by
  intro w hw
  unfold Engine.watch
  rw [ends_create_bind]
  have hmade : ρ w (w.addWatcher { tracker := t, root, path, reaction }).2 := hρ.watches rfl rfl ht hw
  have hmine : mine ((w.addWatcher { tracker := t, root, path, reaction }).2.watcher w.watchers.fresh).tracker := by
    rw [World.watcher_addWatcher, if_pos rfl]
    exact ht
  refine Ends.keeping _ (R := fun _ => ρ w) ?_ fun _ _ h => hρ.trans h (hρ.secretly.held _ _)
  have hstart := hρ.trans hmade (hρ.secretly.held _ ([.watcher w.watchers.fresh] ++ w.held))
  have hcalm := hρ.calm_of_secret (hρ.secret_lasts hstart hw)
  have hlives : ¬ (w.addWatcher { tracker := t, root, path, reaction }).2.IsOver (.watcher w.watchers.fresh) := by
    rintro ⟨id, hid, hdisposed⟩
    cases hid
    rw [World.watcher_addWatcher, if_pos rfl] at hdisposed
    cases hdisposed
  refine (hc.evaluateWatcher hρ hcalm hlives).attempt_bind fun r w' h => ?_
  have hw' := hρ.trans hstart h.1
  cases r with
  | ok value =>
    rw [ends_update_bind, ends_pure]
    refine hρ.trans hw' (hρ.learns (fun _ => ⟨rfl, rfl, rfl, rfl⟩) ?_ hcalm h.1 (h.2.1 hmine))
    exact hlives
  | error error =>
    rw [ends_update_bind, ends_throw]
    exact hρ.trans hw' (hρ.teardown _ (hρ.secret_lasts hw' hw))

theorem watchOn {owner : ViewModelId} (howner : hosts owner) (path : Path) (reaction : Reaction Code) :
    Moves secret ρ (watchOn c owner path reaction) := by
  intro w hw
  unfold Engine.watchOn
  rw [ends_inspect_bind]
  exact hc.watch hρ (hρ.viewModels howner hw) _ path reaction w hw

theorem react (reaction : Reaction Code) (value : Value) : Moves secret ρ (react c reaction value) := by
  cases reaction with
  | render updater node => exact hρ.fringes fun w => World.fringe_display w updater node value
  | interpolate template root tracker node =>
    refine (hc.renderTemplate hρ template root (some tracker)).bind hρ.secretly fun text => ?_
    exact hρ.fringes fun w => World.fringe_setText w node text
  | run code =>
    unfold Engine.react
    rw [hc.left]
    exact hc.run (hc.programs.callback code value)

/-- A watcher that has learnt a value reacts to it with its tracker paused. -/
theorem reacting {w₀ w : World Code Memory} {id : WatcherId} (hlives : ¬ w₀.IsOver (.watcher id)) (hw₀ : calm w₀)
    (hbefore : ρ w₀ w) (hmine : mine (w.watcher id).tracker) (value : Value) {knows : World Code Memory}
    (hknows : knows = w.mapWatcher id fun x => { x with cached := value, fires := x.fires + 1 }) :
    Ends knows (keeping value.refs (framed (some (w.watcher id).tracker) none (do
        Engine.note c (.reacting id value)
        Engine.react c (w.watcher id).reaction value)))
      (keeping value.refs (framed (some (w.watcher id).tracker) none (do
        Engine.note c (.reacting id value)
        Engine.react c (w.watcher id).reaction value))) fun _ => ρ w := by
  have hw := hρ.calm_lasts hbefore hw₀
  have hlearns : ρ w knows := hknows ▸ hρ.learns (fun _ => ⟨rfl, rfl, rfl, rfl⟩) hlives hw₀ hbefore hmine
  have hstart := hρ.trans hlearns (hρ.calmly.held knows (value.refs ++ knows.held))
  have htracker : (knows.watcher id).tracker = (w.watcher id).tracker := by
    rw [hknows, World.watcher_mapWatcher, if_pos rfl]
  refine Ends.keeping _ (R := fun _ => ρ w) ?_ fun _ _ h => hρ.trans h (hρ.calmly.held _ _)
  generalize hw₁ : { knows with held := value.refs ++ knows.held } = w₁ at hstart ⊢
  have hcalm := hρ.calm_lasts hstart hw
  have hpaused : secret (w₁.mapTracker (w.watcher id).tracker (·.push none)) := hρ.pauses (.inl ⟨hmine, hcalm⟩)
  refine Ends.framed _ none (R := fun _ => ρ (w₁.mapTracker (w.watcher id).tracker (·.push none))) ?_
    fun _ _ h => hρ.trans hstart (hρ.resumes hcalm h)
  have hframed : Occurrence.Framed (w₁.mapTracker (w.watcher id).tracker (·.push none)) (.reacting id value) := by
    have hsame : ((w₁.mapTracker (w.watcher id).tracker (·.push none)).watcher id).tracker
        = (w.watcher id).tracker := by
      rw [← hw₁]
      exact htracker
    rw [framed_reacting, hsame, World.tracker_mapTracker, if_pos rfl]
    rfl
  have hnote := hρ.note hframed (hρ.calm_of_secret hpaused)
  unfold Engine.note
  rw [ends_update_bind, hc.left]
  exact (hc.react hρ _ value _ (hρ.secret_lasts hnote hpaused)).mono fun _ _ h => hρ.trans hnote h

theorem updateWatcher (id : WatcherId) : Moves calm ρ (updateWatcher c id) := by
  refine Moves.keeping hρ.calmly _ fun w hw => ?_
  rw [ends_inspect_bind]
  cases hdisposed : (w.watcher id).disposed with
  | true => exact (ends_pure ()).mpr (hρ.refl w)
  | false =>
    have hlives : ¬ w.IsOver (.watcher id) := by
      rintro ⟨_, hid, hover⟩
      cases hid
      rw [hdisposed] at hover
      cases hover
    refine (hc.evaluateWatcher hρ hw hlives).bind (fun value w' h => ?_) fun _ _ h => h.1
    rw [ends_inspect_bind]
    split
    · exact (ends_pure ()).mpr h.1
    · next hchanged =>
      have hmine : mine (w'.watcher id).tracker := by
        rcases hρ.watchers id hw with hmine | hblank
        · exact h.2.1 hmine
        · obtain ⟨hcached, hvalue⟩ := h.2.2 hblank
          rw [hcached, hvalue value rfl] at hchanged
          exact absurd rfl hchanged
      rw [ends_update_bind]
      exact (hc.reacting hρ hlives hw h.1 hmine value rfl).mono fun _ _ h' => hρ.trans h.1 h'

/-! ### Telling and writing -/

theorem updateSubscriber (x : Subscriber) (hx : ∀ id, x ≠ .probe id) : Moves calm ρ (updateSubscriber c x) := by
  unfold Engine.updateSubscriber
  refine Moves.bind hρ.calmly (hc.note hρ fun _ => trivial) fun _ => ?_
  cases x with
  | watcher id => exact hc.updateWatcher hρ id
  | computed id =>
    refine Moves.bind hρ.calmly (Moves.update fun w _ => hρ.mapComputed w id fun _ => rfl) fun _ => ?_
    exact (Moves.inspect hρ.calmly _).bind hρ.calmly fun source => hc.notify source
  | probe id => exact absurd rfl (hx id)

theorem updateProbe (id : ProbeId) : Moves secret ρ (Engine.updateSubscriber c (.probe id)) := by
  unfold Engine.updateSubscriber
  refine Moves.bind hρ.secretly (hc.mentions hρ fun _ => trivial) fun _ => ?_
  refine (Moves.inspect hρ.secretly _).bind hρ.secretly fun code => ?_
  rw [hc.left]
  exact hc.run (hc.programs.update code)

/-- Telling the subscribers of a source: probes are among them only where programs may read anyway. -/
theorem notifying (source : SourceId) : Moves calm ρ (Engine.notify c source) := by
  intro w hw
  unfold Engine.notify
  rw [ends_inspect_bind, hc.left]
  generalize hlive : w.liveSubscribers (application.holds w.memory) source = live
  have htells : ρ w (w.mapSource source fun _ => ⟨live⟩) := hlive ▸ hρ.tells source hw
  have hlisted : ∀ x ∈ live, x ∈ (w.source source).subscribers := by
    rw [← hlive]
    exact fun _ hx => (List.mem_filter.mp hx).1
  rw [ends_update_bind]
  refine Ends.mono (R := fun _ => ρ (w.mapSource source fun _ => ⟨live⟩)) ?_ fun _ _ h => hρ.trans htells h
  by_cases hsecret : secret w
  · refine Moves.bind hρ.secretly (hc.mentions hρ fun _ => by trivial) (fun _ => ?_) _
      (hρ.secret_lasts htells hsecret)
    refine (Moves.failures hρ.secretly _ fun x _ => ?_).bind hρ.secretly fun _ => Moves.ofExcept hρ.secretly _
    by_cases hx : ∃ id, x = .probe id
    · obtain ⟨id, rfl⟩ := hx
      exact hc.updateProbe hρ id
    · exact (hc.updateSubscriber hρ x fun id h => hx ⟨id, h⟩).of_imp fun _ => hρ.calm_of_secret
  · refine Moves.bind hρ.calmly (hc.note hρ fun _ => by trivial) (fun _ => ?_) _ (hρ.calm_lasts htells hw)
    refine (Moves.failures hρ.calmly _ fun x hx => ?_).bind hρ.calmly fun _ => Moves.ofExcept hρ.calmly _
    exact hc.updateSubscriber hρ x fun id h => hsecret (hρ.probes hw (h ▸ hlisted x hx))

theorem tell (source : Option SourceId) : Moves calm ρ (tell c source) := by
  cases source with
  | none => exact Moves.pure hρ.calmly ()
  | some source => exact hc.notify source

theorem insert (object : ObjectId) (key : String) (value : Value) : Moves calm ρ (insert c object key value) := by
  refine Moves.keeping hρ.calmly _ (Moves.bind hρ.calmly ?_ fun source => hc.tell hρ source)
  exact Moves.create fun w _ => hρ.raises (World.raises_store w object key value)

theorem place (object : ObjectId) (key : String) (value : Value) : Moves calm ρ (place c object key value) :=
  (hc.insert hρ object key value).attempt.bind hρ.calmly fun _ => Moves.pure hρ.calmly ()

theorem set (object : ObjectId) (key : String) (value : Value) : Moves calm ρ (set c object key value) := by
  refine (Moves.inspect hρ.calmly _).bind hρ.calmly fun target => ?_
  obtain ⟨holder, name⟩ := target
  refine Moves.keeping hρ.calmly _ ((Moves.inspect hρ.calmly _).bind hρ.calmly fun slot? => ?_)
  rcases slot? with _ | (⟨old, source⟩ | id | constant | ⟨target, key⟩)
  · exact hc.insert hρ holder name value
  · simp only [writeSlot]
    split
    · exact Moves.pure hρ.calmly ()
    · refine Moves.bind hρ.calmly (Moves.update fun w _ => hρ.raises (World.raises_putSlot w holder name _)) fun _ => ?_
      cases source with
      | none => exact Moves.pure hρ.calmly ()
      | some source =>
        refine Moves.bind hρ.calmly (Moves.update fun w _ => hρ.raises (World.raises_observe w value)) fun _ => ?_
        exact Moves.keeping hρ.calmly _ (hc.notify source)
  · exact Moves.throw hρ.calmly _
  · exact Moves.throw hρ.calmly _
  · exact Moves.throw hρ.calmly _

/-- What a path is written to once its parents are walked. -/
theorem writeTarget (path : Path) (value target : Value) :
    Moves secret ρ (match target with
      | .object object => Engine.set c object path.last value
      | other => throw (path.faultAt (path.parents.getLastD path.last) other)) := by
  cases target with
  | object object => exact (hc.set hρ object path.last value).of_imp fun _ => hρ.calm_of_secret
  | _ => exact Moves.throw hρ.secretly _

/-- A write pauses the tracker first, so that it is private from then on. -/
theorem writePath_of_pauses {w : World Code Memory} (hw : calm w) {t : TrackerId}
    (ht : mine t ∨ secret w) (root : Value) (path : Path) (value : Value) :
    Ends w (writePath c root path value (some t)) (writePath c root path value (some t)) fun _ => ρ w := by
  have hpaused : secret (w.mapTracker t (·.push none)) := hρ.pauses (ht.imp_left fun h => ⟨h, hw⟩)
  refine Ends.framed t none (R := fun _ => ρ (w.mapTracker t (·.push none))) ?_ fun _ _ => hρ.resumes hw
  refine Moves.bind hρ.secretly (Moves.keeping hρ.secretly _ ?_) (hc.writeTarget hρ path value) _ hpaused
  exact hc.walk hρ path (some t) path.parents none root

theorem writePath (root : Value) (path : Path) (value : Value) (reader : Option TrackerId) :
    Moves secret ρ (writePath c root path value reader) := by
  cases reader with
  | none =>
    exact Moves.bind hρ.secretly (Moves.keeping hρ.secretly _ (hc.walk hρ path none path.parents none root))
      (hc.writeTarget hρ path value)
  | some t => exact fun w hw => hc.writePath_of_pauses hρ (hρ.calm_of_secret hw) (.inr hw) root path value

theorem writeOn (owner : ViewModelId) (path : Path) (value : Value) : Moves secret ρ (writeOn c owner path value) :=
  (Moves.inspect hρ.secretly _).bind hρ.secretly fun vm => hc.writePath hρ (.object vm.root) path value (some vm.tracker)

/-! ### Calling -/

theorem callMethod (owner : ViewModelId) (method : String) (event : Event) :
    Moves secret ρ (callMethod c owner method event) := by
  unfold Engine.callMethod
  refine Moves.bind hρ.secretly (hc.mentions hρ fun _ => trivial) fun _ => ?_
  refine (Moves.inspect hρ.secretly _).bind hρ.secretly fun vm => ?_
  refine (hc.get hρ vm.root method none).bind hρ.secretly fun value => ?_
  cases value with
  | function id name =>
    refine (Moves.inspect hρ.secretly _).bind hρ.secretly fun code => ?_
    rw [hc.left]
    exact hc.run (hc.programs.method code owner event)
  | _ => exact Moves.throw hρ.secretly _

omit hc in
theorem onLiving (owner : ViewModelId) {x : Engine Code Memory α} (hx : Moves secret ρ x) :
    Moves secret ρ (onLiving c owner x) := by
  refine (Moves.inspect hρ.secretly _).bind hρ.secretly fun alive => ?_
  cases alive with
  | true => exact Moves.keeping hρ.secretly _ hx
  | false => exact Moves.throw hρ.secretly _

theorem handle (event : Event) (listener : Listener Code) : Moves secret ρ (handle c event listener) := by
  cases listener with
  | run code =>
    unfold Engine.handle
    rw [hc.left]
    exact hc.run (hc.programs.listener code event)
  | writeBack owner binding path =>
    refine (Moves.inspect hρ.secretly _).bind hρ.secretly fun active => ?_
    cases active with
    | true =>
      refine onLiving hρ owner ((Moves.inspect hρ.secretly _).bind hρ.secretly fun value => ?_)
      refine Moves.bind hρ.secretly (hc.mentions hρ fun _ => trivial) fun _ => ?_
      exact hc.writeOn hρ owner path value
    | false => exact Moves.pure hρ.secretly ()
  | invoke owner binding method =>
    refine (Moves.inspect hρ.secretly _).bind hρ.secretly fun active => ?_
    cases active with
    | true => exact onLiving hρ owner (hc.callMethod hρ owner method event)
    | false => exact Moves.pure hρ.secretly ()

theorem dispatch (node : NodeId) (event : String) : Moves secret ρ (dispatch c node event) := by
  refine Moves.keeping hρ.secretly _ ((Moves.inspect hρ.secretly _).bind hρ.secretly fun listeners => ?_)
  refine (Moves.failures hρ.secretly _ fun listener _ => ?_).bind hρ.secretly fun _ => Moves.ofExcept hρ.secretly _
  exact hc.handle hρ ⟨event, node⟩ listener

theorem input (node : NodeId) (value : Value) : Moves secret ρ (input c node value) := by
  refine Moves.bind hρ.secretly (hρ.fringes fun w => World.fringe_display w .value node value) fun _ => ?_
  exact hc.dispatch hρ node "input"

/-! ### Installing -/

section Installing

variable {owner : ViewModelId} (howner : hosts owner)

include howner

theorem watchFor (binding : BindingId) (path : Path) (reaction : Reaction Code) :
    Moves secret ρ (watchFor c owner binding path reaction) := by
  refine (hc.watchOn hρ howner path reaction).bind hρ.secretly fun watcher => ?_
  refine Moves.bind hρ.secretly (hρ.fringes fun w => World.fringe_tree w _ _ _) fun _ => ?_
  exact Moves.pure hρ.secretly watcher

omit hc howner in
theorem addBinding (f : World Code Memory → Binding) : Moves secret ρ (create fun w => w.addBinding (f w)) :=
  Moves.create fun w _ => hρ.fringe (World.fringe_tree w _ _ _)

theorem installRender (node : NodeId) (kind : DirectiveKind) (updater : Updater) (path : Path) :
    Moves secret ρ (installRender c owner node kind updater path) := by
  refine (addBinding hρ _).bind hρ.secretly fun binding => Moves.keeping hρ.secretly _ ?_
  refine (hc.watchFor hρ howner binding path _).bind hρ.secretly fun watcher => ?_
  refine Moves.bind hρ.secretly (hρ.fringes fun w => World.fringe_display w updater node _) fun _ => ?_
  exact Moves.pure hρ.secretly binding

theorem installModel (node : NodeId) (directive : Directive) :
    Moves secret ρ (installModel c owner node directive) := by
  refine (Moves.ofExcept hρ.secretly _).bind hρ.secretly fun path => ?_
  refine (hc.installRender hρ howner node .model .value path).bind hρ.secretly fun binding => ?_
  refine Moves.bind hρ.secretly (hρ.fringes fun w => World.fringe_tree w _ _ _) fun _ => ?_
  exact Moves.pure hρ.secretly binding

omit howner in
theorem installOn (node : NodeId) (directive : Directive) : Moves secret ρ (installOn c owner node directive) := by
  unfold Engine.installOn
  cases directive.argument with
  | none => exact Moves.throw hρ.secretly _
  | some event =>
    refine (Moves.inspect hρ.secretly _).bind hρ.secretly fun vm => ?_
    refine (hc.get hρ vm.root _ none).bind hρ.secretly fun value => ?_
    cases value with
    | function id name =>
      refine (addBinding hρ _).bind hρ.secretly fun binding => ?_
      refine Moves.bind hρ.secretly (hρ.fringes fun w => World.fringe_tree w _ _ _) fun _ => ?_
      exact Moves.pure hρ.secretly binding
    | _ => exact Moves.throw hρ.secretly _

theorem install (installer : Installer Code) (node : NodeId) (directive : Directive) :
    Moves secret ρ (install c installer owner node directive) := by
  cases installer with
  | model => exact hc.installModel hρ howner node directive
  | on => exact hc.installOn hρ node directive
  | render updater =>
    exact (Moves.ofExcept hρ.secretly _).bind hρ.secretly fun path =>
      hc.installRender hρ howner node directive.kind updater path
  | custom code =>
    unfold Engine.install
    rw [hc.left]
    exact hc.run (hc.programs.install code owner node directive)

theorem watchPlaceholders (binding : BindingId) (reaction : Reaction Code) (paths : List Path) :
    Moves secret ρ (watchPlaceholders c owner binding reaction paths) := by
  induction paths with
  | nil => exact Moves.pure hρ.secretly ()
  | cons path rest inductionHypothesis =>
    exact (hc.watchFor hρ howner binding path reaction).bind hρ.secretly fun _ => inductionHypothesis

theorem installInterpolation (node : NodeId) (text : String) :
    Moves secret ρ (installInterpolation c owner node text) := by
  refine (Moves.inspect hρ.secretly _).bind hρ.secretly fun vm => ?_
  refine (Moves.ofExcept hρ.secretly _).bind hρ.secretly fun template => ?_
  refine (addBinding hρ _).bind hρ.secretly fun binding => Moves.keeping hρ.secretly _ ?_
  refine (hc.watchPlaceholders hρ howner binding _ template.paths).bind hρ.secretly fun _ => ?_
  refine (hρ.pausing vm.tracker ?_).bind hρ.secretly fun _ => Moves.pure hρ.secretly binding
  refine (hc.renderTemplate hρ template (.object vm.root) (some vm.tracker)).bind hρ.secretly fun shown => ?_
  exact hρ.fringes fun w => World.fringe_setText w node shown

/-! ### Compiling and mounting -/

theorem installAttribute (node : NodeId) (name value : String) :
    Moves secret ρ (installAttribute c owner node name value) := by
  refine (Moves.inspect hρ.secretly _).bind hρ.secretly fun vm => ?_
  refine (Moves.ofExcept hρ.secretly _).bind hρ.secretly fun directive? => ?_
  cases directive? with
  | none => exact Moves.pure hρ.secretly none
  | some directive =>
    simp only
    cases vm.registry.find? directive.kind with
    | none => exact Moves.throw hρ.secretly _
    | some installer =>
      exact (hc.install hρ howner installer node directive).bind hρ.secretly fun _ => Moves.pure hρ.secretly _

theorem installAttributes (node : NodeId) (attributes : List (String × String)) :
    Moves secret ρ (installAttributes c owner node attributes) := by
  induction attributes with
  | nil => exact Moves.pure hρ.secretly _
  | cons pair rest inductionHypothesis =>
    obtain ⟨name, value⟩ := pair
    refine (hc.installAttribute hρ howner node name value).attempt.bind hρ.secretly fun result => ?_
    rcases result with error | _ | binding
    · refine (Moves.inspect hρ.secretly _).bind hρ.secretly fun error => ?_
      exact inductionHypothesis.bind hρ.secretly fun _ => Moves.pure hρ.secretly _
    · exact inductionHypothesis
    · exact (Moves.keeping hρ.secretly _ inductionHypothesis).bind hρ.secretly fun _ => Moves.pure hρ.secretly _

end Installing

omit hc in
theorem teardownBinding {w : World Code Memory} (id : BindingId) (hw : secret w) : ρ w (w.teardownBinding id) := by
  have hfold : ∀ (l : List WatcherId) (v : World Code Memory), ρ w v → ρ w (l.foldl World.teardownWatcher v) := by
    intro l
    induction l with
    | nil => exact fun _ h => h
    | cons watcher rest inductionHypothesis =>
      exact fun v h => inductionHypothesis _ (hρ.trans h (hρ.teardown watcher (hρ.secret_lasts h hw)))
  exact hfold _ _ (hρ.fringe (World.fringe_tree w _ _ _))

omit hc in
theorem teardownBindings (l : List BindingId) {w : World Code Memory} (hw : secret w) :
    ρ w (l.foldl World.teardownBinding w) := by
  induction l generalizing w with
  | nil => exact hρ.refl w
  | cons binding rest inductionHypothesis =>
    have hfirst := teardownBinding hρ binding hw
    exact hρ.trans hfirst (inductionHypothesis (hρ.secret_lasts hfirst hw))

omit hc in
theorem unmount {w : World Code Memory} (owner : ViewModelId) (node : NodeId) (hw : secret w) :
    ρ w (w.unmount owner node).2 := by
  have hforget : ρ w (w.mapViewModel owner fun vm =>
      { vm with bindings := (w.unmountOrder node).foldl Entries.erase vm.bindings }) :=
    hρ.fringe (World.fringe_mapViewModel w owner fun _ => rfl)
  exact hρ.trans hforget (teardownBindings hρ _ (hρ.secret_lasts hforget hw))

section Compiling

variable {owner : ViewModelId} (howner : hosts owner)

include howner

theorem compileElement (node : NodeId) : Moves secret ρ (compileElement c owner node) := by
  refine (Moves.inspect hρ.secretly _).bind hρ.secretly fun bound => ?_
  cases bound with
  | true => exact Moves.pure hρ.secretly _
  | false =>
    refine (Moves.inspect hρ.secretly _).bind hρ.secretly fun attributes => ?_
    refine (hc.installAttributes hρ howner node attributes).bind hρ.secretly fun result => ?_
    obtain ⟨bindings, errors⟩ := result
    simp only
    split
    · refine Moves.bind hρ.secretly (hρ.fringes fun w => World.fringe_record w owner node bindings) fun _ => ?_
      exact Moves.pure hρ.secretly _
    · refine Moves.bind hρ.secretly (Moves.update fun w hw => teardownBindings hρ bindings hw) fun _ => ?_
      exact Moves.pure hρ.secretly _

theorem compileText (node : NodeId) : Moves secret ρ (compileText c owner node) := by
  refine (Moves.inspect hρ.secretly _).bind hρ.secretly fun bound => ?_
  cases bound with
  | true => exact Moves.pure hρ.secretly _
  | false =>
    refine (Moves.inspect hρ.secretly _).bind hρ.secretly fun text => ?_
    refine (Moves.inspect hρ.secretly _).bind hρ.secretly fun vm => ?_
    split
    · exact Moves.pure hρ.secretly _
    · refine (hc.installInterpolation hρ howner node text).attempt.bind hρ.secretly fun result => ?_
      cases result with
      | ok binding =>
        refine Moves.bind hρ.secretly (hρ.fringes fun w => World.fringe_record w owner node [binding]) fun _ => ?_
        exact Moves.pure hρ.secretly _
      | error error => exact (Moves.inspect hρ.secretly _).bind hρ.secretly fun _ => Moves.pure hρ.secretly _

theorem compileNodes (depth : Nat) (nodes : List NodeId) : Moves secret ρ (compileNodes c owner depth nodes) := by
  induction depth generalizing nodes with
  | zero => exact Moves.exhausted
  | succ depth inductionHypothesis =>
    refine Moves.keeping hρ.secretly _ (Moves.tallyAll hρ.secretly (fun node => ?_) nodes)
    refine (Moves.inspect hρ.secretly _).bind hρ.secretly fun isElement => ?_
    cases isElement with
    | true =>
      refine (hc.compileElement hρ howner node).bind hρ.secretly fun result => ?_
      obtain ⟨here, descend⟩ := result
      cases descend with
      | true =>
        refine (Moves.inspect hρ.secretly _).bind hρ.secretly fun children => ?_
        exact (inductionHypothesis children).bind hρ.secretly fun _ => Moves.pure hρ.secretly _
      | false => exact Moves.pure hρ.secretly _
    | false => exact hc.compileText hρ howner node

theorem compile (node : NodeId) : Moves secret ρ (compile c owner node) := by
  refine Moves.keeping hρ.secretly _ ((Moves.inspect hρ.secretly _).bind hρ.secretly fun children => ?_)
  exact (hc.compileNodes hρ howner c.depth children).bind hρ.secretly fun tally => Moves.ofExcept hρ.secretly _

theorem compileDetached (node : NodeId) : Moves secret ρ (compileDetached c owner node) := by
  refine Moves.keeping hρ.secretly _ ((Moves.inspect hρ.secretly _).bind hρ.secretly fun children => ?_)
  refine Moves.bind hρ.secretly (hρ.fringes fun w => World.fringe_tree w _ _ _) fun _ => ?_
  refine (hc.compileNodes hρ howner c.depth children).bind hρ.secretly fun tally => ?_
  refine Moves.bind hρ.secretly (hρ.fringes fun w => World.fringe_tree w _ _ _) fun _ => ?_
  exact Moves.ofExcept hρ.secretly _

theorem mount (target : Target) : Moves secret ρ (mount c owner target) := by
  refine Moves.keeping hρ.secretly _ ((Moves.inspect hρ.secretly _).bind hρ.secretly fun vm => ?_)
  refine (Moves.inspect hρ.secretly _).bind hρ.secretly fun node? => ?_
  refine (Moves.ofExcept hρ.secretly _).bind hρ.secretly fun node => ?_
  refine Moves.bind hρ.secretly (hρ.fringes fun w => World.fringe_mapViewModel w owner fun _ => rfl) fun _ => ?_
  exact hc.compileDetached hρ howner node

end Compiling

theorem construct {options : Options Code} (hok : ok (.newViewModel options)) :
    Moves secret ρ (construct c options) := by
  refine Moves.keeping hρ.secretly _ ((Moves.inspect hρ.secretly _).bind hρ.secretly fun data? => ?_)
  refine (Moves.ofExcept hρ.secretly _).bind hρ.secretly fun data => ?_
  refine (Moves.create fun w hw => hρ.assemble data hok hw).bind hρ.secretly fun owner => ?_
  cases options.target with
  | none => exact Moves.pure hρ.secretly _
  | some target =>
    exact (hc.mount hρ (hρ.serves hok trivial) target).bind hρ.secretly fun _ => Moves.pure hρ.secretly _

/-! ### Requests and programs -/

theorem fulfil {request : Request Code Memory} (hplain : ¬ request.Guards) (hok : ok request) :
    Moves secret ρ (fulfil c request) := by
  have hmargin : ∀ {f : World Code Memory → World Code Memory}, (∀ w : World Code Memory, w.Margin (f w)) →
      Moves secret ρ (update f) := fun hf => hρ.fringes fun w => (hf w).fringe
  have hrows : ∀ {β : Type} {f : World Code Memory → β × World Code Memory},
      (∀ w : World Code Memory, w.Raises (f w).2) → Moves secret ρ (create f) :=
    fun hf => Moves.create fun w _ => hρ.raises (hf w)
  have htree : ∀ {β : Type} {f : World Code Memory → β × World Code Memory},
      (∀ w : World Code Memory, w.Fringe (f w).2) → Moves secret ρ (create f) :=
    fun hf => Moves.create fun w _ => hρ.fringe (hf w)
  have hcalm : ∀ {β : Type} {x : Engine Code Memory β}, Moves calm ρ x → Moves secret ρ x :=
    fun h => h.of_imp fun _ => hρ.calm_of_secret
  have hkeeping : ∀ {β : Type} (refs : List Ref) {x : Engine Code Memory β}, Moves secret ρ x →
      Moves secret ρ (keeping refs x) := fun refs _ => Moves.keeping hρ.secretly refs
  have hpath : ∀ {β : Type} (expression : String) {x : Path → Engine Code Memory β}, (∀ path, Moves secret ρ (x path)) →
      Moves secret ρ (withPath expression x) := fun _ _ hx => (Moves.ofExcept hρ.secretly _).bind hρ.secretly hx
  cases request with
  | newObject => exact hrows fun w => World.raises_of_eq rfl rfl rfl rfl rfl rfl rfl rfl
  | newArray items => exact hrows fun w => World.raises_of_eq rfl rfl rfl rfl rfl rfl rfl rfl
  | newFunction name code => exact hrows fun w => World.raises_of_eq rfl rfl rfl rfl rfl rfl rfl rfl
  | load json => exact hrows fun w => World.raises_load w json
  | place object key value => exact hcalm (hc.place hρ object key value)
  | insert object key value => exact hcalm (hc.insert hρ object key value)
  | set object key value => exact hcalm (hc.set hρ object key value)
  | get object key reader => exact hc.get hρ object key reader
  | observe value => exact Moves.update fun w _ => hρ.raises (World.raises_observe w value)
  | readPath root path reader => exact hkeeping _ (hc.readPath hρ root path reader)
  | writePath root path value reader => exact hkeeping _ (hc.writePath hρ root path value reader)
  | renderTemplate template root reader => exact hkeeping _ (hc.renderTemplate hρ template root reader)
  | newTracker => exact hrows World.raises_addTracker
  | enter tracker frame => exact absurd trivial hplain
  | leave tracker => exact absurd trivial hplain
  | depend tracker source => exact hc.depend hρ (some tracker) source
  | newSource => exact hrows World.raises_addSource
  | register source subscriber => exact Moves.update fun w hw => hρ.register hok hw
  | unregister source subscriber => exact Moves.update fun w hw => hρ.unregister hok hw
  | notify source => exact hcalm (hc.notify source)
  | newProbe code => exact hrows fun w => World.raises_of_eq rfl rfl rfl rfl rfl rfl rfl rfl
  | watch tracker root path code => exact hc.watch hρ (hρ.watch hok) root path (.run code)
  | watchOn owner path code => exact hkeeping _ (hc.watchOn hρ (hρ.serves hok rfl) path (.run code))
  | updateWatcher id => exact hcalm (hc.updateWatcher hρ id)
  | teardownWatcher id => exact Moves.update fun w hw => hρ.teardown id hw
  | newComputed name tracker memoize code =>
    exact hrows fun w => (World.raises_addSource w).trans (World.raises_addComputed _ _ rfl)
  | readComputed id reader => exact hc.readComputed hρ id reader
  | newElement tag attributes children => exact htree fun w => (World.margin_newElement w tag attributes children).fringe
  | newText content => exact htree fun w => (World.margin_newText w content).fringe
  | display updater node value => exact hmargin fun w => World.margin_display w updater node value
  | takeChildren node => exact htree fun w => (World.margin_setChildren w node []).fringe
  | appendChildren node children => exact hmargin fun w => World.margin_appendChildren w node children
  | listen node event code => exact hmargin fun w => World.margin_listen w node event code
  | dispatch node event => exact hc.dispatch hρ node event
  | input node value => exact hkeeping _ (hc.input hρ node value)
  | newViewModel options => exact hc.construct hρ hok
  | read owner expression => exact hkeeping _ (hpath expression fun path => hc.readOn hρ owner path)
  | write owner expression value => exact hkeeping _ (hpath expression fun path => hc.writeOn hρ owner path value)
  | call owner method event => exact hkeeping _ (hc.callMethod hρ owner method event)
  | render owner text => exact hkeeping _ (hc.renderOn hρ owner text)
  | mount owner target => exact hc.mount hρ (hρ.serves hok rfl) target
  | compile owner node => exact hc.compile hρ (hρ.serves hok rfl) node
  | unmount owner node => exact Moves.create fun w hw => unmount hρ owner node hw
  | install installer owner node directive =>
    exact hkeeping _ (hc.install hρ (hρ.serves hok rfl) installer node directive)
  | newBinding node kind expression => exact htree fun w => World.fringe_tree w _ _ _
  | teardownBinding id => exact Moves.update fun w hw => teardownBinding hρ id hw
  | hold refs => exact hmargin fun w => World.margin_held w _
  | release refs => exact hmargin fun w => World.margin_held w _
  | remember f => exact Moves.update fun w hw => hρ.remember hok hw

end Conducts

/-- However many of the frames that a program has put on the stacks are taken away, the world is private. -/
def Covered (secret : World Code Memory → Prop) (guards : List TrackerId) (w : World Code Memory) : Prop :=
  ∀ n : TrackerId → Nat, (∀ t, n t ≤ guards.count t) → secret (w.lowered n)

omit [Inhabited Code] in
theorem count_cons_eq (guards : List TrackerId) (t j : TrackerId) :
    (t :: guards).count j = if j = t then guards.count j + 1 else guards.count j := by
  by_cases h : j = t
  · rw [if_pos h, h, List.count_cons_self]
  · rw [if_neg h, List.count_cons_of_ne (Ne.symm h)]

theorem count_eq_erase {guards : List TrackerId} {t : TrackerId} (hmem : t ∈ guards) (j : TrackerId) :
    guards.count j = if j = t then (guards.erase t).count j + 1 else (guards.erase t).count j := by
  rw [← count_cons_eq]
  exact (List.perm_cons_erase hmem).count_eq j

namespace Conduct

variable (hρ : Conduct application ok mine hosts calm secret ρ)

include hρ

/-- Two ways to write down the same stacks. -/
theorem restack {w w₁ : World Code Memory} (hrest : w₁ = { w with trackers := w₁.trackers })
    (htracker : ∀ t, w₁.tracker t = w.tracker t) : ρ w w₁ :=
  hρ.builds (World.builds_of_tracker hrest htracker) fun owner => by rw [hrest]; rfl

theorem covered_nil {w : World Code Memory} (hw : secret w) : Covered secret [] w := by
  intro n hn
  refine hρ.secret_lasts (hρ.restack rfl fun t => ?_) hw
  rw [World.tracker_lowered, Nat.le_zero.mp (hn t)]
  rfl

theorem secret_of_covered {w : World Code Memory} {guards : List TrackerId} (h : Covered secret guards w) :
    secret w := by
  refine hρ.secret_lasts (hρ.restack (w := w.lowered fun _ => 0) rfl fun t => ?_) (h (fun _ => 0) fun _ => Nat.zero_le _)
  rw [World.tracker_lowered]
  rfl

/-- A frame that is pushed is one more that can be taken away. -/
theorem restack_push (w : World Code Memory) {t : TrackerId} (frame : Frame) {n m : TrackerId → Nat}
    (hm : ∀ j, m j = if j = t then n j + 1 else n j) :
    ρ (w.lowered n) ((w.mapTracker t (·.push frame)).lowered m) := by
  refine hρ.restack rfl fun j => ?_
  rw [World.tracker_lowered, World.tracker_lowered, World.tracker_mapTracker, hm]
  split
  · next h => rw [h]; rfl
  · rfl

/-- A frame that is popped was one that can be taken away. -/
theorem restack_pop (w : World Code Memory) {t : TrackerId} {n m : TrackerId → Nat}
    (hm : ∀ j, m j = if j = t then n j + 1 else n j) :
    ρ (w.lowered m) ((w.mapTracker t (·.pop)).lowered n) := by
  refine hρ.restack rfl fun j => ?_
  rw [World.tracker_lowered, World.tracker_lowered, World.tracker_mapTracker, hm]
  split
  · next h =>
    rw [h]
    exact congrArg Tracker.mk List.drop_tail
  · rfl

theorem covered_push {w : World Code Memory} {guards : List TrackerId} {t : TrackerId} {frame : Frame}
    (hok : ok (.enter t frame)) (h : Covered secret guards w) :
    Covered secret (t :: guards) (w.mapTracker t (·.push frame)) := by
  intro n hn
  have hcount : ∀ j, n j ≤ if j = t then guards.count j + 1 else guards.count j :=
    fun j => count_cons_eq guards t j ▸ hn j
  by_cases ht : n t = 0
  · have hle : ∀ j, n j ≤ guards.count j := by
      intro j
      have hj := hcount j
      split at hj
      · next heq =>
        rw [heq, ht]
        exact Nat.zero_le _
      · exact hj
    have hentered := hρ.enters hok (h n hle)
    refine hρ.secret_lasts (hρ.restack (w := (w.lowered n).mapTracker t (·.push frame)) rfl fun j => ?_) hentered
    rw [World.tracker_lowered, World.tracker_mapTracker, World.tracker_mapTracker]
    by_cases hj : j = t
    · rw [if_pos hj, if_pos hj, hj, ht, World.tracker_lowered, ht]
      rfl
    · rw [if_neg hj, if_neg hj, World.tracker_lowered]
  · refine hρ.secret_lasts (hρ.restack_push w frame fun j => ?_) (h (fun j => if j = t then n j - 1 else n j) fun j => ?_)
    · split
      · next heq => rw [heq, Nat.sub_add_cancel (Nat.pos_of_ne_zero ht)]
      · rfl
    · have hj := hcount j
      split
      · next heq =>
        rw [if_pos heq] at hj
        exact Nat.sub_le_of_le_add hj
      · next heq => rwa [if_neg heq] at hj

theorem covered_pop {w : World Code Memory} {guards : List TrackerId} {t : TrackerId} (hmem : t ∈ guards)
    (h : Covered secret guards w) : Covered secret (guards.erase t) (w.mapTracker t (·.pop)) := by
  intro n hn
  refine hρ.secret_lasts (hρ.restack_pop w fun _ => rfl) (h _ fun j => ?_)
  have hj := hn j
  rw [count_eq_erase hmem j]
  split
  · exact Nat.succ_le_succ hj
  · exact hj

end Conduct

namespace Conducts

variable (hρ : Conduct application ok mine hosts calm secret ρ) (hc : Conducts application ok calm secret ρ c)

include hρ hc

/-- Following a program that has frames on the stacks: the world after is related to the one before without them. -/
theorem follow_covered {program : Program Code Memory α} {guards : List TrackerId}
    (hprogram : program.Closes ok guards) {w : World Code Memory} (hw : Covered secret guards w) :
    Ends w (follow c program) (follow c program) fun _ => ρ (w.lowered guards.count) := by
  induction hprogram generalizing w with
  | done result =>
    refine (ends_pure _).mpr (hρ.restack rfl fun t => ?_)
    rw [World.tracker_lowered]
    rfl
  | fail error =>
    refine (ends_throw _).mpr (hρ.restack rfl fun t => ?_)
    rw [World.tracker_lowered]
    rfl
  | look _ inductionHypothesis => exact inductionHypothesis w hw
  | @enter guards tracker frame next hok _ inductionHypothesis =>
    refine Ends.mono (inductionHypothesis (hρ.covered_push hok hw)) fun _ _ h => hρ.trans ?_ h
    exact hρ.restack_push w frame (count_cons_eq guards tracker)
  | leave hmem _ inductionHypothesis =>
    refine Ends.mono (inductionHypothesis (hρ.covered_pop hmem hw)) fun _ _ h => hρ.trans ?_ h
    exact hρ.restack_pop w (count_eq_erase hmem)
  | ask hplain hok _ inductionHypothesis =>
    refine (hc.fulfil hρ hplain hok w (hρ.secret_of_covered hw)).attempt_bind fun answer w₁ h => ?_
    have hsecret := hρ.secret_of_covered hw
    have hw₁ : Covered secret _ w₁ := fun n hn => hρ.secret_lasts (hρ.lowers n hsecret h) (hw n hn)
    exact (inductionHypothesis answer hw₁).mono fun _ _ h' => hρ.trans (hρ.lowers _ hsecret h) h'

theorem follow {program : Program Code Memory α} (hprogram : program.Closes ok []) :
    Moves secret ρ (follow c program) := by
  intro w hw
  refine (hc.follow_covered hρ hprogram (hρ.covered_nil hw)).mono fun _ _ h => hρ.trans (hρ.restack rfl fun t => ?_) h
  rw [World.tracker_lowered]
  rfl

end Conducts

/-- However deep the engine is entered again, it keeps to the rules. -/
theorem Conduct.conducts (hρ : Conduct application ok mine hosts calm secret ρ) (hprograms : application.Closes ok)
    (depth : Nat) : Conducts application ok calm secret ρ (reentry application depth) := by
  induction depth with
  | zero => exact ⟨hprograms, rfl, fun _ => Moves.exhausted, fun _ => Moves.exhausted⟩
  | succ depth inductionHypothesis =>
    exact ⟨hprograms, rfl, inductionHypothesis.notifying hρ, inductionHypothesis.follow hρ⟩

end Operations

end Engine

end ViewBinding
