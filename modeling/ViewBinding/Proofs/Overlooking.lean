import ViewBinding.Proofs.Aside
import ViewBinding.Proofs.Unsupervised

/-!
# Steps that overlook nodes

A step overlooks a change of the nodes if it makes no difference whether the nodes are changed before the
step or after it. Reading does not look at nodes at all, unless a getter does.
-/

namespace ViewBinding

variable {Code Memory : Type}

/-- The world with its nodes changed. -/
def World.recast (f : Table NodeId (Node Code) → Table NodeId (Node Code)) (w : World Code Memory) :
    World Code Memory :=
  { w with nodes := f w.nodes }

/-- Programs that only read, and see the same when the nodes are changed. -/
inductive Program.Overlooks (f : Table NodeId (Node Code) → Table NodeId (Node Code)) {α : Type} :
    Program Code Memory α → Prop
  | done (result : α) : Overlooks f (.done result)
  | fail (error : Error) : Overlooks f (.fail error)
  | look {next : World Code Memory → Program Code Memory α}
      (hsame : ∀ w : World Code Memory, next (w.recast f) = next w) (hnext : ∀ w, Overlooks f (next w)) :
      Overlooks f (.look next)
  | ask {request : Request Code Memory} {next : Except Error request.Answer → Program Code Memory α}
      (hreads : request.ReadsOnly) (hnext : ∀ answer, Overlooks f (next answer)) :
      Overlooks f (.ask request next)

/-- An embedder whose getters only read and overlook a change of the nodes, as its notes do. -/
structure Application.Overlooks (f : Table NodeId (Node Code) → Table NodeId (Node Code))
    (application : Application Code Memory) : Prop where
  notes (o : Occurrence) (w : World Code Memory) :
    application.notes o (w.recast f) = application.notes o w
  getter (code : Code) (owner? : Option ViewModelId) : (application.getter code owner?).Overlooks f

namespace Engine

variable {f : Table NodeId (Node Code) → Table NodeId (Node Code)} {w : World Code Memory} {α β : Type}

/-- Whether the nodes are changed before `x` or after it makes no difference, and `Q` holds of what `x`
ends in if they are not changed. -/
def Overlooks (f : Table NodeId (Node Code) → Table NodeId (Node Code)) (w : World Code Memory)
    (x : Engine Code Memory α) (Q : Except Error α → World Code Memory → Prop) : Prop :=
  x (w.recast f) = (x w).map (fun (r, v) => (r, v.recast f)) ∧ ∀ r v, x w = some (r, v) → Q r v

section Rules

variable {x : Engine Code Memory α} {g : α → Engine Code Memory β}
  {Q R : Except Error α → World Code Memory → Prop} {P : Except Error β → World Code Memory → Prop}

theorem Overlooks.mono (h : Overlooks f w x R) (hQ : ∀ r v, R r v → Q r v) : Overlooks f w x Q :=
  ⟨h.1, fun r v hx => hQ r v (h.2 r v hx)⟩

theorem overlooks_pure {a : α} (h : Q (.ok a) w) : Overlooks f w (pure a) Q :=
  ⟨rfl, fun _ _ hx => by cases hx; exact h⟩

theorem overlooks_throw {e : Error} (h : Q (.error e) w) : Overlooks f w (throw e) Q :=
  ⟨rfl, fun _ _ hx => by cases hx; exact h⟩

theorem overlooks_ofExcept {r : Except Error α} (h : Q r w) : Overlooks f w (ofExcept r) Q :=
  ⟨rfl, fun _ _ hx => by cases hx; exact h⟩

theorem overlooks_exhausted : Overlooks f w (exhausted : Engine Code Memory α) Q :=
  ⟨rfl, fun _ _ hx => by cases hx⟩

theorem overlooks_inspect {see : World Code Memory → α} (hsee : see (w.recast f) = see w)
    (h : Q (.ok (see w)) w) : Overlooks f w (inspect see) Q := by
  refine ⟨?_, fun _ _ hx => by cases hx; exact h⟩
  change some (Except.ok (see (w.recast f)), w.recast f) = _
  rw [hsee]
  rfl

theorem overlooks_update {u : World Code Memory → World Code Memory}
    {Q : Except Error Unit → World Code Memory → Prop} (hu : u (w.recast f) = (u w).recast f)
    (h : Q (.ok ()) (u w)) : Overlooks f w (update u) Q := by
  refine ⟨?_, fun _ _ hx => by cases hx; exact h⟩
  change some (Except.ok (), u (w.recast f)) = _
  rw [hu]
  rfl

theorem overlooks_create {u : World Code Memory → α × World Code Memory}
    (hu : u (w.recast f) = ((u w).1, (u w).2.recast f)) (h : Q (.ok (u w).1) (u w).2) :
    Overlooks f w (create u) Q := by
  refine ⟨?_, fun _ _ hx => by cases hx; exact h⟩
  change some (Except.ok (u (w.recast f)).1, (u (w.recast f)).2) = _
  rw [hu]
  rfl

theorem overlooks_inspect_bind {see : World Code Memory → α} (hsee : see (w.recast f) = see w)
    (h : Overlooks f w (g (see w)) P) : Overlooks f w (inspect see >>= g) P := by
  change g (see (w.recast f)) (w.recast f) = (g (see w) w).map _ ∧ _
  rw [hsee]
  exact h

theorem Overlooks.bind (hx : Overlooks f w x R)
    (hok : ∀ a v, R (.ok a) v → Overlooks f v (g a) P) (herror : ∀ e v, R (.error e) v → P (.error e) v) :
    Overlooks f w (x >>= g) P := by
  change (x (w.recast f)).bind (fun p => ExceptT.bindCont g p.1 p.2)
      = ((x w).bind fun p => ExceptT.bindCont g p.1 p.2).map _ ∧
    ∀ r v, (x w).bind (fun p => ExceptT.bindCont g p.1 p.2) = some (r, v) → P r v
  obtain ⟨hsame, hR⟩ := hx
  rw [hsame]
  cases hxw : x w with
  | none => exact ⟨rfl, fun _ _ h => nomatch h⟩
  | some outcome =>
    obtain ⟨r, v⟩ := outcome
    cases r with
    | ok a => exact hok a v (hR _ _ hxw)
    | error e => exact ⟨rfl, fun _ _ h => by cases h; exact herror e v (hR _ _ hxw)⟩

theorem Overlooks.attempt {P : Except Error (Except Error α) → World Code Memory → Prop}
    (hx : Overlooks f w x R) (hP : ∀ r v, R r v → P (.ok r) v) : Overlooks f w (attempt x) P := by
  obtain ⟨hsame, hR⟩ := hx
  refine ⟨?_, fun r v h => ?_⟩
  · rw [Engine.attempt, Engine.attempt, hsame, Option.map_map, Option.map_map]
    rfl
  · obtain ⟨⟨r₁, v₁⟩, hxw, hrv⟩ := Option.map_eq_some_iff.mp h
    obtain ⟨rfl, rfl⟩ := Prod.mk.inj hrv
    exact hP _ _ (hR _ _ hxw)

theorem Overlooks.keeping (refs : List Ref) (hx : Overlooks f { w with held := refs ++ w.held } x R)
    (hQ : ∀ r v, R r v → Q r { v with held := w.held }) : Overlooks f w (keeping refs x) Q := by
  obtain ⟨hsame, hR⟩ := hx
  refine ⟨?_, fun r v h => ?_⟩
  · change (x (World.recast f { w with held := refs ++ w.held })).map _ = (Option.map _ (x _)).map _
    rw [hsame, Option.map_map, Option.map_map]
    rfl
  · obtain ⟨⟨r₁, v₁⟩, hxw, hrv⟩ := Option.map_eq_some_iff.mp h
    obtain ⟨rfl, rfl⟩ := Prod.mk.inj hrv
    exact hQ _ _ (hR _ _ hxw)

theorem Overlooks.framed (tracker : TrackerId) (frame : Frame)
    (hx : Overlooks f (w.mapTracker tracker (·.push frame)) x R)
    (hQ : ∀ r v, R r v → Q r (v.mapTracker tracker (·.pop))) :
    Overlooks f w (framed (some tracker) frame x) Q := by
  obtain ⟨hsame, hR⟩ := hx
  refine ⟨?_, fun r v h => ?_⟩
  · change (x (World.recast f (w.mapTracker tracker (·.push frame)))).map _ = (Option.map _ (x _)).map _
    rw [hsame, Option.map_map, Option.map_map]
    rfl
  · obtain ⟨⟨r₁, v₁⟩, hxw, hrv⟩ := Option.map_eq_some_iff.mp h
    obtain ⟨rfl, rfl⟩ := Prod.mk.inj hrv
    exact hQ _ _ (hR _ _ hxw)

end Rules

/-- A change of the world that is made alike whatever becomes of the nodes, and that neither they nor the view
models have a part in. -/
structure Aloof (f : Table NodeId (Node Code) → Table NodeId (Node Code))
    (u : World Code Memory → World Code Memory) : Prop where
  recast (w : World Code Memory) : u (w.recast f) = (u w).recast f
  nodes (w : World Code Memory) : (u w).nodes = w.nodes
  viewModels (w : World Code Memory) : (u w).viewModels = w.viewModels

theorem Aloof.foldl {u : World Code Memory → α → World Code Memory} (hu : ∀ a, Aloof f (u · a))
    (l : List α) : Aloof f (l.foldl u) := by
  induction l with
  | nil => exact ⟨fun _ => rfl, fun _ => rfl, fun _ => rfl⟩
  | cons a rest inductionHypothesis =>
    refine ⟨fun w => ?_, fun w => ?_, fun w => ?_⟩
    · rw [List.foldl_cons, (hu a).recast, inductionHypothesis.recast, List.foldl_cons]
    · rw [List.foldl_cons, inductionHypothesis.nodes, (hu a).nodes]
    · rw [List.foldl_cons, inductionHypothesis.viewModels, (hu a).viewModels]

/-- From every world with `I`, a step overlooks a change of the nodes and keeps `I`. -/
def Blind (f : Table NodeId (Node Code) → Table NodeId (Node Code)) (I : World Code Memory → Prop)
    (x : Engine Code Memory α) : Prop :=
  ∀ w, I w → Overlooks f w x fun _ => I

/-- A property of worlds that is about the nodes and the view models. -/
def Hosting (I : World Code Memory → Prop) : Prop :=
  ∀ {w w' : World Code Memory}, w'.nodes = w.nodes → w'.viewModels = w.viewModels → I w → I w'

section Blind

variable {I : World Code Memory → Prop} {x : Engine Code Memory α} {g : α → Engine Code Memory β}

theorem Blind.pure (a : α) : Blind f I (pure a : Engine Code Memory α) := fun _ hw => overlooks_pure hw

theorem Blind.throw (e : Error) : Blind f I (throw e : Engine Code Memory α) := fun _ hw => overlooks_throw hw

theorem Blind.ofExcept (r : Except Error α) : Blind f I (ofExcept r) := fun _ hw => overlooks_ofExcept hw

theorem Blind.inspect {see : World Code Memory → α} (hsee : ∀ w, see (w.recast f) = see w) :
    Blind f I (inspect see) := fun w hw => overlooks_inspect (hsee w) hw

theorem Blind.bind (hx : Blind f I x) (hg : ∀ a, Blind f I (g a)) : Blind f I (x >>= g) :=
  fun w hw => (hx w hw).bind (fun a v hv => hg a v hv) fun _ _ hv => hv

theorem Blind.attempt (hx : Blind f I x) : Blind f I (attempt x) :=
  fun w hw => (hx w hw).attempt fun _ _ hv => hv

variable (hI : Hosting I)

include hI

theorem Blind.update {u : World Code Memory → World Code Memory} (hu : Aloof f u) :
    Blind f I (update u) :=
  fun w hw => overlooks_update (hu.recast w) (hI (hu.nodes w) (hu.viewModels w) hw)

theorem Blind.create {u : World Code Memory → α × World Code Memory}
    (hu : ∀ w : World Code Memory, u (w.recast f) = ((u w).1, (u w).2.recast f) ∧
      (u w).2.nodes = w.nodes ∧ (u w).2.viewModels = w.viewModels) : Blind f I (create u) :=
  fun w hw => overlooks_create (hu w).1 (hI (hu w).2.1 (hu w).2.2 hw)

theorem Blind.keeping (refs : List Ref) (hx : Blind f I x) : Blind f I (keeping refs x) := by
  intro w hw
  have hheld : I { w with held := refs ++ w.held } := hI (w := w) rfl rfl hw
  exact (hx _ hheld).keeping refs fun _ v hv => hI (w := v) rfl rfl hv

theorem Blind.framed (t : TrackerId) (frame : Frame) (hx : Blind f I x) :
    Blind f I (framed (some t) frame x) := by
  intro w hw
  have hpushed : I (w.mapTracker t (·.push frame)) := hI (w := w) rfl rfl hw
  exact (hx _ hpushed).framed t frame fun _ v hv => hI (w := v) rfl rfl hv

end Blind

/-! ### Reading -/

variable [Inhabited Code]

theorem aloof_mapDependencies (f : Table NodeId (Node Code) → Table NodeId (Node Code))
    (subscriber : Subscriber) (g : Dependencies → Dependencies) :
    Aloof f (fun w : World Code Memory => w.mapDependencies subscriber g) := by
  cases subscriber <;> exact ⟨fun _ => rfl, fun _ => rfl, fun _ => rfl⟩

omit [Inhabited Code] in
theorem aloof_unregisterAll (f : Table NodeId (Node Code) → Table NodeId (Node Code))
    (subscriber : Subscriber) (l : List SourceId) :
    Aloof f (fun w : World Code Memory => w.unregisterAll subscriber l) := by
  have hleave : ∀ source, Aloof f (fun w : World Code Memory => w.mapSource source (·.unregister subscriber)) :=
    fun _ => ⟨fun _ => rfl, fun _ => rfl, fun _ => rfl⟩
  exact Aloof.foldl hleave l

theorem aloof_settle (f : Table NodeId (Node Code) → Table NodeId (Node Code)) (subscriber : Subscriber) :
    Aloof f (fun w : World Code Memory => w.settle subscriber) := by
  have hmap : Aloof f (fun w : World Code Memory => w.mapDependencies subscriber (·.settle)) :=
    aloof_mapDependencies f subscriber _
  have hleave : ∀ l, Aloof f (fun w : World Code Memory => w.unregisterAll subscriber l) :=
    aloof_unregisterAll f subscriber
  refine ⟨fun w => ?_, fun w => ?_, fun w => ?_⟩
  · have hstale : (w.recast f).dependencies subscriber = w.dependencies subscriber := by
      cases subscriber <;> rfl
    simp only [World.settle, hstale, hmap.recast, (hleave _).recast]
  · exact ((hleave _).nodes _).trans (hmap.nodes w)
  · exact ((hleave _).viewModels _).trans (hmap.viewModels w)

theorem aloof_teardownWatcher (f : Table NodeId (Node Code) → Table NodeId (Node Code)) (id : WatcherId) :
    Aloof f (fun w : World Code Memory => w.teardownWatcher id) := by
  have hleave : ∀ l, Aloof f (fun w : World Code Memory => w.unregisterAll (.watcher id) l) :=
    aloof_unregisterAll f (.watcher id)
  refine ⟨fun w => ?_, fun w => ?_, fun w => ?_⟩
  · have hsee : (w.recast f).watcher id = w.watcher id := rfl
    unfold World.teardownWatcher
    rw [hsee]
    split
    · rfl
    · exact (hleave _).recast
        ((w.mapWatcher id fun x => { x with disposed := true }).mapDependencies (.watcher id) fun _ => {})
  · unfold World.teardownWatcher
    split
    · rfl
    · exact (hleave _).nodes _
  · unfold World.teardownWatcher
    split
    · rfl
    · exact (hleave _).viewModels _

theorem aloof_teardownBinding (f : Table NodeId (Node Code) → Table NodeId (Node Code)) (id : BindingId) :
    Aloof f (fun w : World Code Memory => w.teardownBinding id) := by
  have hfold : ∀ l : List WatcherId, Aloof f (fun w : World Code Memory => l.foldl World.teardownWatcher w) :=
    Aloof.foldl (aloof_teardownWatcher f)
  exact ⟨fun w => (hfold _).recast (w.mapBinding id fun b => { b with active := false }),
    fun w => (hfold _).nodes (w.mapBinding id fun b => { b with active := false }),
    fun w => (hfold _).viewModels (w.mapBinding id fun b => { b with active := false })⟩

/-- What getters do when they are entered overlooks a change of the nodes. -/
structure Overlooking (f : Table NodeId (Node Code) → Table NodeId (Node Code))
    (application : Application Code Memory) (I : World Code Memory → Prop) (c : Reentry Code Memory) :
    Prop where
  left : c.application = application
  notes (o : Occurrence) (w : World Code Memory) : application.notes o (w.recast f) = application.notes o w
  hosting : Hosting I
  getter (code : Code) (owner? : Option ViewModelId) : Blind f I (c.run (application.getter code owner?))

namespace Overlooking

variable {application : Application Code Memory} {I : World Code Memory → Prop} {c : Reentry Code Memory}

variable (h : Overlooking f application I c)

include h

omit [Inhabited Code] in
theorem note_recast (w : World Code Memory) (occurrence : Occurrence) :
    (w.recast f).note c.application occurrence = (w.note c.application occurrence).recast f := by
  change World.recast f { w with memory := c.application.notes occurrence (w.recast f) } = _
  rw [h.left, h.notes, ← h.left]
  rfl

omit [Inhabited Code] in
theorem note (occurrence : Occurrence) : Blind f I (note c occurrence) :=
  Blind.update h.hosting ⟨fun w => h.note_recast w occurrence, fun _ => rfl, fun _ => rfl⟩

theorem mapDependencies (subscriber : Subscriber) (g : Dependencies → Dependencies) :
    Blind f I (update (·.mapDependencies subscriber g)) :=
  Blind.update h.hosting (aloof_mapDependencies f subscriber g)

theorem mapComputed (id : ComputedId) (g : Computed Code → Computed Code) :
    Blind f I (update (·.mapComputed id g)) :=
  Blind.update h.hosting ⟨fun _ => rfl, fun _ => rfl, fun _ => rfl⟩

theorem depend (reader : Option TrackerId) (source : SourceId) : Blind f I (depend c reader source) := by
  have hmap : ∀ subscriber, Aloof f (fun w : World Code Memory => w.mapDependencies subscriber (·.record source)) :=
    fun subscriber => aloof_mapDependencies f subscriber _
  refine Blind.update h.hosting ⟨fun w => ?_, fun w => ?_, fun w => ?_⟩
  · have hsee : (w.recast f).current? reader = w.current? reader := rfl
    simp only [hsee]
    cases w.current? reader with
    | none => rfl
    | some subscriber =>
      rw [← h.note_recast, ← (hmap subscriber).recast]
      rfl
  · cases w.current? reader with
    | none => rfl
    | some subscriber => exact (hmap subscriber).nodes _
  · cases w.current? reader with
    | none => rfl
    | some subscriber => exact (hmap subscriber).viewModels _

theorem settle (subscriber : Subscriber) : Blind f I (update (·.settle subscriber)) :=
  Blind.update h.hosting (aloof_settle f subscriber)

theorem evaluate (t : TrackerId) (subscriber : Subscriber) {x : Engine Code Memory Value}
    (hx : Blind f I x) : Blind f I (evaluate c t subscriber x) := by
  refine (h.mapDependencies subscriber _).bind fun _ => (h.note _).bind fun _ => ?_
  refine (hx.framed h.hosting t _).attempt.bind fun result => ?_
  cases result with
  | ok value => exact (h.settle subscriber).bind fun _ => (h.note _).bind fun _ => Blind.pure value
  | error error =>
    exact (h.mapDependencies subscriber _).bind fun _ => (h.note _).bind fun _ => Blind.throw error

theorem runGetter (id : ComputedId) : Blind f I (runGetter c id) := by
  refine (h.mapComputed id _).bind fun _ => (h.note _).bind fun _ => ?_
  refine (Blind.inspect fun _ => rfl).bind fun getter => ?_
  rw [h.left]
  cases getter with
  | free code => exact h.getter code none
  | ofViewModel owner code =>
    refine (Blind.inspect fun w => ?_).bind fun alive => ?_
    · rw [Bool.eq_iff_iff, World.alive_viewModel, World.alive_viewModel]
      exact Iff.rfl
    · cases alive with
      | true => exact (h.getter code (some owner)).keeping h.hosting _
      | false => exact Blind.throw _

theorem readComputed (id : ComputedId) (reader : Option TrackerId) :
    Blind f I (readComputed c id reader) := by
  refine Blind.keeping h.hosting _ ((Blind.inspect fun _ => rfl).bind fun x => ?_)
  cases x.memoize with
  | false => exact h.runGetter id
  | true =>
    refine (h.depend reader x.source).bind fun _ => (Blind.inspect fun _ => rfl).bind fun y => ?_
    cases y.cache with
    | some value => exact Blind.pure value
    | none =>
      refine (h.evaluate y.tracker (.computed id) (h.runGetter id)).bind fun value => ?_
      exact (h.mapComputed id _).bind fun _ => Blind.pure value

omit [Inhabited Code] in
theorem await (object : ObjectId) (key : String) : Blind f I (create (·.await object key)) := by
  refine Blind.create h.hosting fun w => ?_
  have hsee : (w.recast f).object object = w.object object := rfl
  simp only [World.await, hsee]
  cases (w.object object).awaited.find? key <;> exact ⟨rfl, rfl, rfl⟩

theorem readSlot (holder : ObjectId) (name : String) (reader : Option TrackerId) (slot? : Option Slot) :
    Blind f I (readSlot c holder name reader slot?) := by
  cases slot? with
  | none =>
    refine (Blind.inspect fun _ => rfl).bind fun waits => ?_
    cases waits with
    | true => exact (h.await holder name).bind fun source => (h.depend reader source).bind fun _ => Blind.pure _
    | false => exact Blind.pure _
  | some slot =>
    cases slot with
    | field value source =>
      cases source with
      | none => exact Blind.pure value
      | some source => exact (h.depend reader source).bind fun _ => Blind.pure value
    | computed id => exact h.readComputed id reader
    | constant value => exact Blind.pure value
    | proxy target key => exact Blind.pure _

theorem get (object : ObjectId) (key : String) (reader : Option TrackerId) :
    Blind f I (get c object key reader) := by
  have hfollow : ∀ (w : World Code Memory) steps object key,
      (w.recast f).follow steps object key = w.follow steps object key :=
    fun w => World.follow_congr fun _ => rfl
  refine (Blind.inspect fun w => hfollow w _ object key).bind fun target => ?_
  refine Blind.keeping h.hosting _ ((Blind.inspect fun _ => rfl).bind fun slot? => ?_)
  exact h.readSlot target.1 target.2 reader slot?

theorem walk (path : Path) (reader : Option TrackerId) (segments : List String) (owner : Option String)
    (value : Value) : Blind f I (walk c path reader owner value segments) := by
  induction segments generalizing owner value with
  | nil => exact Blind.pure value
  | cons segment rest inductionHypothesis =>
    cases value with
    | object object =>
      exact (h.get object segment reader).bind fun next => inductionHypothesis (some segment) next
    | array id items => exact inductionHypothesis (some segment) (itemAt items segment)
    | _ => exact Blind.throw _

theorem readPath (root : Value) (path : Path) (reader : Option TrackerId) :
    Blind f I (readPath c root path reader) :=
  h.walk path reader path.segments none root

theorem renderTemplate (template : Template) (root : Value) (reader : Option TrackerId) :
    Blind f I (renderTemplate c template root reader) := by
  unfold Engine.renderTemplate
  induction template.segments with
  | nil => exact Blind.pure ""
  | cons segment rest inductionHypothesis =>
    cases segment with
    | literal text => exact inductionHypothesis.bind fun others => Blind.pure _
    | placeholder path =>
      refine (h.readPath root path reader).bind fun value => ?_
      exact inductionHypothesis.bind fun others => Blind.pure _

theorem fulfil {request : Request Code Memory} (hreads : request.ReadsOnly) : Blind f I (fulfil c request) := by
  cases hreads with
  | get => exact h.get _ _ _
  | readPath => exact (h.readPath _ _ _).keeping h.hosting _
  | renderTemplate => exact (h.renderTemplate _ _ _).keeping h.hosting _
  | readComputed => exact h.readComputed _ _
  | read =>
    refine Blind.keeping h.hosting _ ((Blind.ofExcept _).bind fun path => ?_)
    exact (Blind.inspect fun _ => rfl).bind fun vm => h.readPath _ path _
  | render =>
    refine Blind.keeping h.hosting _ ((Blind.inspect fun _ => rfl).bind fun vm => ?_)
    refine (Blind.ofExcept _).bind fun template => ?_
    exact (h.renderTemplate template _ _).framed h.hosting _ none

theorem follow {program : Program Code Memory α} (hprogram : program.Overlooks f) :
    Blind f I (follow c program) := by
  induction hprogram with
  | done result => exact Blind.pure result
  | fail error => exact Blind.throw error
  | @look next hsame _ inductionHypothesis =>
    intro w hw
    have hnext := inductionHypothesis w w hw
    refine ⟨?_, hnext.2⟩
    change Engine.follow c (next (w.recast f)) (w.recast f) = _
    rw [hsame]
    exact hnext.1
  | ask hreads _ inductionHypothesis => exact (h.fulfil hreads).attempt.bind inductionHypothesis

/-! ### Watching -/

theorem evaluateWatcher (id : WatcherId) : Blind f I (evaluateWatcher c id) :=
  (Blind.inspect fun _ => rfl).bind fun x =>
    h.evaluate x.tracker (.watcher id) (h.readPath x.root x.path (some x.tracker))

theorem watch (t : TrackerId) (root : Value) (path : Path) (reaction : Reaction Code) :
    Blind f I (watch c t root path reaction) := by
  refine Blind.bind (Blind.create h.hosting fun _ => ⟨rfl, rfl, rfl⟩) fun id => ?_
  refine Blind.keeping h.hosting _ ((h.evaluateWatcher id).attempt.bind fun result => ?_)
  cases result with
  | ok value =>
    exact Blind.bind (Blind.update h.hosting ⟨fun _ => rfl, fun _ => rfl, fun _ => rfl⟩) fun _ => Blind.pure id
  | error error =>
    exact (Blind.update h.hosting (aloof_teardownWatcher f id)).bind fun _ => Blind.throw error

end Overlooking

/-- However deep the engine is entered again, getters that overlook a change of the nodes do so. -/
theorem overlooking_reentry {application : Application Code Memory} (happ : application.Overlooks f)
    {I : World Code Memory → Prop} (hI : Hosting I) (depth : Nat) :
    Overlooking f application I (reentry application depth) := by
  induction depth with
  | zero => exact ⟨rfl, happ.notes, hI, fun _ _ _ _ => overlooks_exhausted⟩
  | succ depth inductionHypothesis =>
    exact ⟨rfl, happ.notes, hI, fun code owner? => inductionHypothesis.follow (happ.getter code owner?)⟩

end Engine

end ViewBinding
