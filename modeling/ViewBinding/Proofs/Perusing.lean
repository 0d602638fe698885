import ViewBinding.Proofs.Steps
import ViewBinding.Proofs.Upkeep

/-!
# What reading keeps

Reading a property takes a few steps, and of the embedder it runs getters only. A property of worlds that
these steps and the getters keep is kept by whatever is read, evaluations of watchers included. The
property may be another one while somebody evaluates, as long as the first one is found again afterwards;
so the rules are about families of properties.
-/

namespace ViewBinding

variable {Code Memory : Type} [Inhabited Code]

namespace Engine

/-- A family of properties of worlds to which the steps of reading lead back. -/
structure Recurs (application : Application Code Memory) {ι : Type} (I : ι → World Code Memory → Prop) :
    Prop where
  held {i : ι} {w : World Code Memory} (held : List Ref) : I i w → I i { w with held }
  mapTracker {i : ι} {w : World Code Memory} (t : TrackerId) (f : Tracker → Tracker) :
    I i w → I i (w.mapTracker t f)
  mapComputed {i : ι} {w : World Code Memory} (id : ComputedId) {f : Computed Code → Computed Code} :
    (∀ x, (f x).name = x.name ∧ (f x).getter = x.getter ∧ (f x).source = x.source) →
      (∀ x, (f x).dependencies = x.dependencies) → I i w → I i (w.mapComputed id f)
  computing {i : ι} {w : World Code Memory} (id : ComputedId) :
    I i w → I i (w.note application (.computing id))
  meeting {i : ι} {w : World Code Memory} (subscriber : Subscriber) (source : SourceId) :
    I i w → I i (w.meeting application subscriber source)
  /-- While a subscriber evaluates another property of the family may hold. -/
  evaluating (i : ι) (subscriber : Subscriber) : ∃ j, ∀ t : TrackerId,
    (∀ w, I i w → I j (w.opening application t subscriber)) ∧
      ∀ w r, I j w → I i (w.closing application t subscriber r)
  await {i : ι} {w : World Code Memory} {object : ObjectId} {key : String} :
    (w.object object).observed = true → (w.object object).slot? key = none → I i w →
      I i (w.await object key).2

/-- What getters do when they are entered leads back to every property of a family. -/
structure Recurring (application : Application Code Memory) {ι : Type} (I : ι → World Code Memory → Prop)
    (c d : Reentry Code Memory) : Prop where
  left : c.application = application
  right : d.application = application
  getter (i : ι) (code : Code) (owner? : Option ViewModelId) :
    Keeps (I i) (c.run (application.getter code owner?)) (d.run (application.getter code owner?))

section Families

variable {application : Application Code Memory} {ι : Type} {I : ι → World Code Memory → Prop}
  {c d : Reentry Code Memory} {α : Type} {i : ι}

namespace Recurs

variable (hI : Recurs application I)

include hI

theorem keeping (refs : List Ref) {x y : Engine Code Memory α} (hx : Keeps (I i) x y) :
    Keeps (I i) (keeping refs x) (keeping refs y) :=
  hx.keeping (fun _ held hw => hI.held held hw) refs

theorem framed (t : TrackerId) (frame : Frame) {x y : Engine Code Memory α} (hx : Keeps (I i) x y) :
    Keeps (I i) (framed (some t) frame x) (framed (some t) frame y) := fun _ hw =>
  Ends.framed t frame (hx _ (hI.mapTracker t _ hw)) fun _ _ hw' => hI.mapTracker t _ hw'

end Recurs

variable (hI : Recurs application I) (h : Recurring application I c d)

include hI h

theorem Recurring.depend (reader : Option TrackerId) (source : SourceId) :
    Keeps (I i) (depend c reader source) (depend d reader source) := by
  rw [Engine.depend, Engine.depend, h.left, h.right]
  apply Keeps.update
  intro w hw
  cases w.current? reader with
  | none => exact hw
  | some subscriber => exact hI.meeting subscriber source hw

omit hI in
/-- An evaluation leads back to where it was begun if its steps do. -/
theorem Recurring.ends_evaluate {w : World Code Memory} {t : TrackerId} {subscriber : Subscriber}
    {x y : Engine Code Memory Value} {Q : Except Error Value → World Code Memory → Prop}
    (hopening : I i (w.opening application t subscriber)) (hx : Keeps (I i) x y)
    (hclosing : ∀ r w', I i w' → Q r (w'.closing application t subscriber r)) :
    Ends w (evaluate c t subscriber x) (evaluate d t subscriber y) Q := by
  obtain ⟨rfl, hright, -⟩ := h
  exact Engine.ends_evaluate hright t subscriber (hx _ hopening) hclosing

theorem Recurring.evaluate (t : TrackerId) (subscriber : Subscriber) {x y : Engine Code Memory Value}
    (hx : ∀ i, Keeps (I i) x y) :
    Keeps (I i) (evaluate c t subscriber x) (evaluate d t subscriber y) := by
  intro w hw
  obtain ⟨j, hj⟩ := hI.evaluating i subscriber
  exact h.ends_evaluate ((hj t).1 w hw) (hx j) fun r w' => (hj t).2 w' r

theorem Recurring.runGetter (id : ComputedId) : Keeps (I i) (runGetter c id) (runGetter d id) := by
  unfold Engine.runGetter Engine.note
  rw [h.left, h.right]
  refine (Keeps.update fun w hw => ?_).bind fun _ => ?_
  · exact hI.mapComputed id (fun _ => ⟨rfl, rfl, rfl⟩) (fun _ => rfl) hw
  refine (Keeps.update fun w => hI.computing id).bind fun _ => (Keeps.inspect _).bind fun getter => ?_
  cases getter with
  | free code => exact h.getter i code none
  | ofViewModel owner code =>
    refine (Keeps.inspect _).bind fun alive => ?_
    cases alive with
    | true => exact hI.keeping _ (h.getter i code (some owner))
    | false => exact Keeps.throw _

theorem Recurring.readComputed (id : ComputedId) (reader : Option TrackerId) :
    Keeps (I i) (readComputed c id reader) (readComputed d id reader) := by
  refine hI.keeping _ ((Keeps.inspect _).bind fun x => ?_)
  cases x.memoize with
  | false => exact h.runGetter hI id
  | true =>
    refine (h.depend hI reader x.source).bind fun _ => (Keeps.inspect _).bind fun y => ?_
    cases y.cache with
    | some value => exact Keeps.pure value
    | none =>
      refine (h.evaluate hI y.tracker (.computed id) fun _ => h.runGetter hI id).bind fun value => ?_
      refine (Keeps.update fun w hw => ?_).bind fun _ => Keeps.pure value
      exact hI.mapComputed id (fun _ => ⟨rfl, rfl, rfl⟩) (fun _ => rfl) hw

theorem Recurring.get (object : ObjectId) (key : String) (reader : Option TrackerId) :
    Keeps (I i) (get c object key reader) (get d object key reader) := by
  refine (Keeps.inspect _).bind fun target => ?_
  obtain ⟨holder, name⟩ := target
  refine hI.keeping _ fun w hw => ?_
  rw [ends_inspect_bind]
  cases hslot : (w.object holder).slot? name with
  | none =>
    unfold readSlot
    rw [ends_inspect_bind]
    split
    · next hwaits =>
      rw [ends_create_bind]
      refine ((h.depend hI reader _).bind fun _ => Keeps.pure _) _ ?_
      exact hI.await (Bool.and_eq_true_iff.mp hwaits).1 hslot hw
    · exact (ends_pure _).mpr hw
  | some slot =>
    cases slot with
    | field value source =>
      cases source with
      | none => exact (ends_pure value).mpr hw
      | some source => exact ((h.depend hI reader source).bind fun _ => Keeps.pure value) w hw
    | computed id => exact h.readComputed hI id reader w hw
    | constant value => exact (ends_pure value).mpr hw
    | proxy target key => exact (ends_pure _).mpr hw

theorem Recurring.readPath (root : Value) (path : Path) (reader : Option TrackerId) :
    Keeps (I i) (readPath c root path reader) (readPath d root path reader) :=
  Keeps.walk (h.get hI) path reader path.segments none root

/-- A watcher evaluates its path. -/
theorem Recurring.ends_evaluateWatcher {w : World Code Memory} {id : WatcherId}
    {Q : Except Error Value → World Code Memory → Prop}
    (hopening : I i (w.opening application (w.watcher id).tracker (.watcher id)))
    (hclosing : ∀ r w', I i w' →
      Q r (w'.closing application (w.watcher id).tracker (.watcher id) r)) :
    Ends w (evaluateWatcher c id) (evaluateWatcher d id) Q := by
  unfold Engine.evaluateWatcher
  rw [ends_inspect_bind]
  exact h.ends_evaluate hopening (h.readPath hI _ _ _) hclosing

theorem Recurring.evaluateWatcher (id : WatcherId) :
    Keeps (I i) (evaluateWatcher c id) (evaluateWatcher d id) := by
  intro w hw
  obtain ⟨j, hj⟩ := hI.evaluating i (.watcher id)
  exact h.ends_evaluateWatcher hI ((hj _).1 w hw) fun r w' => (hj _).2 w' r

theorem Recurring.perusal : Perusal (I i) c d where
  application := h.right.trans h.left.symm
  held := hI.held
  pausing t _ _ hx := hI.framed t none hx
  get := h.get hI

end Families

/-! ### One property -/

/-- A property of worlds that the steps of reading keep. -/
structure Peruses (application : Application Code Memory) (I : World Code Memory → Prop) : Prop where
  note (w : World Code Memory) (occurrence : Occurrence) : I w → I (w.note application occurrence)
  held {w : World Code Memory} (held : List Ref) : I w → I { w with held }
  mapTracker {w : World Code Memory} (t : TrackerId) (f : Tracker → Tracker) : I w → I (w.mapTracker t f)
  mapSource {w : World Code Memory} (s : SourceId) (f : Source → Source) : I w → I (w.mapSource s f)
  mapDependencies {w : World Code Memory} (subscriber : Subscriber) (f : Dependencies → Dependencies) :
    I w → I (w.mapDependencies subscriber f)
  settle {w : World Code Memory} (subscriber : Subscriber) : I w → I (w.settle subscriber)
  mapComputed {w : World Code Memory} (id : ComputedId) {f : Computed Code → Computed Code} :
    (∀ x, (f x).name = x.name ∧ (f x).getter = x.getter ∧ (f x).source = x.source) → I w →
      I (w.mapComputed id f)
  await {w : World Code Memory} {object : ObjectId} {key : String} :
    (w.object object).observed = true → (w.object object).slot? key = none → I w →
      I (w.await object key).2

/-- What getters do when they are entered keeps a property. -/
structure Rereads (application : Application Code Memory) (I : World Code Memory → Prop)
    (c d : Reentry Code Memory) : Prop where
  left : c.application = application
  right : d.application = application
  getter (code : Code) (owner? : Option ViewModelId) :
    Keeps I (c.run (application.getter code owner?)) (d.run (application.getter code owner?))

variable {application : Application Code Memory} {I : World Code Memory → Prop}
  {c d : Reentry Code Memory}

/-- A property that is kept is a family by itself. -/
theorem Peruses.recurs (hI : Peruses application I) : Recurs application fun _ : Unit => I where
  held := hI.held
  mapTracker := hI.mapTracker
  mapComputed id _ hf _ := hI.mapComputed id hf
  computing _ := hI.note _ _
  meeting _ _ hw := hI.note _ _ (hI.mapDependencies _ _ (hI.mapSource _ _ hw))
  evaluating _ subscriber := by
    refine ⟨(), fun t => ⟨fun w hw => ?_, fun w r hw => ?_⟩⟩
    · exact hI.mapTracker t _ (hI.note _ _ (hI.mapDependencies subscriber _ hw))
    · cases r with
      | ok value => exact hI.note _ _ (hI.settle subscriber (hI.mapTracker t _ hw))
      | error error => exact hI.note _ _ (hI.mapDependencies subscriber _ (hI.mapTracker t _ hw))
  await := hI.await

omit [Inhabited Code] in
theorem Rereads.recurring (h : Rereads application I c d) : Recurring application (fun _ : Unit => I) c d where
  left := h.left
  right := h.right
  getter _ := h.getter

variable (hI : Peruses application I) (h : Rereads application I c d)

include hI h

theorem Rereads.depend (reader : Option TrackerId) (source : SourceId) :
    Keeps I (depend c reader source) (depend d reader source) :=
  h.recurring.depend hI.recurs (i := ()) reader source

theorem Rereads.readComputed (id : ComputedId) (reader : Option TrackerId) :
    Keeps I (readComputed c id reader) (readComputed d id reader) :=
  h.recurring.readComputed hI.recurs (i := ()) id reader

theorem Rereads.get (object : ObjectId) (key : String) (reader : Option TrackerId) :
    Keeps I (get c object key reader) (get d object key reader) :=
  h.recurring.get hI.recurs (i := ()) object key reader

theorem Rereads.evaluateWatcher (id : WatcherId) :
    Keeps I (evaluateWatcher c id) (evaluateWatcher d id) :=
  h.recurring.evaluateWatcher hI.recurs (i := ()) id

theorem Rereads.perusal : Perusal I c d :=
  h.recurring.perusal hI.recurs (i := ())

end Engine

end ViewBinding
