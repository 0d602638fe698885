import ViewBinding.Proofs.Parallel
import ViewBinding.Proofs.Unsupervised

/-!
# Worlds with the same face

Readers find the data and the values that are kept, and a getter runs if its view model lives. Worlds that
agree about these may differ in who is evaluating, who listens to what and what was noted of it: whatever is
read goes the same way in both.
-/

namespace ViewBinding

variable {Code Memory : Type} [Inhabited Code]

namespace World

/-- Readers find the same in both worlds, which is the data of `start`, and the same view models live. -/
structure SameFace (holds : Memory → List Ref) (start w v : World Code Memory) : Prop where
  origin : start.SameData w
  data : w.SameData v
  computeds : ∀ id, (v.computed id).face = (w.computed id).face
  held : ∀ id, Ref.viewModel id ∈ v.held ↔ .viewModel id ∈ w.held
  holds : ∀ id, Ref.viewModel id ∈ holds v.memory ↔ .viewModel id ∈ holds w.memory

omit [Inhabited Code] in
theorem SameData.symm {w v : World Code Memory} (h : w.SameData v) : v.SameData w where
  size := h.size.symm
  slots id := (h.slots id).symm
  observed id := (h.observed id).symm
  functions := h.functions.symm
  arrays := h.arrays.symm
  probes := h.probes.symm
  nodes := h.nodes.symm
  bindings := h.bindings.symm
  viewModels := h.viewModels.symm

namespace SameFace

variable {holds : Memory → List Ref} {start w v w' v' : World Code Memory}

/-- Bookkeeping in either world changes no face. -/
theorem aside (h : SameFace holds start w v) (hw : World.Aside holds w w') (hv : World.Aside holds v v') :
    SameFace holds start w' v' where
  origin := h.origin.trans hw.data
  data := (hw.data.symm.trans h.data).trans hv.data
  computeds id := ((hv.computeds id).trans (h.computeds id)).trans (hw.computeds id).symm
  held id := by rw [hv.held, hw.held]; exact h.held id
  holds id := by rw [hv.holds, hw.holds]; exact h.holds id

omit [Inhabited Code] in
theorem data_congr (h : w.SameData v) {held held' : List Ref} {trackers trackers' : Table TrackerId Tracker}
    {computeds computeds' : Table ComputedId (Computed Code)} :
    ({ w with held, trackers, computeds } : World Code Memory).SameData
      { v with held := held', trackers := trackers', computeds := computeds' } :=
  ⟨h.size, h.slots, h.observed, h.functions, h.arrays, h.probes, h.nodes, h.bindings, h.viewModels⟩

/-- Stacks are no part of the face. -/
theorem mapTracker (h : SameFace holds start w v) (t : TrackerId) (f g : Tracker → Tracker) :
    SameFace holds start (w.mapTracker t f) (v.mapTracker t g) :=
  ⟨data_congr h.origin, data_congr h.data, h.computeds, h.held, h.holds⟩

theorem hold (h : SameFace holds start w v) (refs : List Ref) :
    SameFace holds start { w with held := refs ++ w.held } { v with held := refs ++ v.held } where
  origin := data_congr h.origin
  data := data_congr h.data
  computeds := h.computeds
  held id := by simp only [List.mem_append, h.held]
  holds := h.holds

theorem putBack (h : SameFace holds start w v) (h' : SameFace holds start w' v') :
    SameFace holds start { w' with held := w.held } { v' with held := v.held } :=
  ⟨data_congr h'.origin, data_congr h'.data, h'.computeds, h.held, h'.holds⟩

theorem cache (h : SameFace holds start w v) (id : ComputedId) (value : Value) :
    SameFace holds start (w.mapComputed id fun x => { x with cache := some value })
      (v.mapComputed id fun x => { x with cache := some value }) where
  origin := data_congr h.origin
  data := data_congr h.data
  computeds j := by
    simp only [computed_mapComputed]
    split
    · have hface := h.computeds id
      simp only [Computed.face, Computed.mk.injEq] at hface ⊢
      exact ⟨hface.1, hface.2.1, hface.2.2.1, hface.2.2.2.1, hface.2.2.2.2.1, trivial, trivial, trivial⟩
    · exact h.computeds j
  held := h.held
  holds := h.holds

theorem alive (h : SameFace holds start w v) (id : ViewModelId) :
    v.alive (holds v.memory) (.viewModel id) = w.alive (holds w.memory) (.viewModel id) := by
  rw [Bool.eq_iff_iff, alive_viewModel, alive_viewModel, h.held, h.holds]

end SameFace

end World

/-- What a slot reads as without a getter being run. -/
def Slot.shown? : Option Slot → Option Value
  | some (.field value _) => some value
  | some (.constant value) => some value
  | some (.computed _) => none
  | _ => some .undefined

theorem Slot.eq_computed_of_shown? {slot : Option Slot} (h : shown? slot = none) :
    ∃ id, slot = some (.computed id) := by
  rcases slot with _ | (_ | id | _ | _)
  · cases h
  · cases h
  · exact ⟨id, rfl⟩
  · cases h
  · cases h

namespace Engine

variable {holds : Memory → List Ref} {application : Application Code Memory} {c : Reentry Code Memory}
  {start : World Code Memory} {α : Type}

section Bookkeeping

variable (hc : c.application = application)
  (hquiet : ∀ o w, holds (application.notes o w) = holds w.memory)

include hc hquiet

theorem achieves_depend (reader : Option TrackerId) (source : SourceId) (w : World Code Memory) :
    Achieves True w (depend c reader source) fun r w' => r = .ok () ∧ World.Aside holds w w' := by
  rw [depend, achieves_update]
  refine ⟨rfl, ?_⟩
  cases w.current? reader with
  | none => exact .refl w
  | some subscriber =>
    rw [hc]
    exact ((World.aside_sources w _).trans (World.aside_mapDependencies _ subscriber _)).trans
      (World.aside_note hquiet _ _)

/-- Where no getter is run, reading ends well and nothing but bookkeeping is done. -/
theorem achieves_readSlot (holder : ObjectId) (name : String) (reader : Option TrackerId) {slot : Option Slot}
    {value : Value} (hslot : Slot.shown? slot = some value) (w : World Code Memory) :
    Achieves True w (readSlot c holder name reader slot) fun r w' => r = .ok value ∧ World.Aside holds w w' := by
  have hpure : ∀ {w' : World Code Memory}, World.Aside holds w w' →
      Achieves True w' (pure value : Engine Code Memory Value) fun r w'' => r = .ok value ∧ World.Aside holds w w'' :=
    fun h => (achieves_pure value).mpr ⟨rfl, h⟩
  have hmeets : ∀ (source : SourceId) {w' : World Code Memory}, World.Aside holds w w' →
      Achieves True w' (depend c reader source >>= fun _ => pure value) fun r w'' =>
        r = .ok value ∧ World.Aside holds w w'' := by
    intro source w' h
    refine (achieves_depend hc hquiet reader source w').bind (fun _ w'' h' => hpure (h.trans h'.2)) ?_
    rintro e w'' ⟨he, -⟩
    cases he
  cases slot with
  | none =>
    cases hslot
    rw [readSlot, achieves_inspect_bind]
    split
    · next h =>
      rw [achieves_create_bind]
      exact hmeets _ (World.aside_await w name (Bool.and_eq_true_iff.mp h).1)
    · exact hpure (.refl w)
  | some slot =>
    cases slot with
    | field stored source =>
      cases hslot
      cases source with
      | none => exact hpure (.refl w)
      | some source => exact hmeets source (.refl w)
    | constant stored =>
      cases hslot
      exact hpure (.refl w)
    | proxy target key =>
      cases hslot
      exact hpure (.refl w)
    | computed id => cases hslot

end Bookkeeping

/-! ### Reading in worlds with the same face -/

section Reading

variable (hc : c.application = application)
  (hquiet : ∀ o w, application.holds (application.notes o w) = application.holds w.memory)

include hc hquiet

theorem parallel_note (occurrence : Occurrence) :
    Parallel (World.SameFace application.holds start) (note c occurrence) (note c occurrence) := by
  rw [note, hc]
  exact Parallel.update fun w v h => h.aside (World.aside_note hquiet w _) (World.aside_note hquiet v _)

theorem parallel_depend (reader other : Option TrackerId) (source : SourceId) :
    Parallel (World.SameFace application.holds start) (depend c reader source) (depend c other source) :=
  fun w v h => .of_achieves (achieves_depend hc hquiet reader source w) (achieves_depend hc hquiet other source v)
    fun _ _ _ _ hw hv => ⟨hv.1.trans hw.1.symm, h.aside hw.2 hv.2⟩

theorem parallel_evaluate (t : TrackerId) (subscriber : Subscriber) {x : Engine Code Memory Value}
    (hx : Parallel (World.SameFace application.holds start) x x) :
    Parallel (World.SameFace application.holds start) (evaluate c t subscriber x) (evaluate c t subscriber x) := by
  have hdependencies : ∀ f : Dependencies → Dependencies, Parallel (World.SameFace application.holds start)
      (update fun w : World Code Memory => w.mapDependencies subscriber f) (update (·.mapDependencies subscriber f)) :=
    fun f => Parallel.update fun w v h =>
      h.aside (World.aside_mapDependencies w subscriber f) (World.aside_mapDependencies v subscriber f)
  refine (hdependencies _).bind fun _ => (parallel_note hc hquiet _).bind fun _ => Parallel.bind ?_ fun result => ?_
  · refine Parallel.attempt fun w v h => ?_
    exact (hx _ _ (h.mapTracker t _ _)).framed t _ fun w' v' h' => h'.mapTracker t _ _
  · cases result with
    | ok value =>
      refine Parallel.bind (Parallel.update fun w v h => ?_) fun _ =>
        (parallel_note hc hquiet _).bind fun _ => Parallel.pure value
      exact h.aside (World.aside_settle w subscriber) (World.aside_settle v subscriber)
    | error error =>
      exact (hdependencies _).bind fun _ => (parallel_note hc hquiet _).bind fun _ => Parallel.throw error

omit hc hquiet in
theorem parallel_keeping (refs : List Ref) {x y : Engine Code Memory α}
    (hx : Parallel (World.SameFace holds start) x y) :
    Parallel (World.SameFace holds start) (keeping refs x) (keeping refs y) :=
  fun _ _ h => (hx _ _ (h.hold refs)).keeping refs fun _ _ h' => h.putBack h'

theorem parallel_runGetter
    (hrun : ∀ code owner?, Parallel (World.SameFace application.holds start)
      (c.run (application.getter code owner?)) (c.run (application.getter code owner?))) (id : ComputedId) :
    Parallel (World.SameFace application.holds start) (runGetter c id) (runGetter c id) := by
  have hcount : Parallel (World.SameFace application.holds start)
      (update fun w : World Code Memory => w.mapComputed id fun x => { x with evaluations := x.evaluations + 1 })
      (update (·.mapComputed id fun x => { x with evaluations := x.evaluations + 1 })) :=
    Parallel.update fun w v h => h.aside (World.aside_count w id) (World.aside_count v id)
  refine hcount.bind fun _ => (parallel_note hc hquiet _).bind fun _ w v h => parallels_inspect_bind ?_
  rw [hc]
  rw [Computed.getter_eq_of_base_eq (Computed.base_eq_of_face_eq (h.computeds id))]
  cases (w.computed id).getter with
  | free code => exact hrun code none w v h
  | ofViewModel owner code =>
    refine parallels_inspect_bind ?_
    rw [h.alive owner]
    split
    · exact parallel_keeping _ (hrun code (some owner)) w v h
    · exact Parallel.throw _ w v h

variable (hgetter : ∀ id, Parallel (World.SameFace application.holds start) (runGetter c id) (runGetter c id))

include hgetter

theorem parallel_readComputed (id : ComputedId) (reader other : Option TrackerId) :
    Parallel (World.SameFace application.holds start) (readComputed c id reader) (readComputed c id other) := by
  refine parallel_keeping _ fun w v h => parallels_inspect_bind ?_
  have hbase := Computed.base_eq_of_face_eq (h.computeds id)
  rw [Computed.memoize_eq_of_base_eq hbase, Computed.source_eq_of_base_eq hbase]
  split
  · refine (parallel_depend hc hquiet reader other _ w v h).bind fun _ w v h => parallels_inspect_bind ?_
    rw [Computed.cache_eq_of_face_eq (h.computeds id),
      Computed.tracker_eq_of_base_eq (Computed.base_eq_of_face_eq (h.computeds id))]
    cases (w.computed id).cache with
    | some value => exact Parallel.pure value w v h
    | none =>
      refine (parallel_evaluate hc hquiet _ _ (hgetter id) w v h).bind fun value => ?_
      exact (Parallel.update fun w v h => h.cache id value).bind fun _ => Parallel.pure value
  · exact hgetter id w v h

/-- Reading a property goes the same way, whoever is evaluating and whoever reads. -/
theorem parallel_get (object : ObjectId) (key : String) (reader other : Option TrackerId) :
    Parallel (World.SameFace application.holds start) (Engine.get c object key reader)
      (Engine.get c object key other) := by
  intro w v h
  refine parallels_inspect_bind ?_
  rw [h.data.resolve_eq]
  generalize w.resolve object key = target
  refine parallel_keeping _ (fun w v h => parallels_inspect_bind ?_) w v h
  have hslot : (v.object target.1).slot? target.2 = (w.object target.1).slot? target.2 := by
    rw [Object.slot?, h.data.slots, Object.slot?]
  rw [hslot]
  generalize (w.object target.1).slot? target.2 = slot
  cases hshown : Slot.shown? slot with
  | some value =>
    exact .of_achieves (achieves_readSlot hc hquiet _ _ reader hshown w)
      (achieves_readSlot hc hquiet _ _ other hshown v) fun _ _ _ _ hw hv => ⟨hv.1.trans hw.1.symm, h.aside hw.2 hv.2⟩
  | none =>
    obtain ⟨id, rfl⟩ := Slot.eq_computed_of_shown? hshown
    exact parallel_readComputed hc hquiet hgetter id reader other w v h

end Reading

/-- All that reads goes the same way in worlds with the same face. -/
theorem parallel_rules (hc : c.application = application)
    (hquiet : ∀ o w, application.holds (application.notes o w) = application.holds w.memory)
    (hgetter : ∀ id, Parallel (World.SameFace application.holds start) (runGetter c id) (runGetter c id)) :
    ReadingRules c c (fun _ _ => True) (fun _ _ => True) start
      fun _ _ _ x _ => Parallel (World.SameFace application.holds start) x x where
  done result := Parallel.ofExcept result
  andThen hx hf := hx.attempt.bind hf
  keeping refs _ hx := parallel_keeping refs hx
  paused t _ hx := fun w v h => (hx _ _ (h.mapTracker t _ _)).framed t none fun _ _ h' => h'.mapTracker t _ _
  moment moment hx := by rwa [under_of_holds fun _ => trivial]
  congr hcongr hx := by
    intro w v h r w' hr
    rw [(hcongr w h.origin).1] at hr
    rw [(hcongr v (h.origin.trans h.data)).1]
    exact hx w v h r w' hr
  property object key _ _ := parallel_get hc hquiet hgetter object key _ _
  computed id _ _ := parallel_readComputed hc hquiet hgetter id _ _

/-- However deep the engine is entered again, programs that only read go the same way in worlds with the same
face. -/
theorem parallel_run_reentry
    (hquiet : ∀ o w, application.holds (application.notes o w) = application.holds w.memory)
    (hgetters : application.GettersRead) (start : World Code Memory) {program : Program Code Memory α}
    (hreads : program.ReadsOnly) (depth : Nat) :
    Parallel (World.SameFace application.holds start) ((reentry application depth).run program)
      ((reentry application depth).run program) := by
  induction depth generalizing α with
  | zero => exact Parallel.exhausted
  | succ depth inductionHypothesis =>
    have hc := application_reentry application depth
    have hgetter := parallel_runGetter hc hquiet fun code owner? => inductionHypothesis (hgetters code owner?)
    have h := (parallel_rules hc hquiet hgetter).follow (fun _ _ => trivial) hreads
    rwa [followUnder_of_holds (P := fun _ _ _ => True) (fun _ _ _ => trivial) []] at h

theorem parallel_get_reentry
    (hquiet : ∀ o w, application.holds (application.notes o w) = application.holds w.memory)
    (hgetters : application.GettersRead) (start : World Code Memory) (depth : Nat) (object : ObjectId)
    (key : String) (reader other : Option TrackerId) :
    Parallel (World.SameFace application.holds start) (Engine.get (reentry application depth) object key reader)
      (Engine.get (reentry application depth) object key other) :=
  have hc := application_reentry application depth
  parallel_get hc hquiet (parallel_runGetter hc hquiet fun code owner? =>
    parallel_run_reentry hquiet hgetters start (hgetters code owner?) depth) object key reader other

end Engine

end ViewBinding
