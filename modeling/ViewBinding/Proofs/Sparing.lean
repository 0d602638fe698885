import ViewBinding.Proofs.Achieving
import ViewBinding.Proofs.Listing
import ViewBinding.Proofs.Upkeep

/-!
# Reading spares the watchers

Whatever is read, no watcher is touched but those that are evaluating, and all that happens to these is
that they note what they meet. Every source that lists one of them later but did not before is among the
sources that it has noted. This needs no order among the computed properties, only getters that read.
-/

namespace ViewBinding

open Engine

variable {Code Memory : Type} [Inhabited Code]

/-- A program that reads whatever it likes and does nothing else. -/
def Program.ReadsOnly {α : Type} (program : Program Code Memory α) : Prop :=
  program.Reads (.free fun _ => True)

namespace World

/-- Worlds with the same values in them, whatever is cached, whoever listens, and whatever hosts the
bindings. -/
structure Kin (w w' : World Code Memory) : Prop where
  size : w'.objects.size = w.objects.size
  slots : ∀ id, (w'.object id).slots = (w.object id).slots
  observed : ∀ id, (w'.object id).observed = (w.object id).observed
  functions : w'.functions = w.functions
  arrays : w'.arrays = w.arrays
  probes : w'.probes = w.probes
  bases : ∀ id, (w'.computed id).base = (w.computed id).base
  faces : ∀ id, (w'.viewModel id).face = (w.viewModel id).face

/-- The getter of every computed property only reads. -/
def GettersRead (application : Application Code Memory) (w : World Code Memory) : Prop :=
  ∀ id, (application.getter (w.computed id).getter.code (w.computed id).getter.owner?).ReadsOnly

omit [Inhabited Code] in
/-- Every watcher that evaluates has been made. -/
def Manned (w : World Code Memory) : Prop :=
  ∀ id : WatcherId, w.Evaluates (.watcher id) → id.index < w.watchers.size

omit [Inhabited Code] in
/-- The lists of all sources agree on some watchers, and on their order. -/
def ListsAlike (who : WatcherId → Prop) (w w' : World Code Memory) : Prop :=
  ∀ keep : Subscriber → Bool, (∀ y, keep y = true → ∃ id, y = .watcher id ∧ who id) →
    ∀ s, (w'.source s).subscribers.filter keep = (w.source s).subscribers.filter keep

/-- Books were kept while something was read, but those of the watchers only that are `busy`. -/
structure Spares (holds : Memory → List Ref) (busy : WatcherId → Prop) (w w' : World Code Memory) :
    Prop extends World.Rests holds w w' where
  data : w.SameData w'
  bases : ∀ id, (w'.computed id).base = (w.computed id).base
  size : w'.watchers.size = w.watchers.size
  row : ∀ id, ¬ busy id → w'.watcher id = w.watcher id
  listed : w.ListsAlike (fun id => ¬ busy id) w'

/-- A watcher has noted the sources that have listed it since. -/
structure Collects (id : WatcherId) (w w' : World Code Memory) : Prop where
  current : (w'.watcher id).dependencies.current = (w.watcher id).dependencies.current
  pending : ∀ s ∈ (w.watcher id).dependencies.pending, s ∈ (w'.watcher id).dependencies.pending
  listed : ∀ s, Subscriber.watcher id ∈ (w'.source s).subscribers →
    .watcher id ∈ (w.source s).subscribers ∨ s ∈ (w'.watcher id).dependencies.pending

/-- What reading does: those that evaluate collect what they meet, the others are spared. -/
structure Browses (holds : Memory → List Ref) (w w' : World Code Memory) : Prop where
  spares : Spares holds (fun id => w.Evaluates (.watcher id)) w w'
  collects : ∀ id, Collects id w w'

section Lists

omit [Inhabited Code]

variable {who who' : WatcherId → Prop} {w w₁ w₂ : World Code Memory} {x : WatcherId}

theorem ListsAlike.refl (w : World Code Memory) : w.ListsAlike who w :=
  fun _ _ _ => rfl

theorem ListsAlike.trans (h : w.ListsAlike who w₁) (h' : w₁.ListsAlike who w₂) :
    w.ListsAlike who w₂ :=
  fun keep hkeep s => (h' keep hkeep s).trans (h keep hkeep s)

theorem ListsAlike.mono (h : w.ListsAlike who w₁) (hsub : ∀ id, who' id → who id) :
    w.ListsAlike who' w₁ :=
  fun keep hkeep => h keep fun y hy => (hkeep y hy).imp fun id hid => ⟨hid.1, hsub id hid.2⟩

/-- Lists that agree on a watcher both have it or both do not. -/
theorem ListsAlike.mem (h : w.ListsAlike who w₁) (hx : who x) (s : SourceId) :
    Subscriber.watcher x ∈ (w₁.source s).subscribers ↔ .watcher x ∈ (w.source s).subscribers := by
  have hfilter := h (fun y => decide (y = .watcher x))
    (fun y hy => ⟨x, of_decide_eq_true hy, hx⟩) s
  have hmem : Subscriber.watcher x ∈ (w₁.source s).subscribers.filter (fun y => decide (y = .watcher x))
      ↔ .watcher x ∈ (w.source s).subscribers.filter fun y => decide (y = .watcher x) := by
    rw [hfilter]
  simpa using hmem

/-- Lists agree that are the same. -/
theorem listsAlike_of_subscribers
    (h : ∀ s, (w₁.source s).subscribers = (w.source s).subscribers) : w.ListsAlike who w₁ :=
  fun _ _ s => by rw [h s]

/-- Somebody else joins a source. -/
theorem listsAlike_register (w : World Code Memory) (source : SourceId) {subscriber : Subscriber}
    (hother : ∀ id, who id → subscriber ≠ .watcher id) :
    w.ListsAlike who (w.mapSource source (·.register subscriber)) := by
  intro keep hkeep s
  have hnot : keep subscriber ≠ true := by
    intro h
    obtain ⟨id, rfl, hid⟩ := hkeep subscriber h
    exact hother id hid rfl
  rw [source_mapSource]
  split
  · next heq =>
    subst heq
    unfold Source.register
    split
    · rfl
    · simp [List.filter_append, hnot]
  · rfl

/-- Somebody else leaves some sources. -/
theorem listsAlike_unregisterAll (w : World Code Memory) {subscriber : Subscriber}
    (hother : ∀ id, who id → subscriber ≠ .watcher id) (l : List SourceId) :
    w.ListsAlike who (w.unregisterAll subscriber l) := by
  induction l generalizing w with
  | nil => exact .refl w
  | cons source rest inductionHypothesis =>
    refine ListsAlike.trans (fun keep hkeep s => ?_) (inductionHypothesis _)
    rw [source_mapSource]
    split
    · next heq =>
      subst heq
      rw [Source.unregister, List.filter_filter]
      refine List.filter_congr fun y _ => ?_
      by_cases hy : keep y = true
      · obtain ⟨id, rfl, hid⟩ := hkeep y hy
        simp [(hother id hid).symm]
      · simp [hy]
    · rfl

end Lists

section Relations

variable {holds : Memory → List Ref} {busy busy' : WatcherId → Prop} {w w₁ w₂ : World Code Memory}

theorem Kin.refl (w : World Code Memory) : w.Kin w :=
  ⟨rfl, fun _ => rfl, fun _ => rfl, rfl, rfl, rfl, fun _ => rfl, fun _ => rfl⟩

theorem Kin.trans (h : w.Kin w₁) (h' : w₁.Kin w₂) : w.Kin w₂ where
  size := h'.size.trans h.size
  slots id := (h'.slots id).trans (h.slots id)
  observed id := (h'.observed id).trans (h.observed id)
  functions := h'.functions.trans h.functions
  arrays := h'.arrays.trans h.arrays
  probes := h'.probes.trans h.probes
  bases id := (h'.bases id).trans (h.bases id)
  faces id := (h'.faces id).trans (h.faces id)

theorem SameData.kin (h : w.SameData w₁)
    (hbases : ∀ id, (w₁.computed id).base = (w.computed id).base) : w.Kin w₁ where
  size := h.size
  slots := h.slots
  observed := h.observed
  functions := h.functions
  arrays := h.arrays
  probes := h.probes
  bases := hbases
  faces id := by rw [viewModel, h.viewModels, viewModel]

theorem GettersRead.of_bases {application : Application Code Memory}
    (h : w.GettersRead application)
    (hbases : ∀ id, (w₁.computed id).base = (w.computed id).base) :
    w₁.GettersRead application := by
  intro id
  rw [Computed.getter_eq_of_base_eq (hbases id)]
  exact h id

omit [Inhabited Code] in
theorem Manned.of_rests (h : w.Manned) (hrests : Rests holds w w₁)
    (hsize : w.watchers.size ≤ w₁.watchers.size) : w₁.Manned :=
  fun id hid => Nat.lt_of_lt_of_le (h id ((evaluates_congr hrests.trackers).mp hid)) hsize

theorem Spares.refl (w : World Code Memory) : Spares holds busy w w :=
  ⟨.refl w, .refl w, fun _ => rfl, rfl, fun _ _ => rfl, .refl w⟩

theorem Spares.trans (h : Spares holds busy w w₁) (h' : Spares holds busy w₁ w₂) :
    Spares holds busy w w₂ where
  toRests := h.toRests.trans h'.toRests
  data := h.data.trans h'.data
  bases id := (h'.bases id).trans (h.bases id)
  size := h'.size.trans h.size
  row id hid := (h'.row id hid).trans (h.row id hid)
  listed := h.listed.trans h'.listed

theorem Spares.mono (h : Spares holds busy w w₁) (hbusy : ∀ id, busy id → busy' id) :
    Spares holds busy' w w₁ :=
  ⟨h.toRests, h.data, h.bases, h.size, fun id hid => h.row id fun hb => hid (hbusy id hb),
    h.listed.mono fun id hid hb => hid (hbusy id hb)⟩

omit [Inhabited Code] in
theorem Collects.refl (id : WatcherId) (w : World Code Memory) : Collects id w w :=
  ⟨rfl, fun _ h => h, fun _ => Or.inl⟩

omit [Inhabited Code] in
theorem Collects.trans {id : WatcherId} (h : Collects id w w₁) (h' : Collects id w₁ w₂) :
    Collects id w w₂ where
  current := h'.current.trans h.current
  pending s hs := h'.pending s (h.pending s hs)
  listed s hs := by
    rcases h'.listed s hs with hs₁ | hs₂
    · exact (h.listed s hs₁).imp_right (h'.pending s)
    · exact Or.inr hs₂

theorem Browses.refl (w : World Code Memory) : Browses holds w w :=
  ⟨.refl w, fun id => .refl id w⟩

theorem Browses.trans (h : Browses holds w w₁) (h' : Browses holds w₁ w₂) :
    Browses holds w w₂ where
  spares := h.spares.trans (h'.spares.mono fun _ => (evaluates_congr h.spares.trackers).mp)
  collects id := (h.collects id).trans (h'.collects id)

/-- A change that leaves watchers and stacks alone, and the lists of sources as far as watchers are on
them. -/
theorem browses_of_same (hrests : Rests holds w w₁) (hdata : w.SameData w₁)
    (hbases : ∀ id, (w₁.computed id).base = (w.computed id).base)
    (hwatchers : w₁.watchers = w.watchers) (hlisted : w.ListsAlike (fun _ => True) w₁) :
    Browses holds w w₁ := by
  have hrow : ∀ id, w₁.watcher id = w.watcher id := by
    intro id
    rw [watcher, hwatchers, watcher]
  refine ⟨⟨hrests, hdata, hbases, by rw [hwatchers], fun id _ => hrow id,
    hlisted.mono fun _ _ => trivial⟩, ?_⟩
  intro id
  exact ⟨by rw [hrow], fun s hs => by rw [hrow]; exact hs,
    fun s hs => Or.inl ((hlisted.mem trivial s).mp hs)⟩

/-- What is set aside is spared, if it is nothing of a watcher. -/
theorem Aside.browses (h : Aside holds w w₁) (hwatchers : w₁.watchers = w.watchers)
    (hlisted : w.ListsAlike (fun _ => True) w₁) : Browses holds w w₁ :=
  browses_of_same h.toRests h.data (fun id => Computed.base_eq_of_face_eq (h.computeds id)) hwatchers
    hlisted

/-- Frames are taken off as they were put on. -/
theorem Spares.popped {t : TrackerId} {frame : Frame}
    (h : Spares holds busy (w.mapTracker t (·.push frame)) w₁) :
    Spares holds busy w (w₁.mapTracker t (·.pop)) where
  trackers := tracker_pop_push w t frame w₁ h.trackers
  held := h.held
  holds := h.holds
  watchers := h.watchers
  data := ⟨h.data.size, h.data.slots, h.data.observed, h.data.functions, h.data.arrays,
    h.data.probes, h.data.nodes, h.data.bindings, h.data.viewModels⟩
  bases := h.bases
  size := h.size
  row := h.row
  listed := h.listed

omit [Inhabited Code] in
theorem Collects.popped {t : TrackerId} {frame : Frame} {id : WatcherId}
    (h : Collects id (w.mapTracker t (·.push frame)) w₁) : Collects id w (w₁.mapTracker t (·.pop)) :=
  ⟨h.current, h.pending, h.listed⟩

theorem Browses.popped {t : TrackerId} {frame : Frame} (hframe : ∀ id, frame ≠ some (.watcher id))
    (h : Browses holds (w.mapTracker t (·.push frame)) w₁) :
    Browses holds w (w₁.mapTracker t (·.pop)) where
  spares := (h.spares.mono fun id hid =>
    ((evaluates_push w t frame).mp hid).resolve_left (hframe id)).popped
  collects id := (h.collects id).popped

omit [Inhabited Code] in
theorem Manned.pushed (h : w.Manned) {t : TrackerId} {frame : Frame}
    (hframe : ∀ id, frame = some (.watcher id) → id.index < w.watchers.size) :
    (w.mapTracker t (·.push frame)).Manned := by
  intro id hid
  rcases (evaluates_push w t frame).mp hid with heq | hw
  · exact hframe id heq
  · exact h id hw

/-! ### The steps of reading -/

variable {application : Application Code Memory}
  (hquiet : ∀ o w, application.holds (application.notes o w) = application.holds w.memory)

include hquiet in
theorem browses_note (w : World Code Memory) (occurrence : Occurrence) :
    Browses application.holds w (w.note application occurrence) :=
  (aside_note hquiet w occurrence).browses rfl (listsAlike_of_subscribers fun _ => rfl)

theorem browses_count (w : World Code Memory) (id : ComputedId) :
    Browses holds w (w.mapComputed id fun x => { x with evaluations := x.evaluations + 1 }) :=
  (aside_count w id).browses rfl (listsAlike_of_subscribers fun _ => rfl)

theorem browses_cache (w : World Code Memory) (id : ComputedId) (value : Value) :
    Browses holds w (w.mapComputed id fun x => { x with cache := some value }) := by
  refine browses_of_same ⟨fun _ => rfl, rfl, rfl, fun _ => rfl⟩
    ⟨rfl, fun _ => rfl, fun _ => rfl, rfl, rfl, rfl, rfl, rfl, rfl⟩ ?_ rfl
    (listsAlike_of_subscribers fun _ => rfl)
  intro j
  rw [computed_mapComputed]
  split
  · next h => rw [h]; rfl
  · rfl

theorem browses_await (w : World Code Memory) {object : ObjectId} (key : String)
    (hobserved : (w.object object).observed = true) :
    Browses holds w (w.await object key).2 := by
  refine (aside_await w key hobserved).browses ?_ ?_
  · unfold await
    split <;> rfl
  · refine listsAlike_of_subscribers fun s => ?_
    unfold await
    split
    · rfl
    · exact congrArg Source.subscribers (source_addSource w s)

theorem browses_dependencies (w : World Code Memory) (id : ComputedId)
    (f : Dependencies → Dependencies) :
    Browses holds w (w.mapDependencies (.computed id) f) :=
  (aside_mapDependencies w _ f).browses rfl (listsAlike_of_subscribers fun _ => rfl)

theorem browses_settle (w : World Code Memory) (id : ComputedId) :
    Browses holds w (w.settle (.computed id)) := by
  refine (aside_settle w _).browses ?_ ?_
  · rw [settle_eq]
    rfl
  · exact listsAlike_unregisterAll (w.mapDependencies (.computed id) (·.settle))
      (fun _ _ => Subscriber.noConfusion) _

/-- Only a subscriber that evaluates meets a source, and it notes it. -/
theorem browses_meet (hmanned : w.Manned) {subscriber : Subscriber} (hevaluates : w.Evaluates subscriber)
    (source : SourceId) :
    Browses holds w ((w.mapSource source (·.register subscriber)).mapDependencies subscriber
      (·.record source)) := by
  have haside : Aside holds w ((w.mapSource source (·.register subscriber)).mapDependencies subscriber
      (·.record source)) := (aside_sources w _).trans (aside_mapDependencies _ subscriber _)
  have hlisted : ∀ id s, Subscriber.watcher id ∈ (((w.mapSource source
      (·.register subscriber)).mapDependencies subscriber (·.record source)).source s).subscribers ↔
      .watcher id ∈ (w.source s).subscribers ∨ (.watcher id = subscriber ∧ s = source) := by
    intro id s
    have hsource : ((w.mapSource source (·.register subscriber)).mapDependencies subscriber
        (·.record source)).source s = (w.mapSource source (·.register subscriber)).source s := by
      cases subscriber <;> rfl
    rw [hsource, source_mapSource]
    split
    · next h => simp [h]
    · next h => simp [h]
  cases subscriber with
  | computed id =>
    exact haside.browses rfl (listsAlike_register w source fun _ _ => Subscriber.noConfusion)
  | probe id =>
    exact haside.browses rfl (listsAlike_register w source fun _ _ => Subscriber.noConfusion)
  | watcher id =>
    have hrow : ∀ j, ((w.mapSource source (·.register (.watcher id))).mapDependencies (.watcher id)
        (·.record source)).watcher j = if j = id then
          { w.watcher id with dependencies := (w.watcher id).dependencies.record source }
        else w.watcher j := fun j =>
      watcher_mapWatcher (w.mapSource source (·.register (.watcher id))) id j _
    have hother : ∀ j, ¬ w.Evaluates (.watcher j) → j ≠ id := by
      rintro j hj rfl
      exact hj hevaluates
    refine ⟨⟨haside.toRests, haside.data, fun _ => rfl,
      Table.size_modify_of_lt _ (hmanned id hevaluates) _, ?_, ?_⟩, ?_⟩
    · intro j hj
      rw [hrow, if_neg (hother j hj)]
    · refine listsAlike_register w source fun j hj heq => ?_
      exact hother j hj (Subscriber.watcher.inj heq).symm
    · intro j
      by_cases hj : j = id
      · subst hj
        refine ⟨?_, ?_, ?_⟩
        · rw [hrow, if_pos rfl, Dependencies.current_record]
        · intro s hs
          rw [hrow, if_pos rfl]
          exact Dependencies.mem_pending_record.mpr (Or.inl hs)
        · intro s hs
          rw [hrow, if_pos rfl]
          rcases (hlisted j s).mp hs with hw | ⟨-, rfl⟩
          · exact Or.inl hw
          · exact Or.inr (Dependencies.mem_pending_record.mpr (Or.inr rfl))
      · refine ⟨?_, ?_, ?_⟩
        · rw [hrow, if_neg hj]
        · intro s hs
          rw [hrow, if_neg hj]
          exact hs
        · intro s hs
          rcases (hlisted j s).mp hs with hw | ⟨heq, -⟩
          · exact Or.inl hw
          · exact absurd (Subscriber.watcher.inj heq) hj

end Relations

/-- A world that may be met while something is read that began to be read at `start`. -/
structure Meanwhile (start w : World Code Memory) : Prop where
  data : start.SameData w
  bases : ∀ id, (w.computed id).base = (start.computed id).base
  manned : w.Manned

theorem Meanwhile.browses {holds : Memory → List Ref} {start w w' : World Code Memory}
    (h : start.Meanwhile w) (hw : Browses holds w w') : start.Meanwhile w' where
  data := h.data.trans hw.spares.data
  bases id := (hw.spares.bases id).trans (h.bases id)
  manned := h.manned.of_rests hw.spares.toRests (Nat.le_of_eq hw.spares.size.symm)

end World

namespace Engine

/-- Wherever it begins while something is read, a step browses. -/
def Browsing (holds : Memory → List Ref) (sure : Prop) (start : World Code Memory) {α : Type}
    (x : Engine Code Memory α) : Prop :=
  ∀ w, start.Meanwhile w → Achieves sure w x fun _ w' => World.Browses holds w w'

section Steps

variable {application : Application Code Memory} {c : Reentry Code Memory} {sure : Prop}
  {start : World Code Memory} {α β : Type} {holds : Memory → List Ref}

theorem Browsing.ofExcept (r : Except Error α) : Browsing holds sure start (ofExcept r) :=
  fun w _ => (achieves_ofExcept r).mpr (.refl w)

theorem Browsing.pure (a : α) : Browsing holds sure start (pure a : Engine Code Memory α) :=
  fun w _ => (achieves_pure a).mpr (.refl w)

theorem Browsing.throw (e : Error) :
    Browsing holds sure start (throw e : Engine Code Memory α) :=
  fun w _ => (achieves_throw e).mpr (.refl w)

theorem Browsing.bind {x : Engine Code Memory α} {f : α → Engine Code Memory β}
    (hx : Browsing holds sure start x) (hf : ∀ a, Browsing holds sure start (f a)) :
    Browsing holds sure start (x >>= f) := by
  intro w hw
  refine (hx w hw).bind (fun a w' h => ?_) fun _ _ h => h
  exact (hf a w' (hw.browses h)).mono fun _ _ h' => h.trans h'

theorem Browsing.attempt_bind {x : Engine Code Memory α} {f : Except Error α → Engine Code Memory β}
    (hx : Browsing holds sure start x) (hf : ∀ r, Browsing holds sure start (f r)) :
    Browsing holds sure start (attempt x >>= f) := by
  intro w hw
  refine (hx w hw).attempt_bind fun r w' h => ?_
  exact (hf r w' (hw.browses h)).mono fun _ _ h' => h.trans h'

theorem Browsing.keeping {x : Engine Code Memory α} (refs : List Ref)
    (hx : Browsing holds sure start x) : Browsing holds sure start (keeping refs x) := by
  intro w hw
  refine Achieves.keeping refs (hx _ ⟨hw.data.trans ?_, hw.bases, hw.manned⟩) fun r w' h => ?_
  · exact ⟨rfl, fun _ => rfl, fun _ => rfl, rfl, rfl, rfl, rfl, rfl, rfl⟩
  · obtain ⟨hspares, hcollects⟩ := h
    refine ⟨⟨⟨hspares.trackers, rfl, hspares.holds, hspares.watchers⟩, ?_, hspares.bases, hspares.size,
      hspares.row, hspares.listed⟩, fun id => ?_⟩
    · exact ⟨hspares.data.size, hspares.data.slots, hspares.data.observed, hspares.data.functions,
        hspares.data.arrays, hspares.data.probes, hspares.data.nodes, hspares.data.bindings,
        hspares.data.viewModels⟩
    · exact ⟨(hcollects id).current, (hcollects id).pending, (hcollects id).listed⟩

/-- In a frame that is no watcher's. -/
theorem Browsing.framed {x : Engine Code Memory α} (t : TrackerId) {frame : Frame}
    (hframe : ∀ id, frame ≠ some (.watcher id)) (hx : Browsing holds sure start x) :
    Browsing holds sure start (framed (some t) frame x) := by
  intro w hw
  refine Achieves.framed t frame (hx _ ⟨hw.data.trans ?_, hw.bases, ?_⟩) fun r w' h => h.popped hframe
  · exact ⟨rfl, fun _ => rfl, fun _ => rfl, rfl, rfl, rfl, rfl, rfl, rfl⟩
  · exact hw.manned.pushed fun id hid => absurd hid (hframe id)

variable (hquiet : ∀ o w, application.holds (application.notes o w) = application.holds w.memory)
  (hc : c.application = application)

include hquiet hc in
theorem browsing_note (occurrence : Occurrence) :
    Browsing application.holds sure start (note c occurrence) := by
  intro w _
  rw [note, hc, achieves_update]
  exact World.browses_note hquiet w occurrence

include hquiet hc in
theorem browsing_depend (reader : Option TrackerId) (source : SourceId) :
    Browsing application.holds sure start (depend c reader source) := by
  intro w hw
  rw [depend, achieves_update]
  cases hreader : w.current? reader with
  | none => exact .refl w
  | some subscriber =>
    rw [hc]
    exact (World.browses_meet hw.manned (World.evaluates_of_current? hreader) source).trans
      (World.browses_note hquiet _ _)

include hquiet hc in
/-- A computed property evaluates. -/
theorem browsing_evaluate {x : Engine Code Memory Value} (t : TrackerId) (id : ComputedId)
    (hx : Browsing application.holds sure start x) :
    Browsing application.holds sure start (evaluate c t (.computed id) x) := by
  refine Browsing.bind (fun w _ => (achieves_update _).mpr (World.browses_dependencies w id _))
    fun _ => (browsing_note hquiet hc _).bind fun _ => ?_
  refine Browsing.attempt_bind (hx.framed t fun _ h => by cases h) fun r => ?_
  cases r with
  | ok value =>
    refine Browsing.bind (fun w _ => (achieves_update _).mpr (World.browses_settle w id)) fun _ => ?_
    exact (browsing_note hquiet hc _).bind fun _ => Browsing.pure value
  | error error =>
    refine Browsing.bind (fun w _ => (achieves_update _).mpr (World.browses_dependencies w id _))
      fun _ => ?_
    exact (browsing_note hquiet hc _).bind fun _ => Browsing.throw error

variable (hgetter : ∀ id, Browsing application.holds sure start (runGetter c id))

include hquiet hc hgetter

theorem browsing_memoizedValue (id : ComputedId) :
    Browsing application.holds sure start (memoizedValue c id) := by
  intro w hw
  rw [memoizedValue, achieves_inspect_bind]
  cases (w.computed id).cache with
  | some value => exact Browsing.pure value w hw
  | none =>
    refine ((browsing_evaluate hquiet hc _ id (hgetter id)).bind fun value => ?_) w hw
    refine Browsing.bind (fun w _ => (achieves_update _).mpr (World.browses_cache w id value)) fun _ => ?_
    exact Browsing.pure value

theorem browsing_readComputed (id : ComputedId) (reader : Option TrackerId) :
    Browsing application.holds sure start (readComputed c id reader) := by
  refine Browsing.keeping _ fun w hw => ?_
  rw [achieves_inspect_bind]
  cases (w.computed id).memoize with
  | true =>
    refine ((browsing_depend hquiet hc reader _).bind fun _ => ?_) w hw
    exact browsing_memoizedValue hquiet hc hgetter id
  | false => exact hgetter id w hw

theorem browsing_readSlot (holder : ObjectId) (name : String) (reader : Option TrackerId)
    (slot : Option Slot) : Browsing application.holds sure start (readSlot c holder name reader slot) := by
  intro w hw
  cases slot with
  | none =>
    rw [readSlot, achieves_inspect_bind]
    split
    · next h =>
      rw [Bool.and_eq_true] at h
      rw [achieves_create_bind]
      have hawait : World.Browses application.holds w (w.await holder name).2 :=
        World.browses_await w name h.1
      refine (((browsing_depend hquiet hc reader _).bind fun _ => Browsing.pure _) _
        (hw.browses hawait)).mono fun r w' h' => hawait.trans h'
    · exact Browsing.pure _ w hw
  | some slot =>
    cases slot with
    | field value source =>
      cases source with
      | none => exact Browsing.pure value w hw
      | some source =>
        exact ((browsing_depend hquiet hc reader source).bind fun _ => Browsing.pure value) w hw
    | constant value => exact Browsing.pure value w hw
    | proxy target other => exact Browsing.pure _ w hw
    | computed id => exact browsing_readComputed hquiet hc hgetter id reader w hw

theorem browsing_get (object : ObjectId) (key : String) (reader : Option TrackerId) :
    Browsing application.holds sure start (Engine.get c object key reader) := by
  intro w hw
  rw [Engine.get, achieves_inspect_bind]
  refine Browsing.keeping _ (fun w' hw' => ?_) w hw
  rw [achieves_inspect_bind]
  exact browsing_readSlot hquiet hc hgetter _ _ reader _ w' hw'

/-- The rules of reading, without supervision. -/
theorem browsing_rules : ReadingRules c c (fun _ _ => True) (fun _ _ => True) start
    (fun _ _ _ x _ => Browsing application.holds sure start x) where
  done result := Browsing.ofExcept result
  andThen hx hf := Browsing.attempt_bind hx hf
  keeping refs _ hx := Browsing.keeping refs hx
  paused t _ hx := Browsing.framed t (fun _ h => by cases h) hx
  moment moment hx := by rwa [under_of_holds fun _ => trivial]
  congr hcongr hx := by
    intro w hw
    exact (hx w hw).congr (hcongr w hw.data).1
  property object key _ _ := browsing_get hquiet hc hgetter object key _
  computed id _ _ := browsing_readComputed hquiet hc hgetter id _

theorem browsing_readPath (root : Value) (path : Path) (reader : Option TrackerId) :
    Browsing application.holds sure start (readPath c root path reader) :=
  (browsing_rules hquiet hc hgetter).readPath (m := .free fun _ => True) trivial root path

theorem browsing_renderTemplate (template : Template) (root : Value) (reader : Option TrackerId) :
    Browsing application.holds sure start (renderTemplate c template root reader) :=
  (browsing_rules hquiet hc hgetter).segments (m := .free fun _ => True) trivial root template.segments

theorem browsing_follow {program : Program Code Memory α} (hreads : program.ReadsOnly) :
    Browsing application.holds sure start (follow c program) := by
  have h := (browsing_rules hquiet hc hgetter).follow (fun _ _ => trivial) hreads
  have hsame := followUnder_of_holds (P := fun _ _ _ => True) (fun _ _ _ => trivial) [] c program
  rwa [hsame] at h

omit hgetter in
/-- A getter browses if the programs that only read do. -/
theorem browsing_runGetter (hreads : start.GettersRead application)
    (hrun : ∀ {program : Program Code Memory Value}, program.ReadsOnly →
      Browsing application.holds sure start (c.run program)) (id : ComputedId) :
    Browsing application.holds sure start (runGetter c id) := by
  rw [runGetter]
  refine Browsing.bind (fun w _ => (achieves_update _).mpr (World.browses_count w id)) fun _ => ?_
  refine (browsing_note hquiet hc _).bind fun _ w hw => ?_
  have hgetter := hreads id
  rw [← Computed.getter_eq_of_base_eq (hw.bases id)] at hgetter
  rw [achieves_inspect_bind]
  cases h : (w.computed id).getter with
  | free code =>
    rw [h] at hgetter
    simp only [hc]
    exact hrun hgetter w hw
  | ofViewModel owner code =>
    rw [h] at hgetter
    simp only [achieves_inspect_bind, hc]
    split
    · exact Browsing.keeping _ (hrun hgetter) w hw
    · exact Browsing.throw _ w hw

end Steps

section Depth

variable {application : Application Code Memory}
  (hquiet : ∀ o w, application.holds (application.notes o w) = application.holds w.memory)

theorem application_reentry (application : Application Code Memory) (depth : Nat) :
    (reentry application depth).application = application := by
  cases depth <;> rfl

include hquiet

/-- At any depth, programs that only read browse if they end. -/
theorem browsing_run_reentry {start : World Code Memory} (hreads : start.GettersRead application)
    {α : Type} {program : Program Code Memory α} (hprogram : program.ReadsOnly) (depth : Nat) :
    Browsing application.holds False start ((reentry application depth).run program) := by
  induction depth generalizing α with
  | zero => exact fun w _ => (ends_exhausted _).achieves id
  | succ depth inductionHypothesis =>
    have hc := application_reentry application depth
    exact browsing_follow hquiet hc (browsing_runGetter hquiet hc hreads inductionHypothesis) hprogram

end Depth

/-- Every getter comes to an end, whatever is cached and whatever hosts the bindings. -/
def Answers (c : Reentry Code Memory) (w : World Code Memory) : Prop :=
  ∀ w', w.Kin w' → ∀ id, ∃ outcome, runGetter c id w' = some outcome

/-- What the parts of an operation rely on that begins at `origin`: its getters only read, and it is
`sure` that they end. -/
structure Relies (application : Application Code Memory) (sure : Prop) (c : Reentry Code Memory)
    (origin : World Code Memory) : Prop where
  codes : c.application = application
  quiet : ∀ o w, application.holds (application.notes o w) = application.holds w.memory
  getter {start : World Code Memory} : origin.Kin start → ∀ id,
    Browsing application.holds sure start (runGetter c id)

/-- Operations of the engine may rely on the getters of the world that they begin in. -/
theorem relies_reentry {application : Application Code Memory}
    (hquiet : ∀ o w, application.holds (application.notes o w) = application.holds w.memory)
    {origin : World Code Memory} (hreads : origin.GettersRead application) (depth : Nat) :
    Relies application (Answers (reentry application depth) origin) (reentry application depth)
      origin where
  codes := application_reentry application depth
  quiet := hquiet
  getter hkin id w hw := by
    have hread := hreads.of_bases hkin.bases
    have h := browsing_runGetter hquiet (application_reentry application depth) hread
      (fun h => browsing_run_reentry hquiet hread h depth) id w hw
    exact ⟨h.ends, fun hsure => hsure w (hkin.trans (hw.data.kin hw.bases)) id⟩

end Engine

end ViewBinding
