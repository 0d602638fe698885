import ViewBinding.Proofs.Heeding

/-!
# Steps of reading that everybody heeds

Meeting a source, beginning to evaluate and having evaluated, each as it shows to the readers of a
realm. What a computed property has met while it evaluated becomes its list, and covers what its getter
asks for; so the value that is kept is settled.
-/

namespace ViewBinding

open Engine World

variable {Code Memory : Type} [Inhabited Code]

namespace World

/-- The world in which a computed property keeps the value that it was found to have. -/
def caching (w : World Code Memory) (id : ComputedId) : Except Error Value → World Code Memory
  | .ok value => w.mapComputed id fun x => { x with cache := some value }
  | .error _ => w

variable {application : Application Code Memory} {w w₁ : World Code Memory} {x y : Subscriber}

theorem dependencies_meeting (hy : ∀ id, y ≠ .probe id) (s : SourceId) :
    (w.meeting application y s).dependencies x
      = if x = y then (w.dependencies y).record s else w.dependencies x := by
  rw [meeting, dependencies_note, dependencies_mapDependencies _ _ _ _ (Or.inr hy)]
  rfl

theorem closing_tables (w₁ : World Code Memory) (t : TrackerId) (y : Subscriber)
    (r : Except Error Value) : (w₁.closing application t y r).objects = w₁.objects ∧
      (w₁.closing application t y r).viewModels = w₁.viewModels := by
  cases r with
  | ok value =>
    rw [closing, settle_eq]
    cases y <;> exact ⟨rfl, rfl⟩
  | error error => cases y <;> exact ⟨rfl, rfl⟩

theorem dependencies_closing (hy : ∀ id, y ≠ .probe id) (t : TrackerId) (r : Except Error Value) :
    (w₁.closing application t y r).dependencies x =
      if x = y then
        if r.toBool then (w₁.dependencies y).settle else (w₁.dependencies y).merge
      else w₁.dependencies x := by
  have hpop : ∀ x, (w₁.mapTracker t (·.pop)).dependencies x = w₁.dependencies x :=
    fun x => dependencies_congr rfl rfl
  cases r with
  | ok value =>
    rw [closing, dependencies_note, settle_eq]
    refine (dependencies_mapDependencies _ y x _ (Or.inr hy)).trans ?_
    rw [hpop, hpop, Except.toBool, if_pos rfl]
  | error error =>
    rw [closing, dependencies_note, dependencies_mapDependencies _ _ _ _ (Or.inr hy), hpop, hpop,
      Except.toBool, if_neg Bool.false_ne_true]

/-- What was met is on the list in the end. -/
theorem pending_closing (hy : ∀ id, y ≠ .probe id) (t : TrackerId) (r : Except Error Value) :
    ∀ s ∈ (w₁.dependencies y).pending,
      s ∈ ((w₁.closing application t y r).dependencies y).current := by
  intro s hs
  rw [dependencies_closing hy, if_pos rfl]
  cases r with
  | ok value => exact hs
  | error error => exact Dependencies.mem_current_merge.mpr (Or.inr hs)

/-- Evaluating changes no row but for the list. -/
theorem faces_closing (w₁ : World Code Memory) (t : TrackerId) (y : Subscriber)
    (r : Except Error Value) (id : ComputedId) :
    ((w₁.closing application t y r).computed id).face = (w₁.computed id).face := by
  cases r with
  | ok value =>
    exact (aside_settle (w₁.mapTracker t (·.pop)) y : Aside (fun _ : Memory => []) _ _).computeds id
  | error error =>
    exact (aside_mapDependencies (w₁.mapTracker t (·.pop)) y _ :
      Aside (fun _ : Memory => []) _ _).computeds id

theorem size_closing (w₁ : World Code Memory) (t : TrackerId) (r : Except Error Value)
    (hmade : ∀ id, y = .computed id → Key.index id < w₁.computeds.size) :
    (w₁.closing application t y r).computeds.size = w₁.computeds.size := by
  cases y with
  | computed id =>
    have hlt := hmade id rfl
    cases r with
    | ok value =>
      rw [closing, settle_eq]
      exact Table.size_modify_of_lt _ hlt _
    | error error => exact Table.size_modify_of_lt _ hlt _
  | watcher id =>
    cases r with
    | ok value =>
      rw [closing, settle_eq]
      rfl
    | error error => rfl
  | probe id =>
    cases r with
    | ok value =>
      rw [closing, settle_eq]
      rfl
    | error error => rfl

theorem record_closing {record : Memory → List Occurrence} (hrecord : application.Records record)
    (w₁ : World Code Memory) (t : TrackerId) (y : Subscriber) (r : Except Error Value) :
    record (w₁.closing application t y r).memory
      = .evaluated y r.toBool :: record w₁.memory := by
  cases r with
  | ok value => exact record_note hrecord (memory_settle _ y) _
  | error error => exact record_note hrecord (memory_mapDependencies _ y _) _

end World

namespace Realm

variable (k : Realm Code Memory)

/-- In a fair world the getters of the realm do as they should: they only read, on their tracker and
their own view model, cannot tell alike values apart, ask for nothing outside of the realm, and read
what can be heard of. A property that is not memoized reads where its readers do. If watchers are in the
realm, so are the computed properties that keys stand for. -/
structure Fair (w : World Code Memory) : Prop where
  reads : ∀ id, k.Scope w id → k.Reading w id
  alike : ∀ id, k.Scope w id → (k.query w id).Alike (k.query w id)
  home : ∀ id, k.Scope w id → (w.computed id).memoize = true → (w.computed id).tracker = k.tracker id
  plain : ∀ id other, k.Scope w id → k.Scope w other → (w.computed other).memoize = false →
    k.tracker other = k.tracker id
  owner : ∀ id, k.Scope w id → ∀ owner, (w.computed id).getter.owner? = some owner →
    .viewModel owner ∈ k.application.holds w.memory ∧ (w.viewModel owner).tracker = k.tracker id ∧
      Key.index owner < w.viewModels.size
  asks : ∀ id, k.Scope w id → ((k.setting w).view w).Along ((k.setting w).Asks w) (k.query w id)
  heard : ∀ id, k.Scope w id → (k.afresh w).Along w.Heard (k.query w id)
  named : k.watchers → ∀ object key id, w.slotAt object key = some (.computed id) → k.computed id
  shared : k.watchers → ∀ id, k.Scope w id → (w.computed id).memoize = false → k.tracker id = k.home

/-- What those who evaluate have met so far stays noted, and none of them has a value yet. -/
structure Minds (w w' : World Code Memory) : Prop where
  pending : ∀ x, k.Has x → w.Evaluates x →
    ∀ s ∈ (w.dependencies x).pending, s ∈ (w'.dependencies x).pending
  caches : ∀ id, k.computed id → w.Evaluates (.computed id) →
    (w'.computed id).cache = (w.computed id).cache

/-- A step of reading. -/
structure Forth (late : Subscriber → Prop) (w w' : World Code Memory) : Prop where
  onward : k.Onward (properties late) w w'
  minds : k.Minds w w'
  dropped : ∀ x, k.Has x → (Trail.ofHistory x (k.record w'.memory)).dropped
    = (Trail.ofHistory x (k.record w.memory)).dropped
  heeds : k.Heeds late w'

variable {k} {late : Subscriber → Prop} {w w₁ w' start : World Code Memory} {x y : Subscriber}
  {id : ComputedId}

omit [Inhabited Code] in
theorem Has.not_probe (hx : k.Has x) (id : ProbeId) : x ≠ .probe id := by
  rintro rfl
  exact hx

theorem Forth.refl (h : k.Heeds late w) : k.Forth late w w :=
  ⟨.refl w, ⟨fun _ _ _ _ hs => hs, fun _ _ _ => rfl⟩, fun _ _ => rfl, h⟩

theorem Forth.trans (h : k.Forth late w w₁) (h' : k.Forth late w₁ w')
    (hevaluates : ∀ x, w.Evaluates x → w₁.Evaluates x) : k.Forth late w w' where
  onward := h.onward.trans h'.onward
  minds :=
    { pending := fun x hx hev s hs =>
        h'.minds.pending x hx (hevaluates x hev) s (h.minds.pending x hx hev s hs)
      caches := fun id hid hev =>
        (h'.minds.caches id hid (hevaluates _ hev)).trans (h.minds.caches id hid hev) }
  dropped x hx := (h'.dropped x hx).trans (h.dropped x hx)
  heeds := h'.heeds

/-- A step that nobody in the realm has to do with. -/
theorem Heeds.forth (h : k.Heeds late w) (hp : k.Passes w w')
    (hu : ∀ x, k.Has x → Unmoved k.record x w w')
    (hmade : ∀ id, w'.Evaluates (.computed id) →
      w.Evaluates (.computed id) ∨ Key.index id < w.computeds.size) : k.Forth late w w' where
  onward := hp.onward
  minds :=
    { pending := fun x hx _ s hs => by
        rw [(hu x hx).dependencies]
        exact hs
      caches := fun id hid _ => hp.caches id hid }
  dropped := hp.dropped
  heeds := h.unmoved hp hu hmade

/-- What is held makes no difference. -/
theorem Heeds.held (h : k.Heeds late w) (held : List Ref) : k.Forth late w { w with held } := by
  refine h.forth (passes_of_eq rfl rfl rfl rfl rfl) (fun x _ => ?_) fun id hid => Or.inl hid
  exact unmoved_of_eq rfl rfl rfl rfl rfl

/-! ### Meeting a source -/

theorem passes_meeting (hk : k.Lawful)
    (hmade : ∀ id, y = .computed id → Key.index id < w.computeds.size) (s : SourceId) :
    k.Passes w (w.meeting k.application y s) := by
  have hsource : k.Passes w (w.mapSource s (·.register y)) := passes_of_eq rfl rfl rfl rfl rfl
  have hlist : k.Passes (w.mapSource s (·.register y))
      ((w.mapSource s (·.register y)).mapDependencies y (·.record s)) :=
    passes_mapDependencies _ y (fun _ => Dependencies.current_record _ s) hmade
  exact hsource.trans (hlist.trans (passes_note hk _ ⟨fun _ _ => Occurrence.noConfusion,
    fun _ _ => ⟨Occurrence.noConfusion, Occurrence.noConfusion⟩⟩))

theorem Heeds.meeting (hk : k.Lawful) (h : k.Heeds late w) (hy : w.Evaluates y) (s : SourceId) :
    k.Forth late w (w.meeting k.application y s) := by
  have hp : k.Passes w (w.meeting k.application y s) :=
    passes_meeting hk (fun id hid => h.made id (hid ▸ hy)) s
  have htracker : ∀ t, (w.meeting k.application y s).tracker t = w.tracker t := fun t =>
    tracker_mapDependencies (w.mapSource s (·.register y)) y _ t
  refine ⟨hp.onward, ⟨fun x hx _ t ht => ?_, fun id hid _ => hp.caches id hid⟩, hp.dropped,
    h.pass hp ?_ ?_ ?_⟩
  · by_cases hxy : y = x
    · subst hxy
      rw [dependencies_meeting hx.not_probe, if_pos rfl]
      exact Dependencies.mem_pending_record.mpr (Or.inl ht)
    · have hu : Unmoved k.record x w (w.meeting k.application y s) :=
        unmoved_meet hk.records w hxy s
      rw [hu.dependencies]
      exact ht
  · intro x hx
    by_cases hxy : y = x
    · subst hxy
      have hpage : (w.meeting k.application y s).page k.record y = (w.page k.record y).meet s :=
        page_meet hx.not_probe hk.records w s
      rw [hpage, evaluates_congr htracker]
      exact (h.books y hx).meet hy s
    · have hu : Unmoved k.record x w (w.meeting k.application y s) :=
        unmoved_meet hk.records w hxy s
      rw [hu.page, hu.evaluates]
      exact h.books x hx
  · exact fun _ id => (evaluates_congr htracker).mpr
  · exact fun id hid => Or.inl ((evaluates_congr htracker).mp hid)

/-- Registering whoever reads for a reader. -/
theorem Heeds.ends_depend (hk : k.Lawful) {c d : Reentry Code Memory}
    (hc : c.application = k.application) (hd : d.application = k.application) (h : k.Heeds late w)
    (reader : Option TrackerId) (s : SourceId) :
    Ends w (depend c reader s) (depend d reader s) fun r w' =>
      r = .ok () ∧ k.Forth late w w' ∧
        ∀ x, k.Has x → w.current? reader = some x → s ∈ (w'.dependencies x).pending := by
  rw [depend_eq (hd.trans hc.symm), depend, ends_update]
  refine ⟨rfl, ?_⟩
  rw [hc]
  cases hreader : w.current? reader with
  | none => exact ⟨.refl h, fun x _ hx => by cases hx⟩
  | some y =>
    refine ⟨h.meeting hk (evaluates_of_current? hreader) s, ?_⟩
    rintro x hx hxy
    cases hxy
    change s ∈ ((w.meeting k.application y s).dependencies y).pending
    rw [dependencies_meeting hx.not_probe, if_pos rfl]
    exact Dependencies.mem_pending_record.mpr (Or.inr rfl)

/-! ### Waiting for an absent key -/

theorem passes_await (w : World Code Memory) {object : ObjectId} (key : String)
    (hobserved : (w.object object).observed = true) : k.Passes w (w.await object key).2 := by
  have haside : Aside (fun _ : Memory => []) w (w.await object key).2 := aside_await w key hobserved
  have hsize : (w.await object key).2.objects.size = w.objects.size := haside.data.size
  have hslots := haside.data.slots
  have hcomputeds : (w.await object key).2.computeds = w.computeds := by
    unfold World.await
    split <;> rfl
  have hwatchers : (w.await object key).2.watchers = w.watchers := by
    unfold World.await
    split <;> rfl
  have hmemory : (w.await object key).2.memory = w.memory := by
    unfold World.await
    split <;> rfl
  have hawaited : ∀ id name s, (w.object id).awaited.find? name = some s →
      ((w.await object key).2.object id).awaited.find? name = some s := by
    intro id name s hs
    unfold World.await
    split
    · exact hs
    · next hnone =>
      change (((w.addSource.2.mapObject object _).object id).awaited).find? name = some s
      rw [object_mapObject]
      split
      · next hid =>
        subst hid
        rw [Entries.find?_put_of_ne]
        · exact hs
        · rintro rfl
          rw [hs] at hnone
          cases hnone
      · exact hs
  have hcomputed : ∀ id, (w.await object key).2.computed id = w.computed id := fun id => by
    rw [World.computed, hcomputeds, World.computed]
  refine ⟨hsize, hslots, haside.data.observed, fun owner => ?_,
    Nat.le_of_eq (by rw [haside.data.viewModels]), ?_, by rw [hcomputeds],
    fun id => by rw [hcomputed], fun id _ => by rw [hcomputed], fun x _ => ?_, fun _ id => ?_,
    fun x _ => by rw [hmemory], fun id _ unknown h => hmemory ▸ h⟩
  · rw [viewModel, haside.data.viewModels, viewModel]
  · intro id name s hs
    rw [World.hears, World.hearer] at hs ⊢
    rw [World.resolve_congr hsize hslots, Object.slot?, hslots, haside.data.observed]
    rw [Object.slot?] at hs
    split at hs
    · exact hs
    · split at hs
      · next hobserved' =>
        rw [if_pos hobserved']
        exact hawaited _ _ s hs
      · cases hs
    · cases hs
  · rw [dependencies_congr hwatchers hcomputeds]
  · rw [watcher, hwatchers, watcher]

theorem unmoved_await (w : World Code Memory) (object : ObjectId) (key : String) :
    Unmoved k.record x w (w.await object key).2 := by
  unfold World.await
  split
  · exact .refl w
  · exact (unmoved_addSource w).trans (unmoved_of_eq rfl rfl rfl rfl rfl)

theorem Heeds.await (h : k.Heeds late w) {object : ObjectId} (key : String)
    (hobserved : (w.object object).observed = true) :
    k.Forth late w (w.await object key).2 :=
  h.forth (passes_await w key hobserved) (fun _ _ => unmoved_await w object key) fun _ hid =>
    Or.inl ((evaluates_congr (aside_await w key hobserved :
      Aside (fun _ : Memory => []) _ _).trackers).mp hid)

/-! ### Evaluating -/

theorem passes_mapTracker (w : World Code Memory) (t : TrackerId) (f : Tracker → Tracker) :
    k.Passes w (w.mapTracker t f) :=
  passes_of_eq rfl rfl rfl rfl rfl

/-- The value of a property that does not belong to the realm may change. -/
theorem passes_mapComputed (w : World Code Memory) {id : ComputedId}
    (hid : Key.index id < w.computeds.size) {f : Computed Code → Computed Code}
    (hbase : ∀ y, (f y).base = y.base) (hlist : ∀ y, (f y).dependencies = y.dependencies)
    (hcache : k.computed id → ∀ y, (f y).cache = y.cache) : k.Passes w (w.mapComputed id f) := by
  have hobjects : (w.mapComputed id f).objects = w.objects := rfl
  refine ⟨rfl, fun _ => rfl, fun _ => rfl, fun _ => rfl, Nat.le_refl _, fun object key s hs => ?_,
    Table.size_modify_of_lt _ hid _, fun j => ?_, fun j hj => ?_, fun x _ => ?_, fun _ _ => rfl,
    fun _ _ => rfl, fun _ _ _ h => h⟩
  · rw [hears_congr hobjects]
    exact hs
  · rw [computed_mapComputed]
    split
    · next h => rw [hbase, h]
    · rfl
  · rw [computed_mapComputed]
    split
    · next h => rw [hcache (h ▸ hj), h]
    · rfl
  · have hu : Unmoved k.record x w (w.mapComputed id f) := unmoved_mapComputed w id hlist
    rw [hu.dependencies]

theorem passes_computing (hk : k.Lawful) (w : World Code Memory) {id : ComputedId}
    (hid : Key.index id < w.computeds.size) : k.Passes w (w.computing k.application id) := by
  have hcount : k.Passes w (w.mapComputed id fun x => { x with evaluations := x.evaluations + 1 }) :=
    passes_mapComputed w hid (fun _ => rfl) (fun _ => rfl) fun _ _ => rfl
  exact hcount.trans (passes_note hk _ ⟨fun _ _ => Occurrence.noConfusion,
    fun _ _ => ⟨Occurrence.noConfusion, Occurrence.noConfusion⟩⟩)

theorem unmoved_computing (hk : k.Lawful) (w : World Code Memory) (id : ComputedId) :
    Unmoved k.record x w (w.computing k.application id) := by
  have hcount : Unmoved k.record x w
      (w.mapComputed id fun x => { x with evaluations := x.evaluations + 1 }) :=
    unmoved_mapComputed w id fun _ => rfl
  exact hcount.trans (unmoved_note hk.records _ fun _ => rfl)

/-- A getter is about to run. -/
theorem Heeds.computing (hk : k.Lawful) (h : k.Heeds late w) {id : ComputedId}
    (hid : Key.index id < w.computeds.size) : k.Forth late w (w.computing k.application id) :=
  h.forth (passes_computing hk w hid) (fun _ _ => unmoved_computing hk w id) fun _ hj => Or.inl hj

theorem passes_opening (hk : k.Lawful) (w : World Code Memory) (t : TrackerId)
    (hmade : ∀ id, y = .computed id → Key.index id < w.computeds.size) :
    k.Passes w (w.opening k.application t y) :=
  (passes_mapDependencies w y (fun _ => rfl) hmade).trans
    ((passes_note hk _ ⟨fun _ _ => Occurrence.noConfusion, fun _ _ =>
      ⟨Occurrence.noConfusion, Occurrence.noConfusion⟩⟩).trans (passes_mapTracker _ t _))

/-- A subscriber begins to evaluate. -/
theorem Heeds.opening (hk : k.Lawful) (h : k.Heeds late w) (t : TrackerId)
    (hy : k.Has y → ¬ w.Evaluates y ∧ ¬ w.IsOver y)
    (hmade : ∀ id, y = .computed id → Key.index id < w.computeds.size) :
    k.Forth late w (w.opening k.application t y) := by
  have hp : k.Passes w (w.opening k.application t y) := passes_opening hk w t hmade
  refine ⟨hp.onward, ⟨fun x hx hev s hs => ?_, fun id hid _ => hp.caches id hid⟩, hp.dropped,
    h.pass hp ?_ ?_ ?_⟩
  · have hxy : y ≠ x := fun hxy => (hy (hxy ▸ hx)).1 (hxy ▸ hev)
    rw [(unmoved_opening hk.records w hxy t : Unmoved k.record x w _).dependencies]
    exact hs
  · intro x hx
    by_cases hxy : y = x
    · subst hxy
      have hpage : (w.opening k.application t y).page k.record y = (w.page k.record y).begin :=
        page_begin hx.not_probe hk.records w
      have hevaluates : (w.opening k.application t y).Evaluates y :=
        (evaluates_opening w t).mpr (Or.inl rfl)
      rw [hpage, eq_true hevaluates]
      exact (h.books y hx).begin (hy hx).1 (hy hx).2
    · have hu : Unmoved k.record x w (w.opening k.application t y) :=
        unmoved_opening hk.records w hxy t
      rw [hu.page, hu.evaluates]
      exact h.books x hx
  · exact fun _ id hev => (evaluates_opening w t).mpr (Or.inr hev)
  · intro id hev
    rcases (evaluates_opening w t).mp hev with hid | hev
    · exact Or.inr (hmade id hid)
    · exact Or.inl hev

/-! ### Having evaluated -/

omit [Inhabited Code] in
theorem slotAt_congr (h : w'.objects = w.objects) : w'.slotAt = w.slotAt := by
  have hobject : ∀ id, w'.object id = w.object id := fun id => by rw [object, h, object]
  funext object key
  have hresolve : w'.resolve object key = w.resolve object key :=
    resolve_congr (by rw [h]) (fun id => by rw [hobject]) object key
  rw [slotAt, hresolve, hobject, slotAt]

omit [Inhabited Code] in
theorem heard_congr (h : w'.objects = w.objects) : w'.Heard = w.Heard := by
  have hobject : ∀ id, w'.object id = w.object id := fun id => by rw [object, h, object]
  have hresolve : ∀ object key, w'.resolve object key = w.resolve object key :=
    resolve_congr (by rw [h]) fun id => by rw [hobject]
  funext what
  cases what with
  | computed id => rfl
  | property object key => simp only [World.Heard, slotAt_congr h, hresolve, hobject]

theorem quiet_of_rows (hobjects : w'.objects = w.objects) (hviewModels : w'.viewModels = w.viewModels)
    (hsize : w'.computeds.size = w.computeds.size)
    (hbases : ∀ id, (w'.computed id).base = (w.computed id).base) : k.Quiet w w' where
  slots object key := by rw [slotAt_congr hobjects]
  hears object key s hs := by
    rw [hears_congr hobjects]
    exact hs
  size := hsize
  memoize id := Computed.memoize_eq_of_base_eq (hbases id)
  source id := Computed.source_eq_of_base_eq (hbases id)
  query id := query_congr (Computed.getter_eq_of_base_eq (hbases id)) fun owner _ => by
    rw [viewModel, hviewModels, viewModel]

/-- Somebody outside of the realm has evaluated. -/
theorem passes_closing (hk : k.Lawful) (hy : ¬ k.Has y) (t : TrackerId) (r : Except Error Value)
    (hmade : ∀ id, y = .computed id → Key.index id < w.computeds.size) :
    k.Passes w (w.closing k.application t y r) := by
  have hminor : ∀ succeeded, k.Minor (.evaluated y succeeded) := fun succeeded =>
    ⟨fun _ _ => Occurrence.noConfusion, fun id hid => ⟨Occurrence.noConfusion, fun h => by
      cases h
      exact hy hid⟩⟩
  refine (passes_mapTracker w t (·.pop)).trans ?_
  have hlist : ∀ f, k.Passes (w.mapTracker t (·.pop)) ((w.mapTracker t (·.pop)).mapDependencies y f) :=
    fun f => passes_mapDependencies (w.mapTracker t (·.pop)) y (fun h => absurd h hy) hmade
  cases r with
  | ok value =>
    have hsettle : k.Passes (w.mapTracker t (·.pop)) ((w.mapTracker t (·.pop)).settle y) := by
      rw [settle_eq]
      exact (hlist _).trans (passes_of_eq rfl rfl rfl rfl rfl)
    exact hsettle.trans (passes_note hk _ (hminor true))
  | error error => exact (hlist _).trans (passes_note hk _ (hminor false))

end Realm

namespace World

/-- The world after a memoized property has evaluated: it keeps the value if there is one. -/
def closed (w₁ : World Code Memory) (application : Application Code Memory) (t : TrackerId)
    (id : ComputedId) (r : Except Error Value) : World Code Memory :=
  (w₁.closing application t (.computed id) r).caching id r

variable {application : Application Code Memory} {w w₁ : World Code Memory} {x : Subscriber}
  {id : ComputedId} {t : TrackerId}

theorem closed_tables (w₁ : World Code Memory) (t : TrackerId) (id : ComputedId)
    (r : Except Error Value) : (w₁.closed application t id r).objects = w₁.objects ∧
      (w₁.closed application t id r).viewModels = w₁.viewModels := by
  have hclosing : (w₁.closing application t (.computed id) r).objects = w₁.objects ∧
      (w₁.closing application t (.computed id) r).viewModels = w₁.viewModels :=
    closing_tables w₁ t _ r
  cases r <;> exact hclosing

theorem face_closed (w₁ : World Code Memory) (t : TrackerId) (id : ComputedId)
    (r : Except Error Value) (j : WatcherId) :
    ((w₁.closed application t id r).watcher j).face = (w₁.watcher j).face := by
  have hclosing := face_closing w₁ application t (.computed id) r j
  cases r <;> exact hclosing

theorem base_closed (w₁ : World Code Memory) (t : TrackerId) (id j : ComputedId)
    (r : Except Error Value) :
    ((w₁.closed application t id r).computed j).base = (w₁.computed j).base := by
  have hclosing : ((w₁.closing application t (.computed id) r).computed j).base
      = (w₁.computed j).base := Computed.base_eq_of_face_eq (faces_closing w₁ t _ r j)
  cases r with
  | ok value =>
    rw [closed, caching, computed_mapComputed]
    split
    · next h =>
      subst h
      exact hclosing
    · exact hclosing
  | error error => exact hclosing

theorem cache_closed (w₁ : World Code Memory) (t : TrackerId) (id j : ComputedId)
    (r : Except Error Value) : ((w₁.closed application t id r).computed j).cache
      = if j = id then r.toOption.or (w₁.computed j).cache else (w₁.computed j).cache := by
  have hclosing : ((w₁.closing application t (.computed id) r).computed j).cache
      = (w₁.computed j).cache := Computed.cache_eq_of_face_eq (faces_closing w₁ t _ r j)
  cases r with
  | ok value =>
    rw [closed, caching, computed_mapComputed]
    split
    · rfl
    · exact hclosing
  | error error =>
    rw [closed, caching, hclosing]
    split <;> rfl

theorem size_closed (w₁ : World Code Memory) (t : TrackerId) (hid : Key.index id < w₁.computeds.size)
    (r : Except Error Value) :
    (w₁.closed application t id r).computeds.size = w₁.computeds.size := by
  have hclosing : (w₁.closing application t (.computed id) r).computeds.size = w₁.computeds.size :=
    size_closing w₁ t r fun j hj => by
      cases hj
      exact hid
  cases r with
  | ok value =>
    refine (Table.size_modify_of_lt _ ?_ _).trans hclosing
    rw [hclosing]
    exact hid
  | error error => exact hclosing

theorem unmoved_caching {record : Memory → List Occurrence} (w : World Code Memory) (id : ComputedId)
    (r : Except Error Value) : Unmoved record x w (w.caching id r) := by
  cases r with
  | ok value => exact unmoved_mapComputed w id fun _ => rfl
  | error error => exact .refl w

theorem dependencies_closed (w₁ : World Code Memory) (t : TrackerId) (id : ComputedId)
    (r : Except Error Value) (x : Subscriber) : (w₁.closed application t id r).dependencies x
      = (w₁.closing application t (.computed id) r).dependencies x :=
  have hunmoved : Unmoved (fun _ => []) x (w₁.closing application t (.computed id) r)
      (w₁.closed application t id r) := unmoved_caching _ id r
  hunmoved.dependencies

theorem record_closed {record : Memory → List Occurrence} (hrecord : application.Records record)
    (w₁ : World Code Memory) (t : TrackerId) (id : ComputedId) (r : Except Error Value) :
    record (w₁.closed application t id r).memory
      = .evaluated (.computed id) r.toBool :: record w₁.memory := by
  rw [← record_closing hrecord]
  cases r <;> rfl

section Trackers

variable {y : Subscriber}
  (htrackers : ∀ j, w₁.tracker j = (w.opening application t y).tracker j)

include htrackers

theorem evaluates_inside : w₁.Evaluates x ↔ y = x ∨ w.Evaluates x :=
  (evaluates_congr htrackers).trans (evaluates_opening w t)

theorem evaluates_closing (r : Except Error Value) :
    (w₁.closing application t y r).Evaluates x ↔ w.Evaluates x :=
  evaluates_congr (tracker_closing w₁ t r htrackers)

end Trackers

theorem evaluates_closed (htrackers : ∀ j, w₁.tracker j
      = (w.opening application t (.computed id)).tracker j) (r : Except Error Value) :
    (w₁.closed application t id r).Evaluates x ↔ w.Evaluates x := by
  have hunmoved : Unmoved (fun _ => []) x (w₁.closing application t (.computed id) r)
      (w₁.closed application t id r) := unmoved_caching _ id r
  rw [← evaluates_closing htrackers r]
  exact hunmoved.evaluates

end World

namespace Realm

variable {k : Realm Code Memory} {late : Subscriber → Prop} {w w₁ : World Code Memory}
  {x y : Subscriber} {id : ComputedId} {t : TrackerId}

/-- A memoized property has evaluated what its list covers now. -/
theorem onward_closed (hid : k.Scope w₁ id) (t : TrackerId) (r : Except Error Value)
    {waits : ComputedId → Prop}
    (hcovers : k.Covers waits w₁ (w₁.dependencies (.computed id)).pending (k.query w₁ id)) :
    k.Onward waits w₁ (w₁.closed k.application t id r) := by
  obtain ⟨hobjects, hviewModels⟩ : (w₁.closed k.application t id r).objects = w₁.objects ∧
      (w₁.closed k.application t id r).viewModels = w₁.viewModels := closed_tables w₁ t id r
  have hquiet : k.Quiet w₁ (w₁.closed k.application t id r) :=
    quiet_of_rows hobjects hviewModels (size_closed w₁ t hid.2 r) fun j => base_closed w₁ t id j r
  refine hquiet.onward (heard_congr hobjects) fun j hj => ?_
  rw [dependencies_closed, dependencies_closing fun _ => Subscriber.noConfusion]
  by_cases hjid : j = id
  · subst hjid
    refine Or.inr (hcovers.mono fun s hs => ?_)
    have hpending : s ∈ ((w₁.closing k.application t (.computed j) r).dependencies (.computed j)).current :=
      pending_closing (fun _ => Subscriber.noConfusion) t r s hs
    rw [dependencies_closing fun _ => Subscriber.noConfusion] at hpending
    exact hpending
  · rw [if_neg fun h => hjid (Subscriber.computed.inj h)]
    exact Or.inl rfl

/-- The books after a memoized property has evaluated. -/
theorem books_closed (hk : k.Lawful) (h : k.Heeds late w₁)
    (htrackers : ∀ j, w₁.tracker j = (w.opening k.application t (.computed id)).tracker j)
    (hidle : ¬ w.Evaluates (.computed id)) (r : Except Error Value) (hx : k.Has x) :
    ((w₁.closed k.application t id r).page k.record x).Agrees
      ((w₁.closed k.application t id r).Evaluates x) := by
  have hpage : (w₁.closed k.application t id r).page k.record x
      = (w₁.closing k.application t (.computed id) r).page k.record x :=
    (unmoved_caching _ id r).page
  rw [hpage, evaluates_closed htrackers]
  by_cases hxid : Subscriber.computed id = x
  · subst hxid
    rw [eq_false hidle]
    have hbooks : w₁.InOrder k.record (.computed id) True :=
      ⟨h.books _ hx, fun j hj => by cases hj⟩
    exact (hbooks.closing_self hx.not_probe hk.records hidle t htrackers r).1
  · have hu : Unmoved k.record x w₁ (w₁.closing k.application t (.computed id) r) :=
      unmoved_closing hk.records hxid t htrackers r
    have hevaluates : w₁.Evaluates x ↔ w.Evaluates x :=
      (evaluates_inside htrackers).trans (or_iff_right hxid)
    rw [hu.page, ← hevaluates]
    exact h.books x hx

/-- A memoized property succeeds once, and then it has a value. -/
theorem once_closed (hk : k.Lawful) (h : k.Heeds late w₁) (hcache : (w₁.computed id).cache = none)
    (r : Except Error Value) {j : ComputedId} (hj : k.computed j) :
    Once (.computed j) (((w₁.closed k.application t id r).computed j).cache = none)
      (k.record (w₁.closed k.application t id r).memory) := by
  rw [record_closed hk.records, cache_closed]
  have hold := h.once j hj
  by_cases hjid : j = id
  · subst hjid
    rw [hcache] at hold
    rw [if_pos rfl, hcache]
    cases r with
    | error error => exact hold.cons ⟨Occurrence.noConfusion, fun heq => by cases heq⟩
    | ok value => exact (hold.mono fun _ => rfl).succeed.mono fun hnone => by cases hnone
  · rw [if_neg hjid]
    refine hold.cons ⟨Occurrence.noConfusion, fun heq => hjid ?_⟩
    exact (Subscriber.computed.inj (Occurrence.evaluated.inj heq).1).symm

/-- A memoized property has evaluated what its list covers now, and keeps the value if there is one. -/
theorem Heeds.closed (hk : k.Lawful) (h : k.Heeds late w₁) (hid : k.Scope w₁ id)
    (htrackers : ∀ j, w₁.tracker j = (w.opening k.application t (.computed id)).tracker j)
    (hidle : ¬ w.Evaluates (.computed id)) (hcache : (w₁.computed id).cache = none)
    (r : Except Error Value)
    (hcovers : k.Covers (properties late) w₁ (w₁.dependencies (.computed id)).pending (k.query w₁ id))
    (hfresh : ∀ value, r = .ok value → ∀ a,
      (k.scratch (properties late) w₁).Gives (k.query w₁ id) a → AlikeAnswers a (.ok value)) :
    k.Heeds late (w₁.closed k.application t id r) := by
  obtain ⟨hobjects, -⟩ : (w₁.closed k.application t id r).objects = w₁.objects ∧
      (w₁.closed k.application t id r).viewModels = w₁.viewModels := closed_tables w₁ t id r
  have ho := onward_closed hid t r hcovers
  refine h.onward ho (fun x hx => books_closed hk h htrackers hidle r hx) ?_ ?_ ?_ ?_
    (fun j hj => once_closed hk h hcache r hj) ?_ ?_
  · intro x _
    rw [record_closed hk.records, Trail.ofHistory]
    exact Trail.dropped_step x _ fun _ _ => Occurrence.noConfusion
  · intro j value hj hvalue
    rw [Computed.known?, ho.quiet.memoize, cache_closed] at hvalue
    by_cases hjid : j = id
    · subst hjid
      cases r with
      | error error =>
        simp only [Except.toOption, Option.none_or, ite_self] at hvalue
        exact Or.inl hvalue
      | ok found =>
        have hfound : found = value := by
          simp only [Except.toOption, Option.some_or, if_true] at hvalue
          split at hvalue
          · exact Option.some.inj hvalue
          · cases hvalue
        subst hfound
        refine Or.inr ⟨?_, fun a ha => ?_⟩
        · rw [ho.quiet.query, dependencies_closed]
          exact ho.covers _ _ (hcovers.mono (pending_closing (fun _ => Subscriber.noConfusion) t _))
        · rw [ho.quiet.scratch, ho.quiet.query] at ha
          exact hfresh found rfl a ha
    · rw [if_neg hjid] at hvalue
      exact Or.inl hvalue
  · intro _ j _
    refine ⟨face_closed w₁ t id r j, ?_⟩
    rw [dependencies_closed, dependencies_closing fun _ => Subscriber.noConfusion,
      if_neg Subscriber.noConfusion]
  · intro _ j _ hj
    rw [evaluates_closed htrackers]
    exact ((evaluates_inside htrackers).mp hj).resolve_left Subscriber.noConfusion
  · constructor
    · intro object key target name hslot
      rw [World.object, hobjects, ← World.object] at hslot
      exact h.wired.proxy object key target name hslot
    · intro object key j hslot
      rw [World.object, hobjects, ← World.object] at hslot
      rw [ho.quiet.size]
      exact h.wired.computed object key j hslot
  · intro j hj
    exact Or.inl ((evaluates_inside htrackers).mpr (Or.inr ((evaluates_closed htrackers r).mp hj)))

end Realm

end ViewBinding
