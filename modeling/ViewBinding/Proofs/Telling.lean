import ViewBinding.Proofs.Noticing

/-!
# Telling subscribers

What is written is told to those that listen, each of them in turn: a watcher notices, and a computed
property forgets its value and passes the news on. When a source has told its subscribers, everybody heeds
but those that others have still to tell. So it is at every moment of a run that is orderly, however deep
notifications and programs are nested.
-/

namespace ViewBinding

namespace Realm

open Engine World

variable {Code Memory : Type} [Inhabited Code]

/-! ### Orderly runs -/

/-- A field goes where there is a field or nothing, and values that count as the same are alike. -/
structure Storable (w : World Code Memory) (object : ObjectId) (key : String) (value : Value) : Prop where
  plain : Plain ((w.object object).slot? key)
  alike : ∀ old source, (w.object object).slot? key = some (.field old source) →
    old.same value = true → old.Alike value

/-- What the realm asks of requests: they do not meddle with who listens or evaluates in it, name computed
properties that there are, store nothing in place of a computed property, define computed properties of a
view model where there is nothing that anybody waits for, and keep the record. -/
def Proper (k : Realm Code Memory) (w : World Code Memory) : Request Code Memory → Prop
  | .insert object key value => Storable w object key value
  | .place object key value => Storable w object key value
  | .register _ subscriber => ¬ k.Has subscriber
  | .unregister _ subscriber => ¬ k.Has subscriber
  | .enter _ frame => ∀ x, frame = some x →
      ¬ k.Has x ∧ ∀ id, x = .computed id → Key.index id < w.computeds.size
  | .readComputed id _ => Key.index id < w.computeds.size
  | .newViewModel options => ∀ data, w.checkOptions options = .ok data →
      Key.index data < w.objects.size ∧ ∀ pair ∈ options.computed.toList,
        (w.object data).slot? pair.1 = none ∧ w.hearer data pair.1 = none
  | .remember f => k.record (f w.memory) = k.record w.memory
  | _ => True

/-- What is asked of the moments of a run: getters do as they should, watchers have paths that can be heard
of, requests are proper, and no computed property of the realm is gone when it is to be told. -/
structure Orderly (k : Realm Code Memory) (moment : Moment Code Memory) (w : World Code Memory) : Prop where
  fair : k.Fair w
  audible : k.Audible w
  proper : ∀ request, moment = .asking request → k.Proper w request
  lasting : ∀ s, moment = .telling s → ∀ id, k.computed id →
    .computed id ∈ (w.source s).subscribers →
      w.alive (k.application.holds w.memory) (.computed id) = true

/-- The supervision of a run that is orderly. -/
abbrev order (k : Realm Code Memory) : Proviso Code Memory :=
  fun _ moment w => k.Orderly moment w

variable {k : Realm Code Memory} {n : Nat} {a : Prop} {late late' : Subscriber → Prop}
  {waiting : List Subscriber} {w w₁ w' : World Code Memory} {x : Subscriber} {id : ComputedId}
  {told : SourceId → Prop} {c d : Reentry Code Memory} {P' : Proviso Code Memory}

/-! ### Writing -/

/-- After building and writing, the world is calm if those that are to be told wait. -/
theorem Ready.alters (h : k.Ready n True late w) (ha : Alters told w w')
    (hlate : ∀ x, k.Has x → late x → late' x)
    (htold : ∀ x, k.Has x → ∀ s, told s → x ∈ (w.source s).subscribers → late' x) :
    k.Calm n late' w' where
  heeds := h.heeds.alters h.fair (h.audible trivial) h.quiesces ha hlate htold
  quiesces x hx hev := h.quiesces x hx ((evaluates_congr ha.trackers).mp hev)
  made := Nat.le_trans h.made ha.computeds

/-- After building, nobody has to be told. -/
theorem Ready.builds (h : k.Ready n True late w) (ha : Alters (fun _ => False) w w') : k.Calm n late w' :=
  h.alters ha (fun _ _ hl => hl) fun _ _ _ hfalse => hfalse.elim

/-- What is written is told to whoever listens. -/
theorem Ready.writes {source : Option SourceId} (h : k.Ready n True (· ∈ waiting) w)
    (ha : Alters (fun s => source = some s) w w') : (source = none → k.Calm n (· ∈ waiting) w') ∧
      ∀ s, source = some s →
        k.Calm n (fun x => x ∈ waiting ∨ x ∈ (w'.source s).subscribers) w' := by
  refine ⟨?_, ?_⟩
  · rintro rfl
    refine h.alters ha (fun _ _ hl => hl) fun _ _ s hs => ?_
    cases hs
  · rintro s rfl
    rw [ha.sources]
    refine h.alters ha (fun _ _ => Or.inl) fun x _ s' hs' hx => Or.inr ?_
    cases hs'
    exact hx

section Writing

variable (h : k.Relays waiting c d)

include h

theorem Relays.tell {source : Option SourceId} (hw : k.Ready n True (· ∈ waiting) w)
    (ha : Alters (fun s => source = some s) w w') :
    Ends w' (tell c source) (tell d source) fun _ => k.Calm n (· ∈ waiting) := by
  obtain ⟨hnone, hsome⟩ := hw.writes ha
  cases source with
  | none => exact (ends_pure ()).mpr (hnone rfl)
  | some source => exact h.notify source (hsome source rfl)

theorem Relays.store (hw : k.Ready n True (· ∈ waiting) w) {object : ObjectId} {key : String} {value : Value}
    (hstorable : Storable w object key value) :
    Ends w (create (·.store object key value) >>= Engine.tell c)
      (create (·.store object key value) >>= Engine.tell d) fun _ => k.Calm n (· ∈ waiting) := by
  rw [ends_create_bind]
  have hanswer : (w.store object key value).1 = (handover (w.object object) key value).2 := by
    unfold World.store
    dsimp only
    split <;> rfl
  rw [hanswer]
  exact h.tell hw (alters_store w value hstorable.plain hstorable.alike)

theorem Relays.insert (hw : k.Ready n True (· ∈ waiting) w) {object : ObjectId} {key : String} {value : Value}
    (hstorable : Storable w object key value) :
    Ends w (insert c object key value) (insert d object key value) fun _ => k.Calm n (· ∈ waiting) := by
  refine Ends.keeping _ (R := fun _ => k.Calm n (· ∈ waiting)) ?_ fun _ w' hw' => hw'.held _
  exact h.store (hw.held _) ⟨hstorable.plain, hstorable.alike⟩

/-- Writing a property leads back to a calm world, for whoever listens is told. -/
theorem Relays.set (object : ObjectId) (key : String) (value : Value) :
    Leads (k.Ready n True (· ∈ waiting)) (k.Calm n (· ∈ waiting)) (set c object key value)
      (set d object key value) := by
  intro w hw
  rw [Engine.set, Engine.set, ends_inspect_bind]
  generalize w.resolve object key = target
  obtain ⟨holder, name⟩ := target
  refine Leads.keeping (I := k.Ready n True (· ∈ waiting)) (J := k.Calm n (· ∈ waiting))
    (fun _ held hw => hw.held held) (fun _ held hw => hw.held held) _ (fun w hw => ?_) w hw
  rw [ends_inspect_bind]
  cases hslot : (w.object holder).slot? name with
  | none =>
    refine h.insert hw ⟨hslot ▸ trivial, fun old source hfield => ?_⟩
    rw [hslot] at hfield
    cases hfield
  | some slot =>
    cases slot with
    | field old source =>
      simp only [writeSlot]
      split
      · exact (ends_pure ()).mpr hw.toCalm
      · rw [ends_update_bind]
        have hwrite : Alters (fun s => source = some s) w (w.putSlot holder name (.field value source)) :=
          alters_write w hslot
        cases source with
        | none => exact (ends_pure ()).mpr ((hw.writes hwrite).1 rfl)
        | some source =>
          rw [ends_update_bind]
          have hcalm := (hw.writes (hwrite.trans (alters_observe _ value))).2 source rfl
          exact Ends.keeping _ (h.notify source (hcalm.held _)) fun _ w' hw' => hw'.held _
    | computed id => exact (ends_throw _).mpr hw.toCalm
    | constant value => exact (ends_throw _).mpr hw.toCalm
    | proxy target key => exact (ends_throw _).mpr hw.toCalm

end Writing

/-! ### Subscribers in their turn -/

/-- More may wait. -/
theorem Ready.mono (h : k.Ready n a late w) (hlate : ∀ x, k.Has x → late x → late' x) : k.Calm n late' w :=
  ⟨h.heeds.mono h.fair.alike hlate, h.quiesces, h.made⟩

section Subscribers

variable (hk : k.Lawful) (h : k.Relays waiting c d)

include hk h

/-- A subscriber that is told no longer waits; those that it passes the news on to have been told too. -/
theorem Relays.updateSubscriber {subscriber : Subscriber}
    (hw : k.Ready n True (· ∈ subscriber :: waiting) w) :
    Ends w (updateSubscriber c subscriber) (updateSubscriber d subscriber) fun _ =>
      k.Calm n (· ∈ waiting) := by
  have hnote : (∀ id, subscriber ≠ .computed id) →
      k.Ready n True (· ∈ subscriber :: waiting) (w.note k.application (.updating subscriber)) := by
    intro hplain
    refine hw.note hk ⟨fun _ _ => Occurrence.noConfusion, fun id _ => ⟨?_, Occurrence.noConfusion⟩⟩
      fun _ _ _ => rfl
    exact fun heq => hplain id (Occurrence.updating.inj heq)
  unfold Engine.updateSubscriber
  rw [Engine.note, Engine.note, h.left, h.right, ends_update_bind]
  cases subscriber with
  | watcher id =>
    have hself : (· ∈ Subscriber.watcher id :: waiting) = With waiting id :=
      funext fun x => propext (List.mem_cons.trans or_comm)
    have hready := hnote fun _ => Subscriber.noConfusion
    rw [hself] at hready
    exact (h.updateWatcher hk (hready.relax False.elim)).mono fun _ _ hw' => hw'.toCalm
  | computed id =>
    rw [ends_update_bind, ends_inspect_bind]
    have hforget : k.Heeds (fun x => x ∈ waiting ∨ x ∈ (w.source (w.computed id).source).subscribers)
        (w.forgetting k.application id) := by
      refine hw.heeds.forget hk hw.fair.alike (hw.audible trivial) (fun x _ hx => ?_) fun _ _ => Or.inr
      exact (List.mem_cons.mp hx).symm.imp_left Or.inl
    have hsource : ((w.forgetting k.application id).computed id).source = (w.computed id).source := by
      rw [computed_forgetting, if_pos rfl]
    refine h.notify (w := w.forgetting k.application id) _ ⟨?_, ?_, ?_⟩
    · change k.Heeds (fun x => x ∈ waiting
        ∨ x ∈ (w.source ((w.forgetting k.application id).computed id).source).subscribers) _
      rw [hsource]
      exact hforget
    · exact fun x hx hev => hw.quiesces x hx ((unmoved_forgetting hk w id).evaluates.mp hev)
    · exact Nat.le_trans hw.made (Table.size_le_modify _ _ _)
  | probe id =>
    rw [ends_inspect_bind]
    have hready := hnote fun _ => Subscriber.noConfusion
    have hcalm : k.Calm n (· ∈ waiting) (w.note k.application (.updating (.probe id))) := by
      refine hready.mono fun x hx hl => (List.mem_cons.mp hl).resolve_left ?_
      rintro rfl
      exact hx
    exact ((h.run n _) _ hcalm).mono fun _ _ hw' => hw'.toCalm

end Subscribers

/-! ### Requests and programs -/

theorem Calm.pass (h : k.Calm n late w) (hp : k.Passes w w')
    (hu : ∀ x, k.Has x → Unmoved k.record x w w')
    (hmade : ∀ id, w'.Evaluates (.computed id) →
      w.Evaluates (.computed id) ∨ Key.index id < w.computeds.size) : k.Calm n late w' where
  heeds := h.heeds.unmoved hp hu hmade
  quiesces x hx hev := h.quiesces x hx ((hu x hx).evaluates.mp hev)
  made := hp.size ▸ h.made

/-- Tracking may be paused while something is written. -/
theorem leads_pausing {α : Type} (t : TrackerId) {b b' : Engine Code Memory α}
    (hb : Leads (k.Ready n a late) (k.Calm n late') b b') :
    Leads (k.Ready n a late) (k.Calm n late') (framed (some t) none b) (framed (some t) none b') := by
  intro w hw
  refine Ends.framed t none (hb _ (hw.mapTracker t (fun x _ => ?_) fun id hid => Or.inl ?_))
    fun r w' hw' => hw'.pass (passes_mapTracker w' t _)
      (fun x hx => unmoved_mapTracker w' t (mem_pop_iff (hw'.quiesces x hx) t))
      fun id hid => Or.inl (evaluates_of_pop w' t hid)
  · simp [Tracker.push]
  · exact ((evaluates_push w t none).mp hid).resolve_left (by simp)

/-- Only what the realm has nothing to do with was written. -/
theorem Calm.same (h : k.Calm n late w) (hobjects : w'.objects = w.objects)
    (hviewModels : w'.viewModels = w.viewModels) (hcomputeds : w'.computeds = w.computeds)
    (hwatchers : w'.watchers = w.watchers) (hrecord : k.record w'.memory = k.record w.memory)
    (htrackers : ∀ t, w'.tracker t = w.tracker t)
    (hu : ∀ x, k.Has x → Unmoved k.record x w w') : k.Calm n late w' :=
  h.pass (passes_of_eq hobjects hviewModels hcomputeds hwatchers hrecord) hu fun _ hid =>
    Or.inl ((evaluates_congr htrackers).mp hid)

section Requests

variable (hk : k.Lawful) (h : k.Relays waiting c d)

include hk h

/-- A request that is not carried out by the steps of others leads back to a calm world. -/
theorem Relays.simple (hw : k.Ready n True (· ∈ waiting) w) {request : Request Code Memory}
    (hsimple : ¬ request.Compound) (hproper : k.Proper w request) :
    Ends w (fulfil c request) (fulfil d request) fun _ => k.Calm n (· ∈ waiting) := by
  have hrows : ∀ {w' : World Code Memory}, w'.objects = w.objects → w'.viewModels = w.viewModels →
      w'.computeds = w.computeds → w'.watchers = w.watchers → w'.trackers = w.trackers →
      w'.sources = w.sources → k.record w'.memory = k.record w.memory → k.Calm n (· ∈ waiting) w' :=
    fun hobjects hviewModels hcomputeds hwatchers htrackers hsources hrecord =>
      hw.toCalm.same hobjects hviewModels hcomputeds hwatchers hrecord
        (fun t => by rw [World.tracker, htrackers, World.tracker])
        fun _ _ => unmoved_of_eq hsources htrackers hwatchers hcomputeds hrecord
  have hlists : ∀ source (f : Source → Source), (∀ x, k.Has x → (x ∈ (f (w.source source)).subscribers ↔
      x ∈ (w.source source).subscribers)) → k.Calm n (· ∈ waiting) (w.mapSource source f) :=
    fun source f hf => hw.toCalm.same rfl rfl rfl rfl rfl (fun _ => rfl)
      fun x hx => unmoved_mapSource w source (hf x hx)
  cases request with
  | newObject => exact (ends_create _).mpr (hw.builds (alters_addObject w))
  | newArray items => exact (ends_create _).mpr (hrows rfl rfl rfl rfl rfl rfl rfl)
  | newFunction name code => exact (ends_create _).mpr (hrows rfl rfl rfl rfl rfl rfl rfl)
  | load json => exact (ends_create _).mpr (hw.builds (alters_load w json))
  | place object key value =>
    exact (h.insert hw hproper).attempt_bind fun _ _ hw' => (ends_pure ()).mpr hw'
  | insert object key value => exact h.insert hw hproper
  | observe value => exact (ends_update _).mpr (hw.builds (alters_observe w value))
  | newTracker =>
    exact (ends_create _).mpr (hw.toCalm.same rfl rfl rfl rfl rfl (raises_addTracker w).trackers
      fun _ _ => (raises_addTracker w).toBuilds.unmoved)
  | enter tracker frame =>
    refine (ends_update _).mpr (hw.mapTracker tracker (fun x hx => ?_) fun id hid => ?_).toCalm
    · have hne : frame ≠ some x := fun heq => (hproper x heq).1 hx
      simp [Tracker.push, Ne.symm hne]
    · rcases (evaluates_push w tracker frame).mp hid with hframe | hev
      · exact Or.inr ((hproper _ hframe).2 id rfl)
      · exact Or.inl hev
  | leave tracker =>
    exact (ends_update _).mpr (hw.mapTracker tracker
      (fun x hx => mem_pop_iff (hw.quiesces x hx) tracker)
      fun id hid => Or.inl (evaluates_of_pop w tracker hid)).toCalm
  | depend tracker source => exact (hw.depend hk h _ source).mono fun _ _ hw' => hw'.2.1.toCalm
  | newSource =>
    exact (ends_create _).mpr (hw.toCalm.same rfl rfl rfl rfl rfl (fun _ => rfl)
      fun _ _ => (raises_addSource w).toBuilds.unmoved)
  | register source subscriber =>
    refine (ends_update _).mpr (hlists source _ fun x hx => ?_)
    rw [Source.mem_register]
    exact or_iff_left fun heq => hproper (heq ▸ hx)
  | unregister source subscriber =>
    refine (ends_update _).mpr (hlists source _ fun x hx => ?_)
    rw [Source.mem_unregister]
    exact and_iff_left fun heq => hproper (heq ▸ hx)
  | notify source => exact h.notify source (hw.mono fun _ _ => Or.inl)
  | newProbe code => exact (ends_create _).mpr (hrows rfl rfl rfl rfl rfl rfl rfl)
  | updateWatcher id =>
    exact (h.updateWatcher hk ((hw.relax False.elim).excuse id)).mono fun _ _ hw' => hw'.toCalm
  | newComputed name tracker memoize code =>
    have hsource : Alters (fun _ => False) w w.addSource.2 :=
      (raises_addSource w).toBuilds.alters rfl rfl rfl
    exact (ends_create _).mpr (hw.builds (hsource.trans (alters_addComputed _ _ rfl rfl)))
  | readComputed id reader => exact (h.readComputed hk hw hproper reader).mono fun _ _ hw' => hw'.toCalm
  | install installer owner node directive =>
    have hu : Upkeep (k.Ready n False (· ∈ waiting)) c d := h.upkeep hk
    refine (hu.keeping _ (fun w hw => hu.installDirective (fun code _ => ?_) hw)).leads
      (fun _ hw => hw) (fun _ hw => hw.toCalm) w (hw.relax False.elim)
    exact (h.run n _).mono (fun _ hw => hw.toCalm) (fun _ hw => hw.relax False.elim) w hw
  | newBinding node kind expression =>
    exact (ends_create _).mpr (hw.fringe (fringe_tree w _ _ _)).toCalm
  | teardownBinding id =>
    have hu : Upkeep (k.Ready n False (· ∈ waiting)) c d := h.upkeep hk
    exact (ends_update _).mpr (hu.teardownBinding w id (hw.relax False.elim)).toCalm
  | remember f => exact (ends_update _).mpr (hrows rfl rfl rfl rfl rfl rfl hproper)
  | _ => exact absurd trivial hsimple

/-- The steps of the engine, from moments that are in order. -/
theorem Relays.service {P' : Moment Code Memory → World Code Memory → Prop}
    (hP' : ∀ moment w, k.Heeds (· ∈ waiting) w → k.Orderly moment w → P' moment w) :
    Service (fun _ _ => True) (k.order waiting) P' (k.Calm n (· ∈ waiting))
      (k.Ready n False (· ∈ waiting)) (k.Ready n True (· ∈ waiting)) c d where
  toPerusal := (h.upkeep hk).toPerusal
  rests hw := hw.relax False.elim
  loose hw := hw.toCalm
  moment moment hw horder :=
    ⟨hP' moment _ hw.heeds horder, ⟨hw, horder.fair, fun _ => horder.audible⟩⟩
  retaining held hw := hw.held held
  margin hmargin _ hw := hw.fringe hmargin.fringe
  display {w _ updater node value} _ hw := hw.fringe (fringe_display w updater node value)
  teardown w id hw := hw.teardown id
  watch := h.watch hk
  callMethod := (h.upkeep hk).callMethod
  mount := (h.upkeep hk).walking.mount
  compile := (h.upkeep hk).walking.compile
  unmount := (h.upkeep hk).unmount
  writing w owner path value hw := by
    rw [h.left]
    exact hw.note hk ⟨fun _ _ => Occurrence.noConfusion,
      fun _ _ => ⟨Occurrence.noConfusion, Occurrence.noConfusion⟩⟩ fun _ _ _ => rfl
  reading := h.get hk
  shading t _ _ hb := leads_pausing t hb
  set := h.set
  listener code event := (h.run n _).mono (fun _ hw => hw.toCalm) fun _ hw => hw.toCalm
  assemble held horder _ hdata hw := by
    obtain ⟨hlt, hnames⟩ := horder.proper _ rfl _ hdata
    exact (hw.held held).builds (alters_assemble _ _ hlt hnames)
  simple hsimple horder _ hw := h.simple hk hw hsimple (horder.proper _ rfl)

end Requests

section Telling

variable (hk : k.Lawful)
  (hP' : ∀ waiting moment w, ((∀ s, moment ≠ .telling s) → k.Heeds (· ∈ waiting) w) →
    k.Orderly moment w → P' waiting moment w)

include hk hP'

/-- Every subscriber is told in its turn. -/
theorem calm_tellUnder {next next' : List Subscriber → Reentry Code Memory}
    (h : ∀ waiting, k.Relays waiting (next waiting) (next' waiting)) (waiting l : List Subscriber) :
    Leads (k.Calm n (· ∈ l ++ waiting)) (k.Calm n (· ∈ waiting)) (tellUnder k.order next waiting l)
      (tellUnder P' next' waiting l) := by
  induction l with
  | nil => exact Keeps.pure []
  | cons subscriber rest inductionHypothesis =>
    intro w hw
    refine Ends.attempt_bind (R := fun _ => k.Calm n (· ∈ rest ++ waiting)) ?_ fun result w' hw' => ?_
    · refine Ends.keeping _ (R := fun _ => k.Calm n (· ∈ rest ++ waiting)) ?_ fun _ w' hw' => hw'.held _
      have hheld := hw.held (((subscriber :: rest).filterMap fun s => some s.ref) ++ w.held)
      refine Ends.under (hP' _ .acting _ fun _ => hheld.heeds) fun horder => ?_
      exact (h (rest ++ waiting)).updateSubscriber hk ⟨hheld, horder.fair, fun _ => horder.audible⟩
    · refine (inductionHypothesis _ hw').bind (fun errors w' hw' => ?_) fun _ _ hw' => hw'
      cases result with
      | ok _ => exact (ends_pure errors).mpr hw'
      | error error => exact (ends_pure (error :: errors)).mpr hw'

/-- When a source has told its subscribers, everybody heeds but those that others have still to tell. -/
theorem calm_notifyUnder {next next' : List Subscriber → Reentry Code Memory}
    (h : ∀ waiting, k.Relays waiting (next waiting) (next' waiting)) (waiting : List Subscriber)
    (source : SourceId)
    (hw : k.Calm n (fun x => x ∈ waiting ∨ x ∈ (w.source source).subscribers) w) :
    Ends w (notifyUnder k.order k.application next waiting source)
      (notifyUnder P' k.application next' waiting source) fun _ => k.Calm n (· ∈ waiting) := by
  refine Ends.under (hP' waiting (.telling source) w fun hnot => absurd rfl (hnot source)) fun horder => ?_
  rw [ends_inspect_bind, ends_update_bind, ends_update_bind]
  have hlive := liveSubscribers_eq_filter w (k.application.holds w.memory) source
  generalize w.liveSubscribers (k.application.holds w.memory) source = live at hlive ⊢
  have htold : k.Heeds (· ∈ live ++ waiting)
      ((w.mapSource source fun _ => ⟨live⟩).note k.application (.telling source live)) := by
    refine hw.heeds.tell hk horder.fair.alike hw.quiesces (fun y hy => ?_) (fun id hid hlisted => ?_)
      fun x _ hx => ?_
    · exact (List.mem_filter.mp (hlive ▸ hy)).1
    · exact hlive ▸ List.mem_filter.mpr ⟨hlisted, horder.lasting source rfl id hid hlisted⟩
    · by_cases hmem : x ∈ live
      · exact Or.inl (List.mem_append.mpr (Or.inl hmem))
      · exact hx.imp (fun hx => List.mem_append.mpr (Or.inr hx)) fun hx => ⟨hx, hmem⟩
  have hcalm : k.Calm n (· ∈ live ++ waiting)
      ((w.mapSource source fun _ => ⟨live⟩).note k.application (.telling source live)) :=
    ⟨htold, fun x hx hev => hw.quiesces x hx ((evaluates_congr fun _ => rfl).mp hev), hw.made⟩
  exact (calm_tellUnder hk hP' h waiting live _ hcalm).bind
    (fun errors _ hw' => (ends_ofExcept _).mpr hw') fun _ _ hw' => hw'

/-- However deep the engine is entered again, telling and running lead back to a calm world. -/
theorem relays_reentryUnder (depth : Nat) (waiting : List Subscriber) :
    k.Relays waiting (reentryUnder k.order k.application depth waiting)
      (reentryUnder P' k.application depth waiting) := by
  have hmoment : ∀ waiting moment w, k.Heeds (· ∈ waiting) w → k.Orderly moment w → P' waiting moment w :=
    fun waiting moment w hheeds => hP' waiting moment w fun _ => hheeds
  induction depth generalizing waiting with
  | zero =>
    refine ⟨rfl, rfl, rfl, fun _ _ => ends_exhausted _, fun _ _ _ _ => ends_exhausted _, fun hfair => ?_,
      fun hfair hstart => ?_⟩
    · exact Setting.soundRun_reentryUnder (hfair.fits hk) _ 0 waiting
    · exact attentiveRun_reentryUnder hk hfair hstart waiting (hmoment waiting) 0
  | succ depth inductionHypothesis =>
    refine ⟨rfl, rfl, rfl, fun source hw => ?_, fun n program => ?_, fun hfair => ?_, fun hfair hstart => ?_⟩
    · exact calm_notifyUnder hk hP' inductionHypothesis waiting source hw
    · exact ((inductionHypothesis waiting).service hk (hmoment waiting)).followUnder program.makes_true
    · exact Setting.soundRun_reentryUnder (hfair.fits hk) _ (depth + 1) waiting
    · exact attentiveRun_reentryUnder hk hfair hstart waiting (hmoment waiting) (depth + 1)

end Telling

end Realm

end ViewBinding
