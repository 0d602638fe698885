import ViewBinding.Proofs.Attending

/-!
# Reading pays attention

Whoever reads in a fair world has met, in the end, the sources that cover what it asked for. So the
values that come to be kept are settled, and everybody goes on heeding. The rules of reading carry this
from single properties to paths, to templates and to the programs of getters, down to any depth.
-/

namespace ViewBinding.Realm

open Engine World

variable {Code Memory : Type} [Inhabited Code]
variable {k : Realm Code Memory} {late : Subscriber → Prop} {w w₁ w' start : World Code Memory}
  {x y : Subscriber} {id : ComputedId} {l : List SourceId} {c d : Reentry Code Memory}

/-- A world that is met while something is read that began to be read at `start`. -/
structure Course (k : Realm Code Memory) (late : Subscriber → Prop) (start w : World Code Memory) :
    Prop where
  phase : (k.setting start).Phase start w
  onward : k.Onward (properties late) start w
  heeds : k.Heeds late w

/-- What there is to be read at the start. -/
noncomputable abbrev sight (k : Realm Code Memory) (start : World Code Memory) : View :=
  (k.setting start).view start

/-- Those under evaluation that may be asked for. -/
def Under (k : Realm Code Memory) (start w : World Code Memory) (id : ComputedId) : Prop :=
  k.Scope start id ∧ w.Evaluates (.computed id)

/-- The properties of the realm that are not memoized read on a tracker. -/
def Shares (k : Realm Code Memory) (start : World Code Memory) (t : TrackerId) : Prop :=
  ∀ id, k.Scope start id → (start.computed id).memoize = false → k.tracker id = t

/-- Whoever reads on a tracker, and there only, has noted what was asked for, if properties that are not
memoized read there too. -/
def Notes (k : Realm Code Memory) (late : Subscriber → Prop) (start : World Code Memory) (m : Manner)
    {α : Type} (q : Query α) (w w' : World Code Memory) : Prop :=
  ∀ t, (∀ reader, m.reader reader → reader = some t) → k.Shares start t →
    ∀ x, k.Has x → w.current? (some t) = some x →
      (k.sight start).Along (k.Noted (properties late) w' (w'.dependencies x).pending) q

/-- Whatever a step that reads ends in, everybody heeds, and what was asked for is noted. -/
def Attentive (k : Realm Code Memory) (late : Subscriber → Prop) (start : World Code Memory)
    (m : Manner) {α : Type} (q : Query α) (a b : Engine Code Memory α) : Prop :=
  (k.sight start).Along ((k.setting start).Asks start) q → ∀ w, k.Course late start w →
    (k.sight start).Above (k.Under start w) q →
    Ends w a b fun r w' => (k.setting start).Reads start q w r w' ∧ k.Forth late w w' ∧
      k.Notes late start m q w w'

/-- Programs that only read are attentive when the engines run them. -/
def AttentiveRun (k : Realm Code Memory) (late : Subscriber → Prop) (start : World Code Memory)
    (c d : Reentry Code Memory) : Prop :=
  ∀ (m : Manner) {α : Type} (program : Program Code Memory α), program.Reads m →
    (∀ owner, m.owner owner → m.reader (some (start.viewModel owner).tracker)) →
    k.Attentive late start m (program.query start) (c.run program) (d.run program)

theorem Fair.fits (hfair : k.Fair start) (hk : k.Lawful) : (k.setting start).Fits start where
  quiet := hk.quiet
  reads id hid := hfair.reads id hid
  owner id hid owner howner := Or.inl howner
  home id hid owner howner := congrArg some (hfair.owner id hid owner howner).2.1
  closed id hid := by
    rw [view_query hid (hfair.reads id hid)]
    exact hfair.asks id hid

theorem Fair.shares (hfair : k.Fair start) (hid : k.Scope start id) : k.Shares start (k.tracker id) :=
  fun other hother hplain => hfair.plain id other hid hother hplain

/-- A fair world begins a phase. -/
theorem Fair.phase (hfair : k.Fair w) : (k.setting w).Phase w w where
  data := .refl w
  bases _ := rfl
  kept _ _ h := h
  told _ _ hid h := (View.tells_computed_of_known ((Setting.view_known hid).trans h)).mpr rfl
  lives id owner hid howner := by
    refine iff_of_true ?_ trivial
    rw [alive_viewModel]
    exact Or.inl (hfair.owner id hid owner howner).1

theorem Fair.course (hfair : k.Fair w) (h : k.Heeds late w) : k.Course late w w :=
  ⟨hfair.phase, .refl w, h⟩

theorem Course.step (hw : k.Course late start w) (hphase : (k.setting start).Phase start w')
    (h : k.Forth late w w') : k.Course late start w' :=
  ⟨hphase, hw.onward.trans h.onward, h.heeds⟩

/-- A memoized property of the realm begins to evaluate. -/
theorem Course.opening (hk : k.Lawful) (hw : k.Course late start w) (hid : k.Scope start id)
    (hidle : ¬ w.Evaluates (.computed id)) :
    k.Forth late w (w.opening k.application (w.computed id).tracker (.computed id)) ∧
      k.Course late start (w.opening k.application (w.computed id).tracker (.computed id)) := by
  have hopening : k.Forth late w (w.opening k.application (w.computed id).tracker (.computed id)) := by
    refine hw.heeds.opening hk _ (fun _ => ⟨hidle, ?_⟩) fun j hj => ?_
    · rintro ⟨j, hj, -⟩
      cases hj
    · cases hj
      rw [hw.onward.quiet.size]
      exact hid.2
  have haside := (aside_mapDependencies w (.computed id) (·.begin)).trans
    (aside_note hk.quiet (w.mapDependencies (.computed id) (·.begin)) (.evaluating (.computed id)))
  exact ⟨hopening, hw.step ((hw.phase.aside haside).mapTracker _ _) hopening⟩

omit [Inhabited Code] in
/-- Who evaluates and may be asked for is a question of the stacks. -/
theorem under_congr (h : ∀ t, w'.tracker t = w.tracker t) : k.Under start w' = k.Under start w := by
  funext id
  exact propext (and_congr_right fun _ => evaluates_congr h)

omit [Inhabited Code] in
theorem current?_congr (h : ∀ t, w'.tracker t = w.tracker t) (reader : Option TrackerId) :
    w'.current? reader = w.current? reader := by
  cases reader with
  | none => rfl
  | some t => exact congrArg Tracker.current? (h t)

/-- What was noted stays noted by those who evaluate. -/
theorem Forth.noted (h : k.Forth late w w') {m : Manner} {α : Type} {q : Query α}
    (hnotes : k.Notes late start m q w₁ w) {t : TrackerId}
    (hhome : ∀ reader, m.reader reader → reader = some t) (hshares : k.Shares start t)
    (hx : k.Has x) (hreader : w₁.current? (some t) = some x) (hev : w.Evaluates x) :
    (k.sight start).Along (k.Noted (properties late) w' (w'.dependencies x).pending) q :=
  (hnotes t hhome hshares x hx hreader).mono fun _ hnoted => h.onward.noted (h.minds.pending x hx hev) hnoted

/-! ### What is noted of single questions -/

/-- A property that is not a computed one is noted if its source is. -/
theorem noted_of_sounds {waits : ComputedId → Prop} {object : ObjectId} {key : String}
    (hslot : ∀ id, w.slotAt object key ≠ some (.computed id))
    (hsounds : w.Heard (.property object key) → w.Sounds l (.property object key)) :
    k.Noted waits w l (.property object key) where
  sounds := hsounds
  scope id hid := absurd hid (hslot id)
  source id hid := absurd hid (hslot id)
  memoized id hid := absurd hid (hslot id)
  plain id hid := absurd hid (hslot id)

/-- A property that stands for a computed one is noted as that is. -/
theorem Noted.property {waits : ComputedId → Prop} {object : ObjectId} {key : String}
    (h : k.Noted waits w l (.computed id)) (hslot : w.slotAt object key = some (.computed id)) :
    k.Noted waits w l (.property object key) := by
  have hnames : ∀ other, w.Names (.property object key) other → w.Names (.computed id) other := by
    intro other hother
    rw [World.Names, hslot] at hother
    exact Slot.computed.inj (Option.some.inj hother)
  refine ⟨fun _ hwritable => ?_, fun other hother => h.scope other (hnames other hother),
    fun other hother => h.source other (hnames other hother),
    fun other hother => h.memoized other (hnames other hother),
    fun other hother => h.plain other (hnames other hother)⟩
  rw [World.Writable, hslot] at hwritable
  exact hwritable.elim

theorem hears_await {object holder : ObjectId} {key name : String}
    (hresolve : w.resolve object key = (holder, name)) (hslot : (w.object holder).slot? name = none)
    (hobserved : (w.object holder).observed = true) :
    (w.await holder name).2.hears object key = some (w.await holder name).1 := by
  have hdata : w.SameData (w.await holder name).2 :=
    (aside_await w name hobserved : Aside (fun _ : Memory => []) w _).data
  have hslot' : ((w.await holder name).2.object holder).slot? name = none := by
    rw [Object.slot?, hdata.slots]
    exact hslot
  rw [World.hears, hdata.resolve_eq, hresolve, hearer, hslot']
  simp only [hdata.observed, hobserved, if_true]
  unfold World.await
  split
  · next s hs => exact hs
  · change (((w.addSource.2.mapObject holder _).object holder).awaited).find? name = _
    rw [object_mapObject, if_pos rfl]
    exact Entries.find?_put_self _ _ _

section Rules

variable (hk : k.Lawful) (hfair : k.Fair start) (hstart : k.KeptAlike (properties late) start)

include hfair hstart

/-- What was noted of a query in a fair world covers it. -/
theorem Course.covers (hw : k.Course late start w) {q : Query Value} (hlike : q.Alike q)
    (hheard : (k.afresh start).Along start.Heard q)
    (hnoted : (k.sight start).Along (k.Noted (properties late) w l) q) :
    k.Covers (properties late) w l q := by
  refine Covers.of_along (fun what a ha => ?_) hnoted hlike ?_
  · rw [hw.onward.quiet.scratch] at ha
    exact follows hstart hfair.reads hfair.alike ha
  · rw [hw.onward.quiet.afresh, hw.onward.heard]
    exact hheard

/-- What a getter in a fair world came to is what there is from scratch, if there is anything. -/
theorem Course.fresh (hw : k.Course late start w) {q : Query Value} (hlike : q.Alike q)
    {r : Except Error Value} (hgives : (k.sight start).Gives q r) {a : Except Error Value}
    (ha : (k.scratch (properties late) w).Gives q a) : AlikeAnswers a r := by
  rw [hw.onward.quiet.scratch] at ha
  obtain ⟨n, hn⟩ := ha
  obtain ⟨b, hb, hlike⟩ := View.gives_of_eval
    (fun what _ h => follows hstart hfair.reads hfair.alike ⟨n, h⟩) hlike hn
  rw [View.Gives.unique hgives hb]
  exact hlike

include hk

variable (hc : c.application = k.application) (hd : d.application = k.application)

include hc hd

omit hc hd hfair hstart hk in
/-- Keeping things alive that are no view models makes no difference. -/
theorem attentive_keeping {m : Manner} {α : Type} {q : Query α} {a b : Engine Code Memory α}
    (refs : List Ref) (hw : k.Course late start w) (habove : (k.sight start).Above (k.Under start w) q)
    (hab : ∀ w, k.Course late start w → (k.sight start).Above (k.Under start w) q →
      Ends w a b fun r w' => (k.setting start).Reads start q w r w' ∧ k.Forth late w w' ∧
        k.Notes late start m q w w') :
    Ends w (keeping refs a) (keeping refs b) fun r w' =>
      (k.setting start).Reads start q w r w' ∧ k.Forth late w w' ∧ k.Notes late start m q w w' := by
  have hheld := hw.heeds.held (refs ++ w.held)
  refine Ends.keeping refs (hab _ (hw.step (hw.phase.hold refs fun _ _ => trivial) hheld) habove) ?_
  rintro r w' ⟨hr, hforth, hnotes⟩
  have hback := hforth.heeds.held w.held
  have hev : ∀ x, w.Evaluates x → w'.Evaluates x := fun x hx =>
    (evaluates_congr hr.rests.trackers).mpr hx
  refine ⟨⟨hr.gives, hw.phase.putBack hr.phase hr.rests.holds,
    ⟨hr.rests.trackers, rfl, hr.rests.holds, hr.rests.watchers⟩⟩,
    (hheld.trans hforth fun _ h => h).trans hback hev, fun t hhome hshares x hx hreader => ?_⟩
  exact (hnotes t hhome hshares x hx hreader).mono fun _ hnoted => hback.onward.noted (fun _ hs => hs) hnoted

omit hstart in
/-- A getter of the realm notes what it asks for, for whoever reads on the tracker. -/
theorem attentive_runGetter (hrun : k.AttentiveRun late start c d) {id : ComputedId}
    (hid : k.Scope start id) (hw : k.Course late start w)
    (habove : (k.sight start).Above (k.Under start w) (k.query start id)) :
    Ends w (runGetter c id) (runGetter d id) fun _ w' => k.Forth late w w' ∧
      (∀ j, w'.tracker j = w.tracker j) ∧
      k.Notes late start ⟨(· = some (k.tracker id)), fun _ => False⟩ (k.query start id) w w' := by
  have hfits := hfair.fits hk
  have hcomputing : k.Forth late w (w.computing k.application id) :=
    hw.heeds.computing hk (by rw [hw.onward.quiet.size]; exact hid.2)
  have hquery := view_query hid (hfair.reads id hid)
  refine hw.phase.ends_runGetter hfits hc hd hid ?_ ?_ ?_
  · rintro r w' held ⟨hforth, htrackers, hnotes⟩
    have hev : ∀ x, w.Evaluates x → w'.Evaluates x := fun x hx =>
      (evaluates_congr htrackers).mpr hx
    have hheld := hforth.heeds.held held
    refine ⟨hforth.trans hheld hev, htrackers, fun t hhome hshares x hx hreader => ?_⟩
    have hnoted := hnotes t hhome hshares x hx hreader
    exact hnoted.mono fun _ hnoted => hheld.onward.noted (fun _ hs => hs) hnoted
  · rintro ⟨owner, -, hgone⟩
    exact absurd trivial hgone
  · rintro hprogram - w₁ hphase ⟨held, rfl⟩
    have hforth : k.Forth late w { w.computing k.application id with held } :=
      hcomputing.trans (hcomputing.heeds.held held) fun _ h => h
    have hsame : ((k.setting start).program start id).query start = k.query start id :=
      hprogram.symm.trans hquery
    have hasks := hfair.asks id hid
    have hread := hrun _ _ (hfits.reads id hid) (hfits.home id hid)
    rw [hsame] at hread
    refine (hread hasks _ (hw.step hphase hforth) habove).mono ?_
    rintro r w' ⟨hr, hforth', hnotes⟩
    exact ⟨hforth.trans hforth' fun _ h => h, hr.rests.trackers, hnotes⟩

omit hc hd in
/-- A memoized property of the realm has evaluated. -/
theorem Course.closed (hw : k.Course late start w) (hid : k.Scope start id)
    (hmemoize : (start.computed id).memoize = true) (hidle : ¬ w.Evaluates (.computed id))
    (hcache : (w.computed id).cache = none) {r : Except Error Value}
    (hreads : (k.setting start).Reads start (k.query start id)
      (w.opening k.application (w.computed id).tracker (.computed id)) r w₁)
    (hforth : k.Forth late (w.opening k.application (w.computed id).tracker (.computed id)) w₁)
    (hnotes : k.Notes late start ⟨(· = some (k.tracker id)), fun _ => False⟩ (k.query start id)
      (w.opening k.application (w.computed id).tracker (.computed id)) w₁) :
    k.Forth late w (w₁.closed k.application (w.computed id).tracker id r) ∧
      k.Covers (properties late) (w₁.closed k.application (w.computed id).tracker id r)
        ((w₁.closed k.application (w.computed id).tracker id r).dependencies (.computed id)).current
        (k.query start id) := by
  have hhome : (w.computed id).tracker = k.tracker id :=
    (Computed.tracker_eq_of_base_eq (hw.phase.bases id)).trans (hfair.home id hid hmemoize)
  obtain ⟨hopening, hbegun⟩ := hw.opening hk hid hidle
  have hevaluates : ∀ {x}, (w.opening k.application (w.computed id).tracker (.computed id)).Evaluates x
      ↔ .computed id = x ∨ w.Evaluates x := evaluates_opening w _
  have hself : (w.opening k.application (w.computed id).tracker (.computed id)).current?
      (some (k.tracker id)) = some (.computed id) := by
    rw [← hhome]
    simp only [current?, World.opening, Option.bind_some, tracker_mapTracker, if_true, Tracker.push,
      Tracker.current?]
  have hcourse : k.Course late start w₁ := hbegun.step hreads.phase hforth
  have hquery : k.query w₁ id = k.query start id := hcourse.onward.quiet.query id
  have hcovers := hcourse.covers hfair hstart (hfair.alike id hid) (hfair.heard id hid)
    (hnotes _ (fun _ h => h) (hfair.shares hid) (.computed id) hid.1 hself)
  have hcache₁ : (w₁.computed id).cache = none := by
    rw [hforth.minds.caches id hid.1 (hevaluates.mpr (Or.inl rfl))]
    have hface : ((w.opening k.application (w.computed id).tracker (.computed id)).computed id).face
        = (w.computed id).face :=
      (aside_mapDependencies w (.computed id) _ : Aside (fun _ : Memory => []) w _).computeds id
    rw [Computed.cache_eq_of_face_eq hface]
    exact hcache
  have hscope : k.Scope w₁ id := (hcourse.onward.quiet.scope id).mpr hid
  have ho := onward_closed (k := k) hscope (w.computed id).tracker r (hquery.symm ▸ hcovers)
  have hheeds : k.Heeds late (w₁.closed k.application (w.computed id).tracker id r) := by
    refine hcourse.heeds.closed hk hscope hreads.rests.trackers hidle hcache₁ r
      (hquery.symm ▸ hcovers) ?_
    rintro value rfl a ha
    rw [hquery] at ha
    exact hcourse.fresh hfair hstart (hfair.alike id hid) hreads.gives ha
  refine ⟨⟨hopening.onward.trans (hforth.onward.trans ho), ⟨fun x hx hev s hs => ?_, fun j hj hev => ?_⟩,
    fun x hx => ?_, hheeds⟩, ?_⟩
  · have hxid : x ≠ .computed id := fun h => hidle (h ▸ hev)
    rw [dependencies_closed, dependencies_closing fun _ => Subscriber.noConfusion, if_neg hxid]
    exact hforth.minds.pending x hx (hevaluates.mpr (Or.inr hev)) s
      (hopening.minds.pending x hx hev s hs)
  · have hjid : j ≠ id := fun h => hidle (h ▸ hev)
    rw [cache_closed, if_neg hjid, hforth.minds.caches j hj (hevaluates.mpr (Or.inr hev))]
    exact hopening.minds.caches j hj hev
  · rw [record_closed hk.records, Trail.ofHistory,
      Trail.dropped_step x _ fun _ _ => Occurrence.noConfusion]
    exact (hforth.dropped x hx).trans (hopening.dropped x hx)
  · rw [dependencies_closed]
    exact ho.covers _ _ (hcovers.mono (pending_closing (fun _ => Subscriber.noConfusion) _ r))

/-- What the realm's list of a memoized property covers, once the property was read. -/
theorem attentive_memoizedValue (hsound : (k.setting start).SoundRun start c)
    (hrun : k.AttentiveRun late start c d) {id : ComputedId} (hid : k.Scope start id)
    (hw : k.Course late start w) (hmemoize : (w.computed id).memoize = true)
    (habove : (k.sight start).Above (k.Under start w) (.ask (.computed id) .done : Query Value)) :
    Ends w (memoizedValue c id) (memoizedValue d id) fun r w' =>
      (k.setting start).Reads start (.ask (.computed id) .done) w r w' ∧ k.Forth late w w' ∧
        (¬ late (.computed id) → k.Covers (properties late) w'
          (w'.dependencies (.computed id)).current (k.query start id)) := by
  have hfits := hfair.fits hk
  have hmemoize' : (start.computed id).memoize = true := (hw.phase.memoize id).symm.trans hmemoize
  refine (Setting.sound_memoizedValue hfits hc hsound hid hw.phase hmemoize).given fun r w' hr => ?_
  obtain ⟨a, hanswer, -⟩ := View.gives_ask.mp hr.gives
  rw [memoizedValue, memoizedValue, ends_inspect_bind]
  cases hcache : (w.computed id).cache with
  | some value =>
    refine (ends_pure value).mpr ⟨.refl hw.heeds, fun hlate => ?_⟩
    rw [← hw.onward.quiet.query]
    refine (hw.heeds.kept id value ((hw.onward.quiet.scope id).mpr hid) ?_ hlate).covers
    rw [Computed.known?, if_pos hmemoize, hcache]
  | none =>
    have hunknown : (w.computed id).known? = none := by rw [Computed.known?, if_pos hmemoize, hcache]
    have hidle : ¬ w.Evaluates (.computed id) := fun hev =>
      habove.not_evaluating hanswer ⟨hid, hev⟩
    obtain ⟨hopening, hbegun⟩ := hw.opening hk hid hidle
    have hinner := habove.enter (hw.phase.unseen hunknown)
    have hunder : k.Under start (w.opening k.application (w.computed id).tracker (.computed id))
        = fun other => other = id ∨ k.Under start w other := by
      funext other
      rw [Under, evaluates_opening, Subscriber.computed.injEq, @eq_comm _ id other, and_or_left]
      refine propext (or_congr_left (and_iff_right_of_imp ?_))
      rintro rfl
      exact hid
    rw [← hunder, view_query hid (hfair.reads id hid)] at hinner
    have hread := (attentive_runGetter hk hfair hc hd hrun hid hbegun hinner).and
      (Setting.sound_runGetter hfits hc hsound hid hbegun.phase)
    rw [view_query hid (hfair.reads id hid)] at hread
    refine Ends.bind (R := fun r w' => ∃ w₁ : World Code Memory,
      (k.Forth late w (w₁.closed k.application (w.computed id).tracker id r) ∧
        k.Covers (properties late) (w₁.closed k.application (w.computed id).tracker id r)
          ((w₁.closed k.application (w.computed id).tracker id r).dependencies (.computed id)).current
          (k.query start id)) ∧
        w' = w₁.closing k.application (w.computed id).tracker (.computed id) r) ?_ ?_ ?_
    · refine ends_evaluate (hd.trans hc.symm) _ _ (hc.symm ▸ hread) ?_
      rintro r w₁ ⟨⟨hforth, -, hnotes⟩, hreads⟩
      rw [hc] at hreads hforth hnotes ⊢
      exact ⟨w₁, hw.closed hk hfair hstart hid hmemoize' hidle hcache hreads hforth hnotes, rfl⟩
    · rintro value w' ⟨w₁, ⟨hforth, hcovers⟩, rfl⟩
      rw [ends_update_bind, ends_pure]
      exact ⟨hforth, fun _ => hcovers⟩
    · rintro error w' ⟨w₁, ⟨hforth, hcovers⟩, rfl⟩
      exact ⟨hforth, fun _ => hcovers⟩

/-- What is noted of a computed property of the realm that was read. -/
theorem attentive_readComputed (hsound : (k.setting start).SoundRun start c)
    (hrun : k.AttentiveRun late start c d) {id : ComputedId} (hid : k.Scope start id)
    (reader : Option TrackerId) (hw : k.Course late start w)
    (habove : (k.sight start).Above (k.Under start w) (.ask (.computed id) .done : Query Value)) :
    Ends w (readComputed c id reader) (readComputed d id reader) fun r w' =>
      (k.setting start).Reads start (.ask (.computed id) .done) w r w' ∧ k.Forth late w w' ∧
        k.Notes late start ⟨(· = reader), fun _ => False⟩ (.ask (.computed id) .done : Query Value)
          w w' := by
  have hfits := hfair.fits hk
  refine attentive_keeping _ hw habove fun w hw habove => ?_
  rw [ends_inspect_bind]
  have hscope : ∀ {w' : World Code Memory}, k.Course late start w' → ∀ other,
      w'.Names (.computed id) other → k.Scope w' other := by
    rintro w' hw' other rfl
    exact (hw'.onward.quiet.scope id).mpr hid
  cases hmemoize : (w.computed id).memoize with
  | true =>
    have hdepend := (hw.heeds.ends_depend hk hc hd reader (w.computed id).source).and
      (Setting.aside_depend hfits hc reader (w.computed id).source w)
    refine hdepend.bind ?_ ?_
    · rintro - w₁ ⟨⟨-, hforth, hmet⟩, -, haside⟩
      have hcourse := hw.step (hw.phase.aside haside) hforth
      have hmemoize₁ : (w₁.computed id).memoize = true :=
        (Computed.memoize_eq_of_base_eq (Computed.base_eq_of_face_eq (haside.computeds id))).trans
          hmemoize
      rw [← under_congr haside.trackers] at habove
      refine (attentive_memoizedValue hk hfair hstart hc hd hsound hrun hid hcourse hmemoize₁
        habove).mono ?_
      rintro r w' ⟨hr, hforth', hcovers⟩
      have hcourse' := hcourse.step hr.phase hforth'
      refine ⟨hr.after haside.toRests,
        hforth.trans hforth' fun x hx => (evaluates_congr haside.trackers).mpr hx,
        fun t hhome hshares x hx hreader => ⟨?_, fun _ _ => trivial⟩⟩
      rw [← hhome reader rfl] at hreader
      have hsource : (w.computed id).source ∈ (w'.dependencies x).pending :=
        hforth'.minds.pending x hx ((evaluates_congr haside.trackers).mpr
          (evaluates_of_current? hreader)) _ (hmet x hx hreader)
      have hsame : (w'.computed id).source = (w.computed id).source :=
        (hcourse'.onward.quiet.source id).trans (hw.onward.quiet.source id).symm
      refine ⟨fun _ => trivial, hscope hcourse', ?_, ?_, ?_⟩
      · rintro other rfl _
        rw [hsame]
        exact hsource
      · rintro other rfl _ hlate
        rw [hcourse'.onward.quiet.query]
        exact hcovers hlate
      · rintro other rfl hplain
        rw [hcourse'.onward.quiet.memoize, ← hw.onward.quiet.memoize, hmemoize] at hplain
        cases hplain
    · rintro e w' ⟨⟨he, -⟩, -⟩
      cases he
  | false =>
    have hunknown := hw.phase.unseen (by rw [Computed.known?, hmemoize]; rfl : _ = none)
    have hquery := view_query hid (hfair.reads id hid)
    have hinner : (k.sight start).Above (k.Under start w) (k.query start id) := by
      intro other hother n hn
      rw [← hquery]
      exact habove.enter hunknown other (Or.inr hother) n hn
    refine ((attentive_runGetter hk hfair hc hd hrun hid hw hinner).and
      (Setting.sound_runGetter hfits hc hsound hid hw.phase)).mono ?_
    rintro r w' ⟨⟨hforth, -, hnotes⟩, hr⟩
    have hcourse' := hw.step hr.phase hforth
    refine ⟨⟨View.gives_ask.mpr ⟨r, (View.tells_computed_of_unknown hunknown).mpr hr.gives,
      View.gives_done.mpr rfl⟩, hr.phase, hr.rests⟩, hforth, fun t _ hshares x hx hreader =>
      ⟨⟨fun _ => trivial, hscope hcourse', ?_, ?_, ?_⟩, fun _ _ => trivial⟩⟩
    · rintro other rfl hmemo
      rw [hcourse'.onward.quiet.memoize, ← hw.onward.quiet.memoize, hmemoize] at hmemo
      cases hmemo
    · rintro other rfl hmemo
      rw [hcourse'.onward.quiet.memoize, ← hw.onward.quiet.memoize, hmemoize] at hmemo
      cases hmemo
    · rintro other rfl _
      rw [hcourse'.onward.quiet.query]
      obtain rfl := hshares _ hid ((hw.phase.memoize _).symm.trans hmemoize)
      exact hcourse'.covers hfair hstart (hfair.alike _ hid) (hfair.heard _ hid)
        (hnotes _ (fun _ h => h) hshares x hx hreader)

/-- What is noted of a key that was read. -/
theorem attentive_readSlot (hsound : (k.setting start).SoundRun start c)
    (hrun : k.AttentiveRun late start c d) {object holder : ObjectId} {key name : String}
    (hasks : (k.setting start).Asks start (.property object key)) (reader : Option TrackerId)
    (hw : k.Course late start w) (hresolve : w.resolve object key = (holder, name))
    {slot : Option Slot} (hslot : (w.object holder).slot? name = slot)
    (habove : (k.sight start).Above (k.Under start w) (Query.property object key)) :
    Ends w (readSlot c holder name reader slot) (readSlot d holder name reader slot) fun _ w' =>
      k.Forth late w w' ∧
        k.Notes late start ⟨(· = reader), fun _ => False⟩ (Query.property object key) w w' := by
  have hat : w.slotAt object key = slot := by rw [slotAt, hresolve, hslot]
  have hhears : ∀ value source, slot = some (.field value (some source)) →
      w.hears object key = some source := by
    intro value source hsource
    rw [World.hears, hresolve, hearer, hslot, hsource]
  have hdepend : ∀ {w₁ : World Code Memory} {source : SourceId} {value : Value},
      k.Forth late w w₁ → (∀ t, w₁.tracker t = w.tracker t) →
      (∀ id, w.slotAt object key ≠ some (.computed id)) →
      w₁.hears object key = some source →
      Ends w₁ (depend c reader source >>= fun _ => pure value)
        (depend d reader source >>= fun _ => pure value) fun _ w' => k.Forth late w w' ∧
          k.Notes late start ⟨(· = reader), fun _ => False⟩ (Query.property object key) w w' := by
    intro w₁ source value hforth htrackers hplain hhears
    refine (hforth.heeds.ends_depend hk hc hd reader source).bind ?_ ?_
    · rintro - w' ⟨-, hforth', hmet⟩
      have hall := hforth.trans hforth' fun x hx => (evaluates_congr htrackers).mpr hx
      refine (ends_pure value).mpr ⟨hall, fun t hhome hshares x hx hreader => ⟨?_, fun _ _ => trivial⟩⟩
      rw [← hhome reader rfl, ← current?_congr htrackers] at hreader
      refine noted_of_sounds (fun id => ?_) fun _ _ => ?_
      · rw [hall.onward.quiet.slots]
        exact hplain id
      · exact ⟨source, hmet x hx hreader, hforth'.onward.quiet.hears object key source hhears⟩
    · rintro e w' ⟨he, -⟩
      cases he
  have hpure : ∀ value : Value, (∀ id, slot ≠ some (.computed id)) →
      (∀ x, k.Has x → w.current? reader = some x → w.Heard (.property object key) →
        w.Sounds (w.dependencies x).pending (.property object key)) →
      Ends w (pure value : Engine Code Memory Value) (pure value) fun _ w' => k.Forth late w w' ∧
        k.Notes late start ⟨(· = reader), fun _ => False⟩ (Query.property object key) w w' := by
    intro value hplain hsounds
    refine (ends_pure value).mpr
      ⟨.refl hw.heeds, fun t hhome hshares x hx hreader => ⟨?_, fun _ _ => trivial⟩⟩
    rw [← hhome reader rfl] at hreader
    refine noted_of_sounds (fun id => ?_) (hsounds x hx hreader)
    rw [hat]
    exact hplain id
  cases slot with
  | none =>
    rw [readSlot, readSlot, ends_inspect_bind]
    split
    · next hcond =>
      rw [Bool.and_eq_true] at hcond
      rw [ends_create_bind]
      have haside : Aside (fun _ : Memory => []) w (w.await holder name).2 :=
        aside_await w name hcond.1
      refine hdepend (hw.heeds.await name hcond.1) haside.trackers (fun id => ?_)
        (hears_await hresolve hslot hcond.1)
      rw [hat]
      exact (Option.some_ne_none _).symm
    · next hcond =>
      refine hpure _ (fun _ => (Option.some_ne_none _).symm) fun x hx hreader hheard => absurd ?_ hcond
      rw [Bool.and_eq_true]
      refine ⟨?_, by rw [hreader]; rfl⟩
      rw [World.Heard, hat, hresolve] at hheard
      exact hheard
  | some slot =>
    cases slot with
    | field value source =>
      cases source with
      | none =>
        refine hpure value (fun _ h => Slot.noConfusion (Option.some.inj h)) fun x hx hreader hheard => ?_
        rw [World.Heard, hat] at hheard
        cases hheard
      | some source =>
        refine hdepend (.refl hw.heeds) (fun _ => rfl) (fun id => ?_) (hhears value source rfl)
        rw [hat]
        exact fun h => Slot.noConfusion (Option.some.inj h)
    | constant value =>
      refine hpure value (fun _ h => Slot.noConfusion (Option.some.inj h)) fun x hx hreader _ hwrite => ?_
      rw [World.Writable, hat] at hwrite
      exact hwrite.elim
    | proxy target other =>
      refine hpure .undefined (fun _ h => Slot.noConfusion (Option.some.inj h))
        fun x hx hreader _ hwrite => ?_
      rw [World.Writable, hat] at hwrite
      exact hwrite.elim
    | computed id =>
      have hslot' : (k.sight start).slot object key = some (.computed id) :=
        (hw.onward.quiet.slots object key).symm.trans hat
      refine (attentive_readComputed hk hfair hstart hc hd hsound hrun (hasks id hslot') reader hw
        (habove.property hslot')).mono ?_
      rintro r w' ⟨-, hforth, hnotes⟩
      refine ⟨hforth, fun t hhome hshares x hx hreader => ⟨?_, fun _ _ => trivial⟩⟩
      refine (hnotes t hhome hshares x hx hreader).1.property ?_
      rw [hforth.onward.quiet.slots]
      exact hat

/-- What is noted of a property that was read. -/
theorem attentive_get (hsound : (k.setting start).SoundRun start c)
    (hrun : k.AttentiveRun late start c d) {object : ObjectId} {key : String}
    (hasks : (k.setting start).Asks start (.property object key)) (reader : Option TrackerId)
    (hw : k.Course late start w)
    (habove : (k.sight start).Above (k.Under start w) (Query.property object key)) :
    Ends w (Engine.get c object key reader) (Engine.get d object key reader) fun r w' =>
      (k.setting start).Reads start (Query.property object key) w r w' ∧ k.Forth late w w' ∧
        k.Notes late start ⟨(· = reader), fun _ => False⟩ (Query.property object key) w w' := by
  rw [Engine.get, Engine.get, ends_inspect_bind]
  have hresolve : ∀ {w' : World Code Memory}, k.Course late start w' →
      w'.resolve object key = w.resolve object key := fun hw' => by
    rw [hw'.phase.data.resolve_eq, hw.phase.data.resolve_eq]
  refine attentive_keeping _ hw habove fun w₁ hw₁ habove => ?_
  rw [ends_inspect_bind]
  have hslot : (k.sight start).slot object key
      = (w₁.object (w.resolve object key).1).slot? (w.resolve object key).2 := by
    rw [← hresolve hw₁]
    exact (hw₁.onward.quiet.slots object key).symm
  exact ((attentive_readSlot hk hfair hstart hc hd hsound hrun hasks reader hw₁ (hresolve hw₁) rfl
    habove).and (Setting.sound_readSlot (hfair.fits hk) hc hsound hasks _ _ reader hw₁.phase hslot)).mono
      fun r w' hr => ⟨hr.2, hr.1⟩

/-- The rules of reading, from a supervision that everybody's heed vouches for. -/
theorem attentive_rules (hsound : (k.setting start).SoundRun start c)
    (hrun : k.AttentiveRun late start c d) {P P' : Moment Code Memory → World Code Memory → Prop}
    (hP : ∀ moment w, k.Heeds late w → P moment w → P' moment w) :
    ReadingRules c d P P' start (k.Attentive late start) where
  done result := by
    intro _ w hw _
    rw [ends_ofExcept]
    exact ⟨⟨View.gives_done.mpr rfl, hw.phase, .refl w⟩, .refl hw.heeds, fun _ _ _ _ _ _ => trivial⟩
  andThen hq hnext := by
    intro hasks w hw habove
    obtain ⟨hfirst, hrest⟩ := View.along_andThen.mp hasks
    refine (hq hfirst w hw habove.first).attempt_bind ?_
    rintro r w₁ ⟨hr, hforth, hnotes⟩
    have hunder : k.Under start w₁ = k.Under start w := under_congr hr.rests.trackers
    have hbelow := habove.rest hr.gives
    rw [← hunder] at hbelow
    refine (hnext r (hrest r hr.gives) w₁ (hw.step hr.phase hforth) hbelow).mono ?_
    rintro r' w' ⟨hr', hforth', hnotes'⟩
    have hev : ∀ x, w.Evaluates x → w₁.Evaluates x := fun x hx =>
      (evaluates_congr hr.rests.trackers).mpr hx
    refine ⟨⟨View.gives_andThen.mpr ⟨r, hr.gives, hr'.gives⟩, hr'.phase, hr.rests.trans hr'.rests⟩,
      hforth.trans hforth' hev, fun t hhome hshares x hx hreader => View.along_andThen.mpr ⟨?_, ?_⟩⟩
    · exact hforth'.noted hnotes hhome hshares hx hreader (hev x (evaluates_of_current? hreader))
    · intro s hs
      rw [View.Gives.unique hs hr.gives]
      exact hnotes' t hhome hshares x hx ((current?_congr hr.rests.trackers _).trans hreader)
  keeping refs _ hq := by
    intro hasks w hw habove
    exact attentive_keeping refs hw habove fun w hw habove => hq hasks w hw habove
  paused t hpaused hq := by
    intro hasks w hw habove
    have hpush : k.Forth late w (w.mapTracker t (·.push none)) := by
      refine hw.heeds.forth (passes_mapTracker w t _) (fun x _ => ?_) fun id hid => Or.inl ?_
      · exact unmoved_mapTracker w t (by simp [Tracker.push])
      · exact ((evaluates_push w t none).mp hid).resolve_left (by simp)
    have hunder : k.Under start (w.mapTracker t (·.push none)) = k.Under start w := by
      funext id
      refine propext (and_congr_right fun _ => (evaluates_push w t none).trans ?_)
      exact or_iff_right (by simp)
    rw [← hunder] at habove
    refine Ends.framed t none (hq hasks _ (hw.step (hw.phase.mapTracker t _) hpush) habove) ?_
    rintro r w' ⟨hr, hforth, -⟩
    have hback := World.tracker_pop_push w t none w' hr.rests.trackers
    have hpop : k.Forth late w' (w'.mapTracker t (·.pop)) := by
      refine hforth.heeds.forth (passes_mapTracker w' t _) (fun x _ => unmoved_mapTracker w' t ?_)
        fun id hid => Or.inl (evaluates_of_pop w' t hid)
      rw [hr.rests.trackers, tracker_mapTracker, if_pos rfl]
      simp [Tracker.push, Tracker.pop]
    have hev : ∀ x, w.Evaluates x → (w.mapTracker t (·.push none)).Evaluates x := fun x hx =>
      (evaluates_push w t none).mpr (Or.inr hx)
    refine ⟨⟨hr.gives, hr.phase.mapTracker t _, hback, hr.rests.held, hr.rests.holds,
      hr.rests.watchers⟩, (hpush.trans hforth hev).trans hpop fun x hx =>
        (evaluates_congr hr.rests.trackers).mpr (hev x hx), fun _ hhome => ?_⟩
    cases hhome none hpaused
  moment moment hq := by
    intro hasks w hw habove
    exact Ends.under (hP moment w hw.heeds) fun _ => hq hasks w hw habove
  congr hcongr hq := by
    intro hasks w hw habove r w' hr
    rw [(hcongr w hw.phase.data).1] at hr
    rw [(hcongr w hw.phase.data).2]
    exact hq hasks w hw habove r w' hr
  property object key reader hreader := by
    intro hasks w hw habove
    refine (attentive_get hk hfair hstart hc hd hsound hrun hasks.1 reader hw habove).mono ?_
    exact fun r w' h => ⟨h.1, h.2.1, fun t hhome => h.2.2 t fun _ h => h ▸ hhome reader hreader⟩
  computed id reader hreader := by
    intro hasks w hw habove
    refine (attentive_readComputed hk hfair hstart hc hd hsound hrun (hasks.1 id rfl) reader hw
      habove).mono ?_
    exact fun r w' h => ⟨h.1, h.2.1, fun t hhome => h.2.2 t fun _ h => h ▸ hhome reader hreader⟩

omit hc hd in
/-- Programs that only read are attentive at any depth. -/
theorem attentiveRun_reentryUnder {P P' : Proviso Code Memory} (waiting : List Subscriber)
    (hP : ∀ moment w, k.Heeds late w → P waiting moment w → P' waiting moment w) (depth : Nat) :
    k.AttentiveRun late start (reentryUnder P k.application depth waiting)
      (reentryUnder P' k.application depth waiting) := by
  induction depth with
  | zero =>
    intro m α program _ _ _ w _ _
    exact ends_exhausted _
  | succ depth inductionHypothesis =>
    intro m α program hreads hhome
    have hc : ∀ P : Proviso Code Memory,
        (reentryUnder P k.application depth waiting).application = k.application :=
      (application_reentryUnder · depth waiting)
    exact (attentive_rules hk hfair hstart (hc P) (hc P')
      (Setting.soundRun_reentryUnder (hfair.fits hk) P depth waiting) inductionHypothesis hP).follow
        hhome hreads

end Rules

end ViewBinding.Realm
