import ViewBinding.Proofs.Listing
import ViewBinding.Proofs.Writing

/-!
# Registration is exact

At every moment of every run, a source lists a watcher or a memoized property exactly when the source
is on its list, and that list is what its evaluations say that it met. The books are in order after
every step that the engine takes for a program, and nobody but a probe is on a stack then.
-/

namespace ViewBinding

open Engine World

variable {Code Memory : Type} [Inhabited Code]

/-- A request that registers and evaluates by hand nobody but probes, and that leaves the record
alone. -/
def Request.HandsOff (record : Memory → List Occurrence) :
    Request Code Memory → World Code Memory → Prop
  | .register _ subscriber, _ => ∃ id, subscriber = .probe id
  | .unregister _ subscriber, _ => ∃ id, subscriber = .probe id
  | .enter _ frame, _ => ∀ subscriber, frame = some subscriber → ∃ id, subscriber = .probe id
  | .remember f, w => record (f w.memory) = record w.memory
  | _, _ => True

/-- An embedder whose getters only read, and whose other programs leave registration to the engine. -/
structure Application.HandsOff (application : Application Code Memory)
    (record : Memory → List Occurrence) : Prop where
  records : application.Records record
  quiet : ∀ occurrence w, application.holds (application.notes occurrence w)
    = application.holds w.memory
  getter : ∀ code owner?, (application.getter code owner?).Reads (Setting.liberal application owner?)
  callback : ∀ code value, (application.callback code value).Makes (Request.HandsOff record)
  method : ∀ code owner event,
    (application.method code owner event).Makes (Request.HandsOff record)
  listener : ∀ code event, (application.listener code event).Makes (Request.HandsOff record)
  update : ∀ code, (application.update code).Makes (Request.HandsOff record)
  install : ∀ code owner node directive,
    (application.install code owner node directive).Makes (Request.HandsOff record)

namespace World

/-- Nobody but a probe is on a stack. -/
def Idle (w : World Code Memory) : Prop :=
  ∀ y, w.Evaluates y → ∃ id, y = .probe id

/-- The books of a subscriber are in order, and nobody evaluates. -/
structure AtRest (record : Memory → List Occurrence) (x : Subscriber) (w : World Code Memory) :
    Prop where
  books : w.InOrder record x True
  idle : w.Idle

variable {record : Memory → List Occurrence} {x y : Subscriber} {made : Prop}
  {w w' : World Code Memory}

omit [Inhabited Code] in
theorem Idle.not_evaluates (h : w.Idle) (hx : ∀ id, x ≠ .probe id) : ¬ w.Evaluates x := by
  intro hevaluates
  obtain ⟨id, hid⟩ := h x hevaluates
  exact hx id hid

omit [Inhabited Code] in
theorem Idle.congr (h : w.Idle) (htrackers : ∀ t, w'.tracker t = w.tracker t) : w'.Idle :=
  fun y hy => h y ((evaluates_congr htrackers).mp hy)

omit [Inhabited Code] in
theorem Idle.push (h : w.Idle) (t : TrackerId) {frame : Frame}
    (hframe : ∀ subscriber, frame = some subscriber → ∃ id, subscriber = .probe id) :
    (w.mapTracker t (·.push frame)).Idle := by
  intro y hy
  rcases (evaluates_push w t frame).mp hy with hy | hy
  · exact hframe y hy
  · exact h y hy

omit [Inhabited Code] in
theorem Idle.pop (h : w.Idle) (t : TrackerId) : (w.mapTracker t (·.pop)).Idle :=
  fun y hy => h y (evaluates_of_pop w t hy)

theorem Builds.unmoved (h : w.Builds w') : Unmoved record x w w' where
  page := by
    refine page_eq (fun s => ?_) ?_ ?_ ?_
    · rw [h.sources]
      exact Iff.rfl
    · cases x with
      | watcher j => rw [World.dependencies, watcher, h.watchers]; rfl
      | computed j => exact h.dependencies j
      | probe j => rfl
    · refine isOver_congr fun id _ => ?_
      rw [watcher, h.watchers]
      rfl
    · rw [h.memory]
      rfl
  root id _ := by
    rw [watcher, h.watchers]
    rfl
  evaluates := evaluates_congr h.trackers

section

variable (hx : ∀ id, x ≠ .probe id)

include hx

/-- A change that does not show on the page and puts nobody on a stack. -/
theorem AtRest.step (h : w.AtRest record x) (hpage : w'.page record x = w.page record x)
    (hroot : ∀ id, x = .watcher id → (w'.watcher id).root = (w.watcher id).root)
    (hidle : w'.Idle) : w'.AtRest record x := by
  refine ⟨Unmoved.inOrder ⟨hpage, hroot, ?_⟩ h.books, hidle⟩
  exact iff_of_false (hidle.not_evaluates hx) (h.idle.not_evaluates hx)

theorem AtRest.builds (h : w.AtRest record x) (hw : w.Builds w') : w'.AtRest record x :=
  h.step hx hw.unmoved.page (fun _ _ => by rw [watcher, hw.watchers, watcher]) (h.idle.congr hw.trackers)

theorem AtRest.unmoved (h : w.AtRest record x) (hw : Unmoved record x w w') (hidle : w'.Idle) :
    w'.AtRest record x :=
  h.step hx hw.page hw.root hidle

theorem AtRest.push (h : w.AtRest record x) (t : TrackerId) {frame : Frame}
    (hframe : ∀ subscriber, frame = some subscriber → ∃ id, subscriber = .probe id) :
    (w.mapTracker t (·.push frame)).AtRest record x :=
  h.step hx (by cases x <;> rfl) (fun _ _ => rfl) (h.idle.push t hframe)

theorem AtRest.pop (h : w.AtRest record x) (t : TrackerId) :
    (w.mapTracker t (·.pop)).AtRest record x :=
  h.step hx (by cases x <;> rfl) (fun _ _ => rfl) (h.idle.pop t)

end

/-! ### New watchers -/

omit [Inhabited Code] in
theorem watcher_addWatcher (w : World Code Memory) (y : Watcher Code) (id : WatcherId) :
    (w.addWatcher y).2.watcher id = if id = w.watchers.fresh then y else w.watcher id := by
  change (w.watchers.add y).get id = _
  split
  · next h => rw [h, Table.get_add_fresh]
  · next h => exact Table.get_add_of_ne _ _ h

omit [Inhabited Code] in
theorem watcher_fresh (w : World Code Memory) : w.watcher w.watchers.fresh = default :=
  w.watchers.get_fresh

/-- A new watcher has no list yet and is on none, which is how it read before. -/
theorem page_addWatcher (w : World Code Memory) {y : Watcher Code} (hdependencies : y.dependencies = {})
    (hdisposed : y.disposed = false) : (w.addWatcher y).2.page record x = w.page record x := by
  refine page_eq (fun _ => Iff.rfl) ?_ (isOver_congr fun id _ => ?_) rfl
  · cases x with
    | watcher id =>
      simp only [dependencies, watcher_addWatcher]
      split
      · next h =>
        rw [hdependencies, h]
        exact (congrArg Watcher.dependencies (watcher_fresh w)).symm
      · rfl
    | computed id => rfl
    | probe id => rfl
  · rw [watcher_addWatcher]
    split
    · next h => rw [hdisposed, h, watcher_fresh]; rfl
    · rfl

/-! ### Tearing down -/

theorem tracker_teardownWatcher (w : World Code Memory) (id : WatcherId) (t : TrackerId) :
    (w.teardownWatcher id).tracker t = w.tracker t := by
  unfold teardownWatcher
  split
  · rfl
  · rw [clear, unregisterAll_eq]
    exact tracker_mapDependencies _ _ _ t

theorem unmoved_teardownWatcher (w : World Code Memory) {id : WatcherId} (hid : .watcher id ≠ x) :
    Unmoved record x w (w.teardownWatcher id) := by
  unfold teardownWatcher
  split
  · exact .refl w
  · refine Unmoved.trans ?_ ((unmoved_mapDependencies _ hid _).trans (unmoved_unregisterAll _ hid _))
    refine ⟨page_eq (fun _ => Iff.rfl) ?_ (isOver_congr fun j hj => ?_) rfl, fun j hj => ?_, Iff.rfl⟩
    · cases x with
      | watcher j =>
        simp only [dependencies, watcher_mapWatcher, if_neg fun h : j = id => hid (h ▸ rfl)]
        rfl
      | computed j => rfl
      | probe j => rfl
    · rw [watcher_mapWatcher, if_neg fun h : j = id => hid (h ▸ hj.symm)]
    · rw [watcher_mapWatcher, if_neg fun h : j = id => hid (h ▸ hj.symm)]

/-- A watcher that is torn down is at rest if its books agreed. -/
theorem atRest_teardown_self {id : WatcherId} (hid : x = .watcher id)
    (h : (w.page record x).Agrees False) (hidle : w.Idle) :
    (w.teardownWatcher id).AtRest record x := by
  have hidle' : (w.teardownWatcher id).Idle := hidle.congr (tracker_teardownWatcher w id)
  have hevaluates : ¬ (w.teardownWatcher id).Evaluates x :=
    hidle'.not_evaluates (by simp [hid])
  have hclosed : (w.teardownWatcher id).IsOver x ∧
      ((w.teardownWatcher id).page record x).Agrees False := by
    by_cases hended : w.IsOver x
    · have hdisposed : (w.watcher id).disposed = true := by
        obtain ⟨j, hj, hdisposed⟩ := hended
        rw [hid, Subscriber.watcher.injEq] at hj
        exact hj ▸ hdisposed
      rw [teardownWatcher, if_pos hdisposed]
      exact ⟨hended, h⟩
    · have hpage : (w.teardownWatcher id).page record x = (w.page record x).close :=
        page_teardown w hid hended
      refine ⟨?_, ?_⟩
      · change ((w.teardownWatcher id).page record x).ended
        rw [hpage]
        trivial
      · rw [hpage]
        exact h.close fun h => h
  refine ⟨⟨?_, fun _ _ hnot => absurd hclosed.1 hnot⟩, hidle'⟩
  rw [eq_false hevaluates]
  exact hclosed.2

theorem AtRest.teardown (hx : ∀ id, x ≠ .probe id) (h : w.AtRest record x) (id : WatcherId) :
    (w.teardownWatcher id).AtRest record x := by
  by_cases hid : .watcher id = x
  · refine atRest_teardown_self hid.symm ?_ h.idle
    rw [← eq_false (h.idle.not_evaluates hx)]
    exact h.books.agrees
  · exact h.unmoved hx (unmoved_teardownWatcher w hid) (h.idle.congr (tracker_teardownWatcher w id))

end World

/-- A source tells its subscribers, and forgets those that are gone. -/
theorem World.AtRest.tell {application : Application Code Memory} {record : Memory → List Occurrence}
    {x : Subscriber} {w : World Code Memory} (hrecord : application.Records record)
    (h : w.AtRest record x) (s : SourceId) {live : List Subscriber} (hlive : ∀ y ∈ live, y ∈ (w.source s).subscribers) :
    ((w.mapSource s fun _ => ⟨live⟩).note application (.telling s live)).AtRest record x := by
  have hpage := page_tell hrecord w s (hlive x)
  refine ⟨⟨?_, fun id hid hended => ?_⟩, h.idle.congr fun _ => rfl⟩
  · rw [hpage]
    exact h.books.agrees.tell s _
  · have hsucceeded : ((w.page record x).tell s (decide (x ∈ live))).trail.succeeded
        = (w.page record x).trail.succeeded := by
      unfold Page.tell
      split <;> rfl
    rw [hpage, hsucceeded]
    have hdependencies : ((w.mapSource s fun _ => ⟨live⟩).note application
        (.telling s live)).dependencies x = w.dependencies x := dependencies_congr rfl rfl
    rw [hdependencies]
    exact h.books.fresh id hid hended

namespace Engine

variable {application : Application Code Memory} {record : Memory → List Occurrence}
  {x : Subscriber} {made : Prop} {w : World Code Memory} {α : Type}

section Watching

variable (happ : application.HandsOff record) (hx : ∀ id, x ≠ .probe id) (P : Proviso Code Memory)
  {P' : Proviso Code Memory}
  (hP' : ∀ made waiting moment w, w.InOrder record x made → P' waiting moment w) (depth : Nat)
  (waiting : List Subscriber)

include happ hx hP'

theorem tidy_rules_whole (start : World Code Memory) :
    ReadingRules (reentryUnder P application depth waiting) (reentryUnder P' application depth waiting)
      (P waiting) (P' waiting) start ((Setting.whole application start).Tidy start record x made) := by
  have hfits := Setting.fits_whole happ.quiet happ.getter start
  have hc : ∀ P : Proviso Code Memory,
      (reentryUnder P application depth waiting).application = application :=
    (application_reentryUnder · depth waiting)
  exact Setting.tidy_rules hfits (fun _ => trivial) (hc P) (hc P') hx happ.records
    (Setting.soundRun_reentryUnder hfits P depth waiting)
    (Setting.tidyRun_reentryUnder hfits (fun _ => trivial) hx happ.records P (hP' made) depth waiting)
    (P waiting) (hP' made waiting)

omit happ hx hP' in
/-- What reads at rest is at rest afterwards. -/
theorem keeps_of_tidy {q : World Code Memory → Query α} {a b : Engine Code Memory α}
    (hab : ∀ start, (Setting.whole application start).Tidy start record x True (.free fun _ => False)
      (q start) a b) : Keeps (AtRest record x) a b := by
  intro w hw
  have habove : ((Setting.whole application w).view w).Above
      (fun id => w.Evaluates (.computed id)) (q w) := by
    refine View.above_nothing _ fun id hid => ?_
    obtain ⟨probe, hprobe⟩ := hw.idle _ hid
    cases hprobe
  refine (hab w (by simp [Manner.free]) w (Setting.phase_whole w) habove hw.books).mono fun r w' hr => ?_
  exact ⟨hr.2, hw.idle.congr hr.1.rests.trackers⟩

/-- A watcher evaluates its path: what comes before, what is read, and what comes after. -/
theorem ends_evaluateWatcher (hidle : w.Idle) (id : WatcherId)
    (hopening : (w.opening application (w.watcher id).tracker (.watcher id)).InOrder record x made) :
    Ends w (evaluateWatcher (reentryUnder P application depth waiting) id)
      (evaluateWatcher (reentryUnder P' application depth waiting) id) fun r w' =>
        ∃ w₁ : World Code Memory, w₁.InOrder record x made ∧ (∀ j, w₁.tracker j =
          (w.opening application (w.watcher id).tracker (.watcher id)).tracker j) ∧
          w' = w₁.closing application (w.watcher id).tracker (.watcher id) r := by
  have hc : ∀ P : Proviso Code Memory,
      (reentryUnder P application depth waiting).application = application :=
    (application_reentryUnder · depth waiting)
  rw [evaluateWatcher, evaluateWatcher, ends_inspect_bind]
  refine ends_evaluate ((hc P').trans (hc P).symm) _ _ (R := fun r w' =>
    w'.InOrder record x made ∧ ∀ j, w'.tracker j = (w.opening application (w.watcher id).tracker
      (.watcher id)).tracker j) ?_ ?_
  · rw [hc]
    have hrules : ReadingRules _ _ _ _ _ ((Setting.whole application _).Tidy _ record x made) :=
      tidy_rules_whole happ hx P hP' depth waiting
        (w.opening application (w.watcher id).tracker (.watcher id))
    have hreader : (Manner.free fun _ => False).reader (some (w.watcher id).tracker) := trivial
    have hread := hrules.readPath hreader (w.watcher id).root (w.watcher id).path
    refine (hread (by simp [Manner.free]) _ (Setting.phase_whole _) ?_ hopening).mono ?_
    · refine View.above_nothing _ fun j hj => ?_
      rcases (evaluates_opening w _).mp hj with hj | hj
      · cases hj
      · obtain ⟨probe, hprobe⟩ := hidle _ hj
        cases hprobe
    · exact fun r w' hr => ⟨hr.2, hr.1.rests.trackers⟩
  · intro r w' hw'
    rw [hc]
    exact ⟨w', hw'.1, hw'.2, rfl⟩

/-- Another watcher evaluates. -/
theorem ends_evaluateWatcher_other (h : w.AtRest record x) {id : WatcherId} (hid : .watcher id ≠ x) :
    Ends w (evaluateWatcher (reentryUnder P application depth waiting) id)
      (evaluateWatcher (reentryUnder P' application depth waiting) id) fun _ => AtRest record x := by
  have hopening := h.books.opening_other happ.records hid (w.watcher id).tracker
  refine (ends_evaluateWatcher happ hx P hP' depth waiting h.idle id hopening).mono ?_
  rintro r w' ⟨w₁, h₁, htrackers, rfl⟩
  refine ⟨h₁.closing_other happ.records hid _ htrackers r, ?_⟩
  exact h.idle.congr (tracker_closing w₁ _ r htrackers)

/-- The watcher itself evaluates: its books agree afterwards, and after a success all is at rest. -/
theorem ends_evaluateWatcher_self (hagrees : (w.page record x).Agrees False) (hidle : w.Idle)
    {id : WatcherId} (hid : .watcher id = x) (hended : ¬ w.IsOver x)
    (hmade : made → (w.page record x).trail.succeeded = true) :
    Ends w (evaluateWatcher (reentryUnder P application depth waiting) id)
      (evaluateWatcher (reentryUnder P' application depth waiting) id) fun r w' =>
        (w'.page record x).Agrees False ∧ w'.Idle ∧
          (made ∨ (∃ value, r = .ok value) → w'.AtRest record x) := by
  have hopening : (w.opening application (w.watcher id).tracker (.watcher id)).InOrder
      record x made := by
    rw [hid]
    exact inOrder_opening_self hx happ.records hagrees hended (fun hm _ _ => hmade hm) _
  refine (ends_evaluateWatcher happ hx P hP' depth waiting hidle id hopening).mono ?_
  rintro r w' ⟨w₁, h₁, htrackers, rfl⟩
  have hidle' := hidle.congr (tracker_closing w₁ (w.watcher id).tracker r htrackers)
  rw [hid] at htrackers hidle' ⊢
  have hnot := hidle.not_evaluates hx
  refine ⟨(h₁.closing_self hx happ.records hnot _ htrackers r).1, hidle', fun hr => ⟨?_, hidle'⟩⟩
  refine h₁.closing_success hx happ.records hnot _ htrackers r ?_ True
  rcases hr with hr | hr
  · exact Or.inl hr
  · exact Or.inr (Or.inl hr)

omit happ hx hP' in
theorem AtRest.held (hx : ∀ id, x ≠ .probe id) (h : w.AtRest record x) (held : List Ref) :
    ({ w with held } : World Code Memory).AtRest record x :=
  h.builds hx (builds_of_eq rfl rfl rfl rfl rfl)

/-- A new watcher evaluates for the first time. -/
theorem ends_evaluateWatcher_new {w₁ : World Code Memory} (hw : w.AtRest record x) {id : WatcherId}
    (hpage : w₁.page record x = w.page record x) (hidle : w₁.Idle)
    (hnew : (w₁.watcher id).disposed = false)
    (hroot : ∀ j, j ≠ id → (w₁.watcher j).root = (w.watcher j).root) :
    Ends w₁ (evaluateWatcher (reentryUnder P application depth waiting) id)
      (evaluateWatcher (reentryUnder P' application depth waiting) id) fun r w' =>
        (w'.page record x).Agrees False ∧ w'.Idle ∧
          ((∃ value, r = .ok value) ∨ .watcher id ≠ x → w'.AtRest record x) := by
  by_cases hid : .watcher id = x
  · have hagrees := hw.books.agrees
    rw [eq_false (hw.idle.not_evaluates hx), ← hpage] at hagrees
    have hended : ¬ w₁.IsOver x := by
      rintro ⟨j, hj, hdisposed⟩
      rw [← hid, Subscriber.watcher.injEq] at hj
      rw [← hj, hnew] at hdisposed
      cases hdisposed
    refine (ends_evaluateWatcher_self happ hx P hP' depth waiting hagrees hidle hid hended
      False.elim).mono fun r w' hr => ⟨hr.1, hr.2.1, fun hrest => hr.2.2 (Or.inr ?_)⟩
    exact hrest.resolve_right fun hne => hne hid
  · have hw₁ : w₁.AtRest record x := by
      refine hw.step hx hpage (fun j hj => hroot j ?_) hidle
      rintro rfl
      exact hid hj.symm
    refine (ends_evaluateWatcher_other happ hx P hP' depth waiting hw₁ hid).mono fun r w' hw' => ?_
    refine ⟨?_, hw'.idle, fun _ => hw'⟩
    rw [← eq_false (hw'.idle.not_evaluates hx)]
    exact hw'.books.agrees

/-- Making a watcher. -/
theorem keeps_watch (tracker : TrackerId) (root : Value) (path : Path) (reaction : Reaction Code) :
    Keeps (AtRest record x)
      (watch (reentryUnder P application depth waiting) tracker root path reaction)
      (watch (reentryUnder P' application depth waiting) tracker root path reaction) := by
  intro w hw
  unfold watch
  rw [ends_create_bind]
  have hwatcher := watcher_addWatcher w { tracker, root, path, reaction }
  refine Ends.keeping _ (R := fun _ => AtRest record x) ?_ fun r w' hw' => AtRest.held hx hw' _
  refine Ends.attempt_bind (ends_evaluateWatcher_new happ hx P hP' depth waiting hw
    ?_ ?_ ?_ fun j hj => ?_) ?_
  · exact page_addWatcher w rfl rfl
  · exact hw.idle.congr fun _ => rfl
  · exact congrArg Watcher.disposed ((hwatcher w.watchers.fresh).trans (if_pos rfl))
  · exact congrArg Watcher.root ((hwatcher j).trans (if_neg hj))
  · rintro r w' ⟨hagrees, hidle, hrest⟩
    cases r with
    | ok value =>
      rw [ends_update_bind, ends_pure]
      refine AtRest.unmoved hx (hrest (Or.inl ⟨value, rfl⟩)) ?_ (hidle.congr fun _ => rfl)
      exact unmoved_mapWatcher w' _ fun _ => ⟨rfl, rfl, rfl⟩
    | error error =>
      rw [ends_update_bind, ends_throw]
      by_cases hid : .watcher w.watchers.fresh = x
      · exact atRest_teardown_self hid.symm hagrees hidle
      · exact (hrest (Or.inr hid)).teardown hx _

omit happ hP' in
/-- A watcher that was never made meets no source. -/
theorem ends_evaluateWatcher_undefined {id : WatcherId} (hid : .watcher id = x)
    (hroot : (w.watcher id).root = .undefined) (hcurrent : (w.dependencies x).current = []) :
    Ends w (evaluateWatcher (reentryUnder P application depth waiting) id)
      (evaluateWatcher (reentryUnder P application depth waiting) id) fun _ w' =>
        (w'.watcher id).root = .undefined ∧ (w'.dependencies x).current = [] := by
  have hc : (reentryUnder P application depth waiting).application = application :=
    application_reentryUnder P depth waiting
  rw [evaluateWatcher, ends_inspect_bind, hroot]
  obtain ⟨result, hresult, -⟩ := readPath_undefined (reentryUnder P application depth waiting)
    (w.watcher id).path (some (w.watcher id).tracker)
  rw [hresult]
  refine ends_evaluate rfl _ _ (R := fun _ w' =>
    w' = w.opening application (w.watcher id).tracker (.watcher id)) ?_ ?_
  · rw [ends_ofExcept, hc]
  · rintro r w' rfl
    rw [hc]
    refine ⟨?_, ?_⟩
    · have hface := (face_closing (w.opening application (w.watcher id).tracker (.watcher id))
        application (w.watcher id).tracker (.watcher id) r id).trans
        (face_opening w application (w.watcher id).tracker (.watcher id) id)
      exact (congrArg Watcher.root hface).trans hroot
    · rw [hid]
      exact current_closing_opening hx hcurrent _ r

/-- A watcher that is not torn down evaluates again. -/
theorem ends_evaluateWatcher_again (h : w.AtRest record x) {id : WatcherId}
    (hdisposed : (w.watcher id).disposed = false) :
    Ends w (evaluateWatcher (reentryUnder P application depth waiting) id)
      (evaluateWatcher (reentryUnder P' application depth waiting) id) fun _ => AtRest record x := by
  by_cases hid : .watcher id = x
  · have hagrees := h.books.agrees
    have hnot := h.idle.not_evaluates hx
    rw [eq_false hnot] at hagrees
    have hended : ¬ w.IsOver x := by
      rintro ⟨j, hj, hended⟩
      rw [← hid, Subscriber.watcher.injEq] at hj
      rw [← hj, hdisposed] at hended
      cases hended
    rcases h.books.fresh id hid.symm hended with hsucceeded | hempty | hmaking
    · refine (ends_evaluateWatcher_self happ hx P hP' depth waiting hagrees h.idle hid hended
        fun _ => hsucceeded).mono fun r w' hr => hr.2.2 (Or.inl trivial)
    · refine ((ends_evaluateWatcher_self happ hx P hP' depth waiting hagrees h.idle hid hended
        False.elim).and (ends_evaluateWatcher_undefined hx P depth waiting hid hempty.1
          hempty.2.1)).mono ?_
      rintro r w' ⟨⟨hagrees', hidle', -⟩, hempty'⟩
      have hnot' := hidle'.not_evaluates hx
      rw [← eq_false hnot'] at hagrees'
      refine ⟨⟨hagrees', fun j hj _ => Or.inr (Or.inl ⟨?_, hempty'.2, hnot'⟩)⟩, hidle'⟩
      rw [← hid, Subscriber.watcher.injEq] at hj
      exact hj ▸ hempty'.1
    · exact absurd hmaking.2 hnot
  · exact ends_evaluateWatcher_other happ hx P hP' depth waiting h hid

end Watching

/-! ### Everything a program can ask for -/

/-- Notifying and running keep a subscriber at rest, in two engines alike. -/
structure Restful (record : Memory → List Occurrence) (x : Subscriber) (c d : Reentry Code Memory) :
    Prop where
  notify (source : SourceId) : Keeps (AtRest record x) (c.notify source) (d.notify source)
  run {α : Type} (program : Program Code Memory α) : program.Makes (Request.HandsOff record) →
    Keeps (AtRest record x) (c.run program) (d.run program)

section Requests

variable (happ : application.HandsOff record) (hx : ∀ id, x ≠ .probe id) (P : Proviso Code Memory)
  {P' : Proviso Code Memory}
  (hP' : ∀ made waiting moment w, w.InOrder record x made → P' waiting moment w) (depth : Nat)
  (waiting : List Subscriber)

include hx in
theorem keeps_keeping (refs : List Ref) {a b : Engine Code Memory α}
    (hab : Keeps (AtRest record x) a b) :
    Keeps (AtRest record x) (keeping refs a) (keeping refs b) :=
  Keeps.keeping (I := AtRest record x) (fun _ held hw => AtRest.held hx hw held) refs hab

include hx in
theorem keeps_pausing (t : TrackerId) {a b : Engine Code Memory α}
    (hab : Keeps (AtRest record x) a b) :
    Keeps (AtRest record x) (framed (some t) none a) (framed (some t) none b) := by
  intro w hw
  have hframe : ∀ subscriber, (none : Frame) = some subscriber → ∃ id, subscriber = .probe id := by
    intro subscriber h
    cases h
  exact Ends.framed t none (hab _ (hw.push hx t hframe)) fun r w' hw' => hw'.pop hx t

include hx happ in
theorem keeps_note (occurrence : Occurrence) (hstep : ∀ t, Trail.step x t occurrence = t) :
    Keeps (AtRest record x) (update (·.note application occurrence))
      (update (·.note application occurrence)) :=
  Keeps.update fun w hw => hw.unmoved hx (unmoved_note happ.records w hstep) (hw.idle.congr fun _ => rfl)

include happ hx hP'

theorem keeps_get (object : ObjectId) (key : String) (reader : Option TrackerId) :
    Keeps (AtRest record x) (get (reentryUnder P application depth waiting) object key reader)
      (get (reentryUnder P' application depth waiting) object key reader) := by
  have hread : ∀ start : World Code Memory, (Setting.whole application start).Tidy start record x True
      (.free fun _ => False) (Query.property object key)
      (get (reentryUnder P application depth waiting) object key reader)
      (get (reentryUnder P' application depth waiting) object key reader) := by
    intro start
    exact (tidy_rules_whole happ hx P hP' depth waiting start).property object key trivial
  exact keeps_of_tidy hread

omit hP' in
theorem keeps_depend (t : TrackerId) (source : SourceId) :
    Keeps (AtRest record x) (depend (reentryUnder P application depth waiting) (some t) source)
      (depend (reentryUnder P' application depth waiting) (some t) source) := by
  intro w hw
  have hc : ∀ P : Proviso Code Memory,
      (reentryUnder P application depth waiting).application = application :=
    (application_reentryUnder · depth waiting)
  have hfits := Setting.fits_whole happ.quiet happ.getter w
  refine ((inOrder_depend hx happ.records (hc P) (hc P') hw.books (some t) source).and
    (Setting.aside_depend hfits (hc P) (some t) source w)).mono ?_
  rintro r w' ⟨⟨-, hbooks⟩, -, haside⟩
  exact ⟨hbooks, hw.idle.congr haside.trackers⟩

theorem keeps_readComputed (id : ComputedId) (reader : Option TrackerId) :
    Keeps (AtRest record x) (readComputed (reentryUnder P application depth waiting) id reader)
      (readComputed (reentryUnder P' application depth waiting) id reader) := by
  have hread : ∀ start : World Code Memory, (Setting.whole application start).Tidy start record x True
      (.free fun _ => False) (.ask (.computed id) .done)
      (readComputed (reentryUnder P application depth waiting) id reader)
      (readComputed (reentryUnder P' application depth waiting) id reader) := by
    intro start
    exact (tidy_rules_whole happ hx P hP' depth waiting start).computed id trivial
  exact keeps_of_tidy hread

theorem fitting_atRest : Fitting (AtRest record x) (reentryUnder P application depth waiting)
    (reentryUnder P' application depth waiting) where
  application := by rw [application_reentryUnder, application_reentryUnder]
  held held hw := AtRest.held hx hw held
  fringe hfringe _ hw := hw.builds hx hfringe.builds
  pausing t := keeps_pausing hx t
  get object key reader := keeps_get happ hx P hP' depth waiting object key reader
  watch := keeps_watch happ hx P hP' depth waiting

theorem upkeep_atRest
    (h : Restful record x (reentryUnder P application depth waiting)
      (reentryUnder P' application depth waiting)) :
    Upkeep (AtRest record x) (reentryUnder P application depth waiting)
      (reentryUnder P' application depth waiting) where
  toFitting := fitting_atRest happ hx P hP' depth waiting
  depth := by rw [depth_reentryUnder, depth_reentryUnder]
  display {w} updater node value hw := hw.builds hx (fringe_display w updater node value).builds
  setText {w} node content hw := hw.builds hx (fringe_setText w node content).builds
  installRender owner node kind updater path :=
    (fitting_atRest happ hx P hP' depth waiting).installRender owner node kind updater path
      fun {w} value hw => hw.builds hx (fringe_display w updater node value).builds
  installInterpolation node _ := (fitting_atRest happ hx P hP' depth waiting).installInterpolation _ node _
    (fun {w} content hw => hw.builds hx (fringe_setText w node content).builds) _
  calling w owner method event hw := by
    rw [application_reentryUnder]
    exact hw.unmoved hx (unmoved_note happ.records w fun _ => rfl) (hw.idle.congr fun _ => rfl)
  teardown w id hw := hw.teardown hx id
  callback code value := by
    rw [application_reentryUnder]
    exact h.run _ (happ.callback code value)
  method code owner event := by
    rw [application_reentryUnder]
    exact h.run _ (happ.method code owner event)
  install node _ hw := by
    rw [application_reentryUnder]
    exact h.run _ (happ.install _ _ node _) _ hw

variable (h : Restful record x (reentryUnder P application depth waiting)
  (reentryUnder P' application depth waiting))

include h

/-! ### Telling -/

theorem keeps_updateWatcher (id : WatcherId) :
    Keeps (AtRest record x) (updateWatcher (reentryUnder P application depth waiting) id)
      (updateWatcher (reentryUnder P' application depth waiting) id) := by
  have hu := upkeep_atRest happ hx P hP' depth waiting h
  refine keeps_keeping hx _ fun w hw => ?_
  rw [ends_inspect_bind]
  cases hdisposed : (w.watcher id).disposed with
  | true => exact (ends_pure ()).mpr hw
  | false =>
    refine (ends_evaluateWatcher_again happ hx P hP' depth waiting hw hdisposed).bind ?_
      fun _ _ hw' => hw'
    intro value w' hw'
    rw [ends_inspect_bind]
    split
    · exact (ends_pure ()).mpr hw'
    · rw [ends_update_bind]
      refine keeps_keeping hx _ (keeps_pausing hx _ ?_) _ ?_
      · refine Keeps.bind ?_ fun _ => hu.react _ value
        rw [note, note, application_reentryUnder, application_reentryUnder]
        exact keeps_note happ hx _ fun _ => rfl
      · refine AtRest.unmoved hx hw' ?_ (hw'.idle.congr fun _ => rfl)
        exact unmoved_mapWatcher w' id fun _ => ⟨rfl, rfl, rfl⟩

theorem keeps_updateSubscriber (subscriber : Subscriber) :
    Keeps (AtRest record x) (updateSubscriber (reentryUnder P application depth waiting) subscriber)
      (updateSubscriber (reentryUnder P' application depth waiting) subscriber) := by
  intro w hw
  have hnote : (w.note application (.updating subscriber)).AtRest record x :=
    hw.unmoved hx (unmoved_note happ.records w fun _ => rfl) (hw.idle.congr fun _ => rfl)
  refine ends_updateSubscriber (application_reentryUnder P depth waiting) (application_reentryUnder P' depth waiting)
    hnote (fun id _ => keeps_updateWatcher happ hx P hP' depth waiting h id _ hnote) (fun id hw => ?_) h.notify
    fun code => h.run _ (happ.update code)
  exact hw.unmoved hx (unmoved_mapComputed _ id fun _ => rfl) (hw.idle.congr fun _ => rfl)

/-! ### Requests and programs -/

theorem chores_atRest : Chores (Request.HandsOff record) (P waiting) (AtRest record x)
    (reentryUnder P application depth waiting) (reentryUnder P' application depth waiting) where
  toPerusal := (fitting_atRest happ hx P hP' depth waiting).toPerusal
  notify := h.notify
  store object key value hw := hw.builds hx (raises_store _ object key value).toBuilds
  write {w object key _ _} _ hw := hw.builds hx (raises_putSlot w object key _).toBuilds
  writeObserved {w object key _ value _} _ hw :=
    hw.builds hx ((raises_putSlot w object key _).trans (raises_observe _ value)).toBuilds
  tables _ hraises hw := hw.builds hx hraises.toBuilds
  observe value hw := hw.builds hx (raises_observe _ value).toBuilds
  load json hw := hw.builds hx (raises_load _ json).toBuilds
  enter hok hw := hw.push hx _ hok
  leave t hw := hw.pop hx t
  depend := keeps_depend happ hx P depth waiting
  register hok hw := by
    obtain ⟨id, rfl⟩ := hok
    refine hw.unmoved hx (unmoved_mapSource _ _ ?_) (hw.idle.congr fun _ => rfl)
    rw [Source.mem_register]
    exact or_iff_left (hx id)
  unregister hok hw := by
    obtain ⟨id, rfl⟩ := hok
    refine hw.unmoved hx (unmoved_mapSource _ _ ?_) (hw.idle.congr fun _ => rfl)
    rw [Source.mem_unregister]
    exact and_iff_left (hx id)
  updateWatcher id _ hw := keeps_updateWatcher happ hx P hP' depth waiting h id _ hw
  readComputed := keeps_readComputed happ hx P hP' depth waiting
  install {_ w installer owner node directive} _ hw := by
    refine (upkeep_atRest happ hx P hP' depth waiting h).installDirective (fun code _ => ?_) hw
    rw [application_reentryUnder]
    exact h.run _ (happ.install code owner node directive) w hw
  addBinding _ hw := hw.builds hx (builds_of_eq rfl rfl rfl rfl rfl)
  teardownBinding {w id} _ hw := (upkeep_atRest happ hx P hP' depth waiting h).teardownBinding w id hw
  remember hok hw := hw.unmoved hx (unmoved_of_eq rfl rfl rfl rfl hok) (hw.idle.congr fun _ => rfl)

theorem service_atRest : Service (Request.HandsOff record) (P waiting) (P' waiting)
    (AtRest record x) (AtRest record x) (AtRest record x)
    (reentryUnder P application depth waiting) (reentryUnder P' application depth waiting) where
  toPerusal := (upkeep_atRest happ hx P hP' depth waiting h).toPerusal
  rests hw := hw
  loose hw := hw
  moment moment hw _ := ⟨hP' True waiting moment _ hw.books, hw⟩
  retaining held hw := AtRest.held hx hw held
  margin hmargin _ hw := hw.builds hx hmargin.fringe.builds
  display {w _ updater node value} _ hw := hw.builds hx (fringe_display w updater node value).builds
  teardown w id hw := hw.teardown hx id
  watch := keeps_watch happ hx P hP' depth waiting
  callMethod := (upkeep_atRest happ hx P hP' depth waiting h).callMethod
  mount := (upkeep_atRest happ hx P hP' depth waiting h).walking.mount
  compile := (upkeep_atRest happ hx P hP' depth waiting h).walking.compile
  unmount := (upkeep_atRest happ hx P hP' depth waiting h).unmount
  reading := keeps_get happ hx P hP' depth waiting
  shading t := keeps_pausing hx t
  writing w owner path value hw := by
    rw [application_reentryUnder]
    refine hw.unmoved hx ?_ (hw.idle.congr fun _ => rfl)
    exact unmoved_note happ.records w (fun _ => rfl)
  set := (chores_atRest happ hx P hP' depth waiting h).set
  listener code event := by
    rw [application_reentryUnder]
    exact h.run _ (happ.listener code event)
  assemble held _ _ _ hw := AtRest.builds hx (AtRest.held hx hw held) (builds_assemble _ _ _)
  simple hsimple hP hok hw := (chores_atRest happ hx P hP' depth waiting h).simple hsimple hP hok hw

/-- Following a program that leaves registration to the engine. -/
theorem keeps_follow {program : Program Code Memory α}
    (hprogram : program.Makes (Request.HandsOff record)) :
    Keeps (AtRest record x)
      (followUnder (P waiting) (reentryUnder P application depth waiting) program)
      (followUnder (P' waiting) (reentryUnder P' application depth waiting) program) :=
  (service_atRest happ hx P hP' depth waiting h).followUnder hprogram

end Requests

/-! ### Notifications and nesting -/

section Nesting

variable (happ : application.HandsOff record) (hx : ∀ id, x ≠ .probe id) (P : Proviso Code Memory)
  {P' : Proviso Code Memory}
  (hP' : ∀ made waiting moment w, w.InOrder record x made → P' waiting moment w)

include happ hx hP'

/-- Notifying and running keep a subscriber at rest, however deep they are nested. -/
theorem restful_reentryUnder (depth : Nat) (waiting : List Subscriber) :
    Restful record x (reentryUnder P application depth waiting)
      (reentryUnder P' application depth waiting) := by
  induction depth generalizing waiting with
  | zero => exact ⟨fun _ => Keeps.exhausted _, fun _ _ => Keeps.exhausted _⟩
  | succ depth inductionHypothesis =>
    have hholds : ∀ {moment waiting} (w : World Code Memory), AtRest record x w → P' waiting moment w :=
      fun w hw => hP' True _ _ w hw.books
    have hnotify : ∀ source, Keeps (AtRest record x)
        (notifyUnder P application (reentryUnder P application depth) waiting source)
        (notifyUnder P' application (reentryUnder P' application depth) waiting source) := by
      refine keeps_notifyUnder (I := AtRest record x) (fun _ held hw => AtRest.held hx hw held) (fun source hw => ?_)
        (fun _ w hw _ => hholds w hw) (fun _ _ w hw _ => hholds w hw) (fun waiting subscriber w _ hw => ?_) waiting
      · refine hw.tell happ.records source fun y hy => ?_
        rw [liveSubscribers_eq_filter] at hy
        exact (List.mem_filter.mp hy).1
      · exact keeps_updateSubscriber happ hx P hP' depth waiting (inductionHypothesis waiting) subscriber w hw
    exact ⟨hnotify, fun program hprogram =>
      keeps_follow happ hx P hP' depth waiting (inductionHypothesis waiting) hprogram⟩

end Nesting

end Engine

/-! ### Runs from the beginning -/

namespace World

/-- What the sources list and what a subscriber keeps a list of is what its evaluations met, unless it is
evaluating now or was dropped. A watcher none of whose evaluations succeeded is listed nowhere. -/
def Exact (record : Memory → List Occurrence) (x : Subscriber) (w : World Code Memory) : Prop :=
  ¬ w.Evaluates x →
    ((Trail.ofHistory x (record w.memory)).dropped = false → w.Registered record x) ∧
    ∀ id, x = .watcher id → (Trail.ofHistory x (record w.memory)).succeeded = false →
      ∀ s, x ∉ (w.source s).subscribers

variable {record : Memory → List Occurrence} {x : Subscriber} {made : Prop} {w : World Code Memory}

theorem InOrder.exact (h : w.InOrder record x made) : w.Exact record x :=
  fun hidle => ⟨fun hkept => h.registered hkept hidle, fun _ hid hfailed =>
    h.unlisted hidle hid hfailed⟩

/-- In an empty world every page is blank. -/
theorem page_empty (x : Subscriber) {memory : Memory} (hmemory : record memory = []) :
    ({ memory } : World Code Memory).page record x = .blank := by
  refine page_eq (fun s => ?_) ?_ ?_ (congrArg (Trail.ofHistory x) hmemory)
  · refine iff_of_false ?_ fun h => h
    exact List.not_mem_nil
  · cases x <;> rfl
  · refine iff_of_false ?_ fun h => h
    rintro ⟨id, -, h⟩
    cases h

/-- In an empty world everybody is at rest. -/
theorem atRest_empty (hx : ∀ id, x ≠ .probe id) {memory : Memory} (hmemory : record memory = []) :
    ({ memory } : World Code Memory).AtRest record x := by
  have hidle : ({ memory } : World Code Memory).Idle := by
    rintro y ⟨t, ht⟩
    cases ht
  have hpage : ({ memory } : World Code Memory).page record x = .blank := page_empty x hmemory
  refine ⟨⟨?_, fun id hid _ => Or.inr (Or.inl ⟨rfl, ?_, hidle.not_evaluates hx⟩)⟩, hidle⟩
  · rw [hpage, eq_false (hidle.not_evaluates hx)]
    exact Page.agrees_blank
  · exact congrArg (·.dependencies.current) hpage

end World

/-- An embedder that records every occurrence and whose programs do nothing. -/
def Application.recorder : Application Unit (List Occurrence) where
  holds _ := []
  notes occurrence w := occurrence :: w.memory
  callback _ _ := .done ()
  method _ _ _ := .done ()
  listener _ _ := .done ()
  getter _ _ := .done .undefined
  update _ := .done ()
  install _ _ _ _ := .fail .detached

/-- Watches a field, changes it and tears the watcher down. -/
def Program.lookout : Program Unit (List Occurrence) Unit := do
  let object ← request .newObject
  request (.insert object "_" (.string "x"))
  request (.observe (.object object))
  let tracker ← request .newTracker
  let watcher ← request (.watch tracker (.object object) default ())
  request (.set object "_" (.string "y"))
  request (.teardownWatcher watcher)

theorem Application.handsOff_recorder : recorder.HandsOff id where
  records _ _ := rfl
  quiet _ _ := rfl
  getter _ _ := .done _
  callback _ _ := trivial
  method _ _ _ := trivial
  listener _ _ := trivial
  update _ := trivial
  install _ _ _ _ := trivial

theorem Program.handsOff_lookout : lookout.Makes (Request.HandsOff id) := by
  refine (makes_request fun _ _ => trivial).bind fun object => ?_
  refine (makes_request fun _ _ => trivial).bind fun _ => ?_
  refine (makes_request fun _ _ => trivial).bind fun _ => ?_
  refine (makes_request fun _ _ => trivial).bind fun tracker => ?_
  refine (makes_request fun _ _ => trivial).bind fun watcher => ?_
  refine (makes_request fun _ _ => trivial).bind fun _ => ?_
  exact makes_request fun _ _ => trivial

end ViewBinding
