import ViewBinding.Proofs.Books
import ViewBinding.Proofs.Outcome

/-!
# How the engine keeps the books

Every change that the engine makes to sources, lists and stacks, as it shows on the page of one
subscriber.
-/

namespace ViewBinding

variable {Code Memory : Type}

/-- The embedder keeps a record of all occurrences in its memory, the last one first. -/
def Application.Records (application : Application Code Memory)
    (record : Memory → List Occurrence) : Prop :=
  ∀ occurrence w, record (application.notes occurrence w) = occurrence :: record w.memory

namespace World

theorem record_note {application : Application Code Memory} {record : Memory → List Occurrence}
    (hrecord : application.Records record) {v w : World Code Memory} (hmemory : v.memory = w.memory)
    (occurrence : Occurrence) :
    record (v.note application occurrence).memory = occurrence :: record w.memory := by
  rw [← hmemory]
  exact hrecord occurrence v

/-- A subscriber is on the stack of some tracker. -/
def Evaluates (w : World Code Memory) (x : Subscriber) : Prop :=
  ∃ t, some x ∈ (w.tracker t).frames

/-- A watcher is torn down. -/
def IsOver (w : World Code Memory) (x : Subscriber) : Prop :=
  ∃ id, x = .watcher id ∧ (w.watcher id).disposed = true

section Evaluating

variable {w w' : World Code Memory} {x : Subscriber}

theorem evaluates_congr (h : ∀ t, w'.tracker t = w.tracker t) : w'.Evaluates x ↔ w.Evaluates x := by
  simp only [Evaluates, h]

theorem evaluates_push (w : World Code Memory) (t : TrackerId) (frame : Frame) :
    (w.mapTracker t (·.push frame)).Evaluates x ↔ frame = some x ∨ w.Evaluates x := by
  constructor
  · rintro ⟨j, hj⟩
    rw [tracker_mapTracker] at hj
    split at hj
    · rcases List.mem_cons.mp hj with h | h
      · exact Or.inl h.symm
      · exact Or.inr ⟨t, h⟩
    · exact Or.inr ⟨j, hj⟩
  · rintro (rfl | ⟨j, hj⟩)
    · refine ⟨t, ?_⟩
      rw [tracker_mapTracker, if_pos rfl]
      exact List.mem_cons_self
    · refine ⟨j, ?_⟩
      rw [tracker_mapTracker]
      split
      · next h => exact List.mem_cons_of_mem _ (h ▸ hj)
      · exact hj

theorem evaluates_of_pop (w : World Code Memory) (t : TrackerId)
    (h : (w.mapTracker t (·.pop)).Evaluates x) : w.Evaluates x := by
  obtain ⟨j, hj⟩ := h
  rw [tracker_mapTracker] at hj
  split at hj
  · exact ⟨t, List.mem_of_mem_tail hj⟩
  · exact ⟨j, hj⟩

/-- Who reads for a reader is evaluating. -/
theorem evaluates_of_current? {reader : Option TrackerId} (h : w.current? reader = some x) :
    w.Evaluates x := by
  cases reader with
  | none => cases h
  | some t =>
    refine ⟨t, ?_⟩
    rw [current?, Option.bind_some, Tracker.current?] at h
    split at h
    · next hframes =>
      rw [hframes, ← h]
      exact List.mem_cons_self
    · cases h

end Evaluating

variable [Inhabited Code]

/-- The page of a subscriber, with the trail that it left in the embedder's record. -/
def page (record : Memory → List Occurrence) (x : Subscriber) (w : World Code Memory) : Page where
  listed s := x ∈ (w.source s).subscribers
  dependencies := w.dependencies x
  ended := w.IsOver x
  trail := Trail.ofHistory x (record w.memory)

/--
The books agree: a source lists the subscriber exactly when it is on the subscriber's list, without
repetition; the list is what the record says, and empty when the watcher is torn down.
-/
structure Registered (record : Memory → List Occurrence) (x : Subscriber) (w : World Code Memory) :
    Prop where
  listed : ∀ s, x ∈ (w.source s).subscribers ↔ s ∈ (w.dependencies x).current
  nodup : (w.dependencies x).current.Nodup
  kept : ¬ w.IsOver x → ∀ s, s ∈ (w.dependencies x).current ↔
    s ∈ (Trail.ofHistory x (record w.memory)).kept
  ended : w.IsOver x → (w.dependencies x).current = []

/-- The books are in order. A watcher that is not torn down has been evaluated with success, or it was
never made and its row is empty, or it is just being made. -/
structure InOrder (record : Memory → List Occurrence) (x : Subscriber) (made : Prop)
    (w : World Code Memory) : Prop where
  agrees : (w.page record x).Agrees (w.Evaluates x)
  fresh : ∀ id, x = .watcher id → ¬ w.IsOver x →
    (w.page record x).trail.succeeded = true ∨
      ((w.watcher id).root = .undefined ∧ (w.dependencies x).current = [] ∧ ¬ w.Evaluates x) ∨
      (¬ made ∧ w.Evaluates x)

/-- Nothing has changed for a subscriber. -/
structure Unmoved (record : Memory → List Occurrence) (x : Subscriber) (w w' : World Code Memory) :
    Prop where
  page : w'.page record x = w.page record x
  root : ∀ id, x = .watcher id → (w'.watcher id).root = (w.watcher id).root
  evaluates : w'.Evaluates x ↔ w.Evaluates x

variable {record : Memory → List Occurrence} {application : Application Code Memory}
  {x y : Subscriber} {made : Prop} {w w' w₁ w₂ : World Code Memory}

theorem page_eq {p : Page} (hlisted : ∀ s, x ∈ (w.source s).subscribers ↔ p.listed s)
    (hdependencies : w.dependencies x = p.dependencies) (hended : w.IsOver x ↔ p.ended)
    (htrail : Trail.ofHistory x (record w.memory) = p.trail) : w.page record x = p := by
  cases p with
  | mk listed dependencies ended trail =>
    simp only at hlisted hdependencies hended htrail
    simp only [page, hdependencies, htrail, Page.mk.injEq, true_and, and_true, eq_iff_iff]
    exact ⟨funext fun s => propext (hlisted s), hended⟩

theorem Unmoved.refl (w : World Code Memory) : Unmoved record x w w :=
  ⟨rfl, fun _ _ => rfl, Iff.rfl⟩

theorem Unmoved.trans (h : Unmoved record x w w₁) (h' : Unmoved record x w₁ w₂) :
    Unmoved record x w w₂ where
  page := h'.page.trans h.page
  root id hid := (h'.root id hid).trans (h.root id hid)
  evaluates := h'.evaluates.trans h.evaluates

theorem Unmoved.ended (h : Unmoved record x w w') : w'.IsOver x ↔ w.IsOver x :=
  iff_of_eq (congrArg Page.ended h.page)

theorem Unmoved.dependencies (h : Unmoved record x w w') : w'.dependencies x = w.dependencies x :=
  congrArg Page.dependencies h.page

theorem Unmoved.inOrder (h : Unmoved record x w w') (hw : InOrder record x made w) :
    InOrder record x made w' where
  agrees := by
    rw [h.page, h.evaluates]
    exact hw.agrees
  fresh id hid hended := by
    rw [h.ended] at hended
    rw [h.page, h.root id hid, h.dependencies, h.evaluates]
    exact hw.fresh id hid hended

/-- The books of a subscriber that was not dropped agree as soon as it is not evaluating. -/
theorem InOrder.registered (h : InOrder record x made w)
    (hkept : (Trail.ofHistory x (record w.memory)).dropped = false)
    (hidle : ¬ w.Evaluates x) : Registered record x w := by
  have hpending := h.agrees.idle hidle
  refine ⟨fun s => ?_, h.agrees.current, h.agrees.kept, fun hended => (h.agrees.ended hended).2⟩
  constructor
  · intro hmem
    rcases h.agrees.noted s hmem with hs | hs
    · exact hs
    · rw [hpending] at hs
      cases hs
  · intro hmem
    exact h.agrees.listed hkept s (Or.inl hmem)

/-- A watcher none of whose evaluations succeeded is listed nowhere, be it still there or not. -/
theorem InOrder.unlisted (h : InOrder record x made w) (hidle : ¬ w.Evaluates x)
    {id : WatcherId} (hid : x = .watcher id)
    (hfailed : (Trail.ofHistory x (record w.memory)).succeeded = false) (s : SourceId) :
    x ∉ (w.source s).subscribers := by
  intro hmem
  have hcurrent : (w.dependencies x).current = [] := by
    by_cases hended : w.IsOver x
    · exact (h.agrees.ended hended).2
    · rcases h.fresh id hid hended with hsucceeded | hempty | hmaking
      · rw [page, hfailed] at hsucceeded
        cases hsucceeded
      · exact hempty.2.1
      · exact absurd hmaking.2 hidle
  rcases h.agrees.noted s hmem with hs | hs
  · change s ∈ (w.dependencies x).current at hs
    rw [hcurrent] at hs
    cases hs
  · rw [h.agrees.idle hidle] at hs
    cases hs

/-! ### Changes of one row -/

omit [Inhabited Code] in
theorem isOver_congr (h : ∀ id, x = .watcher id → (w'.watcher id).disposed = (w.watcher id).disposed) :
    w'.IsOver x ↔ w.IsOver x := by
  constructor
  · rintro ⟨id, hid, hdisposed⟩
    exact ⟨id, hid, h id hid ▸ hdisposed⟩
  · rintro ⟨id, hid, hdisposed⟩
    exact ⟨id, hid, (h id hid).symm ▸ hdisposed⟩

/-- Nothing was written that a subscriber has to do with. -/
theorem unmoved_of_eq (hsources : w'.sources = w.sources) (htrackers : w'.trackers = w.trackers)
    (hwatchers : w'.watchers = w.watchers) (hcomputeds : w'.computeds = w.computeds)
    (hrecord : record w'.memory = record w.memory) : Unmoved record x w w' where
  page := by
    refine page_eq (fun s => ?_) ?_ ?_ ?_
    · rw [source, hsources]
      rfl
    · cases x with
      | watcher j => rw [dependencies, watcher, hwatchers]; rfl
      | computed j => rw [dependencies, computed, hcomputeds]; rfl
      | probe j => rfl
    · refine isOver_congr fun id _ => ?_
      rw [watcher, hwatchers]
      rfl
    · rw [hrecord]
      rfl
  root j _ := by
    rw [watcher, hwatchers]
    rfl
  evaluates := by simp only [Evaluates, tracker, htrackers]

theorem unmoved_mapComputed (w : World Code Memory) (id : ComputedId)
    {f : Computed Code → Computed Code} (hf : ∀ y, (f y).dependencies = y.dependencies) :
    Unmoved record x w (w.mapComputed id f) where
  page := by
    refine page_eq (fun _ => Iff.rfl) ?_ Iff.rfl rfl
    cases x with
    | watcher j => rfl
    | computed j =>
      simp only [dependencies, computed_mapComputed]
      split
      · next h => rw [hf, ← h]; rfl
      · rfl
    | probe j => rfl
  root _ _ := rfl
  evaluates := Iff.rfl

theorem unmoved_mapWatcher (w : World Code Memory) (id : WatcherId)
    {f : Watcher Code → Watcher Code} (hf : ∀ y, (f y).dependencies = y.dependencies
      ∧ (f y).disposed = y.disposed ∧ (f y).root = y.root) :
    Unmoved record x w (w.mapWatcher id f) where
  page := by
    refine page_eq (fun _ => Iff.rfl) ?_ ?_ rfl
    · cases x with
      | watcher j =>
        simp only [dependencies, watcher_mapWatcher]
        split
        · next h => rw [(hf _).1, ← h]; rfl
        · rfl
      | computed j => rfl
      | probe j => rfl
    · refine isOver_congr fun j _ => ?_
      rw [watcher_mapWatcher]
      split
      · next h => rw [(hf _).2.1, h]
      · rfl
  root j _ := by
    rw [watcher_mapWatcher]
    split
    · next h => rw [(hf _).2.2, h]
    · rfl
  evaluates := Iff.rfl

theorem unmoved_addSource (w : World Code Memory) : Unmoved record x w w.addSource.2 where
  page := by
    refine page_eq (fun s => ?_) ?_ Iff.rfl rfl
    · rw [source_addSource]
      exact Iff.rfl
    · cases x <;> rfl
  root _ _ := rfl
  evaluates := Iff.rfl

theorem unmoved_mapSource (w : World Code Memory) (s : SourceId) {f : Source → Source}
    (hf : x ∈ (f (w.source s)).subscribers ↔ x ∈ (w.source s).subscribers) :
    Unmoved record x w (w.mapSource s f) where
  page := by
    refine page_eq (fun t => ?_) ?_ Iff.rfl rfl
    · rw [source_mapSource]
      split
      · next h => rw [hf, h]; exact Iff.rfl
      · exact Iff.rfl
    · cases x <;> rfl
  root _ _ := rfl
  evaluates := Iff.rfl

/-- An occurrence that says nothing of the subscriber. -/
theorem unmoved_note (hrecord : application.Records record) (w : World Code Memory)
    {occurrence : Occurrence} (hstep : ∀ t, Trail.step x t occurrence = t) :
    Unmoved record x w (w.note application occurrence) where
  page := by
    refine page_eq (fun _ => Iff.rfl) ?_ Iff.rfl ?_
    · cases x <;> rfl
    · rw [note, hrecord, Trail.ofHistory, hstep]
      rfl
  root _ _ := rfl
  evaluates := Iff.rfl

theorem unmoved_mapTracker (w : World Code Memory) (t : TrackerId) {f : Tracker → Tracker}
    (hf : some x ∈ (f (w.tracker t)).frames ↔ some x ∈ (w.tracker t).frames) :
    Unmoved record x w (w.mapTracker t f) where
  page := by
    refine page_eq (fun _ => Iff.rfl) ?_ Iff.rfl rfl
    cases x <;> rfl
  root _ _ := rfl
  evaluates := by
    have h : ∀ j, some x ∈ ((w.mapTracker t f).tracker j).frames ↔ some x ∈ (w.tracker j).frames := by
      intro j
      rw [tracker_mapTracker]
      split
      · next hj => rw [hf, hj]
      · exact Iff.rfl
    simp only [Evaluates, h]

/-! ### What another subscriber notes -/

theorem disposed_mapDependencies (w : World Code Memory) (y : Subscriber)
    (f : Dependencies → Dependencies) (id : WatcherId) :
    ((w.mapDependencies y f).watcher id).disposed = (w.watcher id).disposed
      ∧ ((w.mapDependencies y f).watcher id).root = (w.watcher id).root := by
  cases y with
  | watcher j =>
    simp only [mapDependencies, watcher_mapWatcher]
    split
    · next h => rw [h]; exact ⟨rfl, rfl⟩
    · exact ⟨rfl, rfl⟩
  | computed j => exact ⟨rfl, rfl⟩
  | probe j => exact ⟨rfl, rfl⟩

theorem tracker_mapDependencies (w : World Code Memory) (y : Subscriber)
    (f : Dependencies → Dependencies) (t : TrackerId) :
    (w.mapDependencies y f).tracker t = w.tracker t := by
  cases y <;> rfl

theorem source_mapDependencies (w : World Code Memory) (y : Subscriber)
    (f : Dependencies → Dependencies) (s : SourceId) :
    (w.mapDependencies y f).source s = w.source s := by
  cases y <;> rfl

theorem memory_mapDependencies (w : World Code Memory) (y : Subscriber)
    (f : Dependencies → Dependencies) : (w.mapDependencies y f).memory = w.memory := by
  cases y <;> rfl

theorem memory_settle (w : World Code Memory) (y : Subscriber) : (w.settle y).memory = w.memory := by
  rw [settle_eq]
  exact memory_mapDependencies w y _

theorem unmoved_mapDependencies (w : World Code Memory) (hy : y ≠ x)
    (f : Dependencies → Dependencies) : Unmoved record x w (w.mapDependencies y f) where
  page := by
    refine page_eq (fun s => ?_) ?_ ?_ ?_
    · rw [source_mapDependencies]
      exact Iff.rfl
    · cases y with
      | probe j => rfl
      | watcher j =>
        rw [dependencies_mapDependencies _ _ _ _ (Or.inr (by simp)), if_neg fun h => hy h.symm]
        rfl
      | computed j =>
        rw [dependencies_mapDependencies _ _ _ _ (Or.inr (by simp)), if_neg fun h => hy h.symm]
        rfl
    · exact isOver_congr fun id _ => (disposed_mapDependencies w y f id).1
    · rw [memory_mapDependencies]
      rfl
  root id _ := (disposed_mapDependencies w y f id).2
  evaluates := evaluates_congr (tracker_mapDependencies w y f)

theorem unmoved_unregisterAll (w : World Code Memory) (hy : y ≠ x) (l : List SourceId) :
    Unmoved record x w (w.unregisterAll y l) := by
  induction l generalizing w with
  | nil => exact .refl w
  | cons source rest inductionHypothesis =>
    rw [unregisterAll_cons]
    refine (unmoved_mapSource w source ?_).trans (inductionHypothesis _)
    rw [Source.mem_unregister]
    exact and_iff_left fun h => hy h.symm

theorem unmoved_settle (w : World Code Memory) (hy : y ≠ x) : Unmoved record x w (w.settle y) :=
  (unmoved_mapDependencies w hy _).trans (unmoved_unregisterAll _ hy _)

/-! ### What the subscriber itself notes -/

theorem over_mapDependencies (w : World Code Memory) (y : Subscriber)
    (f : Dependencies → Dependencies) : (w.mapDependencies y f).IsOver x ↔ w.IsOver x :=
  isOver_congr fun id _ => (disposed_mapDependencies w y f id).1

theorem dependencies_mapDependencies_self (hx : ∀ id, x ≠ .probe id) (w : World Code Memory)
    (f : Dependencies → Dependencies) :
    (w.mapDependencies x f).dependencies x = f (w.dependencies x) := by
  rw [dependencies_mapDependencies _ _ _ _ (Or.inr hx), if_pos rfl]

@[simp] theorem dependencies_note (w : World Code Memory) (application : Application Code Memory)
    (occurrence : Occurrence) : (w.note application occurrence).dependencies x = w.dependencies x := by
  cases x <;> rfl

theorem dependencies_congr (hwatchers : w'.watchers = w.watchers)
    (hcomputeds : w'.computeds = w.computeds) : w'.dependencies x = w.dependencies x := by
  cases x with
  | watcher j => rw [dependencies, watcher, hwatchers]; rfl
  | computed j => rw [dependencies, computed, hcomputeds]; rfl
  | probe j => rfl

section Own

variable (hx : ∀ id, x ≠ .probe id) (hrecord : application.Records record)

include hx hrecord

/-- The subscriber changes its list, and something is noted. -/
theorem page_mapDependencies_note (w : World Code Memory) (f : Dependencies → Dependencies)
    (occurrence : Occurrence) :
    ((w.mapDependencies x f).note application occurrence).page record x
      = { w.page record x with
          dependencies := f (w.dependencies x)
          trail := (w.page record x).trail.step x occurrence } := by
  refine page_eq (fun s => ?_) ?_ (over_mapDependencies w x f) ?_
  · change x ∈ ((w.mapDependencies x f).source s).subscribers ↔ x ∈ (w.source s).subscribers
    rw [source_mapDependencies]
  · rw [dependencies_note, dependencies_mapDependencies_self hx]
  · rw [note, hrecord, memory_mapDependencies]
    rfl

theorem page_begin (w : World Code Memory) :
    ((w.mapDependencies x (·.begin)).note application (.evaluating x)).page record x
      = (w.page record x).begin := by
  rw [page_mapDependencies_note hx hrecord, Trail.step, if_pos rfl]
  rfl

theorem page_merge (w : World Code Memory) :
    ((w.mapDependencies x (·.merge)).note application (.evaluated x false)).page record x
      = (w.page record x).merge := by
  rw [page_mapDependencies_note hx hrecord, Trail.step, if_pos rfl]
  rfl

theorem page_meet (w : World Code Memory) (s : SourceId) :
    (((w.mapSource s (·.register x)).mapDependencies x (·.record s)).note application
        (.tracked x s)).page record x = (w.page record x).meet s := by
  have hdependencies : (w.mapSource s (·.register x)).dependencies x = w.dependencies x :=
    dependencies_congr rfl rfl
  refine page_eq (fun t => ?_) ?_ (over_mapDependencies _ x _) ?_
  · change x ∈ (((w.mapSource s (·.register x)).mapDependencies x (·.record s)).source t).subscribers
      ↔ _
    rw [source_mapDependencies, source_mapSource]
    by_cases h : t = s
    · subst h
      simp [Page.meet]
    · simp [Page.meet, page, h]
  · rw [dependencies_note, dependencies_mapDependencies_self hx, hdependencies]
    rfl
  · rw [note, hrecord, Trail.ofHistory, Trail.step, if_pos rfl, memory_mapDependencies]
    rfl

theorem page_settle (w : World Code Memory) :
    ((w.settle x).note application (.evaluated x true)).page record x = (w.page record x).settle := by
  refine page_eq (fun s => ?_) ?_ ?_ ?_
  · change x ∈ ((w.settle x).source s).subscribers ↔ _
    rw [settle, mem_source_unregisterAll, source_mapDependencies]
    simp [Page.settle, page]
  · rw [settle_eq]
    exact dependencies_mapDependencies_self hx w (·.settle)
  · rw [settle_eq]
    exact over_mapDependencies w x (·.settle)
  · rw [note, hrecord, Trail.ofHistory, Trail.step, if_pos rfl, memory_settle]
    rfl

omit hx in
/-- A source tells its subscribers. -/
theorem page_tell (w : World Code Memory) (s : SourceId) {live : List Subscriber}
    (hlive : x ∈ live → x ∈ (w.source s).subscribers) :
    ((w.mapSource s fun _ => ⟨live⟩).note application (.telling s live)).page record x
      = (w.page record x).tell s (decide (x ∈ live)) := by
  refine page_eq (fun t => ?_) ?_ Iff.rfl ?_
  · change x ∈ ((w.mapSource s fun _ => ⟨live⟩).source t).subscribers ↔ _
    rw [source_mapSource]
    by_cases h : t = s
    · subst h
      simp only [if_true, Page.tell, forall_const, decide_eq_true_eq]
      exact ⟨fun hmem => ⟨hlive hmem, hmem⟩, fun hmem => hmem.2⟩
    · simp [Page.tell, page, h]
  · cases x <;> rfl
  · rw [note, hrecord, Trail.ofHistory, Trail.step]
    by_cases hmem : x ∈ live <;> simp [Page.tell, page, mapSource, hmem]

omit hx hrecord in
/-- A watcher that is torn down is on no list and has none. -/
theorem page_teardown (w : World Code Memory) {id : WatcherId} (hid : x = .watcher id)
    (hlives : ¬ w.IsOver x) : (w.teardownWatcher id).page record x = (w.page record x).close := by
  have hdisposed : (w.watcher id).disposed = false := by
    rw [← Bool.not_eq_true]
    exact fun h => hlives ⟨id, hid, h⟩
  have hx : ∀ probe, x ≠ .probe probe := by
    rintro probe rfl
    cases hid
  have hdependencies : (w.mapWatcher id fun y => { y with disposed := true }).dependencies x
      = w.dependencies x := by
    rw [hid, dependencies, watcher_mapWatcher, if_pos rfl]
    rfl
  rw [teardownWatcher, if_neg (by simp [hdisposed]), clear, ← hid, hdependencies]
  refine page_eq (fun s => ?_) ?_ ?_ ?_
  · rw [mem_source_unregisterAll, source_mapDependencies]
    refine and_congr Iff.rfl ?_
    exact ⟨fun h hs => h ⟨rfl, hs⟩, fun h hs => h hs.2⟩
  · rw [unregisterAll_eq]
    exact dependencies_mapDependencies_self hx _ fun _ => {}
  · rw [unregisterAll_eq]
    refine (over_mapDependencies _ x _).trans ⟨fun _ => trivial, fun _ => ⟨id, hid, ?_⟩⟩
    rw [watcher_mapWatcher, if_pos rfl]
  · rw [unregisterAll_eq]
    exact congrArg (fun memory => Trail.ofHistory x (record memory)) (memory_mapDependencies _ x _)

end Own

end World

end ViewBinding
