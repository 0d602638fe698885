import ViewBinding.Proofs.Balance
import ViewBinding.Proofs.Foundation
import ViewBinding.Proofs.Service

/-!
# Writes subscribe nobody

A subscriber that is evaluating may write. What the write sets off reads on the same tracker, but always in a frame
of somebody else or while the tracker is paused, so that the subscriber stays listed where it was and its own lists
stay the same, unless it is told of a change, evaluates again or is torn down meanwhile.
-/

namespace ViewBinding

open Engine World

variable {Code Memory : Type}

/-- A request that works with one view model and its tracker: no other view model is made, watchers are made on the
tracker, and neither the subscriber nor a probe is registered or put on a stack by hand. -/
def Request.Indoors (record : Memory → List Occurrence) (t : TrackerId) (owner : ViewModelId) (x : Subscriber) :
    Request Code Memory → Prop
  | .register _ y => y ≠ x ∧ ∀ id, y ≠ .probe id
  | .unregister _ y => y ≠ x
  | .enter _ frame => frame ≠ some x ∧ ∀ id, frame ≠ some (.probe id)
  | .watch tracker .. => tracker = t
  | .watchOn other .. | .mount other .. | .compile other .. | .install _ other .. => other = owner
  | .newViewModel .. => False
  | .remember f => ∀ memory, record (f memory) = record memory
  | _ => True

/-- A request that writes on a tracker. -/
def Request.WritesOn (w : World Code Memory) (t : TrackerId) : Request Code Memory → Prop
  | .set .. | .insert .. | .place .. => True
  | .writePath _ _ _ reader => reader = some t
  | .write owner .. => (w.viewModel owner).tracker = t
  | _ => False

variable [Inhabited Code]

namespace World

/-- One view model is at work: whatever there is to watch is watched on its tracker, and nobody but watchers and
computed properties is told of changes. -/
structure Homely (t : TrackerId) (owner : ViewModelId) (w : World Code Memory) : Prop where
  watchers : ∀ id, (w.watcher id).tracker = t ∨ (w.watcher id).Blank
  viewModel : (w.viewModel owner).tracker = t
  listed : ∀ s id, .probe id ∉ (w.source s).subscribers

/-- What a subscriber has in the books, apart from the record. -/
def leaf (x : Subscriber) (w : World Code Memory) : Page :=
  w.page (fun _ => []) x

/-- Since the record was `base`, the subscriber was told of a change, or evaluated. -/
def Stirred (record : Memory → List Occurrence) (x : Subscriber) (base : List Occurrence)
    (w : World Code Memory) : Prop :=
  ∃ news, record w.memory = news ++ base ∧ (.updating x ∈ news ∨ .evaluating x ∈ news)

variable {record : Memory → List Occurrence} {application : Application Code Memory} {t : TrackerId}
  {owner : ViewModelId} {x y : Subscriber} {base : List Occurrence} {w w₁ w₂ : World Code Memory}

/-- The subscriber is still on its stack, and on top of no other. -/
structure Sheltered (record : Memory → List Occurrence) (t : TrackerId) (owner : ViewModelId) (x : Subscriber)
    (base : List Occurrence) (w : World Code Memory) : Prop where
  home : w.Homely t owner
  frames : ∀ j id, some (.probe id) ∉ (w.tracker j).frames
  news : ∃ news, record w.memory = news ++ base
  shelter : w.Stirred record x base ∨ w.Evaluates x ∧ ∀ j, j ≠ t → (w.tracker j).current? ≠ some x

/-- The subscriber is on top of no stack at all. -/
structure Shielded (record : Memory → List Occurrence) (t : TrackerId) (owner : ViewModelId) (x : Subscriber)
    (base : List Occurrence) (w : World Code Memory) : Prop extends w.Sheltered record t owner x base where
  shield : w.Stirred record x base ∨ ∀ j, (w.tracker j).current? ≠ some x

/-- A step that shields the subscriber: the stacks are the same, the record goes on, and the books of the subscriber
are the same unless it was stirred or torn down. -/
structure Shields (record : Memory → List Occurrence) (t : TrackerId) (owner : ViewModelId) (x : Subscriber)
    (base : List Occurrence) (w w' : World Code Memory) : Prop where
  tracker : ∀ j, w'.tracker j = w.tracker j
  home : w.Homely t owner → w'.Homely t owner
  watcher : ∀ id, (w.watcher id).root ≠ .undefined →
    (w'.watcher id).tracker = (w.watcher id).tracker ∧ (w'.watcher id).root = (w.watcher id).root
  news : ∃ news, record w'.memory = news ++ record w.memory
  disposed : w.IsOver x → w'.IsOver x
  leaf : w'.Stirred record x base ∨ (¬ w.IsOver x ∧ w'.IsOver x) ∨ w'.leaf x = w.leaf x

omit [Inhabited Code] in
theorem Stirred.later (h : w.Stirred record x base) (hnews : ∃ news, record w₁.memory = news ++ record w.memory) :
    w₁.Stirred record x base := by
  obtain ⟨news, hrecord, hstirred⟩ := h
  obtain ⟨more, hmore⟩ := hnews
  refine ⟨more ++ news, by rw [hmore, hrecord, List.append_assoc], ?_⟩
  exact hstirred.imp (List.mem_append_right more) (List.mem_append_right more)

theorem Shields.trans (h : w.Shields record t owner x base w₁) (h' : w₁.Shields record t owner x base w₂) :
    w.Shields record t owner x base w₂ where
  tracker j := (h'.tracker j).trans (h.tracker j)
  home hw := h'.home (h.home hw)
  watcher id hroot := by
    obtain ⟨htracker, hsame⟩ := h.watcher id hroot
    obtain ⟨htracker', hsame'⟩ := h'.watcher id (hsame.symm ▸ hroot)
    exact ⟨htracker'.trans htracker, hsame'.trans hsame⟩
  news := by
    obtain ⟨news, hnews⟩ := h.news
    obtain ⟨more, hmore⟩ := h'.news
    exact ⟨more ++ news, by rw [hmore, hnews, List.append_assoc]⟩
  disposed hw := h'.disposed (h.disposed hw)
  leaf := by
    rcases h.leaf with hstirred | hover | hsame
    · exact .inl (hstirred.later h'.news)
    · exact .inr (.inl ⟨hover.1, h'.disposed hover.2⟩)
    · rcases h'.leaf with hstirred | hover | hsame'
      · exact .inl hstirred
      · have hended : w₁.IsOver x ↔ w.IsOver x := iff_of_eq (congrArg Page.ended hsame)
        exact .inr (.inl ⟨fun hw => hover.1 (hended.mpr hw), hover.2⟩)
      · exact .inr (.inr (hsame'.trans hsame))

theorem Sheltered.later (h : w.Sheltered record t owner x base) (hw : w.Shields record t owner x base w₁) :
    w₁.Sheltered record t owner x base where
  home := hw.home h.home
  frames j id := by
    rw [hw.tracker]
    exact h.frames j id
  news := by
    obtain ⟨news, hnews⟩ := h.news
    obtain ⟨more, hmore⟩ := hw.news
    exact ⟨more ++ news, by rw [hmore, hnews, List.append_assoc]⟩
  shelter := by
    refine h.shelter.imp (fun hstirred => hstirred.later hw.news) fun hbelow => ⟨?_, fun j hj => ?_⟩
    · exact (evaluates_congr hw.tracker).mpr hbelow.1
    · rw [hw.tracker]
      exact hbelow.2 j hj

theorem Shielded.later (h : w.Shielded record t owner x base) (hw : w.Shields record t owner x base w₁) :
    w₁.Shielded record t owner x base where
  toSheltered := h.toSheltered.later hw
  shield := by
    refine h.shield.imp (fun hstirred => hstirred.later hw.news) fun habove j => ?_
    rw [hw.tracker]
    exact habove j

/-! ### What stays at home -/

omit [Inhabited Code] in
/-- Watchers keep what they watch, and nobody but watchers and computed properties comes to be listed. -/
theorem Homely.later (h : w.Homely t owner) (hwatchers : ∀ id, (w₁.watcher id).face = (w.watcher id).face)
    (hviewModel : (w₁.viewModel owner).tracker = (w.viewModel owner).tracker)
    (hlisted : ∀ s y, y ∈ (w₁.source s).subscribers → y ∈ (w.source s).subscribers ∨ ∀ id, y ≠ .probe id) :
    w₁.Homely t owner where
  watchers id := by
    have hface := hwatchers id
    refine (h.watchers id).imp (fun ht => ?_) fun hblank => ⟨?_, ?_⟩
    · exact (congrArg (fun y => y.tracker) hface).trans ht
    · exact (congrArg (fun y => y.root) hface).trans hblank.1
    · exact (congrArg (fun y => y.cached) hface).trans hblank.2
  viewModel := hviewModel.trans h.viewModel
  listed s id hmem := (hlisted s _ hmem).elim (h.listed s id) fun hprobe => hprobe id rfl

/-- A step that writes nothing into a watcher but what it depends on. -/
theorem shields_of_face (htracker : ∀ j, w₁.tracker j = w.tracker j)
    (hwatchers : ∀ id, (w₁.watcher id).face = (w.watcher id).face)
    (hviewModel : (w₁.viewModel owner).tracker = (w.viewModel owner).tracker)
    (hlisted : ∀ s y, y ∈ (w₁.source s).subscribers → y ∈ (w.source s).subscribers ∨ ∀ id, y ≠ .probe id)
    (hnews : ∃ news, record w₁.memory = news ++ record w.memory)
    (hleaf : w₁.Stirred record x base ∨ w₁.leaf x = w.leaf x) : w.Shields record t owner x base w₁ where
  tracker := htracker
  home h := h.later hwatchers hviewModel hlisted
  watcher id _ := ⟨congrArg (fun y => y.tracker) (hwatchers id), congrArg (fun y => y.root) (hwatchers id)⟩
  news := hnews
  disposed h := (isOver_congr fun id _ => congrArg (fun y => y.disposed) (hwatchers id)).mpr h
  leaf := hleaf.imp_right Or.inr

theorem Builds.shields (h : w.Builds w₁) (hviewModel : (w₁.viewModel owner).tracker = (w.viewModel owner).tracker) :
    w.Shields record t owner x base w₁ := by
  refine shields_of_face h.trackers (fun id => ?_) hviewModel (fun s y hy => .inl ?_) ⟨[], ?_⟩ (.inr h.unmoved.page)
  · rw [World.watcher, h.watchers, World.watcher]
  · rwa [h.sources] at hy
  · rw [h.memory]
    rfl

theorem shields_note (hrecord : application.Records record) (w : World Code Memory) (occurrence : Occurrence) :
    w.Shields record t owner x base (w.note application occurrence) := by
  refine shields_of_face (fun _ => rfl) (fun _ => rfl) rfl (fun _ _ => .inl) ⟨[occurrence], hrecord occurrence w⟩ (.inr ?_)
  cases x <;> rfl

/-- A source forgets some of its subscribers, but not this one. -/
theorem shields_forget (w : World Code Memory) (s : SourceId) {f : Source → Source}
    (hf : ∀ y ∈ (f (w.source s)).subscribers, y ∈ (w.source s).subscribers ∨ ∀ id, y ≠ .probe id)
    (hx : w.Stirred record x base ∨ (x ∈ (f (w.source s)).subscribers ↔ x ∈ (w.source s).subscribers)) :
    w.Shields record t owner x base (w.mapSource s f) := by
  refine shields_of_face (fun _ => rfl) (fun _ => rfl) rfl (fun j y hy => ?_) ⟨[], rfl⟩ (hx.imp id fun h => ?_)
  · rw [source_mapSource] at hy
    split at hy
    · next hj => exact hj ▸ hf y hy
    · exact .inl hy
  · exact (unmoved_mapSource w s h).page

theorem shields_mapDependencies (w : World Code Memory) (f : Dependencies → Dependencies)
    (hx : w.Stirred record x base ∨ y ≠ x) : w.Shields record t owner x base (w.mapDependencies y f) := by
  have hmemory := memory_mapDependencies w y f
  refine shields_of_face (tracker_mapDependencies w y f) (face_mapDependencies w y f) ?_ (fun s z hz => .inl ?_)
    ⟨[], by rw [hmemory]; rfl⟩ (hx.imp (fun h => h.later ⟨[], by rw [hmemory]; rfl⟩) fun h => ?_)
  · cases y <;> rfl
  · rwa [source_mapDependencies] at hz
  · exact (unmoved_mapDependencies w h f).page

theorem shields_unregisterAll (w : World Code Memory) (l : List SourceId)
    (hx : w.Stirred record x base ∨ y ≠ x) : w.Shields record t owner x base (w.unregisterAll y l) := by
  induction l generalizing w with
  | nil => exact (Builds.refl w).shields rfl
  | cons source rest inductionHypothesis =>
    rw [unregisterAll_cons]
    have hunregister : w.Shields record t owner x base (w.mapSource source (·.unregister y)) := by
      refine shields_forget w source (fun z hz => .inl (Source.mem_unregister.mp hz).1) (hx.imp_right fun h => ?_)
      rw [Source.mem_unregister]
      exact and_iff_left fun heq => h heq.symm
    exact hunregister.trans (inductionHypothesis _ hx)

theorem shields_settle (w : World Code Memory) (hx : w.Stirred record x base ∨ y ≠ x) :
    w.Shields record t owner x base (w.settle y) := by
  have hmap : w.Shields record t owner x base (w.mapDependencies y (·.settle)) := shields_mapDependencies w _ hx
  exact hmap.trans (shields_unregisterAll _ _ (hx.imp_left fun h => h.later hmap.news))

/-! ### Frames -/

/-- What is kept in a frame is kept when the frame is taken off. -/
theorem shields_framed {j : TrackerId} {frame : Frame}
    (h : (w.mapTracker j (·.push frame)).Shields record t owner x base w₁) :
    w.Shields record t owner x base (w₁.mapTracker j (·.pop)) where
  tracker := tracker_pop_push w j frame w₁ h.tracker
  home hw :=
    have hw₁ := h.home ⟨hw.watchers, hw.viewModel, hw.listed⟩
    ⟨hw₁.watchers, hw₁.viewModel, hw₁.listed⟩
  watcher := h.watcher
  news := h.news
  disposed := h.disposed
  leaf := by
    have hpush : (w.mapTracker j (·.push frame)).leaf x = w.leaf x := by cases x <;> rfl
    have hpop : (w₁.mapTracker j (·.pop)).leaf x = w₁.leaf x := by cases x <;> rfl
    rw [hpop, ← hpush]
    exact h.leaf

omit [Inhabited Code] in
/-- A frame that is not the subscriber's shields it, if it is put on the tracker or if the subscriber is shielded
already. -/
theorem Sheltered.push (h : w.Sheltered record t owner x base) {j : TrackerId} {frame : Frame}
    (hprobe : ∀ id, frame ≠ some (.probe id)) (hframe : w.Stirred record x base ∨ frame ≠ some x)
    (hon : j = t ∨ w.Shielded record t owner x base) :
    (w.mapTracker j (·.push frame)).Shielded record t owner x base := by
  have habove : w.Stirred record x base ∨
      ∀ i, ((w.mapTracker j (·.push frame)).tracker i).current? ≠ some x := by
    rcases hframe with hstirred | hframe
    · exact .inl hstirred
    have hothers : w.Stirred record x base ∨ ∀ i, i ≠ j → (w.tracker i).current? ≠ some x := by
      rcases hon with rfl | hshielded
      · exact h.shelter.imp_right fun hbelow => hbelow.2
      · exact hshielded.shield.imp_right fun hall i _ => hall i
    refine hothers.imp_right fun hothers i => ?_
    rw [tracker_mapTracker]
    split
    · intro hcurrent
      cases frame with
      | none => cases hcurrent
      | some z => exact hframe hcurrent
    · next hi => exact hothers i hi
  refine ⟨⟨⟨h.home.watchers, h.home.viewModel, h.home.listed⟩, fun i id => ?_, h.news, ?_⟩, habove⟩
  · rw [tracker_mapTracker]
    split
    · intro hmem
      rcases List.mem_cons.mp hmem with heq | hmem
      · exact hprobe id heq.symm
      · exact h.frames j id hmem
    · exact h.frames i id
  · rcases h.shelter with hstirred | hbelow
    · exact .inl hstirred
    · exact habove.imp id fun hall => ⟨(evaluates_push w j frame).mpr (.inr hbelow.1), fun i _ => hall i⟩

section Recording

variable (hrecord : application.Records record)

include hrecord

/-- An evaluation that begins is the subscriber's, which is stirred then, or somebody else's. -/
theorem Sheltered.begins (h : w.Sheltered record t owner x base) (y : Subscriber) :
    w.Shields record t owner x base ((w.mapDependencies y (·.begin)).note application (.evaluating y)) ∧
      (((w.mapDependencies y (·.begin)).note application (.evaluating y)).Stirred record x base ∨ y ≠ x) := by
  by_cases hy : y = x
  · obtain ⟨news, hnews⟩ := h.news
    have hstirred : ((w.mapDependencies y (·.begin)).note application (.evaluating y)).Stirred record x base := by
      refine ⟨.evaluating y :: news, ?_, .inr (hy ▸ List.mem_cons_self)⟩
      rw [World.note, hrecord, memory_mapDependencies, hnews]
      rfl
    refine ⟨shields_of_face (tracker_mapDependencies w y _) (face_mapDependencies w y _) ?_ (fun s z hz => .inl ?_)
      ⟨[.evaluating y], ?_⟩ (.inl hstirred), .inl hstirred⟩
    · cases y <;> rfl
    · change z ∈ ((w.mapDependencies y _).source s).subscribers at hz
      rwa [source_mapDependencies] at hz
    · rw [World.note, hrecord, memory_mapDependencies]
      rfl
  · exact ⟨(shields_mapDependencies w _ (.inr hy)).trans (shields_note hrecord _ _), .inr hy⟩

theorem Sheltered.opening (h : w.Sheltered record t owner x base) {j : TrackerId} {y : Subscriber}
    (hy : ∀ id, y ≠ .probe id) (hon : j = t ∨ w.Shielded record t owner x base) :
    (w.opening application j y).Shielded record t owner x base := by
  obtain ⟨hbegins, hstirred⟩ := h.begins hrecord y
  refine (h.later hbegins).push (fun id heq => hy id (Option.some.inj heq)) ?_ (hon.imp_right fun hw => hw.later hbegins)
  exact hstirred.imp_right fun hne heq => hne (Option.some.inj heq)

theorem Sheltered.closing (h : w.Sheltered record t owner x base) {j : TrackerId} {y : Subscriber}
    (r : Except Error Value) (hopening : (w.opening application j y).Shields record t owner x base w₁) :
    w.Shields record t owner x base (w₁.closing application j y r) := by
  obtain ⟨hbegins, hstirred⟩ := h.begins hrecord y
  have hframed := shields_framed hopening
  have hpopped := hbegins.trans hframed
  have hstirred' := hstirred.imp_left fun hw => hw.later hframed.news
  cases r with
  | ok value => exact (hpopped.trans (shields_settle _ hstirred')).trans (shields_note hrecord _ _)
  | error error => exact (hpopped.trans (shields_mapDependencies _ _ hstirred')).trans (shields_note hrecord _ _)

end Recording

/-! ### Sources and watchers -/

/-- A subscriber that evaluates is alive, so that no source forgets it. -/
theorem Sheltered.telling (h : w.Sheltered record t owner x base) (embedder : List Ref) (s : SourceId) :
    w.Shields record t owner x base (w.mapSource s fun _ => ⟨w.liveSubscribers embedder s⟩) := by
  refine shields_forget w s (fun y hy => .inl (List.mem_filter.mp hy).1) (h.shelter.imp_right fun hbelow => ?_)
  refine ⟨fun hx => (List.mem_filter.mp hx).1, fun hx => List.mem_filter.mpr ⟨hx, lives_of_mem ?_⟩⟩
  exact List.mem_append_right _ (mem_evaluating.mpr ⟨x, hbelow.1, rfl⟩)

theorem Shielded.meets (h : w.Shielded record t owner x base) {reader : Option TrackerId} (s : SourceId)
    (hcurrent : w.current? reader = some y) :
    w.Shields record t owner x base ((w.mapSource s (·.register y)).mapDependencies y (·.record s)) := by
  obtain ⟨j, hj⟩ := evaluates_of_current? hcurrent
  have hprobe : ∀ id, y ≠ .probe id := fun id heq => h.frames j id (heq ▸ hj)
  have hx : w.Stirred record x base ∨ y ≠ x := by
    refine h.shield.imp_right fun hall heq => ?_
    cases reader with
    | none => cases hcurrent
    | some i => exact hall i (heq ▸ hcurrent)
  have hregister : w.Shields record t owner x base (w.mapSource s (·.register y)) := by
    refine shields_forget w s (fun z hz => ?_) (hx.imp_right fun hne => ?_)
    · refine (Source.mem_register.mp hz).imp_right fun heq => ?_
      rw [heq]
      exact hprobe
    · rw [Source.mem_register]
      exact or_iff_left fun heq => hne heq.symm
  exact hregister.trans (shields_mapDependencies _ _ hx)

theorem shields_teardownWatcher (w : World Code Memory) (id : WatcherId) :
    w.Shields record t owner x base (w.teardownWatcher id) := by
  by_cases hdisposed : (w.watcher id).disposed = true
  · rw [teardownWatcher_of_disposed hdisposed]
    exact (Builds.refl w).shields rfl
  have hrow := (teardownWatcher_of_serves (Bool.eq_false_iff.mpr hdisposed)).1
  have hkept : ∀ j, ((w.teardownWatcher id).watcher j).tracker = (w.watcher j).tracker ∧
      ((w.teardownWatcher id).watcher j).root = (w.watcher j).root ∧
      ((w.teardownWatcher id).watcher j).cached = (w.watcher j).cached := by
    intro j
    rw [hrow]
    split
    · next h => exact h ▸ ⟨rfl, rfl, rfl⟩
    · exact ⟨rfl, rfl, rfl⟩
  have hrest := teardownWatcher_eq w id
  have hlisted : ∀ s y, y ∈ ((w.teardownWatcher id).source s).subscribers → y ∈ (w.source s).subscribers := by
    intro s y hy
    rw [teardownWatcher, if_neg hdisposed, clear, mem_source_unregisterAll, source_mapDependencies] at hy
    exact hy.1
  refine ⟨tracker_teardownWatcher w id, fun hw => ⟨fun j => ?_, ?_, fun s probe hmem => ?_⟩, fun j _ => ?_, ⟨[], ?_⟩,
    fun hover => ?_, ?_⟩
  · obtain ⟨htracker, hroot, hcached⟩ := hkept j
    exact (hw.watchers j).imp htracker.trans fun hblank => ⟨hroot.trans hblank.1, hcached.trans hblank.2⟩
  · rw [hrest]
    exact hw.viewModel
  · exact hw.listed s probe (hlisted s _ hmem)
  · exact ⟨(hkept j).1, (hkept j).2.1⟩
  · rw [memory_teardownWatcher]
    rfl
  · obtain ⟨j, hj, hended⟩ := hover
    refine ⟨j, hj, ?_⟩
    rw [hrow]
    split
    · rfl
    · exact hended
  · by_cases hid : .watcher id = x
    · have hlives : ¬ w.IsOver x := by
        rintro ⟨j, hj, hended⟩
        rw [← hid, Subscriber.watcher.injEq] at hj
        exact hdisposed (hj ▸ hended)
      refine .inr (.inl ⟨hlives, id, hid.symm, ?_⟩)
      rw [hrow, if_pos rfl]
    · exact .inr (.inr (unmoved_teardownWatcher w hid).page)

theorem shields_mapWatcher (w : World Code Memory) {id : WatcherId} {f : Watcher Code → Watcher Code}
    (hf : ∀ y, (f y).tracker = y.tracker ∧ (f y).root = y.root ∧ (f y).dependencies = y.dependencies ∧
      (f y).disposed = y.disposed) (ht : (w.watcher id).tracker = t) :
    w.Shields record t owner x base (w.mapWatcher id f) := by
  have hsame : ∀ y, (f y).dependencies = y.dependencies ∧ (f y).disposed = y.disposed ∧ (f y).root = y.root :=
    fun y => ⟨(hf y).2.2.1, (hf y).2.2.2, (hf y).2.1⟩
  refine ⟨fun _ => rfl, fun hw => ⟨fun j => ?_, hw.viewModel, hw.listed⟩, fun j _ => ?_, ⟨[], rfl⟩, fun hover => ?_,
    .inr (.inr (unmoved_mapWatcher w id hsame).page)⟩
  · rw [watcher_mapWatcher]
    split
    · exact .inl ((hf _).1.trans ht)
    · exact hw.watchers j
  · rw [watcher_mapWatcher]
    split
    · next h => exact h ▸ ⟨(hf _).1, (hf _).2.1⟩
    · exact ⟨rfl, rfl⟩
  · have hmap : Unmoved (fun _ => []) x w (w.mapWatcher id f) := unmoved_mapWatcher w id hsame
    exact hmap.ended.mpr hover

theorem shields_addWatcher (w : World Code Memory) {y : Watcher Code} (hdependencies : y.dependencies = {})
    (hdisposed : y.disposed = false) (ht : y.tracker = t) : w.Shields record t owner x base (w.addWatcher y).2 := by
  have hpage : (w.addWatcher y).2.leaf x = w.leaf x := page_addWatcher w hdependencies hdisposed
  refine ⟨fun _ => rfl, fun hw => ⟨fun j => ?_, hw.viewModel, hw.listed⟩, fun j hroot => ?_, ⟨[], rfl⟩, fun hover => ?_,
    .inr (.inr hpage)⟩
  · rw [watcher_addWatcher]
    split
    · exact .inl ht
    · exact hw.watchers j
  · have hne : j ≠ w.watchers.fresh := fun h => hroot (by rw [h, watcher_fresh]; rfl)
    rw [watcher_addWatcher, if_neg hne]
    exact ⟨rfl, rfl⟩
  · exact (iff_of_eq (congrArg Page.ended hpage)).mpr hover

end World

namespace Engine

open World

variable {record : Memory → List Occurrence} {application : Application Code Memory} {t : TrackerId}
  {owner : ViewModelId} {x : Subscriber}

/-- Whatever the engine does shields the subscriber, as long as programs keep indoors. -/
theorem conduct_shields (hrecord : application.Records record) (base : List Occurrence) :
    Conduct application (Request.Indoors record t owner x) (· = t) (· = owner)
      (Sheltered record t owner x base) (Shielded record t owner x base) (Shields record t owner x base) where
  refl w := (Builds.refl w).shields rfl
  trans := Shields.trans
  calm_lasts hw h := h.later hw
  secret_lasts hw h := h.later hw
  calm_of_secret h := h.toSheltered
  builds h hviewModels := h.shields (hviewModels owner)
  note _ _ := shields_note hrecord _ _
  meets source hcurrent h := h.meets source hcurrent
  opens hx _ h := h.elim (fun hw => hw.2.opening hrecord hx (.inl hw.1)) fun hw => hw.toSheltered.opening hrecord hx (.inr hw)
  closes r _ _ h hopening := h.closing hrecord r hopening
  pauses h := h.elim (fun hw => hw.2.push (fun _ => nofun) (.inr nofun) (.inl hw.1)) fun hw =>
    hw.toSheltered.push (fun _ => nofun) (.inr nofun) (.inr hw)
  resumes _ := shields_framed
  tells source h := h.telling _ source
  probes h hmem := absurd hmem (h.home.listed _ _)
  watchers id h := h.home.watchers id
  lasting hw hroot ht := (hw.watcher _ hroot).1.trans ht
  learns hf _ _ _ ht := shields_mapWatcher _ hf ht
  watches hdependencies hdisposed ht _ := shields_addWatcher _ hdependencies hdisposed ht
  teardown id _ := shields_teardownWatcher _ id
  viewModels howner h := howner ▸ h.home.viewModel
  watch ht := ht
  serves {request other} hok hserves := by
    cases request with
    | watchOn | mount | compile | install => exact hserves.symm.trans hok
    | newViewModel => exact hok.elim
    | _ => exact False.elim hserves
  assemble _ hok _ := hok.elim
  register {w source y} hok _ := by
    refine shields_forget w source (fun z hz => ?_) (.inr ?_)
    · refine (Source.mem_register.mp hz).imp_right fun heq => ?_
      rw [heq]
      exact hok.2
    · rw [Source.mem_register]
      exact or_iff_left fun heq => hok.1 heq.symm
  unregister {w source y} hok _ := by
    refine shields_forget w source (fun z hz => .inl (Source.mem_unregister.mp hz).1) (.inr ?_)
    rw [Source.mem_unregister]
    exact and_iff_left fun heq => hok heq.symm
  remember {w f} hok _ := by
    refine shields_of_face (fun _ => rfl) (fun _ => rfl) rfl (fun _ _ => .inl) ⟨[], hok w.memory⟩ (.inr ?_)
    cases x <;> rfl
  enters hok h := h.toSheltered.push hok.2 (.inr hok.1) (.inr h)
  lowers {w w₁} n _ h := by
    refine ⟨fun j => ?_, fun hw => ?_, h.watcher, h.news, h.disposed, ?_⟩
    · rw [tracker_lowered, tracker_lowered, h.tracker]
    · have hw₁ := h.home ⟨hw.watchers, hw.viewModel, hw.listed⟩
      exact ⟨hw₁.watchers, hw₁.viewModel, hw₁.listed⟩
    · have hlowered : ∀ w : World Code Memory, (w.lowered n).leaf x = w.leaf x := fun w => by cases x <;> rfl
      rw [hlowered, hlowered]
      exact h.leaf

/-- A write moves from where the subscriber is sheltered: nothing is read before the tracker is paused. -/
theorem shields_fulfil (hrecord : application.Records record)
    (happ : application.Closes (Request.Indoors record t owner x)) (depth : Nat) {request : Request Code Memory}
    {w : World Code Memory} {base : List Occurrence} (hwrites : request.WritesOn w t)
    (hw : w.Sheltered record t owner x base) :
    Ends w (fulfil (reentry application depth) request) (fulfil (reentry application depth) request)
      fun _ => w.Shields record t owner x base := by
  have hρ : Conduct application (Request.Indoors record t owner x) (· = t) (· = owner) (Sheltered record t owner x base)
      (Shielded record t owner x base) (Shields record t owner x base) := conduct_shields hrecord base
  have hc := hρ.conducts happ depth
  have hkeeping : ∀ {β : Type} (refs : List Ref) {y : Engine Code Memory β},
      Ends { w with held := refs ++ w.held } y y
        (fun _ => World.Shields record t owner x base { w with held := refs ++ w.held }) →
      Ends w (keeping refs y) (keeping refs y) fun _ => w.Shields record t owner x base :=
    fun {_} refs {_} h =>
      h.keeping refs fun _ w' hw' => ((hρ.calmly.held w _).trans hw').trans (hρ.calmly.held w' _)
  have hpath : ∀ (refs : List Ref) (root : Value) (path : Path) (value : Value),
      Ends { w with held := refs ++ w.held } (writePath (reentry application depth) root path value (some t))
        (writePath (reentry application depth) root path value (some t))
        fun _ => World.Shields record t owner x base { w with held := refs ++ w.held } :=
    fun refs root path value => hc.writePath_of_pauses hρ (hw.later (hρ.calmly.held w _)) (.inl rfl) root path value
  cases request with
  | set object key value => exact hc.set hρ object key value w hw
  | insert object key value => exact hc.insert hρ object key value w hw
  | place object key value => exact hc.place hρ object key value w hw
  | writePath root path value reader =>
    cases hwrites
    exact hkeeping _ (hpath _ root path value)
  | write other expression value =>
    refine hkeeping _ ?_
    obtain rfl : (w.viewModel other).tracker = t := hwrites
    refine (ends_ofExcept_bind _).mpr ?_
    cases Path.parse expression with
    | ok path => exact (ends_inspect_bind _).mpr (hpath _ (.object (w.viewModel other).root) path value)
    | error error => exact (Builds.refl _).shields rfl
  | _ => exact False.elim hwrites

/--
Writes subscribe nobody. Let one view model be at work, with all there is to watch watched on its tracker, and let a
subscriber be current on that tracker, and on no other, when something is written: a property of the view model, a
path, or a field that is set or inserted. However the write ends, if the subscriber is neither told of a change nor
evaluates nor is torn down meanwhile, however deep in the notifications, evaluations and writes that follow, then the
same sources list it afterwards, and what it depends on and is about to depend on is the same.
-/
theorem writes_subscribe_nobody (hrecord : application.Records record)
    (happ : application.Closes (Request.Indoors record t owner x)) (depth : Nat) {request : Request Code Memory}
    {w w' : World Code Memory} {r : Except Error request.Answer} (hwrites : request.WritesOn w t)
    (hhome : w.Homely t owner) (hprobes : ∀ j id, some (.probe id) ∉ (w.tracker j).frames)
    (hcurrent : (w.tracker t).current? = some x) (helsewhere : ∀ j, j ≠ t → (w.tracker j).current? ≠ some x)
    (hrun : fulfil (reentry application depth) request w = some (r, w')) :
    ∃ news, record w'.memory = news ++ record w.memory ∧
      (.updating x ∉ news → .evaluating x ∉ news → (w'.IsOver x → w.IsOver x) →
        (∀ s, x ∈ (w'.source s).subscribers ↔ x ∈ (w.source s).subscribers) ∧
          w'.dependencies x = w.dependencies x) := by
  have hcurrent' : w.current? (some t) = some x := hcurrent
  have hevaluates : w.Evaluates x := evaluates_of_current? hcurrent'
  have hsheltered : w.Sheltered record t owner x (record w.memory) :=
    ⟨hhome, hprobes, ⟨[], rfl⟩, .inr ⟨hevaluates, helsewhere⟩⟩
  have hshields := (shields_fulfil hrecord happ depth hwrites hsheltered r w' hrun).2
  obtain ⟨news, hnews⟩ := hshields.news
  refine ⟨news, hnews, fun htold hevaluated hended => ?_⟩
  rcases hshields.leaf with ⟨others, hothers, hstirred⟩ | ⟨hlives, hover⟩ | hsame
  · rw [hnews, List.append_left_inj] at hothers
    exact absurd hstirred (not_or.mpr ⟨hothers ▸ htold, hothers ▸ hevaluated⟩)
  · exact absurd (hended hover) hlives
  · exact ⟨fun s => iff_of_eq (congrArg (fun p => p.listed s) hsame), congrArg Page.dependencies hsame⟩

end Engine

/-! ### An embedder that writes while a watcher evaluates -/

/-- What an embedder writes down: what happens, and who is current and where the watcher that was made second is going
to be registered. -/
inductive Entry where
  | happened (occurrence : Occurrence)
  | seen (current? : Option Subscriber) (pending : List SourceId)

/-- What the entries say about changes and evaluations. -/
inductive Minute where
  | told (subscriber : Subscriber)
  | evaluates (subscriber : Subscriber)
  | seen (current? : Option Subscriber) (pending : List SourceId)
  deriving DecidableEq

namespace Entry

def occurrence? : Entry → Option Occurrence
  | happened occurrence => some occurrence
  | seen .. => none

def minute? : Entry → Option Minute
  | happened (.updating subscriber) => some (.told subscriber)
  | happened (.evaluating subscriber) => some (.evaluates subscriber)
  | happened _ => none
  | seen current? pending => some (.seen current? pending)

def record (entries : List Entry) : List Occurrence :=
  entries.filterMap occurrence?

end Entry

/-- Looks who is current on the first tracker. -/
def Program.glance : Program Bool (List Entry) Unit :=
  .look fun w => request (.remember (.seen (w.tracker ⟨0⟩).current? (w.dependencies (.watcher ⟨1⟩)).pending :: ·))

/-- An embedder whose getters read the key `a` of the first object and then write its key `_`. Its callbacks read the
key `a`, or tear down the watcher that was made second. -/
def Application.intruder : Application Bool (List Entry) where
  holds _ := [.object ⟨0⟩, .watcher ⟨0⟩, .watcher ⟨1⟩, .viewModel ⟨0⟩]
  notes occurrence w := .happened occurrence :: w.memory
  callback
    | false, _ => do
      let _ ← .request (.get ⟨0⟩ "a" (some ⟨0⟩))
    | true, _ => .request (.teardownWatcher ⟨1⟩)
  method _ _ _ := .done ()
  listener _ _ := .done ()
  getter _ _ := do
    let value ← .request (.get ⟨0⟩ "a" (some ⟨0⟩))
    .glance
    .request (.set ⟨0⟩ "_" (.string "y"))
    .glance
    return value
  update _ := .done ()
  install _ _ _ _ := .fail .detached

/-- Watches the key `_` of an object, and then a property whose getter writes it. -/
def Program.intrusion (tears : Bool) : Program Bool (List Entry) Unit := do
  let object ← request .newObject
  request (.insert object "a" (.string "x"))
  request (.insert object "_" (.string "x"))
  request (.observe (.object object))
  let data ← request .newObject
  let owner ← request (.newViewModel
    { data := .object data, computed := .ofList [("_", false)], settings := { memoize := false } })
  let _ ← request (.watch ⟨0⟩ (.object object) default tears)
  let _ ← request (.watchOn owner default false)

/-- What happened, in order. -/
def World.minutes (w : World Bool (List Entry)) : List Minute :=
  (w.memory.filterMap Entry.minute?).reverse

theorem Application.closes_intruder :
    intruder.Closes (Request.Indoors Entry.record ⟨0⟩ ⟨0⟩ (.watcher ⟨1⟩)) where
  callback tears _ := by
    cases tears with
    | false => exact (Program.closes_request id trivial).bind fun _ => .done ()
    | true => exact Program.closes_request id trivial
  method _ _ _ := .done ()
  listener _ _ := .done ()
  getter _ _ := by
    have hglance : Program.glance.Closes (Request.Indoors Entry.record ⟨0⟩ ⟨0⟩ (.watcher ⟨1⟩)) [] :=
      .look fun w => Program.closes_request id fun _ => rfl
    refine (Program.closes_request id trivial).bind fun value => hglance.bind fun _ => ?_
    exact (Program.closes_request id trivial).bind fun _ => hglance.bind fun _ => .done value
  update _ := .done ()
  install _ _ _ _ := .fail _

namespace World

/-- The watcher that was made second is current, and nothing is written down yet. -/
def stage (w : World Bool (List Entry)) : World Bool (List Entry) :=
  { w with memory := [] }.mapTracker ⟨0⟩ (·.push (some (.watcher ⟨1⟩)))

/-- Everything is on the first tracker, which nobody is on. -/
def isVacant (w : World Bool (List Entry)) : Bool :=
  w.watchers.rows.all (·.tracker = ⟨0⟩) && (w.viewModel ⟨0⟩).tracker = ⟨0⟩ &&
    w.sources.rows.all (·.subscribers.all (· ∈ [.watcher ⟨0⟩, .watcher ⟨1⟩])) && w.trackers.rows.all (·.frames = [])

theorem homely_stage {w : World Bool (List Entry)} (h : w.isVacant = true) :
    w.stage.Homely ⟨0⟩ ⟨0⟩ ∧ ∀ j, (w.tracker j).frames = [] := by
  simp only [isVacant, Bool.and_eq_true, decide_eq_true_eq] at h
  obtain ⟨⟨⟨hwatchers, hviewModel⟩, hsources⟩, htrackers⟩ := h
  refine ⟨⟨fun id => .inl ?_, hviewModel, fun s id hmem => ?_⟩, fun j => ?_⟩
  · exact of_decide_eq_true (w.watchers.all_get rfl hwatchers id)
  · have hlisted := List.all_eq_true.mp (w.sources.all_get rfl hsources s) _ hmem
    simp at hlisted
  · exact of_decide_eq_true (w.trackers.all_get rfl htrackers j)

end World

/--
A subscriber that is torn down while it writes is a subscriber no more. The getter of a property runs for the watcher
that was made second, and writes. That tells the watcher that was made first, which tears down the other: the second
watcher is current before and after the write, is not told and does not evaluate, and is going to be registered
nowhere after it.
-/
theorem Engine.torn_down_while_writing :
    ∃ r w' before during after current pending,
      run Application.intruder 6 (Program.intrusion true) { memory := [] } = some (r, w') ∧
      w'.minutes = before ++ .seen (some (.watcher ⟨1⟩)) current :: during ++
        .seen (some (.watcher ⟨1⟩)) pending :: after ∧
      .told (.watcher ⟨1⟩) ∉ during ∧ .evaluates (.watcher ⟨1⟩) ∉ during ∧ pending ≠ current := by
  have hends : (run Application.intruder 6 (Program.intrusion true) { memory := [] }).map (·.2.minutes)
      = some [.evaluates (.watcher ⟨0⟩), .evaluates (.watcher ⟨1⟩), .seen (some (.watcher ⟨1⟩)) [⟨0⟩],
        .told (.watcher ⟨0⟩), .evaluates (.watcher ⟨0⟩), .seen (some (.watcher ⟨1⟩)) []] := by decide +kernel
  obtain ⟨⟨r, w'⟩, hrun, hminutes⟩ := Option.map_eq_some_iff.mp hends
  exact ⟨r, w', [.evaluates (.watcher ⟨0⟩), .evaluates (.watcher ⟨1⟩)], [.told (.watcher ⟨0⟩), .evaluates (.watcher ⟨0⟩)],
    [], [⟨0⟩], [], hrun, hminutes, by decide, by decide, by decide⟩

/-- What is recorded is in the minutes. -/
theorem Entry.mem_minutes {w : World Bool (List Entry)} {occurrence : Occurrence} {minute : Minute}
    (hminute : (happened occurrence).minute? = some minute) (h : occurrence ∈ Entry.record w.memory) :
    minute ∈ w.minutes := by
  obtain ⟨entry, hentry, hoccurrence⟩ := List.mem_filterMap.mp h
  refine List.mem_reverse.mpr (List.mem_filterMap.mpr ⟨entry, hentry, ?_⟩)
  cases entry with
  | happened other =>
    cases hoccurrence
    exact hminute
  | seen => cases hoccurrence

/-- A write tells the first watcher while the second one is current, and the second one stays where it was. -/
theorem Engine.writes_subscribe_nobody_stage :
    Application.intruder.Records Entry.record ∧
      Application.intruder.Closes (Request.Indoors Entry.record ⟨0⟩ ⟨0⟩ (.watcher ⟨1⟩)) ∧
      ∃ w r w', w.Homely ⟨0⟩ ⟨0⟩ ∧ (∀ j id, some (.probe id) ∉ (w.tracker j).frames) ∧
        (w.tracker ⟨0⟩).current? = some (.watcher ⟨1⟩) ∧ (∀ j, j ≠ ⟨0⟩ → (w.tracker j).current? ≠ some (.watcher ⟨1⟩)) ∧
        fulfil (reentry Application.intruder 6) (.set ⟨0⟩ "_" (.string "z")) w = some (r, w') ∧
        w'.minutes = [.told (.watcher ⟨0⟩), .evaluates (.watcher ⟨0⟩)] ∧
        .watcher ⟨1⟩ ∈ (w.source ⟨0⟩).subscribers ∧
        (∀ s, .watcher ⟨1⟩ ∈ (w'.source s).subscribers ↔ .watcher ⟨1⟩ ∈ (w.source s).subscribers) ∧
        w'.dependencies (.watcher ⟨1⟩) = w.dependencies (.watcher ⟨1⟩) := by
  refine ⟨fun _ _ => rfl, Application.closes_intruder, ?_⟩
  have hends : (run Application.intruder 6 (Program.intrusion false) { memory := [] }).bind (fun before =>
      (fulfil (reentry Application.intruder 6) (.set ⟨0⟩ "_" (.string "z")) before.2.stage).map fun after =>
        (before.2.isVacant, after.2.minutes, decide (.watcher ⟨1⟩ ∈ (before.2.source ⟨0⟩).subscribers),
          (after.2.watcher ⟨1⟩).disposed))
      = some (true, [.told (.watcher ⟨0⟩), .evaluates (.watcher ⟨0⟩)], true, false) := by decide +kernel
  obtain ⟨⟨_, w⟩, hrun, hends⟩ := Option.bind_eq_some_iff.mp hends
  obtain ⟨⟨r, w'⟩, hset, hends⟩ := Option.map_eq_some_iff.mp hends
  simp only [Prod.mk.injEq] at hends
  obtain ⟨hvacant, hminutes, hlisted, hlives⟩ := hends
  obtain ⟨hhome, hframes⟩ := World.homely_stage hvacant
  have htracker : ∀ j, (w.stage.tracker j).frames = if j = ⟨0⟩ then [some (.watcher ⟨1⟩)] else [] := by
    intro j
    rw [World.stage, World.tracker_mapTracker]
    split
    · exact congrArg (List.cons _) (hframes ⟨0⟩)
    · exact hframes j
  have hprobes : ∀ j id, some (.probe id) ∉ (w.stage.tracker j).frames := by
    intro j id
    rw [htracker]
    split <;> simp
  have hcurrent : (w.stage.tracker ⟨0⟩).current? = some (.watcher ⟨1⟩) := by
    rw [Tracker.current?, htracker]
    rfl
  have helsewhere : ∀ j, j ≠ ⟨0⟩ → (w.stage.tracker j).current? ≠ some (.watcher ⟨1⟩) := by
    intro j hj
    rw [Tracker.current?, htracker, if_neg hj]
    simp
  have hwrites : (Request.set ⟨0⟩ "_" (.string "z")).WritesOn w.stage ⟨0⟩ := trivial
  obtain ⟨news, hnews, hsame⟩ := writes_subscribe_nobody (fun _ _ => rfl) Application.closes_intruder 6 hwrites hhome
    hprobes hcurrent helsewhere hset
  have hrecord : Entry.record w'.memory = news := hnews.trans (List.append_nil news)
  have htold : .told (.watcher ⟨1⟩) ∉ w'.minutes := by
    rw [hminutes]
    decide
  have hevaluated : .evaluates (.watcher ⟨1⟩) ∉ w'.minutes := by
    rw [hminutes]
    decide
  have hlasts : ¬ w'.IsOver (.watcher ⟨1⟩) := by
    rintro ⟨id, hid, hdisposed⟩
    cases hid
    simp [hlives] at hdisposed
  obtain ⟨hstays, hdependencies⟩ := hsame (fun h => htold (Entry.mem_minutes rfl (hrecord ▸ h)))
    (fun h => hevaluated (Entry.mem_minutes rfl (hrecord ▸ h))) (fun h => absurd h hlasts)
  exact ⟨w.stage, r, w', hhome, hprobes, hcurrent, helsewhere, hset, hminutes, of_decide_eq_true hlisted, hstays,
    hdependencies⟩

end ViewBinding
