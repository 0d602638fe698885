import ViewBinding.Proofs.Evaluating

/-!
# Watchers notice

A watcher that has evaluated listens to what its path asks for, and what it found is what there is. Once it
knows that value, it has heard of every change, whether or not it reacts.
-/

namespace ViewBinding

/-- A path asks for properties only. -/
theorem View.along_path {v : View} {ok : Ask → Prop} (hok : ∀ object key, ok (.property object key))
    (root : Value) (path : Path) : v.Along ok (Query.path root path) := by
  have hwalk : ∀ (segments : List String) (owner : Option String) (value : Value),
      v.Along ok (Query.walk path owner value segments) := by
    intro segments
    induction segments with
    | nil => exact fun _ _ => trivial
    | cons segment rest inductionHypothesis =>
      intro owner value
      cases value with
      | object object =>
        refine ⟨hok object segment, fun a _ => ?_⟩
        cases a with
        | ok next => exact inductionHypothesis (some segment) next
        | error error => trivial
      | array id items => exact inductionHypothesis (some segment) _
      | _ => trivial
  exact hwalk path.segments none root

namespace Realm

open Engine World

variable {Code Memory : Type} [Inhabited Code]
variable {k : Realm Code Memory} {n : Nat} {a : Prop} {late : Subscriber → Prop}
  {waiting : List Subscriber} {w w₁ w' : World Code Memory} {x : Subscriber} {id : WatcherId}
  {c d : Reentry Code Memory}

/-- Those that wait and a watcher. -/
def With (waiting : List Subscriber) (id : WatcherId) (x : Subscriber) : Prop :=
  x ∈ waiting ∨ x = .watcher id

theorem with_computed (waiting : List Subscriber) (id : WatcherId) (j : ComputedId) :
    With waiting id (.computed j) ↔ .computed j ∈ waiting :=
  or_iff_left Subscriber.noConfusion

/-- A watcher on the tracker has evaluated: it listens to what its path asks for, and no other outcome of
the path is to be found. -/
structure Found (k : Realm Code Memory) (waits : ComputedId → Prop) (w : World Code Memory)
    (id : WatcherId) (r : Except Error Value) : Prop where
  covers : k.Covers waits w (w.dependencies (.watcher id)).current (path w id)
  fresh : ∀ a, (k.scratch waits w).Gives (path w id) a → AlikeAnswers a r

/-- The watcher found something, if it is on the tracker and its path can be heard of. -/
def Finds (k : Realm Code Memory) (waits : ComputedId → Prop) (w : World Code Memory) (id : WatcherId)
    (r : Except Error Value) : Prop :=
  k.watchers → (w.watcher id).tracker = k.home → (k.afresh w).Along w.Heard (path w id) →
    k.Found waits w id r

theorem Found.knows {waits : ComputedId → Prop} {r : Except Error Value} (h : k.Found waits w id r)
    (hcached : ∀ value, r = .ok value → (w.watcher id).cached.Agrees value) : k.Knows waits w id where
  covers := h.covers
  fresh value hvalue := by
    obtain ⟨found, rfl, hfound⟩ := (h.fresh _ hvalue).symm.exists_ok
    exact (hcached found rfl).trans hfound.agrees

/-- More may wait, or fewer if the watchers that do not wait any longer know. -/
theorem Ready.learn (h : k.Ready n a late w) {late' : Subscriber → Prop}
    (hsame : ∀ id, late' (.computed id) ↔ late (.computed id))
    (hknows : k.watchers → ∀ id, late (.watcher id) → k.Awake late' w id →
      k.Knows (properties late') w id) : k.Ready n a late' w :=
  ⟨⟨h.heeds.learn hsame hknows, h.quiesces, h.made⟩, h.fair, h.audible⟩

theorem Ready.excuse (h : k.Ready n a (· ∈ waiting) w) (id : WatcherId) :
    k.Ready n a (With waiting id) w :=
  h.learn (with_computed waiting id) fun _ _ hl hawake => absurd (Or.inl hl) hawake.prompt

/-- A watcher that found something and knows it no longer waits. -/
theorem Ready.settle (h : k.Ready n a (With waiting id) w) {r : Except Error Value}
    (hfinds : k.Finds (properties (With waiting id)) w id r)
    (hcached : ∀ value, r = .ok value → (w.watcher id).cached.Agrees value) :
    k.Ready n a (· ∈ waiting) w := by
  have hsame : properties (With waiting id) = properties (· ∈ waiting) :=
    funext fun j => propext (with_computed waiting id j)
  refine h.learn (fun j => (with_computed waiting id j).symm) fun hw j hl hawake => ?_
  rcases hl with hl | hj
  · exact absurd hl hawake.prompt
  · cases hj
    rw [← hsame]
    exact (hfinds hw hawake.home hawake.heard).knows hcached

/-- One that was torn down does not wait either. -/
theorem Ready.dismiss (h : k.Ready n a (With waiting id) w) (hdisposed : (w.watcher id).disposed = true) :
    k.Ready n a (· ∈ waiting) w := by
  refine h.learn (fun j => (with_computed waiting id j).symm) fun hw j hl hawake => ?_
  rcases hl with hl | hj
  · exact absurd hl hawake.prompt
  · cases hj
    have hlives := hawake.lives
    rw [hdisposed] at hlives
    cases hlives

/-- The row of a watcher that waits may change. -/
theorem Ready.rewatch (h : k.Ready n False (With waiting id) w) (hobjects : w'.objects = w.objects)
    (hviewModels : w'.viewModels = w.viewModels) (hcomputeds : w'.computeds = w.computeds)
    (hmemory : w'.memory = w.memory) (htrackers : ∀ t, w'.tracker t = w.tracker t)
    (hothers : ∀ j, j ≠ id → w'.watcher j = w.watcher j)
    (hpages : ∀ x, k.Has x → w'.page k.record x = w.page k.record x) :
    k.Ready n False (With waiting id) w' := by
  have hevaluates : ∀ x, w'.Evaluates x ↔ w.Evaluates x := fun x => evaluates_congr htrackers
  refine ⟨⟨h.heeds.rewatch (Or.inr rfl) hobjects hviewModels hcomputeds hmemory htrackers hothers
    fun x hx => ?_, fun x hx hev => h.quiesces x hx ((hevaluates x).mp hev), hcomputeds ▸ h.made⟩,
    h.fair.rows hobjects (congrArg _ hmemory) hviewModels (by rw [hcomputeds]) fun j => ?_, False.elim⟩
  · rw [hpages x hx, hevaluates]
    exact h.heeds.books x hx
  · rw [World.computed, hcomputeds, World.computed]

/-- What a watcher does not depend on may change. -/
theorem Ready.mapWatcher (h : k.Ready n False (With waiting id) w) {f : Watcher Code → Watcher Code}
    (hf : ∀ y, (f y).dependencies = y.dependencies ∧ (f y).disposed = y.disposed
      ∧ (f y).root = y.root) : k.Ready n False (With waiting id) (w.mapWatcher id f) :=
  h.rewatch rfl rfl rfl rfl (fun _ => rfl)
    (fun _ hj => (watcher_mapWatcher w id _ f).trans (if_neg hj))
    fun _ _ => (unmoved_mapWatcher w id hf).page

/-- What was found stays so while the watcher gets to know it. -/
theorem Finds.mapWatcher {waits : ComputedId → Prop} {r : Except Error Value} (h : k.Finds waits w id r)
    {f : Watcher Code → Watcher Code} (hf : ∀ y, (f y).dependencies = y.dependencies
      ∧ (f y).tracker = y.tracker ∧ (f y).root = y.root ∧ (f y).path = y.path) :
    k.Finds waits (w.mapWatcher id f) id r := by
  have hrow : (w.mapWatcher id f).watcher id = f (w.watcher id) :=
    (watcher_mapWatcher w id id f).trans (if_pos rfl)
  obtain ⟨hlist, htracker, hroot, hpath⟩ := hf (w.watcher id)
  have hquiet : k.Quiet w (w.mapWatcher id f) := quiet_of_rows rfl rfl rfl fun _ => rfl
  have hq : Realm.path (w.mapWatcher id f) id = Realm.path w id := by
    rw [Realm.path, hrow, hroot, hpath, Realm.path]
  intro hw hhome hheard
  rw [hrow, htracker] at hhome
  have hobjects : (w.mapWatcher id f).objects = w.objects := rfl
  rw [hq, hquiet.afresh, heard_congr hobjects] at hheard
  have hfound := h hw hhome hheard
  refine ⟨?_, fun a ha => ?_⟩
  · rw [hq, World.dependencies, hrow, hlist]
    exact hfound.covers.relist hquiet fun _ _ => Or.inl rfl
  · rw [hq, hquiet.scratch] at ha
    exact hfound.fresh a ha

/-- A watcher is made, which waits to evaluate. -/
theorem Ready.addWatcher (h : k.Ready n False (· ∈ waiting) w) {x : Watcher Code}
    (hdependencies : x.dependencies = {}) (hdisposed : x.disposed = false) :
    k.Ready n False (With waiting (w.addWatcher x).1) (w.addWatcher x).2 ∧
      ((w.addWatcher x).2.watcher (w.addWatcher x).1).disposed = false := by
  have hwatcher := watcher_addWatcher w x
  refine ⟨(h.excuse w.watchers.fresh).rewatch rfl rfl rfl rfl (fun _ => rfl)
    (fun j hj => (hwatcher j).trans (if_neg hj)) fun _ _ => page_addWatcher w hdependencies hdisposed, ?_⟩
  exact (congrArg Watcher.disposed ((hwatcher w.watchers.fresh).trans (if_pos rfl))).trans hdisposed

/-- A watcher that found a value gets to know it. -/
theorem Ready.know (h : k.Ready n False (With waiting id) w) {value : Value}
    (hfinds : k.Finds (properties (With waiting id)) w id (.ok value)) {f : Watcher Code → Watcher Code}
    (hf : ∀ y, f y = { y with cached := value, fires := (f y).fires }) :
    k.Ready n False (· ∈ waiting) (w.mapWatcher id f) := by
  have hkept : ∀ y, (f y).dependencies = y.dependencies ∧ (f y).disposed = y.disposed
      ∧ (f y).root = y.root ∧ (f y).tracker = y.tracker ∧ (f y).path = y.path
      ∧ (f y).cached = value := by
    intro y
    rw [hf y]
    exact ⟨rfl, rfl, rfl, rfl, rfl, rfl⟩
  have hmapped : k.Ready n False (With waiting id) (w.mapWatcher id f) :=
    h.mapWatcher fun y => ⟨(hkept y).1, (hkept y).2.1, (hkept y).2.2.1⟩
  refine hmapped.settle (r := .ok value) (hfinds.mapWatcher fun y =>
    ⟨(hkept y).1, (hkept y).2.2.2.1, (hkept y).2.2.1, (hkept y).2.2.2.2.1⟩) ?_
  rintro _ ⟨⟩
  rw [watcher_mapWatcher, if_pos rfl, (hkept _).2.2.2.2.2]
  exact .refl value

theorem Ready.fringe (h : k.Ready n a late w) (hfringe : w.Fringe w') : k.Ready n a late w' :=
  h.pass (passes_fringe hfringe) (congrArg _ hfringe.memory) (fun _ _ => hfringe.builds.unmoved) fun _ hid =>
    Or.inl ((evaluates_congr fun t => by rw [World.tracker, hfringe.trackers, World.tracker]).mp hid)

theorem Ready.teardown (h : k.Ready n False late w) (id : WatcherId) :
    k.Ready n False late (w.teardownWatcher id) := by
  have heq := teardownWatcher_eq w id
  have hcomputeds : (w.teardownWatcher id).computeds = w.computeds := by rw [heq]
  refine ⟨⟨h.heeds.teardown h.quiesces id, fun x hx hev => ?_, hcomputeds ▸ h.made⟩,
    h.fair.rows (by rw [heq]) (by rw [heq]) (by rw [heq]) (by rw [heq]) fun j => ?_, False.elim⟩
  · exact h.quiesces x hx ((evaluates_congr (tracker_teardownWatcher w id)).mp hev)
  · rw [World.computed, hcomputeds, World.computed]

/-! ### Evaluating -/

/-- A watcher begins to evaluate. It need not wait meanwhile, for it is not idle. -/
theorem Ready.begin (hk : k.Lawful) (h : k.Ready n a (With waiting id) w)
    (hlives : (w.watcher id).disposed = false) :
    k.Heeds (· ∈ waiting) (w.opening k.application (w.watcher id).tracker (.watcher id)) ∧
      k.Fair (w.opening k.application (w.watcher id).tracker (.watcher id)) := by
  have hmade : ∀ j, Subscriber.watcher id = .computed j → Key.index j < w.computeds.size :=
    fun _ => Subscriber.noConfusion
  refine ⟨?_, h.fair.pass (passes_opening hk w _ hmade) (holds_opening hk w _ _)⟩
  have hopening := h.heeds.opening hk (w.watcher id).tracker (y := .watcher id)
    (fun hhas => ⟨h.quiesces _ hhas, ?_⟩) hmade
  · refine hopening.heeds.learn (fun j => (with_computed waiting id j).symm) fun _ j hl hawake => ?_
    rcases hl with hl | hj
    · exact absurd hl hawake.prompt
    · cases hj
      exact absurd ((evaluates_opening w _).mpr (Or.inl rfl)) hawake.idle
  · rintro ⟨j, hj, hover⟩
    cases hj
    rw [hlives] at hover
    cases hover

/-- A watcher of the realm has evaluated. -/
theorem Ready.finish (hk : k.Lawful) (h : k.Ready n a (With waiting id) w) (hw : k.watchers) {t : TrackerId}
    (ht : (w.watcher id).tracker = t)
    (hheeds : k.Heeds (· ∈ waiting) (w.opening k.application t (.watcher id)))
    (hfair : k.Fair (w.opening k.application t (.watcher id))) {r : Except Error Value}
    (hreads : (k.setting (w.opening k.application t (.watcher id))).Reads
      (w.opening k.application t (.watcher id)) (path w id) (w.opening k.application t (.watcher id)) r w₁)
    (hforth : k.Forth (· ∈ waiting) (w.opening k.application t (.watcher id)) w₁)
    (hnotes : k.Notes (· ∈ waiting) (w.opening k.application t (.watcher id))
      ⟨(· = some t), fun _ => False⟩ (path w id) (w.opening k.application t (.watcher id)) w₁) :
    k.Ready n False (With waiting id) (w₁.closing k.application t (.watcher id) r) ∧
      k.Finds (properties (With waiting id)) (w₁.closing k.application t (.watcher id) r) id r := by
  have hself : (w.opening k.application t (.watcher id)).current? (some t) = some (.watcher id) := by
    simp only [current?, World.opening, Option.bind_some, tracker_mapTracker, if_true, Tracker.push,
      Tracker.current?]
  have hcourse := (hfair.course hheeds).step hreads.phase hforth
  have htrackers := hreads.rests.trackers
  have ho : k.Onward (properties (With waiting id)) w₁ (w₁.closing k.application t (.watcher id) r) :=
    onward_closing w₁ t id r
  have hface : ((w₁.closing k.application t (.watcher id) r).watcher id).face = (w.watcher id).face :=
    (face_closing w₁ k.application t _ r id).trans ((hreads.rests.watchers id).trans
      (face_opening w k.application t _ id))
  have hsame : properties (With waiting id) = properties (· ∈ waiting) :=
    funext fun j => propext (with_computed waiting id j)
  have hexcused : k.Heeds (With waiting id) w₁ := hforth.heeds.learn (with_computed waiting id)
    fun _ _ hl hawake => absurd (Or.inl hl) hawake.prompt
  refine ⟨⟨⟨hexcused.closing_watcher hk (Or.inr rfl) htrackers (h.quiesces (.watcher id) hw) r,
    fun x hx hev => h.quiesces x hx ((evaluates_closing htrackers r).mp hev), ?_⟩,
    (hcourse.fair hfair hreads.rests.holds).rows (closing_tables w₁ t _ r).1 (holds_closing hk w₁ t _ r)
      (closing_tables w₁ t _ r).2
      (quiet_closing (k := k) w₁ t id r).size (faces_closing w₁ t _ r), False.elim⟩, ?_⟩
  · have hsize : (w.opening k.application t (.watcher id)).computeds.size = w.computeds.size :=
      (passes_opening hk w t fun _ => Subscriber.noConfusion : k.Passes w _).size
    rw [(quiet_closing (k := k) w₁ t id r).size, hforth.onward.quiet.size, hsize]
    exact h.made
  · intro _ hhome hheard
    have htracker : t = k.home := by
      rw [← hhome, (Watcher.fields_eq_of_face_eq hface).1, ht]
    have hheard₀ : (k.afresh (w.opening k.application t (.watcher id))).Along
        (w.opening k.application t (.watcher id)).Heard (path w id) := by
      rw [path_congr hface, ho.quiet.afresh, ho.heard, hforth.onward.quiet.afresh,
        hforth.onward.heard] at hheard
      exact hheard
    have hcovers := hcourse.covers hfair hheeds.keptAlike (Query.alike_path _ _) hheard₀
      (hnotes k.home (fun reader hreader => hreader.trans (congrArg some htracker)) (hfair.shared hw)
        (.watcher id) hw (htracker ▸ hself))
    rw [← hsame] at hcovers
    refine ⟨?_, fun a ha => ?_⟩
    · rw [path_congr hface]
      exact ho.covers _ _ (hcovers.mono (pending_closing (fun _ => Subscriber.noConfusion) t r))
    · rw [path_congr hface, ho.quiet.scratch, hsame] at ha
      exact hcourse.fresh hfair hheeds.keptAlike (Query.alike_path _ _) hreads.gives ha

section Watching

variable (hk : k.Lawful) (h : k.Relays waiting c d)

include hk h

/-- A watcher evaluates, and finds what there is. -/
theorem Relays.evaluateWatcher (hw : k.Ready n False (With waiting id) w)
    (hlives : (w.watcher id).disposed = false) :
    Ends w (evaluateWatcher c id) (evaluateWatcher d id) fun r w' =>
      k.Ready n False (With waiting id) w' ∧ k.Finds (properties (With waiting id)) w' id r := by
  rw [Engine.evaluateWatcher, Engine.evaluateWatcher, ends_inspect_bind]
  have hmade : ∀ {w' : World Code Memory} j, Subscriber.watcher id = .computed j →
      Key.index j < w'.computeds.size := fun _ => Subscriber.noConfusion
  generalize ht : (w.watcher id).tracker = t
  obtain ⟨hheeds, hfair⟩ := hw.begin hk hlives
  rw [ht] at hheeds hfair
  by_cases hwatchers : k.watchers
  · have hscope : ∀ object key, (k.setting (w.opening k.application t (.watcher id))).Asks
        (w.opening k.application t (.watcher id)) (.property object key) :=
      fun object key j hslot => ⟨hfair.named hwatchers _ _ j hslot, hheeds.wired.computed _ _ j hslot⟩
    have habove : (k.sight (w.opening k.application t (.watcher id))).Above
        (k.Under (w.opening k.application t (.watcher id)) (w.opening k.application t (.watcher id)))
        (path w id) := by
      refine View.above_nothing _ fun j hj => ?_
      rcases (evaluates_opening w t).mp hj.2 with hid | hev
      · cases hid
      · exact hw.quiesces (.computed j) hj.1.1 hev
    have hrules : ReadingRules c d (fun _ _ => True) (fun _ _ => True)
        (w.opening k.application t (.watcher id)) (k.Attentive (· ∈ waiting) _) :=
      attentive_rules hk hfair hheeds.keptAlike h.left h.right (h.sound hfair)
        (h.attentive hfair hheeds.keptAlike) fun _ _ _ _ => trivial
    have hread := hrules.readPath (m := ⟨(· = some t), fun _ => False⟩) rfl (w.watcher id).root
      (w.watcher id).path
    refine ends_evaluate (h.right.trans h.left.symm) t _ (h.left ▸ hread (View.along_path hscope _ _) _
      (hfair.course hheeds) habove) ?_
    rintro r w₁ ⟨hreads, hforth, hnotes⟩
    rw [h.left] at hreads hforth hnotes ⊢
    exact hw.finish hk hwatchers ht hheeds hfair hreads hforth hnotes
  · have hout : ¬ k.Has (.watcher id) := hwatchers
    have hopened := hw.opening hk hout t hmade
    have hopening : k.Ready n False (· ∈ waiting) (w.opening k.application t (.watcher id)) :=
      ⟨⟨hheeds, hopened.quiesces, hopened.made⟩, hfair, False.elim⟩
    refine ends_evaluate (h.right.trans h.left.symm) t _ (R := fun _ => k.Ready n False (· ∈ waiting)) ?_
      fun r w₁ hw₁ => ?_
    · rw [h.left]
      exact h.walk hk (w.watcher id).path _ (w.watcher id).root _ hopening
    · rw [h.left]
      exact ⟨(hw₁.closing hk hout t hmade r).excuse id, fun hyes => absurd hyes hwatchers⟩

/-- Making a watcher keeps the world ready. -/
theorem Relays.watch (t : TrackerId) (root : Value) (path : Path) (reaction : Reaction Code) :
    Keeps (k.Ready n False (· ∈ waiting)) (watch c t root path reaction) (watch d t root path reaction) := by
  intro w hw
  obtain ⟨hadded, hlives⟩ := hw.addWatcher (x := { tracker := t, root, path, reaction }) rfl rfl
  unfold Engine.watch
  rw [ends_create_bind]
  generalize w.addWatcher _ = added at hadded hlives ⊢
  refine Ends.keeping _ (R := fun _ => k.Ready n False (· ∈ waiting)) ?_ fun _ w' hw' => hw'.held _
  have hheld := hadded.held ([.watcher added.1] ++ added.2.held)
  refine (h.evaluateWatcher hk hheld hlives).attempt_bind ?_
  rintro r w' ⟨hw', hfinds⟩
  cases r with
  | ok value =>
    rw [ends_update_bind, ends_pure]
    exact hw'.know hfinds fun _ => rfl
  | error error =>
    rw [ends_update_bind, ends_throw]
    refine (hw'.settle hfinds fun _ heq => ?_).teardown _
    cases heq

theorem Relays.fitting : Fitting (k.Ready n False (· ∈ waiting)) c d where
  application := h.right.trans h.left.symm
  held held hw := hw.held held
  fringe hfringe _ hw := hw.fringe hfringe
  pausing t _ _ hb := keeps_pausing t hb
  get := h.get hk
  watch := h.watch hk

/-- Installing, compiling, mounting and calling keep the world ready. -/
theorem Relays.upkeep : Upkeep (k.Ready n False (· ∈ waiting)) c d where
  toFitting := h.fitting hk
  depth := h.depth
  display {w} updater node value hw := hw.fringe (fringe_display w updater node value)
  setText {w} node content hw := hw.fringe (fringe_setText w node content)
  installRender owner node kind updater path := (h.fitting hk).installRender owner node kind updater path
    fun {w} value hw => hw.fringe (fringe_display w updater node value)
  installInterpolation node _ := (h.fitting hk).installInterpolation _ node _
    (fun {w} content hw => hw.fringe (fringe_setText w node content)) _
  calling w owner method event hw := by
    rw [h.left]
    exact hw.note hk ⟨fun _ _ => Occurrence.noConfusion,
      fun _ _ => ⟨Occurrence.noConfusion, Occurrence.noConfusion⟩⟩ fun _ _ _ => rfl
  teardown w id hw := hw.teardown id
  callback code value := (h.run n _).mono (fun _ hw => hw.toCalm) fun _ hw => hw.relax False.elim
  method code owner event := (h.run n _).mono (fun _ hw => hw.toCalm) fun _ hw => hw.relax False.elim
  install _ _ hw :=
    (h.run n _).mono (fun _ hw => hw.toCalm) (fun _ hw => hw.relax False.elim) _ hw

/-- A watcher that is told of a change has heard of it in the end, however its reaction ends. -/
theorem Relays.updateWatcher (hw : k.Ready n False (With waiting id) w) :
    Ends w (updateWatcher c id) (updateWatcher d id) fun _ => k.Ready n False (· ∈ waiting) := by
  refine Ends.keeping _ (R := fun _ => k.Ready n False (· ∈ waiting)) ?_ fun _ w' hw' => hw'.held _
  rw [ends_inspect_bind]
  have hheld := hw.held ([.watcher id] ++ w.held)
  split
  · next hdisposed => exact (ends_pure ()).mpr (hheld.dismiss hdisposed)
  · next hlives =>
    refine (h.evaluateWatcher hk hheld (Bool.eq_false_iff.mpr hlives)).bind ?_ ?_
    · rintro value w' ⟨hw', hfinds⟩
      rw [ends_inspect_bind]
      split
      · next hsame =>
        refine (ends_pure ()).mpr (hw'.settle hfinds ?_)
        rintro _ ⟨⟩
        exact Or.inl hsame
      · rw [ends_update_bind]
        have hknows : k.Ready n False (· ∈ waiting)
            (w'.mapWatcher id fun x => { x with cached := value, fires := x.fires + 1 }) :=
          hw'.know hfinds fun _ => rfl
        refine keeps_keeping _ (keeps_pausing _ (Keeps.bind ?_ fun _ => ?_)) _ hknows
        · rw [Engine.note, Engine.note, h.left, h.right]
          exact Keeps.update fun w hw => hw.note hk ⟨fun _ _ => Occurrence.noConfusion,
            fun _ _ => ⟨Occurrence.noConfusion, Occurrence.noConfusion⟩⟩ fun _ _ _ => rfl
        · exact (h.upkeep hk).react _ value
    · rintro error w' ⟨hw', hfinds⟩
      refine hw'.settle hfinds fun _ heq => ?_
      cases heq

end Watching

end Realm

end ViewBinding
