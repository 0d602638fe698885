import ViewBinding.Proofs.Lining

/-!
# What an evaluation gathers

A getter may write, and so a subscriber may be told of a change and evaluate again before it has done with an
evaluation. Both gather on one list, which each of them clears when it begins and takes when it ends. So
nothing is lost of what is met after the last time that the subscriber began or ended an evaluation: whatever
programs do, it stands in the line of every source that it has met since then, and when it ends the
evaluation it stays there until another one succeeds.
-/

namespace ViewBinding

open Engine

variable {Code Memory : Type}

/-! ### What the record says was met -/

/-- A subscriber begins or ends an evaluation. -/
inductive Occurrence.Bounds (x : Subscriber) : Occurrence → Prop
  | begins : Bounds x (.evaluating x)
  | ends (succeeded : Bool) : Bounds x (.evaluated x succeeded)

namespace Trail

variable {x : Subscriber} {o : Occurrence} {t : Trail} {s : SourceId} {news during earlier : List Occurrence}

theorem met_of_bounds (h : o.Bounds x) : (t.step x o).met = [] := by
  cases h with
  | begins => simp [step]
  | ends succeeded => cases succeeded <;> simp [step]

/-- Between beginnings and ends, what is met is gathered. -/
theorem mem_met_step (h : ¬ o.Bounds x) : s ∈ (t.step x o).met ↔ s ∈ t.met ∨ o = .tracked x s := by
  cases o with
  | evaluating y =>
    have hy : y ≠ x := fun hyx => h (hyx ▸ .begins)
    simp [step, hy]
  | evaluated y succeeded =>
    have hy : y ≠ x := fun hyx => h (hyx ▸ .ends succeeded)
    cases succeeded <;> simp [step, hy]
  | tracked y source =>
    by_cases hy : y = x
    · simp [step, hy, or_comm, eq_comm]
    · simp [step, hy]
  | telling source live =>
    simp only [step]
    split <;> simp
  | _ => simp [step]

/-- What was met is kept until another evaluation succeeds. -/
theorem mem_kept_step (h : o ≠ .evaluated x true) (hs : s ∈ t.kept) : s ∈ (t.step x o).kept := by
  cases o with
  | evaluated y succeeded =>
    cases succeeded with
    | true =>
      have hy : y ≠ x := fun hyx => h (hyx ▸ rfl)
      simpa [step, hy] using hs
    | false =>
      simp only [step]
      split
      · exact List.mem_append_right _ hs
      · exact hs
  | evaluating y =>
    simp only [step]
    split <;> exact hs
  | tracked y source =>
    simp only [step]
    split <;> exact hs
  | telling source live =>
    simp only [step]
    split <;> exact hs
  | _ => exact hs

/-- What a subscriber has met since it last began or ended an evaluation. -/
theorem mem_met (ho : o.Bounds x) (hduring : ∀ o' ∈ during, ¬ o'.Bounds x) :
    s ∈ (ofHistory x (during ++ o :: earlier)).met ↔ .tracked x s ∈ during := by
  induction during with
  | nil => simp [ofHistory, met_of_bounds ho]
  | cons first during inductionHypothesis =>
    obtain ⟨hfirst, hrest⟩ := List.forall_mem_cons.mp hduring
    rw [List.cons_append, ofHistory, mem_met_step hfirst, inductionHypothesis hrest, List.mem_cons, or_comm,
      eq_comm]

/-- It keeps all that when it ends the evaluation, and until another one succeeds. -/
theorem mem_kept {succeeded : Bool} (ho : o.Bounds x) (hduring : ∀ o' ∈ during, ¬ o'.Bounds x)
    (hnews : .evaluated x true ∉ news) (hs : .tracked x s ∈ during) :
    s ∈ (ofHistory x (news ++ .evaluated x succeeded :: (during ++ o :: earlier))).kept := by
  induction news with
  | nil =>
    have hmet : s ∈ (ofHistory x (during ++ o :: earlier)).met := (mem_met ho hduring).mpr hs
    cases succeeded <;> simp [ofHistory, step, hmet]
  | cons first news inductionHypothesis =>
    rw [List.mem_cons, not_or] at hnews
    exact mem_kept_step (Ne.symm hnews.1) (inductionHypothesis hnews.2)

end Trail

/-! ### What stays true of every page -/

namespace Page

/-- A property of pages that outlasts whatever is noted of a subscriber that is not torn down. -/
structure Outlasting (P : Page → Prop) : Prop where
  begin {p : Page} : P p → P p.begin
  meet {p : Page} (s : SourceId) : P p → P (p.meet s)
  settle {p : Page} : P p → P p.settle
  merge {p : Page} : P p → P p.merge
  tell {p : Page} (s : SourceId) (told : Bool) : P p → P (p.tell s told)

/-- Who was not dropped stands in the lines of all sources on its list, of those that are being collected
too, and the list is what the record says. -/
structure Standing (p : Page) : Prop extends p.Tallies where
  listed : p.trail.dropped = false →
    ∀ s, s ∈ p.dependencies.current ∨ s ∈ p.dependencies.pending → p.listed s

theorem outlasting_standing : Outlasting Standing where
  begin h := by
    refine ⟨h.toTallies.begin, fun hkept s hs => h.listed hkept s ?_⟩
    exact hs.imp id fun hpending => by cases hpending
  meet s h := by
    refine ⟨h.toTallies.meet s, fun hkept t ht => ?_⟩
    rcases ht with hcurrent | hpending
    · exact Or.inl (h.listed hkept t (Or.inl (by simpa [Page.meet] using hcurrent)))
    · exact (Dependencies.mem_pending_record.mp hpending).imp (fun hold => h.listed hkept t (Or.inr hold)) id
  settle h := by
    refine ⟨h.toTallies.settle, fun hkept s hs => ?_⟩
    rcases hs with hcurrent | hpending
    · refine ⟨h.listed hkept s (Or.inr hcurrent), ?_⟩
      rw [Dependencies.mem_stale]
      exact fun hstale => hstale.2 hcurrent
    · cases hpending
  merge h := by
    refine ⟨h.toTallies.merge, fun hkept s hs => ?_⟩
    rcases hs with hcurrent | hpending
    · exact h.listed hkept s (Dependencies.mem_current_merge.mp hcurrent)
    · cases hpending
  tell {p} s told h := by
    refine ⟨h.toTallies.tell s told, fun hkept t ht => ?_⟩
    have hdropped : p.trail.dropped = false ∧ ¬ ((s ∈ p.trail.kept ∨ s ∈ p.trail.met) ∧ told = false) := by
      simp only [Page.tell] at hkept
      split at hkept
      · cases hkept
      · next hnot => exact ⟨hkept, hnot⟩
    -- the list is what the record says, so a source that does not tell it is not on the list
    refine ⟨h.listed hdropped.1 t ht, ?_⟩
    rintro rfl
    exact (Bool.not_eq_false told).mp fun hfalse =>
      hdropped.2 ⟨ht.imp (h.kept t).mp (h.met t).mp, hfalse⟩

theorem standing_blank : Standing blank where
  kept _ := Iff.rfl
  met _ := Iff.rfl
  listed _ _ hs := hs.elim (fun h => by cases h) fun h => by cases h

end Page

variable [Inhabited Code]

namespace World

/-- The pages of all that stand in line have a property. -/
def Pages (record : Memory → List Occurrence) (P : Page → Prop) (w : World Code Memory) : Prop :=
  ∀ x, w.inLine x = true → P (w.page record x)

variable {record : Memory → List Occurrence} {application : Application Code Memory} {P : Page → Prop}
  {w w' : World Code Memory}

/-- Nothing has changed for those that stand in line. -/
theorem Pages.congr (h : w.Pages record P)
    (hdisposed : ∀ id, (w'.watcher id).disposed = (w.watcher id).disposed)
    (hpages : ∀ x, w.inLine x = true → w'.page record x = w.page record x) : w'.Pages record P := by
  intro x hx
  rw [inLine_congr hdisposed] at hx
  rw [hpages x hx]
  exact h x hx

/-- Something is noted of one subscriber. -/
theorem Pages.noted (h : w.Pages record P) (y : Subscriber)
    (hdisposed : ∀ id, (w'.watcher id).disposed = (w.watcher id).disposed)
    (hothers : ∀ x, y ≠ x → Unmoved record x w w')
    (hself : (∀ id, y ≠ .probe id) → P (w.page record y) → P (w'.page record y)) : w'.Pages record P := by
  intro x hx
  rw [inLine_congr hdisposed] at hx
  by_cases hyx : y = x
  · subst hyx
    exact hself (not_probe_of_inLine hx) (h y hx)
  · rw [(hothers x hyx).page]
    exact h x hx

theorem Pages.builds (h : w.Pages record P) (hw : w.Builds w') : w'.Pages record P :=
  h.congr (fun id => by rw [watcher, hw.watchers, watcher]) fun _ _ => hw.unmoved.page

theorem Pages.mapTracker (h : w.Pages record P) (t : TrackerId) (f : Tracker → Tracker) :
    (w.mapTracker t f).Pages record P :=
  h.congr (fun _ => rfl) fun x _ => by cases x <;> rfl

theorem Pages.mapWatcher (h : w.Pages record P) (id : WatcherId) {f : Watcher Code → Watcher Code}
    (hf : ∀ x, (f x).dependencies = x.dependencies ∧ (f x).disposed = x.disposed ∧ (f x).root = x.root) :
    (w.mapWatcher id f).Pages record P := by
  refine h.congr (fun j => ?_) fun x _ => (unmoved_mapWatcher w id hf).page
  rw [watcher_mapWatcher]
  split
  · next hj => rw [(hf _).2.1, hj]
  · rfl

theorem Pages.mapSource (h : w.Pages record P) (s : SourceId) {f : Source → Source}
    (hf : ∀ x, w.inLine x = true → (x ∈ (f (w.source s)).subscribers ↔ x ∈ (w.source s).subscribers)) :
    (w.mapSource s f).Pages record P :=
  h.congr (fun _ => rfl) fun x hx => (unmoved_mapSource w s (hf x hx)).page

theorem Pages.teardown (h : w.Pages record P) (id : WatcherId) : (w.teardownWatcher id).Pages record P := by
  by_cases hdisposed : (w.watcher id).disposed = true
  · rw [teardownWatcher, if_pos hdisposed]
    exact h
  intro x hx
  rw [inLine_teardownWatcher hdisposed, Bool.and_eq_true, decide_eq_true_eq] at hx
  rw [(unmoved_teardownWatcher w (Ne.symm hx.1)).page]
  exact h x hx.2

theorem Pages.addWatcher (h : w.Pages record P) {y : Watcher Code} (hy : y.New) :
    (w.addWatcher y).2.Pages record P := by
  refine h.congr (fun id => ?_) fun _ _ => page_addWatcher w hy.dependencies hy.disposed
  rw [watcher_addWatcher]
  split
  · next hid =>
    rw [hy.disposed, hid, watcher_fresh]
    rfl
  · rfl

section Noting

variable (hP : Page.Outlasting P) (hrecord : application.Records record)

include hrecord

/-- An occurrence that says nothing of anybody. -/
theorem Pages.note (h : w.Pages record P) {occurrence : Occurrence}
    (htrail : ∀ x t, Trail.step x t occurrence = t) : (w.note application occurrence).Pages record P :=
  h.congr (fun _ => rfl) fun x _ => (unmoved_note hrecord w (htrail x)).page

include hP

theorem Pages.meeting (h : w.Pages record P) (y : Subscriber) (s : SourceId) :
    (w.meeting application y s).Pages record P := by
  refine h.noted y (fun id => (disposed_mapDependencies _ y _ id).1)
    (fun x hx => unmoved_meet hrecord w hx s) fun hy hpage => ?_
  rw [World.meeting, page_meet hy hrecord]
  exact hP.meet s hpage

theorem Pages.opening (h : w.Pages record P) (t : TrackerId) (y : Subscriber) :
    (w.opening application t y).Pages record P := by
  have hbegin : World.Pages record P ((w.mapDependencies y (·.begin)).note application (.evaluating y)) := by
    refine h.noted y (fun id => (disposed_mapDependencies w y _ id).1) (fun x hx => ?_) fun hy hpage => ?_
    · exact (unmoved_mapDependencies w hx _).trans (unmoved_note hrecord _ fun t => if_neg hx)
    · rw [page_begin hy hrecord]
      exact hP.begin hpage
  exact hbegin.mapTracker t _

theorem Pages.closing (h : w.Pages record P) (t : TrackerId) (y : Subscriber) (r : Except Error Value) :
    (w.closing application t y r).Pages record P := by
  have hpopped := h.mapTracker t (·.pop)
  cases r with
  | ok value =>
    have hsettle : World.Pages record P
        (((w.mapTracker t (·.pop)).settle y).note application (.evaluated y true)) := by
      refine hpopped.noted y (fun id => ?_) (fun x hx => ?_) fun hy hpage => ?_
      · change (((w.mapTracker t (·.pop)).settle y).watcher id).disposed = _
        rw [settle_eq]
        exact (disposed_mapDependencies _ y _ id).1
      · exact (unmoved_settle _ hx).trans (unmoved_note hrecord _ fun t => if_neg hx)
      · rw [page_settle hy hrecord]
        exact hP.settle hpage
    exact hsettle
  | error error =>
    have hmerge : World.Pages record P
        (((w.mapTracker t (·.pop)).mapDependencies y (·.merge)).note application (.evaluated y false)) := by
      refine hpopped.noted y (fun id => (disposed_mapDependencies _ y _ id).1) (fun x hx => ?_)
        fun hy hpage => ?_
      · exact (unmoved_mapDependencies _ hx _).trans (unmoved_note hrecord _ fun t => if_neg hx)
      · rw [page_merge hy hrecord]
        exact hP.merge hpage
    exact hmerge

theorem Pages.telling (h : w.Pages record P) (s : SourceId) : (w.telling application s).Pages record P := by
  intro x hx
  have hlive : x ∈ w.liveSubscribers (application.holds w.memory) s → x ∈ (w.source s).subscribers := by
    rw [liveSubscribers_eq_filter]
    exact fun hmem => (List.mem_filter.mp hmem).1
  rw [World.telling, page_tell hrecord w s hlive]
  exact hP.tell s _ (h x hx)

end Noting

end World

namespace Engine

variable {application : Application Code Memory} {record : Memory → List Occurrence} {P : Page → Prop}

/-- Whatever programs do, if they leave registration to the engine. -/
theorem withstands_pages (hP : Page.Outlasting P) (hrecord : application.Records record) :
    Withstands application (Request.KeepsLines record) fun _ : Unit => World.Pages record P where
  mapTracker t f hw := hw.mapTracker t f
  note {_ w o} ho hw := by
    refine hw.note hrecord fun x t => ?_
    cases ho <;> rfl
  meeting y s hw := hw.meeting hP hrecord y s
  evaluating _ y :=
    ⟨(), fun t => ⟨fun _ hw => hw.opening hP hrecord t y, fun _ r hw => hw.closing hP hrecord t y r⟩⟩
  making {_ w x} held hx hw := by
    refine ⟨(), World.Pages.opening hP hrecord ?_ _ _, fun v value hv => ?_, fun v error hv => ?_⟩
    · exact (hw.addWatcher hx).builds (World.builds_of_eq rfl rfl rfl rfl rfl)
    · exact World.Pages.mapWatcher (hv.closing hP hrecord _ _ (.ok value)) _ fun _ => ⟨rfl, rfl, rfl⟩
    · exact World.Pages.teardown (hv.closing hP hrecord _ _ (.error error)) _
  reacting {_ w id value} refs _ hw := by
    have hlearning : (w.learning id value).Pages record P := hw.mapWatcher id fun _ => ⟨rfl, rfl, rfl⟩
    have hheld : World.Pages record P { w.learning id value with held := refs ++ w.held } :=
      hlearning.builds (World.builds_of_eq rfl rfl rfl rfl rfl)
    exact (hheld.mapTracker _ _).note hrecord fun _ _ => rfl
  telling s hw := hw.telling hP hrecord s
  teardown id hw := hw.teardown id
  register {_ w s y} hok hw := by
    obtain ⟨id, rfl⟩ := hok
    refine hw.mapSource s fun x hx => ?_
    rw [Source.mem_register]
    exact or_iff_left (World.not_probe_of_inLine hx id)
  unregister {_ w s y} hok hw := by
    obtain ⟨id, rfl⟩ := hok
    refine hw.mapSource s fun x hx => ?_
    rw [Source.mem_unregister]
    exact and_iff_left (World.not_probe_of_inLine hx id)
  remember {_ w f} hok hw := by
    refine hw.congr (fun _ => rfl) fun x _ => ?_
    have hunmoved : World.Unmoved record x w { w with memory := f w.memory } :=
      World.unmoved_of_eq rfl rfl rfl rfl hok
    exact hunmoved.page

theorem abides_pages (hP : Page.Outlasting P) (hrecord : application.Records record) :
    Abides application (Request.KeepsLines record) fun _ : Unit => World.Pages record P :=
  (withstands_pages hP hrecord).abides fun _ _ _ hbuilds hw => hw.builds hbuilds

end Engine

/-! ### Runs from the beginning -/

/-- A subscriber attends to what it meets, however its evaluations are nested. -/
structure World.Attends (record : Memory → List Occurrence) (x : Subscriber) (w : World Code Memory) :
    Prop where
  /-- It is listed by all sources that it has met since it last began or ended an evaluation, and has noted
  them. -/
  meets {o : Occurrence} {during earlier : List Occurrence} : record w.memory = during ++ o :: earlier →
    o.Bounds x → (∀ o' ∈ during, ¬ o'.Bounds x) → ∀ s, .tracked x s ∈ during →
      x ∈ (w.source s).subscribers ∧ s ∈ (w.dependencies x).pending
  /-- When it has ended the evaluation it goes on to be listed by them, with the sources on its list, until
  another one succeeds. -/
  keeps {o : Occurrence} {succeeded : Bool} {news during earlier : List Occurrence} :
    record w.memory = news ++ .evaluated x succeeded :: (during ++ o :: earlier) →
    o.Bounds x → (∀ o' ∈ during, ¬ o'.Bounds x) → .evaluated x true ∉ news → ∀ s, .tracked x s ∈ during →
      x ∈ (w.source s).subscribers ∧ s ∈ (w.dependencies x).current

theorem Page.Standing.attends {record : Memory → List Occurrence} {w : World Code Memory} {x : Subscriber}
    (h : (w.page record x).Standing) (hkept : (Trail.ofHistory x (record w.memory)).dropped = false) :
    w.Attends record x where
  meets hrecord ho hduring s hs := by
    have hmet : s ∈ (w.dependencies x).pending := by
      refine (h.met s).mpr ?_
      change s ∈ (Trail.ofHistory x (record w.memory)).met
      rw [hrecord]
      exact (Trail.mem_met ho hduring).mpr hs
    exact ⟨h.listed hkept s (Or.inr hmet), hmet⟩
  keeps hrecord ho hduring hnews s hs := by
    have hcurrent : s ∈ (w.dependencies x).current := by
      refine (h.kept s).mpr ?_
      change s ∈ (Trail.ofHistory x (record w.memory)).kept
      rw [hrecord]
      exact Trail.mem_kept ho hduring hnews hs
    exact ⟨h.listed hkept s (Or.inl hcurrent), hcurrent⟩

/--
Nothing is lost of what is met after an evaluation that was nested. Whatever programs do and however deep the
evaluations of one subscriber are nested, if programs leave registration to the engine: at every moment of
every run, a computed property, or a watcher that is not torn down, that was not dropped is listed by all that
it has met since it last began or ended an evaluation, and when that evaluation has ended it is listed by
them until another one succeeds.
-/
theorem Engine.nested_evaluations_attend {α : Type} {application : Application Code Memory}
    {record : Memory → List Occurrence} (hrecord : application.Records record)
    (hprograms : application.Makes (Request.KeepsLines record)) {program : Program Code Memory α}
    (hprogram : program.Makes (Request.KeepsLines record)) {memory : Memory} (hmemory : record memory = [])
    (depth : Nat) :
    Throughout (fun _ _ w => ∀ x, w.inLine x = true →
        (Trail.ofHistory x (record w.memory)).dropped = false → w.Attends record x)
      application depth program { memory } := by
  refine (abides_pages Page.outlasting_standing hrecord).throughout (i := ()) hprograms hprogram ?_ ?_
  · exact fun _ _ _ w hw x hx hkept => (hw x hx).attends hkept
  · intro x _
    rw [World.page_empty x hmemory]
    exact Page.standing_blank

theorem Engine.nested_evaluations_attend_lookout :
    Application.recorder.Records id ∧ Application.recorder.Makes (Request.KeepsLines id) ∧
      Program.lookout.Makes (Request.KeepsLines id) ∧
      Throughout (fun _ _ w => ∀ x, w.inLine x = true →
          (Trail.ofHistory x (id w.memory)).dropped = false → w.Attends id x)
        Application.recorder 3 Program.lookout { memory := [] } :=
  ⟨fun _ _ => rfl, Application.makes_recorder, Program.makes_lookout,
    nested_evaluations_attend (fun _ _ => rfl) Application.makes_recorder Program.makes_lookout rfl 3⟩

end ViewBinding
