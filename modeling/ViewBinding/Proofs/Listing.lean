import ViewBinding.Proofs.Bookkeeping
import ViewBinding.Proofs.Steps

/-!
# Reading keeps the books in order

A getter that only reads is not entered again while it runs, so every evaluation has a page of its own
to write on. Whatever is read and whoever reads it, the books of a subscriber stay in order.
-/

namespace ViewBinding

open Engine World

variable {Code Memory : Type} [Inhabited Code]
variable {record : Memory → List Occurrence} {application : Application Code Memory}
  {x y : Subscriber} {made : Prop} {w w' : World Code Memory} {c d : Reentry Code Memory}

/-- Who evaluates while a subscriber evaluates: it, and those who did before. -/
theorem World.evaluates_opening (w : World Code Memory) (t : TrackerId) :
    (w.opening application t y).Evaluates x ↔ y = x ∨ w.Evaluates x := by
  refine (evaluates_push _ t _).trans (or_congr ?_ ?_)
  · rw [Option.some.injEq]
  · exact evaluates_congr fun j => tracker_mapDependencies w y _ j

section Steps

variable (hx : ∀ id, x ≠ .probe id) (hrecord : application.Records record)

include hrecord

/-- What another subscriber meets. -/
theorem World.unmoved_meet (w : World Code Memory) (hy : y ≠ x) (s : SourceId) :
    Unmoved record x w (((w.mapSource s (·.register y)).mapDependencies y (·.record s)).note
      application (.tracked y s)) := by
  refine (unmoved_mapSource w s ?_).trans ((unmoved_mapDependencies _ hy _).trans
    (unmoved_note hrecord _ fun t => if_neg hy))
  rw [Source.mem_register]
  exact or_iff_left fun h => hy h.symm

include hx

/-- Meeting a source keeps the books in order. -/
theorem World.InOrder.meet (h : w.InOrder record x made) (hy : w.Evaluates y) (s : SourceId) :
    (((w.mapSource s (·.register y)).mapDependencies y (·.record s)).note application
      (.tracked y s)).InOrder record x made := by
  by_cases hyx : y = x
  · subst hyx
    have htracker : ∀ t, (((w.mapSource s (·.register y)).mapDependencies y (·.record s)).note
        application (.tracked y s)).tracker t = w.tracker t := fun t =>
      tracker_mapDependencies (w.mapSource s (·.register y)) y _ t
    constructor
    · rw [page_meet hx hrecord, evaluates_congr htracker]
      exact h.agrees.meet hy s
    · intro id hid hended
      rw [page_meet hx hrecord, evaluates_congr htracker]
      have hended' : ¬ w.IsOver y := fun hw =>
        hended ((over_mapDependencies (w.mapSource s (·.register y)) y _).mpr hw)
      rcases h.fresh id hid hended' with hsucceeded | hempty | hmaking
      · exact Or.inl hsucceeded
      · exact absurd hy hempty.2.2
      · exact Or.inr (Or.inr hmaking)
  · exact (unmoved_meet hrecord w hyx s).inOrder h

theorem inOrder_depend (hc : c.application = application) (hd : d.application = application)
    (h : w.InOrder record x made) (reader : Option TrackerId) (s : SourceId) :
    Ends w (depend c reader s) (depend d reader s) fun r w' =>
      r = .ok () ∧ w'.InOrder record x made := by
  rw [depend_eq (hd.trans hc.symm), depend, ends_update]
  refine ⟨rfl, ?_⟩
  cases hreader : w.current? reader with
  | none => exact h
  | some subscriber =>
    rw [hc]
    exact h.meet hx hrecord (evaluates_of_current? hreader) s

omit hx in
/-- Another subscriber begins to evaluate. -/
theorem World.unmoved_opening (w : World Code Memory) (hy : y ≠ x) (t : TrackerId) :
    Unmoved record x w (w.opening application t y) := by
  have hnote : Unmoved record x (w.mapDependencies y (·.begin))
      ((w.mapDependencies y (·.begin)).note application (.evaluating y)) :=
    unmoved_note hrecord _ fun t => if_neg hy
  refine (unmoved_mapDependencies w hy _).trans (hnote.trans (unmoved_mapTracker _ t ?_))
  simp only [Tracker.push, List.mem_cons, Option.some.injEq]
  exact or_iff_right fun heq => hy heq.symm

omit hx in
/-- Another subscriber has evaluated, whose frame is taken off. -/
theorem World.unmoved_closing_pop {w₁ : World Code Memory} (hy : y ≠ x) (t : TrackerId)
    (hpop : some x ∈ (w₁.tracker t).pop.frames ↔ some x ∈ (w₁.tracker t).frames)
    (r : Except Error Value) : Unmoved record x w₁ (w₁.closing application t y r) := by
  refine Unmoved.trans (unmoved_mapTracker w₁ t hpop) ?_
  cases r with
  | ok value => exact (unmoved_settle _ hy).trans (unmoved_note hrecord _ fun t => if_neg hy)
  | error error =>
    exact (unmoved_mapDependencies _ hy _).trans (unmoved_note hrecord _ fun t => if_neg hy)

omit hx in
/-- Another subscriber has evaluated. -/
theorem World.unmoved_closing {w₁ : World Code Memory} (hy : y ≠ x) (t : TrackerId)
    (htrackers : ∀ j, w₁.tracker j = (w.opening application t y).tracker j)
    (r : Except Error Value) : Unmoved record x w₁ (w₁.closing application t y r) := by
  refine unmoved_closing_pop hrecord hy t ?_ r
  rw [htrackers t]
  simp only [opening, tracker_mapTracker, if_true, Tracker.push, Tracker.pop, List.tail_cons,
    List.mem_cons, Option.some.injEq]
  exact (or_iff_right fun heq => hy heq.symm).symm

omit hx in
/-- While another subscriber evaluates, the books are in order. -/
theorem World.InOrder.opening_other (h : w.InOrder record x made) (hy : y ≠ x) (t : TrackerId) :
    (w.opening application t y).InOrder record x made :=
  (unmoved_opening hrecord w hy t).inOrder h

omit hx in
/-- When another subscriber has evaluated, the books are in order, too. -/
theorem World.InOrder.closing_other {w₁ : World Code Memory} (h : w₁.InOrder record x made)
    (hy : y ≠ x) (t : TrackerId)
    (htrackers : ∀ j, w₁.tracker j = (w.opening application t y).tracker j)
    (r : Except Error Value) : (w₁.closing application t y r).InOrder record x made :=
  (unmoved_closing hrecord hy t htrackers r).inOrder h

omit hx hrecord in
theorem World.tracker_closing (w₁ : World Code Memory) (t : TrackerId) (r : Except Error Value)
    (htrackers : ∀ j, w₁.tracker j = (w.opening application t y).tracker j) (j : TrackerId) :
    (w₁.closing application t y r).tracker j = w.tracker j := by
  have hpop := tracker_pop_push ((w.mapDependencies y (·.begin)).note application (.evaluating y))
    t (some y) w₁ htrackers j
  have hbegin : ((w.mapDependencies y (·.begin)).note application (.evaluating y)).tracker j
      = w.tracker j := tracker_mapDependencies w y _ j
  rw [hbegin] at hpop
  rw [← hpop]
  cases r with
  | ok value =>
    rw [closing, settle_eq]
    exact tracker_mapDependencies _ y _ j
  | error error => exact tracker_mapDependencies _ y _ j

/-- While the subscriber itself evaluates, the books are in order. -/
theorem World.inOrder_opening_self (h : (w.page record x).Agrees False)
    (hended : ¬ w.IsOver x)
    (hmade : made → ∀ id, x = .watcher id → (w.page record x).trail.succeeded = true)
    (t : TrackerId) : (w.opening application t x).InOrder record x made := by
  have hpage : (w.opening application t x).page record x = (w.page record x).begin :=
    page_begin hx hrecord w
  have hevaluates : (w.opening application t x).Evaluates x := (evaluates_opening w t).mpr (Or.inl rfl)
  constructor
  · rw [hpage, eq_true hevaluates]
    exact h.begin (fun h => h) hended
  · intro id hid _
    rw [hpage]
    by_cases hm : made
    · exact Or.inl (hmade hm id hid)
    · exact Or.inr (Or.inr ⟨hm, hevaluates⟩)

/-- When the subscriber itself has evaluated, the books agree; a success is on record. -/
theorem World.InOrder.closing_self {w₁ : World Code Memory} (h : w₁.InOrder record x made)
    (hidle : ¬ w.Evaluates x) (t : TrackerId)
    (htrackers : ∀ j, w₁.tracker j = (w.opening application t x).tracker j)
    (r : Except Error Value) :
    ((w₁.closing application t x r).page record x).Agrees False ∧
      (made ∨ (∃ value, r = .ok value) → ∀ id, x = .watcher id →
        ¬ (w₁.closing application t x r).IsOver x →
        ((w₁.closing application t x r).page record x).trail.succeeded = true) := by
  have hevaluates : w₁.Evaluates x := by
    rw [evaluates_congr htrackers, evaluates_opening]
    exact Or.inl rfl
  have hpop : (w₁.mapTracker t (·.pop)).page record x = w₁.page record x := by
    cases x <;> rfl
  cases r with
  | ok value =>
    have hpage : (w₁.closing application t x (.ok value)).page record x
        = (w₁.page record x).settle := by
      rw [← hpop]
      exact page_settle hx hrecord _
    rw [hpage]
    exact ⟨h.agrees.settle hevaluates, fun _ _ _ _ => rfl⟩
  | error error =>
    have hpage : (w₁.closing application t x (.error error)).page record x
        = (w₁.page record x).merge := by
      rw [← hpop]
      exact page_merge hx hrecord _
    rw [hpage]
    refine ⟨h.agrees.merge hevaluates, ?_⟩
    rintro (hmade | ⟨_, hr⟩) id hid hended
    · have hover₁ : ¬ w₁.IsOver x := by
        intro hw
        refine hended ?_
        change ((w₁.closing application t x (.error error)).page record x).ended
        rw [hpage]
        exact hw
      rcases h.fresh id hid hover₁ with hsucceeded | hempty | hmaking
      · exact hsucceeded
      · exact absurd hevaluates hempty.2.2
      · exact absurd hmade hmaking.1
    · cases hr

theorem World.InOrder.closing_success {w₁ : World Code Memory} (h : w₁.InOrder record x made)
    (hidle : ¬ w.Evaluates x) (t : TrackerId)
    (htrackers : ∀ j, w₁.tracker j = (w.opening application t x).tracker j)
    (r : Except Error Value) (hr : made ∨ (∃ value, r = .ok value) ∨ ∀ id, x ≠ .watcher id)
    (made' : Prop) : (w₁.closing application t x r).InOrder record x made' := by
  have hevaluates : ¬ (w₁.closing application t x r).Evaluates x := by
    rw [evaluates_congr (tracker_closing w₁ t r htrackers)]
    exact hidle
  obtain ⟨hagrees, hsucceeded⟩ := h.closing_self hx hrecord hidle t htrackers r
  constructor
  · rw [eq_false hevaluates]
    exact hagrees
  · intro id hid hended
    refine Or.inl (hsucceeded ?_ id hid hended)
    rcases hr with hmade | hok | hother
    · exact Or.inl hmade
    · exact Or.inr hok
    · exact absurd hid (hother id)

omit hrecord in
/-- An evaluation that meets no source leaves an empty list empty. -/
theorem World.current_closing_opening (hcurrent : (w.dependencies x).current = []) (t : TrackerId)
    (r : Except Error Value) :
    (((w.opening application t x).closing application t x r).dependencies x).current = [] := by
  have hopening : (w.opening application t x).dependencies x = (w.dependencies x).begin := by
    have h := dependencies_mapDependencies_self hx w (·.begin)
    rw [← h]
    exact dependencies_congr rfl rfl
  have hpop : ((w.opening application t x).mapTracker t (·.pop)).dependencies x
      = (w.dependencies x).begin := by
    rw [← hopening]
    exact dependencies_congr rfl rfl
  cases r with
  | ok value =>
    rw [closing, dependencies_note, settle_eq]
    have h := dependencies_mapDependencies_self hx ((w.opening application t x).mapTracker t (·.pop))
      (·.settle)
    rw [hpop] at h
    exact congrArg Dependencies.current h
  | error error =>
    rw [closing, dependencies_note, dependencies_mapDependencies_self hx, hpop]
    simp [Dependencies.begin, Dependencies.merge, hcurrent]

end Steps

/-! ### Reading as a whole -/

namespace Setting

/-- The embedder holds a view model all the time. -/
def Holds (application : Application Code Memory) (owner : ViewModelId) : Prop :=
  ∀ memory, Ref.viewModel owner ∈ application.holds memory

/-- Reading as one likes, on the view model that a getter belongs to and on those that the embedder
holds. -/
def liberal (application : Application Code Memory) (owner? : Option ViewModelId) : Manner :=
  .free fun owner => owner? = some owner ∨ Holds application owner

/-- All computed properties are in scope, and every getter reads as it likes. -/
def whole (application : Application Code Memory) (start : World Code Memory) :
    Setting Code Memory where
  application := application
  scope _ := True
  manner id := liberal application (start.computed id).getter.owner?
  lives owner := start.alive (application.holds start.memory) (.viewModel owner) = true

theorem along_whole {α : Type} (v : View) (start w : World Code Memory) (q : Query α) :
    v.Along ((whole application start).Asks w) q := by
  induction q with
  | done result => trivial
  | ask what next inductionHypothesis =>
    exact ⟨fun _ _ => trivial, fun a _ => inductionHypothesis a⟩

theorem fits_whole (hquiet : ∀ o w, application.holds (application.notes o w)
      = application.holds w.memory)
    (hreads : ∀ code owner?, (application.getter code owner?).Reads (liberal application owner?))
    (start : World Code Memory) : (whole application start).Fits start where
  quiet := hquiet
  reads _ _ := hreads _ _
  owner _ _ owner howner := by
    refine howner.imp_right fun hholds => ?_
    exact (start.alive_viewModel _ owner).mpr (Or.inl (hholds start.memory))
  home _ _ _ _ := trivial
  closed _ _ := along_whole _ start start _

theorem phase_whole (start : World Code Memory) : (whole application start).Phase start start where
  data := .refl start
  bases _ := rfl
  kept _ _ h := h
  told _ _ _ h := (View.tells_computed_of_known ((view_known trivial).trans h)).mpr rfl
  lives _ _ _ _ := Iff.rfl

variable {s : Setting Code Memory} {start : World Code Memory} {α : Type}

/-- Whatever a step that reads ends in, the books stay in order. -/
def Tidy (s : Setting Code Memory) (start : World Code Memory) (record : Memory → List Occurrence)
    (x : Subscriber) (made : Prop) (m : Manner) {α : Type} (q : Query α)
    (a b : Engine Code Memory α) : Prop :=
  (∀ owner, m.owner owner → s.lives owner) → ∀ w, s.Phase start w →
    (s.view start).Above (fun id => w.Evaluates (.computed id)) q → w.InOrder record x made →
    Ends w a b fun r w' => s.Reads start q w r w' ∧ w'.InOrder record x made

/-- Programs that only read keep the books in order when the engines run them. -/
def TidyRun (s : Setting Code Memory) (start : World Code Memory) (record : Memory → List Occurrence)
    (x : Subscriber) (made : Prop) (c d : Reentry Code Memory) : Prop :=
  ∀ (m : Manner) {α : Type} (program : Program Code Memory α), program.Reads m →
    (∀ owner, m.owner owner → m.reader (some (start.viewModel owner).tracker)) →
    s.Tidy start record x made m (program.query start) (c.run program) (d.run program)

section Tidy

variable (hfits : s.Fits start) (hscope : ∀ id, s.scope id)
  (hc : c.application = s.application) (hd : d.application = s.application)
  (hx : ∀ id, x ≠ .probe id) (hrecord : s.application.Records record)

omit [Inhabited Code] in
theorem evaluates_eq (h : ∀ j, w'.tracker j = w.tracker j) :
    (fun id => w'.Evaluates (.computed id)) = fun id => w.Evaluates (.computed id) := by
  funext id
  exact propext (evaluates_congr h)

theorem inOrder_held (h : w.InOrder record x made) (held : List Ref) :
    ({ w with held } : World Code Memory).InOrder record x made :=
  Unmoved.inOrder (unmoved_of_eq rfl rfl rfl rfl rfl : Unmoved record x w { w with held }) h

/-- Keeping things alive that are no view models makes no difference. -/
theorem tidy_keeping {q : Query α} {a b : Engine Code Memory α} (refs : List Ref)
    (hrefs : ∀ owner, Ref.viewModel owner ∈ refs → s.lives owner) (hw : s.Phase start w)
    (habove : (s.view start).Above (fun id => w.Evaluates (.computed id)) q)
    (h : w.InOrder record x made)
    (hab : ∀ w, s.Phase start w → (s.view start).Above (fun id => w.Evaluates (.computed id)) q →
      w.InOrder record x made →
      Ends w a b fun r w' => s.Reads start q w r w' ∧ w'.InOrder record x made) :
    Ends w (keeping refs a) (keeping refs b) fun r w' =>
      s.Reads start q w r w' ∧ w'.InOrder record x made := by
  refine Ends.keeping refs (hab _ (hw.hold refs hrefs) habove (inOrder_held h _)) ?_
  rintro r w' ⟨hr, hw'⟩
  refine ⟨⟨hr.gives, hw.putBack hr.phase hr.rests.holds, ?_⟩, inOrder_held hw' _⟩
  exact ⟨hr.rests.trackers, rfl, hr.rests.holds, hr.rests.watchers⟩

include hfits hscope hc hd hx hrecord

omit hx in
/-- The getter of a computed property that is being evaluated. -/
theorem tidy_runGetter (hrun : s.TidyRun start record x made c d) {id : ComputedId}
    (hw : s.Phase start w)
    (habove : (s.view start).Above (fun id => w.Evaluates (.computed id)) ((s.view start).query id))
    (h : w.InOrder record x made) :
    Ends w (runGetter c id) (runGetter d id) fun _ w' =>
      w'.InOrder record x made ∧ ∀ j, w'.tracker j = w.tracker j := by
  have hcomputing : (w.computing s.application id).InOrder record x made := by
    refine Unmoved.inOrder (Unmoved.trans ?_ (unmoved_note hrecord _ fun _ => rfl)) h
    exact unmoved_mapComputed w id fun _ => rfl
  refine hw.ends_runGetter hfits hc hd (hscope id) ?_ (fun _ => ⟨hcomputing, fun _ => rfl⟩) ?_
  · intro r w' held hw'
    exact ⟨inOrder_held hw'.1 held, hw'.2⟩
  · rintro hquery howner w' hw' ⟨held, rfl⟩
    rw [hquery] at habove
    refine (hrun _ _ (hfits.reads id (hscope id)) (hfits.home id (hscope id)) howner _ hw' habove
      (inOrder_held hcomputing held)).mono fun r w'' hr => ⟨hr.2, hr.1.rests.trackers⟩

theorem tidy_memoizedValue (hsound : s.SoundRun start c)
    (hrun : s.TidyRun start record x made c d) {id : ComputedId} (hw : s.Phase start w)
    (hmemoize : (w.computed id).memoize = true)
    (habove : (s.view start).Above (fun id => w.Evaluates (.computed id))
      (.ask (.computed id) .done : Query Value))
    (h : w.InOrder record x made) :
    Ends w (memoizedValue c id) (memoizedValue d id) fun r w' =>
      s.Reads start (.ask (.computed id) .done) w r w' ∧ w'.InOrder record x made := by
  refine (sound_memoizedValue hfits hc hsound (hscope id) hw hmemoize).given fun r w' hr => ?_
  obtain ⟨a, hanswer, -⟩ := View.gives_ask.mp hr.gives
  rw [memoizedValue, memoizedValue, ends_inspect_bind]
  cases hcache : (w.computed id).cache with
  | some value => exact (ends_pure value).mpr h
  | none =>
    have hunknown : (s.view start).known id = none :=
      hw.unseen (by rw [Computed.known?, if_pos hmemoize, hcache])
    have hidle : ¬ w.Evaluates (.computed id) := habove.not_evaluating hanswer
    have hinner := habove.enter hunknown
    have hopening : (w.opening s.application (w.computed id).tracker (.computed id)).InOrder
        record x made := by
      by_cases hid : Subscriber.computed id = x
      · subst hid
        have hagrees := h.agrees
        rw [eq_false hidle] at hagrees
        refine inOrder_opening_self hx hrecord hagrees ?_ ?_ _
        · rintro ⟨j, hj, -⟩
          cases hj
        · intro _ j hj
          cases hj
      · exact h.opening_other hrecord hid _
    have hphase : s.Phase start
        (w.opening s.application (w.computed id).tracker (.computed id)) :=
      (hw.aside ((World.aside_mapDependencies w _ _).trans
        (World.aside_note hfits.quiet _ _))).mapTracker _ _
    have hevaluates : (fun other => (w.opening s.application (w.computed id).tracker
        (.computed id)).Evaluates (.computed other))
        = fun other => other = id ∨ w.Evaluates (.computed other) := by
      funext other
      rw [evaluates_opening, Subscriber.computed.injEq, @eq_comm _ id other]
    rw [← hevaluates] at hinner
    refine Ends.bind (R := fun _ w' => w'.InOrder record x made) ?_ ?_ fun _ _ hw' => hw'
    · refine ends_evaluate (hd.trans hc.symm) _ _ (hc ▸ tidy_runGetter hfits hscope hc hd hrecord
        hrun hphase hinner hopening) fun r w' hw' => ?_
      rw [hc]
      by_cases hid : Subscriber.computed id = x
      · subst hid
        refine hw'.1.closing_success hx hrecord hidle _ hw'.2 r (Or.inr (Or.inr ?_)) made
        exact fun j hj => by cases hj
      · exact hw'.1.closing_other hrecord hid _ hw'.2 r
    · intro value w' hw'
      rw [ends_update_bind, ends_pure]
      refine Unmoved.inOrder ?_ hw'
      exact unmoved_mapComputed w' id fun _ => rfl

theorem tidy_readComputed (hsound : s.SoundRun start c)
    (hrun : s.TidyRun start record x made c d) {id : ComputedId} (reader : Option TrackerId)
    (hw : s.Phase start w)
    (habove : (s.view start).Above (fun id => w.Evaluates (.computed id))
      (.ask (.computed id) .done : Query Value))
    (h : w.InOrder record x made) :
    Ends w (readComputed c id reader) (readComputed d id reader) fun r w' =>
      s.Reads start (.ask (.computed id) .done) w r w' ∧ w'.InOrder record x made := by
  refine tidy_keeping _ (by simp) hw habove h fun w hw habove h => ?_
  rw [ends_inspect_bind]
  cases hmemoize : (w.computed id).memoize with
  | true =>
    have hdepend := (inOrder_depend hx hrecord hc hd h reader (w.computed id).source).and
      (aside_depend hfits hc reader (w.computed id).source w)
    refine hdepend.bind ?_ ?_
    · rintro - w' ⟨⟨-, hw'⟩, -, haside⟩
      have hmemoize' : (w'.computed id).memoize = true := by
        rw [← hmemoize]
        exact Computed.memoize_eq_of_base_eq (Computed.base_eq_of_face_eq (haside.computeds id))
      rw [← evaluates_eq haside.trackers] at habove
      refine (tidy_memoizedValue hfits hscope hc hd hx hrecord hsound hrun (hw.aside haside)
        hmemoize' habove hw').mono ?_
      intro r w'' hr
      exact ⟨hr.1.after haside.toRests, hr.2⟩
    · rintro e w' ⟨⟨he, -⟩, -⟩
      cases he
  | false =>
    have hunknown : (s.view start).known id = none :=
      hw.unseen (by rw [Computed.known?, hmemoize]; rfl)
    have hinner : (s.view start).Above (fun id => w.Evaluates (.computed id))
        ((s.view start).query id) := by
      intro other hother n hn
      exact habove.enter hunknown other (Or.inr hother) n hn
    refine ((tidy_runGetter hfits hscope hc hd hrecord hrun hw hinner h).and
      (sound_runGetter hfits hc hsound (hscope id) hw)).mono fun r w' hr => ⟨⟨?_, ?_, ?_⟩, hr.1.1⟩
    · exact View.gives_ask.mpr ⟨r, (View.tells_computed_of_unknown hunknown).mpr hr.2.gives,
        View.gives_done.mpr rfl⟩
    · exact hr.2.phase
    · exact hr.2.rests

theorem tidy_readSlot (hsound : s.SoundRun start c)
    (hrun : s.TidyRun start record x made c d) {object : ObjectId} {key : String}
    (holder : ObjectId) (name : String) (reader : Option TrackerId) (hw : s.Phase start w)
    {slot : Option Slot} (hslot : (s.view start).slot object key = slot)
    (habove : (s.view start).Above (fun id => w.Evaluates (.computed id))
      (Query.property object key))
    (h : w.InOrder record x made) :
    Ends w (readSlot c holder name reader slot) (readSlot d holder name reader slot) fun _ w' =>
      w'.InOrder record x made := by
  cases slot with
  | none =>
    rw [readSlot, readSlot, ends_inspect_bind]
    split
    · rw [ends_create_bind]
      have hawait : (w.await holder name).2.InOrder record x made := by
        unfold World.await
        split
        · exact h
        · exact Unmoved.inOrder ((unmoved_addSource w).trans (unmoved_of_eq rfl rfl rfl rfl rfl)) h
      refine (inOrder_depend hx hrecord hc hd hawait reader _).bind ?_ ?_
      · rintro - w' ⟨-, hw'⟩
        exact (ends_pure _).mpr hw'
      · rintro e w' ⟨he, -⟩
        cases he
    · exact (ends_pure _).mpr h
  | some slot =>
    cases slot with
    | field value source =>
      cases source with
      | none => exact (ends_pure value).mpr h
      | some source =>
        refine (inOrder_depend hx hrecord hc hd h reader source).bind ?_ ?_
        · rintro - w' ⟨-, hw'⟩
          exact (ends_pure value).mpr hw'
        · rintro e w' ⟨he, -⟩
          cases he
    | constant value => exact (ends_pure value).mpr h
    | proxy target other => exact (ends_pure Value.undefined).mpr h
    | computed id =>
      exact (tidy_readComputed hfits hscope hc hd hx hrecord hsound hrun reader hw
        (habove.property hslot) h).mono fun r w' hr => hr.2

/-- Reading a property keeps the books in order. -/
theorem tidy_get (hsound : s.SoundRun start c) (hrun : s.TidyRun start record x made c d)
    {object : ObjectId} {key : String} (reader : Option TrackerId) (hw : s.Phase start w)
    (habove : (s.view start).Above (fun id => w.Evaluates (.computed id))
      (Query.property object key))
    (h : w.InOrder record x made) :
    Ends w (Engine.get c object key reader) (Engine.get d object key reader) fun r w' =>
      s.Reads start (Query.property object key) w r w' ∧ w'.InOrder record x made := by
  have hasks : s.Asks start (.property object key) := fun id _ => hscope id
  rw [Engine.get, Engine.get, ends_inspect_bind]
  refine tidy_keeping _ (by simp) hw habove h fun w' hw' habove h => ?_
  rw [ends_inspect_bind]
  have hslot : (s.view start).slot object key
      = (w'.object (w.resolve object key).1).slot? (w.resolve object key).2 := by
    change start.slotAt object key = _
    rw [World.slotAt, hw.data.resolve_eq, Object.slot?, Object.slot?, hw'.data.slots]
  exact ((tidy_readSlot hfits hscope hc hd hx hrecord hsound hrun _ _ reader hw' hslot habove h).and
    (sound_readSlot hfits hc hsound hasks _ _ reader hw' hslot)).mono fun r w'' hr => hr.symm

/-- The rules of reading, from a supervision that the order of the books vouches for. -/
theorem tidy_rules (hsound : s.SoundRun start c) (hrun : s.TidyRun start record x made c d)
    (P : Moment Code Memory → World Code Memory → Prop)
    {P' : Moment Code Memory → World Code Memory → Prop}
    (hP' : ∀ moment w, w.InOrder record x made → P' moment w) :
    ReadingRules c d P P' start (s.Tidy start record x made) where
  done result := by
    intro _ w hw _ h
    rw [ends_ofExcept]
    exact ⟨⟨View.gives_done.mpr rfl, hw, .refl w⟩, h⟩
  andThen hq hnext := by
    intro howner w hw habove h
    refine (hq howner w hw habove.first h).attempt_bind fun r w' hr => ?_
    have hrest := habove.rest hr.1.gives
    rw [← evaluates_eq hr.1.rests.trackers] at hrest
    refine (hnext r howner w' hr.1.phase hrest hr.2).mono fun r' w'' hr' => ⟨?_, hr'.2⟩
    exact ⟨View.gives_andThen.mpr ⟨r, hr.1.gives, hr'.1.gives⟩, hr'.1.phase,
      hr.1.rests.trans hr'.1.rests⟩
  keeping refs hrefs hq := by
    intro howner w hw habove h
    exact tidy_keeping refs
      (fun owner hmem => howner owner (hrefs owner hmem)) hw habove h (hq howner)
  paused t _ hq := by
    intro howner w hw habove h
    have hpush : Unmoved record x w (w.mapTracker t (·.push none)) :=
      unmoved_mapTracker w t (by simp [Tracker.push])
    have hevaluates : (fun id => (w.mapTracker t (·.push none)).Evaluates (.computed id))
        = fun id => w.Evaluates (.computed id) := by
      funext id
      exact propext ((evaluates_push w t none).trans (or_iff_right (by simp)))
    rw [← hevaluates] at habove
    refine Ends.framed t none (hq howner _ (hw.mapTracker t _) habove (hpush.inOrder h)) ?_
    rintro r w' ⟨hr, hw'⟩
    have hback := World.tracker_pop_push w t none w' hr.rests.trackers
    refine ⟨⟨hr.gives, hr.phase.mapTracker t _, ?_⟩, Unmoved.inOrder ?_ hw'⟩
    · exact ⟨hback, hr.rests.held, hr.rests.holds, hr.rests.watchers⟩
    · refine unmoved_mapTracker w' t ?_
      rw [hr.rests.trackers, tracker_mapTracker, if_pos rfl]
      simp [Tracker.push, Tracker.pop]
  moment moment hq := by
    intro howner w hw habove h
    exact Ends.under (fun _ => hP' moment w h) fun _ => hq howner w hw habove h
  congr hcongr hq := by
    intro howner w hw habove h r w' hr
    rw [(hcongr w hw.data).1] at hr
    rw [(hcongr w hw.data).2]
    exact hq howner w hw habove h r w' hr
  property object key := by
    intro reader _ _ w hw habove h
    exact tidy_get hfits hscope hc hd hx hrecord hsound hrun reader hw habove h
  computed id := by
    intro reader _ _ w hw habove h
    exact tidy_readComputed hfits hscope hc hd hx hrecord hsound hrun reader hw habove h

omit hc hd in
/-- Programs that only read keep the books in order at any depth. -/
theorem tidyRun_reentryUnder (P : Proviso Code Memory) {P' : Proviso Code Memory}
    (hP' : ∀ waiting moment w, w.InOrder record x made → P' waiting moment w) (depth : Nat)
    (waiting : List Subscriber) :
    s.TidyRun start record x made (reentryUnder P s.application depth waiting)
      (reentryUnder P' s.application depth waiting) := by
  induction depth with
  | zero =>
    intro m α program _ _ _ w _ _ _
    exact ends_exhausted _
  | succ depth inductionHypothesis =>
    intro m α program hreads hhome
    have hc : ∀ P : Proviso Code Memory,
        (reentryUnder P s.application depth waiting).application = s.application :=
      (application_reentryUnder · depth waiting)
    exact (tidy_rules hfits hscope (hc P) (hc P') hx hrecord
      (soundRun_reentryUnder hfits P depth waiting) inductionHypothesis (P waiting)
      (hP' waiting)).follow hhome hreads

end Tidy

end Setting

end ViewBinding
