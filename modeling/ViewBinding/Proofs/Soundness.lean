import ViewBinding.Proofs.Phase

/-!
# Reading is sound

One rule for each step that reading is made of, and from them, by induction on the depth, the soundness
of every program that only reads.
-/

namespace ViewBinding.Setting

open Engine

variable {Code Memory : Type} [Inhabited Code]
variable {s : Setting Code Memory} {start w w' : World Code Memory} {α β : Type}

theorem Reads.after {q : Query α} {r : Except Error α} {w₁ : World Code Memory}
    (h : s.Reads start q w₁ r w') (hw : World.Rests s.application.holds w w₁) :
    s.Reads start q w r w' :=
  ⟨h.gives, h.phase, hw.trans h.rests⟩

/-- Programs that only read are sound when the engine runs them. -/
def SoundRun (s : Setting Code Memory) (start : World Code Memory) (c : Reentry Code Memory) : Prop :=
  ∀ (m : Manner) {α : Type} (program : Program Code Memory α), program.Reads m →
    (∀ owner, m.owner owner → m.reader (some (start.viewModel owner).tracker)) →
    s.Sound start m (program.query start) (c.run program) (c.run program)

variable {c : Reentry Code Memory}

/-! ### The steps of reading a computed property -/

theorem aside_depend (hfits : s.Fits start) (hc : c.application = s.application)
    (reader : Option TrackerId) (source : SourceId) (w : World Code Memory) :
    Ends w (depend c reader source) (depend c reader source) fun r w' =>
      r = .ok () ∧ World.Aside s.application.holds w w' := by
  rw [depend, ends_update]
  refine ⟨rfl, ?_⟩
  cases w.current? reader with
  | none => exact .refl w
  | some subscriber =>
    rw [hc]
    exact ((World.aside_sources w _).trans (World.aside_mapDependencies _ subscriber _)).trans
      (World.aside_note hfits.quiet _ _)

/-- The getter of a property in the scope ends as its query does. -/
theorem sound_runGetter (hfits : s.Fits start) (hc : c.application = s.application)
    (hrun : s.SoundRun start c) {id : ComputedId} (hid : s.scope id) (hw : s.Phase start w) :
    Ends w (runGetter c id) (runGetter c id) (s.Reads start ((s.view start).query id) w) := by
  have hreads := hfits.reads id hid
  have howner := hfits.owner id hid
  have hclosed := hfits.closed id hid
  have hhome := hfits.home id hid
  rw [runGetter, ends_update_bind, note, ends_update_bind, ends_inspect_bind, hc]
  have hcount : World.Aside s.application.holds w _ := World.aside_count w id
  have hnote := hcount.trans (World.aside_note hfits.quiet _ (.computing id))
  have hphase := hw.aside hnote
  rw [hphase.getter id]
  cases hgetter : (start.computed id).getter with
  | free code =>
    have hquery : (s.view start).query id = (s.application.getter code none).query start := by
      rw [view_query hid (by simp [hgetter, Getter.owner?]), program, hgetter]
      rfl
    rw [program, hgetter] at hreads
    rw [hquery] at hclosed ⊢
    refine (hrun _ _ hreads hhome ?_ hclosed _ hphase).mono fun r w' h => h.after hnote.toRests
    intro owner h
    rcases howner owner h with howner | hlives
    · rw [hgetter] at howner
      cases howner
    · exact hlives
  | ofViewModel owner code =>
    have howner? : (start.computed id).getter.owner? = some owner := by rw [hgetter]; rfl
    simp only [ends_inspect_bind]
    have hlives := hphase.lives id owner hid howner?
    by_cases halive : s.lives owner
    · rw [if_pos (hlives.mpr halive)]
      have hquery : (s.view start).query id
          = (s.application.getter code (some owner)).query start := by
        rw [view_query hid, program, hgetter]
        · rfl
        · intro other hother
          rw [howner?] at hother
          cases hother
          exact halive
      rw [program, hgetter] at hreads
      rw [hquery] at hclosed ⊢
      refine Ends.keeping _ (hrun _ _ hreads hhome ?_ hclosed _ (hphase.hold _ ?_)) ?_
      · intro other hother
        rcases howner other hother with h | hlives
        · rw [howner?] at h
          cases h
          exact halive
        · exact hlives
      · intro other hother
        simp only [List.mem_singleton, Ref.viewModel.injEq] at hother
        exact hother ▸ halive
      · intro r w' h
        have hholds := h.rests.holds
        refine ⟨h.gives, hphase.putBack h.phase hholds, ?_⟩
        exact hnote.toRests.trans ⟨h.rests.trackers, rfl, hholds, h.rests.watchers⟩
    · rw [if_neg (fun h => halive (hlives.mp h)), ends_throw]
      refine ⟨?_, hphase, hnote.toRests⟩
      rw [view_query_detached hid howner? halive]
      exact View.gives_done.mpr rfl

/-- An evaluation ends as what it evaluates does. -/
theorem sound_evaluate (hfits : s.Fits start) (hc : c.application = s.application) {q : Query Value}
    {x : Engine Code Memory Value} (t : TrackerId) (subscriber : Subscriber)
    (hx : ∀ w, s.Phase start w → Ends w x x (s.Reads start q w)) (hw : s.Phase start w) :
    Ends w (evaluate c t subscriber x) (evaluate c t subscriber x) (s.Reads start q w) := by
  rw [evaluate, ends_update_bind, note, ends_update_bind, hc]
  have hbegin : World.Aside s.application.holds w
      ((w.mapDependencies subscriber (·.begin)).note s.application (.evaluating subscriber)) :=
    (World.aside_mapDependencies w subscriber _).trans (World.aside_note hfits.quiet _ _)
  have hphase := hw.aside hbegin
  refine Ends.attempt_bind (Ends.framed t _ (hx _ (hphase.mapTracker t _)) (Q := fun r w' =>
    s.Reads start q w r w') ?_) ?_
  · intro r w' h
    refine ⟨h.gives, h.phase.mapTracker t _, hbegin.toRests.trans ?_⟩
    refine ⟨?_, h.rests.held, h.rests.holds, h.rests.watchers⟩
    exact World.tracker_pop_push _ t _ w' h.rests.trackers
  · intro r w' h
    cases r with
    | ok value =>
      have hend : World.Aside s.application.holds w'
          ((w'.settle subscriber).note s.application (.evaluated subscriber true)) :=
        (World.aside_settle w' subscriber).trans (World.aside_note hfits.quiet _ _)
      rw [ends_update_bind, note, ends_update_bind, hc, ends_pure]
      exact ⟨h.gives, h.phase.aside hend, h.rests.trans hend.toRests⟩
    | error error =>
      have hend : World.Aside s.application.holds w'
          ((w'.mapDependencies subscriber (·.merge)).note s.application
            (.evaluated subscriber false)) :=
        (World.aside_mapDependencies w' subscriber _).trans (World.aside_note hfits.quiet _ _)
      rw [ends_update_bind, note, ends_update_bind, hc, ends_throw]
      exact ⟨h.gives, h.phase.aside hend, h.rests.trans hend.toRests⟩

/-- A value that was computed may be kept. -/
theorem Phase.keep {id : ComputedId} {value : Value} (hw : s.Phase start w)
    (hunknown : (start.computed id).known? = none)
    (hvalue : (s.view start).Tells (.computed id) (.ok value)) :
    s.Phase start (w.mapComputed id fun x => { x with cache := some value }) where
  data := hw.data.trans ⟨rfl, fun _ => rfl, fun _ => rfl, rfl, rfl, rfl, rfl, rfl, rfl⟩
  bases j := by
    rw [World.computed_mapComputed]
    split
    · next hj =>
      subst hj
      exact hw.bases j
    · exact hw.bases j
  kept j other hother := by
    rw [World.computed_mapComputed]
    split
    · next hj =>
      subst hj
      rw [hunknown] at hother
      cases hother
    · exact hw.kept j other hother
  told j other hj hother := by
    rw [World.computed_mapComputed] at hother
    split at hother
    · next heq =>
      subst heq
      simp only [Computed.known?, Option.ite_none_right_eq_some, Option.some.injEq] at hother
      rw [← hother.2]
      exact hvalue
    · exact hw.told j other hj hother
  lives j owner hj howner := by
    rw [← hw.lives j owner hj howner, World.alive_viewModel, World.alive_viewModel]
    rfl

/-- A memoized property in the scope has the value that the start of the phase tells. -/
theorem sound_memoizedValue (hfits : s.Fits start) (hc : c.application = s.application)
    (hrun : s.SoundRun start c) {id : ComputedId} (hid : s.scope id) (hw : s.Phase start w)
    (hmemoize : (w.computed id).memoize = true) :
    Ends w (memoizedValue c id) (memoizedValue c id)
      (s.Reads start (.ask (.computed id) .done) w) := by
  rw [memoizedValue, ends_inspect_bind]
  cases hcache : (w.computed id).cache with
  | some value =>
    have hknown : (w.computed id).known? = some value := by
      rw [Computed.known?, if_pos hmemoize, hcache]
    simp only [ends_pure]
    refine ⟨?_, hw, .refl w⟩
    exact View.gives_ask.mpr ⟨_, hw.told id value hid hknown, View.gives_done.mpr rfl⟩
  | none =>
    have hunknown : (w.computed id).known? = none := by
      rw [Computed.known?, if_pos hmemoize, hcache]
    have htells : ∀ a, (s.view start).Gives ((s.view start).query id) a →
        (s.view start).Tells (.computed id) a := by
      intro a ha
      exact (View.tells_computed_of_unknown (hw.unseen hunknown)).mpr ha
    have hevaluate := sound_evaluate hfits hc (w.computed id).tracker (.computed id)
      (fun _ h => sound_runGetter hfits hc hrun hid h) hw
    refine hevaluate.bind ?_ ?_
    · intro value w' h
      rw [ends_update_bind, ends_pure]
      have hvalue := htells _ h.gives
      refine ⟨View.gives_ask.mpr ⟨_, hvalue, View.gives_done.mpr rfl⟩, ?_, ?_⟩
      · exact h.phase.keep (hw.unknown hunknown) hvalue
      · exact h.rests.trans ⟨fun _ => rfl, rfl, rfl, fun _ => rfl⟩
    · intro error w' h
      exact ⟨View.gives_ask.mpr ⟨_, htells _ h.gives, View.gives_done.mpr rfl⟩, h.phase, h.rests⟩

/-- Keeping things alive that are no view models makes no difference. -/
theorem sound_keeping {q : Query α} {x : Engine Code Memory α} (refs : List Ref)
    (hrefs : ∀ owner, Ref.viewModel owner ∈ refs → s.lives owner) (hw : s.Phase start w)
    (hx : ∀ w, s.Phase start w → Ends w x x (s.Reads start q w)) :
    Ends w (keeping refs x) (keeping refs x) (s.Reads start q w) := by
  refine Ends.keeping refs (hx _ (hw.hold refs hrefs)) ?_
  intro r w' h
  exact ⟨h.gives, hw.putBack h.phase h.rests.holds,
    ⟨h.rests.trackers, rfl, h.rests.holds, h.rests.watchers⟩⟩

theorem sound_readComputed (hfits : s.Fits start) (hc : c.application = s.application)
    (hrun : s.SoundRun start c) {id : ComputedId} (hid : s.scope id) (reader : Option TrackerId)
    (hw : s.Phase start w) :
    Ends w (readComputed c id reader) (readComputed c id reader)
      (s.Reads start (.ask (.computed id) .done) w) := by
  refine sound_keeping _ (by simp) hw fun w hw => ?_
  rw [ends_inspect_bind]
  cases hmemoize : (w.computed id).memoize with
  | true =>
    refine (aside_depend hfits hc reader _ w).bind ?_ ?_
    · rintro - w' ⟨-, hdepend⟩
      have hmemoize' : (w'.computed id).memoize = true := by
        rw [← hmemoize]
        exact Computed.memoize_eq_of_base_eq (Computed.base_eq_of_face_eq (hdepend.computeds id))
      refine (sound_memoizedValue hfits hc hrun hid (hw.aside hdepend) hmemoize').mono ?_
      intro r w'' h
      exact h.after hdepend.toRests
    · rintro e w' ⟨he, -⟩
      cases he
  | false =>
    refine (sound_runGetter hfits hc hrun hid hw).mono fun r w' h => ⟨?_, h.phase, h.rests⟩
    have hunknown : (s.view start).known id = none :=
      hw.unseen (by rw [Computed.known?, hmemoize]; rfl)
    exact View.gives_ask.mpr ⟨r, (View.tells_computed_of_unknown hunknown).mpr h.gives,
      View.gives_done.mpr rfl⟩

theorem sound_readSlot (hfits : s.Fits start) (hc : c.application = s.application)
    (hrun : s.SoundRun start c) {object : ObjectId} {key : String}
    (hasks : s.Asks start (.property object key)) (holder : ObjectId) (name : String)
    (reader : Option TrackerId) (hw : s.Phase start w) {slot : Option Slot}
    (hslot : (s.view start).slot object key = slot) :
    Ends w (readSlot c holder name reader slot) (readSlot c holder name reader slot)
      (s.Reads start (Query.property object key) w) := by
  have hgives : ∀ a, (s.view start).Tells (.property object key) a →
      (s.view start).Gives (Query.property object key) a := fun a ha =>
    View.gives_ask.mpr ⟨a, ha, View.gives_done.mpr rfl⟩
  cases slot with
  | none =>
    have hvalue := hgives (.ok .undefined) (View.tells_property.mpr (hslot ▸ rfl))
    rw [readSlot, ends_inspect_bind]
    split
    · next h =>
      rw [Bool.and_eq_true] at h
      rw [ends_create_bind]
      have hawait : World.Aside s.application.holds w _ := World.aside_await w name h.1
      refine (aside_depend hfits hc reader _ _).bind ?_ ?_
      · rintro - w' ⟨-, hdepend⟩
        rw [ends_pure]
        have hall := hawait.trans hdepend
        exact ⟨hvalue, hw.aside hall, hall.toRests⟩
      · rintro e w' ⟨he, -⟩
        cases he
    · rw [ends_pure]
      exact ⟨hvalue, hw, .refl w⟩
  | some slot =>
    cases slot with
    | field value source =>
      have hvalue := hgives (.ok value) (View.tells_property.mpr (hslot ▸ rfl))
      cases source with
      | none => exact (ends_pure value).mpr ⟨hvalue, hw, .refl w⟩
      | some source =>
        refine (aside_depend hfits hc reader source w).bind ?_ ?_
        · rintro - w' ⟨-, hdepend⟩
          rw [ends_pure]
          exact ⟨hvalue, hw.aside hdepend, hdepend.toRests⟩
        · rintro e w' ⟨he, -⟩
          cases he
    | constant value =>
      have hvalue := hgives (.ok value) (View.tells_property.mpr (hslot ▸ rfl))
      exact (ends_pure value).mpr ⟨hvalue, hw, .refl w⟩
    | proxy target other =>
      have hvalue := hgives (.ok .undefined) (View.tells_property.mpr (hslot ▸ rfl))
      exact (ends_pure Value.undefined).mpr ⟨hvalue, hw, .refl w⟩
    | computed id =>
      refine (sound_readComputed hfits hc hrun (hasks id hslot) reader hw).mono ?_
      intro r w' h
      obtain ⟨a, ha, hr⟩ := View.gives_ask.mp h.gives
      rw [View.gives_done] at hr
      refine ⟨hgives r (View.tells_property.mpr ?_), h.phase, h.rests⟩
      rw [hslot, hr]
      exact ha

/-- Reading a property ends as the view tells. -/
theorem sound_get (hfits : s.Fits start) (hc : c.application = s.application)
    (hrun : s.SoundRun start c) {object : ObjectId} {key : String}
    (hasks : s.Asks start (.property object key)) (reader : Option TrackerId)
    (hw : s.Phase start w) :
    Ends w (Engine.get c object key reader) (Engine.get c object key reader)
      (s.Reads start (Query.property object key) w) := by
  rw [Engine.get, ends_inspect_bind]
  refine sound_keeping _ (by simp) hw fun w' hw' => ?_
  rw [ends_inspect_bind]
  refine sound_readSlot hfits hc hrun hasks _ _ reader hw' ?_
  change start.slotAt object key
    = (w'.object (w.resolve object key).1).slot? (w.resolve object key).2
  rw [World.slotAt, hw.data.resolve_eq, Object.slot?, Object.slot?, hw'.data.slots]

/-! ### Everything that only reads -/

theorem sound_rules (hfits : s.Fits start) (hc : c.application = s.application)
    (hrun : s.SoundRun start c) (P : Moment Code Memory → World Code Memory → Prop) :
    ReadingRules c c P P start (s.Sound start) where
  done result := by
    intro _ _ w hw
    exact (ends_ofExcept result).mpr ⟨View.gives_done.mpr rfl, hw, .refl w⟩
  andThen hx hf := by
    intro howner halong w hw
    obtain ⟨hq, hnext⟩ := View.along_andThen.mp halong
    refine (hx howner hq w hw).attempt_bind fun r w' h => ?_
    refine (hf r howner (hnext r h.gives) w' h.phase).mono fun r' w'' h' => ?_
    exact ⟨View.gives_andThen.mpr ⟨r, h.gives, h'.gives⟩, h'.phase, h.rests.trans h'.rests⟩
  keeping refs hrefs hx := by
    intro howner halong w hw
    exact sound_keeping refs (fun owner h => howner owner (hrefs owner h)) hw
      fun w hw => hx howner halong w hw
  paused t _ hx := by
    intro howner halong w hw
    refine Ends.framed t none (hx howner halong _ (hw.mapTracker t _)) fun r w' h => ?_
    refine ⟨h.gives, h.phase.mapTracker t _, ?_, h.rests.held, h.rests.holds, h.rests.watchers⟩
    exact World.tracker_pop_push w t none w' h.rests.trackers
  moment moment hx := by
    intro howner halong w hw
    exact Ends.under (fun h => h) fun _ => hx howner halong w hw
  congr hcongr hx := by
    intro howner halong w hw r w' hr
    rw [(hcongr w hw.data).1] at hr ⊢
    exact hx howner halong w hw r w' hr
  property object key := by
    intro reader _ _ halong w hw
    exact sound_get hfits hc hrun halong.1 reader hw
  computed id := by
    intro reader _ _ halong w hw
    exact sound_readComputed hfits hc hrun (halong.1 id rfl) reader hw

/-- Under any supervision and at any depth, programs that only read are sound. -/
theorem soundRun_reentryUnder (hfits : s.Fits start) (P : Proviso Code Memory) (depth : Nat)
    (waiting : List Subscriber) :
    s.SoundRun start (reentryUnder P s.application depth waiting) := by
  induction depth with
  | zero =>
    intro m α program _ _ _ _ w _
    exact ends_exhausted _
  | succ depth inductionHypothesis =>
    intro m α program hreads hhome
    have hc : (reentryUnder P s.application depth waiting).application = s.application :=
      application_reentryUnder P depth waiting
    exact (sound_rules hfits hc inductionHypothesis (P waiting)).follow hhome hreads

end ViewBinding.Setting
