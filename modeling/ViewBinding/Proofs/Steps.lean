import ViewBinding.Proofs.Soundness

/-!
# The steps of reading, one rule each

What is shown of a reading has to be shown of a source that is met, of a getter that is run, of an
evaluation, and of a value that is kept; nothing else happens. The rules compare two engines with the
same codes, and what they show may be any property that does not look at what is held.
-/

namespace ViewBinding

open Engine

variable {Code Memory : Type} [Inhabited Code]

/-- The world in which a getter runs. -/
def World.computing (w : World Code Memory) (application : Application Code Memory)
    (id : ComputedId) : World Code Memory :=
  (w.mapComputed id fun x => { x with evaluations := x.evaluations + 1 }).note application
    (.computing id)

/-- The world in which a subscriber has met a source. -/
def World.meeting (w : World Code Memory) (application : Application Code Memory) (y : Subscriber)
    (s : SourceId) : World Code Memory :=
  ((w.mapSource s (·.register y)).mapDependencies y (·.record s)).note application (.tracked y s)

/-- The world in which a subscriber evaluates. -/
def World.opening (w : World Code Memory) (application : Application Code Memory) (t : TrackerId)
    (subscriber : Subscriber) : World Code Memory :=
  ((w.mapDependencies subscriber (·.begin)).note application
    (.evaluating subscriber)).mapTracker t (·.push (some subscriber))

/-- The world after a subscriber has evaluated. -/
def World.closing (w : World Code Memory) (application : Application Code Memory) (t : TrackerId)
    (subscriber : Subscriber) : Except Error Value → World Code Memory
  | .ok _ => ((w.mapTracker t (·.pop)).settle subscriber).note application
      (.evaluated subscriber true)
  | .error _ => ((w.mapTracker t (·.pop)).mapDependencies subscriber (·.merge)).note application
      (.evaluated subscriber false)

theorem World.face_mapDependencies (w : World Code Memory) (y : Subscriber)
    (f : Dependencies → Dependencies) (id : WatcherId) :
    ((w.mapDependencies y f).watcher id).face = (w.watcher id).face :=
  (World.aside_mapDependencies w y f : World.Aside (fun _ : Memory => []) w
    (w.mapDependencies y f)).watchers id

/-- Evaluating writes nothing into a watcher but what it depends on. -/
theorem World.face_opening (w : World Code Memory) (application : Application Code Memory)
    (t : TrackerId) (subscriber : Subscriber) (id : WatcherId) :
    ((w.opening application t subscriber).watcher id).face = (w.watcher id).face :=
  World.face_mapDependencies w subscriber _ id

theorem World.face_closing (w : World Code Memory) (application : Application Code Memory)
    (t : TrackerId) (subscriber : Subscriber) (r : Except Error Value) (id : WatcherId) :
    ((w.closing application t subscriber r).watcher id).face = (w.watcher id).face := by
  cases r with
  | ok value =>
    exact (World.aside_settle (w.mapTracker t (·.pop)) subscriber : World.Aside (fun _ : Memory => [])
      _ _).watchers id
  | error error =>
    exact (World.aside_mapDependencies (w.mapTracker t (·.pop)) subscriber _ : World.Aside
      (fun _ : Memory => []) _ _).watchers id

namespace Engine

variable {c d : Reentry Code Memory} {w : World Code Memory} {α : Type}

theorem depend_eq (hd : d.application = c.application) (reader : Option TrackerId)
    (source : SourceId) : depend d reader source = depend c reader source := by
  rw [depend, depend, hd]

/-- An evaluation: what comes before, what is evaluated, and what comes after. -/
theorem ends_evaluate (hd : d.application = c.application) (t : TrackerId) (subscriber : Subscriber)
    {x y : Engine Code Memory Value} {Q R : Except Error Value → World Code Memory → Prop}
    (hx : Ends (w.opening c.application t subscriber) x y R)
    (hR : ∀ r w', R r w' → Q r (w'.closing c.application t subscriber r)) :
    Ends w (evaluate c t subscriber x) (evaluate d t subscriber y) Q := by
  have hnote : ∀ occurrence, note d occurrence = note c occurrence := by
    intro occurrence
    rw [note, note, hd]
  simp only [evaluate, hnote]
  rw [ends_update_bind, note, ends_update_bind]
  refine Ends.attempt_bind (Ends.framed t (some subscriber) hx (Q := fun r w' =>
    ∃ w₁, R r w₁ ∧ w' = w₁.mapTracker t (·.pop)) fun r w' h => ⟨w', h, rfl⟩) ?_
  rintro r w' ⟨w₁, hr, rfl⟩
  cases r with
  | ok value =>
    rw [ends_update_bind, note, ends_update_bind, ends_pure]
    exact hR (.ok value) w₁ hr
  | error error =>
    rw [ends_update_bind, note, ends_update_bind, ends_throw]
    exact hR (.error error) w₁ hr

end Engine

namespace Setting

variable {s : Setting Code Memory} {start w : World Code Memory} {c d : Reentry Code Memory}
  {R : Except Error Value → World Code Memory → Prop}

/-- A property of outcomes that does not look at what is held. -/
def Free (R : Except Error Value → World Code Memory → Prop) : Prop :=
  ∀ r w held, R r w → R r { w with held }

/-- The getter of a property in the scope: that the view model is gone, or the program. -/
theorem Phase.ends_runGetter (hw : s.Phase start w) (hfits : s.Fits start)
    (hc : c.application = s.application) (hd : d.application = s.application) {id : ComputedId}
    (hid : s.scope id) (hfree : Free R)
    (hdetached : (∃ owner, (start.computed id).getter.owner? = some owner ∧ ¬ s.lives owner) →
      R (.error .detached) (w.computing s.application id))
    (hrun : (s.view start).query id = (s.program start id).query start →
      (∀ owner, (s.manner id).owner owner → s.lives owner) →
      ∀ w', s.Phase start w' → (∃ held, w' = { w.computing s.application id with held }) →
      Ends w' (c.run (s.program start id)) (d.run (s.program start id)) R) :
    Ends w (runGetter c id) (runGetter d id) R := by
  simp only [runGetter, note, hc, hd]
  rw [ends_update_bind, ends_update_bind, ends_inspect_bind]
  have hphase : s.Phase start (w.computing s.application id) := hw.aside ((World.aside_count w id).trans
    (World.aside_note hfits.quiet _ (.computing id)))
  have howner := hfits.owner id hid
  have hsame := hphase.getter id
  rw [World.computing] at hsame
  rw [hsame]
  change Ends (w.computing s.application id) _ _ R
  cases hgetter : (start.computed id).getter with
  | free code =>
    have hquery : (s.view start).query id = (s.program start id).query start :=
      view_query hid (by simp [hgetter, Getter.owner?])
    have hprogram : s.program start id = s.application.getter code none := by
      rw [program, hgetter]
      rfl
    simp only [← hprogram]
    refine hrun hquery ?_ _ hphase ⟨_, rfl⟩
    intro owner h
    rcases howner owner h with howner | hlives
    · rw [hgetter] at howner
      cases howner
    · exact hlives
  | ofViewModel owner code =>
    have howner? : (start.computed id).getter.owner? = some owner := by rw [hgetter]; rfl
    have hprogram : s.program start id = s.application.getter code (some owner) := by
      rw [program, hgetter]
      rfl
    simp only [ends_inspect_bind]
    have hlives := hphase.lives id owner hid howner?
    by_cases halive : s.lives owner
    · rw [if_pos (hlives.mpr halive), if_pos (hlives.mpr halive), ← hprogram]
      have hquery : (s.view start).query id = (s.program start id).query start := by
        refine view_query hid fun other hother => ?_
        rw [howner?] at hother
        cases hother
        exact halive
      refine Ends.keeping _ (hrun hquery ?_ _ (hphase.hold _ ?_) ⟨_, rfl⟩) fun r w' h => hfree r w' _ h
      · intro other hother
        rcases howner other hother with h | hlives
        · rw [howner?] at h
          cases h
          exact halive
        · exact hlives
      · intro other hother
        simp only [List.mem_singleton, Ref.viewModel.injEq] at hother
        exact hother ▸ halive
    · have hnot := fun h => halive (hlives.mp h)
      rw [if_neg hnot, if_neg hnot, ends_throw]
      exact hdetached ⟨owner, howner?, halive⟩

end Setting

end ViewBinding
