import ViewBinding.Proofs.Bystanding
import ViewBinding.Proofs.Recalling

/-!
# Engines abreast

Two engines are abreast if their getters only read and are run in the same way. Reading and watching then
go the same way in both of them, and whatever is bound stands by.
-/

namespace ViewBinding

open Engine

variable {Code Memory : Type} [Inhabited Code]

omit [Inhabited Code] in
theorem Registry.find?_standard_ne_custom (kind : DirectiveKind) (code : Code) :
    Registry.standard.find? kind ≠ some (.custom code) := by
  cases kind <;> exact nofun

namespace World

/-- A property of worlds whose watchers are in order, that lasts while what is bound stands by and the
embedder takes notes. -/
structure Lasts (application : Application Code Memory) (I : World Code Memory → Prop) : Prop where
  staffed {w : World Code Memory} : I w → w.Staffed
  noting {w w' : World Code Memory} : w.Bystands w' → w.Recalls application w' → I w → I w'

variable {application : Application Code Memory} {I : World Code Memory → Prop} {w w' : World Code Memory}

omit [Inhabited Code] in
theorem Lasts.bystands (hI : Lasts application I) (h : w.Bystands w') (hmemory : w'.memory = w.memory)
    (hw : I w) : I w' :=
  hI.noting h (recalls_of_eq hmemory) hw

omit [Inhabited Code] in
theorem Lasts.note (hI : Lasts application I) (hw : I w) (occurrence : Occurrence) :
    I (w.note application occurrence) :=
  hI.noting (bystands_note w _ occurrence) (recalls_note w occurrence) hw

omit [Inhabited Code] in
theorem Lasts.margin (hI : Lasts application I) (h : w.Margin w') (hw : I w) : I w' :=
  hI.bystands h.bystands h.fringe.memory hw

theorem Lasts.raises (hI : Lasts application I) (h : w.Raises w') (hw : I w) : I w' :=
  hI.bystands h.bystands h.memory hw

end World

namespace Engine

/-- Two engines in which getters only read, and are run in the same way. -/
structure Abreast (application : Application Code Memory) (c d : Reentry Code Memory) : Prop where
  quiet : ∀ o w, application.holds (application.notes o w) = application.holds w.memory
  left : c.application = application
  right : d.application = application
  depth : d.depth = c.depth
  getter (id : ComputedId) : runGetter d id = runGetter c id
  browsing (start : World Code Memory) (id : ComputedId) :
    Browsing application.holds False start (runGetter c id)
  recalling (start : World Code Memory) : Rereads application (start.Recalls application) c c

namespace Abreast

variable {application : Application Code Memory} {c d : Reentry Code Memory}
  {I : World Code Memory → Prop} {w : World Code Memory} {α : Type}

theorem same (h : Abreast application c d) : d.application = c.application :=
  h.right.trans h.left.symm

theorem self (h : Abreast application c d) : Abreast application c c :=
  ⟨h.quiet, h.left, h.left, rfl, fun _ => rfl, h.browsing, h.recalling⟩

theorem relies (h : Abreast application c d) (w : World Code Memory) : Relies application False c w :=
  ⟨h.left, h.quiet, fun _ => h.browsing _⟩

/-! ### Reading and watching -/

section Reading

variable (hI : World.Lasts application I) (h : Abreast application c d)

include hI h

omit h in
theorem keeps_of_browsing {x : Engine Code Memory α}
    (hx : ∀ start, Browsing application.holds False start x)
    (hrecalls : ∀ start : World Code Memory, Keeps (start.Recalls application) x x) : Keeps I x x := by
  intro w hw
  have hmeanwhile : w.Meanwhile w := ⟨.refl w, fun _ => rfl, (hI.staffed hw).manned⟩
  exact ((hx w w hmeanwhile).ends.and (hrecalls w w (World.recalls_of_eq rfl))).mono
    fun _ _ ⟨hbrowses, hrecalls⟩ => hI.noting hbrowses.bystands hrecalls hw

theorem readComputed (id : ComputedId) (reader : Option TrackerId) :
    Keeps I (readComputed c id reader) (readComputed d id reader) := by
  rw [readComputed_congr h.same h.getter]
  exact keeps_of_browsing hI
    (fun start => browsing_readComputed h.quiet h.left (h.browsing start) id reader)
    fun start => (h.recalling start).readComputed (peruses_recalls _ _) id reader

theorem depend (reader : Option TrackerId) (source : SourceId) :
    Keeps I (depend c reader source) (depend d reader source) := by
  rw [depend_eq h.same]
  exact keeps_of_browsing hI (fun _ => browsing_depend h.quiet h.left reader source)
    fun start => (h.recalling start).depend (peruses_recalls _ _) reader source

theorem note (occurrence : Occurrence) : Keeps I (note c occurrence) (note d occurrence) := by
  rw [Engine.note, Engine.note, h.left, h.right]
  exact Keeps.update fun _ hw => hI.note hw occurrence

theorem perusal : Perusal I c d where
  application := h.same
  held held hw := hI.bystands (World.bystands_held _ held) rfl hw
  pausing t _ _ hx w hw := by
    have hpushed : I (w.mapTracker t (·.push none)) := hI.bystands (World.bystands_push w t fun _ => nofun) rfl hw
    exact Ends.framed t none (hx _ hpushed) fun _ w' hw' => hI.bystands (World.bystands_pop w' t) rfl hw'
  get object key reader := by
    rw [get_congr h.same h.getter]
    exact keeps_of_browsing hI
      (fun start => browsing_get h.quiet h.left (h.browsing start) object key reader)
      fun start => (h.recalling start).get (peruses_recalls _ _) object key reader

/-- A watcher that was not torn down may evaluate. -/
theorem evaluateWatcher (hw : I w) {x : WatcherId} (hdisposed : (w.watcher x).disposed = false) :
    Ends w (evaluateWatcher c x) (evaluateWatcher d x) fun _ => I := by
  rw [evaluateWatcher_congr h.same h.getter]
  have hstaffed := hI.staffed hw
  suffices hstands : Ends w (Engine.evaluateWatcher c x) (Engine.evaluateWatcher c x)
      fun _ w' => w.Bystands w' from
    (hstands.and ((h.recalling w).evaluateWatcher (peruses_recalls _ _) x w (World.recalls_of_eq rfl))).mono
      fun _ _ ⟨hbystands, hrecalls⟩ => hI.noting hbystands hrecalls hw
  by_cases hlt : x.index < w.watchers.size
  · have hserves : w.Serves x := (hstaffed.fit x).resolve_right fun hretired => by
      rw [hretired.1] at hdisposed
      cases hdisposed
    refine (achieves_evaluateWatcher (h.relies w) (.refl w) hstaffed.manned hlt hserves.2).ends.mono ?_
    rintro _ w' ⟨hspares, hcurrent⟩
    refine hspares.bystands ?_
    rintro y (hy | rfl) -
    · exact absurd hy (hstaffed.idle y)
    · exact Or.inl ⟨(congrArg Watcher.disposed (hspares.watchers y)).trans hdisposed, hcurrent⟩
  · have hunmade := Nat.le_of_not_lt hlt
    have hroot : (w.watcher x).root = .undefined := by
      rw [World.watcher, w.watchers.get_of_size_le hunmade]
      rfl
    rw [Engine.evaluateWatcher, ends_inspect_bind, hroot]
    obtain ⟨result, hresult, -⟩ := readPath_undefined c (w.watcher x).path (some (w.watcher x).tracker)
    rw [hresult]
    refine ends_evaluate rfl _ _ (R := fun _ w' => w' = w.opening c.application _ _)
      ((ends_ofExcept _).mpr rfl) ?_
    rintro r w' rfl
    exact World.bystands_unmade hstaffed hunmade c.application _ r

theorem watch (t : TrackerId) (root : Value) (path : Path) (reaction : Reaction Code) :
    Keeps I (watch c t root path reaction) (watch d t root path reaction) := by
  intro w hw
  let row : Watcher Code := { tracker := t, root, path, reaction }
  rw [Engine.watch, Engine.watch, ends_create_bind]
  have hheld : ∀ v held, I v → I { v with held } := fun v held =>
    hI.bystands (World.bystands_held v held) rfl
  have hnew : I (w.addWatcher row).2 := hI.bystands (World.bystands_addWatcher w rfl) rfl hw
  have hadded := hheld _ ([.watcher w.watchers.fresh] ++ w.held) hnew
  have hrow : (w.addWatcher row).2.watcher w.watchers.fresh = row := Table.get_add_fresh w.watchers row
  refine Ends.keeping _ (R := fun _ => I) ?_ fun _ v hv => hheld v _ hv
  refine (h.evaluateWatcher hI hadded (congrArg Watcher.disposed hrow)).attempt_bind fun r v hv => ?_
  cases r with
  | ok value =>
    rw [ends_update_bind, ends_pure]
    exact hI.bystands (World.bystands_mapWatcher v _ (fun _ => rfl) (fun _ => rfl) fun _ => rfl) rfl hv
  | error error =>
    rw [ends_update_bind, ends_throw]
    exact hI.bystands (World.bystands_teardownWatcher v _) (World.memory_teardownWatcher v _) hv

theorem fitting (hfringe : ∀ {w w' : World Code Memory}, w.Fringe w' → I w → I w') : Fitting I c d where
  toPerusal := h.perusal hI
  fringe hw' _ := hfringe hw'
  watch := h.watch hI

/-- Binding nodes goes the same way, too, and keeps what changes of the fringe keep. -/
theorem mounting (hfringe : ∀ {w w' : World Code Memory}, w.Fringe w' → I w → I w') : Mounting I c d where
  toFitting := h.fitting hI hfringe
  depth := h.depth
  installRender owner node kind updater path := (h.fitting hI hfringe).installRender owner node kind updater path
    fun {w} value => hfringe (World.fringe_display w updater node value)
  installInterpolation node _ := (h.fitting hI hfringe).installInterpolation _ node _
    (fun {w} content => hfringe (World.fringe_setText w node content)) _
  teardown w id hw :=
    hI.bystands (World.bystands_teardownWatcher w id) (World.memory_teardownWatcher w id) hw
  install _ hfind hw :=
    absurd ((hI.staffed hw).installers _ _ _ hfind) (Registry.find?_standard_ne_custom _ _)

end Reading

/-- The watchers are in order, and the memory is as it was, but for notes. -/
def Upright (application : Application Code Memory) (start w : World Code Memory) : Prop :=
  w.Staffed ∧ start.Recalls application w

omit [Inhabited Code] in
theorem lasts_upright (application : Application Code Memory) (start : World Code Memory) :
    World.Lasts application (Upright application start) where
  staffed hw := hw.1
  noting h hrecalls hw := ⟨h.staffed hw.1, hw.2.trans hrecalls⟩

omit [Inhabited Code] in
theorem upright_self (h : w.Staffed) : Upright application w w :=
  ⟨h, World.recalls_of_eq rfl⟩

omit [Inhabited Code] in
theorem Upright.fringe {start w' : World Code Memory} (h : Upright application start w)
    (hfringe : w.Fringe w') : Upright application start w' :=
  ⟨h.1.fringe hfringe, h.2.trans (World.recalls_of_eq hfringe.memory)⟩

theorem upright (h : Abreast application c d) (start : World Code Memory) :
    Mounting (Upright application start) c d :=
  h.mounting (lasts_upright application start) fun hfringe hw => hw.fringe hfringe

end Abreast

/-- However deep the engine is entered again, it stays abreast under supervision that passes over
reading. -/
theorem abreast_reentryUnder {application : Application Code Memory} {P P' : Proviso Code Memory}
    (hquiet : ∀ o w, application.holds (application.notes o w) = application.holds w.memory)
    (hgetters : application.GettersRead) (hP : P.Lenient) (hP' : P'.Lenient) (depth : Nat)
    (waiting : List Subscriber) :
    Abreast application (reentryUnder P application depth waiting)
      (reentryUnder P' application depth waiting) := by
  have hgetter := runGetter_reentryUnder hP hgetters depth waiting
  have hgetter' := runGetter_reentryUnder hP' hgetters depth waiting
  refine ⟨hquiet, application_reentryUnder P depth waiting, application_reentryUnder P' depth waiting,
    (depth_reentryUnder P' depth waiting).trans (depth_reentryUnder P depth waiting).symm,
    fun id => (hgetter' id).trans (hgetter id).symm, fun start id => ?_, fun start => ?_⟩
  · have hreads : start.GettersRead application := fun id => hgetters _ _
    rw [hgetter]
    exact browsing_runGetter hquiet (application_reentry application depth) hreads
      (fun hprogram => browsing_run_reentry hquiet hreads hprogram depth) id
  · have hrereads := rereads_reentry (peruses_recalls application start) hgetters depth
    have happlication : (reentryUnder P application depth waiting).application = application :=
      application_reentryUnder P depth waiting
    refine ⟨happlication, happlication, fun code owner? => ?_⟩
    rw [run_reentryUnder hP hgetters (hgetters code owner?)]
    exact hrereads.getter code owner?

end Engine

end ViewBinding
