import ViewBinding.Proofs.Soundness
import ViewBinding.Proofs.Fate

/-!
# Reading again

Between one reading and the next, nodes may be bound and values may become known. As long as the data are
the same and no value is known but what could be told at the start, every reading ends as its query does in
the view of the start. So what is read again is what was read the first time.
-/

namespace ViewBinding

open Engine

variable {Code Memory : Type} [Inhabited Code]

namespace World

variable {w w₁ : World Code Memory}

theorem Kin.slotAt_eq (h : w.Kin w₁) (object : ObjectId) (key : String) :
    w₁.slotAt object key = w.slotAt object key := by
  have hresolve : w₁.resolve object key = w.resolve object key := by
    rw [resolve, resolve, h.size, follow_congr h.slots]
  rw [slotAt, slotAt, hresolve, Object.slot?, Object.slot?, h.slots]

theorem Kin.root (h : w.Kin w₁) (owner : ViewModelId) :
    (w₁.viewModel owner).root = (w.viewModel owner).root := by
  have hface := congrArg ViewModel.root (h.faces owner)
  exact hface

theorem Kin.tracker (h : w.Kin w₁) (owner : ViewModelId) :
    (w₁.viewModel owner).tracker = (w.viewModel owner).tracker := by
  have hface := congrArg ViewModel.tracker (h.faces owner)
  exact hface

end World

namespace Setting

/-- Every computed property is in the scope, and what its getter asks for depends on the data alone. -/
structure Steady (s : Setting Code Memory) (start : World Code Memory) : Prop extends s.Fits start where
  whole : ∀ id, s.scope id
  steady : ∀ (id : ComputedId) (w w' : World Code Memory), w.Kin w' →
    (s.program start id).query w' = (s.program start id).query w

/-- A world with the data of `start` in which a value is known only if `start` tells it. -/
structure Echoes (s : Setting Code Memory) (start w : World Code Memory) : Prop where
  kin : start.Kin w
  kept : ∀ id value, (start.computed id).known? = some value → (w.computed id).known? = some value
  told : ∀ id value, (w.computed id).known? = some value →
    (s.view start).Tells (.computed id) (.ok value)
  lives : ∀ id owner, (start.computed id).getter.owner? = some owner →
    (w.alive (s.application.holds w.memory) (.viewModel owner) = true ↔ s.lives owner)

variable {s : Setting Code Memory} {start w w' : World Code Memory} {α : Type}

theorem along_of_whole (hwhole : ∀ id, s.scope id) (v : View) (w : World Code Memory) (q : Query α) :
    v.Along (s.Asks w) q := by
  induction q with
  | done result => trivial
  | ask what next inductionHypothesis =>
    exact ⟨fun id _ => hwhole id, fun a _ => inductionHypothesis a⟩

theorem Echoes.getter (h : s.Echoes start w) (id : ComputedId) :
    (w.computed id).getter = (start.computed id).getter :=
  Computed.getter_eq_of_base_eq (h.kin.bases id)

theorem Echoes.program (h : s.Echoes start w) (id : ComputedId) :
    s.program w id = s.program start id := by
  rw [Setting.program, h.getter, Setting.program]

/-- Getters that fit the start fit later, too. -/
theorem Echoes.fits (h : s.Echoes start w) (hsteady : s.Steady start) : s.Fits w where
  quiet := hsteady.quiet
  reads id hid := by
    rw [h.program]
    exact hsteady.reads id hid
  owner id hid owner howner := by
    rw [h.getter]
    exact hsteady.owner id hid owner howner
  home id hid owner howner := by
    rw [h.kin.tracker]
    exact hsteady.home id hid owner howner
  closed _ _ := along_of_whole hsteady.whole _ w _

theorem Echoes.phase (h : s.Echoes start w) : s.Phase w w where
  data := .refl w
  bases _ := rfl
  kept _ _ hknown := hknown
  told _ _ hid hknown := (View.tells_computed_of_known ((view_known hid).trans hknown)).mpr rfl
  lives id owner _ howner := h.lives id owner (h.getter id ▸ howner)

/-- A later world tells what the start tells. -/
theorem Echoes.tells (h : s.Echoes start w) (hsteady : s.Steady start) {what : Ask}
    {a : Except Error Value} (ha : (s.view w).Tells what a) : (s.view start).Tells what a := by
  obtain ⟨n, hn⟩ := ha
  induction n generalizing what a with
  | zero => cases hn
  | succ n inductionHypothesis =>
    have hgives := View.gives_of_answers (v := s.view start)
      (fun _ _ => inductionHypothesis) (hn : ((s.view w).meaning what).eval _ = some a)
    cases what with
    | property object key =>
      rw [View.tells_iff_gives]
      have hslot : (s.view w).slot object key = (s.view start).slot object key :=
        h.kin.slotAt_eq object key
      rw [View.meaning, hslot] at hgives
      exact hgives
    | computed id =>
      have hid := hsteady.whole id
      cases hknown : (w.computed id).known? with
      | some value =>
        have hvalue := (View.tells_computed_of_known ((view_known hid).trans hknown)).mp
          (⟨n + 1, hn⟩ : (s.view w).Tells (.computed id) a)
        exact hvalue ▸ h.told id value hknown
      | none =>
        have hunknown : (start.computed id).known? = none := by
          cases hstart : (start.computed id).known? with
          | none => rfl
          | some value =>
            rw [h.kept id value hstart] at hknown
            cases hknown
        have hquery : (s.view w).query id = (s.view start).query id := by
          simp only [view, if_pos hid]
          rw [h.getter, h.program, hsteady.steady id start w h.kin]
        rw [View.tells_computed_of_unknown (view_unknown hunknown), ← hquery]
        rw [View.meaning, view_unknown hknown] at hgives
        exact hgives

/-- A query has the outcome at a later world that it has at the start. -/
theorem Echoes.gives (h : s.Echoes start w) (hsteady : s.Steady start) {q : Query α}
    {r : Except Error α} (hr : (s.view w).Gives q r) : (s.view start).Gives q r := by
  obtain ⟨n, hn⟩ := hr
  exact View.gives_of_answers (fun _ _ ha => h.tells hsteady ⟨n, ha⟩) hn

theorem Echoes.phase_trans (h : s.Echoes start w) (hsteady : s.Steady start) (hw : s.Phase w w') :
    s.Echoes start w' where
  kin := h.kin.trans (hw.data.kin hw.bases)
  kept id value hknown := hw.kept id value (h.kept id value hknown)
  told id value hknown := h.tells hsteady (hw.told id value (hsteady.whole id) hknown)
  lives id owner howner := hw.lives id owner (hsteady.whole id) (h.getter id ▸ howner)

/-- Among worlds with the same data all that matters is which values are known and who is alive. -/
theorem Echoes.later (h : s.Echoes start w) (hkin : w.Kin w') (hcomputeds : w'.computeds = w.computeds)
    (hholds : s.application.holds w'.memory = s.application.holds w.memory)
    (hheld : ∀ owner, Ref.viewModel owner ∈ w'.held ↔ .viewModel owner ∈ w.held) :
    s.Echoes start w' where
  kin := h.kin.trans hkin
  kept id value hknown := by
    rw [World.computed, hcomputeds]
    exact h.kept id value hknown
  told id value hknown := by
    rw [World.computed, hcomputeds] at hknown
    exact h.told id value hknown
  lives id owner howner := by
    rw [← h.lives id owner howner, World.alive_viewModel, World.alive_viewModel, hholds, hheld]

/-- Who is told of what, and what hosts the bindings, makes no difference. -/
theorem Echoes.hosted (h : s.Echoes start w) (sources : Table SourceId Source)
    (watchers : Table WatcherId (Watcher Code)) (nodes : Table NodeId (Node Code))
    (bindings : Table BindingId Binding) :
    s.Echoes start { w with sources, watchers, nodes, bindings } :=
  h.later ⟨rfl, fun _ => rfl, fun _ => rfl, rfl, rfl, rfl, fun _ => rfl, fun _ => rfl⟩ rfl rfl
    fun _ => Iff.rfl

theorem Echoes.mapTracker (h : s.Echoes start w) (t : TrackerId) (f : Tracker → Tracker) :
    s.Echoes start (w.mapTracker t f) :=
  h.later ⟨rfl, fun _ => rfl, fun _ => rfl, rfl, rfl, rfl, fun _ => rfl, fun _ => rfl⟩ rfl rfl
    fun _ => Iff.rfl

/-! ### What is read at a later world -/

/-- A step that reads ends as its query does at the start, and changes no node and nothing that can be
read. -/
structure Echoing (s : Setting Code Memory) (start : World Code Memory) (q : Query α)
    (w : World Code Memory) (r : Except Error α) (w' : World Code Memory) : Prop where
  gives : (s.view start).Gives q r
  echoes : s.Echoes start w'
  nodes : w'.nodes = w.nodes
  viewModels : w'.viewModels = w.viewModels
  held : w'.held = w.held

/-- Programs that only read are sound in an engine, whenever they run. -/
structure Heard (s : Setting Code Memory) (start : World Code Memory) (c : Reentry Code Memory) :
    Prop extends s.Steady start where
  codes : c.application = s.application
  run : ∀ w, s.Fits w → s.SoundRun w c

variable {c : Reentry Code Memory} {n : NodeId} {owner : ViewModelId}

theorem Heard.rules (hheard : s.Heard start c) (hw : s.Echoes start w) :
    ReadingRules c c (fun _ _ => True) (fun _ _ => True) w (s.Sound w) :=
  sound_rules (hw.fits hheard.toSteady) hheard.codes (hheard.run w (hw.fits hheard.toSteady)) _

theorem Heard.echoing (hheard : s.Heard start c) (hw : s.Echoes start w) {q : Query α}
    {x : Engine Code Memory α} (hx : Ends w x x (s.Reads w q w)) :
    Ends w x x (s.Echoing start q w) :=
  hx.mono fun _ _ h => ⟨hw.gives hheard.toSteady h.gives,
    hw.phase_trans hheard.toSteady h.phase, h.phase.data.nodes, h.phase.data.viewModels, h.rests.held⟩

theorem Heard.sound (hheard : s.Heard start c) (hw : s.Echoes start w) {q : Query α}
    {x : Engine Code Memory α} (hx : s.Sound w (.free fun _ => False) q x x) :
    Ends w x x (s.Reads w q w) :=
  hx (fun _ h => h.elim) (along_of_whole hheard.whole _ w q) w hw.phase

theorem Heard.get (hheard : s.Heard start c) (hw : s.Echoes start w) (object : ObjectId) (key : String)
    (reader : Option TrackerId) :
    Ends w (Engine.get c object key reader) (Engine.get c object key reader)
      (s.Echoing start (Query.property object key) w) :=
  hheard.echoing hw (hheard.sound hw ((hheard.rules hw).property object key trivial))

theorem Heard.renderTemplate (hheard : s.Heard start c) (hw : s.Echoes start w) (template : Template)
    (root : Value) (reader : Option TrackerId) :
    Ends w (Engine.renderTemplate c template root reader) (Engine.renderTemplate c template root reader)
      (s.Echoing start (Query.segments root template.segments) w) :=
  hheard.echoing hw (hheard.sound hw ((hheard.rules hw).segments trivial root template.segments))

theorem Heard.evaluateWatcher (hheard : s.Heard start c) (hw : s.Echoes start w) (x : WatcherId) :
    Ends w (evaluateWatcher c x) (evaluateWatcher c x)
      (s.Echoing start (Query.path (w.watcher x).root (w.watcher x).path) w) := by
  have hfits := hw.fits hheard.toSteady
  refine hheard.echoing hw ?_
  rw [Engine.evaluateWatcher, ends_inspect_bind]
  refine sound_evaluate hfits hheard.codes _ _ (fun v hv => ?_) hw.phase
  exact (sound_rules hfits hheard.codes (hheard.run w hfits) fun _ _ => True).readPath
    (m := .free fun _ => False) trivial _ _ (fun _ h => h.elim) (along_of_whole hheard.whole _ w _) v hv

/-- What is held may be put back as it was before things were kept that are no view models. -/
theorem Echoes.released {refs : List Ref} (h : s.Echoes start w')
    (hheld : w'.held = refs ++ w.held) (hrefs : ∀ owner, Ref.viewModel owner ∉ refs) :
    s.Echoes start { w' with held := w.held } :=
  h.later (World.kin_holding w' w.held) rfl rfl fun owner => by
    rw [hheld, List.mem_append, or_iff_right (hrefs owner)]

theorem Echoing.released {q : Query α} {r : Except Error α} {refs : List Ref}
    (hrefs : ∀ owner, Ref.viewModel owner ∉ refs)
    (h : s.Echoing start q { w with held := refs ++ w.held } r w') :
    s.Echoing start q w r { w' with held := w.held } where
  gives := h.gives
  echoes := h.echoes.released h.held hrefs
  nodes := h.nodes
  viewModels := h.viewModels
  held := rfl

theorem Echoes.holding (h : s.Echoes start w) (refs : List Ref)
    (hrefs : ∀ owner, Ref.viewModel owner ∉ refs) : s.Echoes start { w with held := refs ++ w.held } :=
  h.later (World.kin_holding w _) rfl rfl fun owner => by
    rw [List.mem_append, or_iff_right (hrefs owner)]

theorem Echoes.teardownWatcher (h : s.Echoes start w) (x : WatcherId) :
    s.Echoes start (w.teardownWatcher x) := by
  rw [World.teardownWatcher_eq]
  exact h.hosted _ _ _ _

/-- A watcher that is made knows the value that its path has at the start, or fails as the path does. -/
theorem Heard.watch (hheard : s.Heard start c) (hw : s.Echoes start w) (t : TrackerId) (root : Value)
    (path : Path) (reaction : Reaction Code) :
    Ends w (watch c t root path reaction) (watch c t root path reaction) fun r w' =>
      s.Echoing start (Query.path root path) w (r.map fun x => (w'.watcher x).cached) w' := by
  rw [Engine.watch, ends_create_bind]
  let x : WatcherId := w.watchers.fresh
  let row : Watcher Code := { tracker := t, root, path, reaction }
  let added := (({ w with held := [.watcher x] ++ w.held } : World Code Memory).addWatcher row).2
  have hrow : added.watcher x = row := Table.get_add_fresh w.watchers row
  have hadded : s.Echoes start added :=
    (hw.holding [.watcher x] (by simp)).hosted _ _ _ _
  have hevaluate := hheard.evaluateWatcher hadded x
  rw [hrow] at hevaluate
  refine Ends.keeping [.watcher x] (R := fun r v => s.Echoing start (Query.path root path)
    { w with held := [.watcher x] ++ w.held } (r.map fun x => (v.watcher x).cached) v) ?_
    fun _ _ h => h.released (by simp)
  refine hevaluate.attempt_bind fun r v h => ?_
  cases r with
  | ok value =>
    rw [ends_update_bind, ends_pure]
    have hself : (v.mapWatcher x fun row => { row with cached := value }).watcher x
        = { v.watcher x with cached := value } := by
      rw [World.watcher_mapWatcher, if_pos rfl]
    refine ⟨?_, h.echoes.hosted _ _ _ _, h.nodes, h.viewModels, h.held⟩
    change (s.view start).Gives _ (.ok ((v.mapWatcher x _).watcher x).cached)
    rw [hself]
    exact h.gives
  | error error =>
    rw [ends_update_bind, ends_throw]
    have hsame : (v.teardownWatcher x).nodes = v.nodes ∧ (v.teardownWatcher x).viewModels = v.viewModels ∧
        (v.teardownWatcher x).held = v.held := by
      rw [World.teardownWatcher_eq]
      exact ⟨rfl, rfl, rfl⟩
    exact ⟨h.gives, h.echoes.teardownWatcher x, hsame.1.trans h.nodes, hsame.2.1.trans h.viewModels,
      hsame.2.2.trans h.held⟩

end Setting

end ViewBinding
