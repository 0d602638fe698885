import ViewBinding.Proofs.Building
import ViewBinding.Proofs.Serving
import ViewBinding.Proofs.Unsupervised
import ViewBinding.Proofs.Watching

/-!
# Standing by

Most of what the engine does leaves alone what is bound: no binding changes, nothing is recorded, and what
watchers show stays the same. It keeps the watchers in order, too: nobody evaluates when it is over, and
whoever is listed by a source depends on it.
-/

namespace ViewBinding

open Engine

variable {Code Memory : Type} [Inhabited Code]

namespace World

omit [Inhabited Code] in
/-- No watcher evaluates, every one serves or is out of service, and view models have no installers but
the standard ones. -/
structure Staffed (w : World Code Memory) : Prop where
  idle : ∀ x : WatcherId, ¬ w.Evaluates (.watcher x)
  fit : ∀ x : WatcherId, w.Serves x ∨ w.Retired x
  installers : ∀ id kind installer, (w.viewModel id).registry.find? kind = some installer →
    Registry.standard.find? kind = some installer

omit [Inhabited Code] in
/-- What is bound was left alone, and the watchers are in order if they were before. -/
structure Bystands (w w' : World Code Memory) : Prop where
  bindings : w.bindings.size ≤ w'.bindings.size
  binding : ∀ b : BindingId, b.index < w.bindings.size → w'.binding b = w.binding b
  blank : ∀ b : BindingId, w.bindings.size ≤ b.index → (w'.binding b).watchers = []
  watchers : w.watchers.size ≤ w'.watchers.size
  reaction : ∀ x : WatcherId, x.index < w.watchers.size →
    (w'.watcher x).reaction = (w.watcher x).reaction
  disposed : ∀ x : WatcherId, x.index < w.watchers.size → (w.watcher x).disposed = true →
    (w'.watcher x).disposed = true
  staffed : w.Staffed → w'.Staffed
  recorded : ∀ id, (w'.viewModel id).bindings = (w.viewModel id).bindings
  settings : ∀ id n, w.isBound id n = true → (w'.viewModel id).settings = (w.viewModel id).settings
  nodes : w.nodes.size ≤ w'.nodes.size
  isElement : ∀ n : NodeId, n.index < w.nodes.size → (w'.node n).isElement = (w.node n).isElement
  attributes : ∀ n : NodeId, n.index < w.nodes.size → (w'.node n).attributes = (w.node n).attributes
  hooks : ∀ (n : NodeId) (event : String), (w'.node n).hooks event = (w.node n).hooks event

variable {w w₁ w₂ w' : World Code Memory} {x : WatcherId}

/-! ### Changes that stand by -/

omit [Inhabited Code] in
theorem watchers_of_size_le {b : BindingId} (h : w.bindings.size ≤ b.index) :
    (w.binding b).watchers = [] := by
  rw [binding, w.bindings.get_of_size_le h]
  rfl

omit [Inhabited Code] in
theorem Bystands.trans (h : w.Bystands w₁) (h' : w₁.Bystands w₂) : w.Bystands w₂ where
  bindings := Nat.le_trans h.bindings h'.bindings
  binding b hb := (h'.binding b (Nat.lt_of_lt_of_le hb h.bindings)).trans (h.binding b hb)
  blank b hb := by
    by_cases hlt : b.index < w₁.bindings.size
    · rw [h'.binding b hlt]
      exact h.blank b hb
    · exact h'.blank b (Nat.le_of_not_lt hlt)
  watchers := Nat.le_trans h.watchers h'.watchers
  reaction x hx := (h'.reaction x (Nat.lt_of_lt_of_le hx h.watchers)).trans (h.reaction x hx)
  disposed x hx hover := h'.disposed x (Nat.lt_of_lt_of_le hx h.watchers) (h.disposed x hx hover)
  staffed hw := h'.staffed (h.staffed hw)
  recorded id := (h'.recorded id).trans (h.recorded id)
  settings id n hbound := by
    have hbound' : w₁.isBound id n = true := by rwa [isBound, h.recorded]
    exact (h'.settings id n hbound').trans (h.settings id n hbound)
  nodes := Nat.le_trans h.nodes h'.nodes
  isElement n hn := (h'.isElement n (Nat.lt_of_lt_of_le hn h.nodes)).trans (h.isElement n hn)
  attributes n hn := (h'.attributes n (Nat.lt_of_lt_of_le hn h.nodes)).trans (h.attributes n hn)
  hooks n event := (h'.hooks n event).trans (h.hooks n event)

omit [Inhabited Code] in
/-- Nodes, bindings and view models are as they were, and the watchers keep what they show. -/
theorem bystands_of_rows (hnodes : w'.nodes = w.nodes) (hbindings : w'.bindings = w.bindings)
    (hviewModels : w'.viewModels = w.viewModels) (hsize : w.watchers.size ≤ w'.watchers.size)
    (hreaction : ∀ x : WatcherId, x.index < w.watchers.size →
      (w'.watcher x).reaction = (w.watcher x).reaction)
    (hdisposed : ∀ x : WatcherId, x.index < w.watchers.size → (w.watcher x).disposed = true →
      (w'.watcher x).disposed = true)
    (hidle : w.Staffed → ∀ x : WatcherId, ¬ w'.Evaluates (.watcher x))
    (hfit : w.Staffed → ∀ x : WatcherId, w'.Serves x ∨ w'.Retired x) : w.Bystands w' := by
  have hnode : ∀ n, w'.node n = w.node n := fun n => by rw [node, hnodes, node]
  have hviewModel : ∀ id, w'.viewModel id = w.viewModel id := fun id => by
    rw [viewModel, hviewModels, viewModel]
  refine ⟨Nat.le_of_eq (by rw [hbindings]), fun b _ => by rw [binding, hbindings, binding], fun b hb => ?_,
    hsize, hreaction, hdisposed, fun hw => ⟨hidle hw, hfit hw, fun id => ?_⟩, fun id => by rw [hviewModel],
    fun id _ _ => by rw [hviewModel], Nat.le_of_eq (by rw [hnodes]), fun n _ => by rw [hnode], fun n _ => by rw [hnode],
    fun n event => by rw [hnode]⟩
  · exact watchers_of_size_le (hbindings ▸ hb)
  · rw [hviewModel]
    exact hw.installers id

omit [Inhabited Code] in
/-- Watchers whose rows are the same are fit, if no more of them are listed. -/
theorem Staffed.fit_congr (h : w.Staffed) (hwatchers : ∀ x, w'.watcher x = w.watcher x)
    (hlisted : ∀ (x : WatcherId) (s : SourceId), Subscriber.watcher x ∈ (w'.source s).subscribers →
      .watcher x ∈ (w.source s).subscribers) (x : WatcherId) : w'.Serves x ∨ w'.Retired x := by
  refine (h.fit x).imp (fun hserves => ⟨hwatchers x ▸ hserves.1, fun s hs => ?_⟩)
    fun hretired => ⟨hwatchers x ▸ hretired.1, fun s hs => hretired.2 s (hlisted x s hs)⟩
  rw [hwatchers]
  exact hserves.2 s (hlisted x s hs)

omit [Inhabited Code] in
/-- Watchers, sources and trackers are as they were. -/
theorem Staffed.congr (h : w.Staffed) (hwatchers : w'.watchers = w.watchers)
    (hsources : w'.sources = w.sources) (htrackers : w'.trackers = w.trackers)
    (hinstallers : ∀ id, (w'.viewModel id).registry = (w.viewModel id).registry ∨
      (w'.viewModel id).registry = Registry.standard) : w'.Staffed where
  idle x hx := h.idle x ((evaluates_congr fun t => by rw [tracker, htrackers, tracker]).mp hx)
  fit := h.fit_congr (fun x => by rw [watcher, hwatchers, watcher])
    fun x s hs => by rwa [source, hsources] at hs
  installers id kind installer hfind := by
    rcases hinstallers id with heq | heq
    · exact h.installers id kind installer (heq ▸ hfind)
    · exact heq ▸ hfind

omit [Inhabited Code] in
theorem Staffed.fringe (h : w.Staffed) (hfringe : w.Fringe w') : w'.Staffed :=
  h.congr hfringe.watchers hfringe.sources hfringe.trackers fun id =>
    Or.inl (congrArg ViewModel.registry (hfringe.viewModels id) :)

omit [Inhabited Code] in
theorem bystands_of_same (hnodes : w'.nodes = w.nodes) (hbindings : w'.bindings = w.bindings)
    (hviewModels : w'.viewModels = w.viewModels) (hwatchers : w'.watchers = w.watchers)
    (hlisted : ∀ (x : WatcherId) (s : SourceId), Subscriber.watcher x ∈ (w'.source s).subscribers →
      .watcher x ∈ (w.source s).subscribers)
    (hevaluates : ∀ x : WatcherId, w'.Evaluates (.watcher x) → w.Evaluates (.watcher x)) :
    w.Bystands w' := by
  have hrow : ∀ x, w'.watcher x = w.watcher x := fun x => by rw [watcher, hwatchers, watcher]
  exact bystands_of_rows hnodes hbindings hviewModels (Nat.le_of_eq (by rw [hwatchers]))
    (fun x _ => by rw [hrow]) (fun x _ hover => by rwa [hrow])
    (fun hw x hx => hw.idle x (hevaluates x hx))
    fun hw => hw.fit_congr hrow hlisted

omit [Inhabited Code] in
theorem Bystands.refl (w : World Code Memory) : w.Bystands w :=
  bystands_of_same rfl rfl rfl rfl (fun _ _ h => h) fun _ h => h

theorem Raises.bystands (h : w.Raises w') : w.Bystands w' :=
  bystands_of_same h.nodes h.bindings h.viewModels h.watchers (fun x s hs => by rwa [h.sources] at hs)
    fun x hx => (evaluates_congr h.trackers).mp hx

omit [Inhabited Code] in
theorem Margin.bystands (h : w.Margin w') : w.Bystands w' := by
  have hbindings : w'.bindings = w.bindings := by rw [h.rest]
  have hwatchers : w'.watchers = w.watchers := by rw [h.rest]
  refine ⟨Nat.le_of_eq (by rw [hbindings]), fun b _ => by rw [binding, hbindings, binding], fun b hb => ?_,
    Nat.le_of_eq (by rw [hwatchers]), fun x _ => by rw [watcher, hwatchers, watcher],
    fun x _ hover => by rwa [watcher, hwatchers], fun hw => hw.fringe h.fringe, fun id => by rw [h.rest]; rfl,
    fun id _ _ => by rw [h.rest]; rfl, h.size, h.isElement, h.attributes, h.hooks⟩
  exact watchers_of_size_le (hbindings ▸ hb)

omit [Inhabited Code] in
theorem bystands_held (w : World Code Memory) (held : List Ref) : w.Bystands { w with held } :=
  (margin_held w held).bystands

omit [Inhabited Code] in
theorem bystands_note (w : World Code Memory) (application : Application Code Memory)
    (occurrence : Occurrence) : w.Bystands (w.note application occurrence) :=
  bystands_of_same rfl rfl rfl rfl (fun _ _ h => h) fun _ h => h

omit [Inhabited Code] in
theorem bystands_mapSource (w : World Code Memory) (s : SourceId) {f : Source → Source}
    (hf : ∀ x : WatcherId, Subscriber.watcher x ∈ (f (w.source s)).subscribers →
      .watcher x ∈ (w.source s).subscribers) : w.Bystands (w.mapSource s f) := by
  refine bystands_of_same rfl rfl rfl rfl (fun x t ht => ?_) fun _ h => h
  rw [source_mapSource] at ht
  split at ht
  · next h => exact h ▸ hf x ht
  · exact ht

omit [Inhabited Code] in
theorem bystands_push (w : World Code Memory) (t : TrackerId) {frame : Frame}
    (hframe : ∀ x : WatcherId, frame ≠ some (.watcher x)) :
    w.Bystands (w.mapTracker t (·.push frame)) :=
  bystands_of_same rfl rfl rfl rfl (fun _ _ h => h) fun x hx =>
    ((evaluates_push w t frame).mp hx).resolve_left (hframe x)

omit [Inhabited Code] in
theorem bystands_pop (w : World Code Memory) (t : TrackerId) : w.Bystands (w.mapTracker t (·.pop)) :=
  bystands_of_same rfl rfl rfl rfl (fun _ _ h => h) fun _ hx => evaluates_of_pop w t hx

omit [Inhabited Code] in
theorem bystands_framed (w : World Code Memory) (t : TrackerId) (frame : Frame) :
    w.Bystands ((w.mapTracker t (·.push frame)).mapTracker t (·.pop)) :=
  bystands_of_same rfl rfl rfl rfl (fun _ _ h => h) fun _ hx =>
    (evaluates_congr (tracker_pop_push w t frame _ fun _ => rfl)).mp hx

omit [Inhabited Code] in
/-- A new view model has recorded nothing. -/
theorem bystands_addViewModel (w : World Code Memory) {row : ViewModel Code} (hbindings : row.bindings = {})
    (hregistry : row.registry = Registry.standard) : w.Bystands (w.addViewModel row).2 := by
  have hrow : ∀ id, (w.addViewModel row).2.viewModel id
      = if id = w.viewModels.fresh then row else w.viewModel id := by
    intro id
    change (w.viewModels.add row).get id = _
    split
    · next h => rw [h, Table.get_add_fresh]
    · next h => exact Table.get_add_of_ne _ _ h
  refine { Bystands.refl w with
    staffed := fun hw => hw.congr rfl rfl rfl fun id => ?_
    recorded := fun id => ?_
    settings := fun id n hbound => ?_ }
  · rw [hrow]
    split
    · exact Or.inr hregistry
    · exact Or.inl rfl
  · rw [hrow]
    split
    · next h =>
      rw [hbindings, h, viewModel, Table.get_fresh]
      rfl
    · rfl
  · rw [hrow, if_neg]
    rintro rfl
    rw [isBound, viewModel, Table.get_fresh] at hbound
    cases hbound

omit [Inhabited Code] in
theorem bystands_mounted (w : World Code Memory) (id : ViewModelId) (mounted : Option NodeId) :
    w.Bystands (w.mapViewModel id fun vm => { vm with mounted }) := by
  refine { Bystands.refl w with
    staffed := fun hw => hw.fringe (fringe_mapViewModel w id fun _ => rfl)
    recorded := fun j => ?_
    settings := fun j _ _ => ?_ }
  all_goals
    simp only [viewModel, mapViewModel, Table.get_modify]
    split
    · next h => rw [h]
    · rfl

theorem bystands_assemble (w : World Code Memory) {options : Options Code} (data : ObjectId)
    (hdirectives : options.directives = []) : w.Bystands (w.assemble options data).2 := by
  obtain ⟨w₁, row, hbefore, hbindings, hregistry, hafter⟩ := raises_assemble w options data
  rw [hdirectives] at hregistry
  exact (hbefore.bystands.trans (bystands_addViewModel w₁ hbindings hregistry)).trans hafter.bystands

omit [Inhabited Code] in
/-- A new binding without watchers. -/
theorem bystands_addBinding (w : World Code Memory) {row : Binding} (hrow : row.watchers = []) :
    w.Bystands (w.addBinding row).2 := by
  have hget : ∀ b, (w.addBinding row).2.binding b
      = if b = w.bindings.fresh then row else w.binding b := by
    intro b
    change (w.bindings.add row).get b = _
    split
    · next h => rw [h, Table.get_add_fresh]
    · next h => exact Table.get_add_of_ne _ _ h
  refine { Bystands.refl w with
    bindings := Nat.le_of_lt (Nat.lt_of_lt_of_eq (Nat.lt_succ_self _) (Table.size_add w.bindings row).symm)
    binding := fun b hb => ?_
    blank := fun b hb => ?_
    staffed := fun hw => hw.congr rfl rfl rfl fun _ => Or.inl rfl }
  · rw [hget, if_neg]
    rintro rfl
    exact Nat.lt_irrefl _ hb
  · rw [hget]
    split
    · exact hrow
    · exact watchers_of_size_le hb

/-! ### Watchers -/

omit [Inhabited Code] in
/-- A watcher that has not been made is listed nowhere. -/
theorem Staffed.unlisted (h : w.Staffed) (hx : w.watchers.size ≤ x.index) (s : SourceId) :
    Subscriber.watcher x ∉ (w.source s).subscribers := by
  intro hs
  rcases h.fit x with hserves | hretired
  · have hcurrent := hserves.2 s hs
    rw [watcher, w.watchers.get_of_size_le hx] at hcurrent
    exact absurd hcurrent List.not_mem_nil
  · exact hretired.2 s hs

omit [Inhabited Code] in
theorem Staffed.manned (h : w.Staffed) : w.Manned :=
  fun x hx => absurd hx (h.idle x)

theorem Staffed.ready (h : w.Staffed) : w.Ready w where
  kin := .refl w
  manned := h.manned
  listed _ s hs := Nat.lt_of_not_le fun hle => h.unlisted hle s hs

omit [Inhabited Code] in
/-- A watcher changes in what it knows. -/
theorem bystands_mapWatcher (w : World Code Memory) (x : WatcherId) {f : Watcher Code → Watcher Code}
    (hdisposed : ∀ row, (f row).disposed = row.disposed)
    (hdependencies : ∀ row, (f row).dependencies = row.dependencies)
    (hreaction : ∀ row, (f row).reaction = row.reaction) : w.Bystands (w.mapWatcher x f) := by
  have hrow : ∀ {α : Type} (g : Watcher Code → α), (∀ row, g (f row) = g row) → ∀ y,
      g ((w.mapWatcher x f).watcher y) = g (w.watcher y) := by
    intro α g hg y
    rw [watcher_mapWatcher]
    split
    · next h => rw [hg, h]
    · rfl
  refine bystands_of_rows rfl rfl rfl (Table.size_le_modify _ _ _) (fun y _ => hrow _ hreaction y)
    (fun y _ hover => (hrow _ hdisposed y).trans hover) Staffed.idle fun hw y => ?_
  refine (hw.fit y).imp (fun h => ⟨(hrow _ hdisposed y).trans h.1, fun s hs => ?_⟩)
    fun h => ⟨(hrow _ hdisposed y).trans h.1, h.2⟩
  rw [hrow Watcher.dependencies hdependencies]
  exact h.2 s hs

theorem bystands_teardownWatcher (w : World Code Memory) (x : WatcherId) :
    w.Bystands (w.teardownWatcher x) := by
  have heq := teardownWatcher_eq w x
  have hdischarges := discharges_teardownWatcher w x
  refine bystands_of_rows (by rw [heq]) (by rw [heq]) (by rw [heq]) hdischarges.size
    (fun y _ => hdischarges.reaction y) (fun y _ => hdischarges.disposed y) (fun hw y hy => ?_)
    fun hw y => hdischarges.fit (hw.fit y)
  refine hw.idle y ((evaluates_congr fun t => ?_).mp hy)
  rw [heq]
  rfl

/-- A watcher that no source lists may depend on anything. -/
theorem bystands_mapDependencies (hdisposed : (w.watcher x).disposed = false)
    (hunlisted : ∀ s, Subscriber.watcher x ∉ (w.source s).subscribers) (f : Dependencies → Dependencies) :
    w.Bystands (w.mapDependencies (.watcher x) f) := by
  have hface : ∀ y, ((w.mapDependencies (.watcher x) f).watcher y).face = (w.watcher y).face :=
    (aside_mapDependencies w _ f : Aside (fun _ : Memory => []) _ _).watchers
  refine bystands_of_rows rfl rfl rfl (Table.size_le_modify _ _ _)
    (fun y _ => (congrArg Watcher.reaction (hface y) :))
    (fun y _ hover => (congrArg Watcher.disposed (hface y)).trans hover) Staffed.idle fun hw y => ?_
  by_cases hy : y = x
  · subst hy
    exact Or.inl ⟨(congrArg Watcher.disposed (hface y)).trans hdisposed, fun s hs => absurd hs (hunlisted s)⟩
  · have hrow : (w.mapDependencies (.watcher x) f).watcher y = w.watcher y :=
      (watcher_mapWatcher w x y _).trans (if_neg hy)
    exact (hw.fit y).imp (fun h => h.congr hrow fun _ => Iff.rfl) fun h => h.congr hrow fun _ => Iff.rfl

omit [Inhabited Code] in
theorem bystands_unregisterAll (w : World Code Memory) (subscriber : Subscriber) (l : List SourceId) :
    w.Bystands (w.unregisterAll subscriber l) := by
  rw [unregisterAll_eq]
  exact bystands_of_same rfl rfl rfl rfl
    (fun _ _ hs => ((mem_source_unregisterAll _ _ _ _ _).mp hs).1) fun _ h => h

/-- A watcher that was never made meets no source when it evaluates. -/
theorem bystands_unmade (hw : w.Staffed) (hx : w.watchers.size ≤ x.index)
    (application : Application Code Memory) (t : TrackerId) (r : Except Error Value) :
    w.Bystands ((w.opening application t (.watcher x)).closing application t (.watcher x) r) := by
  have hdisposed : (w.watcher x).disposed = false := by
    rw [watcher, w.watchers.get_of_size_le hx]
    rfl
  let begun := (w.mapDependencies (.watcher x) (·.begin)).note application (.evaluating (.watcher x))
  let ended := (begun.mapTracker t (·.push (some (.watcher x)))).mapTracker t (·.pop)
  have hended : w.Bystands ended :=
    ((bystands_mapDependencies hdisposed (hw.unlisted hx) _).trans
      (bystands_note _ application _)).trans (bystands_framed begun t _)
  have hface : (ended.watcher x).face = (w.watcher x).face :=
    (aside_mapDependencies w _ _ : Aside (fun _ : Memory => []) _ _).watchers x
  have hdown : ∀ f, ended.Bystands (ended.mapDependencies (.watcher x) f) := fun f =>
    bystands_mapDependencies ((congrArg Watcher.disposed hface).trans hdisposed) (hw.unlisted hx) f
  cases r with
  | ok value =>
    exact ((hended.trans (hdown (·.settle))).trans (bystands_unregisterAll _ _ _)).trans
      (bystands_note _ application _)
  | error error => exact (hended.trans (hdown (·.merge))).trans (bystands_note _ application _)

omit [Inhabited Code] in
/-- A new watcher that depends on nothing yet. -/
theorem bystands_addWatcher (w : World Code Memory) {row : Watcher Code} (hdisposed : row.disposed = false) :
    w.Bystands (w.addWatcher row).2 := by
  have hget : ∀ y, (w.addWatcher row).2.watcher y
      = if y = w.watchers.fresh then row else w.watcher y := by
    intro y
    change (w.watchers.add row).get y = _
    split
    · next h => rw [h, Table.get_add_fresh]
    · next h => exact Table.get_add_of_ne _ _ h
  have hold : ∀ y : WatcherId, y.index < w.watchers.size →
      (w.addWatcher row).2.watcher y = w.watcher y := by
    intro y hy
    rw [hget, if_neg]
    rintro rfl
    exact Nat.lt_irrefl _ hy
  refine bystands_of_rows rfl rfl rfl (Nat.le_of_lt (Nat.lt_of_lt_of_eq (Nat.lt_succ_self _)
    (Table.size_add w.watchers row).symm)) (fun y hy => ?_) (fun y hy hover => ?_) Staffed.idle
    fun hw y => ?_
  · rw [hold y hy]
  · rwa [hold y hy]
  · by_cases hy : y = w.watchers.fresh
    · refine Or.inl ⟨by rw [hget, if_pos hy, hdisposed], fun s hs => absurd hs ?_⟩
      exact hw.unlisted (hy ▸ Nat.le_of_eq (Table.index_fresh w.watchers).symm) s
    · have hrow : (w.addWatcher row).2.watcher y = w.watcher y := by rw [hget, if_neg hy]
      exact (hw.fit y).imp (fun h => h.congr hrow fun _ => Iff.rfl) fun h => h.congr hrow fun _ => Iff.rfl

/-- Books were kept, and those whose books were open are in order. -/
theorem Spares.bystands {holds : Memory → List Ref} {busy : WatcherId → Prop}
    (h : Spares holds busy w w') (hbusy : ∀ x, busy x → w.Staffed → w'.Serves x ∨ w'.Retired x) :
    w.Bystands w' := by
  refine bystands_of_rows h.data.nodes h.data.bindings h.data.viewModels (Nat.le_of_eq h.size.symm)
    (fun x _ => (congrArg Watcher.reaction (h.watchers x) :))
    (fun x _ hover => (congrArg Watcher.disposed (h.watchers x)).trans hover) (fun hw x hx => ?_)
    fun hw x => ?_
  · exact hw.idle x ((evaluates_congr h.trackers).mp hx)
  · by_cases hx : busy x
    · exact hbusy x hx hw
    · exact (hw.fit x).imp (fun hserves => hserves.congr (h.row x hx) (h.listed.mem hx))
        fun hretired => hretired.congr (h.row x hx) (h.listed.mem hx)

theorem Browses.bystands {holds : Memory → List Ref} (h : Browses holds w w') : w.Bystands w' :=
  h.spares.bystands fun x hx hw => absurd hx (hw.idle x)

end World

end ViewBinding
