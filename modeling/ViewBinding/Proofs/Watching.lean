import ViewBinding.Proofs.Service

/-!
# Making a watcher

A watcher that is made for a node evaluates its path at once. If that works it serves: it depends on
every source that lists it. If not it is out of service, and it is as if it had not been made.
-/

namespace ViewBinding

open Engine

variable {Code Memory : Type} [Inhabited Code]

namespace World

/-- A world that is met after `origin`, in which nobody evaluates and nobody is listed but who has been
made. -/
structure Ready (origin w : World Code Memory) : Prop where
  kin : origin.Kin w
  manned : w.Manned
  listed : ∀ (x : WatcherId) (s : SourceId), Subscriber.watcher x ∈ (w.source s).subscribers →
    x.index < w.watchers.size

section Evaluating

variable {holds : Memory → List Ref} {busy : WatcherId → Prop} {origin w w₁ : World Code Memory}
  {here : NodeId → Prop} {owner : ViewModelId} {x : WatcherId}

theorem Ties.ready (h : Ties holds owner here w w₁) (hw : origin.Ready w) : origin.Ready w₁ where
  kin := hw.kin.trans h.kin
  manned := h.manned hw.manned
  listed x s hs := by
    rcases h.binds.made x s hs with hold | hlt
    · exact Nat.lt_of_lt_of_le (hw.listed x s hold) h.binds.watchers
    · exact hlt

theorem Ready.holding (h : origin.Ready w) (refs : List Ref) :
    origin.Ready { w with held := refs } :=
  ⟨⟨h.kin.size, h.kin.slots, h.kin.observed, h.kin.functions, h.kin.arrays, h.kin.probes,
    h.kin.bases, h.kin.faces⟩, h.manned, h.listed⟩

/-- A busy watcher keeps its own books. -/
theorem spares_mapDependencies (hlt : x.index < w.watchers.size) (hx : busy x)
    (f : Dependencies → Dependencies) :
    Spares holds busy w (w.mapDependencies (.watcher x) f) := by
  have haside : Aside holds w (w.mapDependencies (.watcher x) f) := aside_mapDependencies w _ f
  refine ⟨haside.toRests, haside.data, fun _ => rfl, Table.size_modify_of_lt _ hlt _, ?_,
    listsAlike_of_subscribers fun _ => rfl⟩
  intro y hy
  rw [mapDependencies, watcher_mapWatcher, if_neg]
  rintro rfl
  exact hy hx

/-- A busy watcher leaves the sources that it has not met again. -/
theorem spares_settle (hlt : x.index < w.watchers.size) (hx : busy x) :
    Spares holds busy w (w.settle (.watcher x)) := by
  have hfirst : Spares holds busy w (w.mapDependencies (.watcher x) (·.settle)) :=
    spares_mapDependencies hlt hx _
  have haside : Aside holds w (w.settle (.watcher x)) := aside_settle w _
  refine ⟨haside.toRests, haside.data, ?_, ?_, ?_, ?_⟩
  · exact fun id => Computed.base_eq_of_face_eq (haside.computeds id)
  · rw [settle_eq]
    exact hfirst.size
  · intro y hy
    rw [settle_eq]
    exact hfirst.row y hy
  · refine hfirst.listed.trans (listsAlike_unregisterAll _ (fun y hy heq => ?_) _)
    exact hy (Subscriber.watcher.inj heq ▸ hx)

end Evaluating

end World

namespace Engine

variable {application : Application Code Memory} {sure : Prop} {c : Reentry Code Memory}
  {origin w : World Code Memory} {x : WatcherId}

theorem Relies.note (h : Relies application sure c origin) (occurrence : Occurrence) {α : Type}
    {f : Unit → Engine Code Memory α} {Q : Except Error α → World Code Memory → Prop}
    (hf : Achieves sure (w.note application occurrence) (f ()) Q) :
    Achieves sure w (note c occurrence >>= f) Q := by
  rw [Engine.note, achieves_update_bind, h.codes]
  exact hf

/-- A watcher that evaluates touches nobody else. Afterwards it depends on every source that lists it, if
it did before, whether or not the evaluation was a success. -/
theorem achieves_evaluateWatcher (hrelies : Relies application sure c origin)
    (hkin : origin.Kin w) (hmanned : w.Manned) (hlt : x.index < w.watchers.size)
    (hlisted : ∀ s, Subscriber.watcher x ∈ (w.source s).subscribers →
      s ∈ (w.watcher x).dependencies.current) :
    Achieves sure w (evaluateWatcher c x) fun _ w' =>
      World.Spares application.holds (fun y => w.Evaluates (.watcher y) ∨ y = x) w w' ∧
        ∀ s, Subscriber.watcher x ∈ (w'.source s).subscribers →
          s ∈ (w'.watcher x).dependencies.current := by
  rw [evaluateWatcher, achieves_inspect_bind, evaluate, achieves_update_bind]
  refine hrelies.note _ ?_
  let begun := (w.mapDependencies (.watcher x) (·.begin)).note application (.evaluating (.watcher x))
  have hbegun : World.Spares application.holds (fun y => w.Evaluates (.watcher y) ∨ y = x) w begun :=
    (World.spares_mapDependencies hlt (Or.inr rfl) _).trans
      ((World.browses_note hrelies.quiet _ _).spares.mono fun y hy => Or.inl hy)
  have hmanned' : begun.Manned :=
    hmanned.of_rests hbegun.toRests (Nat.le_of_eq hbegun.size.symm)
  let pushed := begun.mapTracker (w.watcher x).tracker (·.push (some (.watcher x)))
  have hstart : pushed.Meanwhile pushed := by
    refine ⟨.refl _, fun _ => rfl, hmanned'.pushed fun y hy => ?_⟩
    rw [← Subscriber.watcher.inj (Option.some.inj hy)]
    exact Nat.lt_of_lt_of_eq hlt hbegun.size.symm
  have hread := browsing_readPath hrelies.quiet hrelies.codes
    (hrelies.getter (hkin.trans ((hbegun.data.kin hbegun.bases).trans
      (⟨rfl, fun _ => rfl, fun _ => rfl, rfl, rfl, rfl, fun _ => rfl, fun _ => rfl⟩ :
        begun.Kin pushed))))
    (w.watcher x).root (w.watcher x).path (some (w.watcher x).tracker) pushed hstart
  refine Achieves.attempt_bind (Achieves.framed _ _ hread (Q := fun _ w' =>
    World.Spares application.holds (fun y => w.Evaluates (.watcher y) ∨ y = x) begun w' ∧
      World.Collects x begun w') fun r w' h => ⟨?_, (h.collects x).popped⟩) fun r w' h => ?_
  · refine (h.spares.mono fun y hy => ?_).popped
    rcases (World.evaluates_push begun _ _).mp hy with heq | hevaluates
    · exact Or.inr (Subscriber.watcher.inj (Option.some.inj heq)).symm
    · exact Or.inl ((World.evaluates_congr hbegun.trackers).mp hevaluates)
  · obtain ⟨hspares, hcollects⟩ := h
    have hbefore : (begun.watcher x).dependencies.current = (w.watcher x).dependencies.current := by
      change ((w.mapDependencies (.watcher x) (·.begin)).watcher x).dependencies.current = _
      rw [World.mapDependencies, World.watcher_mapWatcher, if_pos rfl]
      rfl
    have hknown : ∀ s, Subscriber.watcher x ∈ (w'.source s).subscribers →
        s ∈ (w'.watcher x).dependencies.current ∨ s ∈ (w'.watcher x).dependencies.pending := by
      intro s hs
      rw [hcollects.current, hbefore]
      exact (hcollects.listed s hs).imp_left (hlisted s)
    have hlt' : x.index < w'.watchers.size :=
      Nat.lt_of_lt_of_eq hlt (hspares.size.trans hbegun.size).symm
    have hpassed := hbegun.trans hspares
    have hnote : ∀ (v : World Code Memory) (o : Occurrence),
        World.Spares application.holds (fun y => v.Evaluates (.watcher y)) v (v.note application o) :=
      fun v o => (World.browses_note hrelies.quiet v o).spares
    cases r with
    | ok value =>
      rw [achieves_update_bind]
      refine hrelies.note _ ((achieves_pure value).mpr ⟨?_, fun s hs => ?_⟩)
      · have hsettle : World.Spares application.holds
            (fun y => w.Evaluates (.watcher y) ∨ y = x) w' (w'.settle (.watcher x)) :=
          World.spares_settle hlt' (Or.inr rfl)
        refine (hpassed.trans hsettle).trans ((hnote _ _).mono fun y hy => Or.inl ?_)
        exact (World.evaluates_congr (hpassed.trans hsettle).trackers).mp hy
      · change Subscriber.watcher x ∈ ((w'.settle (.watcher x)).source s).subscribers at hs
        rw [World.settle, World.mem_source_unregisterAll] at hs
        obtain ⟨hs, hmet⟩ := hs
        change s ∈ ((w'.settle (.watcher x)).watcher x).dependencies.current
        rw [World.settle_eq]
        change s ∈ ((w'.mapDependencies (.watcher x) (·.settle)).watcher x).dependencies.current
        rw [World.mapDependencies, World.watcher_mapWatcher, if_pos rfl]
        refine Classical.byContradiction fun hpending => hmet ⟨rfl, ?_⟩
        exact Dependencies.mem_stale.mpr ⟨(hknown s hs).resolve_right hpending, hpending⟩
    | error error =>
      rw [achieves_update_bind]
      refine hrelies.note _ ((achieves_throw error).mpr ⟨?_, fun s hs => ?_⟩)
      · have hmerge : World.Spares application.holds (fun y => w.Evaluates (.watcher y) ∨ y = x) w'
            (w'.mapDependencies (.watcher x) (·.merge)) :=
          World.spares_mapDependencies hlt' (Or.inr rfl) _
        refine (hpassed.trans hmerge).trans ((hnote _ _).mono fun y hy => Or.inl ?_)
        exact (World.evaluates_congr (hpassed.trans hmerge).trackers).mp hy
      · change s ∈ ((w'.mapDependencies (.watcher x) (·.merge)).watcher x).dependencies.current
        rw [World.mapDependencies, World.watcher_mapWatcher, if_pos rfl]
        exact Dependencies.mem_current_merge.mpr (hknown s hs)

/-- A watcher that is made for a node serves, or it failed and is out of service. Nodes, bindings and
view models are as they were. -/
theorem achieves_watch (hrelies : Relies application sure c origin) (hw : origin.Ready w)
    (owner : ViewModelId) {n : NodeId} (t : TrackerId) (root : Value) (path : Path)
    {reaction : Reaction Code} (hreaction : reaction.node? = some n) :
    Achieves sure w (watch c t root path reaction) fun r w' =>
      World.Ties application.holds owner (· = n) w w' ∧
      (w'.nodes = w.nodes ∧ w'.bindings = w.bindings ∧ w'.viewModels = w.viewModels) ∧
      w'.watchers.size = w.watchers.size + 1 ∧
      ((w'.watcher w.watchers.fresh).reaction.node? = some n) ∧
      ((∃ x, r = .ok x ∧ x = w.watchers.fresh ∧ w'.Serves x) ∨
        (∃ e, r = .error e) ∧ w'.Retired w.watchers.fresh) := by
  rw [watch, achieves_create_bind]
  let x : WatcherId := w.watchers.fresh
  have hindex : x.index = w.watchers.size := Table.index_fresh w.watchers
  have hle : w.watchers.size ≤ x.index := Nat.le_of_eq hindex.symm
  let holding : World Code Memory := { w with held := [.watcher x] ++ w.held }
  let row : Watcher Code := { tracker := t, root, path, reaction }
  let added := (holding.addWatcher row).2
  have hmade : World.Ties application.holds owner (· = n) holding added :=
    (World.Ties.refl holding).addWatcher rfl hreaction
  have hready : origin.Ready added := hmade.ready (hw.holding _)
  have hsize : added.watchers.size = w.watchers.size + 1 := Table.size_add w.watchers row
  have hlt : x.index < added.watchers.size := by
    rw [hsize]
    exact Nat.lt_succ_of_le (Nat.le_of_eq hindex)
  have hrow : added.watcher x = row := Table.get_add_fresh w.watchers row
  have hunlisted : ∀ s, Subscriber.watcher x ∉ (added.source s).subscribers := by
    intro s hs
    exact Nat.lt_irrefl _ (Nat.lt_of_lt_of_le (hw.listed x s hs) hle)
  refine Achieves.keeping [.watcher x] (R := fun r v =>
    World.Ties application.holds owner (· = n) holding v ∧
      (v.nodes = w.nodes ∧ v.bindings = w.bindings ∧ v.viewModels = w.viewModels) ∧
      v.watchers.size = w.watchers.size + 1 ∧ (v.watcher x).reaction.node? = some n ∧
      ((∃ y, r = .ok y ∧ y = x ∧ v.Serves y) ∨ (∃ e, r = .error e) ∧ v.Retired x)) ?_
    fun r v hv => ⟨hv.1.released, hv.2⟩
  refine Achieves.attempt_bind
    (achieves_evaluateWatcher hrelies hready.kin hready.manned hlt
      fun s hs => absurd hs (hunlisted s)) fun r v hv => ?_
  obtain ⟨hspares, hcurrent⟩ := hv
  have hface : (v.watcher x).face = row.face := hrow ▸ hspares.watchers x
  have hserves : v.Serves x := ⟨congrArg Watcher.disposed hface, hcurrent⟩
  have hnode : (v.watcher x).reaction.node? = some n :=
    (congrArg (fun row => row.reaction.node?) hface).trans hreaction
  have hties : World.Ties application.holds owner (· = n) holding v := by
    refine hmade.spares hw.manned hspares ?_
    rintro y (hy | rfl)
    · exact Or.inl ((World.evaluates_congr hmade.trackers).mp hy)
    · exact Or.inr ⟨hle, hlt⟩
  have hvlt : x.index < v.watchers.size := Nat.lt_of_lt_of_eq hlt hspares.size.symm
  have hvsize : v.watchers.size = w.watchers.size + 1 := hspares.size.trans hsize
  have hvsame : v.nodes = w.nodes ∧ v.bindings = w.bindings ∧ v.viewModels = w.viewModels :=
    ⟨hspares.data.nodes, hspares.data.bindings, hspares.data.viewModels⟩
  cases r with
  | ok value =>
    have hself : (v.mapWatcher x fun row => { row with cached := value }).watcher x
        = { v.watcher x with cached := value } := by
      rw [World.watcher_mapWatcher, if_pos rfl]
    have hcached : (v.mapWatcher x fun row => { row with cached := value }).Serves x :=
      ⟨(congrArg Watcher.disposed hself).trans hserves.1, fun s hs =>
        (congrArg (s ∈ ·.dependencies.current) hself).mpr (hserves.2 s hs)⟩
    refine (achieves_update_bind _).mpr ((achieves_pure x).mpr ⟨hties.mapWatcher hle hvlt fun _ => rfl,
      hvsame, (Table.size_modify_of_lt _ hvlt _).trans hvsize, ?_, Or.inl ⟨x, rfl, rfl, hcached⟩⟩)
    exact (congrArg (fun row => row.reaction.node?) hself).trans hnode
  | error error =>
    have hsame : (v.teardownWatcher x).nodes = w.nodes ∧ (v.teardownWatcher x).bindings = w.bindings ∧
        (v.teardownWatcher x).viewModels = w.viewModels := by
      rw [World.teardownWatcher_eq]
      exact hvsame
    have hnode' : ((v.teardownWatcher x).watcher x).reaction.node? = some n := by
      rw [World.reaction_teardownWatcher]
      exact hnode
    exact (achieves_update_bind _).mpr ((achieves_throw error).mpr ⟨hties.teardownWatcher hle hvlt,
      hsame, (World.size_teardownWatcher hvlt).trans hvsize, hnode',
      Or.inr ⟨⟨error, rfl⟩, World.retired_teardownWatcher (Or.inl hserves)⟩⟩)

end Engine

end ViewBinding
