import ViewBinding.Proofs.Watching

/-!
# Installing a directive

With the standard installers, carrying out a directive makes one binding whose watchers all serve, or it
fails, and then the watchers that it made are out of service. A template that cannot be shown leaves its
text alone.
-/

namespace ViewBinding

open Engine

variable {Code Memory : Type} [Inhabited Code]

namespace World

section Staffing

omit [Inhabited Code]

/-- The watchers of a binding serve, and all others that were made since are out of service. -/
structure Staffs (b : BindingId) (w w' : World Code Memory) : Prop where
  serves : ∀ x ∈ (w'.binding b).watchers, w'.Serves x
  others : ∀ x : WatcherId, w.watchers.size ≤ x.index → x.index < w'.watchers.size →
    x ∈ (w'.binding b).watchers ∨ w'.Retired x

/-- An active binding was made for a node. -/
structure MadeFor (node : NodeId) (kind : DirectiveKind) (b : BindingId) (w w' : World Code Memory) :
    Prop where
  fresh : w.bindings.size ≤ b.index
  made : b.index < w'.bindings.size
  node_eq : (w'.binding b).node = node
  kind_eq : (w'.binding b).kind = kind
  active : (w'.binding b).active = true
  staffs : Staffs b w w'

variable {b : BindingId} {w w₁ w₂ : World Code Memory}

/-- A change of other things. -/
theorem Staffs.congr (h : Staffs b w w₁) (hbinding : w₂.binding b = w₁.binding b)
    (hsize : w₂.watchers.size = w₁.watchers.size)
    (hrow : ∀ x : WatcherId, w.watchers.size ≤ x.index → w₂.watcher x = w₁.watcher x)
    (hlisted : ∀ x : WatcherId, w.watchers.size ≤ x.index → ∀ s,
      Subscriber.watcher x ∈ (w₂.source s).subscribers ↔ .watcher x ∈ (w₁.source s).subscribers)
    (hown : ∀ x ∈ (w₁.binding b).watchers, w.watchers.size ≤ x.index) : Staffs b w w₂ where
  serves x hx := by
    rw [hbinding] at hx
    exact (h.serves x hx).congr (hrow x (hown x hx)) (hlisted x (hown x hx))
  others x hx hlt := by
    rw [hbinding]
    exact (h.others x hx (hsize ▸ hlt)).imp_right fun hr => hr.congr (hrow x hx) (hlisted x hx)

end Staffing

section Meanwhile

variable {holds : Memory → List Ref} {here : NodeId → Prop} {owner : ViewModelId} {b : BindingId}
  {w w₁ w₂ : World Code Memory}

/-- Reading leaves the staff alone, since nobody of it evaluates. -/
theorem Staffs.browses (h : Staffs b w w₁) (hties : Ties holds owner here w w₁) (hmanned : w.Manned)
    (hb : w.bindings.size ≤ b.index) (hw : Browses holds w₁ w₂) : Staffs b w w₂ := by
  have hidle : ∀ x : WatcherId, w.watchers.size ≤ x.index → ¬ w₁.Evaluates (.watcher x) := by
    intro x hx hevaluates
    exact Nat.not_lt.mpr hx (hmanned x ((evaluates_congr hties.trackers).mp hevaluates))
  refine h.congr ?_ hw.spares.size (fun x hx => hw.spares.row x (hidle x hx))
    (fun x hx => hw.spares.listed.mem (hidle x hx)) fun x hx => (hties.binds.own b hb x hx).1
  rw [binding, hw.spares.data.bindings, binding]

/-- Reading is a way of binding no nodes at all. -/
theorem Ties.browses (h : Ties holds owner here w w₁) (hmanned : w.Manned)
    (hw : Browses holds w₁ w₂) : Ties holds owner here w w₂ :=
  h.spares hmanned hw.spares fun _ hx => Or.inl ((evaluates_congr h.trackers).mp hx)

/-- A binding that was made like `row` is getting its watchers. -/
structure AtWork (holds : Memory → List Ref) (owner : ViewModelId) (row : Binding) (b : BindingId)
    (w w' : World Code Memory) : Prop where
  ties : Ties holds owner (· = row.node) w w'
  staffs : Staffs b w w'
  fresh : w.bindings.size ≤ b.index
  made : b.index < w'.bindings.size
  binding : ∃ watchers, w'.binding b = { row with watchers }
  nodes : w'.nodes = w.nodes
  viewModels : w'.viewModels = w.viewModels

variable {row : Binding}

theorem atWork_addBinding (w : World Code Memory) (hrow : row.watchers = []) :
    AtWork holds owner row w.bindings.fresh w (w.addBinding row).2 := by
  have hget : (w.addBinding row).2.binding w.bindings.fresh = row := Table.get_add_fresh _ _
  refine ⟨(Ties.refl w).addBinding rfl hrow, ⟨?_, ?_⟩, ?_, ?_, ⟨[], ?_⟩, rfl, rfl⟩
  · intro x hx
    rw [hget, hrow] at hx
    cases hx
  · exact fun x hx hlt => absurd hlt (Nat.not_lt.mpr hx)
  · exact Nat.le_of_eq (Table.index_fresh w.bindings).symm
  · refine Nat.lt_of_lt_of_eq ?_ (Table.size_add w.bindings row).symm
    exact Nat.lt_succ_of_le (Nat.le_of_eq (Table.index_fresh w.bindings))
  · rw [hget, ← hrow]

theorem AtWork.browses (h : AtWork holds owner row b w w₁) (hmanned : w.Manned)
    (hw : Browses holds w₁ w₂) : AtWork holds owner row b w w₂ where
  ties := h.ties.browses hmanned hw
  staffs := h.staffs.browses h.ties hmanned h.fresh hw
  fresh := h.fresh
  made := by
    rw [hw.spares.data.bindings]
    exact h.made
  binding := by
    rw [World.binding, hw.spares.data.bindings]
    exact h.binding
  nodes := hw.spares.data.nodes.trans h.nodes
  viewModels := hw.spares.data.viewModels.trans h.viewModels

/-- What is at work while things are held is finished when they are released. -/
theorem AtWork.madeFor (h : AtWork holds owner row b w w₁) (hactive : row.active = true)
    (nodes : Table NodeId (Node Code)) :
    MadeFor row.node row.kind b w { w₁ with nodes } := by
  obtain ⟨watchers, hrow⟩ := h.binding
  refine ⟨h.fresh, h.made, ?_, ?_, ?_, h.staffs.serves, h.staffs.others⟩
  · change (w₁.binding b).node = _
    rw [hrow]
  · change (w₁.binding b).kind = _
    rw [hrow]
  · change (w₁.binding b).active = true
    rw [hrow]
    exact hactive

/-- A watcher was made for the binding, or failed and is out of service. -/
theorem AtWork.watched (h : AtWork holds owner row b w w₁) (hmanned : w.Manned)
    (hties : Ties holds owner (· = row.node) w₁ w₂)
    (hsize : w₂.watchers.size = w₁.watchers.size + 1)
    (hends : w₂.Serves w₁.watchers.fresh ∨ w₂.Retired w₁.watchers.fresh) :
    Ties holds owner (· = row.node) w w₂ ∧ w₂.binding b = w₁.binding b ∧
      (∀ x ∈ (w₁.binding b).watchers, w₂.Serves x) ∧
      ∀ x : WatcherId, w.watchers.size ≤ x.index → x.index < w₂.watchers.size →
        x ∈ (w₁.binding b).watchers ∨ w₂.Retired x ∨
          (x = w₁.watchers.fresh ∧ w₂.Serves x) := by
  have hidle : ∀ x : WatcherId, w.watchers.size ≤ x.index → ¬ w₁.Evaluates (.watcher x) := by
    intro x hx hevaluates
    exact Nat.not_lt.mpr hx (hmanned x ((evaluates_congr h.ties.trackers).mp hevaluates))
  refine ⟨h.ties.trans hties hmanned, hties.binds.binding b h.made, fun x hx => ?_, fun x hx hlt => ?_⟩
  · obtain ⟨hle, hlt, -⟩ := h.ties.binds.own b h.fresh x hx
    exact (hties.spared hlt (hidle x hle)).1 (h.staffs.serves x hx)
  · by_cases hold : x.index < w₁.watchers.size
    · exact (h.staffs.others x hx hold).imp_right fun hr =>
        Or.inl ((hties.spared hold (hidle x hx)).2 hr)
    · have heq : x = w₁.watchers.fresh := by
        refine Key.index_inj.mp ?_
        rw [Table.index_fresh]
        exact Nat.le_antisymm (Nat.le_of_lt_succ (Nat.lt_of_lt_of_eq hlt hsize)) (Nat.le_of_not_lt hold)
      subst heq
      exact Or.inr (hends.symm.imp_right fun hs => ⟨rfl, hs⟩)

end Meanwhile

end World

namespace Engine

variable {application : Application Code Memory} {sure : Prop} {c : Reentry Code Memory}
  {origin w w₁ : World Code Memory} {owner : ViewModelId} {n : NodeId} {b : BindingId} {row : Binding}

/-- Another watcher for a binding at work. If it fails the binding is as it was. -/
theorem achieves_watchFor (hrelies : Relies application sure c origin) (hw : origin.Ready w)
    (hwork : World.AtWork application.holds owner row b w w₁) (path : Path) {reaction : Reaction Code}
    (hreaction : reaction.node? = some row.node) :
    Achieves sure w₁ (watchFor c owner b path reaction) fun r w₂ =>
      World.AtWork application.holds owner row b w w₂ ∧
        ((∃ e, r = .error e) → w₂.binding b = w₁.binding b) := by
  rw [watchFor, watchOn, bind_assoc, achieves_inspect_bind]
  refine (achieves_watch hrelies (hwork.ties.ready hw) owner _ _ path hreaction).bind ?_ ?_
  · rintro x w₂ ⟨hstep, hsame, hsize, hnode, hends⟩
    obtain ⟨y, hy, rfl, hserves⟩ | ⟨⟨e, he⟩, -⟩ := hends
    · cases hy
      obtain ⟨hties, hbinding, hserve, hothers⟩ :=
        hwork.watched hw.manned hstep hsize (Or.inl hserves)
      obtain ⟨watchers, hrow⟩ := hwork.binding
      have hplace : (w₂.binding b).node = row.node := by rw [hbinding, hrow]
      have hlt : b.index < w₂.bindings.size := hsame.2.1 ▸ hwork.made
      have hself : (w₂.mapBinding b fun row => { row with
          watchers := row.watchers ++ [w₁.watchers.fresh] }).binding b
          = { row with watchers := watchers ++ [w₁.watchers.fresh] } := by
        rw [World.binding_mapBinding, if_pos rfl, hbinding, hrow]
      rw [achieves_update_bind, achieves_pure]
      refine ⟨⟨hties.mapBinding hwork.fresh hlt rfl ?_, ⟨?_, ?_⟩, hwork.fresh, ?_, ⟨_, hself⟩,
        hsame.1.trans hwork.nodes, hsame.2.2.trans hwork.viewModels⟩, fun ⟨e, he⟩ => by cases he⟩
      · intro x hx
        rcases List.mem_append.mp hx with hold | hnew
        · exact Or.inl hold
        · rw [List.mem_singleton] at hnew
          subst hnew
          refine Or.inr ⟨?_, ?_, hplace ▸ hnode⟩
          · exact Nat.le_trans hwork.ties.binds.watchers
              (Nat.le_of_eq (Table.index_fresh w₁.watchers).symm)
          · rw [hsize]
            exact Nat.lt_succ_of_le (Nat.le_of_eq (Table.index_fresh w₁.watchers))
      · intro x hx
        rw [hself] at hx
        rcases List.mem_append.mp hx with hold | hnew
        · exact hserve x (by rw [hrow]; exact hold)
        · exact List.mem_singleton.mp hnew ▸ hserves
      · intro x hx hlt'
        rw [hself]
        rcases hothers x hx hlt' with hold | hretired | ⟨rfl, -⟩
        · rw [hrow] at hold
          exact Or.inl (List.mem_append_left _ hold)
        · exact Or.inr hretired
        · exact Or.inl (List.mem_append_right _ (List.mem_singleton_self _))
      · exact Nat.lt_of_lt_of_eq hlt (Table.size_modify_of_lt _ hlt _).symm
    · cases he
  · rintro e w₂ ⟨hstep, hsame, hsize, -, hends⟩
    obtain ⟨y, hy, -⟩ | ⟨-, hretired⟩ := hends
    · cases hy
    · obtain ⟨hties, hbinding, hserve, hothers⟩ :=
        hwork.watched hw.manned hstep hsize (Or.inr hretired)
      refine ⟨⟨hties, ⟨?_, fun x hx hlt => ?_⟩, hwork.fresh, hsame.2.1 ▸ hwork.made, ?_,
        hsame.1.trans hwork.nodes, hsame.2.2.trans hwork.viewModels⟩, fun _ => hbinding⟩
      · rw [hbinding]
        exact hserve
      · rw [hbinding]
        rcases hothers x hx hlt with hold | hr | ⟨rfl, -⟩
        · exact Or.inl hold
        · exact Or.inr hr
        · exact Or.inr hretired
      · rw [hbinding]
        exact hwork.binding

/-- One watcher for every placeholder, until one fails. -/
theorem achieves_watchPlaceholders (hrelies : Relies application sure c origin) (hw : origin.Ready w)
    (hwork : World.AtWork application.holds owner row b w w₁) (paths : List Path)
    {reaction : Reaction Code} (hreaction : reaction.node? = some row.node) :
    Achieves sure w₁ (watchPlaceholders c owner b reaction paths) fun _ w₂ =>
      World.AtWork application.holds owner row b w w₂ := by
  induction paths generalizing w₁ with
  | nil => exact (achieves_pure ()).mpr hwork
  | cons path rest inductionHypothesis =>
    refine (achieves_watchFor hrelies hw hwork path hreaction).bind ?_ ?_
    · exact fun _ _ h => inductionHypothesis h.1
    · exact fun _ _ h => h.1

end Engine

/-! ### Installers -/

namespace World

/-- How carrying out a directive on a node may end: with a binding, or with nothing in service. -/
structure Installs (holds : Memory → List Ref) (owner : ViewModelId) (n : NodeId)
    (kind : DirectiveKind) (w : World Code Memory) (r : Except Error BindingId)
    (w' : World Code Memory) : Prop where
  ties : Ties holds owner (· = n) w w'
  viewModels : w'.viewModels = w.viewModels
  made : ∀ b, r = .ok b → MadeFor n kind b w w'
  retired : (∃ e, r = .error e) → ∀ x : WatcherId, w.watchers.size ≤ x.index →
    x.index < w'.watchers.size → w'.Retired x

variable {holds : Memory → List Ref} {owner : ViewModelId} {n : NodeId} {kind : DirectiveKind}
  {w w₁ : World Code Memory} {r : Except Error BindingId}

theorem installs_error (w : World Code Memory) (e : Error) :
    Installs holds owner n kind w (.error e) w :=
  ⟨.refl w, rfl, fun _ hb => (by cases hb), fun _ _ hx hlt => absurd hlt (Nat.not_lt.mpr hx)⟩

/-- What was held meanwhile is released. -/
theorem Installs.released {refs : List Ref}
    (h : Installs holds owner n kind { w with held := refs } r w₁) :
    Installs holds owner n kind w r { w₁ with held := w.held } where
  ties := h.ties.released
  viewModels := h.viewModels
  made b hb :=
    have hmade := h.made b hb
    ⟨hmade.fresh, hmade.made, hmade.node_eq, hmade.kind_eq, hmade.active, hmade.staffs.serves,
      hmade.staffs.others⟩
  retired := h.retired

theorem Installs.addListener (h : Installs holds owner n kind w r w₁) (event : String)
    (listener : Listener Code) :
    Installs holds owner n kind w r (w₁.mapNode n (·.addListener event listener)) where
  ties := h.ties.addListener rfl event listener
  viewModels := h.viewModels
  made b hb :=
    have hmade := h.made b hb
    ⟨hmade.fresh, hmade.made, hmade.node_eq, hmade.kind_eq, hmade.active, hmade.staffs.serves,
      hmade.staffs.others⟩
  retired := h.retired

end World

namespace Engine

variable {application : Application Code Memory} {sure : Prop} {c : Reentry Code Memory}
  {origin w w₁ : World Code Memory} {owner : ViewModelId} {n : NodeId}

theorem achieves_installRender (hrelies : Relies application sure c origin) (hw : origin.Ready w)
    (kind : DirectiveKind) (updater : Updater) (path : Path) :
    Achieves sure w (installRender c owner n kind updater path)
      (World.Installs application.holds owner n kind w) := by
  rw [installRender, achieves_create_bind]
  let row : Binding := { node := n, kind, expression := path.text }
  let holding : World Code Memory := { w with held := [.binding w.bindings.fresh] ++ w.held }
  have hwork : World.AtWork application.holds owner row w.bindings.fresh holding
      (holding.addBinding row).2 := World.atWork_addBinding holding rfl
  refine Achieves.keeping _ (R := World.Installs application.holds owner n kind holding) ?_
    fun r v hv => hv.released
  have hreaction : (Reaction.render updater n : Reaction Code).node? = some row.node := rfl
  refine (achieves_watchFor hrelies (hw.holding _) hwork path hreaction).bind ?_ ?_
  · rintro x v ⟨hwork', -⟩
    rw [achieves_update_bind, achieves_pure]
    have hties := hwork'.ties.display updater rfl (v.watcher x).cached
    rw [World.display_eq] at hties ⊢
    refine ⟨hties, hwork'.viewModels, fun b hb => ?_, fun ⟨e, he⟩ => by cases he⟩
    cases hb
    exact hwork'.madeFor rfl _
  · rintro e v ⟨hwork', hbinding⟩
    refine ⟨hwork'.ties, hwork'.viewModels, fun b hb => (by cases hb), fun _ x hx hlt => ?_⟩
    refine (hwork'.staffs.others x hx hlt).resolve_left ?_
    have hempty : (v.binding w.bindings.fresh).watchers = [] :=
      (congrArg Binding.watchers (hbinding ⟨e, rfl⟩)).trans
        (congrArg Binding.watchers (Table.get_add_fresh w.bindings row))
    intro hmem
    change x ∈ (v.binding w.bindings.fresh).watchers at hmem
    rw [hempty] at hmem
    cases hmem

theorem achieves_installModel (hrelies : Relies application sure c origin) (hw : origin.Ready w)
    (directive : Directive) :
    Achieves sure w (installModel c owner n directive)
      (World.Installs application.holds owner n .model w) := by
  rw [installModel]
  refine achieves_ofExcept_bind _ (fun path _ => ?_) fun e _ => World.installs_error w e
  refine (achieves_installRender hrelies hw .model .value path).bind (fun b v hv => ?_) fun e v hv => ?_
  · rw [achieves_update_bind, achieves_pure]
    exact hv.addListener "input" _
  · exact ⟨hv.ties, hv.viewModels, fun _ hb => (by cases hb), fun _ => hv.retired ⟨e, rfl⟩⟩

theorem achieves_get (hrelies : Relies application sure c origin) (hw : origin.Ready w)
    (object : ObjectId) (key : String) (reader : Option TrackerId) :
    Achieves sure w (Engine.get c object key reader) fun _ w' =>
      World.Browses application.holds w w' :=
  browsing_get hrelies.quiet hrelies.codes (hrelies.getter hw.kin) object key reader w
    ⟨.refl w, fun _ => rfl, hw.manned⟩

/-- A listener needs no watcher. -/
theorem achieves_installOn (hrelies : Relies application sure c origin) (hw : origin.Ready w)
    (directive : Directive) :
    Achieves sure w (installOn c owner n directive)
      (World.Installs application.holds owner n .on w) := by
  rw [installOn]
  cases directive.argument with
  | none => exact (achieves_throw _).mpr (World.installs_error w _)
  | some event =>
    simp only
    rw [achieves_inspect_bind]
    have hidle : ∀ (r : Except Error BindingId) {v : World Code Memory},
        World.Browses application.holds w v → (∀ b, r ≠ .ok b) →
        World.Installs application.holds owner n .on w r v := by
      intro r v hv hr
      refine ⟨(World.Ties.refl w).browses hw.manned hv, hv.spares.data.viewModels,
        fun b hb => absurd hb (hr b), fun _ x hx hlt => ?_⟩
      rw [hv.spares.size] at hlt
      exact absurd hlt (Nat.not_lt.mpr hx)
    refine (achieves_get hrelies hw _ _ _).bind (fun value v hv => ?_) fun e v hv => ?_
    · cases value with
      | function id name =>
        simp only
        rw [achieves_create_bind, achieves_update_bind, achieves_pure]
        let row : Binding := { node := n, kind := .on, expression := directive.expression }
        have hwork : World.AtWork application.holds owner row v.bindings.fresh v
            (v.addBinding row).2 := World.atWork_addBinding v rfl
        have hnone : World.Ties application.holds owner (· = n) w w := .refl w
        have hties := hnone.browses hw.manned hv
        have hmade := hwork.madeFor rfl v.nodes
        refine World.Installs.addListener (r := .ok v.bindings.fresh) ⟨hties.trans hwork.ties hw.manned,
          hv.spares.data.viewModels, fun b hb => ?_, fun ⟨e, he⟩ => by cases he⟩ event _
        cases hb
        refine ⟨?_, hmade.made, hmade.node_eq, hmade.kind_eq, hmade.active, hmade.staffs.serves, ?_⟩
        · exact Nat.le_trans hties.binds.bindings hmade.fresh
        · intro x hx hlt
          exact absurd hlt (Nat.not_lt.mpr (Nat.le_trans (Nat.le_of_eq hv.spares.size) hx))
      | _ => exact (achieves_throw _).mpr (hidle _ hv fun _ h => by cases h)
    · exact hidle _ hv fun _ h => by cases h

/-- With the standard installers a directive makes a binding of its kind or fails. -/
theorem achieves_install (hrelies : Relies application sure c origin) (hw : origin.Ready w)
    {installer : Installer Code} {directive : Directive}
    (hinstaller : Registry.standard.find? directive.kind = some installer) :
    Achieves sure w (install c installer owner n directive)
      (World.Installs application.holds owner n directive.kind w) := by
  have hrender : ∀ kind updater, Achieves sure w
      (ofExcept (Path.parse directive.expression) >>= fun path =>
        installRender c owner n kind updater path)
      (World.Installs application.holds owner n kind w) := by
    intro kind updater
    refine achieves_ofExcept_bind _ (fun path _ => ?_) fun e _ => World.installs_error w e
    exact achieves_installRender hrelies hw kind updater path
  cases hkind : directive.kind with
  | model =>
    rw [hkind] at hinstaller
    cases hinstaller
    exact achieves_installModel hrelies hw directive
  | on =>
    rw [hkind] at hinstaller
    cases hinstaller
    exact achieves_installOn hrelies hw directive
  | html =>
    rw [hkind] at hinstaller
    cases hinstaller
    rw [install, hkind]
    exact hrender .html .html
  | text =>
    rw [hkind] at hinstaller
    cases hinstaller
    rw [install, hkind]
    exact hrender .text .text

/-! ### Templates -/

omit [Inhabited Code] in
theorem source_of_parse {text : String} {delimiters : Delimiters} {template : Template}
    (h : Template.parse text delimiters = .ok template) : template.source = text := by
  rw [Template.parse] at h
  cases hsegments : Template.segmentsFrom text delimiters.opener.toList delimiters.closer.toList 0
      text.toList with
  | error e =>
    rw [hsegments] at h
    cases h
  | ok segments =>
    rw [hsegments] at h
    cases h
    rfl

omit [Inhabited Code] in
theorem setText_mapTracker (w : World Code Memory) (n : NodeId) (content : String) (t : TrackerId)
    (f : Tracker → Tracker) :
    (w.setText n content).mapTracker t f = (w.mapTracker t f).setText n content := by
  have hnode : (w.mapTracker t f).node n = w.node n := rfl
  unfold World.setText
  rw [hnode]
  cases w.node n <;> rfl

/-- A text node that shows a template has one binding; one that does not is as it was. -/
theorem achieves_installInterpolation (hrelies : Relies application sure c origin)
    (hw : origin.Ready w) (text : String) :
    Achieves sure w (installInterpolation c owner n text) fun r w' =>
      World.Ties application.holds owner (· = n) w w' ∧ w'.viewModels = w.viewModels ∧
      (∀ b, r = .ok b → World.MadeFor n .text b w w' ∧ (w'.binding b).expression = text ∧
        n.index < w'.nodes.size) ∧
      ((∃ e, r = .error e) → w'.nodes = w.nodes) := by
  rw [installInterpolation, achieves_inspect_bind]
  refine achieves_ofExcept_bind _ (fun template htemplate => ?_) fun e _ =>
    ⟨.refl w, rfl, fun _ hb => (by cases hb), fun _ => rfl⟩
  rw [achieves_create_bind]
  let row : Binding := { node := n, kind := .text, expression := template.source }
  let holding : World Code Memory := { w with held := [.binding w.bindings.fresh] ++ w.held }
  have hwork : World.AtWork application.holds owner row w.bindings.fresh holding
      (holding.addBinding row).2 := World.atWork_addBinding holding rfl
  have hready := hw.holding ([.binding w.bindings.fresh] ++ w.held)
  refine Achieves.keeping _ (R := fun r v => World.Ties application.holds owner (· = n) holding v ∧
    v.viewModels = w.viewModels ∧
    (∀ b, r = .ok b → World.MadeFor n .text b holding v ∧ (v.binding b).expression = text ∧
      n.index < v.nodes.size) ∧
    ((∃ e, r = .error e) → v.nodes = w.nodes)) ?_ fun r v hv => ?_
  · have hreaction : (Reaction.interpolate template (.object (w.viewModel owner).root)
        (w.viewModel owner).tracker n : Reaction Code).node? = some row.node := rfl
    refine (achieves_watchPlaceholders hrelies hready hwork template.paths hreaction).bind ?_ ?_
    · intro _ v hv
      let t := (w.viewModel owner).tracker
      have hstart : (v.mapTracker t (·.push none)).Meanwhile (v.mapTracker t (·.push none)) := by
        refine ⟨.refl _, fun _ => rfl, (hv.ties.manned hready.manned).pushed fun _ h => ?_⟩
        cases h
      have hkin : origin.Kin (v.mapTracker t (·.push none)) :=
        hready.kin.trans (hv.ties.kin.trans ⟨rfl, fun _ => rfl, fun _ => rfl, rfl, rfl, rfl,
          fun _ => rfl, fun _ => rfl⟩)
      have hrender := browsing_renderTemplate hrelies.quiet hrelies.codes (hrelies.getter hkin) template
        (.object (w.viewModel owner).root) (some t) _ hstart
      refine (Achieves.framed t none (hrender.bind (R := fun _ v' => World.Browses application.holds _ v')
        (P := fun r v' => ∃ v₁, World.Browses application.holds (v.mapTracker t (·.push none)) v₁ ∧
          (r = .ok () ∧ (∃ shown, v' = v₁.setText n shown) ∨ (∃ e, r = .error e) ∧ v' = v₁))
        (fun shown v' hv' => ?_) fun e v' hv' => ⟨v', hv', Or.inr ⟨⟨e, rfl⟩, rfl⟩⟩)
        (Q := fun r v' => ∃ v₁, World.AtWork application.holds owner row w.bindings.fresh holding v₁ ∧
          (r = .ok () ∧ (∃ shown, v' = v₁.setText n shown) ∨ (∃ e, r = .error e) ∧ v' = v₁))
        fun r v' hv' => ?_).bind ?_ ?_
      · exact (achieves_update _).mpr ⟨v', hv', Or.inl ⟨rfl, shown, rfl⟩⟩
      · obtain ⟨v₁, hbrowses, hends⟩ := hv'
        refine ⟨v₁.mapTracker t (·.pop), hv.browses hready.manned (hbrowses.popped fun _ h => by cases h),
          hends.imp ?_ ?_⟩
        · rintro ⟨hr, shown, rfl⟩
          exact ⟨hr, shown, setText_mapTracker v₁ n shown t _⟩
        · rintro ⟨hr, rfl⟩
          exact ⟨hr, rfl⟩
      · rintro u v' ⟨v₁, hwork', ⟨-, shown, rfl⟩ | ⟨⟨e, he⟩, -⟩⟩
        · have hties := hwork'.ties.setText rfl shown
          have hlt := World.index_lt_setText v₁ n shown
          rw [World.setText_eq] at hties hlt ⊢
          rw [achieves_pure]
          refine ⟨hties, hwork'.viewModels, fun b hb => ?_, fun ⟨e, he⟩ => by cases he⟩
          cases hb
          refine ⟨hwork'.madeFor rfl _, ?_, hlt⟩
          obtain ⟨watchers, hrow⟩ := hwork'.binding
          exact (congrArg Binding.expression hrow).trans (source_of_parse htemplate)
        · cases he
      · rintro e v' ⟨v₁, hwork', ⟨hr, -⟩ | ⟨-, rfl⟩⟩
        · cases hr
        · exact ⟨hwork'.ties, hwork'.viewModels, fun _ hb => (by cases hb), fun _ => hwork'.nodes⟩
    · intro e v hv
      exact ⟨hv.ties, hv.viewModels, fun _ hb => (by cases hb), fun _ => hv.nodes⟩
  · obtain ⟨hties, hviewModels, hmade, hnodes⟩ := hv
    refine ⟨hties.released, hviewModels, fun b hb => ?_, hnodes⟩
    obtain ⟨hfor, hrest⟩ := hmade b hb
    exact ⟨⟨hfor.fresh, hfor.made, hfor.node_eq, hfor.kind_eq, hfor.active, hfor.staffs.serves,
      hfor.staffs.others⟩, hrest⟩

end Engine

end ViewBinding
