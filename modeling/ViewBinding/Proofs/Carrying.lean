import ViewBinding.Proofs.Installing

/-!
# Carrying out the attributes of an element

Every attribute that is a directive makes one binding or fails, and the next one is carried out in
either case. The bindings come in the order of the attributes, their watchers serve, and every other
watcher that was made on the way is out of service.
-/

namespace ViewBinding

open Engine

variable {Code Memory : Type} [Inhabited Code]

namespace World

/-- What became of attributes of a node, in order, in a pass that began at `origin`: each one that is a
directive made a binding of its kind or failed with an error, and the others are passed over. A failure
is given with the raw value of its attribute. -/
inductive Carried (c : Reentry Code Memory) (owner : ViewModelId) (n : NodeId)
    (origin w : World Code Memory) :
    List (String × String) → List BindingId → List (String × Error) → Prop
  | nil : Carried c owner n origin w [] [] []
  | plain {name value : String} {rest : List (String × String)} {bs : List BindingId}
      {fs : List (String × Error)}
      (hparse : Directive.parse name value (origin.viewModel owner).settings.mark = .ok none)
      (hrest : Carried c owner n origin w rest bs fs) :
      Carried c owner n origin w ((name, value) :: rest) bs fs
  | made {name value : String} {rest : List (String × String)} {bs : List BindingId}
      {fs : List (String × Error)} {directive : Directive} {b : BindingId}
      (hparse : Directive.parse name value (origin.viewModel owner).settings.mark
        = .ok (some directive))
      (hnode : (w.binding b).node = n) (hkind : (w.binding b).kind = directive.kind)
      (hrest : Carried c owner n origin w rest bs fs) :
      Carried c owner n origin w ((name, value) :: rest) (b :: bs) fs
  | failed {name value : String} {rest : List (String × String)} {bs : List BindingId}
      {fs : List (String × Error)} {e : Error}
      (hparse : Directive.parse name value (origin.viewModel owner).settings.mark ≠ .ok none)
      (hfails : ∃ before after, origin.Kin before ∧
        installAttribute c owner n name value before = some (.error e, after))
      (hrest : Carried c owner n origin w rest bs fs) :
      Carried c owner n origin w ((name, value) :: rest) bs ((value, e) :: fs)

variable {c : Reentry Code Memory} {holds : Memory → List Ref} {owner : ViewModelId} {n : NodeId}
  {origin w w₁ w₂ : World Code Memory} {attributes : List (String × String)} {bs : List BindingId}
  {fs : List (String × Error)}

theorem Carried.congr (h : Carried c owner n origin w attributes bs fs)
    (hrows : ∀ b ∈ bs, (w₁.binding b).node = (w.binding b).node ∧
      (w₁.binding b).kind = (w.binding b).kind) :
    Carried c owner n origin w₁ attributes bs fs := by
  induction h with
  | nil => exact .nil
  | plain hparse _ inductionHypothesis => exact .plain hparse (inductionHypothesis hrows)
  | made hparse hnode hkind _ inductionHypothesis =>
    obtain ⟨hnode', hkind'⟩ := hrows _ List.mem_cons_self
    exact .made hparse (hnode'.trans hnode) (hkind'.trans hkind)
      (inductionHypothesis fun b hb => hrows b (List.mem_cons_of_mem _ hb))
  | failed hparse hfails _ inductionHypothesis =>
    exact .failed hparse hfails (inductionHypothesis hrows)

/-- How carrying out one attribute may end. -/
inductive Attempted (holds : Memory → List Ref) (owner : ViewModelId) (n : NodeId)
    (parsed : Except Error (Option Directive)) (w : World Code Memory) :
    Except Error (Option BindingId) → World Code Memory → Prop
  | plain (hparse : parsed = .ok none) : Attempted holds owner n parsed w (.ok none) w
  | made {directive : Directive} {b : BindingId} {w' : World Code Memory}
      (hparse : parsed = .ok (some directive)) (hties : Ties holds owner (· = n) w w')
      (hviewModels : w'.viewModels = w.viewModels) (hmade : MadeFor n directive.kind b w w') :
      Attempted holds owner n parsed w (.ok (some b)) w'
  | failed {e : Error} {w' : World Code Memory} (hparse : parsed ≠ .ok none)
      (hties : Ties holds owner (· = n) w w') (hviewModels : w'.viewModels = w.viewModels)
      (hretired : ∀ x : WatcherId, w.watchers.size ≤ x.index → x.index < w'.watchers.size →
        w'.Retired x) : Attempted holds owner n parsed w (.error e) w'

/-- Attributes of a node were carried out: what became of them, and what is in service. -/
structure Carries (c : Reentry Code Memory) (holds : Memory → List Ref) (owner : ViewModelId)
    (n : NodeId) (origin : World Code Memory) (attributes : List (String × String))
    (bs : List BindingId) (fs : List (String × Error)) (w w' : World Code Memory) : Prop where
  ties : Ties holds owner (· = n) w w'
  viewModels : w'.viewModels = w.viewModels
  carried : Carried c owner n origin w' attributes bs fs
  fresh : ∀ b ∈ bs, w.bindings.size ≤ b.index ∧ b.index < w'.bindings.size
  node_eq : ∀ b ∈ bs, (w'.binding b).node = n
  active : ∀ b ∈ bs, (w'.binding b).active = true
  serves : ∀ b ∈ bs, ∀ x ∈ (w'.binding b).watchers, w'.Serves x
  nodup : bs.Nodup
  others : ∀ x : WatcherId, w.watchers.size ≤ x.index → x.index < w'.watchers.size →
    (∃ b ∈ bs, x ∈ (w'.binding b).watchers) ∨ w'.Retired x

theorem carries_nil (w : World Code Memory) : Carries c holds owner n origin [] [] [] w w where
  ties := .refl w
  viewModels := rfl
  carried := .nil
  fresh _ hb := absurd hb List.not_mem_nil
  node_eq _ hb := absurd hb List.not_mem_nil
  active _ hb := absurd hb List.not_mem_nil
  serves _ hb := absurd hb List.not_mem_nil
  nodup := .nil
  others _ hx hlt := absurd hlt (Nat.not_lt.mpr hx)

theorem Carries.released {refs : List Ref}
    (h : Carries c holds owner n origin attributes bs fs { w with held := refs } w₁) :
    Carries c holds owner n origin attributes bs fs w { w₁ with held := w.held } where
  ties := h.ties.released
  viewModels := h.viewModels
  carried := h.carried.congr fun _ _ => ⟨rfl, rfl⟩
  fresh := h.fresh
  node_eq := h.node_eq
  active := h.active
  serves := h.serves
  nodup := h.nodup
  others := h.others

/-- Nobody who was made since evaluates. -/
theorem Ties.idle (h : Ties holds owner (· = n) w w₁) (hmanned : w.Manned) {x : WatcherId}
    (hx : w.watchers.size ≤ x.index) : ¬ w₁.Evaluates (.watcher x) := fun hevaluates =>
  Nat.not_lt.mpr hx (hmanned x ((evaluates_congr h.trackers).mp hevaluates))

/-- An attribute that is no directive. -/
theorem Carries.plain {name value : String}
    (hparse : Directive.parse name value (origin.viewModel owner).settings.mark = .ok none)
    (h : Carries c holds owner n origin attributes bs fs w w₁) :
    Carries c holds owner n origin ((name, value) :: attributes) bs fs w w₁ where
  ties := h.ties
  viewModels := h.viewModels
  carried := .plain hparse h.carried
  fresh := h.fresh
  node_eq := h.node_eq
  active := h.active
  serves := h.serves
  nodup := h.nodup
  others := h.others

/-- An attribute that made a binding, and those after it. -/
theorem Carries.made {name value : String} {directive : Directive} {b : BindingId}
    (hparse : Directive.parse name value (origin.viewModel owner).settings.mark = .ok (some directive))
    (hmanned : w.Manned) (hties : Ties holds owner (· = n) w w₁)
    (hviewModels : w₁.viewModels = w.viewModels) (hmade : MadeFor n directive.kind b w w₁)
    (h : Carries c holds owner n origin attributes bs fs w₁ w₂) :
    Carries c holds owner n origin ((name, value) :: attributes) (b :: bs) fs w w₂ := by
  have hrow : w₂.binding b = w₁.binding b := h.ties.binds.binding b hmade.made
  have hspared : ∀ x : WatcherId, w.watchers.size ≤ x.index → x.index < w₁.watchers.size →
      (w₁.Serves x → w₂.Serves x) ∧ (w₁.Retired x → w₂.Retired x) :=
    fun x hx hlt => h.ties.spared hlt (hties.idle hmanned hx)
  refine ⟨hties.trans h.ties hmanned, h.viewModels.trans hviewModels,
    .made hparse (hrow ▸ hmade.node_eq) (hrow ▸ hmade.kind_eq) h.carried, ?_, ?_, ?_, ?_, ?_, ?_⟩
  · refine List.forall_mem_cons.mpr ⟨⟨hmade.fresh, ?_⟩, fun j hj => ⟨?_, (h.fresh j hj).2⟩⟩
    · exact Nat.lt_of_lt_of_le hmade.made h.ties.binds.bindings
    · exact Nat.le_trans hties.binds.bindings (h.fresh j hj).1
  · exact List.forall_mem_cons.mpr ⟨hrow ▸ hmade.node_eq, h.node_eq⟩
  · exact List.forall_mem_cons.mpr ⟨hrow ▸ hmade.active, h.active⟩
  · refine List.forall_mem_cons.mpr ⟨fun x hx => ?_, h.serves⟩
    rw [hrow] at hx
    obtain ⟨hle, hlt, -⟩ := hties.binds.own b hmade.fresh x hx
    exact (hspared x hle hlt).1 (hmade.staffs.serves x hx)
  · refine List.nodup_cons.mpr ⟨fun hmem => ?_, h.nodup⟩
    exact Nat.lt_irrefl _ (Nat.lt_of_lt_of_le hmade.made (h.fresh b hmem).1)
  · intro x hx hlt
    by_cases hold : x.index < w₁.watchers.size
    · refine (hmade.staffs.others x hx hold).imp (fun hmem => ?_) (hspared x hx hold).2
      exact ⟨b, List.mem_cons_self, by rw [hrow]; exact hmem⟩
    · refine (h.others x (Nat.le_of_not_lt hold) hlt).imp_left fun hex => ?_
      obtain ⟨j, hj, hmem⟩ := hex
      exact ⟨j, List.mem_cons_of_mem _ hj, hmem⟩

/-- An attribute that failed, and those after it. -/
theorem Carries.failed {name value : String} {e : Error}
    (hparse : Directive.parse name value (origin.viewModel owner).settings.mark ≠ .ok none)
    (hfails : ∃ before after, origin.Kin before ∧
      installAttribute c owner n name value before = some (.error e, after))
    (hmanned : w.Manned) (hties : Ties holds owner (· = n) w w₁)
    (hviewModels : w₁.viewModels = w.viewModels)
    (hretired : ∀ x : WatcherId, w.watchers.size ≤ x.index → x.index < w₁.watchers.size →
      w₁.Retired x)
    (h : Carries c holds owner n origin attributes bs fs w₁ w₂) :
    Carries c holds owner n origin ((name, value) :: attributes) bs ((value, e) :: fs) w w₂ where
  ties := hties.trans h.ties hmanned
  viewModels := h.viewModels.trans hviewModels
  carried := .failed hparse hfails h.carried
  fresh b hb := ⟨Nat.le_trans hties.binds.bindings (h.fresh b hb).1, (h.fresh b hb).2⟩
  node_eq := h.node_eq
  active := h.active
  serves := h.serves
  nodup := h.nodup
  others x hx hlt := by
    by_cases hold : x.index < w₁.watchers.size
    · exact Or.inr ((h.ties.spared hold (hties.idle hmanned hx)).2 (hretired x hx hold))
    · exact h.others x (Nat.le_of_not_lt hold) hlt

theorem Kin.settings (h : w.Kin w₁) (owner : ViewModelId) :
    (w₁.viewModel owner).settings = (w.viewModel owner).settings := by
  have hface := congrArg ViewModel.settings (h.faces owner)
  exact hface

theorem Kin.registry (h : w.Kin w₁) (owner : ViewModelId) :
    (w₁.viewModel owner).registry = (w.viewModel owner).registry := by
  have hface := congrArg ViewModel.registry (h.faces owner)
  exact hface

omit [Inhabited Code] in
theorem nodeName_eq (h : Hosts (· = n) w w₁) {j : NodeId} (hj : j.index < w.nodes.size) :
    w₁.nodeName j = w.nodeName j := by
  rw [nodeName, h.name j hj, nodeName]

end World

namespace Engine

variable {application : Application Code Memory} {sure : Prop} {c : Reentry Code Memory}
  {origin w : World Code Memory} {owner : ViewModelId} {n : NodeId}

theorem achieves_installAttribute (hrelies : Relies application sure c origin) (hw : origin.Ready w)
    (hinstallers : ∀ kind installer, (origin.viewModel owner).registry.find? kind = some installer →
      Registry.standard.find? kind = some installer) (name value : String) :
    Achieves sure w (installAttribute c owner n name value) (World.Attempted application.holds owner n
      (Directive.parse name value (origin.viewModel owner).settings.mark) w) := by
  rw [installAttribute, achieves_inspect_bind, hw.kin.settings owner, hw.kin.registry owner]
  cases hparse : Directive.parse name value (origin.viewModel owner).settings.mark with
  | error e =>
    refine (achieves_throw e).mpr (.failed (fun h => by cases h) (.refl w) rfl ?_)
    exact fun x hx hlt => absurd hlt (Nat.not_lt.mpr hx)
  | ok directive? =>
    refine achieves_ofExcept_bind _ (fun found hfound => ?_) fun e he => by cases he
    cases hfound
    cases directive? with
    | none => exact (achieves_pure none).mpr (.plain rfl)
    | some directive =>
      simp only
      cases hfind : (origin.viewModel owner).registry.find? directive.kind with
      | none =>
        refine (achieves_throw _).mpr (.failed (fun h => by cases h) (.refl w) rfl ?_)
        exact fun x hx hlt => absurd hlt (Nat.not_lt.mpr hx)
      | some installer =>
        have hinstaller := hinstallers _ _ hfind
        refine (achieves_install hrelies hw hinstaller).bind (fun b w' h => ?_) fun e w' h => ?_
        · exact (achieves_pure _).mpr (.made rfl h.ties h.viewModels (h.made b rfl))
        · exact .failed (fun h => by cases h) h.ties h.viewModels (h.retired ⟨e, rfl⟩)

/-- All attributes are carried out, in order. -/
theorem achieves_installAttributes (hrelies : Relies application sure c origin)
    (hinstallers : ∀ kind installer, (origin.viewModel owner).registry.find? kind = some installer →
      Registry.standard.find? kind = some installer)
    (attributes : List (String × String)) (hw : origin.Ready w) (hn : n.index < w.nodes.size) :
    Achieves sure w (installAttributes c owner n attributes) fun r w' =>
      ∃ bs fs, r = .ok (bs, fs.map fun f => .binding (w.nodeName n) f.1 f.2) ∧
        World.Carries c application.holds owner n origin attributes bs fs w w' := by
  induction attributes generalizing w with
  | nil => exact (achieves_pure _).mpr ⟨[], [], rfl, World.carries_nil w⟩
  | cons pair rest inductionHypothesis =>
    obtain ⟨name, value⟩ := pair
    rw [installAttributes]
    refine Achieves.attempt_bind ((achieves_installAttribute hrelies hw hinstallers name value).traced
      (Q := fun r w' => installAttribute c owner n name value w = some (r, w') ∧
        World.Attempted application.holds owner n
          (Directive.parse name value (origin.viewModel owner).settings.mark) w r w')
      fun r w' hr h => ⟨hr, h⟩) fun r w₁ h => ?_
    obtain ⟨htrace, hattempted⟩ := h
    cases hattempted with
    | plain hparse =>
      refine (inductionHypothesis hw hn).mono fun r w₂ h => ?_
      obtain ⟨bs, fs, hr, hcarries⟩ := h
      exact ⟨bs, fs, hr, hcarries.plain hparse⟩
    | @made directive b _ hparse hties hviewModels hmade =>
      have hn₁ : n.index < w₁.nodes.size := Nat.lt_of_lt_of_le hn hties.hosts.size
      have hready := hties.ready hw
      refine (Achieves.keeping [.binding b] (inductionHypothesis (hready.holding _) hn₁)
        (Q := fun r w₂ => ∃ bs fs, r = .ok (bs, fs.map fun f => .binding (w₁.nodeName n) f.1 f.2) ∧
          World.Carries c application.holds owner n origin rest bs fs w₁ w₂) fun r w₂ h => ?_).bind ?_ ?_
      · obtain ⟨bs, fs, hr, hcarries⟩ := h
        exact ⟨bs, fs, hr, hcarries.released⟩
      · rintro ⟨bs, errors⟩ w₂ ⟨bs', fs, hr, hcarries⟩
        cases hr
        rw [achieves_pure, World.nodeName_eq hties.hosts hn]
        exact ⟨b :: bs, fs, rfl, hcarries.made hparse hw.manned hties hviewModels hmade⟩
      · rintro e w₂ ⟨bs, fs, hr, -⟩
        cases hr
    | @failed e _ hparse hties hviewModels hretired =>
      have hn₁ : n.index < w₁.nodes.size := Nat.lt_of_lt_of_le hn hties.hosts.size
      simp only
      rw [achieves_inspect_bind]
      refine (inductionHypothesis (hties.ready hw) hn₁).bind ?_ ?_
      · rintro ⟨bs, errors⟩ w₂ ⟨bs', fs, hr, hcarries⟩
        cases hr
        rw [achieves_pure, World.bindingError, World.nodeName_eq hties.hosts hn]
        exact ⟨bs, (value, e) :: fs, rfl,
          hcarries.failed hparse ⟨w, w₁, hw.kin, htrace⟩ hw.manned hties hviewModels hretired⟩
      · rintro e w₂ ⟨bs, fs, hr, -⟩
        cases hr

end Engine

end ViewBinding
