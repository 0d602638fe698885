import ViewBinding.Proofs.Leaving
import ViewBinding.Proofs.Tending

/-!
# Accounts of what is bound

As long as the embedder leaves watchers to the engine and brings no installers, what is recorded is in
order: every binding is recorded for its own node, by one view model and once, and its watchers show their
values on that node. A binding that was taken away never comes back.
-/

namespace ViewBinding

open Engine

variable {Code Memory : Type} [Inhabited Code]

namespace World

omit [Inhabited Code] in
/-- What is recorded is in order. -/
structure Accounted (w : World Code Memory) : Prop extends Staffed w where
  hosted : ∀ id n, w.isBound id n = true → n.index < w.nodes.size
  made : ∀ id n, ∀ b ∈ w.bindingsOf id n, b.index < w.bindings.size
  placed : ∀ id n, ∀ b ∈ w.bindingsOf id n, (w.binding b).node = n
  once : ∀ id id' n n', ∀ b ∈ w.bindingsOf id n, b ∈ w.bindingsOf id' n' → id = id'
  nodup : ∀ id n, (w.bindingsOf id n).Nodup
  shown : ∀ b, ∀ x ∈ (w.binding b).watchers, x.index < w.watchers.size ∧
    (w.watcher x).reaction.node? = some (w.binding b).node

/-- A binding was made and then taken out of force, with all its watchers. -/
structure Gone (w : World Code Memory) (b : BindingId) : Prop where
  made : b.index < w.bindings.size
  inactive : (w.binding b).active = false
  disposed : ∀ x ∈ (w.binding b).watchers, (w.watcher x).disposed = true

/-- No binding came into force again, and no watcher into service. -/
structure Outlasts (w w' : World Code Memory) : Prop where
  bindings : w.bindings.size ≤ w'.bindings.size
  watchers : ∀ b : BindingId, b.index < w.bindings.size → (w'.binding b).watchers = (w.binding b).watchers
  inactive : ∀ b : BindingId, b.index < w.bindings.size → (w.binding b).active = false →
    (w'.binding b).active = false
  disposed : ∀ x : WatcherId, x.index < w.watchers.size → (w.watcher x).disposed = true →
    (w'.watcher x).disposed = true

variable {w w₁ w' : World Code Memory} {owner : ViewModelId} {n : NodeId} {b : BindingId}

omit [Inhabited Code] in
theorem Gone.outlasts (h : w.Gone b) (haccounted : w.Accounted) (hw : w.Outlasts w') : w'.Gone b where
  made := Nat.lt_of_lt_of_le h.made hw.bindings
  inactive := hw.inactive b h.made h.inactive
  disposed x hx := by
    rw [hw.watchers b h.made] at hx
    exact hw.disposed x (haccounted.shown b x hx).1 (h.disposed x hx)

omit [Inhabited Code] in
/-- The watchers of a binding that is gone are out of service. -/
theorem Gone.retired (h : w.Gone b) (hstaffed : w.Staffed) {x : WatcherId}
    (hx : x ∈ (w.binding b).watchers) : w.Retired x := by
  refine (hstaffed.fit x).resolve_left fun hserves => ?_
  have hdisposed := hserves.1
  rw [h.disposed x hx] at hdisposed
  cases hdisposed

omit [Inhabited Code] in
theorem accounted_empty (memory : Memory) : ({ memory } : World Code Memory).Accounted where
  idle x hx := by
    obtain ⟨t, ht⟩ := hx
    cases ht
  fit x := Or.inl ⟨rfl, fun s hs => absurd hs List.not_mem_nil⟩
  installers id kind installer hfind := by cases hfind
  hosted id n hbound := by cases hbound
  made id n b hb := absurd hb List.not_mem_nil
  placed id n b hb := absurd hb List.not_mem_nil
  once id id' n n' b hb := absurd hb List.not_mem_nil
  nodup id n := List.nodup_nil
  shown b x hx := absurd hx List.not_mem_nil

/-! ### Standing by -/

omit [Inhabited Code] in
theorem Bystands.bindingsOf (h : w.Bystands w') (id : ViewModelId) (n : NodeId) :
    w'.bindingsOf id n = w.bindingsOf id n := by
  rw [World.bindingsOf, h.recorded, World.bindingsOf]

omit [Inhabited Code] in
theorem Bystands.isBound (h : w.Bystands w') (id : ViewModelId) (n : NodeId) :
    w'.isBound id n = w.isBound id n := by
  rw [World.isBound, h.recorded, World.isBound]

omit [Inhabited Code] in
theorem Bystands.outlasts (h : w.Bystands w') : w.Outlasts w' where
  bindings := h.bindings
  watchers b hb := by rw [h.binding b hb]
  inactive b hb hinactive := by rwa [h.binding b hb]
  disposed := h.disposed

omit [Inhabited Code] in
theorem Accounted.bystands (h : w.Accounted) (hw : w.Bystands w') : w'.Accounted where
  toStaffed := hw.staffed h.toStaffed
  hosted id n hbound := Nat.lt_of_lt_of_le (h.hosted id n (hw.isBound id n ▸ hbound)) hw.nodes
  made id n b hb := Nat.lt_of_lt_of_le (h.made id n b (hw.bindingsOf id n ▸ hb)) hw.bindings
  placed id n b hb := by
    rw [hw.bindingsOf] at hb
    rw [hw.binding b (h.made id n b hb)]
    exact h.placed id n b hb
  once id id' n n' b hb hb' := h.once id id' n n' b (hw.bindingsOf id n ▸ hb) (hw.bindingsOf id' n' ▸ hb')
  nodup id n := hw.bindingsOf id n ▸ h.nodup id n
  shown b x hx := by
    by_cases hb : b.index < w.bindings.size
    · rw [hw.binding b hb] at hx ⊢
      obtain ⟨hlt, hnode⟩ := h.shown b x hx
      exact ⟨Nat.lt_of_lt_of_le hlt hw.watchers, (congrArg Reaction.node? (hw.reaction x hlt)).trans hnode⟩
    · rw [hw.blank b (Nat.le_of_not_lt hb)] at hx
      exact absurd hx List.not_mem_nil

/-! ### Binding -/

section Binding

variable {holds : Memory → List Ref} {here : NodeId → Prop}

theorem Ties.outlasts (h : Ties holds owner here w w') (hstaffed : w.Staffed) : w.Outlasts w' where
  bindings := h.binds.bindings
  watchers b hb := by rw [h.binds.binding b hb]
  inactive b hb hinactive := by rwa [h.binds.binding b hb]
  disposed x hx hover := by rwa [h.binds.watcher x hx (hstaffed.idle x)]

/-- New bindings are in order if they are recorded for nodes that are there, none of them twice. -/
theorem Accounted.tied (h : w.Accounted) (hstaffed : w'.Staffed) (hties : Ties holds owner here w w')
    (hhosted : ∀ n, w'.isBound owner n = true → w.isBound owner n = true ∨ n.index < w'.nodes.size)
    (hnodup : ∀ n, (w'.bindingsOf owner n).Nodup) : w'.Accounted := by
  have hfresh : ∀ id n, ∀ b ∈ w'.bindingsOf id n, b ∈ w.bindingsOf id n ∨
      (id = owner ∧ w.bindings.size ≤ b.index ∧ b.index < w'.bindings.size ∧ (w'.binding b).node = n) := by
    intro id n b hb
    by_cases hid : id = owner
    · subst hid
      exact (hties.records.fresh n b hb).imp (fun hold => hold) fun hnew => ⟨rfl, hnew⟩
    · exact Or.inl (hties.records.bindingsOf_of_ne hid n ▸ hb)
  exact {
    toStaffed := hstaffed
    hosted := fun id n hbound => by
      by_cases hid : id = owner
      · subst hid
        refine (hhosted n hbound).elim (fun hbefore => ?_) fun hlt => hlt
        exact Nat.lt_of_lt_of_le (h.hosted id n hbefore) hties.hosts.size
      · rw [hties.records.isBound_of_ne hid] at hbound
        exact Nat.lt_of_lt_of_le (h.hosted id n hbound) hties.hosts.size
    made := fun id n b hb => by
      rcases hfresh id n b hb with hold | ⟨_, _, hlt, _⟩
      · exact Nat.lt_of_lt_of_le (h.made id n b hold) hties.binds.bindings
      · exact hlt
    placed := fun id n b hb => by
      rcases hfresh id n b hb with hold | ⟨_, _, _, hnode⟩
      · rw [hties.binds.binding b (h.made id n b hold)]
        exact h.placed id n b hold
      · exact hnode
    once := fun id id' n n' b hb hb' => by
      rcases hfresh id n b hb with hold | ⟨hid, hle, _, _⟩ <;>
        rcases hfresh id' n' b hb' with hold' | ⟨hid', hle', _, _⟩
      · exact h.once id id' n n' b hold hold'
      · exact absurd (h.made id n b hold) (Nat.not_lt_of_le hle')
      · exact absurd (h.made id' n' b hold') (Nat.not_lt_of_le hle)
      · exact hid.trans hid'.symm
    nodup := fun id n => by
      by_cases hid : id = owner
      · exact hid ▸ hnodup n
      · exact hties.records.bindingsOf_of_ne hid n ▸ h.nodup id n
    shown := fun b x hx => by
      by_cases hb : b.index < w.bindings.size
      · rw [hties.binds.binding b hb] at hx ⊢
        obtain ⟨hlt, hnode⟩ := h.shown b x hx
        rw [hties.binds.watcher x hlt (h.idle x)]
        exact ⟨Nat.lt_of_lt_of_le hlt hties.binds.watchers, hnode⟩
      · exact (hties.binds.own b (Nat.le_of_not_lt hb) x hx).2 }

theorem Fate.nodup {c : Reentry Code Memory} {errors : List Error} (h : Fate c owner w w' n errors)
    (hw : (w.bindingsOf owner n).Nodup) : (w'.bindingsOf owner n).Nodup := by
  cases h with
  | kept _ hrecorded => exact hrecorded ▸ hw
  | bound _ _ _ hrecorded hnodup _ _ => exact hrecorded ▸ hnodup
  | refused _ _ _ _ hrecorded _ _ _ => exact hrecorded ▸ List.nodup_nil
  | plain _ _ _ _ hrecorded => exact hrecorded ▸ List.nodup_nil
  | shown _ _ _ _ hrecorded => exact hrecorded ▸ List.pairwise_singleton _ _
  | unshown _ _ _ _ _ hrecorded => exact hrecorded ▸ List.nodup_nil

theorem Accounted.visited {c : Reentry Code Memory} {tally : Tally} (h : w.Accounted)
    (hstaffed : w'.Staffed) (hvisited : Visited c holds owner n tally w w') : w'.Accounted := by
  refine h.tied hstaffed hvisited.ties (fun m hm => ?_) fun m => ?_
  · by_cases hmn : m = n
    · subst hmn
      exact hvisited.hosted hm
    · exact Or.inl (hvisited.ties.records.isBound hmn ▸ hm)
  · by_cases hmn : m = n
    · subst hmn
      exact hvisited.fate.nodup (h.nodup owner m)
    · exact hvisited.ties.records.bindingsOf hmn ▸ h.nodup owner m

end Binding

/-! ### Leaving -/

omit [Inhabited Code] in
theorem Discharges.outlasts {who : WatcherId → Prop} {bs : List BindingId} (h : Discharges who w w')
    (hsize : w.bindings.size ≤ w'.bindings.size) (hbinding : ∀ b, w'.binding b
      = if b ∈ bs then { w.binding b with active := false } else w.binding b) : w.Outlasts w' where
  bindings := hsize
  watchers b _ := by
    rw [hbinding]
    split <;> rfl
  inactive b _ hinactive := by
    rw [hbinding]
    split
    · rfl
    · exact hinactive
  disposed x _ := h.disposed x

omit [Inhabited Code] in
/-- Watchers are discharged, bindings are silenced, and less is recorded. -/
theorem Accounted.discharged {who : WatcherId → Prop} {bs : List BindingId} (h : w.Accounted)
    (hw : Discharges who w w')
    (htrackers : w'.trackers = w.trackers) (hnodes : w'.nodes = w.nodes)
    (hregistry : ∀ id, (w'.viewModel id).registry = (w.viewModel id).registry)
    (hsize : w.bindings.size ≤ w'.bindings.size)
    (hbinding : ∀ b, w'.binding b
      = if b ∈ bs then { w.binding b with active := false } else w.binding b)
    (hfind : ∀ id n, (w'.viewModel id).bindings.find? n = (w.viewModel id).bindings.find? n ∨
      (w'.viewModel id).bindings.find? n = none) : w'.Accounted := by
  have hrows : ∀ b, (w'.binding b).node = (w.binding b).node ∧
      (w'.binding b).watchers = (w.binding b).watchers := by
    intro b
    rw [hbinding]
    split <;> exact ⟨rfl, rfl⟩
  have hsub : ∀ id n, w'.bindingsOf id n = w.bindingsOf id n ∨ w'.bindingsOf id n = [] := by
    intro id n
    rw [bindingsOf, bindingsOf]
    exact (hfind id n).imp (fun heq => by rw [heq]) fun heq => by rw [heq]; rfl
  have hmem : ∀ id n, ∀ b ∈ w'.bindingsOf id n, b ∈ w.bindingsOf id n := by
    intro id n b hb
    rcases hsub id n with heq | heq <;> rw [heq] at hb
    · exact hb
    · exact absurd hb List.not_mem_nil
  exact {
    idle := fun x hx => h.idle x ((evaluates_congr fun t => by rw [tracker, htrackers, tracker]).mp hx)
    fit := fun x => hw.fit (h.fit x)
    installers := fun id kind installer hfound => h.installers id kind installer (hregistry id ▸ hfound)
    hosted := fun id n hbound => by
      rw [hnodes]
      refine h.hosted id n ?_
      rw [isBound, Entries.contains] at hbound ⊢
      rcases hfind id n with heq | heq <;> rw [heq] at hbound
      · exact hbound
      · cases hbound
    made := fun id n b hb => Nat.lt_of_lt_of_le (h.made id n b (hmem id n b hb)) hsize
    placed := fun id n b hb => (hrows b).1.trans (h.placed id n b (hmem id n b hb))
    once := fun id id' n n' b hb hb' => h.once id id' n n' b (hmem id n b hb) (hmem id' n' b hb')
    nodup := fun id n => by
      rcases hsub id n with heq | heq <;> rw [heq]
      · exact h.nodup id n
      · exact List.nodup_nil
    shown := fun b x hx => by
      rw [(hrows b).2] at hx
      obtain ⟨hlt, hnode⟩ := h.shown b x hx
      refine ⟨Nat.lt_of_lt_of_le hlt hw.size, ?_⟩
      rw [hw.reaction, (hrows b).1]
      exact hnode }

theorem Accounted.teardownBinding (h : w.Accounted) (b : BindingId) : (w.teardownBinding b).Accounted := by
  have hdismisses := dismisses_teardownBinding w b
  have heq : w.teardownBinding b = _ := teardownBindings_eq [b] w
  have hviewModel : ∀ id, (w.teardownBinding b).viewModel id = w.viewModel id := fun id => by
    rw [viewModel, hdismisses.viewModels, viewModel]
  exact h.discharged hdismisses.toDischarges (by rw [heq]) hdismisses.nodes (fun id => by rw [hviewModel])
    hdismisses.bindings hdismisses.binding fun id m => Or.inl (by rw [hviewModel])

omit [Inhabited Code] in
theorem Accounted.leaves (h : w.Accounted) (hw : Leaves owner n w w') : w'.Accounted := by
  refine h.discharged hw.toDischarges (by rw [hw.rest]) (by rw [hw.rest])
    (fun id => (congrArg ViewModel.registry (hw.faces id) :)) hw.bindings hw.binding fun id m => ?_
  by_cases hid : id = owner
  · subst hid
    by_cases hm : m = n ∨ w.Below n m
    · exact Or.inr (hw.inside m hm)
    · exact Or.inl (hw.outside m hm)
  · exact Or.inl (by rw [hw.others id hid])

end World

/-- A regular request that notes no binding but one that is gone. -/
def Request.Mindful (noted : Memory → List BindingId) :
    Request Code Memory → World Code Memory → Prop
  | .remember f, w => ∀ b ∈ noted (f w.memory), b ∈ noted w.memory ∨ w.Gone b
  | request, _ => request.Regular

namespace Engine

/-! ### Visits -/

section Visits

variable {application : Application Code Memory} {c : Reentry Code Memory} {w : World Code Memory}
  {owner : ViewModelId} {n : NodeId}

/-- What visiting an element comes to if the watchers are in order. -/
theorem Abreast.visits_element (h : Abreast application c c) (hstaffed : w.Staffed)
    (helement : (w.node n).isElement = true) :
    Ends w (compileElement c owner n) (compileElement c owner n) fun _ w' => Abreast.Upright application w w' ∧
      ∃ tally, Visited c application.holds owner n tally w w' := by
  refine (((h.upright w).compileElement _ _ _ (Abreast.upright_self hstaffed)).and
    (achieves_compileElement (h.relies w) hstaffed.ready (hstaffed.installers owner) helement).ends).mono ?_
  rintro _ w' ⟨hupright, tally, -, hvisited⟩
  exact ⟨hupright, tally, hvisited⟩

/-- What visiting a text comes to if the watchers are in order. -/
theorem Abreast.visits_text (h : Abreast application c c) (hstaffed : w.Staffed) {text : String}
    (htext : w.node n = .text text) :
    Ends w (compileText c owner n) (compileText c owner n) fun _ w' => Abreast.Upright application w w' ∧
      ∃ tally, Visited c application.holds owner n tally w w' := by
  refine (((h.upright w).compileText _ _ _ (Abreast.upright_self hstaffed)).and
    (achieves_compileText (h.relies w) hstaffed.ready htext).ends).mono ?_
  rintro _ w' ⟨hupright, tally, -, hvisited⟩
  exact ⟨hupright, tally, hvisited⟩

end Visits

/-! ### Runs -/

/-- What is recorded is in order, and the bindings that the embedder has noted are gone. -/
def Settled (noted : Memory → List BindingId) (w : World Code Memory) : Prop :=
  w.Accounted ∧ ∀ b ∈ noted w.memory, w.Gone b

section Settled

variable {application : Application Code Memory} {noted : Memory → List BindingId}
  {w w' : World Code Memory}

omit [Inhabited Code] in
theorem Settled.outlasts (h : Settled noted w) (hw : w.Outlasts w') (hnoted : noted w'.memory = noted w.memory)
    (haccounted : w'.Accounted) : Settled noted w' :=
  ⟨haccounted, fun b hb => (h.2 b (hnoted ▸ hb)).outlasts h.1 hw⟩

theorem tends_settled (hnoted : ∀ o w, noted (application.notes o w) = noted w.memory) :
    Tends application (Request.Mindful noted) (Settled noted) where
  staffed h := h.1.toStaffed
  noting hw hrecalls h := h.outlasts hw.outlasts (hrecalls.same hnoted) (h.1.bystands hw)
  regular {request _} h := by
    cases request <;> first | exact h | trivial
  element {c w owner n} habreast h helement := by
    have hstaffed := h.1.toStaffed
    refine (habreast.visits_element hstaffed helement).mono ?_
    rintro _ w' ⟨⟨hstaffed', hrecalls⟩, tally, hvisited⟩
    exact h.outlasts (hvisited.ties.outlasts hstaffed) (hrecalls.same hnoted) (h.1.visited hstaffed' hvisited)
  text {c w owner n text} habreast h htext := by
    have hstaffed := h.1.toStaffed
    refine (habreast.visits_text hstaffed htext).mono ?_
    rintro _ w' ⟨⟨hstaffed', hrecalls⟩, tally, hvisited⟩
    exact h.outlasts (hvisited.ties.outlasts hstaffed) (hrecalls.same hnoted) (h.1.visited hstaffed' hvisited)
  install {c v w installer owner n directive} habreast hinstaller h := by
    have hstaffed := h.1.toStaffed
    refine (((habreast.upright w).installDirective
      (fun code hcode => absurd (hcode ▸ hinstaller) (Registry.find?_standard_ne_custom _ code))
      (Abreast.upright_self hstaffed)).and
      (achieves_install (habreast.relies w) hstaffed.ready hinstaller).ends).mono ?_
    rintro _ w' ⟨⟨hstaffed', hrecalls⟩, hinstalls⟩
    have hties := hinstalls.ties
    have hviewModel : ∀ id, w'.viewModel id = w.viewModel id := fun id => by
      rw [World.viewModel, hinstalls.viewModels, World.viewModel]
    refine h.outlasts (hties.outlasts hstaffed) (hrecalls.same hnoted)
      (h.1.tied hstaffed' hties (fun m hm => Or.inl ?_) fun m => ?_)
    · rwa [World.isBound, hviewModel] at hm
    · rw [World.bindingsOf, hviewModel]
      exact h.1.nodup owner m
  unmount {w} owner n h := by
    have hleaves := World.leaves_unmount w owner n
    exact h.outlasts (hleaves.outlasts hleaves.bindings hleaves.binding) (by rw [hleaves.rest])
      (h.1.leaves hleaves)
  teardownBinding {w b} _ h := by
    have hdismisses := World.dismisses_teardownBinding w b
    have hrest : w.teardownBinding b = _ := World.teardownBindings_eq [b] w
    exact h.outlasts (hdismisses.outlasts hdismisses.bindings hdismisses.binding) (by rw [hrest])
      (h.1.teardownBinding b)
  remember {w f} hok h := by
    refine ⟨h.1.bystands (World.bystands_of_same rfl rfl rfl rfl (fun _ _ hs => hs) fun _ hx => hx),
      fun b hb => ?_⟩
    have hgone : w.Gone b := (hok b hb).elim (h.2 b) fun hgone => hgone
    exact ⟨hgone.made, hgone.inactive, hgone.disposed⟩

end Settled

end Engine

end ViewBinding
