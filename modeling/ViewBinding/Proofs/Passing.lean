import ViewBinding.Proofs.Living
import ViewBinding.Proofs.Sightings

/-!
# Binding is all or nothing

A pass binds the tree below a node, where it stands or while it is taken out. Every node that it visits
ends with all its bindings or with none, every failure is reported in document order, and what was made
for a node that failed is gone.
-/

namespace ViewBinding

open Engine

variable {Code Memory : Type} [Inhabited Code]

namespace World

section Around

variable {fit : World Code Memory → Prop} {c : Reentry Code Memory} {holds : Memory → List Ref} {owner : ViewModelId}
  {nodes : List NodeId} {report : List (NodeId × List Error)} {tally : Tally} {root : NodeId}
  {w w₁ : World Code Memory}

/-! ### Before a pass and after it -/

omit [Inhabited Code] in
/-- Children that were taken out are put back. -/
theorem setChildren_append_setChildren (x : Node Code) (children : List NodeId) :
    (x.setChildren []).setChildren ((x.setChildren []).children ++ children)
      = x.setChildren children := by
  cases x <;> rfl

omit [Inhabited Code] in
theorem setChildren_children (x : Node Code) : x.setChildren x.children = x := by
  cases x <;> rfl

theorem kin_mapNode (w : World Code Memory) (n : NodeId) (f : Node Code → Node Code) :
    w.Kin (w.mapNode n f) :=
  ⟨rfl, fun _ => rfl, fun _ => rfl, rfl, rfl, rfl, fun _ => rfl, fun _ => rfl⟩

theorem matches_mapNode (w : World Code Memory) {n root : NodeId} (hne : n ≠ root)
    (hlt : root.index < w.nodes.size) (f : Node Code → Node Code) :
    Matches owner n w (w.mapNode root f) := by
  refine ⟨kin_mapNode w root f, ?_, Table.size_modify_of_lt _ hlt _, rfl, rfl, rfl, rfl⟩
  rw [node_mapNode, if_neg hne]

/-- A pass leaves the node alone whose children it binds. -/
theorem Compiled.unvisited (h : Compiled fit c holds owner nodes report tally w w₁) (hroot : root ∉ nodes)
    (hlt : root.index < w.nodes.size) : root ∉ report.map Prod.fst := fun hmem =>
  (h.within root hmem).2.elim hroot fun hge => Nat.not_lt.mpr hge hlt

omit [Inhabited Code] in
/-- A node that is changed meanwhile and is at the end as it was makes no difference. -/
theorem Hosts.around {here : NodeId → Prop} {w₂ w₃ : World Code Memory} (h : Hosts here w₁ w₂)
    (hsize : w₁.nodes.size = w.nodes.size) (hsize' : w₃.nodes.size = w₂.nodes.size)
    (hlt : root.index < w.nodes.size) (hbefore : ∀ n, n ≠ root → w₁.node n = w.node n)
    (hafter : ∀ n, n ≠ root → w₃.node n = w₂.node n) (hself : w₃.node root = w.node root) :
    Hosts here w w₃ := by
  have hkeep : ∀ {α : Type} (g : Node Code → α),
      (∀ n : NodeId, n.index < w₁.nodes.size → g (w₂.node n) = g (w₁.node n)) →
      ∀ n : NodeId, n.index < w.nodes.size → g (w₃.node n) = g (w.node n) := by
    intro α g hg n hn
    by_cases hroot : n = root
    · rw [hroot, hself]
    · rw [hafter n hroot, hg n (hsize ▸ hn), hbefore n hroot]
  have hne : ∀ n child : NodeId, child ∈ (w₃.node n).children → child ∉ (w.node n).children →
      n ≠ root ∧ child ∈ (w₂.node n).children ∧ child ∉ (w₁.node n).children := by
    intro n child hchild hnot
    have hroot : n ≠ root := by
      rintro rfl
      exact hnot (hself ▸ hchild)
    rw [hbefore n hroot, ← hafter n hroot]
    exact ⟨hroot, hchild, hnot⟩
  refine ⟨hsize ▸ hsize' ▸ h.size, ?_, hkeep _ h.isElement, hkeep _ h.name, hkeep _ h.attributes, ?_, ?_,
    ?_⟩
  · intro n hn hnot
    by_cases hroot : n = root
    · rw [hroot, hself]
    · rw [hafter n hroot, h.same n (hsize ▸ hn) hnot, hbefore n hroot]
  · intro n hn
    by_cases hroot : n = root
    · rw [hroot, hself]
      exact Or.inl rfl
    · rw [hafter n hroot, ← hbefore n hroot, hsize', ← hsize]
      exact h.children n (hsize ▸ hn)
  · intro n hn
    have hroot : n ≠ root := by
      rintro rfl
      exact Nat.not_lt.mpr hn hlt
    rw [hafter n hroot]
    exact h.text n (hsize ▸ hn)
  · intro n m child hn hm hn₃ hn₀ hm₃ hm₀
    obtain ⟨-, hn₂, hn₁⟩ := hne n child hn₃ hn₀
    obtain ⟨-, hm₂, hm₁⟩ := hne m child hm₃ hm₀
    exact h.apart n m child (hsize ▸ hn) (hsize ▸ hm) hn₂ hn₁ hm₂ hm₁

/-- Whether the children of a node stand in it meanwhile makes no difference to a pass over them. -/
theorem Compiled.reattached
    (h : Compiled fit c holds owner nodes report tally (w.mapNode root (·.setChildren [])) w₁)
    (hroot : root ∉ nodes) (hlt : root.index < w.nodes.size)
    (hclosed : ∀ n ∈ nodes, ∀ child ∈ (w.node n).children, child ∈ nodes) :
    Compiled fit c holds owner nodes report tally w (w₁.appendChildren root (w.node root).children) := by
  have hsize : (w.mapNode root (·.setChildren [])).nodes.size = w.nodes.size :=
    Table.size_modify_of_lt _ hlt _
  have hlt₁ : root.index < w₁.nodes.size := Nat.lt_of_lt_of_le (hsize ▸ hlt) h.ties.hosts.size
  have hsize₁ : (w₁.appendChildren root (w.node root).children).nodes.size = w₁.nodes.size :=
    Table.size_modify_of_lt _ hlt₁ _
  have hunvisited := h.unvisited hroot (hsize ▸ hlt)
  have hbefore : ∀ n, n ≠ root → (w.mapNode root (·.setChildren [])).node n = w.node n := by
    intro n hn
    rw [node_mapNode, if_neg hn]
  have hafter : ∀ n, n ≠ root →
      (w₁.appendChildren root (w.node root).children).node n = w₁.node n := by
    intro n hn
    rw [appendChildren, node_mapNode, if_neg hn]
  have hself : (w₁.appendChildren root (w.node root).children).node root = w.node root := by
    have hrow : w₁.node root = (w.node root).setChildren [] := by
      rw [h.ties.hosts.same root (hsize ▸ hlt) hunvisited, node_mapNode, if_pos rfl]
    rw [appendChildren, node_mapNode, if_pos rfl, hrow, setChildren_append_setChildren,
      setChildren_children]
  have hne : ∀ n ∈ report.map Prod.fst, n ≠ root := fun n hn heq => hunvisited (heq ▸ hn)
  have hchildren : ∀ v ∈ report, ∀ child ∈ (w₁.node v.1).children, child ≠ root := by
    intro v hv child hchild heq
    have hv' := hne v.1 (List.mem_map_of_mem hv)
    by_cases hmade : v.1.index < w.nodes.size
    · rcases h.ties.hosts.children v.1 (hsize.symm ▸ hmade) with hsame | ⟨-, hnew⟩
      · rw [hsame, hbefore v.1 hv'] at hchild
        have hmem : v.1 ∈ nodes := (h.within v.1 (List.mem_map_of_mem hv)).2.resolve_right fun hge =>
          Nat.not_lt.mpr hge (hsize.symm ▸ hmade)
        exact hroot (heq ▸ hclosed v.1 hmem child hchild)
      · have hge := (hnew child hchild).1
        rw [hsize, heq] at hge
        exact Nat.not_lt.mpr hge hlt
    · have hisElement := h.ties.hosts.text v.1 (hsize.symm ▸ Nat.le_of_not_lt hmade)
      rw [children_of_not_isElement hisElement] at hchild
      cases hchild
  constructor
  · exact {
      kin := ((kin_mapNode w root _).trans h.ties.kin).trans (kin_mapNode w₁ root _)
      trackers := h.ties.trackers
      held := h.ties.held
      holds := h.ties.holds
      hosts := h.ties.hosts.around hsize hsize₁ hlt hbefore hafter hself
      binds := ⟨h.ties.binds.bindings, h.ties.binds.watchers, h.ties.binds.binding,
        h.ties.binds.watcher, h.ties.binds.listed, h.ties.binds.made, h.ties.binds.placed,
        h.ties.binds.own, h.ties.binds.shows⟩
      records := ⟨h.ties.records.others, h.ties.records.same, h.ties.records.lasting,
        h.ties.records.fresh⟩ }
  · intro v hv
    have hv' := hne v.1 (List.mem_map_of_mem hv)
    exact (h.fate v hv).matching (matches_mapNode w hv' hlt _) (matches_mapNode w₁ hv' hlt₁ _)
  · exact h.errors
  · exact h.count
  · exact h.nodup
  · intro n hn
    rw [hsize₁, ← hsize]
    exact h.within n hn
  · intro v hv herrors d hd
    have hmem : v.1 ∈ nodes := (h.within v.1 (List.mem_map_of_mem hv)).2.resolve_right fun hge =>
      Nat.not_lt.mpr hge (hsize ▸ hd.index_lt)
    have hsame : ∀ n ∈ nodes, (w.mapNode root (·.setChildren [])).node n = w.node n := fun n hn =>
      hbefore n fun heq => hroot (heq ▸ hn)
    refine h.skipped v hv herrors d (hd.later (fun n hn _ => by rw [hsame n hn]) ?_ hmem)
    intro n hn child hchild
    rw [hsame n hn] at hchild
    exact hclosed n hn child hchild
  · intro v hv herrors d hd hge
    rw [hafter v.1 (hne v.1 (List.mem_map_of_mem hv))] at hd
    exact h.fresh v hv herrors d hd (hsize.symm ▸ hge)
  · intro v hv
    have hv' := hne v.1 (List.mem_map_of_mem hv)
    obtain ⟨before, after, hmet⟩ := h.met v hv
    refine ⟨before, after, hmet.fits, hmet.handles, fun hlt => ?_,
      hmet.isBound_before.trans (matches_mapNode w hv' hlt _).isBound,
      (hafter v.1 hv').trans hmet.node_after,
      (matches_mapNode w₁ hv' hlt₁ _).isBound.trans hmet.isBound_after, fun herrors child hchild => ?_⟩
    · rw [hmet.node_before (hsize.symm ▸ hlt), hbefore v.1 hv']
    · rw [hafter v.1 hv'] at hchild
      rw [hafter child (hchildren v hv child hchild), hmet.children_after herrors child hchild]

theorem kin_mapViewModel (w : World Code Memory) {f : ViewModel Code → ViewModel Code}
    (hf : (f (w.viewModel owner)).face = (w.viewModel owner).face) : w.Kin (w.mapViewModel owner f) := by
  refine ⟨rfl, fun _ => rfl, fun _ => rfl, rfl, rfl, rfl, fun _ => rfl, fun id => ?_⟩
  rw [viewModel_mapViewModel]
  split
  · next heq => rw [hf, heq]
  · rfl

/-- Where a view model is mounted makes no difference to a pass. -/
theorem Compiled.mounted {mounted : Option NodeId}
    (h : Compiled fit c holds owner nodes report tally
      (w.mapViewModel owner fun vm => { vm with mounted }) w₁) :
    Compiled fit c holds owner nodes report tally w w₁ := by
  have hkin : w.Kin (w.mapViewModel owner fun vm => { vm with mounted }) := kin_mapViewModel w rfl
  have hothers : ∀ id, id ≠ owner →
      (w.mapViewModel owner fun vm => { vm with mounted }).viewModel id = w.viewModel id := by
    intro id hid
    rw [viewModel_mapViewModel, if_neg hid]
  have hself : ((w.mapViewModel owner fun vm => { vm with mounted }).viewModel owner).bindings
      = (w.viewModel owner).bindings := by
    rw [viewModel_mapViewModel, if_pos rfl]
  have hmatches : ∀ n, Matches owner n w (w.mapViewModel owner fun vm => { vm with mounted }) :=
    fun n => ⟨hkin, rfl, rfl, rfl, rfl, rfl, hself⟩
  constructor
  · exact {
      kin := hkin.trans h.ties.kin
      trackers := h.ties.trackers
      held := h.ties.held
      holds := h.ties.holds
      hosts := ⟨h.ties.hosts.size, h.ties.hosts.same, h.ties.hosts.isElement, h.ties.hosts.name,
        h.ties.hosts.attributes, h.ties.hosts.children, h.ties.hosts.text, h.ties.hosts.apart⟩
      binds := ⟨h.ties.binds.bindings, h.ties.binds.watchers, h.ties.binds.binding,
        h.ties.binds.watcher, h.ties.binds.listed, h.ties.binds.made, h.ties.binds.placed,
        h.ties.binds.own, h.ties.binds.shows⟩
      records := ⟨fun id hid => (h.ties.records.others id hid).trans (hothers id hid),
        fun n hn => by rw [h.ties.records.same n hn, hself],
        fun n hn => h.ties.records.lasting n ((congrArg (·.contains n) hself).trans hn),
        fun n b hb => by rw [← (hmatches n).bindingsOf]; exact h.ties.records.fresh n b hb⟩ }
  · intro v hv
    exact (h.fate v hv).matching (hmatches v.1) (matches_holding w₁ w₁.held)
  · exact h.errors
  · rw [h.count, ViewModel.bindingCount, hself, ViewModel.bindingCount]
  · exact h.nodup
  · exact h.within
  · exact fun v hv herrors d hd => h.skipped v hv herrors d (hd.congr fun _ => rfl)
  · exact h.fresh
  · intro v hv
    obtain ⟨before, after, hmet⟩ := h.met v hv
    exact ⟨before, after, hmet.fits, hmet.handles, hmet.node_before,
      hmet.isBound_before.trans (hmatches v.1).isBound, hmet.node_after, hmet.isBound_after,
      hmet.children_after⟩

end Around

end World

namespace Engine

section Passes

variable {application : Application Code Memory} {sure : Prop} {c : Reentry Code Memory}
  {owner : ViewModelId} {root : NodeId} {nodes : List NodeId} {w : World Code Memory}

/-- A pass over the tree below a node: a view model is mounted, or the tree is bound where it stands. -/
inductive Pass where
  | mount (target : Target)
  | compile (node : NodeId)

namespace Pass

def run (c : Reentry Code Memory) (owner : ViewModelId) : Pass → Engine Code Memory Nat
  | mount target => Engine.mount c owner target
  | compile node => Engine.compile c owner node

/-- The node whose tree is bound, if there is one. -/
def root? (w : World Code Memory) (owner : ViewModelId) : Pass → Option NodeId
  | mount target => (w.locate (w.viewModel owner).document target).toOption
  | compile node => some node

omit [Inhabited Code] in
theorem locate_eq_ok {target : Target} (h : (mount target).root? w owner = some root) :
    w.locate (w.viewModel owner).document target = .ok root := by
  rw [root?] at h
  cases hlocate : w.locate (w.viewModel owner).document target with
  | ok found =>
    rw [hlocate] at h
    exact congrArg _ (Option.some.inj h)
  | error e =>
    rw [hlocate] at h
    cases h

end Pass

/-- A world fits as long as the view model is held. -/
def FitsHolding (fit : World Code Memory → Prop) (owner : ViewModelId) (w : World Code Memory) : Prop :=
  fit { w with held := .viewModel owner :: w.held }

/-- How a pass below `root` may end that began at `w`. -/
def Finished (fit : World Code Memory → Prop) (c : Reentry Code Memory) (holds : Memory → List Ref)
    (owner : ViewModelId) (root : NodeId) (nodes : List NodeId) (w : World Code Memory)
    (r : Except Error Nat) (w' : World Code Memory) : Prop :=
  ∃ report tally, r = tally.result ∧ World.Compiled fit c holds owner nodes report tally w w' ∧
    w'.Visits (w.node root).children report ∧ FitsHolding fit owner w'

variable {fit : World Code Memory → Prop}

theorem Finished.released (hstays : Stays application.holds c owner fit) {refs : List Ref}
    (hrefs : ∀ id, Ref.viewModel id ∈ refs ++ w.held → id = owner ∨ .viewModel id ∈ w.held)
    {r : Except Error Nat} {w' : World Code Memory}
    (h : Finished fit c application.holds owner root nodes { w with held := refs ++ w.held } r w') :
    Finished fit c application.holds owner root nodes w r { w' with held := w.held } := by
  obtain ⟨report, tally, hr, hcompiled, hvisits, hfits⟩ := h
  refine ⟨report, tally, hr, hcompiled.released, hvisits.congr fun _ _ => rfl,
    hstays.holding hfits fun id => ?_⟩
  simp only [List.mem_cons, Ref.viewModel.injEq, hcompiled.ties.held]
  constructor
  · exact Or.imp_right (List.mem_append_right _)
  · rintro (hid | hid)
    · exact Or.inl hid
    · exact hrefs id hid

theorem FitsHolding.hold (hstays : Stays application.holds c owner fit) (hw : FitsHolding fit owner w)
    {refs : List Ref} (hrefs : ∀ id, Ref.viewModel id ∈ refs ↔ id = owner) :
    fit { w with held := refs ++ w.held } :=
  hstays.holding hw fun id => by simp [hrefs]

theorem FitsHolding.of_held (hstays : Stays application.holds c owner fit) (hw : fit w)
    (hheld : Ref.viewModel owner ∈ w.held) : FitsHolding fit owner w :=
  hstays.holding hw fun id => by
    rw [List.mem_cons, or_iff_right_of_imp fun hid => Ref.viewModel.inj hid ▸ hheld]

theorem achieves_keeping_finished (hstays : Stays application.holds c owner fit) {refs : List Ref}
    (hrefs : ∀ id, Ref.viewModel id ∈ refs ↔ id = owner) {x : Engine Code Memory Nat}
    (h : Achieves sure { w with held := refs ++ w.held } x
      (Finished fit c application.holds owner root nodes { w with held := refs ++ w.held })) :
    Achieves sure w (keeping refs x) (Finished fit c application.holds owner root nodes w) :=
  h.keeping refs fun _ _ hfinished => hfinished.released hstays fun id hid =>
    (List.mem_append.mp hid).imp_left (hrefs id).mp

omit [Inhabited Code] in
/-- The tree below a node, without it. -/
theorem tree_children (htree : w.Tree [root] (root :: nodes)) :
    w.Tree (w.node root).children nodes ∧ root ∉ nodes ∧ root.index < w.nodes.size := by
  obtain ⟨hlists, hnodup, hmade⟩ := htree
  rw [List.nodup_cons] at hnodup
  refine ⟨⟨?_, hnodup.2, fun m hm => hmade m (List.mem_cons_of_mem _ hm)⟩, hnodup.1,
    hmade root List.mem_cons_self⟩
  cases hlists with
  | cons hbelow hrest =>
    cases hrest
    rw [List.append_nil]
    exact hbelow

omit [Inhabited Code] in
/-- The tree below a node is still there when the children of the node are taken out. -/
theorem tree_emptied (htree : w.Tree [root] (root :: nodes)) :
    (w.mapNode root (·.setChildren [])).Tree (w.node root).children nodes ∧
      ∀ n ∈ nodes, (w.mapNode root (·.setChildren [])).node n = w.node n := by
  obtain ⟨hbelow, hroot, -⟩ := tree_children htree
  have hsame : ∀ n ∈ nodes, (w.mapNode root (·.setChildren [])).node n = w.node n := by
    intro n hn
    rw [World.node_mapNode, if_neg]
    exact fun heq => hroot (heq ▸ hn)
  exact ⟨hbelow.congr hsame (Table.size_le_modify _ _ _), hsame⟩

theorem Prepared.mapNode (h : Prepared application sure c owner w) (n : NodeId) (f : Node Code → Node Code) :
    Prepared application sure c owner (w.mapNode n f) :=
  have hkin := World.kin_mapNode w n f
  h.of_kin hkin ⟨hkin, h.ready.manned, h.ready.listed⟩

theorem Prepared.mounting (h : Prepared application sure c owner w) (root : NodeId) :
    Prepared application sure c owner (w.mapViewModel owner fun vm => { vm with mounted := some root }) :=
  have hkin : w.Kin (w.mapViewModel owner fun vm => { vm with mounted := some root }) := World.kin_mapViewModel w rfl
  h.of_kin hkin ⟨hkin, h.ready.manned, h.ready.listed⟩

theorem achieves_compile (hstays : Stays application.holds c owner fit)
    (hprepared : Prepared application sure c owner w) (hw : FitsHolding fit owner w)
    (htree : w.Tree [root] (root :: nodes)) :
    Achieves (sure ∧ w.elements nodes < c.depth) w (compile c owner root)
      (Finished fit c application.holds owner root nodes w) := by
  obtain ⟨hbelow, -, -⟩ := tree_children htree
  refine achieves_keeping_finished hstays (by simp) ?_
  rw [achieves_inspect_bind]
  generalize hstart : ({ w with held := [.viewModel owner, .node root] ++ w.held } : World Code Memory)
    = start
  have hprepared' : Prepared application sure c owner start := hstart ▸ hprepared.holding _
  have hw' : fit start := hstart ▸ hw.hold hstays (by simp)
  have hheld : Ref.viewModel owner ∈ start.held := hstart ▸ List.mem_cons_self
  have hnode : start.node = w.node := hstart ▸ rfl
  have htree' : start.Tree (start.node root).children nodes := by
    rw [hnode]
    exact hbelow.congr (fun n _ => congrFun hnode n) (hstart ▸ Nat.le_refl _)
  have helements : start.elements nodes = w.elements nodes :=
    World.elements_congr fun n _ => congrFun hnode n
  rw [← helements]
  refine Achieves.bind (achieves_compileNodes hstays c.depth hprepared' hw' htree') ?_ ?_
  · rintro tally v ⟨report, tally, hr, hcompiled, hvisits, hv⟩
    cases hr
    exact (achieves_ofExcept _).mpr ⟨report, tally, rfl, hcompiled, hvisits,
      .of_held hstays hv (hcompiled.ties.held ▸ hheld)⟩
  · rintro e v ⟨_, _, hr, -⟩
    cases hr

theorem achieves_compileDetached (hstays : Stays application.holds c owner fit)
    (hprepared : Prepared application sure c owner w) (hw : FitsHolding fit owner w)
    (htree : w.Tree [root] (root :: nodes)) :
    Achieves (sure ∧ w.elements nodes < c.depth) w (compileDetached c owner root)
      (Finished fit c application.holds owner root nodes w) := by
  refine achieves_keeping_finished hstays (by simp) ?_
  rw [achieves_inspect_bind, achieves_update_bind]
  generalize hstart : ({ w with held := [.viewModel owner, .node root] ++ w.held } : World Code Memory)
    = start
  have hnode : start.node = w.node := hstart ▸ rfl
  have hprepared' : Prepared application sure c owner start := hstart ▸ hprepared.holding _
  have hw' : fit start := hstart ▸ hw.hold hstays (by simp)
  have hheld : Ref.viewModel owner ∈ start.held := hstart ▸ List.mem_cons_self
  have htree' : start.Tree [root] (root :: nodes) := hstart ▸ htree.congr (fun _ _ => rfl) (Nat.le_refl _)
  obtain ⟨hbelow, hroot, hlt⟩ := tree_children htree'
  obtain ⟨hemptied, hsame⟩ := tree_emptied htree'
  have hpass := achieves_compileNodes hstays c.depth (hprepared'.mapNode root (·.setChildren []))
    (hstays.later _ _ hw' (World.kin_mapNode start root _) rfl rfl fun _ => Iff.rfl) hemptied
  refine Achieves.bind (hpass.weaken fun h => ⟨h.1, ?_⟩) ?_ ?_
  · rw [World.elements_congr hsame, World.elements_congr fun n _ => congrFun hnode n]
    exact h.2
  · rintro tally v ⟨report, tally, hr, hcompiled, hvisits, hv⟩
    cases hr
    rw [achieves_update_bind]
    refine (achieves_ofExcept _).mpr ⟨report, tally, rfl,
      hcompiled.reattached hroot hlt hbelow.lists.closed.2, hvisits.congr fun n hn => ?_,
      .of_held hstays ?_ (hcompiled.ties.held ▸ hheld)⟩
    · rw [World.appendChildren, World.node_mapNode, if_neg]
      rintro rfl
      exact hcompiled.unvisited hroot (Nat.lt_of_lt_of_le hlt (Table.size_le_modify _ _ _)) hn
    · exact hstays.later _ _ hv (World.kin_mapNode v root _) rfl rfl fun _ => Iff.rfl
  · rintro e v ⟨_, _, hr, -⟩
    cases hr

theorem achieves_mount (hstays : Stays application.holds c owner fit)
    (hprepared : Prepared application sure c owner w) (hw : FitsHolding fit owner w) {target : Target}
    (hlocate : w.locate (w.viewModel owner).document target = .ok root)
    (htree : w.Tree [root] (root :: nodes)) :
    Achieves (sure ∧ w.elements nodes < c.depth) w (mount c owner target)
      (Finished fit c application.holds owner root nodes w) := by
  refine achieves_keeping_finished hstays (by simp) ?_
  rw [achieves_inspect_bind, achieves_inspect_bind]
  generalize hstart : ({ w with held := [.viewModel owner] ++ w.held } : World Code Memory) = start
  have hlocate' : start.locate (start.viewModel owner).document target = .ok root := hstart ▸ hlocate
  have hprepared' : Prepared application sure c owner start := hstart ▸ hprepared.holding _
  have hw' : fit start := hstart ▸ hw.hold hstays (by simp)
  have hheld : Ref.viewModel owner ∈ start.held := hstart ▸ List.mem_cons_self
  have htree' : start.Tree [root] (root :: nodes) :=
    hstart ▸ htree.congr (fun _ _ => rfl) (Nat.le_refl _)
  have helements : start.elements nodes = w.elements nodes := hstart ▸ rfl
  have hkin : start.Kin (start.mapViewModel owner fun vm => { vm with mounted := some root }) :=
    World.kin_mapViewModel start rfl
  rw [hlocate']
  refine achieves_ofExcept_bind _ ?_ ?_
  · intro root' hroot'
    cases hroot'
    rw [achieves_update_bind, ← helements]
    refine (achieves_compileDetached hstays (hprepared'.mounting root)
      (.of_held hstays (hstays.later _ _ hw' hkin rfl rfl fun _ => Iff.rfl) hheld)
      (htree'.congr (fun _ _ => rfl) (Nat.le_refl _))).mono ?_
    rintro r v ⟨report, tally, hr, hcompiled, hvisits, hv⟩
    exact ⟨report, tally, hr, hcompiled.mounted, hvisits, hv⟩
  · intro e he
    cases he

/-- A pass over a tree binds it as far as that is possible and reports every failure. -/
theorem achieves_pass (hstays : Stays application.holds c owner fit)
    (hprepared : Prepared application sure c owner w) (hw : FitsHolding fit owner w) {pass : Pass}
    (hroot : pass.root? w owner = some root) (htree : w.Tree [root] (root :: nodes)) :
    Achieves (sure ∧ w.elements nodes < c.depth) w (pass.run c owner)
      (Finished fit c application.holds owner root nodes w) := by
  cases pass with
  | mount target => exact achieves_mount hstays hprepared hw (Pass.locate_eq_ok hroot) htree
  | compile node =>
    cases hroot
    exact achieves_compile hstays hprepared hw htree

end Passes

end Engine

/-! ### What a pass has done -/

namespace World

/-- What a pass below `root` has done, which visited the nodes of `report` and met their errors. -/
structure Swept (c : Reentry Code Memory) (holds : Memory → List Ref) (owner : ViewModelId)
    (root : NodeId) (report : List (NodeId × List Error)) (w w' : World Code Memory) : Prop where
  /-- The nodes below `root` were visited in document order, siblings of a node that failed included. -/
  visits : w'.Visits (w.node root).children report
  nodup : (report.map Prod.fst).Nodup
  /-- Every node that was visited has all its bindings or none. -/
  fate : ∀ v ∈ report, Fate c owner w w' v.1 v.2
  /-- Nothing below a node was visited if something failed there. -/
  skipped : ∀ v ∈ report, v.2 ≠ [] → ∀ d, w.Below v.1 d ∨ w'.Below v.1 d →
    d ∉ report.map Prod.fst
  /-- No binding that was made for a node is left if something failed there, and no watcher. -/
  dropped : ∀ v ∈ report, v.2 ≠ [] →
    (∀ b, w.MadeSince w' b → (w'.binding b).node = v.1 →
      w'.alive (holds w'.memory) (.binding b) = false) ∧
    ∀ x : WatcherId, w.watchers.size ≤ x.index → x.index < w'.watchers.size →
      (w'.watcher x).reaction.node? = some v.1 → w'.alive (holds w'.memory) (.watcher x) = false
  /-- Other nodes are as they were and got no bindings. -/
  untouched : ∀ n ∉ report.map Prod.fst, n.index < w.nodes.size → w'.node n = w.node n ∧
    w'.bindingsOf owner n = w.bindingsOf owner n ∧ ∀ b, w.MadeSince w' b → (w'.binding b).node ≠ n

section Dropping

variable {c : Reentry Code Memory} {holds : Memory → List Ref} {owner : ViewModelId}
  {here : NodeId → Prop} {n : NodeId} {w w' : World Code Memory}

/-- Nothing is recorded for a node where something failed. -/
theorem Fate.unrecorded {errors : List Error} (h : Fate c owner w w' n errors) (herrors : errors ≠ []) :
    w'.bindingsOf owner n = [] := by
  cases h with
  | kept => exact absurd rfl herrors
  | bound => exact absurd rfl herrors
  | refused _ _ _ _ hrecorded => exact hrecorded
  | plain => exact absurd rfl herrors
  | shown => exact absurd rfl herrors
  | unshown _ _ _ _ _ hrecorded => exact hrecorded

/-- A new binding of a node is dropped if nothing is recorded for the node. -/
theorem Ties.dropped_binding (h : Ties holds owner here w w')
    (hfounded : w.Founded (holds w.memory)) (hnone : w'.bindingsOf owner n = []) {b : BindingId}
    (hb : w.bindings.size ≤ b.index) (hnode : (w'.binding b).node = n) :
    w'.Dropped (holds w'.memory) 1 (.binding b) := by
  refine ⟨fun hroot => Nat.not_lt.mpr hb (hfounded.roots _ (h.mem_roots.mp hroot)), fun y hy => ?_⟩
  obtain ⟨id, rfl, hrecorded⟩ := mem_owned_binding.mp hy
  by_cases hid : id = owner
  · subst hid
    obtain ⟨m, hm⟩ := mem_recorded.mp hrecorded
    rcases h.records.fresh m b hm with hold | ⟨-, -, hplace⟩
    · exact absurd (hfounded.binding (mem_recorded.mpr ⟨m, hold⟩)) (Nat.not_lt.mpr hb)
    · rw [← hplace, hnode, hnone] at hm
      cases hm
  · rw [h.records.others id hid] at hrecorded
    exact absurd (hfounded.binding hrecorded) (Nat.not_lt.mpr hb)

/-- A new watcher that shows on a node is dropped with the bindings of the node. -/
theorem Ties.dropped_watcher (h : Ties holds owner here w w')
    (hfounded : w.Founded (holds w.memory)) (hnone : w'.bindingsOf owner n = []) {x : WatcherId}
    (hx : w.watchers.size ≤ x.index) (hshows : (w'.watcher x).reaction.node? = some n) :
    w'.Dropped (holds w'.memory) 2 (.watcher x) := by
  refine ⟨fun hroot => Nat.not_lt.mpr hx (hfounded.roots _ (h.mem_roots.mp hroot)), fun y hy => ?_⟩
  obtain ⟨b, rfl, hmem⟩ := mem_owned_watcher.mp hy
  by_cases hb : w.bindings.size ≤ b.index
  · obtain ⟨-, -, hplace⟩ := h.binds.own b hb x hmem
    exact h.dropped_binding hfounded hnone hb (Option.some.inj (hplace.symm.trans hshows))
  · rw [h.binds.binding b (Nat.lt_of_not_le hb)] at hmem
    exact absurd (hfounded.watcher hmem) (Nat.not_lt.mpr hx)

theorem Compiled.swept {nodes : List NodeId} {root : NodeId} {report : List (NodeId × List Error)}
    {tally : Tally} {fit : World Code Memory → Prop}
    (h : Compiled fit c holds owner nodes report tally w w')
    (hfounded : w.Founded (holds w.memory)) (hmade : ∀ n ∈ nodes, n.index < w.nodes.size)
    (hvisits : w'.Visits (w.node root).children report) :
    Swept c holds owner root report w w' where
  visits := hvisits
  nodup := h.nodup
  fate := h.fate
  skipped v hv herrors d hd := hd.elim (fun hd => (h.skipped v hv herrors d hd).2)
    (h.skipped_after hmade hv herrors)
  dropped v hv herrors := by
    have hnone := (h.fate v hv).unrecorded herrors
    refine ⟨fun b hb hnode => ?_, fun x hx hlt hshows => ?_⟩
    · exact (h.ties.dropped_binding hfounded hnone hb.1 hnode).not_alive (Nat.le_add_left 1 _)
    · refine (h.ties.dropped_watcher hfounded hnone hx hshows).not_alive ?_
      unfold size
      omega
  untouched n hn hlt := ⟨h.ties.hosts.same n hlt hn, h.ties.records.bindingsOf hn,
    fun b hb hnode => hn (hnode ▸ h.ties.binds.placed b hb.1 hb.2)⟩

end Dropping

end World

/--
Binding is all or nothing. If getters only read, mounting or compiling a tree leaves every node that is
visited with all its bindings or with none, and answers the number of new bindings or all failures in
document order. It comes to an end if getters do.
-/
theorem Engine.all_or_nothing {application : Application Code Memory}
    (hquiet : ∀ o w, application.holds (application.notes o w) = application.holds w.memory)
    {w : World Code Memory} (hreads : w.GettersRead application)
    (hfounded : w.Founded (application.holds w.memory)) {owner : ViewModelId}
    (hstandard : (w.viewModel owner).registry = Registry.standard) {pass : Pass} {root : NodeId}
    (hroot : pass.root? w owner = some root) {nodes : List NodeId}
    (htree : w.Tree [root] (root :: nodes)) (depth : Nat) :
    (∀ r w', pass.run (reentry application depth) owner w = some (r, w') →
      ∃ report n, w.Swept (reentry application depth) application.holds owner root report w' ∧
        (w'.viewModel owner).bindingCount = (w.viewModel owner).bindingCount + n ∧
        r = if report.flatMap Prod.snd = [] then .ok n
          else .error (.compile (report.flatMap Prod.snd))) ∧
    (Answers (reentry application depth) w → w.elements nodes < depth →
      ∃ outcome, pass.run (reentry application depth) owner w = some outcome) := by
  have hprepared : Prepared application (Answers (reentry application depth) w)
      (reentry application depth) owner w :=
    ⟨relies_reentry hquiet hreads depth, hfounded.ready, hstandard⟩
  have hdepth : (reentry application depth).depth = depth := by cases depth <;> rfl
  have hpass := achieves_pass (stays_true _ _ owner) hprepared trivial hroot htree
  refine ⟨fun r w' hrun => ?_, fun hanswers hfew => hpass.halts ⟨hanswers, hdepth.symm ▸ hfew⟩⟩
  obtain ⟨report, tally, hr, hcompiled, hvisits, -⟩ := (hpass.ends r w' hrun).2
  refine ⟨report, tally.installed, hcompiled.swept hfounded (tree_children htree).1.made hvisits,
    hcompiled.count, ?_⟩
  rw [hr, Tally.result, hcompiled.errors]
  simp only [List.isEmpty_iff]

/-! ### A small tree -/

/-- A view model without data, and a tree with a paragraph whose text is not to be had and a text. -/
def World.sapling : World Unit Unit where
  objects := ⟨#[{}]⟩
  trackers := ⟨#[{}]⟩
  nodes := ⟨#[.element { tag := "div", children := [⟨1⟩, ⟨2⟩] },
    .element { tag := "p", attributes := .ofList [("v-text", "a")] }, .text "b"]⟩
  viewModels := ⟨#[{ settings := {}, tracker := ⟨0⟩, data := ⟨0⟩, root := ⟨0⟩, registry := .standard,
                     document := none }]⟩
  memory := ()

theorem World.founded_sapling : sapling.Founded [] := by
  refine ⟨fun x hx => ?_, fun y hy x hx => ?_, fun s x hx => ?_⟩
  · cases hx
  · cases y with
    | object id =>
      obtain ⟨i⟩ := id
      obtain rfl : i = 0 := Nat.lt_one_iff.mp hy
      cases hx
    | viewModel id =>
      obtain ⟨i⟩ := id
      obtain rfl : i = 0 := Nat.lt_one_iff.mp hy
      have hmem : x ∈ [Ref.object ⟨0⟩, .object ⟨0⟩] := hx
      simp only [List.mem_cons, List.not_mem_nil, or_false, or_self] at hmem
      subst hmem
      exact Nat.zero_lt_one
    | node id =>
      obtain ⟨i⟩ := id
      have hlt : i < 3 := hy
      obtain rfl | rfl | rfl : i = 0 ∨ i = 1 ∨ i = 2 := by omega
      · have hmem : x ∈ [Ref.node ⟨1⟩, .node ⟨2⟩] := hx
        simp only [List.mem_cons, List.not_mem_nil, or_false] at hmem
        rcases hmem with rfl | rfl
        · exact Nat.succ_lt_succ (Nat.succ_pos 1)
        · exact Nat.lt_succ_self 2
      · cases hx
      · cases hx
    | array id => exact absurd hy (Nat.not_lt_zero _)
    | computed id => exact absurd hy (Nat.not_lt_zero _)
    | watcher id => exact absurd hy (Nat.not_lt_zero _)
    | probe id => exact absurd hy (Nat.not_lt_zero _)
    | binding id => exact absurd hy (Nat.not_lt_zero _)
  · rw [source, sapling.sources.get_of_size_le (Nat.zero_le _)] at hx
    cases hx

theorem World.tree_sapling : sapling.Tree [⟨0⟩] [⟨0⟩, ⟨1⟩, ⟨2⟩] where
  lists := by
    have hparagraph : sapling.Lists (sapling.node ⟨1⟩).children [] := .nil
    have htext : sapling.Lists (sapling.node ⟨2⟩).children [] := .nil
    exact Lists.single (.cons hparagraph (.cons htext .nil))
  nodup := by decide
  made := by decide

/-- Programs that do nothing come to an end. -/
theorem Engine.answers_idle (depth : Nat) (w : World Unit Unit) :
    Answers (reentry (Application.idle : Application Unit Unit) (depth + 1)) w := by
  intro w' _ id
  have hends : Achieves True w' (runGetter (reentry Application.idle (depth + 1)) id)
      fun _ _ => True := by
    rw [runGetter, achieves_update_bind, Engine.note, achieves_update_bind, achieves_inspect_bind]
    split
    · exact (achieves_pure _).mpr trivial
    · rw [achieves_inspect_bind]
      split
      · exact Achieves.keeping (R := fun _ _ => True) _ ((achieves_pure _).mpr trivial)
          fun _ _ _ => trivial
      · exact (achieves_throw _).mpr trivial
  exact hends.halts trivial

theorem Engine.all_or_nothing_sapling :
    (World.sapling.GettersRead Application.idle ∧ World.sapling.Founded [] ∧
      World.sapling.Tree [⟨0⟩] [⟨0⟩, ⟨1⟩, ⟨2⟩]) ∧
    (∀ r w', (Pass.mount (.node ⟨0⟩)).run (reentry Application.idle 3) ⟨0⟩ World.sapling
        = some (r, w') →
      ∃ report n, World.sapling.Swept (reentry Application.idle 3) (fun _ => []) ⟨0⟩ ⟨0⟩ report w' ∧
        (w'.viewModel ⟨0⟩).bindingCount = (World.sapling.viewModel ⟨0⟩).bindingCount + n ∧
        r = if report.flatMap Prod.snd = [] then .ok n
          else .error (.compile (report.flatMap Prod.snd))) ∧
    ∃ outcome, (Pass.mount (.node ⟨0⟩)).run (reentry Application.idle 3) ⟨0⟩ World.sapling
      = some outcome := by
  have hreads : World.sapling.GettersRead Application.idle := fun _ => .done _
  have hall := @all_or_nothing _ _ _ Application.idle (fun _ _ => rfl) World.sapling hreads
    World.founded_sapling ⟨0⟩ rfl (.mount (.node ⟨0⟩)) ⟨0⟩ rfl [⟨1⟩, ⟨2⟩] World.tree_sapling 3
  exact ⟨⟨hreads, World.founded_sapling, World.tree_sapling⟩, hall.1,
    hall.2 (answers_idle 2 World.sapling) (by decide)⟩

end ViewBinding
