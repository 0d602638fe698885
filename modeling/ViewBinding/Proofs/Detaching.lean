import ViewBinding.Proofs.Overlooking
import ViewBinding.Proofs.Abreast
import ViewBinding.Proofs.Passing

/-!
# Compiling a tree that is taken out

A tree is compiled while its root has no children, or where it stands. Nothing that is done below the root
looks at the list of its children or changes it, unless a getter looks there. So both ways come to the same
end, also when nodes fail.
-/

namespace ViewBinding

open Engine

variable {Code Memory : Type}

namespace Table

variable {κ α : Type} [Key κ] [Inhabited α]

/-- Rows of different keys are written in any order, if one of them is there already. -/
theorem put_comm (t : Table κ α) {j k : κ} (row row' : α) (hj : Key.index j < t.size) (h : j ≠ k) :
    (t.put k row).put j row' = (t.put j row').put k row := by
  have hi : Key.index j ≠ Key.index k := fun e => h (Key.index_inj.mp e)
  obtain ⟨rows⟩ := t
  simp only [size] at hj
  simp only [put, hj, if_true, Array.size_setIfInBounds]
  split
  · simp only [Array.size_setIfInBounds, hj, if_true]
    rw [Array.setIfInBounds_comm _ _ hi.symm]
  · rw [if_pos (by simp only [Array.size_push, Array.size_append]; omega)]
    congr 1
    apply Array.ext_getElem?
    intro i
    simp only [Array.getElem?_setIfInBounds, Array.getElem?_push, Array.getElem?_append,
      Array.size_setIfInBounds, Array.size_append]
    grind

theorem modify_comm [DecidableEq κ] (t : Table κ α) {j k : κ} (f g : α → α) (hj : Key.index j < t.size)
    (h : j ≠ k) : (t.modify k g).modify j f = (t.modify j f).modify k g := by
  simp only [modify, get_put_of_ne t _ h, get_put_of_ne t _ h.symm]
  exact put_comm t _ _ hj h

/-- Two changes of a row that put back what was there change nothing. -/
theorem modify_modify_cancel (t : Table κ α) {k : κ} {f g : α → α} (hk : Key.index k < t.size)
    (h : g (f (t.get k)) = t.get k) : (t.modify k f).modify k g = t := by
  obtain ⟨rows⟩ := t
  unfold size at hk
  have hget : (modify ⟨rows⟩ k f).get k = f (get ⟨rows⟩ k) := get_put_self _ _ _
  rw [modify, hget, h, modify]
  simp only [put, if_pos hk, Array.size_setIfInBounds, get]
  refine congrArg Table.mk (Array.ext_getElem? fun i => ?_)
  simp only [Array.getElem?_setIfInBounds, Array.size_setIfInBounds, Array.getD_eq_getD_getElem?]
  grind

theorem modify_add (t : Table κ α) {j : κ} (f : α → α) (row : α) (hj : Key.index j < t.size) :
    (t.add row).modify j f = (t.modify j f).add row := by
  have hne : j ≠ t.fresh := by
    rintro rfl
    rw [index_fresh] at hj
    exact Nat.lt_irrefl _ hj
  unfold size at hj
  rw [modify, modify, get_add_of_ne t row hne, put, put, if_pos hj]
  rw [if_pos (by simp only [add, Array.size_push]; omega)]
  refine congrArg Table.mk (Array.ext_getElem? fun i => ?_)
  simp only [add, Array.getElem?_setIfInBounds, Array.getElem?_push, Array.size_setIfInBounds,
    Array.size_push]
  grind

end Table

/-- Takes the children of a node away. -/
def Table.bare (root : NodeId) (nodes : Table NodeId (Node Code)) : Table NodeId (Node Code) :=
  nodes.modify root (·.setChildren [])

namespace World

/-- The nodes that may be visited, which are those that are `here` and those to come, lead to each other
only, and not to the root. -/
structure Apart (owner : ViewModelId) (root : NodeId) (row : Node Code) (here : NodeId → Prop)
    (w : World Code Memory) : Prop where
  standard : (w.viewModel owner).registry = Registry.standard
  made : root.index < w.nodes.size
  row : w.node root = row
  outside : ¬ here root
  closed : ∀ n, here n → ∀ child ∈ (w.node n).children, here child
  fresh : ∀ n : NodeId, w.nodes.size ≤ n.index → here n

variable {owner : ViewModelId} {root n : NodeId} {row : Node Code} {here : NodeId → Prop}
  {w w' : World Code Memory}

theorem hosting_apart : Hosting (Apart owner root row here : World Code Memory → Prop) := by
  intro w w' hnodes hviewModels hw
  have hnode : w'.node = w.node := by
    funext n
    rw [World.node, hnodes, World.node]
  exact {
    standard := by rw [viewModel, hviewModels]; exact hw.standard
    made := hnodes ▸ hw.made
    row := hnode ▸ hw.row
    outside := hw.outside
    closed := hnode ▸ hw.closed
    fresh := hnodes ▸ hw.fresh }

theorem Apart.ne (hw : w.Apart owner root row here) (hn : here n) : n ≠ root :=
  fun h => hw.outside (h ▸ hn)

theorem Apart.mapNode (hw : w.Apart owner root row here) (hn : here n) {g : Node Code → Node Code}
    (hg : ∀ child ∈ (g (w.node n)).children, here child) : (w.mapNode n g).Apart owner root row here where
  standard := hw.standard
  made := Nat.lt_of_lt_of_le hw.made (Table.size_le_modify _ _ _)
  row := by
    rw [World.node, World.mapNode, Table.get_modify, if_neg (hw.ne hn).symm]
    exact hw.row
  outside := hw.outside
  closed m hm child hchild := by
    rw [World.node, World.mapNode, Table.get_modify] at hchild
    split at hchild
    · exact hg child hchild
    · exact hw.closed m hm child hchild
  fresh m hm := hw.fresh m (Nat.le_trans (Table.size_le_modify _ _ _) hm)

theorem Apart.addText (hw : w.Apart owner root row here) (content : String) :
    (w.addNode (.text content)).2.Apart owner root row here := by
  have hsize : (w.addNode (.text content)).2.nodes.size = w.nodes.size + 1 := Table.size_add _ _
  have hchildren : ∀ m, ((w.addNode (.text content)).2.node m).children = (w.node m).children := by
    intro m
    by_cases hm : m = w.nodes.fresh
    · subst hm
      rw [World.node, World.addNode, Table.get_add_fresh, World.node, Table.get_fresh]
      rfl
    · exact congrArg Node.children (Table.get_add_of_ne _ _ hm)
  have hroot : root ≠ w.nodes.fresh := by
    intro h
    have hindex : Key.index root = w.nodes.size := h ▸ w.nodes.index_fresh
    exact Nat.lt_irrefl _ (hindex ▸ hw.made)
  exact {
    standard := hw.standard
    made := hsize ▸ Nat.lt_succ_of_lt hw.made
    row := (Table.get_add_of_ne _ _ hroot).trans hw.row
    outside := hw.outside
    closed := fun m hm child hchild => hw.closed m hm child (hchildren m ▸ hchild)
    fresh := fun m hm => hw.fresh m (Nat.le_of_succ_le (Nat.le_trans (Nat.le_of_eq hsize.symm) hm)) }

theorem Apart.viewModels (hw : w.Apart owner root row here) {g : ViewModel Code → ViewModel Code}
    (id : ViewModelId) (hg : ∀ vm, (g vm).registry = vm.registry) :
    (w.mapViewModel id g).Apart owner root row here where
  standard := by
    rw [World.viewModel, World.mapViewModel, Table.get_modify]
    split
    · next h => exact (hg _).trans (h ▸ hw.standard)
    · exact hw.standard
  made := hw.made
  row := hw.row
  outside := hw.outside
  closed := hw.closed
  fresh := hw.fresh

theorem Apart.record (hw : w.Apart owner root row here) (node : NodeId) (bindings : List BindingId) :
    (w.record owner node bindings).Apart owner root row here := by
  unfold World.record
  split
  · exact hw
  · exact hw.viewModels owner fun _ => rfl

/-! ### The root without its children -/

theorem node_bare (w : World Code Memory) (hn : n ≠ root) : (w.recast (Table.bare root)).node n = w.node n := by
  rw [World.node, World.recast, Table.bare, Table.get_modify, if_neg hn, World.node]

theorem mapNode_bare (hw : w.Apart owner root row here) (hn : here n) (g : Node Code → Node Code) :
    (w.recast (Table.bare root)).mapNode n g = (w.mapNode n g).recast (Table.bare root) := by
  have hcomm := Table.modify_comm w.nodes (·.setChildren []) g hw.made (hw.ne hn).symm
  exact congrArg (fun nodes => { w with nodes }) hcomm.symm

theorem addNode_bare (hw : w.Apart owner root row here) (x : Node Code) :
    (w.recast (Table.bare root)).addNode x = ((w.addNode x).1, (w.addNode x).2.recast (Table.bare root)) := by
  have hfresh : (Table.bare root w.nodes).fresh = w.nodes.fresh :=
    congrArg Key.ofIndex (Table.size_modify_of_lt _ hw.made _)
  have hadd := Table.modify_add w.nodes (·.setChildren []) x hw.made
  exact Prod.ext hfresh (congrArg (fun nodes => { w with nodes }) hadd.symm)

/-- A text is shown on a node that is not the root. -/
theorem setText_bare (hw : w.Apart owner root row here) (hn : here n) (content : String) :
    (w.recast (Table.bare root)).setText n content = (w.setText n content).recast (Table.bare root) ∧
      (w.setText n content).Apart owner root row here := by
  unfold setText
  rw [node_bare w (hw.ne hn)]
  cases w.node n with
  | text old => exact ⟨mapNode_bare hw hn _, hw.mapNode hn fun _ h => absurd h List.not_mem_nil⟩
  | element e =>
    rw [addNode_bare hw]
    refine ⟨mapNode_bare (hw.addText content) hn _, (hw.addText content).mapNode hn ?_⟩
    intro child hchild
    split at hchild
    · have hfresh : child = w.nodes.fresh := List.mem_singleton.mp hchild
      refine hw.fresh child (Nat.le_of_eq ?_)
      rw [hfresh]
      exact w.nodes.index_fresh.symm
    · exact absurd hchild List.not_mem_nil

theorem display_bare (hw : w.Apart owner root row here) (hn : here n) (updater : Updater) (value : Value) :
    (w.recast (Table.bare root)).display updater n value
        = (w.display updater n value).recast (Table.bare root) ∧
      (w.display updater n value).Apart owner root row here := by
  cases updater with
  | value =>
    refine ⟨mapNode_bare hw hn _, hw.mapNode hn fun child hchild => hw.closed n hn child ?_⟩
    cases hnode : w.node n <;> rw [hnode] at hchild <;> exact hchild
  | html =>
    refine ⟨mapNode_bare hw hn _, hw.mapNode hn fun child hchild => ?_⟩
    cases hnode : w.node n <;> rw [hnode] at hchild <;> exact absurd hchild List.not_mem_nil
  | text => exact setText_bare hw hn value.text

end World

variable [Inhabited Code]

namespace Engine

variable {application : Application Code Memory} {owner : ViewModelId} {root n : NodeId}
  {row : Node Code} {here : NodeId → Prop} {w : World Code Memory} {c : Reentry Code Memory} {α β : Type}

/-- Steps that go the same way whether the root has its children or not. -/
abbrev Detached (owner : ViewModelId) (root : NodeId) (row : Node Code) (here : NodeId → Prop)
    (x : Engine Code Memory α) : Prop :=
  Blind (Table.bare root) (World.Apart owner root row here) x

namespace Overlooking

variable (h : Overlooking (Table.bare root) application (World.Apart owner root row here) c)

include h

/-! ### Installing -/

theorem watchFor (binding : BindingId) (path : Path) (reaction : Reaction Code) :
    Detached owner root row here (watchFor c owner binding path reaction) := by
  refine Blind.bind ((Blind.inspect fun _ => rfl).bind fun vm => h.watch _ _ path reaction) fun watcher => ?_
  exact Blind.bind (Blind.update h.hosting ⟨fun _ => rfl, fun _ => rfl, fun _ => rfl⟩) fun _ => Blind.pure watcher

theorem installRender (hn : here n) (kind : DirectiveKind) (updater : Updater) (path : Path) :
    Detached owner root row here (installRender c owner n kind updater path) := by
  refine Blind.bind (Blind.create h.hosting fun _ => ⟨rfl, rfl, rfl⟩) fun binding => ?_
  refine Blind.keeping h.hosting _ ((h.watchFor binding path _).bind fun watcher => ?_)
  refine Blind.bind (fun w hw => ?_) fun _ => Blind.pure binding
  have hshown := World.display_bare hw hn updater (w.watcher watcher).cached
  exact overlooks_update hshown.1 hshown.2

omit h [Inhabited Code] in
theorem addListener (hn : here n) (event : String) (listener : Listener Code) :
    Detached owner root row here
      (update (·.mapNode n (·.addListener event listener)) : Engine Code Memory Unit) := by
  intro w hw
  refine overlooks_update (World.mapNode_bare hw hn _) (hw.mapNode hn fun child hchild => ?_)
  refine hw.closed n hn child ?_
  cases hnode : w.node n <;> rw [hnode] at hchild <;> exact hchild

theorem installModel (hn : here n) (directive : Directive) :
    Detached owner root row here (installModel c owner n directive) := by
  refine (Blind.ofExcept _).bind fun path => (h.installRender hn .model .value path).bind fun binding => ?_
  exact (addListener hn "input" _).bind fun _ => Blind.pure binding

theorem installOn (hn : here n) (directive : Directive) :
    Detached owner root row here (installOn c owner n directive) := by
  unfold Engine.installOn
  cases directive.argument with
  | none => exact Blind.throw _
  | some event =>
    refine (Blind.inspect fun _ => rfl).bind fun vm => (h.get vm.root _ none).bind fun value => ?_
    cases value with
    | function id name =>
      refine Blind.bind (Blind.create h.hosting fun _ => ⟨rfl, rfl, rfl⟩) fun binding => ?_
      exact (addListener hn event _).bind fun _ => Blind.pure binding
    | _ => exact Blind.throw _

theorem watchPlaceholders (binding : BindingId) (reaction : Reaction Code) (paths : List Path) :
    Detached owner root row here (watchPlaceholders c owner binding reaction paths) := by
  induction paths with
  | nil => exact Blind.pure ()
  | cons path rest inductionHypothesis =>
    exact (h.watchFor binding path reaction).bind fun _ => inductionHypothesis

theorem installInterpolation (hn : here n) (text : String) :
    Detached owner root row here (installInterpolation c owner n text) := by
  refine (Blind.inspect fun _ => rfl).bind fun vm => (Blind.ofExcept _).bind fun template => ?_
  refine Blind.bind (Blind.create h.hosting fun _ => ⟨rfl, rfl, rfl⟩) fun binding => ?_
  refine Blind.keeping h.hosting _ ((h.watchPlaceholders binding _ _).bind fun _ => ?_)
  refine Blind.bind (Blind.framed h.hosting _ none ?_) fun _ => Blind.pure binding
  refine (h.renderTemplate template _ _).bind fun shown w hw => ?_
  exact overlooks_update (World.setText_bare hw hn shown).1 (World.setText_bare hw hn shown).2

theorem installAttribute (hn : here n) (name value : String) :
    Detached owner root row here (installAttribute c owner n name value) := by
  intro w hw
  refine overlooks_inspect_bind rfl ?_
  refine Overlooks.bind (overlooks_ofExcept (Q := fun _ v => v = w) rfl) ?_ fun _ _ hv => hv ▸ hw
  rintro directive? v rfl
  cases directive? with
  | none => exact overlooks_pure hw
  | some directive =>
    simp only
    rw [hw.standard]
    cases hfind : Registry.standard.find? directive.kind with
    | none => exact overlooks_throw hw
    | some installer =>
      suffices hinstall : Detached owner root row here (install c installer owner n directive) from
        (hinstall.bind fun binding => Blind.pure (some binding)) v hw
      cases installer with
      | model => exact h.installModel hn directive
      | on => exact h.installOn hn directive
      | render updater => exact (Blind.ofExcept _).bind fun path => h.installRender hn _ updater path
      | custom code => exact absurd hfind (Registry.find?_standard_ne_custom _ _)

end Overlooking

/-! ### Compiling -/

/-- Steps that do not fail and go the same way whether the root has its children or not. -/
abbrev Settles (owner : ViewModelId) (root : NodeId) (row : Node Code) (here : NodeId → Prop)
    (w : World Code Memory) (x : Engine Code Memory α) : Prop :=
  Overlooks (Table.bare root) w x fun r v => (∃ a, r = .ok a) ∧ v.Apart owner root row here

section Settles

omit [Inhabited Code]

variable {x : Engine Code Memory α} {g : α → Engine Code Memory β}

theorem settles_pure (a : α) (hw : w.Apart owner root row here) :
    Settles owner root row here w (pure a) :=
  overlooks_pure ⟨⟨a, rfl⟩, hw⟩

theorem Settles.bind (hx : Settles owner root row here w x)
    (hg : ∀ a v, v.Apart owner root row here → Settles owner root row here v (g a)) :
    Settles owner root row here w (x >>= g) :=
  Overlooks.bind hx (fun a v hv => hg a v hv.2) fun _ _ hv => by
    obtain ⟨a, ha⟩ := hv.1
    cases ha

theorem Settles.keeping (refs : List Ref)
    (hx : ∀ w : World Code Memory, w.Apart owner root row here → Settles owner root row here w x)
    (hw : w.Apart owner root row here) : Settles owner root row here w (keeping refs x) := by
  have hheld : World.Apart owner root row here { w with held := refs ++ w.held } :=
    World.hosting_apart (w := w) rfl rfl hw
  exact Overlooks.keeping refs (hx _ hheld) fun _ v hv => ⟨hv.1, World.hosting_apart (w := v) rfl rfl hv.2⟩

/-- How a step ends is looked at, so its failure is none. -/
theorem Settles.attempt_bind {g : Except Error α → Engine Code Memory β}
    (hx : Detached owner root row here x) (hw : w.Apart owner root row here)
    (hg : ∀ r v, v.Apart owner root row here → Settles owner root row here v (g r)) :
    Settles owner root row here w (attempt x >>= g) :=
  Settles.bind ((hx w hw).attempt fun r _ hv => ⟨⟨r, rfl⟩, hv⟩) hg

end Settles

namespace Overlooking

variable (h : Overlooking (Table.bare root) application (World.Apart owner root row here) c)

include h

theorem installAttributes (hn : here n) (attributes : List (String × String))
    (hw : w.Apart owner root row here) :
    Settles owner root row here w (installAttributes c owner n attributes) := by
  induction attributes generalizing w with
  | nil => exact settles_pure _ hw
  | cons pair rest inductionHypothesis =>
    obtain ⟨name, value⟩ := pair
    refine Settles.attempt_bind (h.installAttribute hn name value) hw fun result v hv => ?_
    cases result with
    | ok binding? =>
      cases binding? with
      | none => exact inductionHypothesis hv
      | some binding =>
        refine Settles.bind (Settles.keeping _ (fun w hw => inductionHypothesis hw) hv) fun result v hv => ?_
        exact settles_pure _ hv
    | error error =>
      refine overlooks_inspect_bind ?_ (Settles.bind (inductionHypothesis hv) fun result v hv => ?_)
      · simp only [World.bindingError, World.nodeName, World.node_bare v (hv.ne hn)]
      · exact settles_pure _ hv

theorem compileElement (hn : here n) (hw : w.Apart owner root row here) :
    Settles owner root row here w (compileElement c owner n) := by
  refine overlooks_inspect_bind rfl ?_
  cases w.isBound owner n with
  | true => exact settles_pure _ hw
  | false =>
    refine overlooks_inspect_bind (by rw [World.node_bare w (hw.ne hn)]) ?_
    refine Settles.bind (h.installAttributes hn _ hw) fun result v hv => ?_
    obtain ⟨bindings, errors⟩ := result
    simp only
    split
    · refine Settles.bind (overlooks_update ?_ ⟨⟨(), rfl⟩, hv.record n bindings⟩) fun _ v hv => ?_
      · unfold World.record
        split <;> rfl
      · exact settles_pure _ hv
    · have hdown : Aloof (Table.bare root) fun w : World Code Memory => bindings.foldl World.teardownBinding w :=
        Aloof.foldl (aloof_teardownBinding (Table.bare root)) bindings
      refine Settles.bind (overlooks_update (hdown.recast v) ⟨⟨(), rfl⟩, ?_⟩) fun _ v hv => settles_pure _ hv
      exact World.hosting_apart (hdown.nodes v) (hdown.viewModels v) hv

theorem compileText (hn : here n) (htext : (w.node n).isElement = false)
    (hw : w.Apart owner root row here) : Settles owner root row here w (compileText c owner n) := by
  refine overlooks_inspect_bind rfl ?_
  cases w.isBound owner n with
  | true => exact settles_pure _ hw
  | false =>
    refine overlooks_inspect_bind ?_ (overlooks_inspect_bind rfl ?_)
    · -- a text shows itself, whatever is below other nodes
      have hnode := World.node_bare w (hw.ne hn)
      rw [World.textContent, World.textContent, World.textWithin, World.textWithin, hnode]
      cases hrow : w.node n with
      | text content => rfl
      | element e =>
        rw [hrow] at htext
        cases htext
    · split
      · exact settles_pure _ hw
      · refine Settles.attempt_bind (h.installInterpolation hn _) hw fun result v hv => ?_
        cases result with
        | ok binding =>
          refine Settles.bind (overlooks_update ?_ ⟨⟨(), rfl⟩, hv.record n [binding]⟩) fun _ v hv => ?_
          · rfl
          · exact settles_pure _ hv
        | error error =>
          refine overlooks_inspect_bind ?_ (settles_pure _ hv)
          simp only [World.bindingError, World.nodeName, World.node_bare v (hv.ne hn)]

omit h [Inhabited Code] in
theorem tallyAll {step : NodeId → Engine Code Memory Tally} {nodes : List NodeId}
    (hstep : ∀ n ∈ nodes, ∀ w : World Code Memory, w.Apart owner root row here →
      Settles owner root row here w (step n)) (hw : w.Apart owner root row here) :
    Settles owner root row here w (tallyAll step nodes) := by
  induction nodes generalizing w with
  | nil => exact settles_pure _ hw
  | cons node rest inductionHypothesis =>
    rw [List.forall_mem_cons] at hstep
    refine Settles.bind (hstep.1 w hw) fun first v hv => ?_
    exact Settles.bind (inductionHypothesis hstep.2 hv) fun others v hv => settles_pure _ hv

theorem compileNodes (depth : Nat) (nodes : List NodeId) (hnodes : ∀ n ∈ nodes, here n)
    (hw : w.Apart owner root row here) :
    Settles owner root row here w (compileNodes c owner depth nodes) := by
  induction depth generalizing nodes w with
  | zero => exact overlooks_exhausted
  | succ depth inductionHypothesis =>
    refine Settles.keeping _ (fun w hw => tallyAll (fun n hmem w hw => ?_) hw) hw
    have hn := hnodes n hmem
    refine overlooks_inspect_bind (by rw [World.node_bare w (hw.ne hn)]) ?_
    cases hnode : (w.node n).isElement with
    | true =>
      refine Settles.bind (h.compileElement hn hw) fun result v hv => ?_
      obtain ⟨here, descend⟩ := result
      cases descend with
      | true =>
        refine overlooks_inspect_bind (by rw [World.node_bare v (hv.ne hn)]) ?_
        refine Settles.bind (inductionHypothesis _ (hv.closed n hn) hv) fun below v hv => ?_
        exact settles_pure _ hv
      | false => exact settles_pure _ hv
    | false => exact h.compileText hn hnode hw

end Overlooking

omit [Inhabited Code] in
/-- What a root gets back is what it had. -/
theorem appendChildren_bare (hw : w.Apart owner root row here) :
    (w.recast (Table.bare root)).appendChildren root row.children = w := by
  refine congrArg (fun nodes => { w with nodes }) (Table.modify_modify_cancel w.nodes hw.made ?_)
  change Node.setChildren ((Node.setChildren [] (w.node root)).children ++ row.children)
    (Node.setChildren [] (w.node root)) = w.node root
  rw [← hw.row]
  cases w.node root <;> rfl

omit [Inhabited Code] in
/-- Below the root of a tree no visit comes to the root. -/
theorem apart_tree (hstandard : (w.viewModel owner).registry = Registry.standard) {nodes : List NodeId}
    (htree : w.Tree [root] (root :: nodes)) :
    w.Apart owner root (w.node root) (fun n => n ∈ nodes ∨ w.nodes.size ≤ n.index) := by
  obtain ⟨hbelow, hroot, hmade⟩ := tree_children htree
  refine ⟨hstandard, hmade, rfl, ?_, ?_, fun n hn => Or.inr hn⟩
  · rintro (hmem | hnew)
    · exact hroot hmem
    · exact Nat.not_lt.mpr hnew hmade
  · rintro n (hmem | hnew) child hchild
    · exact Or.inl (hbelow.lists.closed.2 n hmem child hchild)
    · rw [World.children_of_size_le hnew] at hchild
      cases hchild

/--
Compiling a tree that is taken out of its root comes to the same end as compiling it where it stands: the same
answer or the same errors, and the same world, the children of the root included. Getters only read, and they
do not look at whether the root has its children.
-/
theorem compileDetached_eq_compile (happ : application.Overlooks (Table.bare root))
    (hstandard : (w.viewModel owner).registry = Registry.standard) {nodes : List NodeId}
    (htree : w.Tree [root] (root :: nodes)) (depth : Nat) :
    compileDetached (reentry application depth) owner root w
      = compile (reentry application depth) owner root w := by
  let c := reentry application depth
  let start : World Code Memory := { w with held := [.viewModel owner, .node root] ++ w.held }
  have happart := apart_tree (w := start) hstandard ⟨htree.lists.congr fun _ _ => rfl, htree.nodup, htree.made⟩
  have hvisited : ∀ n ∈ (start.node root).children, n ∈ nodes ∨ start.nodes.size ≤ n.index := fun n hn =>
    Or.inl ((tree_children htree).1.lists.closed.1 n hn)
  obtain ⟨hsame, hsettles⟩ := (overlooking_reentry happ World.hosting_apart depth).compileNodes c.depth
    (start.node root).children hvisited happart
  let walk := compileNodes c owner c.depth (start.node root).children
  let reattach : Tally → Engine Code Memory Nat := fun tally => do
    update (·.appendChildren root (start.node root).children)
    ofExcept tally.result
  let answer : Tally → Engine Code Memory Nat := fun tally => ofExcept tally.result
  let release (p : Except Error Nat × World Code Memory) : Except Error Nat × World Code Memory :=
    (p.1, { p.2 with held := w.held })
  suffices hwalk : (walk (start.recast (Table.bare root))).bind (fun p => ExceptT.bindCont reattach p.1 p.2)
      = (walk start).bind fun p => ExceptT.bindCont answer p.1 p.2 from
    congrArg (Option.map release) hwalk
  rw [show walk (start.recast (Table.bare root)) = _ from hsame]
  change (Option.map _ (walk start)).bind _ = _
  cases hrun : walk start with
  | none => rfl
  | some outcome =>
    obtain ⟨r, v⟩ := outcome
    obtain ⟨⟨tally, rfl⟩, hv⟩ := hsettles r v hrun
    exact congrArg (fun v => some (tally.result, v)) (appendChildren_bare hv)

end Engine

/-! ### A getter that looks at the tree -/

theorem Application.overlooks_idle (f : Table NodeId (Node Unit) → Table NodeId (Node Unit)) :
    (idle : Application Unit Unit).Overlooks f where
  notes _ _ := rfl
  getter _ _ := .done _

theorem Engine.compileDetached_eq_compile_sapling :
    (Application.idle : Application Unit Unit).Overlooks (Table.bare ⟨0⟩) ∧
      World.sapling.Tree [⟨0⟩] [⟨0⟩, ⟨1⟩, ⟨2⟩] ∧
      compileDetached (reentry Application.idle 3) ⟨0⟩ ⟨0⟩ World.sapling
        = compile (reentry Application.idle 3) ⟨0⟩ ⟨0⟩ World.sapling :=
  ⟨Application.overlooks_idle _, World.tree_sapling,
    compileDetached_eq_compile (Application.overlooks_idle _) rfl World.tree_sapling 3⟩

/-- An embedder whose getters look at the children of the first node and fail if there are none. -/
def Application.peeping : Application Unit Unit :=
  { Application.idle with
    getter := fun _ _ => .look fun w =>
      if (w.node ⟨0⟩).children.isEmpty then .fail .detached else .done (.string "x") }

/-- The tree whose paragraph shows `a`, which is a computed property. -/
def World.grafted : World Unit Unit :=
  { World.sapling with
    objects := ⟨#[{ slots := .ofList [("a", .computed ⟨0⟩)] }]⟩
    sources := ⟨#[{}]⟩
    computeds := ⟨#[{ name := "a", tracker := ⟨0⟩, memoize := true, getter := .free (), source := ⟨0⟩ }]⟩ }

theorem Application.gettersRead_peeping : peeping.GettersRead := by
  intro code owner?
  refine .look trivial (fun w w' hsame => ?_) fun w => ?_
  · have hnode : w'.node = w.node := by
      funext n
      rw [World.node, hsame.nodes, World.node]
    rw [hnode]
  · split
    · exact .fail _
    · exact .done _

/-- A getter that looks at the tree tells whether it is taken out. -/
theorem Engine.compileDetached_ne_compile :
    Application.peeping.GettersRead ∧ World.grafted.Tree [⟨0⟩] [⟨0⟩, ⟨1⟩, ⟨2⟩] ∧
      (World.grafted.viewModel ⟨0⟩).registry = Registry.standard ∧
      (compileDetached (reentry Application.peeping 3) ⟨0⟩ ⟨0⟩ World.grafted).map (·.1.toOption) = some none ∧
      (compile (reentry Application.peeping 3) ⟨0⟩ ⟨0⟩ World.grafted).map (·.1.toOption) = some (some 1) :=
  ⟨Application.gettersRead_peeping,
    ⟨World.tree_sapling.lists.congr fun _ _ => rfl, World.tree_sapling.nodup, World.tree_sapling.made⟩, rfl,
    by decide +kernel, by decide +kernel⟩

end ViewBinding
