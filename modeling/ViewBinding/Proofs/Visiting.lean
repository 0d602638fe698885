import ViewBinding.Proofs.Fate

/-!
# Trees and the visits to them

A pass visits the nodes of a tree in document order and goes below a node unless something failed there.
Its report names the nodes that it visited with their errors. Passes over one part of a tree after
another make one pass.
-/

namespace ViewBinding

open Engine

variable {Code Memory : Type} [Inhabited Code]

namespace World

section Trees

omit [Inhabited Code]

/-- The trees below some nodes, these nodes included, in document order. -/
inductive Lists (w : World Code Memory) : List NodeId → List NodeId → Prop
  | nil : Lists w [] []
  | cons {n : NodeId} {rest below others : List NodeId} (hbelow : Lists w (w.node n).children below)
      (hrest : Lists w rest others) : Lists w (n :: rest) (n :: (below ++ others))

/-- A node is somewhere below another one. -/
inductive Below (w : World Code Memory) : NodeId → NodeId → Prop
  | child {n d : NodeId} (hchild : d ∈ (w.node n).children) : Below w n d
  | deeper {n child d : NodeId} (hchild : child ∈ (w.node n).children) (hbelow : Below w child d) :
      Below w n d

/-- The nodes that a pass visits, in document order, with the errors that each of them reports. It
passes over what is below a node that reports some. -/
inductive Visits (w : World Code Memory) : List NodeId → List (NodeId × List Error) → Prop
  | nil : Visits w [] []
  | refused {n : NodeId} {rest : List NodeId} {errors : List Error}
      {report : List (NodeId × List Error)} (herrors : errors ≠ []) (hrest : Visits w rest report) :
      Visits w (n :: rest) ((n, errors) :: report)
  | passed {n : NodeId} {rest : List NodeId} {below report : List (NodeId × List Error)}
      (hbelow : Visits w (w.node n).children below) (hrest : Visits w rest report) :
      Visits w (n :: rest) ((n, []) :: (below ++ report))

variable {w w₁ w₂ : World Code Memory} {nodes all : List NodeId} {n d : NodeId}

theorem Lists.closed (h : w.Lists nodes all) :
    (∀ n ∈ nodes, n ∈ all) ∧ ∀ n ∈ all, ∀ child ∈ (w.node n).children, child ∈ all := by
  induction h with
  | nil => exact ⟨fun _ h => h, fun _ h => absurd h List.not_mem_nil⟩
  | @cons n rest below others _ _ hbelow hrest =>
    refine ⟨?_, ?_⟩
    · refine List.forall_mem_cons.mpr ⟨List.mem_cons_self, fun m hm => ?_⟩
      exact List.mem_cons_of_mem _ (List.mem_append_right _ (hrest.1 m hm))
    · refine List.forall_mem_cons.mpr ⟨fun child hchild => ?_, fun m hm child hchild => ?_⟩
      · exact List.mem_cons_of_mem _ (List.mem_append_left _ (hbelow.1 child hchild))
      · refine List.mem_cons_of_mem _ (List.mem_append.mpr ?_)
        exact (List.mem_append.mp hm).imp (fun h => hbelow.2 m h child hchild)
          fun h => hrest.2 m h child hchild

theorem Lists.congr (h : w.Lists nodes all)
    (hchildren : ∀ n ∈ all, (w₁.node n).children = (w.node n).children) : w₁.Lists nodes all := by
  induction h with
  | nil => exact .nil
  | @cons n rest below others _ _ hbelow hrest =>
    refine .cons ?_ (hrest fun m hm =>
      hchildren m (List.mem_cons_of_mem _ (List.mem_append_right _ hm)))
    rw [hchildren n List.mem_cons_self]
    exact hbelow fun m hm => hchildren m (List.mem_cons_of_mem _ (List.mem_append_left _ hm))

theorem Lists.single (h : w.Lists (w.node n).children nodes) : w.Lists [n] (n :: nodes) := by
  have hcons := Lists.cons h .nil
  rwa [List.append_nil] at hcons

/-- A list of nodes without children lists itself. -/
theorem lists_leaves (w : World Code Memory) (nodes : List NodeId)
    (hleaves : ∀ n ∈ nodes, (w.node n).children = []) : w.Lists nodes nodes := by
  induction nodes with
  | nil => exact .nil
  | cons n rest inductionHypothesis =>
    have hself : w.Lists (w.node n).children [] := by
      rw [hleaves n List.mem_cons_self]
      exact .nil
    exact .cons hself (inductionHypothesis fun m hm => hleaves m (List.mem_cons_of_mem _ hm))

theorem Below.mem (h : w.Below n d) (hclosed : ∀ n ∈ all, ∀ child ∈ (w.node n).children, child ∈ all)
    (hn : n ∈ all) : d ∈ all := by
  induction h with
  | child hchild => exact hclosed _ hn _ hchild
  | deeper hchild _ inductionHypothesis => exact inductionHypothesis (hclosed _ hn _ hchild)

/-- What is below a node is below one of its children, the child included. -/
theorem Below.under (h : w.Below n d) (hlists : w.Lists (w.node n).children all) : d ∈ all := by
  obtain ⟨hroots, hclosed⟩ := hlists.closed
  cases h with
  | child hchild => exact hroots d hchild
  | deeper hchild hbelow => exact hbelow.mem hclosed (hroots _ hchild)

theorem children_of_size_le (h : w.nodes.size ≤ n.index) : (w.node n).children = [] := by
  rw [node, w.nodes.get_of_size_le h]
  rfl

theorem children_of_not_isElement (h : (w.node n).isElement = false) : (w.node n).children = [] := by
  cases hrow : w.node n with
  | text content => rfl
  | element e =>
    rw [hrow] at h
    cases h

theorem Below.children_ne_nil (h : w.Below n d) : (w.node n).children ≠ [] := by
  intro hnone
  cases h with
  | child hchild => exact absurd (hnone ▸ hchild) List.not_mem_nil
  | deeper hchild _ => exact absurd (hnone ▸ hchild) List.not_mem_nil

theorem Below.index_lt (h : w.Below n d) : n.index < w.nodes.size :=
  Nat.lt_of_not_le fun hle => h.children_ne_nil (children_of_size_le hle)

theorem Below.congr (h : w.Below n d) (hsame : ∀ n, (w₁.node n).children = (w.node n).children) :
    w₁.Below n d := by
  induction h with
  | child hchild => exact .child (by rw [hsame]; exact hchild)
  | deeper hchild _ inductionHypothesis =>
    exact .deeper (by rw [hsame]; exact hchild) inductionHypothesis

/-- Nodes whose children are the same lead below to the same nodes. -/
theorem Below.later (h : w.Below n d)
    (hsame : ∀ n ∈ all, n.index < w.nodes.size → (w₁.node n).children = (w.node n).children)
    (hclosed : ∀ n ∈ all, ∀ child ∈ (w₁.node n).children, child ∈ all) (hn : n ∈ all) :
    w₁.Below n d := by
  induction h with
  | child hchild =>
    refine .child ?_
    rw [hsame _ hn (Below.index_lt (.child hchild))]
    exact hchild
  | deeper hchild _ inductionHypothesis =>
    have hlt := Below.index_lt (w := w) (.child hchild)
    have hchild' := hchild
    rw [← hsame _ hn hlt] at hchild'
    exact .deeper hchild' (inductionHypothesis (hclosed _ hn _ hchild'))

/-- What is below a node later was below it if nothing there has other children now. -/
theorem Below.earlier (h : w₁.Below n d) (hn : (w₁.node n).children = (w.node n).children)
    (hsame : ∀ e, w.Below n e → (w₁.node e).children = (w.node e).children) : w.Below n d := by
  induction h with
  | child hchild => exact .child (hn ▸ hchild)
  | deeper hchild _ inductionHypothesis =>
    rw [hn] at hchild
    exact .deeper hchild (inductionHypothesis (hsame _ (.child hchild)) fun e he =>
      hsame e (.deeper hchild he))

/-- Nodes and what is below them, all of it made, and no node twice. -/
structure Tree (w : World Code Memory) (nodes all : List NodeId) : Prop where
  lists : w.Lists nodes all
  nodup : all.Nodup
  made : ∀ n ∈ all, n.index < w.nodes.size

/-- How many of some nodes are elements. -/
def elements (w : World Code Memory) (nodes : List NodeId) : Nat :=
  nodes.countP fun n => (w.node n).isElement

theorem elements_congr (h : ∀ n ∈ nodes, w₁.node n = w.node n) :
    w₁.elements nodes = w.elements nodes :=
  List.countP_congr fun n hn => by rw [h n hn]

theorem elements_append (w : World Code Memory) (nodes others : List NodeId) :
    w.elements (nodes ++ others) = w.elements nodes + w.elements others :=
  List.countP_append

theorem elements_cons_of_isElement (h : (w.node n).isElement = true) :
    w.elements (n :: nodes) = w.elements nodes + 1 :=
  List.countP_cons_of_pos h

/-- A tree whose nodes are as they were is a tree still. -/
theorem Tree.congr (h : w.Tree nodes all) (hsame : ∀ n ∈ all, w₁.node n = w.node n)
    (hsize : w.nodes.size ≤ w₁.nodes.size) : w₁.Tree nodes all where
  lists := h.lists.congr fun n hn => by rw [hsame n hn]
  nodup := h.nodup
  made n hn := Nat.lt_of_lt_of_le (h.made n hn) hsize

/-- Children that a node got since are a tree of texts. -/
theorem Hosts.tree_texts {here : NodeId → Prop} (h : Hosts here w w₁)
    (hone : (w₁.node n).children.length ≤ 1) (hnew : ∀ child ∈ (w₁.node n).children,
      w.nodes.size ≤ child.index ∧ child.index < w₁.nodes.size) :
    w₁.Tree (w₁.node n).children (w₁.node n).children ∧ w₁.elements (w₁.node n).children = 0 := by
  have htext : ∀ m ∈ (w₁.node n).children, (w₁.node m).isElement = false := fun m hm =>
    h.text m (hnew m hm).1
  refine ⟨⟨lists_leaves w₁ _ fun m hm => ?_, ?_, fun m hm => (hnew m hm).2⟩, ?_⟩
  · exact children_of_not_isElement (htext m hm)
  · cases hrow : (w₁.node n).children with
    | nil => exact .nil
    | cons m rest =>
      rw [hrow, List.length_cons, Nat.succ_le_succ_iff, Nat.le_zero, List.length_eq_zero_iff] at hone
      simp [hone]
  · exact List.countP_eq_zero.mpr fun m hm => by simp [htext m hm]

/-- Once a node has been changed there is a tree below it still: the one that was there, or else a new
text. -/
theorem Hosts.tree_children {below : List NodeId} (h : Hosts (· = n) w w₁)
    (htree : w.Tree (w.node n).children below) (hn : n ∉ below) (hlt : n.index < w.nodes.size) :
    ∃ below', w₁.Tree (w₁.node n).children below' ∧ n ∉ below' ∧
      (∀ m ∈ below', m ∈ below ∨ w.nodes.size ≤ m.index) ∧
      w₁.elements below' ≤ w.elements below := by
  rcases h.children n hlt with hold | ⟨hone, hnew⟩
  · have hsame : ∀ m ∈ below, w₁.node m = w.node m := fun m hm =>
      h.same m (htree.made m hm) fun heq => hn (heq ▸ hm)
    refine ⟨below, ?_, hn, fun m => Or.inl, Nat.le_of_eq (elements_congr hsame)⟩
    rw [hold]
    exact htree.congr hsame h.size
  · obtain ⟨htexts, hnone⟩ := h.tree_texts hone hnew
    exact ⟨_, htexts, fun hmem => Nat.not_lt.mpr (hnew n hmem).1 hlt, fun m hm => Or.inr (hnew m hm).1,
      hnone ▸ Nat.zero_le _⟩

variable {report below : List (NodeId × List Error)}

theorem Visits.congr (h : w.Visits nodes report)
    (hchildren : ∀ n ∈ report.map Prod.fst, (w₁.node n).children = (w.node n).children) :
    w₁.Visits nodes report := by
  induction h with
  | nil => exact .nil
  | refused herrors _ inductionHypothesis =>
    exact .refused herrors (inductionHypothesis fun m hm => hchildren m (List.mem_cons_of_mem _ hm))
  | passed _ _ hbelow hrest =>
    refine .passed ?_ (hrest fun m hm => hchildren m ?_)
    · rw [hchildren _ List.mem_cons_self]
      refine hbelow fun m hm => hchildren m (List.mem_cons_of_mem _ ?_)
      rw [List.map_append]
      exact List.mem_append_left _ hm
    · refine List.mem_cons_of_mem _ ?_
      rw [List.map_append]
      exact List.mem_append_right _ hm

theorem Visits.append {nodes' : List NodeId} (h : w.Visits nodes report) (h' : w.Visits nodes' below) :
    w.Visits (nodes ++ nodes') (report ++ below) := by
  induction h with
  | nil => exact h'
  | refused herrors _ inductionHypothesis => exact .refused herrors inductionHypothesis
  | passed hbelow _ _ hrest =>
    rw [List.cons_append, List.cons_append, List.append_assoc]
    exact .passed hbelow hrest

end Trees

/-! ### Passes -/

/-- A visit to a node alone: an element is bound by its attributes, and a text by its template. -/
def Handles (c : Reentry Code Memory) (owner : ViewModelId) (n : NodeId) (w : World Code Memory)
    (tally : Tally) (w' : World Code Memory) : Prop :=
  ((w.node n).isElement = true ∧
    ∃ descend, compileElement c owner n w = some (.ok (tally, descend), w')) ∨
  ((w.node n).isElement = false ∧ compileText c owner n w = some (.ok tally, w'))

/-- A node was met in a world that fits, in a pass from `w` to `w'`. It was met as it was in `w`, and as
the visit left it so it is in `w'`, with what is below it if something failed there. -/
structure Met (fit : World Code Memory → Prop) (c : Reentry Code Memory) (owner : ViewModelId)
    (w w' : World Code Memory) (n : NodeId) (errors : List Error) (before after : World Code Memory) :
    Prop where
  fits : fit before
  handles : ∃ tally, Handles c owner n before tally after ∧ tally.errors = errors
  node_before : n.index < w.nodes.size → before.node n = w.node n
  isBound_before : before.isBound owner n = w.isBound owner n
  node_after : w'.node n = after.node n
  isBound_after : w'.isBound owner n = after.isBound owner n
  children_after : errors ≠ [] → ∀ child ∈ (w'.node n).children, w'.node child = after.node child

/-- What a pass over the nodes `all` has done, which began at `w` and met the nodes in worlds that fit. -/
structure Compiled (fit : World Code Memory → Prop) (c : Reentry Code Memory)
    (holds : Memory → List Ref) (owner : ViewModelId) (all : List NodeId)
    (report : List (NodeId × List Error)) (tally : Tally) (w w' : World Code Memory) : Prop where
  /-- Nothing has changed but what binding the nodes that were visited changes. -/
  ties : Ties holds owner (· ∈ report.map Prod.fst) w w'
  fate : ∀ v ∈ report, Fate c owner w w' v.1 v.2
  errors : tally.errors = report.flatMap Prod.snd
  count : (w'.viewModel owner).bindingCount = (w.viewModel owner).bindingCount + tally.installed
  /-- No node was visited twice. -/
  nodup : (report.map Prod.fst).Nodup
  /-- Other nodes were visited only if they are new. -/
  within : ∀ n ∈ report.map Prod.fst, n.index < w'.nodes.size ∧ (n ∈ all ∨ w.nodes.size ≤ n.index)
  /-- Nothing below a node was visited if something failed there. -/
  skipped : ∀ v ∈ report, v.2 ≠ [] → ∀ d, w.Below v.1 d → d ∈ all ∧ d ∉ report.map Prod.fst
  /-- Nor was a new node that is below it now. -/
  fresh : ∀ v ∈ report, v.2 ≠ [] → ∀ d ∈ (w'.node v.1).children, w.nodes.size ≤ d.index →
    d ∉ report.map Prod.fst
  met : ∀ v ∈ report, ∃ before after, Met fit c owner w w' v.1 v.2 before after

section Passes

variable {fit : World Code Memory → Prop} {c : Reentry Code Memory} {holds : Memory → List Ref} {owner : ViewModelId}
  {all all' : List NodeId} {report report' : List (NodeId × List Error)} {tally tally' : Tally}
  {w w₁ w₂ : World Code Memory} {n : NodeId}

theorem compiled_nil (w : World Code Memory) : Compiled fit c holds owner [] [] {} w w where
  ties := .refl w
  fate _ hv := absurd hv List.not_mem_nil
  errors := rfl
  count := rfl
  nodup := .nil
  within _ hn := absurd hn List.not_mem_nil
  skipped _ hv := absurd hv List.not_mem_nil
  fresh _ hv := absurd hv List.not_mem_nil
  met _ hv := absurd hv List.not_mem_nil

/-- A single node was visited. -/
theorem compiled_single (hties : Ties holds owner (· = n) w w₁)
    (hfate : Fate c owner w w₁ n tally.errors)
    (hcount : (w₁.viewModel owner).bindingCount = (w.viewModel owner).bindingCount + tally.installed)
    (hn : n ∈ all) (hlt : n.index < w.nodes.size)
    (hskipped : tally.errors ≠ [] → ∀ d, w.Below n d → d ∈ all ∧ d ≠ n) (hfits : fit w)
    (hhandles : Handles c owner n w tally w₁) :
    Compiled fit c holds owner all [(n, tally.errors)] tally w w₁ where
  ties := hties.mono fun m hm => by simp [hm]
  fate := by simpa using hfate
  errors := by simp
  count := hcount
  nodup := by simp
  within := by
    simp only [List.map_cons, List.map_nil, List.mem_singleton, forall_eq]
    exact ⟨Nat.lt_of_lt_of_le hlt hties.hosts.size, Or.inl hn⟩
  skipped := by simpa using hskipped
  fresh := by
    rintro v - - d - hd hmem
    rw [List.map_cons, List.map_nil, List.mem_singleton] at hmem
    exact Nat.not_lt.mpr hd (hmem ▸ hlt)
  met v hv := by
    rw [List.mem_singleton.mp hv]
    exact ⟨w, w₁, hfits, ⟨tally, hhandles, rfl⟩, fun _ => rfl, rfl, rfl, rfl, fun _ _ _ => rfl⟩

theorem Compiled.released {refs : List Ref}
    (h : Compiled fit c holds owner all report tally { w with held := refs } w₁) :
    Compiled fit c holds owner all report tally w { w₁ with held := w.held } where
  ties := h.ties.released
  fate v hv := (h.fate v hv).released
  errors := h.errors
  count := h.count
  nodup := h.nodup
  within := h.within
  skipped v hv herrors d hd := h.skipped v hv herrors d (hd.congr fun _ => rfl)
  fresh := h.fresh
  met v hv := by
    obtain ⟨before, after, hmet⟩ := h.met v hv
    exact ⟨before, after, hmet.fits, hmet.handles, hmet.node_before, hmet.isBound_before,
      hmet.node_after, hmet.isBound_after, hmet.children_after⟩

/-- Nothing that is below a node after a pass was visited if something failed there. -/
theorem Compiled.skipped_after (h : Compiled fit c holds owner all report tally w w₁)
    (hmade : ∀ m ∈ all, m.index < w.nodes.size) {v : NodeId × List Error} (hv : v ∈ report)
    (herrors : v.2 ≠ []) {d : NodeId} (hd : w₁.Below v.1 d) : d ∉ report.map Prod.fst := by
  have hleaf : ∀ m : NodeId, w.nodes.size ≤ m.index → (w₁.node m).children = [] := fun m hm =>
    children_of_not_isElement (h.ties.hosts.text m hm)
  by_cases hlt : v.1.index < w.nodes.size
  · rcases h.ties.hosts.children v.1 hlt with hsame | ⟨-, hnew⟩
    · refine (h.skipped v hv herrors d (hd.earlier hsame fun e he => ?_)).2
      obtain ⟨hall, hnot⟩ := h.skipped v hv herrors e he
      rw [h.ties.hosts.same e (hmade e hall) hnot]
    · cases hd with
      | child hchild => exact h.fresh v hv herrors d hchild (hnew d hchild).1
      | deeper hchild hbelow => exact absurd (hleaf _ (hnew _ hchild).1) hbelow.children_ne_nil
  · exact absurd (hleaf v.1 (Nat.le_of_not_lt hlt)) hd.children_ne_nil

/-- New nodes need not be named. -/
theorem Compiled.mono (h : Compiled fit c holds owner all' report tally w w₁)
    (hsub : ∀ m ∈ all', m ∈ all ∨ w.nodes.size ≤ m.index)
    (hclosed : ∀ m ∈ all, ∀ child ∈ (w.node m).children, child ∈ all) :
    Compiled fit c holds owner all report tally w w₁ where
  ties := h.ties
  fate := h.fate
  errors := h.errors
  count := h.count
  nodup := h.nodup
  within m hm := ⟨(h.within m hm).1, (h.within m hm).2.elim (hsub m) Or.inr⟩
  skipped v hv herrors d hd := by
    refine ⟨?_, (h.skipped v hv herrors d hd).2⟩
    have hnew : ¬ w.nodes.size ≤ v.1.index := Nat.not_le.mpr hd.index_lt
    rcases (h.within v.1 (List.mem_map_of_mem hv)).2 with hmem | hge
    · exact hd.mem hclosed ((hsub v.1 hmem).resolve_right hnew)
    · exact absurd hge hnew
  fresh := h.fresh
  met := h.met

/-- One pass after another, over other nodes. -/
theorem Compiled.append (h : Compiled fit c holds owner all report tally w w₁)
    (h' : Compiled fit c holds owner all' report' tally' w₁ w₂) (hmanned : w.Manned)
    (hmade : ∀ m ∈ all, m.index < w.nodes.size)
    (hapart : ∀ m ∈ all', m ∉ all ∧ m ∉ report.map Prod.fst)
    (hclosed : ∀ m ∈ all', ∀ child ∈ (w₁.node m).children, child ∈ all')
    (hold : ∀ v ∈ report, v.2 ≠ [] → ∀ m ∈ all', m.index < w.nodes.size) :
    Compiled fit c holds owner (all ++ all') (report ++ report') (tally.add tally') w w₂ := by
  have hdisjoint : ∀ m ∈ report'.map Prod.fst, m ∉ report.map Prod.fst := by
    intro m hm hmem
    rcases (h'.within m hm).2 with hall | hge
    · exact (hapart m hall).2 hmem
    · exact Nat.not_lt.mpr hge (h.within m hmem).1
  have hleft : ∀ m, m ∈ report.map Prod.fst → m ∈ (report ++ report').map Prod.fst := by
    intro m hm
    rw [List.map_append]
    exact List.mem_append_left _ hm
  have hright : ∀ m, m ∈ report'.map Prod.fst → m ∈ (report ++ report').map Prod.fst := by
    intro m hm
    rw [List.map_append]
    exact List.mem_append_right _ hm
  -- what is below a node where something failed is passed over the second time, too
  have hunder : ∀ v ∈ report, v.2 ≠ [] → ∀ d ∈ (w₁.node v.1).children,
      d.index < w₁.nodes.size ∧ d ∉ report'.map Prod.fst := by
    intro v hv herrors d hd
    by_cases hge : w.nodes.size ≤ d.index
    · have hlt : d.index < w₁.nodes.size := by
        by_cases hv' : v.1.index < w.nodes.size
        · rcases h.ties.hosts.children v.1 hv' with hsame | ⟨-, hnew⟩
          · rw [hsame] at hd
            exact absurd (hmade d (h.skipped v hv herrors d (.child hd)).1) (Nat.not_lt.mpr hge)
          · exact (hnew d hd).2
        · rw [children_of_not_isElement (h.ties.hosts.text v.1 (Nat.le_of_not_lt hv'))] at hd
          cases hd
      refine ⟨hlt, fun hmem => ?_⟩
      rcases (h'.within d hmem).2 with hall' | hge'
      · exact Nat.not_lt.mpr hge (hold v hv herrors d hall')
      · exact Nat.not_lt.mpr hge' hlt
    · have hlt : d.index < w₁.nodes.size :=
        Nat.lt_of_lt_of_le (Nat.lt_of_not_le hge) h.ties.hosts.size
      refine ⟨hlt, fun hmem => ?_⟩
      have hv' : v.1.index < w.nodes.size := by
        refine Nat.lt_of_not_le fun hnew => ?_
        rw [children_of_not_isElement (h.ties.hosts.text v.1 hnew)] at hd
        cases hd
      rcases h.ties.hosts.children v.1 hv' with hsame | ⟨-, hnew⟩
      · rw [hsame] at hd
        rcases (h'.within d hmem).2 with hall' | hge'
        · exact (hapart d hall').1 (h.skipped v hv herrors d (.child hd)).1
        · exact Nat.not_lt.mpr hge' hlt
      · exact absurd (hnew d hd).1 hge
  constructor
  · exact (h.ties.mono hleft).trans (h'.ties.mono hright) hmanned
  · intro v hv
    rcases List.mem_append.mp hv with hv | hv
    · have hm : v.1 ∈ report.map Prod.fst := List.mem_map_of_mem hv
      exact (h.fate v hv).after h.ties h'.ties hmanned (fun hm' => hdisjoint _ hm' hm)
        (h.within _ hm).1
    · exact (h'.fate v hv).before h.ties h'.ties hmanned (hdisjoint _ (List.mem_map_of_mem hv))
  · rw [List.flatMap_append, ← h.errors, ← h'.errors]
    rfl
  · rw [h'.count, h.count, Nat.add_assoc]
    rfl
  · rw [List.map_append, List.nodup_append]
    exact ⟨h.nodup, h'.nodup, fun m hm m' hm' heq => hdisjoint m' hm' (heq ▸ hm)⟩
  · intro m hm
    rw [List.map_append] at hm
    rcases List.mem_append.mp hm with hm | hm
    · refine ⟨Nat.lt_of_lt_of_le (h.within m hm).1 h'.ties.hosts.size, ?_⟩
      exact (h.within m hm).2.imp_left (List.mem_append_left _)
    · refine ⟨(h'.within m hm).1, ?_⟩
      exact (h'.within m hm).2.imp (List.mem_append_right _)
        (Nat.le_trans h.ties.hosts.size)
  · intro v hv herrors d hd
    rw [List.map_append]
    simp only [List.mem_append, not_or]
    rcases List.mem_append.mp hv with hv | hv
    · obtain ⟨hall, hnot⟩ := h.skipped v hv herrors d hd
      refine ⟨Or.inl hall, hnot, fun hmem => ?_⟩
      rcases (h'.within d hmem).2 with hall' | hge
      · exact (hapart d hall').1 hall
      · exact Nat.not_lt.mpr (Nat.le_trans h.ties.hosts.size hge) (hmade d hall)
    · have hv' : v.1 ∈ all' := by
        refine (h'.within v.1 (List.mem_map_of_mem hv)).2.resolve_right fun hge => ?_
        exact Nat.not_lt.mpr (Nat.le_trans h.ties.hosts.size hge) hd.index_lt
      have hd' : w₁.Below v.1 d := by
        refine hd.later (fun m hm hlt => ?_) hclosed hv'
        rw [h.ties.hosts.same m hlt (hapart m hm).2]
      obtain ⟨hall', hnot⟩ := h'.skipped v hv herrors d hd'
      exact ⟨Or.inr hall', (hapart d hall').2, hnot⟩
  · intro v hv herrors d hd hge
    rw [List.map_append, List.mem_append, not_or]
    rcases List.mem_append.mp hv with hv | hv
    · have hm : v.1 ∈ report.map Prod.fst := List.mem_map_of_mem hv
      rw [h'.ties.hosts.same v.1 (h.within _ hm).1 fun hmem => hdisjoint _ hmem hm] at hd
      exact ⟨h.fresh v hv herrors d hd hge, (hunder v hv herrors d hd).2⟩
    · by_cases hlt : w₁.nodes.size ≤ d.index
      · refine ⟨fun hmem => Nat.not_lt.mpr hlt (h.within d hmem).1, h'.fresh v hv herrors d hd hlt⟩
      · -- a node of the first pass, so it was below already
        have hv' : v.1.index < w₁.nodes.size := by
          refine Nat.lt_of_not_le fun hnew => ?_
          rw [children_of_not_isElement (h'.ties.hosts.text v.1 hnew)] at hd
          cases hd
        rcases h'.ties.hosts.children v.1 hv' with hsame | ⟨-, hnew⟩
        · rw [hsame] at hd
          obtain ⟨hall', hnot⟩ := h'.skipped v hv herrors d (.child hd)
          exact ⟨(hapart d hall').2, hnot⟩
        · exact absurd (hnew d hd).1 hlt
  · intro v hv
    rcases List.mem_append.mp hv with hv | hv
    · have hm : v.1 ∈ report.map Prod.fst := List.mem_map_of_mem hv
      have hnot : v.1 ∉ report'.map Prod.fst := fun hmem => hdisjoint _ hmem hm
      have hnode : w₂.node v.1 = w₁.node v.1 := h'.ties.hosts.same v.1 (h.within _ hm).1 hnot
      obtain ⟨before, after, hmet⟩ := h.met v hv
      refine ⟨before, after, hmet.fits, hmet.handles, hmet.node_before, hmet.isBound_before,
        hnode.trans hmet.node_after, (h'.ties.records.isBound hnot).trans hmet.isBound_after,
        fun herrors child hchild => ?_⟩
      rw [hnode] at hchild
      obtain ⟨hlt, hchild'⟩ := hunder v hv herrors child hchild
      exact (h'.ties.hosts.same child hlt hchild').trans (hmet.children_after herrors child hchild)
    · have hnot : v.1 ∉ report.map Prod.fst := hdisjoint _ (List.mem_map_of_mem hv)
      obtain ⟨before, after, hmet⟩ := h'.met v hv
      refine ⟨before, after, hmet.fits, hmet.handles, fun hlt => ?_,
        hmet.isBound_before.trans (h.ties.records.isBound hnot), hmet.node_after, hmet.isBound_after,
        hmet.children_after⟩
      rw [hmet.node_before (Nat.lt_of_lt_of_le hlt h.ties.hosts.size), h.ties.hosts.same v.1 hlt hnot]

end Passes

end World

end ViewBinding
