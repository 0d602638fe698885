import ViewBinding.Proofs.Sparing

/-!
# What binding nodes changes

Binding some nodes changes these nodes, makes bindings that are placed on them with watchers of their
own, and records bindings for them. Everything else is as it was: other nodes, the bindings and watchers
that were there before, and what is recorded for other nodes and other view models. The relation is told
from a fixed world on, so that what was made since may be changed further.
-/

namespace ViewBinding

variable {Code Memory : Type} [Inhabited Code]

/-- The node on which a reaction shows something. -/
def Reaction.node? {Code : Type} : Reaction Code → Option NodeId
  | .render _ node => some node
  | .interpolate _ _ _ node => some node
  | .run _ => none

namespace World

section Definitions

omit [Inhabited Code]

/-- Nodes apart from `here` are as they were. Those `here` are of the same kind as before and keep their
children, or else have at most one, which is new. All new nodes are texts. -/
structure Hosts (here : NodeId → Prop) (w w' : World Code Memory) : Prop where
  size : w.nodes.size ≤ w'.nodes.size
  same : ∀ n : NodeId, n.index < w.nodes.size → ¬ here n → w'.node n = w.node n
  isElement : ∀ n : NodeId, n.index < w.nodes.size → (w'.node n).isElement = (w.node n).isElement
  name : ∀ n : NodeId, n.index < w.nodes.size → (w'.node n).name = (w.node n).name
  attributes : ∀ n : NodeId, n.index < w.nodes.size → (w'.node n).attributes = (w.node n).attributes
  children : ∀ n : NodeId, n.index < w.nodes.size → (w'.node n).children = (w.node n).children ∨
    ((w'.node n).children.length ≤ 1 ∧ ∀ child ∈ (w'.node n).children,
      w.nodes.size ≤ child.index ∧ child.index < w'.nodes.size)
  text : ∀ n : NodeId, w.nodes.size ≤ n.index → (w'.node n).isElement = false
  /-- No child was given to two nodes. -/
  apart : ∀ n m child : NodeId, n.index < w.nodes.size → m.index < w.nodes.size →
    child ∈ (w'.node n).children → child ∉ (w.node n).children →
    child ∈ (w'.node m).children → child ∉ (w.node m).children → n = m

/-- Bindings were made that are placed `here`. The watchers that were made belong to `here`, too. -/
structure Binds (here : NodeId → Prop) (w w' : World Code Memory) : Prop where
  bindings : w.bindings.size ≤ w'.bindings.size
  watchers : w.watchers.size ≤ w'.watchers.size
  binding : ∀ b : BindingId, b.index < w.bindings.size → w'.binding b = w.binding b
  watcher : ∀ x : WatcherId, x.index < w.watchers.size → ¬ w.Evaluates (.watcher x) →
    w'.watcher x = w.watcher x
  listed : w.ListsAlike (fun x => x.index < w.watchers.size ∧ ¬ w.Evaluates (.watcher x)) w'
  /-- Sources list no watchers that have not been made, unless they did before. -/
  made : ∀ (x : WatcherId) (s : SourceId), Subscriber.watcher x ∈ (w'.source s).subscribers →
    .watcher x ∈ (w.source s).subscribers ∨ x.index < w'.watchers.size
  placed : ∀ b : BindingId, w.bindings.size ≤ b.index → b.index < w'.bindings.size →
    here (w'.binding b).node
  own : ∀ b : BindingId, w.bindings.size ≤ b.index → ∀ x ∈ (w'.binding b).watchers,
    w.watchers.size ≤ x.index ∧ x.index < w'.watchers.size ∧
      (w'.watcher x).reaction.node? = some (w'.binding b).node
  shows : ∀ x : WatcherId, w.watchers.size ≤ x.index → x.index < w'.watchers.size →
    ∃ n, here n ∧ (w'.watcher x).reaction.node? = some n

/-- A view model has recorded new bindings of nodes `here` for these nodes. -/
structure Records (owner : ViewModelId) (here : NodeId → Prop) (w w' : World Code Memory) : Prop where
  others : ∀ id, id ≠ owner → w'.viewModel id = w.viewModel id
  same : ∀ n, ¬ here n →
    (w'.viewModel owner).bindings.find? n = (w.viewModel owner).bindings.find? n
  lasting : ∀ n, w.isBound owner n = true → w'.isBound owner n = true
  fresh : ∀ (n : NodeId) (b : BindingId), b ∈ w'.bindingsOf owner n → b ∈ w.bindingsOf owner n ∨
    (w.bindings.size ≤ b.index ∧ b.index < w'.bindings.size ∧ (w'.binding b).node = n)

end Definitions

/-- Nothing was changed but what binding the nodes `here` for a view model changes. -/
structure Ties (holds : Memory → List Ref) (owner : ViewModelId) (here : NodeId → Prop)
    (w w' : World Code Memory) : Prop where
  kin : w.Kin w'
  trackers : ∀ t, w'.tracker t = w.tracker t
  held : w'.held = w.held
  holds : holds w'.memory = holds w.memory
  hosts : Hosts here w w'
  binds : Binds here w w'
  records : Records owner here w w'

section Hosting

omit [Inhabited Code]

variable {here there : NodeId → Prop} {w w₁ w₂ : World Code Memory}

theorem isElement_of_size_le {n : NodeId} (h : w.nodes.size ≤ n.index) :
    (w.node n).isElement = false := by
  rw [node, w.nodes.get_of_size_le h]
  rfl

theorem index_lt_of_isElement {n : NodeId} (h : (w.node n).isElement = true) : n.index < w.nodes.size := by
  refine Nat.lt_of_not_le fun hle => ?_
  rw [isElement_of_size_le hle] at h
  cases h

theorem Hosts.refl (w : World Code Memory) : Hosts here w w where
  size := Nat.le_refl _
  same _ _ _ := rfl
  isElement _ _ := rfl
  name _ _ := rfl
  attributes _ _ := rfl
  children _ _ := Or.inl rfl
  text _ := isElement_of_size_le
  apart _ _ _ _ _ hchild hnot := absurd hchild hnot

/-- A child that a node got since is new. -/
theorem Hosts.made_child (h : Hosts here w w₁) {n child : NodeId} (hn : n.index < w.nodes.size)
    (hchild : child ∈ (w₁.node n).children) (hnot : child ∉ (w.node n).children) :
    w.nodes.size ≤ child.index ∧ child.index < w₁.nodes.size := by
  rcases h.children n hn with heq | ⟨-, hnew⟩
  · exact absurd (heq ▸ hchild) hnot
  · exact hnew child hchild

theorem Hosts.trans (h : Hosts here w w₁) (h' : Hosts here w₁ w₂) : Hosts here w w₂ where
  size := Nat.le_trans h.size h'.size
  same n hn hnot := (h'.same n (Nat.lt_of_lt_of_le hn h.size) hnot).trans (h.same n hn hnot)
  isElement n hn := (h'.isElement n (Nat.lt_of_lt_of_le hn h.size)).trans (h.isElement n hn)
  name n hn := (h'.name n (Nat.lt_of_lt_of_le hn h.size)).trans (h.name n hn)
  attributes n hn := (h'.attributes n (Nat.lt_of_lt_of_le hn h.size)).trans (h.attributes n hn)
  children n hn := by
    rcases h'.children n (Nat.lt_of_lt_of_le hn h.size) with heq | ⟨hlength, hfresh⟩
    · rw [heq]
      refine (h.children n hn).imp_right fun hone => ⟨hone.1, fun child hchild => ?_⟩
      exact ⟨(hone.2 child hchild).1, Nat.lt_of_lt_of_le (hone.2 child hchild).2 h'.size⟩
    · exact Or.inr ⟨hlength, fun child hchild =>
        ⟨Nat.le_trans h.size (hfresh child hchild).1, (hfresh child hchild).2⟩⟩
  text n hn := by
    by_cases hlt : n.index < w₁.nodes.size
    · rw [h'.isElement n hlt]
      exact h.text n hn
    · exact h'.text n (Nat.le_of_not_lt hlt)
  apart n m child hn hm hn₂ hn₀ hm₂ hm₀ := by
    have hn' := Nat.lt_of_lt_of_le hn h.size
    have hm' := Nat.lt_of_lt_of_le hm h.size
    by_cases hn₁ : child ∈ (w₁.node n).children <;> by_cases hm₁ : child ∈ (w₁.node m).children
    · exact h.apart n m child hn hm hn₁ hn₀ hm₁ hm₀
    · exact absurd (h'.made_child hm' hm₂ hm₁).1 (Nat.not_le.mpr (h.made_child hn hn₁ hn₀).2)
    · exact absurd (h'.made_child hn' hn₂ hn₁).1 (Nat.not_le.mpr (h.made_child hm hm₁ hm₀).2)
    · exact h'.apart n m child hn' hm' hn₂ hn₁ hm₂ hm₁

theorem Hosts.mono (h : Hosts here w w₁) (hsub : ∀ n, here n → there n) : Hosts there w w₁ where
  size := h.size
  same n hn hnot := h.same n hn fun hhere => hnot (hsub n hhere)
  isElement := h.isElement
  name := h.name
  attributes := h.attributes
  children := h.children
  text := h.text
  apart := h.apart

/-- Only the nodes matter. -/
theorem Hosts.of_nodes (h : Hosts here w w₁) (hnodes : w₂.nodes = w₁.nodes) : Hosts here w w₂ := by
  have hnode : ∀ j, w₂.node j = w₁.node j := fun j => by rw [node, hnodes, node]
  refine ⟨by rw [hnodes]; exact h.size, ?_, ?_, ?_, ?_, ?_, ?_, ?_⟩
  · exact fun j hj hnot => (hnode j).trans (h.same j hj hnot)
  · exact fun j hj => hnode j ▸ h.isElement j hj
  · exact fun j hj => hnode j ▸ h.name j hj
  · exact fun j hj => hnode j ▸ h.attributes j hj
  · exact fun j hj => by rw [hnode, hnodes]; exact h.children j hj
  · exact fun j hj => hnode j ▸ h.text j hj
  · exact fun j k child => by rw [hnode, hnode]; exact h.apart j k child

theorem node_mapNode (w : World Code Memory) (i j : NodeId) (f : Node Code → Node Code) :
    (w.mapNode i f).node j = if j = i then f (w.node i) else w.node j :=
  Table.get_modify w.nodes j i f

/-- A node is changed, and keeps its children or loses them. -/
theorem hosts_mapNode (w : World Code Memory) (n : NodeId) {f : Node Code → Node Code}
    (hisElement : ∀ x, (f x).isElement = x.isElement) (hname : ∀ x, (f x).name = x.name)
    (hattributes : ∀ x, (f x).attributes = x.attributes)
    (hchildren : ∀ x, (f x).children = x.children ∨ (f x).children = []) :
    Hosts (· = n) w (w.mapNode n f) := by
  have hrow : ∀ {α : Type} (g : Node Code → α), (∀ x, g (f x) = g x) → ∀ j,
      g ((w.mapNode n f).node j) = g (w.node j) := by
    intro α g hg j
    rw [node_mapNode]
    split
    · next h => rw [hg, h]
    · rfl
  constructor
  · exact Table.size_le_modify _ _ _
  · intro j _ hj
    rw [node_mapNode, if_neg hj]
  · exact fun j _ => hrow _ hisElement j
  · exact fun j _ => hrow _ hname j
  · exact fun j _ => hrow _ hattributes j
  · intro j _
    rw [node_mapNode]
    split
    · next h =>
      rw [h]
      refine (hchildren (w.node n)).imp_right fun hnil => ?_
      simp [hnil]
    · exact Or.inl rfl
  · intro j hj
    rw [hrow _ hisElement j]
    exact isElement_of_size_le hj
  · intro j k child _ _ hchild hnot
    rw [node_mapNode] at hchild
    split at hchild
    · next heq =>
      subst heq
      rcases hchildren (w.node j) with hsame | hnil
      · exact absurd (hsame ▸ hchild) hnot
      · rw [hnil] at hchild
        cases hchild
    · exact absurd hchild hnot

theorem setText_eq (w : World Code Memory) (n : NodeId) (content : String) :
    w.setText n content = { w with nodes := (w.setText n content).nodes } := by
  unfold setText
  cases w.node n <;> rfl

theorem display_eq (w : World Code Memory) (updater : Updater) (n : NodeId) (value : Value) :
    w.display updater n value = { w with nodes := (w.display updater n value).nodes } := by
  cases updater with
  | value => rfl
  | html => rfl
  | text => exact setText_eq w n value.text

/-- The rows after a text was set: the node, the text node below it if it is an element, and the rest. -/
theorem node_setText_element (w : World Code Memory) {n : NodeId} {e : Element Code}
    (hnode : w.node n = .element e) (content : String) (j : NodeId) :
    (w.setText n content).node j =
      if j = n then .element { e with children := [w.nodes.fresh], richContent := none }
      else if j = w.nodes.fresh then .text content else w.node j := by
  have hne : n ≠ w.nodes.fresh := by
    rintro rfl
    rw [node, Table.get_fresh] at hnode
    cases hnode
  have hadd : ∀ i, (w.addNode (.text content)).2.node i
      = if i = w.nodes.fresh then .text content else w.node i := by
    intro i
    change (w.nodes.add (.text content)).get i = _
    split
    · next h => rw [h, Table.get_add_fresh]
    · next h => exact Table.get_add_of_ne _ _ h
  unfold setText
  simp only [hnode]
  rw [node_mapNode, hadd, hadd, if_neg hne, hnode]
  rfl

/-- A node that shows a text has been made. -/
theorem index_lt_setText (w : World Code Memory) (n : NodeId) (content : String) :
    n.index < (w.setText n content).nodes.size := by
  cases hnode : w.node n with
  | text old =>
    simp only [setText, hnode]
    exact Table.index_lt_modify w.nodes n _
  | element e =>
    simp only [setText, hnode]
    exact Table.index_lt_modify (w.nodes.add _) n _

theorem hosts_setText (w : World Code Memory) (n : NodeId) (content : String) :
    Hosts (· = n) w (w.setText n content) := by
  cases hnode : w.node n with
  | text old =>
    have hrow : ∀ j, (w.setText n content).node j = if j = n then .text content else w.node j := by
      intro j
      unfold setText
      simp only [hnode]
      exact node_mapNode w n j _
    have hkeep : ∀ {α : Type} (g : Node Code → α), g (.text content) = g (.text old) → ∀ j,
        g ((w.setText n content).node j) = g (w.node j) := by
      intro α g hg j
      rw [hrow]
      split
      · next h => rw [hg, h, hnode]
      · rfl
    refine ⟨?_, ?_, fun j _ => hkeep _ rfl j, fun j _ => hkeep _ rfl j, fun j _ => hkeep _ rfl j,
      fun j _ => Or.inl (hkeep _ rfl j), fun j hj => ?_, fun j k child _ _ hchild hnot => ?_⟩
    · unfold setText
      simp only [hnode]
      exact Table.size_le_modify _ _ _
    · intro j _ hj
      rw [hrow, if_neg hj]
    · rw [hkeep Node.isElement rfl]
      exact isElement_of_size_le hj
    · rw [hkeep Node.children rfl] at hchild
      exact absurd hchild hnot
  | element e =>
    have hrow := node_setText_element w hnode content
    have hfresh : ∀ j : NodeId, j.index < w.nodes.size → j ≠ w.nodes.fresh := by
      rintro j hj rfl
      exact Nat.lt_irrefl _ hj
    have hsize : w.nodes.size < (w.setText n content).nodes.size := by
      unfold setText
      simp only [hnode]
      refine Nat.lt_of_lt_of_le ?_ (Table.size_le_modify _ _ _)
      exact Nat.lt_of_lt_of_eq (Nat.lt_succ_self _) (Table.size_add w.nodes _).symm
    have hlt : n.index < w.nodes.size := by
      refine Nat.lt_of_not_le fun hle => ?_
      rw [node, w.nodes.get_of_size_le hle] at hnode
      cases hnode
    have hkeep : ∀ {α : Type} (g : Node Code → α),
        g (.element { e with children := [w.nodes.fresh], richContent := none }) = g (.element e) →
        ∀ j : NodeId, j.index < w.nodes.size → g ((w.setText n content).node j) = g (w.node j) := by
      intro α g hg j hj
      rw [hrow]
      split
      · next h => rw [hg, h, hnode]
      · rw [if_neg (hfresh j hj)]
    have hothers : ∀ j child : NodeId, j.index < w.nodes.size →
        child ∈ ((w.setText n content).node j).children → child ∉ (w.node j).children → j = n := by
      intro j child hj hchild hnot
      refine Classical.byContradiction fun hne => hnot ?_
      rwa [hrow, if_neg hne, if_neg (hfresh j hj)] at hchild
    refine ⟨Nat.le_of_lt hsize, ?_, hkeep _ rfl, hkeep _ rfl, hkeep _ rfl, ?_, ?_, ?_⟩
    · intro j hj hne
      rw [hrow, if_neg hne, if_neg (hfresh j hj)]
    · intro j hj
      rw [hrow]
      split
      · refine Or.inr ⟨Nat.le_refl _, fun child hchild => ?_⟩
        rw [Node.children, List.mem_singleton] at hchild
        subst hchild
        exact ⟨Nat.le_refl _, hsize⟩
      · rw [if_neg (hfresh j hj)]
        exact Or.inl rfl
    · intro j hj
      rw [hrow]
      split
      · next h =>
        subst h
        exact absurd hlt (Nat.not_lt.mpr hj)
      · split
        · rfl
        · exact isElement_of_size_le hj
    · intro j k child hj hk hchild hnot hchild' hnot'
      exact (hothers j child hj hchild hnot).trans (hothers k child hk hchild' hnot').symm

theorem hosts_display (w : World Code Memory) (updater : Updater) (n : NodeId) (value : Value) :
    Hosts (· = n) w (w.display updater n value) := by
  cases updater with
  | value =>
    exact hosts_mapNode w n (fun x => by cases x <;> rfl) (fun x => by cases x <;> rfl)
      (fun x => by cases x <;> rfl) fun x => Or.inl (by cases x <;> rfl)
  | html =>
    exact hosts_mapNode w n (fun x => by cases x <;> rfl) (fun x => by cases x <;> rfl)
      (fun x => by cases x <;> rfl) fun x => Or.inr (by cases x <;> rfl)
  | text => exact hosts_setText w n value.text

theorem hosts_addListener (w : World Code Memory) (n : NodeId) (event : String)
    (listener : Listener Code) : Hosts (· = n) w (w.mapNode n (·.addListener event listener)) :=
  hosts_mapNode w n (fun x => by cases x <;> rfl) (fun x => by cases x <;> rfl)
    (fun x => by cases x <;> rfl) fun x => Or.inl (by cases x <;> rfl)

end Hosting

section Binding

omit [Inhabited Code]

variable {here there : NodeId → Prop} {owner : ViewModelId} {w w₁ w₂ : World Code Memory}

theorem Binds.refl (w : World Code Memory) : Binds here w w where
  bindings := Nat.le_refl _
  watchers := Nat.le_refl _
  binding _ _ := rfl
  watcher _ _ _ := rfl
  listed := .refl w
  made _ _ := Or.inl
  placed b hb hlt := absurd hlt (Nat.not_lt.mpr hb)
  own b hb x hx := by
    rw [World.binding, w.bindings.get_of_size_le hb] at hx
    cases hx
  shows x hx hlt := absurd hlt (Nat.not_lt.mpr hx)

theorem Binds.mono (h : Binds here w w₁) (hsub : ∀ n, here n → there n) : Binds there w w₁ where
  bindings := h.bindings
  watchers := h.watchers
  binding := h.binding
  watcher := h.watcher
  listed := h.listed
  made := h.made
  placed b hb hlt := hsub _ (h.placed b hb hlt)
  own := h.own
  shows x hx hlt := by
    obtain ⟨n, hn, hnode⟩ := h.shows x hx hlt
    exact ⟨n, hsub n hn, hnode⟩

/-- Watchers that were made since do not evaluate, so what is done later leaves them alone. -/
theorem Binds.trans (h : Binds here w w₁) (h' : Binds here w₁ w₂) (hmanned : w.Manned)
    (htrackers : ∀ t, w₁.tracker t = w.tracker t) : Binds here w w₂ := by
  have hidle : ∀ x : WatcherId, w.watchers.size ≤ x.index → ¬ w₁.Evaluates (.watcher x) := by
    intro x hx hevaluates
    exact Nat.not_lt.mpr hx (hmanned x ((evaluates_congr htrackers).mp hevaluates))
  have hidle' : ∀ x : WatcherId, ¬ w.Evaluates (.watcher x) → ¬ w₁.Evaluates (.watcher x) :=
    fun x hx hevaluates => hx ((evaluates_congr htrackers).mp hevaluates)
  have hrow : ∀ x : WatcherId, w.watchers.size ≤ x.index → x.index < w₁.watchers.size →
      w₂.watcher x = w₁.watcher x := fun x hx hlt => h'.watcher x hlt (hidle x hx)
  constructor
  · exact Nat.le_trans h.bindings h'.bindings
  · exact Nat.le_trans h.watchers h'.watchers
  · intro b hb
    exact (h'.binding b (Nat.lt_of_lt_of_le hb h.bindings)).trans (h.binding b hb)
  · intro x hx hnot
    exact (h'.watcher x (Nat.lt_of_lt_of_le hx h.watchers) (hidle' x hnot)).trans (h.watcher x hx hnot)
  · exact h.listed.trans (h'.listed.mono fun x hx =>
      ⟨Nat.lt_of_lt_of_le hx.1 h.watchers, hidle' x hx.2⟩)
  · intro x s hs
    rcases h'.made x s hs with hs₁ | hlt
    · exact (h.made x s hs₁).imp_right fun hlt => Nat.lt_of_lt_of_le hlt h'.watchers
    · exact Or.inr hlt
  · intro b hb hlt
    by_cases hold : b.index < w₁.bindings.size
    · rw [h'.binding b hold]
      exact h.placed b hb hold
    · exact h'.placed b (Nat.le_of_not_lt hold) hlt
  · intro b hb x hx
    by_cases hold : b.index < w₁.bindings.size
    · rw [h'.binding b hold] at hx ⊢
      obtain ⟨hle, hlt, hnode⟩ := h.own b hb x hx
      refine ⟨hle, Nat.lt_of_lt_of_le hlt h'.watchers, ?_⟩
      rw [hrow x hle hlt]
      exact hnode
    · obtain ⟨hle, hlt, hnode⟩ := h'.own b (Nat.le_of_not_lt hold) x hx
      exact ⟨Nat.le_trans h.watchers hle, hlt, hnode⟩
  · intro x hx hlt
    by_cases hold : x.index < w₁.watchers.size
    · rw [hrow x hx hold]
      exact h.shows x hx hold
    · exact h'.shows x (Nat.le_of_not_lt hold) hlt

theorem Records.refl (w : World Code Memory) : Records owner here w w :=
  ⟨fun _ _ => rfl, fun _ _ => rfl, fun _ => id, fun _ _ => Or.inl⟩

theorem Records.mono (h : Records owner here w w₁) (hsub : ∀ n, here n → there n) :
    Records owner there w w₁ :=
  ⟨h.others, fun n hn => h.same n fun hhere => hn (hsub n hhere), h.lasting, h.fresh⟩

theorem Records.trans (h : Records owner here w w₁) (h' : Records owner here w₁ w₂)
    (hsize : w.bindings.size ≤ w₁.bindings.size) (hsize' : w₁.bindings.size ≤ w₂.bindings.size)
    (hrows : ∀ b : BindingId, b.index < w₁.bindings.size → w₂.binding b = w₁.binding b) :
    Records owner here w w₂ where
  others id hid := (h'.others id hid).trans (h.others id hid)
  same n hn := (h'.same n hn).trans (h.same n hn)
  lasting n hn := h'.lasting n (h.lasting n hn)
  fresh n b hb := by
    rcases h'.fresh n b hb with hold | ⟨hle, hlt, hnode⟩
    · refine (h.fresh n b hold).imp_right fun hnew => ?_
      obtain ⟨hle, hlt, hnode⟩ := hnew
      exact ⟨hle, Nat.lt_of_lt_of_le hlt hsize', by rw [hrows b hlt, hnode]⟩
    · exact Or.inr ⟨Nat.le_trans hsize hle, hlt, hnode⟩

end Binding

section Tying

variable {holds : Memory → List Ref} {here there : NodeId → Prop} {owner : ViewModelId}
  {w w₁ w₂ : World Code Memory}

theorem Ties.refl (w : World Code Memory) : Ties holds owner here w w :=
  ⟨.refl w, fun _ => rfl, rfl, rfl, .refl w, .refl w, .refl w⟩

theorem Ties.mono (h : Ties holds owner here w w₁) (hsub : ∀ n, here n → there n) :
    Ties holds owner there w w₁ :=
  ⟨h.kin, h.trackers, h.held, h.holds, h.hosts.mono hsub, h.binds.mono hsub, h.records.mono hsub⟩

theorem Ties.trans (h : Ties holds owner here w w₁) (h' : Ties holds owner here w₁ w₂)
    (hmanned : w.Manned) : Ties holds owner here w w₂ where
  kin := h.kin.trans h'.kin
  trackers t := (h'.trackers t).trans (h.trackers t)
  held := h'.held.trans h.held
  holds := h'.holds.trans h.holds
  hosts := h.hosts.trans h'.hosts
  binds := h.binds.trans h'.binds hmanned h.trackers
  records := h.records.trans h'.records h.binds.bindings h'.binds.bindings h'.binds.binding

theorem Ties.manned (h : Ties holds owner here w w₁) (hmanned : w.Manned) : w₁.Manned :=
  fun x hx => Nat.lt_of_lt_of_le (hmanned x ((evaluates_congr h.trackers).mp hx)) h.binds.watchers

/-- What is held meanwhile makes no difference. -/
theorem Ties.released {refs : List Ref} (h : Ties holds owner here { w with held := refs } w₁) :
    Ties holds owner here w { w₁ with held := w.held } where
  kin := ⟨h.kin.size, h.kin.slots, h.kin.observed, h.kin.functions, h.kin.arrays, h.kin.probes,
    h.kin.bases, h.kin.faces⟩
  trackers := h.trackers
  held := rfl
  holds := h.holds
  hosts := ⟨h.hosts.size, h.hosts.same, h.hosts.isElement, h.hosts.name, h.hosts.attributes,
    h.hosts.children, h.hosts.text, h.hosts.apart⟩
  binds := ⟨h.binds.bindings, h.binds.watchers, h.binds.binding, h.binds.watcher, h.binds.listed,
    h.binds.made, h.binds.placed, h.binds.own, h.binds.shows⟩
  records := ⟨h.records.others, h.records.same, h.records.lasting, h.records.fresh⟩

/-- Nodes `here` may be changed. -/
theorem Ties.host (h : Ties holds owner here w w₁) {nodes : Table NodeId (Node Code)}
    (hnodes : Hosts here w₁ { w₁ with nodes }) : Ties holds owner here w { w₁ with nodes } where
  kin := h.kin.trans ⟨rfl, fun _ => rfl, fun _ => rfl, rfl, rfl, rfl, fun _ => rfl, fun _ => rfl⟩
  trackers := h.trackers
  held := h.held
  holds := h.holds
  hosts := h.hosts.trans hnodes
  binds := ⟨h.binds.bindings, h.binds.watchers, h.binds.binding, h.binds.watcher, h.binds.listed,
    h.binds.made, h.binds.placed, h.binds.own, h.binds.shows⟩
  records := ⟨h.records.others, h.records.same, h.records.lasting, h.records.fresh⟩

theorem Ties.setText (h : Ties holds owner here w w₁) {n : NodeId} (hn : here n) (content : String) :
    Ties holds owner here w (w₁.setText n content) := by
  have hnodes := hosts_setText w₁ n content
  rw [setText_eq] at hnodes ⊢
  exact h.host (hnodes.mono fun _ hj => hj ▸ hn)

theorem Ties.display (h : Ties holds owner here w w₁) (updater : Updater) {n : NodeId} (hn : here n)
    (value : Value) : Ties holds owner here w (w₁.display updater n value) := by
  have hnodes := hosts_display w₁ updater n value
  rw [display_eq] at hnodes ⊢
  exact h.host (hnodes.mono fun _ hj => hj ▸ hn)

theorem Ties.addListener (h : Ties holds owner here w w₁) {n : NodeId} (hn : here n) (event : String)
    (listener : Listener Code) :
    Ties holds owner here w (w₁.mapNode n (·.addListener event listener)) :=
  h.host ((hosts_addListener w₁ n event listener).mono fun _ hj => hj ▸ hn)

/-- Books may be kept for the watchers that evaluate and for those that were made since. -/
theorem Ties.spares (h : Ties holds owner here w w₁) (hmanned : w.Manned) {busy : WatcherId → Prop}
    (hw : Spares holds busy w₁ w₂)
    (hbusy : ∀ x, busy x → w.Evaluates (.watcher x) ∨
      (w.watchers.size ≤ x.index ∧ x.index < w₁.watchers.size)) :
    Ties holds owner here w w₂ := by
  have hbinding : ∀ b, w₂.binding b = w₁.binding b := fun b => by
    rw [binding, hw.data.bindings, binding]
  have hviewModel : ∀ id, w₂.viewModel id = w₁.viewModel id := fun id => by
    rw [viewModel, hw.data.viewModels, viewModel]
  have hbindingsOf : ∀ n, w₂.bindingsOf owner n = w₁.bindingsOf owner n := fun n => by
    rw [bindingsOf, hviewModel, bindingsOf]
  have hreaction : ∀ x, (w₂.watcher x).reaction = (w₁.watcher x).reaction := fun x => by
    change (w₂.watcher x).face.reaction = _
    rw [hw.watchers]
    rfl
  have hspared : ∀ x : WatcherId, x.index < w.watchers.size → ¬ w.Evaluates (.watcher x) →
      ¬ busy x := by
    intro x hx hnot hb
    rcases hbusy x hb with hevaluates | ⟨hle, -⟩
    · exact hnot hevaluates
    · exact Nat.not_lt.mpr hle hx
  refine ⟨h.kin.trans (hw.data.kin hw.bases), fun t => (hw.trackers t).trans (h.trackers t),
    hw.held.trans h.held, hw.holds.trans h.holds, ?_, ?_, ?_⟩
  · exact h.hosts.of_nodes hw.data.nodes
  · constructor
    · rw [hw.data.bindings]
      exact h.binds.bindings
    · rw [hw.size]
      exact h.binds.watchers
    · intro b hb
      rw [hbinding, h.binds.binding b hb]
    · intro x hx hnot
      rw [hw.row x (hspared x hx hnot), h.binds.watcher x hx hnot]
    · exact h.binds.listed.trans (hw.listed.mono fun x hx => hspared x hx.1 hx.2)
    · intro x s hs
      rw [hw.size]
      by_cases hb : busy x
      · rcases hbusy x hb with hevaluates | ⟨-, hlt⟩
        · exact Or.inr (Nat.lt_of_lt_of_le (hmanned x hevaluates) h.binds.watchers)
        · exact Or.inr hlt
      · exact h.binds.made x s ((hw.listed.mem hb s).mp hs)
    · intro b hb hlt
      rw [hw.data.bindings] at hlt
      rw [hbinding]
      exact h.binds.placed b hb hlt
    · intro b hb x hx
      rw [hbinding] at hx ⊢
      rw [hw.size, hreaction]
      exact h.binds.own b hb x hx
    · intro x hx hlt
      rw [hw.size] at hlt
      rw [hreaction]
      exact h.binds.shows x hx hlt
  · refine ⟨fun id hid => (hviewModel id).trans (h.records.others id hid), fun n hn => ?_,
      fun n hn => ?_, fun n b hb => ?_⟩
    · rw [hviewModel]
      exact h.records.same n hn
    · rw [isBound, hviewModel]
      exact h.records.lasting n hn
    · rw [hbindingsOf] at hb
      rw [hw.data.bindings, hbinding]
      exact h.records.fresh n b hb

/-! ### Bindings and watchers that were made since -/

theorem Ties.addBinding (h : Ties holds owner here w w₁) {row : Binding} (hrow : here row.node)
    (hwatchers : row.watchers = []) : Ties holds owner here w (w₁.addBinding row).2 := by
  have hget : ∀ b, (w₁.addBinding row).2.binding b
      = if b = w₁.bindings.fresh then row else w₁.binding b := by
    intro b
    change (w₁.bindings.add row).get b = _
    split
    · next hb => rw [hb, Table.get_add_fresh]
    · next hb => exact Table.get_add_of_ne _ _ hb
  have hsize : (w₁.addBinding row).2.bindings.size = w₁.bindings.size + 1 :=
    Table.size_add w₁.bindings row
  have hold : ∀ b : BindingId, b.index < w₁.bindings.size →
      (w₁.addBinding row).2.binding b = w₁.binding b := by
    intro b hb
    rw [hget, if_neg]
    rintro rfl
    exact Nat.lt_irrefl _ hb
  refine ⟨h.kin.trans ⟨rfl, fun _ => rfl, fun _ => rfl, rfl, rfl, rfl, fun _ => rfl, fun _ => rfl⟩,
    h.trackers, h.held, h.holds, h.hosts.of_nodes rfl, ?_, ?_⟩
  · refine ⟨?_, h.binds.watchers, fun b hb => ?_, h.binds.watcher, h.binds.listed, h.binds.made, ?_, ?_,
      h.binds.shows⟩
    · rw [hsize]
      exact Nat.le_succ_of_le h.binds.bindings
    · rw [hold b (Nat.lt_of_lt_of_le hb h.binds.bindings), h.binds.binding b hb]
    · intro b hb hlt
      rw [hget]
      split
      · exact hrow
      · next hne =>
        refine h.binds.placed b hb (Nat.lt_of_le_of_ne (Nat.le_of_lt_succ (Nat.lt_of_lt_of_eq hlt hsize)) ?_)
        exact fun heq => hne (Key.index_inj.mp (heq.trans (Table.index_fresh _).symm))
    · intro b hb x hx
      rw [hget] at hx ⊢
      split at hx
      · rw [hwatchers] at hx
        cases hx
      · next hne =>
        rw [if_neg hne]
        exact h.binds.own b hb x hx
  · refine ⟨h.records.others, h.records.same, h.records.lasting, fun n b hb => ?_⟩
    refine (h.records.fresh n b hb).imp_right fun hnew => ?_
    obtain ⟨hle, hlt, hnode⟩ := hnew
    exact ⟨hle, hsize ▸ Nat.lt_succ_of_lt hlt, by rw [hold b hlt, hnode]⟩

omit [Inhabited Code] in
theorem binding_mapBinding (w : World Code Memory) (i j : BindingId) (f : Binding → Binding) :
    (w.mapBinding i f).binding j = if j = i then f (w.binding i) else w.binding j :=
  Table.get_modify w.bindings j i f

theorem Ties.mapBinding (h : Ties holds owner here w w₁) {b : BindingId}
    (hb : w.bindings.size ≤ b.index) (hlt : b.index < w₁.bindings.size) {f : Binding → Binding}
    (hnode : (f (w₁.binding b)).node = (w₁.binding b).node)
    (hwatchers : ∀ x ∈ (f (w₁.binding b)).watchers, x ∈ (w₁.binding b).watchers ∨
      (w.watchers.size ≤ x.index ∧ x.index < w₁.watchers.size ∧
        (w₁.watcher x).reaction.node? = some (w₁.binding b).node)) :
    Ties holds owner here w (w₁.mapBinding b f) := by
  have hsize : (w₁.mapBinding b f).bindings.size = w₁.bindings.size :=
    Table.size_modify_of_lt _ hlt _
  have hplace : ∀ j, ((w₁.mapBinding b f).binding j).node = (w₁.binding j).node := by
    intro j
    rw [binding_mapBinding]
    split
    · next hj => rw [hnode, hj]
    · rfl
  refine ⟨h.kin.trans ⟨rfl, fun _ => rfl, fun _ => rfl, rfl, rfl, rfl, fun _ => rfl, fun _ => rfl⟩,
    h.trackers, h.held, h.holds, h.hosts.of_nodes rfl, ?_, ?_⟩
  · refine ⟨by rw [hsize]; exact h.binds.bindings, h.binds.watchers, fun j hj => ?_, h.binds.watcher,
      h.binds.listed, h.binds.made, fun j hj hjlt => ?_, fun j hj x hx => ?_, h.binds.shows⟩
    · rw [binding_mapBinding, if_neg, h.binds.binding j hj]
      rintro rfl
      exact Nat.not_lt.mpr hb hj
    · rw [hplace]
      exact h.binds.placed j hj (hsize ▸ hjlt)
    · rw [hplace]
      rw [binding_mapBinding] at hx
      split at hx
      · next heq =>
        subst heq
        rcases hwatchers x hx with hold | hnew
        · exact h.binds.own j hj x hold
        · exact hnew
      · exact h.binds.own j hj x hx
  · refine ⟨h.records.others, h.records.same, h.records.lasting, fun n j hj => ?_⟩
    rw [hsize, hplace]
    exact h.records.fresh n j hj

theorem Ties.addWatcher (h : Ties holds owner here w w₁) {row : Watcher Code} {n : NodeId}
    (hn : here n) (hrow : row.reaction.node? = some n) :
    Ties holds owner here w (w₁.addWatcher row).2 := by
  have hget : ∀ x, (w₁.addWatcher row).2.watcher x
      = if x = w₁.watchers.fresh then row else w₁.watcher x := by
    intro x
    change (w₁.watchers.add row).get x = _
    split
    · next hx => rw [hx, Table.get_add_fresh]
    · next hx => exact Table.get_add_of_ne _ _ hx
  have hsize : (w₁.addWatcher row).2.watchers.size = w₁.watchers.size + 1 :=
    Table.size_add w₁.watchers row
  have hold : ∀ x : WatcherId, x.index < w₁.watchers.size →
      (w₁.addWatcher row).2.watcher x = w₁.watcher x := by
    intro x hx
    rw [hget, if_neg]
    rintro rfl
    exact Nat.lt_irrefl _ hx
  refine ⟨h.kin.trans ⟨rfl, fun _ => rfl, fun _ => rfl, rfl, rfl, rfl, fun _ => rfl, fun _ => rfl⟩,
    h.trackers, h.held, h.holds, h.hosts.of_nodes rfl, ?_,
    ⟨h.records.others, h.records.same, h.records.lasting, h.records.fresh⟩⟩
  refine ⟨h.binds.bindings, ?_, h.binds.binding, fun x hx hnot => ?_, h.binds.listed, fun x s hs => ?_,
    h.binds.placed, fun b hb x hx => ?_, fun x hx hlt => ?_⟩
  · rw [hsize]
    exact Nat.le_succ_of_le h.binds.watchers
  · rw [hold x (Nat.lt_of_lt_of_le hx h.binds.watchers), h.binds.watcher x hx hnot]
  · exact (h.binds.made x s hs).imp_right fun hlt => hsize ▸ Nat.lt_succ_of_lt hlt
  · obtain ⟨hle, hlt, hnode⟩ := h.binds.own b hb x hx
    exact ⟨hle, hsize ▸ Nat.lt_succ_of_lt hlt, by rw [hold x hlt]; exact hnode⟩
  · rw [hget]
    split
    · exact ⟨n, hn, hrow⟩
    · next hne =>
      refine h.binds.shows x hx (Nat.lt_of_le_of_ne (Nat.le_of_lt_succ (Nat.lt_of_lt_of_eq hlt hsize)) ?_)
      exact fun heq => hne (Key.index_inj.mp (heq.trans (Table.index_fresh _).symm))

/-- A watcher that was made since is changed, and its name on the lists of sources. -/
theorem Ties.retouch (h : Ties holds owner here w w₁) {x : WatcherId}
    (hx : w.watchers.size ≤ x.index) (hlt : x.index < w₁.watchers.size)
    {watchers : Table WatcherId (Watcher Code)} {sources : Table SourceId Source}
    (hsize : watchers.size = w₁.watchers.size) (hrow : ∀ y, y ≠ x → watchers.get y = w₁.watcher y)
    (hreaction : (watchers.get x).reaction = (w₁.watcher x).reaction)
    (hlisted : w₁.ListsAlike (· ≠ x) { w₁ with sources }) :
    Ties holds owner here w { w₁ with watchers, sources } := by
  have hother : ∀ y : WatcherId, y.index < w.watchers.size → y ≠ x := by
    rintro y hy rfl
    exact Nat.not_lt.mpr hx hy
  have hreactions : ∀ y, (watchers.get y).reaction = (w₁.watcher y).reaction := by
    intro y
    by_cases hy : y = x
    · rw [hy, hreaction]
    · rw [hrow y hy]
  refine ⟨h.kin.trans ⟨rfl, fun _ => rfl, fun _ => rfl, rfl, rfl, rfl, fun _ => rfl, fun _ => rfl⟩,
    h.trackers, h.held, h.holds, h.hosts.of_nodes rfl, ?_,
    ⟨h.records.others, h.records.same, h.records.lasting, h.records.fresh⟩⟩
  refine ⟨h.binds.bindings, ?_, h.binds.binding, fun y hy hnot => ?_, ?_,
    fun y s hs => ?_, h.binds.placed, fun b hb y hy => ?_, fun y hy hylt => ?_⟩
  · exact Nat.le_trans h.binds.watchers (Nat.le_of_eq hsize.symm)
  · exact (hrow y (hother y hy)).trans (h.binds.watcher y hy hnot)
  · exact h.binds.listed.trans (hlisted.mono fun y hy => hother y hy.1)
  · by_cases hyx : y = x
    · subst hyx
      exact Or.inr (Nat.lt_of_lt_of_eq hlt hsize.symm)
    · refine (h.binds.made y s ((hlisted.mem hyx s).mp hs)).imp_right fun hylt => ?_
      exact Nat.lt_of_lt_of_eq hylt hsize.symm
  · obtain ⟨hle, hylt, hnode⟩ := h.binds.own b hb y hy
    exact ⟨hle, Nat.lt_of_lt_of_eq hylt hsize.symm,
      (congrArg Reaction.node? (hreactions y)).trans hnode⟩
  · obtain ⟨n, hn, hnode⟩ := h.binds.shows y hy (Nat.lt_of_lt_of_eq hylt hsize)
    exact ⟨n, hn, (congrArg Reaction.node? (hreactions y)).trans hnode⟩

theorem Ties.mapWatcher (h : Ties holds owner here w w₁) {x : WatcherId}
    (hx : w.watchers.size ≤ x.index) (hlt : x.index < w₁.watchers.size)
    {f : Watcher Code → Watcher Code} (hf : ∀ row, (f row).reaction = row.reaction) :
    Ties holds owner here w (w₁.mapWatcher x f) := by
  refine h.retouch hx hlt (Table.size_modify_of_lt _ hlt _) ?_ ?_ (.refl w₁)
  · intro y hy
    exact (Table.get_modify _ _ _ _).trans (if_neg hy)
  · rw [Table.get_modify, if_pos rfl, hf]
    rfl

end Tying

end World

end ViewBinding
