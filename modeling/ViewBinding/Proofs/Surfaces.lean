import ViewBinding.Proofs.Reactions

/-!
# What nodes hold by themselves

An element has a form value, a text its content. Showing a value sets one of them, or what is below an element, and
nothing else that the engine does to nodes and watchers sets either. Watchers stay what they were made to be, know
what they learned last, and are not brought back.
-/

namespace ViewBinding

open Engine

variable {Code Memory : Type}

/-! ### Setting what a node holds -/

/-- Showing a value in this way sets what a node holds by itself. -/
def Updater.Sets (updater : Updater) (isElement : Bool) : Prop :=
  updater = .value ↔ isElement = true

instance (updater : Updater) (isElement : Bool) : Decidable (updater.Sets isElement) :=
  inferInstanceAs (Decidable (_ ↔ _))

/-- What a node holds by itself that shows a value in such a way. -/
def Value.front (isElement : Bool) (value : Value) : Value ⊕ String :=
  if isElement then .inl value else .inr value.text

/-- What a watcher was made to be. -/
def Watcher.made (x : Watcher Code) : Watcher Code :=
  { tracker := x.tracker, root := x.root, path := x.path, reaction := x.reaction }

theorem Watcher.fields_eq_of_made_eq {x y : Watcher Code} (h : x.made = y.made) :
    x.tracker = y.tracker ∧ x.root = y.root ∧ x.path = y.path ∧ x.reaction = y.reaction := by
  simp_all [made]

theorem Node.isElement_of_front {x y : Node Code} (h : x.front = y.front) : x.isElement = y.isElement := by
  cases x <;> cases y <;> simp_all [front, isElement]

namespace World

variable {w w' : World Code Memory} {m n : NodeId}

theorem front_mapNode (w : World Code Memory) (m n : NodeId) (f : Node Code → Node Code) :
    ((w.mapNode m f).node n).front = if n = m then (f (w.node m)).front else (w.node n).front := by
  rw [node_mapNode]
  split <;> rfl

/-- Setting the text of a text node changes what it holds; an element gets a text node below it. -/
theorem front_setText (w : World Code Memory) (m : NodeId) (content : String) (hn : n.index < w.nodes.size) :
    ((w.setText m content).node n).front
      = if m = n ∧ (w.node n).isElement = false then .inr content else (w.node n).front := by
  cases hnode : w.node m with
  | text old =>
    simp only [setText, hnode]
    rw [front_mapNode]
    by_cases h : n = m
    · subst h
      simp [hnode, Node.isElement, Node.front]
    · rw [if_neg h, if_neg fun h' => h h'.1.symm]
  | element e =>
    have hfresh : n ≠ w.nodes.fresh := by
      rintro rfl
      exact Nat.lt_irrefl _ (Nat.lt_of_lt_of_eq hn w.nodes.index_fresh.symm)
    rw [node_setText_element w hnode]
    by_cases h : n = m
    · subst h
      simp [hnode, Node.isElement, Node.front]
    · rw [if_neg h, if_neg hfresh, if_neg fun h' => h h'.1.symm]

/-- Showing a value on a node. -/
theorem front_display (w : World Code Memory) (updater : Updater) (m : NodeId) (value : Value)
    (hn : n.index < w.nodes.size) : ((w.display updater m value).node n).front
      = if m = n ∧ updater.Sets (w.node n).isElement then value.front (w.node n).isElement else (w.node n).front := by
  cases updater with
  | value =>
    simp only [display]
    rw [front_mapNode]
    by_cases h : n = m
    · subst h
      cases hnode : w.node n <;> simp [Node.isElement, Node.front, Node.setValue, Updater.Sets, Value.front]
    · rw [if_neg h, if_neg fun h' => h h'.1.symm]
  | html =>
    simp only [display]
    rw [front_mapNode]
    by_cases h : n = m
    · subst h
      cases hnode : w.node n <;> simp [Node.isElement, Node.front, Node.setRichContent, Updater.Sets, Value.front]
    · rw [if_neg h, if_neg fun h' => h h'.1.symm]
  | text =>
    simp only [display]
    rw [front_setText w m value.text hn]
    cases h : (w.node n).isElement <;> simp [Updater.Sets, Value.front]

/-- A watcher has been made that does something else than those that have not. -/
theorem index_lt_of_reaction {i : WatcherId} (h : (w.watcher i).reaction ≠ .render .text default) :
    i.index < w.watchers.size := by
  refine Nat.lt_of_not_le fun hle => h ?_
  rw [watcher, w.watchers.get_of_size_le hle]
  rfl

/-! ### What comes later -/

/-- Whatever was made is still there. Nodes stay elements or texts, watchers stay what they were made to be, and those
that were torn down still are. -/
structure Later (n : NodeId) (w w' : World Code Memory) : Prop where
  nodes : w.nodes.size ≤ w'.nodes.size
  isElement : n.index < w.nodes.size → (w'.node n).isElement = (w.node n).isElement
  watchers : w.watchers.size ≤ w'.watchers.size
  made : ∀ j : WatcherId, j.index < w.watchers.size → (w'.watcher j).made = (w.watcher j).made
  disposed : ∀ j : WatcherId, j.index < w.watchers.size → (w.watcher j).disposed = true →
    (w'.watcher j).disposed = true

/-- Besides, a watcher has not reacted, and a node holds what it held. -/
structure Aloof (i : WatcherId) (n : NodeId) (w w' : World Code Memory) : Prop extends w.Later n w' where
  fires : i.index < w.watchers.size → (w'.watcher i).fires = (w.watcher i).fires
  cached : i.index < w.watchers.size → (w'.watcher i).cached = (w.watcher i).cached
  front : n.index < w.nodes.size → (w'.node n).front = (w.node n).front

variable {w₁ w₂ : World Code Memory} {i j : WatcherId}

theorem Later.reaction (h : w.Later n w') (hj : j.index < w.watchers.size) :
    (w'.watcher j).reaction = (w.watcher j).reaction :=
  (Watcher.fields_eq_of_made_eq (h.made j hj)).2.2.2

theorem Later.refl (w : World Code Memory) : w.Later n w :=
  ⟨Nat.le_refl _, fun _ => rfl, Nat.le_refl _, fun _ _ => rfl, fun _ _ h => h⟩

theorem Later.trans (h : w.Later n w₁) (h' : w₁.Later n w₂) : w.Later n w₂ where
  nodes := Nat.le_trans h.nodes h'.nodes
  isElement hn := (h'.isElement (Nat.lt_of_lt_of_le hn h.nodes)).trans (h.isElement hn)
  watchers := Nat.le_trans h.watchers h'.watchers
  made j hj := (h'.made j (Nat.lt_of_lt_of_le hj h.watchers)).trans (h.made j hj)
  disposed j hj hd := h'.disposed j (Nat.lt_of_lt_of_le hj h.watchers) (h.disposed j hj hd)

theorem Aloof.refl (w : World Code Memory) : w.Aloof i n w :=
  ⟨.refl w, fun _ => rfl, fun _ => rfl, fun _ => rfl⟩

theorem Aloof.trans (h : w.Aloof i n w₁) (h' : w₁.Aloof i n w₂) : w.Aloof i n w₂ where
  toLater := h.toLater.trans h'.toLater
  fires hi := (h'.fires (Nat.lt_of_lt_of_le hi h.watchers)).trans (h.fires hi)
  cached hi := (h'.cached (Nat.lt_of_lt_of_le hi h.watchers)).trans (h.cached hi)
  front hn := (h'.front (Nat.lt_of_lt_of_le hn h.nodes)).trans (h.front hn)

/-- What nodes hold was kept, and watchers were changed as they allow. -/
theorem aloof_of_rows (hfronts : w.KeepsFronts w') (hsize : w.watchers.size ≤ w'.watchers.size)
    (hmade : ∀ j : WatcherId, j.index < w.watchers.size → (w'.watcher j).made = (w.watcher j).made)
    (hdisposed : ∀ j : WatcherId, j.index < w.watchers.size → (w.watcher j).disposed = true →
      (w'.watcher j).disposed = true)
    (hknown : i.index < w.watchers.size → (w'.watcher i).fires = (w.watcher i).fires ∧
      (w'.watcher i).cached = (w.watcher i).cached) : w.Aloof i n w' where
  nodes := hfronts.nodes
  isElement hn := Node.isElement_of_front (hfronts.front n hn)
  watchers := hsize
  made := hmade
  disposed := hdisposed
  fires hi := (hknown hi).1
  cached hi := (hknown hi).2
  front := hfronts.front n

theorem aloof_of_eq (hwatchers : w'.watchers = w.watchers) (hfronts : w.KeepsFronts w') : w.Aloof i n w' := by
  have hrow : ∀ j, w'.watcher j = w.watcher j := fun j => by rw [watcher, hwatchers, watcher]
  refine aloof_of_rows hfronts (Nat.le_of_eq (congrArg _ hwatchers.symm)) ?_ ?_ ?_
  · exact fun j _ => by rw [hrow]
  · exact fun j _ hj => by rwa [hrow]
  · exact fun _ => by rw [hrow]; exact ⟨rfl, rfl⟩

theorem aloof_mapWatcher (w : World Code Memory) (j : WatcherId) {f : Watcher Code → Watcher Code}
    (hmade : ∀ x, (f x).made = x.made) (hdisposed : ∀ x, x.disposed = true → (f x).disposed = true)
    (hknown : j = i → ∀ x, (f x).fires = x.fires ∧ (f x).cached = x.cached) : w.Aloof i n (w.mapWatcher j f) := by
  refine aloof_of_rows (keepsFronts_of_eq rfl) (Table.size_le_modify _ _ _) (fun k _ => ?_) (fun k _ hk => ?_)
    fun _ => ?_
  · rw [watcher_mapWatcher]
    split
    · next h => rw [h, hmade]
    · rfl
  · rw [watcher_mapWatcher]
    split
    · next h => exact hdisposed _ (h ▸ hk)
    · exact hk
  · rw [watcher_mapWatcher]
    split
    · next h =>
      rw [h]
      exact hknown h.symm _
    · exact ⟨rfl, rfl⟩

theorem aloof_addWatcher (w : World Code Memory) (x : Watcher Code) : w.Aloof i n (w.addWatcher x).2 := by
  have hrow : ∀ j : WatcherId, j.index < w.watchers.size → (w.addWatcher x).2.watcher j = w.watcher j := by
    intro j hj
    rw [watcher_addWatcher, if_neg]
    rintro rfl
    exact Nat.lt_irrefl _ (Nat.lt_of_lt_of_eq hj w.watchers.index_fresh.symm)
  refine aloof_of_rows (keepsFronts_of_eq rfl) (by simp [addWatcher]) (fun j hj => ?_) (fun j hj hd => ?_) fun hi => ?_
  · rw [hrow j hj]
  · rwa [hrow j hj]
  · rw [hrow i hi]
    exact ⟨rfl, rfl⟩

/-- A watcher that another one is may learn a value. -/
theorem aloof_learning (w : World Code Memory) (h : j ≠ i) (value : Value) : w.Aloof i n (w.learning j value) :=
  aloof_mapWatcher w j (fun _ => rfl) (fun _ hx => hx) fun heq => absurd heq h

section Reading

variable [Inhabited Code]

theorem aloof_mapDependencies (w : World Code Memory) (x : Subscriber) (f : Dependencies → Dependencies) :
    w.Aloof i n (w.mapDependencies x f) := by
  cases x with
  | watcher j => exact aloof_mapWatcher w j (fun _ => rfl) (fun _ hx => hx) fun _ _ => ⟨rfl, rfl⟩
  | computed j => exact aloof_of_eq rfl (keepsFronts_of_eq rfl)
  | probe j => exact aloof_of_eq rfl (keepsFronts_of_eq rfl)

variable {application : Application Code Memory}

theorem aloof_meeting (w : World Code Memory) (x : Subscriber) (source : SourceId) :
    w.Aloof i n (w.meeting application x source) := by
  have hsource : w.Aloof i n (w.mapSource source (·.register x)) := aloof_of_eq rfl (keepsFronts_of_eq rfl)
  have hrecorded := aloof_mapDependencies (i := i) (n := n) (w.mapSource source (·.register x)) x (·.record source)
  exact (hsource.trans hrecorded).trans (aloof_of_eq rfl (keepsFronts_of_eq rfl))

theorem aloof_opening (w : World Code Memory) (t : TrackerId) (x : Subscriber) :
    w.Aloof i n (w.opening application t x) :=
  (aloof_mapDependencies w x (·.begin)).trans (aloof_of_eq rfl (keepsFronts_of_eq rfl))

theorem aloof_closing (w : World Code Memory) (t : TrackerId) (x : Subscriber) (r : Except Error Value) :
    w.Aloof i n (w.closing application t x r) := by
  have hpop : w.Aloof i n (w.mapTracker t (·.pop)) := aloof_of_eq rfl (keepsFronts_of_eq rfl)
  cases r with
  | ok value =>
    refine (hpop.trans (aloof_mapDependencies _ x (·.settle))).trans ?_
    rw [closing, settle_eq]
    exact aloof_of_eq rfl (keepsFronts_of_eq rfl)
  | error error =>
    exact (hpop.trans (aloof_mapDependencies _ x (·.merge))).trans (aloof_of_eq rfl (keepsFronts_of_eq rfl))

theorem aloof_teardownWatcher (w : World Code Memory) (j : WatcherId) : w.Aloof i n (w.teardownWatcher j) := by
  unfold teardownWatcher
  split
  · exact .refl w
  · have hdisposed : w.Aloof i n (w.mapWatcher j fun x => { x with disposed := true }) :=
      aloof_mapWatcher w j (fun _ => rfl) (fun _ _ => rfl) fun _ _ => ⟨rfl, rfl⟩
    refine (hdisposed.trans (aloof_mapDependencies _ (.watcher j) fun _ => {})).trans ?_
    rw [clear, unregisterAll_eq]
    exact aloof_of_eq rfl (keepsFronts_of_eq rfl)

end Reading

/-- Nodes that are not set hold what they held. -/
theorem aloof_display (w : World Code Memory) {updater : Updater} (value : Value)
    (h : ¬ (m = n ∧ updater.Sets (w.node n).isElement)) : w.Aloof i n (w.display updater m value) := by
  have hfront : n.index < w.nodes.size → ((w.display updater m value).node n).front = (w.node n).front :=
    fun hn => (front_display w updater m value hn).trans (if_neg h)
  rw [display_eq] at hfront ⊢
  refine ⟨⟨(margin_display w updater m value).size, fun hn => Node.isElement_of_front (hfront hn), Nat.le_refl _,
    fun _ _ => rfl, fun _ _ hd => hd⟩, fun _ => rfl, fun _ => rfl, hfront⟩

theorem aloof_setText (w : World Code Memory) (content : String)
    (h : ¬ (m = n ∧ (w.node n).isElement = false)) : w.Aloof i n (w.setText m content) := by
  have hfront : n.index < w.nodes.size → ((w.setText m content).node n).front = (w.node n).front :=
    fun hn => (front_setText w m content hn).trans (if_neg h)
  rw [setText_eq] at hfront ⊢
  exact ⟨⟨(margin_setText w m content).size, fun hn => Node.isElement_of_front (hfront hn), Nat.le_refl _,
    fun _ _ => rfl, fun _ _ hd => hd⟩, fun _ => rfl, fun _ => rfl, hfront⟩

/-- Whatever is shown, it comes later. -/
theorem later_display (w : World Code Memory) (updater : Updater) (m : NodeId) (value : Value) :
    w.Later n (w.display updater m value) := by
  have hmargin := margin_display w updater m value
  rw [display_eq] at hmargin ⊢
  exact ⟨hmargin.size, hmargin.isElement n, Nat.le_refl _, fun _ _ => rfl, fun _ _ hd => hd⟩

theorem later_setText (w : World Code Memory) (m : NodeId) (content : String) : w.Later n (w.setText m content) := by
  have hmargin := margin_setText w m content
  rw [setText_eq] at hmargin ⊢
  exact ⟨hmargin.size, hmargin.isElement n, Nat.le_refl _, fun _ _ => rfl, fun _ _ hd => hd⟩

theorem later_learning (w : World Code Memory) (j : WatcherId) (value : Value) : w.Later n (w.learning j value) := by
  have hrow : ∀ {α : Type} (g : Watcher Code → α),
      (∀ x : Watcher Code, g { x with cached := value, fires := x.fires + 1 } = g x) →
        ∀ k, g ((w.learning j value).watcher k) = g (w.watcher k) := by
    intro α g hg k
    rw [learning, watcher_mapWatcher]
    split
    · next h => rw [hg, h]
    · rfl
  refine ⟨Nat.le_refl _, fun _ => rfl, Table.size_le_modify _ _ _, fun k _ => ?_, fun k _ hk => ?_⟩
  · exact hrow (·.made) (fun _ => rfl) k
  · exact (hrow (·.disposed) (fun _ => rfl) k).trans hk

theorem later_reacting (w : World Code Memory) (application : Application Code Memory) (j : WatcherId) (value : Value)
    (refs : List Ref) : w.Later n (w.reacting application j value refs) :=
  (later_learning w j value).trans ⟨Nat.le_refl _, fun _ => rfl, Nat.le_refl _, fun _ _ => rfl, fun _ _ hd => hd⟩

/-- A watcher that reacts knows the value, and has counted it. -/
theorem watcher_reacting (w : World Code Memory) (application : Application Code Memory) (j : WatcherId)
    (value : Value) (refs : List Ref) : (w.reacting application j value refs).watcher j
      = { w.watcher j with cached := value, fires := (w.watcher j).fires + 1 } := by
  change (w.learning j value).watcher j = _
  rw [learning, watcher_mapWatcher, if_pos rfl]

end World

end ViewBinding
