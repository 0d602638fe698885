import ViewBinding.Proofs.Bookkeeping
import ViewBinding.Proofs.Upkeep

/-!
# Building

Objects, fields, nodes, computed properties and view models come into being without anybody being
registered: new sources list nobody, new trackers are empty, and no list and no stack changes.
-/

namespace ViewBinding

variable {Code Memory : Type} [Inhabited Code]

namespace World

/-- Nobody was registered or left, and nobody begins or ends to evaluate. -/
structure Builds (w w' : World Code Memory) : Prop where
  sources : ∀ s, w'.source s = w.source s
  trackers : ∀ t, w'.tracker t = w.tracker t
  watchers : w'.watchers = w.watchers
  dependencies : ∀ id, (w'.computed id).dependencies = (w.computed id).dependencies
  memory : w'.memory = w.memory

variable {w w₁ w₂ : World Code Memory}

theorem Builds.refl (w : World Code Memory) : w.Builds w :=
  ⟨fun _ => rfl, fun _ => rfl, rfl, fun _ => rfl, rfl⟩

theorem Builds.trans (h : w.Builds w₁) (h' : w₁.Builds w₂) : w.Builds w₂ where
  sources s := (h'.sources s).trans (h.sources s)
  trackers t := (h'.trackers t).trans (h.trackers t)
  watchers := h'.watchers.trans h.watchers
  dependencies id := (h'.dependencies id).trans (h.dependencies id)
  memory := h'.memory.trans h.memory

/-- Only tables that have to do with neither sources nor subscribers were written. -/
theorem builds_of_eq (hsources : w₁.sources = w.sources) (htrackers : w₁.trackers = w.trackers)
    (hwatchers : w₁.watchers = w.watchers) (hcomputeds : w₁.computeds = w.computeds)
    (hmemory : w₁.memory = w.memory) : w.Builds w₁ where
  sources s := by rw [source, hsources, source]
  trackers t := by rw [tracker, htrackers, tracker]
  watchers := hwatchers
  dependencies id := by rw [computed, hcomputeds, computed]
  memory := hmemory

theorem Fringe.builds (h : w.Fringe w₁) : w.Builds w₁ :=
  builds_of_eq h.sources h.trackers h.watchers h.computeds h.memory

/-- Besides, nodes, bindings and view models are as they were. -/
structure Raises (w w' : World Code Memory) : Prop extends w.Builds w' where
  nodes : w'.nodes = w.nodes
  bindings : w'.bindings = w.bindings
  viewModels : w'.viewModels = w.viewModels

theorem Raises.refl (w : World Code Memory) : w.Raises w :=
  ⟨.refl w, rfl, rfl, rfl⟩

theorem Raises.trans (h : w.Raises w₁) (h' : w₁.Raises w₂) : w.Raises w₂ :=
  ⟨h.toBuilds.trans h'.toBuilds, h'.nodes.trans h.nodes, h'.bindings.trans h.bindings,
    h'.viewModels.trans h.viewModels⟩

theorem raises_of_eq (hsources : w₁.sources = w.sources) (htrackers : w₁.trackers = w.trackers)
    (hwatchers : w₁.watchers = w.watchers) (hcomputeds : w₁.computeds = w.computeds)
    (hmemory : w₁.memory = w.memory) (hnodes : w₁.nodes = w.nodes)
    (hbindings : w₁.bindings = w.bindings) (hviewModels : w₁.viewModels = w.viewModels) :
    w.Raises w₁ :=
  ⟨builds_of_eq hsources htrackers hwatchers hcomputeds hmemory, hnodes, hbindings, hviewModels⟩

theorem raises_addSource (w : World Code Memory) : w.Raises w.addSource.2 :=
  ⟨⟨source_addSource w, fun _ => rfl, rfl, fun _ => rfl, rfl⟩, rfl, rfl, rfl⟩

theorem raises_addTracker (w : World Code Memory) : w.Raises w.addTracker.2 :=
  ⟨⟨fun _ => rfl, Table.get_add_default w.trackers, rfl, fun _ => rfl, rfl⟩, rfl, rfl, rfl⟩

theorem raises_addComputed (w : World Code Memory) (y : Computed Code)
    (hy : y.dependencies = {}) : w.Raises (w.addComputed y).2 := by
  refine ⟨⟨fun _ => rfl, fun _ => rfl, rfl, fun id => ?_, rfl⟩, rfl, rfl, rfl⟩
  change ((w.computeds.add y).get id).dependencies = (w.computeds.get id).dependencies
  by_cases h : id = w.computeds.fresh
  · subst h
    rw [Table.get_add_fresh, hy, Table.get_fresh]
    rfl
  · rw [Table.get_add_of_ne _ _ h]

/-! ### Fields -/

theorem raises_sourceOrNew (w : World Code Memory) (kept : Option SourceId) :
    w.Raises (w.sourceOrNew kept).2 := by
  cases kept with
  | some source => exact .refl w
  | none => exact raises_addSource w

/-- A step for every member of a list, each of which builds. -/
theorem raises_foldl {β : Type} {f : World Code Memory → β → World Code Memory}
    (hf : ∀ (w : World Code Memory) b, w.Raises (f w b)) (l : List β) (w : World Code Memory) :
    w.Raises (l.foldl f w) := by
  induction l generalizing w with
  | nil => exact .refl w
  | cons b rest inductionHypothesis => exact (hf w b).trans (inductionHypothesis (f w b))

theorem raises_equip (w : World Code Memory) (slot : Slot) : w.Raises (w.equip slot).2 := by
  unfold equip
  split
  · exact raises_addSource w
  · exact .refl w

theorem raises_instrument (w : World Code Memory) (id : ObjectId) : w.Raises (w.instrument id) := by
  have hthread : ∀ (l : List (String × Slot)) (w : World Code Memory),
      w.Raises (Entries.thread equip l w).2 := by
    intro l
    induction l with
    | nil => exact fun w => .refl w
    | cons pair rest inductionHypothesis =>
      exact fun w => (raises_equip w pair.2).trans (inductionHypothesis _)
  exact (hthread _ w).trans (raises_of_eq rfl rfl rfl rfl rfl rfl rfl rfl)

theorem raises_observe (w : World Code Memory) (value : Value) : w.Raises (w.observe value) :=
  raises_foldl raises_instrument _ w

theorem raises_putSlot (w : World Code Memory) (object : ObjectId) (key : String) (slot : Slot) :
    w.Raises (w.putSlot object key slot) :=
  raises_of_eq rfl rfl rfl rfl rfl rfl rfl rfl

theorem raises_store (w : World Code Memory) (object : ObjectId) (key : String) (value : Value) :
    w.Raises (w.store object key value).2 := by
  have harrive : w.Raises (w.arrive object key) := by
    unfold arrive
    split
    · exact raises_of_eq rfl rfl rfl rfl rfl rfl rfl rfl
    · exact .refl w
  unfold store
  simp only
  split
  · refine Raises.trans ?_ (raises_observe _ value)
    refine harrive.trans (Raises.trans ?_ (raises_putSlot _ object key _))
    exact raises_sourceOrNew _ _
  · exact harrive.trans (raises_putSlot _ object key _)

theorem raises_await (w : World Code Memory) (object : ObjectId) (key : String) :
    w.Raises (w.await object key).2 := by
  unfold await
  split
  · exact .refl w
  · exact (raises_addSource w).trans (raises_of_eq rfl rfl rfl rfl rfl rfl rfl rfl)

/-! ### Documents and view models -/

mutual

theorem raises_load (w : World Code Memory) : (json : Json) → w.Raises (w.load json).2
  | .null => .refl w
  | .bool _ => .refl w
  | .integer _ => .refl w
  | .real _ => .refl w
  | .string _ => .refl w
  | .array items => (raises_loadItems w items).trans (raises_of_eq rfl rfl rfl rfl rfl rfl rfl rfl)
  | .object members => by
    have hadd : w.Raises w.addObject.2 := raises_of_eq rfl rfl rfl rfl rfl rfl rfl rfl
    exact hadd.trans (raises_loadMembers _ _ members)

theorem raises_loadItems (w : World Code Memory) :
    (items : List Json) → w.Raises (w.loadItems items).2
  | [] => .refl w
  | item :: rest => (raises_load w item).trans (raises_loadItems _ rest)

theorem raises_loadMembers (w : World Code Memory) (object : ObjectId) :
    (members : List (String × Json)) → w.Raises (w.loadMembers object members)
  | [] => .refl w
  | (key, json) :: rest =>
    (raises_load w json).trans ((raises_store _ object key _).trans (raises_loadMembers _ object rest))

end

theorem raises_defineComputed (owner : ViewModelId) (data : ObjectId) (tracker : TrackerId)
    (memoize : Bool) (l : List (String × Code)) (w : World Code Memory) :
    w.Raises (defineComputed owner data tracker memoize w l) := by
  induction l generalizing w with
  | nil => exact .refl w
  | cons pair rest inductionHypothesis =>
    refine Raises.trans ?_ (inductionHypothesis _)
    refine (raises_addSource w).trans (Raises.trans ?_ (raises_putSlot _ data pair.1 _))
    exact raises_addComputed _ _ rfl

theorem raises_defineMethods (root : ObjectId) (l : List (String × Code)) (w : World Code Memory) :
    w.Raises (defineMethods root w l) := by
  induction l generalizing w with
  | nil => exact .refl w
  | cons pair rest inductionHypothesis =>
    refine Raises.trans (Raises.trans ?_ (raises_putSlot _ root pair.1 _)) (inductionHypothesis _)
    exact raises_of_eq rfl rfl rfl rfl rfl rfl rfl rfl

/-- A view model that is assembled gets a row of its own. The rest is building, before and after. -/
theorem raises_assemble (w : World Code Memory) (options : Options Code) (data : ObjectId) :
    ∃ (w₁ : World Code Memory) (row : ViewModel Code), w.Raises w₁ ∧ row.bindings = {} ∧
      row.registry = options.directives.foldl (fun r p => r.put p.1 p.2) Registry.standard ∧
      (w₁.addViewModel row).2.Raises (w.assemble options data).2 := by
  have hobject : ∀ v : World Code Memory, v.Raises v.addObject.2 := fun _ =>
    raises_of_eq rfl rfl rfl rfl rfl rfl rfl rfl
  let v := w.observe (.object data)
  refine ⟨v.addTracker.2.addObject.2, ⟨options.settings, v.trackers.fresh, data, v.objects.fresh, _,
    options.document, none, {}⟩, (raises_observe w (.object data)).trans ((raises_addTracker v).trans
      (hobject _)), rfl, rfl, ?_⟩
  refine Raises.trans ?_ (raises_putSlot _ _ _ _)
  refine Raises.trans ?_ (raises_foldl (fun w key => raises_putSlot w _ key _) _ _)
  exact (raises_defineComputed _ _ _ _ _ _).trans (raises_defineMethods _ _ _)

theorem builds_assemble (w : World Code Memory) (options : Options Code) (data : ObjectId) :
    w.Builds (w.assemble options data).2 := by
  obtain ⟨w₁, row, hbefore, -, -, hafter⟩ := raises_assemble w options data
  have hadd : w₁.Builds (w₁.addViewModel row).2 := builds_of_eq rfl rfl rfl rfl rfl
  exact (hbefore.toBuilds.trans hadd).trans hafter.toBuilds

end World

end ViewBinding
