import ViewBinding.Proofs.Visiting

/-!
# Leaving a tree

Unmounting goes through a node and all that is below it, once each. It takes from the view model what was
recorded for these nodes and makes it inactive, and it changes nothing else.
-/

namespace ViewBinding

variable {Code Memory : Type} [Inhabited Code]

namespace Entries

variable {κ α : Type} [DecidableEq κ]

theorem find?_foldl_erase (keys : List κ) (e : Entries κ α) (k : κ) :
    (keys.foldl Entries.erase e).find? k = if k ∈ keys then none else e.find? k := by
  induction keys generalizing e with
  | nil => simp
  | cons j rest inductionHypothesis =>
    rw [List.foldl_cons, inductionHypothesis]
    by_cases hrest : k ∈ rest
    · simp [hrest]
    · by_cases hself : k = j
      · simp [hself]
      · rw [find?_erase_of_ne _ hself]
        simp [hrest, hself]

theorem length_values_erase (e : Entries κ (List α)) (k : κ) :
    (e.erase k).values.flatten.length + ((e.find? k).getD []).length = e.values.flatten.length := by
  obtain ⟨pairs, hnodup⟩ := e
  simp only [values, erase, find?]
  induction pairs with
  | nil => rfl
  | cons p rest inductionHypothesis =>
    obtain ⟨j, a⟩ := p
    obtain ⟨hj, hrest⟩ := List.nodup_cons.mp hnodup
    have hlength := inductionHypothesis hrest
    by_cases h : j = k
    · subst h
      have hothers : rest.filter (fun p => decide (p.1 ≠ j)) = rest :=
        List.filter_eq_self.mpr fun p hp => decide_eq_true fun heq => hj (List.mem_map.mpr ⟨p, hp, heq⟩)
      rw [List.filter_cons_of_neg (by simp), hothers, List.find?_cons_of_pos (by simp)]
      simp [Nat.add_comm]
    · rw [List.filter_cons_of_pos (by simpa using h), List.find?_cons_of_neg (by simpa using h),
        List.map_cons, List.flatten_cons, List.map_cons, List.flatten_cons, List.length_append,
        List.length_append]
      omega

theorem length_values_foldl_erase {keys : List κ} (hkeys : keys.Nodup) (e : Entries κ (List α)) :
    (keys.foldl Entries.erase e).values.flatten.length
        + (keys.flatMap fun k => (e.find? k).getD []).length = e.values.flatten.length := by
  induction keys generalizing e with
  | nil => rfl
  | cons k rest inductionHypothesis =>
    obtain ⟨hk, hrest⟩ := List.nodup_cons.mp hkeys
    have hsame : (rest.flatMap fun j => ((e.erase k).find? j).getD [])
        = rest.flatMap fun j => (e.find? j).getD [] := by
      rw [List.flatMap_def, List.flatMap_def]
      refine congrArg List.flatten (List.map_congr_left fun j hj => ?_)
      have hne : j ≠ k := fun heq => hk (heq ▸ hj)
      rw [find?_erase_of_ne _ hne]
    have hfirst := length_values_erase e k
    have hothers := inductionHypothesis hrest (e.erase k)
    rw [List.foldl_cons, List.flatMap_cons, List.length_append]
    rw [hsame] at hothers
    omega

end Entries

namespace World

variable {w : World Code Memory} {owner : ViewModelId} {n m : NodeId} {b : BindingId}

omit [Inhabited Code] in
theorem Below.step (h : w.Below n m) {child : NodeId} (hchild : child ∈ (w.node m).children) :
    w.Below n child := by
  induction h with
  | child hm => exact .deeper hm (.child hchild)
  | deeper hm _ inductionHypothesis => exact .deeper hm (inductionHypothesis hchild)

omit [Inhabited Code] in
/-- The nodes that unmounting goes through. -/
theorem mem_unmountOrder : m ∈ w.unmountOrder n ↔ m = n ∨ w.Below n m := by
  constructor
  · refine forall_mem_explore (P := fun m => m = n ∨ w.Below n m) (fun m hm child hchild => ?_)
      (fun m hm => Or.inl (List.mem_singleton.mp hm)) m
    rw [List.mem_reverse] at hchild
    rcases hm with rfl | hbelow
    · exact Or.inr (.child hchild)
    · exact Or.inr (hbelow.step hchild)
  · have hself : n ∈ w.unmountOrder n := mem_explore_of_mem (List.mem_singleton_self n)
    have hleaf : ∀ k, k ∉ w.nodes.keys → (w.node k).children.reverse = [] := by
      intro k hk
      rw [List.reverse_eq_nil_iff]
      refine children_of_size_le (Nat.le_of_not_lt fun hlt => hk ?_)
      exact List.mem_map.mpr ⟨k.index, List.mem_range.mpr hlt, rfl⟩
    rintro (rfl | hbelow)
    · exact hself
    · refine hbelow.mem (fun k hk child hchild => ?_) hself
      exact mem_explore_of_next hleaf hk (List.mem_reverse.mpr hchild)

/-- The bindings that unmounting takes away. -/
def removed (w : World Code Memory) (owner : ViewModelId) (n : NodeId) : List BindingId :=
  (w.unmountOrder n).flatMap (w.bindingsOf owner)

omit [Inhabited Code] in
theorem mem_removed : b ∈ w.removed owner n ↔
    ∃ m, (m = n ∨ w.Below n m) ∧ b ∈ w.bindingsOf owner m := by
  simp only [removed, List.mem_flatMap, mem_unmountOrder]

omit [Inhabited Code] in
/-- No binding is taken away twice, if each is recorded once and for its own node. -/
theorem nodup_removed (hnodup : ∀ m, (w.bindingsOf owner m).Nodup)
    (hplaced : ∀ m, ∀ b ∈ w.bindingsOf owner m, (w.binding b).node = m) :
    (w.removed owner n).Nodup := by
  refine List.pairwise_flatMap.mpr ⟨fun m _ => hnodup m, ?_⟩
  refine (nodup_explore _ _ _).imp fun {m k} hne b hb j hj heq => hne ?_
  rw [← hplaced m b hb, heq, hplaced k j hj]

/-- What was recorded for a tree was taken away, and its bindings were dismissed. -/
structure Leaves (owner : ViewModelId) (n : NodeId) (w w' : World Code Memory) : Prop
    extends Discharges (fun x => ∃ b ∈ w.removed owner n, x ∈ (w.binding b).watchers) w w' where
  rest : w' = { w with viewModels := w'.viewModels, watchers := w'.watchers, sources := w'.sources,
                       bindings := w'.bindings }
  bindings : w.bindings.size ≤ w'.bindings.size
  binding : ∀ b, w'.binding b
    = if b ∈ w.removed owner n then { w.binding b with active := false } else w.binding b
  faces : ∀ id, (w'.viewModel id).face = (w.viewModel id).face
  others : ∀ id, id ≠ owner → w'.viewModel id = w.viewModel id
  inside : ∀ m, m = n ∨ w.Below n m → (w'.viewModel owner).bindings.find? m = none
  outside : ∀ m, ¬ (m = n ∨ w.Below n m) →
    (w'.viewModel owner).bindings.find? m = (w.viewModel owner).bindings.find? m
  count : (w'.viewModel owner).bindingCount + (w.removed owner n).length
    = (w.viewModel owner).bindingCount

theorem leaves_unmount (w : World Code Memory) (owner : ViewModelId) (n : NodeId) :
    Leaves owner n w (w.unmount owner n).2 := by
  let f : ViewModel Code → ViewModel Code := fun vm =>
    { vm with bindings := (w.unmountOrder n).foldl Entries.erase vm.bindings }
  let erased := w.mapViewModel owner f
  have heq : (w.unmount owner n).2 = (w.removed owner n).foldl teardownBinding erased := rfl
  have hdismisses := dismisses_teardownBindings (w.removed owner n) erased
  have hviewModel : ∀ id, (w.unmount owner n).2.viewModel id = erased.viewModel id := by
    intro id
    rw [heq, viewModel, hdismisses.viewModels, viewModel]
  have herased : (erased.viewModel owner).bindings
      = (w.unmountOrder n).foldl Entries.erase (w.viewModel owner).bindings := by
    rw [viewModel_mapViewModel, if_pos rfl]
  have hfind : ∀ m, ((w.unmount owner n).2.viewModel owner).bindings.find? m
      = if m ∈ w.unmountOrder n then none else (w.viewModel owner).bindings.find? m := by
    intro m
    rw [hviewModel, herased, Entries.find?_foldl_erase]
  rw [heq] at hviewModel hfind ⊢
  refine ⟨⟨hdismisses.size, hdismisses.reaction, hdismisses.row, hdismisses.listed, hdismisses.disposed,
    hdismisses.retired⟩, ?_, hdismisses.bindings, hdismisses.binding, fun id => ?_, fun id hid => ?_, fun m hm => ?_,
    fun m hm => ?_, ?_⟩
  · rw [teardownBindings_eq]
    rfl
  · rw [hviewModel]
    exact (fringe_mapViewModel w owner (f := f) fun _ => rfl).viewModels id
  · rw [hviewModel, viewModel_mapViewModel, if_neg hid]
  · rw [hfind, if_pos (mem_unmountOrder.mpr hm)]
  · rw [hfind, if_neg fun hmem => hm (mem_unmountOrder.mp hmem)]
  · rw [ViewModel.bindingCount, hviewModel, herased]
    exact Entries.length_values_foldl_erase (nodup_explore _ _ _) _

end World

end ViewBinding
