import ViewBinding.Proofs.Foundation

/-!
# Watchers that live

A thing lives while a chain of owners leads from it to something that is held. Only bindings own watchers
and only view models own bindings. So as long as nothing more is recorded, binding nodes lets those
watchers live that lived before, in the same order, and no others.
-/

namespace ViewBinding

variable {Code Memory : Type} [Inhabited Code]

namespace World

variable {w w' : World Code Memory} {embedder : List Ref} {b : BindingId} {x : WatcherId}

/-- A thing is held, or a thing owns it that is sustained itself. -/
inductive Sustained (w : World Code Memory) (embedder : List Ref) : Ref → Prop
  | held {x : Ref} (h : x ∈ w.roots embedder) : Sustained w embedder x
  | owned {x y : Ref} (hy : y ∈ w.refs) (hx : x ∈ w.owned y) (h : Sustained w embedder y) :
      Sustained w embedder x

/-! ### What is sustained lives -/

theorem forall_of_foldlM {α β : Type} {f : β → α → Option β} (good : β → Prop) (done : α → Prop)
    {l : List α} {first last : β}
    (hstep : ∀ a ∈ l, ∀ b b', good b → f b a = some b' → good b' ∧ done a)
    (hfirst : good first) (h : l.foldlM f first = some last) : good last ∧ ∀ a ∈ l, done a := by
  induction l generalizing first with
  | nil =>
    cases h
    exact ⟨hfirst, fun _ ha => absurd ha List.not_mem_nil⟩
  | cons a rest inductionHypothesis =>
    rw [List.foldlM_cons] at h
    obtain ⟨next, hnext, hrest⟩ := Option.bind_eq_some_iff.mp h
    obtain ⟨hgood, hdone⟩ := hstep a List.mem_cons_self first next hfirst hnext
    obtain ⟨hlast, hothers⟩ :=
      inductionHypothesis (fun a ha => hstep a (List.mem_cons_of_mem _ ha)) hgood hrest
    exact ⟨hlast, List.forall_mem_cons.mpr ⟨hdone, hothers⟩⟩

/-- What is found to be gone is not sustained. -/
theorem not_sustained_of_gone {length : Nat} {known known' : List Ref} {x : Ref}
    (hknown : ∀ y ∈ known, ¬ w.Sustained embedder y)
    (h : w.gone? (w.roots embedder) w.refs length known x = some known') :
    (∀ y ∈ known', ¬ w.Sustained embedder y) ∧ ¬ w.Sustained embedder x := by
  induction length generalizing known known' x with
  | zero => cases h
  | succ length inductionHypothesis =>
    rw [gone?] at h
    split at h
    · next hmem =>
      cases h
      exact ⟨hknown, hknown x (by simpa using hmem)⟩
    · split at h
      · cases h
      · next hroot =>
        obtain ⟨found, hfold, rfl⟩ := Option.map_eq_some_iff.mp h
        obtain ⟨hfound, howners⟩ := forall_of_foldlM (fun known => ∀ y ∈ known, ¬ w.Sustained embedder y)
          (fun y => x ∈ w.owned y → ¬ w.Sustained embedder y) (fun y _ known next hgood hnext => by
            split at hnext
            · obtain ⟨hnext', hy⟩ := inductionHypothesis hgood hnext
              exact ⟨hnext', fun _ => hy⟩
            · next hnot =>
              cases hnext
              exact ⟨hgood, fun hy => absurd (by simpa using hy) hnot⟩) hknown hfold
        have hx : ¬ w.Sustained embedder x := by
          intro hsustained
          cases hsustained with
          | held hmem => exact hroot (by simpa using hmem)
          | owned hy hmem hsustained => exact howners _ hy hmem hsustained
        exact ⟨List.forall_mem_cons.mpr ⟨hx, hfound⟩, hx⟩

theorem Sustained.alive {x : Ref} (h : w.Sustained embedder x) : w.alive embedder x = true := by
  rw [alive_eq_lives, lives, Option.isNone_iff_eq_none, Option.eq_none_iff_forall_ne_some]
  intro known hknown
  exact (not_sustained_of_gone (fun _ hy => absurd hy List.not_mem_nil) hknown).2 h

/-! ### Who sustains watchers -/

omit [Inhabited Code] in
theorem mem_keys {κ α : Type} [Key κ] {t : Table κ α} {k : κ} (h : Key.index k < t.size) : k ∈ t.keys :=
  List.mem_map.mpr ⟨Key.index k, List.mem_range.mpr h, Key.ofIndex_index k⟩

omit [Inhabited Code] in
theorem index_lt_of_mem_watchers (h : x ∈ (w.binding b).watchers) : b.index < w.bindings.size := by
  refine Nat.lt_of_not_le fun hle => ?_
  rw [binding, w.bindings.get_of_size_le hle] at h
  cases h

omit [Inhabited Code] in
theorem index_lt_of_mem_bindingsOf {id : ViewModelId} {n : NodeId} (h : b ∈ w.bindingsOf id n) :
    id.index < w.viewModels.size := by
  refine Nat.lt_of_not_le fun hle => ?_
  rw [bindingsOf, viewModel, w.viewModels.get_of_size_le hle] at h
  cases h

/-- A watcher is held, or a binding owns it that is sustained. -/
theorem sustained_watcher : w.Sustained embedder (.watcher x) ↔
    .watcher x ∈ w.roots embedder ∨ ∃ b, x ∈ (w.binding b).watchers ∧ w.Sustained embedder (.binding b) := by
  constructor
  · intro h
    cases h with
    | held h => exact Or.inl h
    | owned _ hx h =>
      obtain ⟨b, rfl, hmem⟩ := mem_owned_watcher.mp hx
      exact Or.inr ⟨b, hmem, h⟩
  · rintro (h | ⟨b, hmem, h⟩)
    · exact .held h
    · refine .owned ?_ (mem_owned_watcher.mpr ⟨b, rfl, hmem⟩) h
      simp [refs, mem_keys (index_lt_of_mem_watchers hmem)]

/-- A binding is held, or recorded by a view model that is held. -/
theorem sustained_binding : w.Sustained embedder (.binding b) ↔ .binding b ∈ w.roots embedder ∨
    ∃ id n, b ∈ w.bindingsOf id n ∧ .viewModel id ∈ w.roots embedder := by
  constructor
  · intro h
    cases h with
    | held h => exact Or.inl h
    | owned _ hx h =>
      obtain ⟨id, rfl, hrecorded⟩ := mem_owned_binding.mp hx
      obtain ⟨n, hn⟩ := mem_recorded.mp hrecorded
      cases h with
      | held h => exact Or.inr ⟨id, n, hn, h⟩
      | owned _ hid _ => exact absurd hid (viewModel_not_owned w id _)
  · rintro (h | ⟨id, n, hn, h⟩)
    · exact .held h
    · have hrecorded := mem_recorded.mpr ⟨n, hn⟩
      refine .owned ?_ (mem_owned_binding.mpr ⟨id, rfl, hrecorded⟩) (.held h)
      simp [refs, mem_keys (index_lt_of_mem_bindingsOf hn)]

theorem dropped_binding_of_not_sustained (h : ¬ w.Sustained embedder (.binding b)) :
    w.Dropped embedder 2 (.binding b) := by
  rw [sustained_binding, not_or] at h
  refine ⟨h.1, fun y hy => ?_⟩
  obtain ⟨id, rfl, hrecorded⟩ := mem_owned_binding.mp hy
  obtain ⟨n, hn⟩ := mem_recorded.mp hrecorded
  exact ⟨fun hroot => h.2 ⟨id, n, hn, hroot⟩, fun z hz => absurd hz (viewModel_not_owned w id z)⟩

/-- A watcher lives if and only if it is sustained. -/
theorem alive_watcher : w.alive embedder (.watcher x) = true ↔ w.Sustained embedder (.watcher x) := by
  refine ⟨fun halive => Classical.byContradiction fun hnot => ?_, Sustained.alive⟩
  rw [sustained_watcher, not_or, not_exists] at hnot
  suffices hdropped : ∃ length, length ≤ w.size + 1 ∧ w.Dropped embedder length (.watcher x) by
    obtain ⟨length, hle, hdropped⟩ := hdropped
    rw [hdropped.not_alive hle] at halive
    cases halive
  have hdropped : ∀ b, x ∈ (w.binding b).watchers → w.Dropped embedder 2 (.binding b) := fun b hb =>
    dropped_binding_of_not_sustained fun hsustained => hnot.2 b ⟨hb, hsustained⟩
  -- the chain of owners is no longer than there are kinds of things in it
  by_cases hbindings : w.bindings.size = 0
  · refine ⟨1, Nat.le_add_left 1 _, hnot.1, fun y hy => ?_⟩
    obtain ⟨b, rfl, hmem⟩ := mem_owned_watcher.mp hy
    exact absurd (index_lt_of_mem_watchers hmem) (hbindings ▸ Nat.not_lt_zero _)
  · by_cases hviewModels : w.viewModels.size = 0
    · refine ⟨2, by unfold size; omega, hnot.1, fun y hy => ?_⟩
      obtain ⟨b, rfl, hmem⟩ := mem_owned_watcher.mp hy
      refine ⟨(hdropped b hmem).1, fun z hz => ?_⟩
      obtain ⟨id, rfl, hrecorded⟩ := mem_owned_binding.mp hz
      obtain ⟨n, hn⟩ := mem_recorded.mp hrecorded
      exact absurd (index_lt_of_mem_bindingsOf hn) (hviewModels ▸ Nat.not_lt_zero _)
    · refine ⟨3, by unfold size; omega, hnot.1, fun y hy => ?_⟩
      obtain ⟨b, rfl, hmem⟩ := mem_owned_watcher.mp hy
      exact hdropped b hmem

/-! ### Watchers before and after nodes are bound -/

/-- Watchers and bindings have been made if they are held, recorded or owned. -/
structure Anchored (w : World Code Memory) (embedder : List Ref) : Prop where
  heldWatcher : ∀ x : WatcherId, .watcher x ∈ w.roots embedder → x.index < w.watchers.size
  heldBinding : ∀ b : BindingId, .binding b ∈ w.roots embedder → b.index < w.bindings.size
  recorded : ∀ (id : ViewModelId) (n : NodeId), ∀ b ∈ w.bindingsOf id n, b.index < w.bindings.size
  owned : ∀ b : BindingId, ∀ x ∈ (w.binding b).watchers, x.index < w.watchers.size

theorem Founded.anchored (h : w.Founded embedder) : w.Anchored embedder where
  heldWatcher _ hx := h.roots _ hx
  heldBinding _ hb := h.roots _ hb
  recorded _ n _ hb := h.binding (mem_recorded.mpr ⟨n, hb⟩)
  owned _ _ hx := h.watcher hx

/-- A watcher that is sustained has been made. -/
theorem Anchored.watcher (h : w.Anchored embedder) (hx : w.Sustained embedder (.watcher x)) :
    x.index < w.watchers.size := by
  rcases sustained_watcher.mp hx with hroot | ⟨b, hmem, -⟩
  · exact h.heldWatcher x hroot
  · exact h.owned b x hmem

/-- A binding that is sustained has been made. -/
theorem Anchored.binding (h : w.Anchored embedder) (hb : w.Sustained embedder (.binding b)) :
    b.index < w.bindings.size := by
  rcases sustained_binding.mp hb with hroot | ⟨id, n, hn, -⟩
  · exact h.heldBinding b hroot
  · exact h.recorded id n b hn

/-- The watchers on the list of a source that live, in the order of registration. -/
def liveWatchers (w : World Code Memory) (embedder : List Ref) (s : SourceId) : List Subscriber :=
  (w.liveSubscribers embedder s).filter fun
    | .watcher _ => true
    | _ => false

section Standing

variable {embedder' : List Ref}

/-- The same is held and recorded, bindings have the watchers that they had, and those watchers that were
there before are listed as they were, in the same order. -/
structure Standing (embedder embedder' : List Ref) (w w' : World Code Memory) : Prop where
  roots : ∀ y, y ∈ w'.roots embedder' ↔ y ∈ w.roots embedder
  recorded : ∀ id n, w'.bindingsOf id n = w.bindingsOf id n
  watchers : ∀ b : BindingId, b.index < w.bindings.size → (w'.binding b).watchers = (w.binding b).watchers
  listed : w.ListsAlike (fun x => x.index < w.watchers.size ∧ ¬ w.Evaluates (.watcher x)) w'

/-- The same watchers live. -/
theorem Standing.alive_watcher (h : Standing embedder embedder' w w') (hw : w.Anchored embedder)
    (x : WatcherId) : w'.alive embedder' (.watcher x) = w.alive embedder (.watcher x) := by
  have hsustained : ∀ b, w'.Sustained embedder' (.binding b) ↔ w.Sustained embedder (.binding b) := by
    intro b
    simp only [sustained_binding, h.roots, h.recorded]
  have hiff : w'.Sustained embedder' (.watcher x) ↔ w.Sustained embedder (.watcher x) := by
    rw [sustained_watcher, sustained_watcher, h.roots]
    refine or_congr_right (exists_congr fun b => ?_)
    rw [hsustained]
    exact and_congr_left fun hb => by rw [h.watchers b (hw.binding hb)]
  rw [Bool.eq_iff_iff, World.alive_watcher, World.alive_watcher, hiff]

/-- The live watchers of every source are the same, in the same order. -/
theorem Standing.liveWatchers_eq (h : Standing embedder embedder' w w') (hw : w.Anchored embedder)
    (hidle : ∀ x, ¬ w.Evaluates (.watcher x)) (s : SourceId) :
    w'.liveWatchers embedder' s = w.liveWatchers embedder s := by
  rw [liveWatchers, liveWatchers, liveSubscribers_eq_filter, liveSubscribers_eq_filter,
    List.filter_filter, List.filter_filter]
  refine Eq.trans (List.filter_congr fun y _ => ?_) (h.listed _ (fun y hy => ?_) s)
  · cases y with
    | watcher x => exact congrArg _ (h.alive_watcher hw x)
    | computed id => rfl
    | probe id => rfl
  · cases y with
    | watcher x => exact ⟨x, rfl, hw.watcher (World.alive_watcher.mp hy), hidle x⟩
    | computed id => cases hy
    | probe id => cases hy

end Standing

section Tied

variable {holds : Memory → List Ref} {owner : ViewModelId} {here : NodeId → Prop}

theorem Ties.mem_roots (h : Ties holds owner here w w') {y : Ref} :
    y ∈ w'.roots (holds w'.memory) ↔ y ∈ w.roots (holds w.memory) := by
  simp only [World.roots, h.holds, h.held, List.mem_append, mem_evaluating, evaluates_congr h.trackers]

theorem Ties.anchored (h : Ties holds owner here w w') (hw : w.Anchored (holds w.memory)) :
    w'.Anchored (holds w'.memory) where
  heldWatcher x hx := Nat.lt_of_lt_of_le (hw.heldWatcher x (h.mem_roots.mp hx)) h.binds.watchers
  heldBinding b hb := Nat.lt_of_lt_of_le (hw.heldBinding b (h.mem_roots.mp hb)) h.binds.bindings
  recorded id n b hb := by
    by_cases hid : id = owner
    · subst hid
      rcases h.records.fresh n b hb with hold | ⟨-, hlt, -⟩
      · exact Nat.lt_of_lt_of_le (hw.recorded id n b hold) h.binds.bindings
      · exact hlt
    · rw [h.records.bindingsOf_of_ne hid] at hb
      exact Nat.lt_of_lt_of_le (hw.recorded id n b hb) h.binds.bindings
  owned b x hx := by
    by_cases hb : b.index < w.bindings.size
    · rw [h.binds.binding b hb] at hx
      exact Nat.lt_of_lt_of_le (hw.owned b x hx) h.binds.watchers
    · exact (h.binds.own b (Nat.le_of_not_lt hb) x hx).2.1

/-- Nothing more is recorded. -/
theorem Ties.standing (h : Ties holds owner here w w')
    (hrecorded : ∀ n, w'.bindingsOf owner n = w.bindingsOf owner n) :
    Standing (holds w.memory) (holds w'.memory) w w' where
  roots _ := h.mem_roots
  recorded id n := by
    by_cases hid : id = owner
    · rw [hid, hrecorded]
    · exact h.records.bindingsOf_of_ne hid n
  watchers b hb := by rw [h.binds.binding b hb]
  listed := h.binds.listed

end Tied

end World

end ViewBinding
