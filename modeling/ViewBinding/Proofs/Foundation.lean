import ViewBinding.Proofs.Compiling

/-!
# Things that have been made, and things that are dropped

Whatever a world refers to has been made. So what is made later is known only to what was given it
since, and if nobody keeps it then it is gone: a thing is dropped if it is not held and all that owns it
is dropped.
-/

namespace ViewBinding

variable {Code Memory : Type} [Inhabited Code]

/-- Values, rows of data and nodes own nothing but data and nodes. -/
def Ref.isPlain : Ref → Bool
  | .object _ | .array _ | .computed _ | .node _ => true
  | .watcher _ | .probe _ | .binding _ | .viewModel _ => false

theorem Value.isPlain_of_mem_refs {v : Value} {x : Ref} (h : x ∈ v.refs) : x.isPlain = true := by
  cases v <;> simp_all [refs, Ref.isPlain]

namespace World

variable {w w' : World Code Memory}

omit [Inhabited Code] in
/-- A thing has been made. -/
def Made (w : World Code Memory) : Ref → Prop
  | .object id => id.index < w.objects.size
  | .array id => id.index < w.arrays.size
  | .computed id => id.index < w.computeds.size
  | .watcher id => id.index < w.watchers.size
  | .probe id => id.index < w.probes.size
  | .node id => id.index < w.nodes.size
  | .binding id => id.index < w.bindings.size
  | .viewModel id => id.index < w.viewModels.size

/-- Nothing is held, owned or listed but what has been made, given what the embedder holds. -/
structure Founded (w : World Code Memory) (embedder : List Ref) : Prop where
  roots : ∀ x ∈ w.roots embedder, w.Made x
  owned : ∀ y, w.Made y → ∀ x ∈ w.owned y, w.Made x
  listed : ∀ s, ∀ subscriber ∈ (w.source s).subscribers, w.Made subscriber.ref

/-! ### Who owns bindings and watchers, and who evaluates -/

theorem isPlain_of_mem_owned {x y : Ref} (h : x ∈ w.owned y) :
    x.isPlain = true ∨ (∃ b, y = .binding b) ∨ ∃ id, y = .viewModel id := by
  cases y with
  | object j =>
    simp only [World.owned, Object.refs, List.mem_flatMap] at h
    obtain ⟨slot, -, hslot⟩ := h
    cases slot with
    | field value source => exact Or.inl (Value.isPlain_of_mem_refs hslot)
    | constant value => exact Or.inl (Value.isPlain_of_mem_refs hslot)
    | computed id => exact Or.inl (List.mem_singleton.mp hslot ▸ rfl)
    | proxy target key => exact Or.inl (List.mem_singleton.mp hslot ▸ rfl)
  | array j =>
    obtain ⟨value, -, hvalue⟩ := List.mem_flatMap.mp h
    exact Or.inl (Value.isPlain_of_mem_refs hvalue)
  | computed j =>
    simp only [World.owned, Computed.refs] at h
    cases hcache : (w.computed j).cache with
    | none =>
      rw [hcache] at h
      cases h
    | some value =>
      rw [hcache] at h
      exact Or.inl (Value.isPlain_of_mem_refs h)
  | watcher j =>
    simp only [World.owned, Watcher.refs, List.mem_append] at h
    rcases h with (hroot | hcached) | hreaction
    · exact Or.inl (Value.isPlain_of_mem_refs hroot)
    · exact Or.inl (Value.isPlain_of_mem_refs hcached)
    · cases hrow : (w.watcher j).reaction with
      | render updater node =>
        rw [hrow] at hreaction
        exact Or.inl (List.mem_singleton.mp hreaction ▸ rfl)
      | interpolate template root tracker node =>
        rw [hrow] at hreaction
        rcases List.mem_cons.mp hreaction with rfl | hroot
        · exact Or.inl rfl
        · exact Or.inl (Value.isPlain_of_mem_refs hroot)
      | run code =>
        rw [hrow] at hreaction
        cases hreaction
  | probe j => cases h
  | node j =>
    rcases List.mem_append.mp h with hchild | hvalue
    · obtain ⟨child, -, rfl⟩ := List.mem_map.mp hchild
      exact Or.inl rfl
    · exact Or.inl (Value.isPlain_of_mem_refs hvalue)
  | binding j => exact Or.inr (Or.inl ⟨j, rfl⟩)
  | viewModel j => exact Or.inr (Or.inr ⟨j, rfl⟩)

/-- Only view models own bindings. -/
theorem mem_owned_binding {b : BindingId} {y : Ref} : Ref.binding b ∈ w.owned y ↔
    ∃ id, y = .viewModel id ∧ b ∈ (w.viewModel id).bindings.values.flatten := by
  constructor
  · intro h
    rcases isPlain_of_mem_owned h with hplain | ⟨j, rfl⟩ | ⟨j, rfl⟩
    · cases hplain
    · simp [World.owned, Binding.refs] at h
    · simpa [World.owned, ViewModel.refs, -List.map_flatten] using h
  · rintro ⟨id, rfl, hb⟩
    exact List.mem_append_right _ (List.mem_map_of_mem hb)

/-- Only bindings own watchers. -/
theorem mem_owned_watcher {x : WatcherId} {y : Ref} : Ref.watcher x ∈ w.owned y ↔
    ∃ b, y = .binding b ∧ x ∈ (w.binding b).watchers := by
  constructor
  · intro h
    rcases isPlain_of_mem_owned h with hplain | ⟨j, rfl⟩ | ⟨j, rfl⟩
    · cases hplain
    · simpa [World.owned, Binding.refs] using h
    · simp [World.owned, ViewModel.refs, -List.map_flatten] at h
  · rintro ⟨b, rfl, hx⟩
    exact List.mem_map_of_mem hx

omit [Inhabited Code] in
theorem mem_recorded {owner : ViewModelId} {b : BindingId} :
    b ∈ (w.viewModel owner).bindings.values.flatten ↔ ∃ n, b ∈ w.bindingsOf owner n := by
  simp only [List.mem_flatten, Entries.values, List.mem_map, bindingsOf]
  constructor
  · rintro ⟨bs, ⟨p, hp, rfl⟩, hb⟩
    have hfind := (Entries.find?_eq_some_iff (w.viewModel owner).bindings p.1 p.2).mpr hp
    exact ⟨p.1, by rwa [hfind]⟩
  · rintro ⟨n, hb⟩
    cases hfind : (w.viewModel owner).bindings.find? n with
    | none =>
      rw [hfind] at hb
      cases hb
    | some bs =>
      rw [hfind] at hb
      exact ⟨bs, ⟨(n, bs), (Entries.find?_eq_some_iff _ _ _).mp hfind, rfl⟩, hb⟩

omit [Inhabited Code] in
theorem mem_evaluating {x : Ref} :
    x ∈ w.evaluating ↔ ∃ subscriber, w.Evaluates subscriber ∧ subscriber.ref = x := by
  simp only [evaluating, List.mem_flatMap, List.mem_map, List.mem_filterMap, Option.map_eq_some_iff]
  constructor
  · rintro ⟨_, ⟨t, _, rfl⟩, frame, hframe, subscriber, rfl, rfl⟩
    exact ⟨subscriber, ⟨t, hframe⟩, rfl⟩
  · rintro ⟨subscriber, ⟨t, hframe⟩, rfl⟩
    refine ⟨_, ⟨t, ?_, rfl⟩, some subscriber, hframe, subscriber, rfl, rfl⟩
    refine List.mem_map.mpr ⟨t.index, List.mem_range.mpr (Nat.lt_of_not_le fun hle => ?_), rfl⟩
    rw [tracker, w.trackers.get_of_size_le hle] at hframe
    cases hframe

/-- Nobody evaluates and nobody is listed but who has been made. -/
theorem Founded.ready {embedder : List Ref} (h : w.Founded embedder) : w.Ready w where
  kin := .refl w
  manned _ hx := h.roots _ (List.mem_append_right _ (mem_evaluating.mpr ⟨_, hx, rfl⟩))
  listed _ s hs := h.listed s _ hs

theorem Founded.binding {embedder : List Ref} (h : w.Founded embedder) {owner : ViewModelId}
    {b : BindingId} (hb : b ∈ (w.viewModel owner).bindings.values.flatten) :
    b.index < w.bindings.size := by
  have hmade : owner.index < w.viewModels.size := by
    refine Nat.lt_of_not_le fun hle => ?_
    rw [viewModel, w.viewModels.get_of_size_le hle] at hb
    cases hb
  exact h.owned (.viewModel owner) hmade _ (mem_owned_binding.mpr ⟨owner, rfl, hb⟩)

theorem Founded.watcher {embedder : List Ref} (h : w.Founded embedder) {b : BindingId} {x : WatcherId}
    (hx : x ∈ (w.binding b).watchers) : x.index < w.watchers.size := by
  have hmade : b.index < w.bindings.size := by
    refine Nat.lt_of_not_le fun hle => ?_
    rw [World.binding, w.bindings.get_of_size_le hle] at hx
    cases hx
  exact h.owned (.binding b) hmade _ (mem_owned_watcher.mpr ⟨b, rfl, hx⟩)

/-! ### Things that are dropped -/

/-- A thing is not held, and nothing owns it but what is dropped, in chains of owners up to a length. -/
def Dropped (w : World Code Memory) (embedder : List Ref) : (length : Nat) → Ref → Prop
  | 0, _ => False
  | length + 1, x => x ∉ w.roots embedder ∧ ∀ y, x ∈ w.owned y → w.Dropped embedder length y

theorem Dropped.longer {embedder : List Ref} {length more : Nat} {x : Ref}
    (h : w.Dropped embedder length x) (hle : length ≤ more) : w.Dropped embedder more x := by
  induction length generalizing more x with
  | zero => exact h.elim
  | succ length inductionHypothesis =>
    obtain ⟨more, rfl⟩ : ∃ k, more = k + 1 := ⟨more - 1, by omega⟩
    exact ⟨h.1, fun y hy => inductionHypothesis (h.2 y hy) (Nat.le_of_succ_le_succ hle)⟩

theorem isSome_foldlM {α β : Type} {f : β → α → Option β} {l : List α}
    (h : ∀ a ∈ l, ∀ b, (f b a).isSome) (b : β) : (l.foldlM f b).isSome := by
  induction l generalizing b with
  | nil => rfl
  | cons a rest inductionHypothesis =>
    rw [List.foldlM_cons]
    obtain ⟨b', hb'⟩ := Option.isSome_iff_exists.mp (h a List.mem_cons_self b)
    rw [hb']
    exact inductionHypothesis (fun a ha => h a (List.mem_cons_of_mem _ ha)) b'

/-- What is dropped is found to be gone. -/
theorem Dropped.isSome_gone? {embedder : List Ref} {length : Nat} {x : Ref}
    (h : w.Dropped embedder length x) (all known : List Ref) :
    (w.gone? (w.roots embedder) all length known x).isSome := by
  induction length generalizing known x with
  | zero => exact h.elim
  | succ length inductionHypothesis =>
    rw [gone?]
    split
    · rfl
    · rw [if_neg (by simpa using h.1), Option.isSome_map]
      refine isSome_foldlM (fun y _ known => ?_) known
      split
      · next howned => exact inductionHypothesis (h.2 y (by simpa using howned)) known
      · rfl

theorem Dropped.not_alive {embedder : List Ref} {length : Nat} {x : Ref}
    (h : w.Dropped embedder length x) (hle : length ≤ w.size + 1) : w.alive embedder x = false := by
  rw [alive_eq_lives, lives, Option.isNone_eq_false_iff]
  exact (h.longer hle).isSome_gone? _ _

end World

end ViewBinding
