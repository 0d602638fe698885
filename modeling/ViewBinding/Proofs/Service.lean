import ViewBinding.Proofs.Ties

/-!
# Watchers in and out of service

A watcher serves as long as it is not torn down, and depends on every source that lists it; so tearing
it down takes it off all lists. Tearing down a binding that was made since puts its watchers out of
service and leaves everything else as it was.
-/

namespace ViewBinding

variable {Code Memory : Type} [Inhabited Code]

namespace World

section Service

omit [Inhabited Code]

variable {w w₁ : World Code Memory} {x y : WatcherId}

/-- A watcher was not torn down, and only the sources that it depends on list it. -/
def Serves (w : World Code Memory) (x : WatcherId) : Prop :=
  (w.watcher x).disposed = false ∧ ∀ s, Subscriber.watcher x ∈ (w.source s).subscribers →
    s ∈ (w.watcher x).dependencies.current

/-- A watcher was torn down, and no source lists it. -/
def Retired (w : World Code Memory) (x : WatcherId) : Prop :=
  (w.watcher x).disposed = true ∧ ∀ s, Subscriber.watcher x ∉ (w.source s).subscribers

theorem Serves.congr (h : w.Serves x) (hrow : w₁.watcher x = w.watcher x)
    (hlisted : ∀ s, Subscriber.watcher x ∈ (w₁.source s).subscribers ↔
      .watcher x ∈ (w.source s).subscribers) : w₁.Serves x :=
  ⟨hrow ▸ h.1, fun s hs => hrow ▸ h.2 s ((hlisted s).mp hs)⟩

theorem Retired.congr (h : w.Retired x) (hrow : w₁.watcher x = w.watcher x)
    (hlisted : ∀ s, Subscriber.watcher x ∈ (w₁.source s).subscribers ↔
      .watcher x ∈ (w.source s).subscribers) : w₁.Retired x :=
  ⟨hrow ▸ h.1, fun s hs => h.2 s ((hlisted s).mp hs)⟩

variable [Inhabited Code]

/-- A watcher that is torn down leaves the sources that it depends on, and that is all that happens. -/
theorem teardownWatcher_of_serves (h : (w.watcher x).disposed = false) :
    (∀ y, (w.teardownWatcher x).watcher y =
      if y = x then { w.watcher x with disposed := true, dependencies := {} } else w.watcher y) ∧
    (∀ y s, Subscriber.watcher y ∈ ((w.teardownWatcher x).source s).subscribers ↔
      .watcher y ∈ (w.source s).subscribers ∧
        ¬ (y = x ∧ s ∈ (w.watcher x).dependencies.current)) ∧
    (w.teardownWatcher x).watchers.size =
      ((w.watchers.modify x fun x => { x with disposed := true }).modify x
        fun x => { x with dependencies := {} }).size := by
  have hdown : w.teardownWatcher x
      = (w.mapWatcher x fun x => { x with disposed := true }).clear (.watcher x) := by
    rw [teardownWatcher, if_neg (by simp [h])]
  rw [hdown]
  have hself : (w.mapWatcher x fun x => { x with disposed := true }).watcher x
      = { w.watcher x with disposed := true } := by
    rw [watcher_mapWatcher, if_pos rfl]
  refine ⟨fun y => ?_, fun y s => ?_, ?_⟩
  · rw [clear, unregisterAll_eq]
    change ((w.mapWatcher x _).mapWatcher x _).watcher y = _
    rw [watcher_mapWatcher, hself, watcher_mapWatcher]
    split <;> rfl
  · rw [clear, mem_source_unregisterAll]
    simp only [dependencies, hself, Subscriber.watcher.injEq]
    exact Iff.rfl
  · rw [clear, unregisterAll_eq]
    rfl

theorem teardownWatcher_of_disposed (h : (w.watcher x).disposed = true) : w.teardownWatcher x = w :=
  if_pos h

/-- What was torn down is out of service, if it was in service or out of it before. -/
theorem retired_teardownWatcher (h : w.Serves x ∨ w.Retired x) : (w.teardownWatcher x).Retired x := by
  rcases h with hserves | hretired
  · obtain ⟨hrow, hlisted, -⟩ := teardownWatcher_of_serves hserves.1
    refine ⟨by rw [hrow, if_pos rfl], fun s hs => ?_⟩
    obtain ⟨hw, hnot⟩ := (hlisted x s).mp hs
    exact hnot ⟨rfl, hserves.2 s hw⟩
  · rw [teardownWatcher_of_disposed hretired.1]
    exact hretired

theorem watcher_teardownWatcher_of_ne (hy : y ≠ x) :
    (w.teardownWatcher x).watcher y = w.watcher y := by
  cases h : (w.watcher x).disposed with
  | true => rw [teardownWatcher_of_disposed h]
  | false => rw [(teardownWatcher_of_serves h).1, if_neg hy]

/-- The lists of sources agree on everybody but the watcher that is torn down. -/
theorem listsAlike_teardownWatcher (w : World Code Memory) (x : WatcherId) :
    w.ListsAlike (· ≠ x) (w.teardownWatcher x) := by
  unfold teardownWatcher
  split
  · exact .refl w
  · refine ListsAlike.trans (listsAlike_of_subscribers fun _ => ?_)
      (listsAlike_unregisterAll _ (fun y hy heq => hy (Subscriber.watcher.inj heq).symm) _)
    rfl

theorem listed_teardownWatcher_of_ne (hy : y ≠ x) (s : SourceId) :
    Subscriber.watcher y ∈ ((w.teardownWatcher x).source s).subscribers ↔
      .watcher y ∈ (w.source s).subscribers :=
  (listsAlike_teardownWatcher w x).mem hy s

theorem size_teardownWatcher (hx : x.index < w.watchers.size) :
    (w.teardownWatcher x).watchers.size = w.watchers.size := by
  cases h : (w.watcher x).disposed with
  | true => rw [teardownWatcher_of_disposed h]
  | false =>
    rw [(teardownWatcher_of_serves h).2.2]
    have hsize := Table.size_modify_of_lt w.watchers hx fun x => { x with disposed := true }
    rw [Table.size_modify_of_lt _ (Nat.lt_of_lt_of_eq hx hsize.symm), hsize]

theorem reaction_teardownWatcher (w : World Code Memory) (x y : WatcherId) :
    ((w.teardownWatcher x).watcher y).reaction = (w.watcher y).reaction := by
  cases h : (w.watcher x).disposed with
  | true => rw [teardownWatcher_of_disposed h]
  | false =>
    rw [(teardownWatcher_of_serves h).1]
    split
    · next hy => rw [hy]
    · rfl

theorem Ties.teardownWatcher {holds : Memory → List Ref} {here : NodeId → Prop} {owner : ViewModelId}
    (h : Ties holds owner here w w₁) (hx : w.watchers.size ≤ x.index)
    (hlt : x.index < w₁.watchers.size) : Ties holds owner here w (w₁.teardownWatcher x) := by
  rw [teardownWatcher_eq]
  exact h.retouch hx hlt (size_teardownWatcher hlt)
    (fun _ hy => watcher_teardownWatcher_of_ne hy) (reaction_teardownWatcher w₁ x x)
    (listsAlike_teardownWatcher w₁ x)

/-- What is in service or out of it stays so while other nodes are bound. -/
theorem Ties.spared {holds : Memory → List Ref} {here : NodeId → Prop} {owner : ViewModelId}
    (h : Ties holds owner here w w₁) (hx : x.index < w.watchers.size)
    (hidle : ¬ w.Evaluates (.watcher x)) :
    (w.Serves x → w₁.Serves x) ∧ (w.Retired x → w₁.Retired x) :=
  ⟨fun hserves => hserves.congr (h.binds.watcher x hx hidle) (h.binds.listed.mem ⟨hx, hidle⟩),
    fun hretired => hretired.congr (h.binds.watcher x hx hidle) (h.binds.listed.mem ⟨hx, hidle⟩)⟩

/-! ### Tearing bindings down -/

/-- Some watchers were put out of service, and nobody else was. -/
structure Discharges (who : WatcherId → Prop) (w w' : World Code Memory) : Prop where
  size : w.watchers.size ≤ w'.watchers.size
  reaction : ∀ x, (w'.watcher x).reaction = (w.watcher x).reaction
  row : ∀ x, ¬ who x → w'.watcher x = w.watcher x
  listed : w.ListsAlike (fun x => ¬ who x) w'
  disposed : ∀ x, (w.watcher x).disposed = true → (w'.watcher x).disposed = true
  retired : ∀ x, w.Serves x ∨ w.Retired x → who x ∨ w.Retired x → w'.Retired x

variable {who who' : WatcherId → Prop} {w₂ : World Code Memory}

omit [Inhabited Code] in
theorem Discharges.fit (h : Discharges who w w₁) (hx : w.Serves x ∨ w.Retired x) :
    w₁.Serves x ∨ w₁.Retired x := by
  by_cases hwho : who x
  · exact Or.inr (h.retired x hx (Or.inl hwho))
  · exact hx.imp (fun hserves => hserves.congr (h.row x hwho) (h.listed.mem hwho))
      fun hretired => hretired.congr (h.row x hwho) (h.listed.mem hwho)

omit [Inhabited Code] in
theorem Discharges.trans (h : Discharges who w w₁) (h' : Discharges who' w₁ w₂) :
    Discharges (fun x => who x ∨ who' x) w w₂ where
  size := Nat.le_trans h.size h'.size
  reaction x := (h'.reaction x).trans (h.reaction x)
  row x hx := (h'.row x fun hwho => hx (Or.inr hwho)).trans (h.row x fun hwho => hx (Or.inl hwho))
  listed := (h.listed.mono fun _ hx hwho => hx (Or.inl hwho)).trans
    (h'.listed.mono fun _ hx hwho => hx (Or.inr hwho))
  disposed x hx := h'.disposed x (h.disposed x hx)
  retired x hx hmem := by
    refine h'.retired x (h.fit hx) ?_
    rcases hmem with (hwho | hwho) | hretired
    · exact Or.inr (h.retired x hx (Or.inl hwho))
    · exact Or.inl hwho
    · exact Or.inr (h.retired x hx (Or.inr hretired))

omit [Inhabited Code] in
theorem Discharges.congr (h : Discharges who w w₁) (hwho : ∀ x, who' x ↔ who x) :
    Discharges who' w w₁ := by
  obtain rfl : who' = who := funext fun x => propext (hwho x)
  exact h

theorem size_le_teardownWatcher (w : World Code Memory) (x : WatcherId) :
    w.watchers.size ≤ (w.teardownWatcher x).watchers.size := by
  cases h : (w.watcher x).disposed with
  | true => exact Nat.le_of_eq (by rw [teardownWatcher_of_disposed h])
  | false =>
    rw [(teardownWatcher_of_serves h).2.2]
    exact Nat.le_trans (Table.size_le_modify _ _ _) (Table.size_le_modify _ _ _)

theorem discharges_teardownWatcher (w : World Code Memory) (x : WatcherId) :
    Discharges (· = x) w (w.teardownWatcher x) where
  size := size_le_teardownWatcher w x
  reaction := reaction_teardownWatcher w x
  row _ hy := watcher_teardownWatcher_of_ne hy
  listed := listsAlike_teardownWatcher w x
  disposed y hy := by
    by_cases heq : y = x
    · rw [← heq, teardownWatcher_of_disposed hy]
      exact hy
    · rw [watcher_teardownWatcher_of_ne heq]
      exact hy
  retired y hy hmem := by
    by_cases heq : y = x
    · subst heq
      exact retired_teardownWatcher hy
    · exact (hmem.resolve_left heq).congr (watcher_teardownWatcher_of_ne heq)
        (listed_teardownWatcher_of_ne heq)

theorem discharges_teardownWatchers (l : List WatcherId) (w : World Code Memory) :
    Discharges (· ∈ l) w (l.foldl teardownWatcher w) := by
  induction l generalizing w with
  | nil =>
    exact ⟨Nat.le_refl _, fun _ => rfl, fun _ _ => rfl, .refl w, fun _ h => h,
      fun x _ h => h.resolve_left List.not_mem_nil⟩
  | cons y rest inductionHypothesis =>
    exact ((discharges_teardownWatcher w y).trans (inductionHypothesis _)).congr
      fun x => List.mem_cons

/-- Tearing watchers down changes watchers and the lists of sources. -/
theorem teardownWatchers_eq (l : List WatcherId) (w : World Code Memory) :
    l.foldl teardownWatcher w = { w with watchers := (l.foldl teardownWatcher w).watchers
                                         sources := (l.foldl teardownWatcher w).sources } := by
  induction l generalizing w with
  | nil => rfl
  | cons x rest inductionHypothesis => rw [List.foldl_cons, inductionHypothesis, teardownWatcher_eq]

/-- The bindings of a list were made inactive, and their watchers are out of service. -/
structure Dismisses (bs : List BindingId) (w w' : World Code Memory) : Prop
    extends Discharges (fun x => ∃ b ∈ bs, x ∈ (w.binding b).watchers) w w' where
  nodes : w'.nodes = w.nodes
  viewModels : w'.viewModels = w.viewModels
  bindings : w.bindings.size ≤ w'.bindings.size
  binding : ∀ b, w'.binding b = if b ∈ bs then { w.binding b with active := false } else w.binding b

theorem dismisses_teardownBinding (w : World Code Memory) (b : BindingId) :
    Dismisses [b] w (w.teardownBinding b) := by
  let silent := w.mapBinding b fun row => { row with active := false }
  have hself : silent.binding b = { w.binding b with active := false } := by
    rw [binding_mapBinding, if_pos rfl]
  have heq := teardownWatchers_eq (silent.binding b).watchers silent
  have hdischarges := discharges_teardownWatchers (silent.binding b).watchers silent
  have hwho : ∀ x, x ∈ (silent.binding b).watchers ↔ ∃ j ∈ [b], x ∈ (w.binding j).watchers := by
    intro x
    simp [hself]
  refine ⟨⟨hdischarges.size, hdischarges.reaction, fun x hx => hdischarges.row x fun hmem => hx ((hwho x).mp hmem),
    hdischarges.listed.mono fun x hx hmem => hx ((hwho x).mp hmem), hdischarges.disposed,
    fun x hx hmem => hdischarges.retired x hx (hmem.imp_left (hwho x).mpr)⟩, ?_, ?_, ?_, fun j => ?_⟩
  · rw [teardownBinding, heq]
    rfl
  · rw [teardownBinding, heq]
    rfl
  · rw [teardownBinding, heq]
    exact Table.size_le_modify _ _ _
  · have hrow : (w.teardownBinding b).binding j = silent.binding j := by
      rw [teardownBinding, heq]
      rfl
    rw [hrow, binding_mapBinding]
    simp only [List.mem_singleton]
    split
    · next hj => rw [hj]
    · rfl

theorem dismisses_teardownBindings (bs : List BindingId) (w : World Code Memory) :
    Dismisses bs w (bs.foldl teardownBinding w) := by
  induction bs generalizing w with
  | nil =>
    exact ⟨⟨Nat.le_refl _, fun _ => rfl, fun _ _ => rfl, .refl w, fun _ h => h,
        fun x _ h => h.resolve_left (by simp)⟩,
      rfl, rfl, Nat.le_refl _, fun b => by simp⟩
  | cons b rest inductionHypothesis =>
    have hfirst := dismisses_teardownBinding w b
    have hrest := inductionHypothesis (w.teardownBinding b)
    have hwatchers : ∀ j, ((w.teardownBinding b).binding j).watchers = (w.binding j).watchers := by
      intro j
      rw [hfirst.binding]
      split <;> rfl
    refine ⟨(hfirst.toDischarges.trans hrest.toDischarges).congr fun x => ?_,
      hrest.nodes.trans hfirst.nodes, hrest.viewModels.trans hfirst.viewModels,
      Nat.le_trans hfirst.bindings hrest.bindings, fun j => ?_⟩
    · simp [hwatchers]
    · change (rest.foldl teardownBinding (w.teardownBinding b)).binding j = _
      rw [hrest.binding, hfirst.binding]
      by_cases hj : j = b <;> by_cases hmem : j ∈ rest <;> simp [hj, hmem]

/-- Tearing bindings down changes bindings, watchers and the lists of sources. -/
theorem teardownBindings_eq (bs : List BindingId) (w : World Code Memory) :
    bs.foldl teardownBinding w = { w with
      watchers := (bs.foldl teardownBinding w).watchers
      sources := (bs.foldl teardownBinding w).sources
      bindings := (bs.foldl teardownBinding w).bindings } := by
  induction bs generalizing w with
  | nil => rfl
  | cons b rest inductionHypothesis =>
    rw [List.foldl_cons, inductionHypothesis, teardownBinding, teardownWatchers_eq]
    rfl

/-- No watcher is made by tearing down those that there are. -/
theorem size_teardownWatchers (l : List WatcherId) (h : ∀ x ∈ l, x.index < w.watchers.size) :
    (l.foldl teardownWatcher w).watchers.size = w.watchers.size := by
  induction l generalizing w with
  | nil => rfl
  | cons y rest inductionHypothesis =>
    have hsize := size_teardownWatcher (h y List.mem_cons_self)
    refine (inductionHypothesis fun x hx => ?_).trans hsize
    rw [hsize]
    exact h x (List.mem_cons_of_mem y hx)

theorem size_teardownBindings (bs : List BindingId)
    (h : ∀ b ∈ bs, ∀ x ∈ (w.binding b).watchers, x.index < w.watchers.size) :
    (bs.foldl teardownBinding w).watchers.size = w.watchers.size := by
  induction bs generalizing w with
  | nil => rfl
  | cons b rest inductionHypothesis =>
    have hself : (w.mapBinding b fun row => { row with active := false }).binding b
        = { w.binding b with active := false } := by
      rw [binding_mapBinding, if_pos rfl]
    have hsize : (w.teardownBinding b).watchers.size = w.watchers.size := by
      refine size_teardownWatchers _ fun x hx => ?_
      rw [hself] at hx
      exact h b List.mem_cons_self x hx
    refine (inductionHypothesis fun j hj x hx => ?_).trans hsize
    rw [(dismisses_teardownBinding w b).binding] at hx
    rw [hsize]
    refine h j (List.mem_cons_of_mem b hj) x ?_
    split at hx <;> exact hx

section Undoing

variable {holds : Memory → List Ref} {here : NodeId → Prop} {owner : ViewModelId}

theorem Ties.teardownWatchers (h : Ties holds owner here w w₁) (l : List WatcherId)
    (hl : ∀ x ∈ l, w.watchers.size ≤ x.index ∧ x.index < w₁.watchers.size) :
    Ties holds owner here w (l.foldl World.teardownWatcher w₁) := by
  induction l generalizing w₁ with
  | nil => exact h
  | cons y rest inductionHypothesis =>
    obtain ⟨hy, hlt⟩ := hl y List.mem_cons_self
    refine inductionHypothesis (h.teardownWatcher hy hlt) fun x hx => ?_
    rw [size_teardownWatcher hlt]
    exact hl x (List.mem_cons_of_mem y hx)

theorem Ties.teardownBinding (h : Ties holds owner here w w₁) {b : BindingId}
    (hb : w.bindings.size ≤ b.index) (hlt : b.index < w₁.bindings.size) :
    Ties holds owner here w (w₁.teardownBinding b) := by
  have hsilent := h.mapBinding hb hlt (f := fun row => { row with active := false }) rfl
    fun _ => Or.inl
  exact hsilent.teardownWatchers _ fun x hx =>
    ⟨(hsilent.binds.own b hb x hx).1, (hsilent.binds.own b hb x hx).2.1⟩

theorem Ties.teardownBindings (h : Ties holds owner here w w₁) (bs : List BindingId)
    (hbs : ∀ b ∈ bs, w.bindings.size ≤ b.index ∧ b.index < w₁.bindings.size) :
    Ties holds owner here w (bs.foldl World.teardownBinding w₁) := by
  induction bs generalizing w₁ with
  | nil => exact h
  | cons b rest inductionHypothesis =>
    obtain ⟨hb, hlt⟩ := hbs b List.mem_cons_self
    refine inductionHypothesis (h.teardownBinding hb hlt) fun j hj => ?_
    have hsize : (w₁.teardownBinding b).bindings.size = w₁.bindings.size := by
      rw [World.teardownBinding, teardownWatchers_eq]
      exact Table.size_modify_of_lt _ hlt _
    rw [hsize]
    exact hbs j (List.mem_cons_of_mem b hj)

/-! ### Recording bindings -/

omit [Inhabited Code] in
theorem viewModel_mapViewModel (w : World Code Memory) (i j : ViewModelId)
    (f : ViewModel Code → ViewModel Code) :
    (w.mapViewModel i f).viewModel j = if j = i then f (w.viewModel i) else w.viewModel j :=
  Table.get_modify w.viewModels j i f

omit [Inhabited Code] in
theorem record_nil (w : World Code Memory) (owner : ViewModelId) (n : NodeId) :
    w.record owner n [] = w :=
  rfl

omit [Inhabited Code] in
/-- A record is nothing but longer entries of one node. -/
theorem bindings_record (w : World Code Memory) (owner : ViewModelId) (n : NodeId)
    {bs : List BindingId} (hbs : bs ≠ []) :
    ((w.record owner n bs).viewModel owner).bindings
      = (w.viewModel owner).bindings.put n (w.bindingsOf owner n ++ bs) := by
  rw [record, if_neg (by simpa using hbs), viewModel_mapViewModel, if_pos rfl]
  rfl

omit [Inhabited Code] in
theorem bindingsOf_record (w : World Code Memory) (owner : ViewModelId) (n j : NodeId)
    (bs : List BindingId) : (w.record owner n bs).bindingsOf owner j
      = if j = n then w.bindingsOf owner n ++ bs else w.bindingsOf owner j := by
  by_cases hbs : bs = []
  · subst hbs
    rw [record_nil, List.append_nil]
    split
    · next h => rw [h]
    · rfl
  · rw [bindingsOf, bindings_record w owner n hbs]
    split
    · next h => rw [h, Entries.find?_put_self, Option.getD_some]
    · next h => rw [Entries.find?_put_of_ne _ _ h, bindingsOf]

omit [Inhabited Code] in
theorem record_eq (w : World Code Memory) (owner : ViewModelId) (n : NodeId) (bs : List BindingId) :
    w.record owner n bs = { w with viewModels := (w.record owner n bs).viewModels } := by
  unfold record
  split <;> rfl

omit [Inhabited Code] in
/-- What is bound stays so when bindings are recorded. -/
theorem isBound_record (w : World Code Memory) (owner : ViewModelId) (n : NodeId)
    (bs : List BindingId) {j : NodeId} (hj : w.isBound owner j = true) :
    (w.record owner n bs).isBound owner j = true := by
  by_cases hbs : bs = []
  · rw [hbs, record_nil]
    exact hj
  · rw [isBound, Entries.contains, bindings_record w owner n hbs]
    by_cases heq : j = n
    · rw [heq, Entries.find?_put_self]
      rfl
    · rw [Entries.find?_put_of_ne _ _ heq]
      exact hj

omit [Inhabited Code] in
theorem isBound_record_iff (hn : w.isBound owner n = false) (bs : List BindingId) :
    (w.record owner n bs).isBound owner n = true ↔ bs ≠ [] := by
  by_cases hbs : bs = []
  · rw [hbs, record_nil, hn]
    simp
  · rw [isBound, Entries.contains, bindings_record w owner n hbs, Entries.find?_put_self]
    simp [hbs]

theorem Ties.record (h : Ties holds owner here w w₁) {n : NodeId} (hn : here n) (bs : List BindingId)
    (hbs : ∀ b ∈ bs, w.bindings.size ≤ b.index ∧ b.index < w₁.bindings.size ∧
      (w₁.binding b).node = n) : Ties holds owner here w (w₁.record owner n bs) := by
  have hfaces := (fringe_record w₁ owner n bs).viewModels
  have hsame : ∀ j, j ≠ n → ((w₁.record owner n bs).viewModel owner).bindings.find? j
      = (w₁.viewModel owner).bindings.find? j := by
    intro j hj
    by_cases hempty : bs = []
    · rw [hempty, record_nil]
    · rw [bindings_record w₁ owner n hempty, Entries.find?_put_of_ne _ _ hj]
  have hothers : ∀ id, id ≠ owner → (w₁.record owner n bs).viewModel id = w₁.viewModel id := by
    intro id hid
    rw [World.record]
    split
    · rfl
    · rw [viewModel_mapViewModel, if_neg hid]
  have hrecorded := bindingsOf_record w₁ owner n
  rw [record_eq] at hfaces hsame hothers ⊢
  refine ⟨h.kin.trans ⟨rfl, fun _ => rfl, fun _ => rfl, rfl, rfl, rfl, fun _ => rfl, hfaces⟩,
    h.trackers, h.held, h.holds, h.hosts.of_nodes rfl,
    ⟨h.binds.bindings, h.binds.watchers, h.binds.binding, h.binds.watcher, h.binds.listed,
      h.binds.made, h.binds.placed, h.binds.own, h.binds.shows⟩, ?_⟩
  refine ⟨fun id hid => (hothers id hid).trans (h.records.others id hid), fun j hj => ?_,
    fun j hj => ?_, fun j b hb => ?_⟩
  · exact (hsame j fun heq => hj (heq ▸ hn)).trans (h.records.same j hj)
  · have hbound := isBound_record w₁ owner n bs (h.records.lasting j hj)
    rwa [record_eq] at hbound
  · have hb' : b ∈ (w₁.record owner n bs).bindingsOf owner j := by
      rw [record_eq]
      exact hb
    rw [hrecorded] at hb'
    split at hb'
    · next heq =>
      rcases List.mem_append.mp hb' with hold | hnew
      · exact h.records.fresh j b (heq ▸ hold)
      · exact Or.inr (heq ▸ hbs b hnew)
    · exact h.records.fresh j b hb'

end Undoing

end Service

end World

end ViewBinding
