import ViewBinding.Proofs.Hooking

/-!
# The listeners of active bindings

Listeners are never taken off an element, and every pass over it may add some. Those that belong to active bindings
are as many as the directives of the element that act on the event, one for each, if the element is bound, and none
otherwise. Binding nodes and leaving them keeps it so.
-/

namespace ViewBinding

open Engine

variable {Code Memory : Type} [Inhabited Code]

namespace World

/-- Whether a listener acts for a view model: it belongs to one of its bindings that is active. -/
def answers (w : World Code Memory) (owner : ViewModelId) (listener : Listener Code) : Bool :=
  listener.host?.any fun host => host.1 = owner && (w.binding host.2).active

/-- The listeners for an event that the directives of a node have there, as far as they have bindings. -/
def due (w : World Code Memory) (owner : ViewModelId) (n : NodeId) (event : String) : List (Listener Code) :=
  hooksFor owner event ((w.directives owner n).zip (w.bindingsOf owner n))

/-- What is recorded is in order, and the listeners that belong to active bindings are those that are due. -/
structure Hooked (w : World Code Memory) : Prop extends w.Accounted where
  hung : ∀ n event, ∀ listener ∈ (w.node n).hooks event, ∀ owner b, listener.host? = some (owner, b) →
    b.index < w.bindings.size
  active : ∀ id n, ∀ b ∈ w.bindingsOf id n, (w.binding b).active = true
  full : ∀ id n, (w.node n).isElement = true → w.isBound id n = true →
    (w.bindingsOf id n).length = (w.directives id n).length ∧ ∀ directive ∈ w.directives id n, directive.HasPath
  hooks : ∀ id n event, ((w.node n).hooks event).filter (w.answers id) = w.due id n event

variable {w w' : World Code Memory} {owner id : ViewModelId} {n m : NodeId} {event : String}

section Acting

omit [Inhabited Code]

theorem answers_iff {listener : Listener Code} : w.answers owner listener = true ↔
    ∃ b, listener.host? = some (owner, b) ∧ (w.binding b).active = true := by
  unfold answers
  cases listener.host? with
  | none => simp
  | some host =>
    obtain ⟨id, b⟩ := host
    by_cases hid : id = owner
    · simp [hid]
    · simp [hid]

/-- Whether listeners act depends on which bindings are active. -/
theorem filter_answers_congr {listeners : List (Listener Code)}
    (h : ∀ listener ∈ listeners, ∀ b, listener.host? = some (id, b) →
      (w'.binding b).active = (w.binding b).active) :
    listeners.filter (w'.answers id) = listeners.filter (w.answers id) := by
  refine List.filter_congr fun listener hmem => ?_
  unfold answers
  cases hhost : listener.host? with
  | none => rfl
  | some host =>
    by_cases hid : host.1 = id
    · have hactive := h listener hmem host.2 (by rw [hhost, ← hid])
      simp [hid, hactive]
    · simp [hid]

theorem due_congr (hbindings : w'.bindingsOf id n = w.bindingsOf id n)
    (hdirectives : w.isBound id n = true → w'.directives id n = w.directives id n) :
    w'.due id n event = w.due id n event := by
  unfold due
  rw [hbindings]
  cases hbound : w.isBound id n with
  | true => rw [hdirectives hbound]
  | false => rw [bindingsOf_of_not_isBound hbound, List.zip_nil_right, List.zip_nil_right]

theorem due_of_unrecorded (h : w.bindingsOf id n = []) : w.due id n event = [] := by
  rw [due, h, List.zip_nil_right]
  rfl

/-- A listener acts for a view model only if its binding is recorded. -/
theorem Hooked.recorded (h : w.Hooked) {listener : Listener Code} (hmem : listener ∈ (w.node n).hooks event)
    {b : BindingId} (hhost : listener.host? = some (id, b)) (hactive : (w.binding b).active = true) :
    b ∈ w.bindingsOf id n := by
  have hdue : listener ∈ w.due id n event := by
    rw [← h.hooks]
    refine List.mem_filter.mpr ⟨hmem, ?_⟩
    simp [answers, hhost, hactive]
  obtain ⟨b', hb', hhost'⟩ := mem_hooksFor hdue
  rw [hhost, Option.some.injEq, Prod.mk.injEq] at hhost'
  exact hhost'.2 ▸ hb'

theorem Bystands.directives (h : w.Bystands w') (hbound : w.isBound id n = true) (hn : n.index < w.nodes.size) :
    w'.directives id n = w.directives id n := by
  rw [World.directives, h.settings id n hbound, h.attributes n hn, World.directives]

theorem hooked_empty (memory : Memory) : ({ memory } : World Code Memory).Hooked where
  toAccounted := accounted_empty memory
  hung n event listener hmem := absurd hmem List.not_mem_nil
  active id n b hb := absurd hb List.not_mem_nil
  full id n helement := by cases helement
  hooks id n event := rfl

end Acting

/-! ### Standing by -/

omit [Inhabited Code] in
theorem Hooked.bystands (h : w.Hooked) (hw : w.Bystands w') : w'.Hooked where
  toAccounted := h.toAccounted.bystands hw
  hung n event listener hmem owner b hhost := by
    rw [hw.hooks] at hmem
    exact Nat.lt_of_lt_of_le (h.hung n event listener hmem owner b hhost) hw.bindings
  active id n b hb := by
    rw [hw.bindingsOf] at hb
    rw [hw.binding b (h.made id n b hb)]
    exact h.active id n b hb
  full id n helement hbound := by
    rw [hw.isBound] at hbound
    have hn := h.hosted id n hbound
    rw [hw.isElement n hn] at helement
    rw [hw.bindingsOf, hw.directives hbound hn]
    exact h.full id n helement hbound
  hooks id n event := by
    rw [hw.hooks, due_congr (hw.bindingsOf id n) fun hbound => hw.directives hbound (h.hosted id n hbound),
      ← h.hooks]
    refine filter_answers_congr fun listener hmem b hhost => ?_
    rw [hw.binding b (h.hung n event listener hmem id b hhost)]

/-! ### Binding -/

section Binding

variable {c : Reentry Code Memory} {holds : Memory → List Ref} {tally : Tally}

omit [Inhabited Code] in
theorem attributes_of_not_isElement {node : Node Code} (h : node.isElement = false) : node.attributes = [] := by
  cases node with
  | text content => rfl
  | element e => cases h

omit [Inhabited Code] in
theorem hooks_of_not_isElement {node : Node Code} (h : node.isElement = false) : node.hooks event = [] := by
  cases node with
  | text content => rfl
  | element e => cases h

theorem Ties.directives (h : Ties holds owner (· = n) w w') : w'.directives id m = w.directives id m := by
  rw [World.directives, h.kin.settings id, World.directives]
  by_cases hm : m.index < w.nodes.size
  · rw [h.hosts.attributes m hm]
  · have hnew := Nat.le_of_not_lt hm
    rw [attributes_of_not_isElement (isElement_of_size_le hnew), attributes_of_not_isElement (h.hosts.text m hnew)]

/-- Binding a node puts nothing on other nodes. -/
theorem Ties.hooks (h : Ties holds owner (· = n) w w') (hm : m ≠ n) :
    (w'.node m).hooks event = (w.node m).hooks event := by
  by_cases hmade : m.index < w.nodes.size
  · rw [h.hosts.same m hmade hm]
  · have hnew := Nat.le_of_not_lt hmade
    rw [hooks_of_not_isElement (isElement_of_size_le hnew), hooks_of_not_isElement (h.hosts.text m hnew)]

/-- What is bound is active when a visit is over. -/
theorem Fate.active {errors : List Error} (h : Fate c owner w w' n errors) {b : BindingId}
    (hb : b ∈ w'.bindingsOf owner n) : b ∈ w.bindingsOf owner n ∨ (w'.binding b).active = true := by
  cases h with
  | kept _ hrecorded => exact Or.inl (hrecorded ▸ hb)
  | bound _ _ _ hrecorded _ _ hforce => exact Or.inr (hforce b (hrecorded ▸ hb)).1
  | refused _ _ _ _ hrecorded _ _ _ => exact absurd (hrecorded ▸ hb) List.not_mem_nil
  | plain _ _ _ _ hrecorded => exact absurd (hrecorded ▸ hb) List.not_mem_nil
  | shown _ _ _ _ hrecorded _ _ _ _ hforce =>
    rw [hrecorded, List.mem_singleton] at hb
    exact Or.inr (hb ▸ hforce.1)
  | unshown _ _ _ _ _ hrecorded => exact absurd (hrecorded ▸ hb) List.not_mem_nil

/-- A visit keeps the listeners in order if it does so on the node that it visits. -/
theorem Hooked.visited (h : w.Hooked) (hstaffed : w'.Staffed)
    (hvisited : Visited c holds owner n tally w w')
    (hhung : ∀ event, ∀ listener ∈ (w'.node n).hooks event, listener ∈ (w.node n).hooks event ∨
      ∃ b, w.MadeSince w' b ∧ listener.host? = some (owner, b))
    (hfull : (w'.node n).isElement = true → w'.isBound owner n = true →
      (w'.bindingsOf owner n).length = (w.directives owner n).length ∧
        ∀ directive ∈ w.directives owner n, directive.HasPath)
    (hhooks : ∀ id event, ((w'.node n).hooks event).filter (w'.answers id) = w'.due id n event) : w'.Hooked := by
  have hties := hvisited.ties
  -- a visit makes new bindings and leaves the old ones as they are, so older listeners act as before
  have hrow : ∀ b : BindingId, b.index < w.bindings.size → w'.binding b = w.binding b := hties.binds.binding
  have hother : ∀ id m, ¬ (id = owner ∧ m = n) → w'.bindingsOf id m = w.bindingsOf id m ∧
      w'.isBound id m = w.isBound id m := by
    intro id m hne
    by_cases hid : id = owner
    · have hm : m ≠ n := fun hm => hne ⟨hid, hm⟩
      rw [hid]
      exact ⟨hties.records.bindingsOf hm, hties.records.isBound hm⟩
    · exact ⟨hties.records.bindingsOf_of_ne hid m, hties.records.isBound_of_ne hid m⟩
  exact {
    toAccounted := h.toAccounted.visited hstaffed hvisited
    hung := fun m event listener hmem other b hhost => by
      by_cases hm : m = n
      · subst hm
        rcases hhung event listener hmem with hold | ⟨b', hmade, hhost'⟩
        · exact Nat.lt_of_lt_of_le (h.hung m event listener hold other b hhost) hties.binds.bindings
        · rw [hhost, Option.some.injEq, Prod.mk.injEq] at hhost'
          exact hhost'.2 ▸ hmade.2
      · rw [hties.hooks hm] at hmem
        exact Nat.lt_of_lt_of_le (h.hung m event listener hmem other b hhost) hties.binds.bindings
    active := fun id m b hb => by
      have hold : b ∈ w.bindingsOf id m → (w'.binding b).active = true := fun hold => by
        rw [hrow b (h.made id m b hold)]
        exact h.active id m b hold
      by_cases hhere : id = owner ∧ m = n
      · obtain ⟨rfl, rfl⟩ := hhere
        exact (hvisited.fate.active hb).elim hold fun hactive => hactive
      · exact hold ((hother id m hhere).1 ▸ hb)
    full := fun id m helement hbound => by
      rw [hties.directives]
      by_cases hhere : id = owner ∧ m = n
      · obtain ⟨rfl, rfl⟩ := hhere
        exact hfull helement hbound
      · rw [(hother id m hhere).2] at hbound
        rw [(hother id m hhere).1]
        rw [hties.hosts.isElement m (h.hosted id m hbound)] at helement
        exact h.full id m helement hbound
    hooks := fun id m event => by
      by_cases hm : m = n
      · subst hm
        exact hhooks id event
      · rw [hties.hooks hm, due_congr (hother id m fun hhere => hm hhere.2).1 fun _ => hties.directives, ← h.hooks]
        refine filter_answers_congr fun listener hmem b hhost => ?_
        rw [hrow b (h.hung m event listener hmem id b hhost)] }

/-! The listeners that a pass has just put on a node. -/

section Fresh

omit [Inhabited Code]

variable {directives : List Directive} {bs : List BindingId}

theorem filter_hooksFor_others (hid : id ≠ owner) :
    (hooksFor owner event (directives.zip bs)).filter (w.answers id) = [] := by
  refine List.filter_eq_nil_iff.mpr fun listener hmem => ?_
  obtain ⟨b, -, hhost⟩ := mem_hooksFor hmem
  simp [answers, hhost, Ne.symm hid]

theorem filter_hooksFor_active (hactive : ∀ b ∈ bs, (w.binding b).active = true) :
    (hooksFor owner event (directives.zip bs)).filter (w.answers owner) = hooksFor owner event (directives.zip bs) := by
  refine List.filter_eq_self.mpr fun listener hmem => ?_
  obtain ⟨b, hb, hhost⟩ := mem_hooksFor hmem
  simp [answers, hhost, hactive b hb]

theorem filter_hooksFor_inactive (hinactive : ∀ b ∈ bs, (w.binding b).active = false) :
    (hooksFor owner event (directives.zip bs)).filter (w.answers owner) = [] := by
  refine List.filter_eq_nil_iff.mpr fun listener hmem => ?_
  obtain ⟨b, hb, hhost⟩ := mem_hooksFor hmem
  simp [answers, hhost, hinactive b hb]

end Fresh

/-- The listeners that were on the node before, as far as they act after the visit. -/
theorem Hooked.filter_answers_tied (h : w.Hooked) (hties : Ties holds owner (· = n) w w') (id : ViewModelId)
    (event : String) : ((w.node n).hooks event).filter (w'.answers id) = w.due id n event := by
  rw [← h.hooks]
  refine filter_answers_congr fun listener hmem b hhost => ?_
  rw [hties.binds.binding b (h.hung n event listener hmem id b hhost)]

theorem Hooked.element (h : w.Hooked) (hstaffed : w'.Staffed) (helement : (w.node n).isElement = true)
    (hvisited : Visited c holds owner n tally w w') (hstrung : Strung owner n w w') : w'.Hooked := by
  have hties := hvisited.ties
  have hdue : ∀ id event, w'.bindingsOf id n = w.bindingsOf id n → w'.due id n event = w.due id n event :=
    fun id event hsame => due_congr hsame fun _ => hties.directives
  have hfresh : ∀ {directives : List Directive} {bs : List BindingId}, (∀ b ∈ bs, w.MadeSince w' b) →
      (∀ event, (w'.node n).hooks event = (w.node n).hooks event ++ hooksFor owner event (directives.zip bs)) →
      ∀ event, ∀ listener ∈ (w'.node n).hooks event, listener ∈ (w.node n).hooks event ∨
        ∃ b, w.MadeSince w' b ∧ listener.host? = some (owner, b) := by
    intro directives bs hmade hhooks event listener hmem
    rw [hhooks] at hmem
    refine (List.mem_append.mp hmem).imp (fun hold => hold) fun hnew => ?_
    obtain ⟨b, hb, hhost⟩ := mem_hooksFor hnew
    exact ⟨b, hmade b hb, hhost⟩
  cases hstrung with
  | kept hbound hrecorded hhooks =>
    refine h.visited hstaffed hvisited (fun event listener hmem => Or.inl (hhooks event ▸ hmem)) (fun _ _ => ?_)
      fun id event => ?_
    · rw [hrecorded]
      exact h.full owner n helement hbound
    · rw [hhooks, h.filter_answers_tied hties, hdue id event]
      by_cases hid : id = owner
      · exact hid ▸ hrecorded
      · exact hties.records.bindingsOf_of_ne hid n
  | @bound bs hunbound hlength hpath hrecorded hmade hactive hhooks =>
    refine h.visited hstaffed hvisited (hfresh hmade hhooks) (fun _ _ => ?_) fun id event => ?_
    · rw [hrecorded]
      exact ⟨hlength.symm, hpath⟩
    · rw [hhooks, List.filter_append, h.filter_answers_tied hties]
      by_cases hid : id = owner
      · rw [hid, filter_hooksFor_active hactive, due_of_unrecorded (bindingsOf_of_not_isBound hunbound), due,
          hties.directives, hrecorded]
        rfl
      · rw [filter_hooksFor_others hid, List.append_nil, hdue id event (hties.records.bindingsOf_of_ne hid n)]
  | refused hunbound hrecorded hmade hinactive hhooks =>
    refine h.visited hstaffed hvisited (hfresh hmade hhooks) (fun _ hbound => ?_) fun id event => ?_
    · exact absurd (hrecorded.symm.trans hbound) Bool.false_ne_true
    · rw [hhooks, List.filter_append, h.filter_answers_tied hties]
      by_cases hid : id = owner
      · rw [hid, filter_hooksFor_inactive hinactive, due_of_unrecorded (bindingsOf_of_not_isBound hunbound),
          due_of_unrecorded (bindingsOf_of_not_isBound hrecorded)]
        rfl
      · rw [filter_hooksFor_others hid, List.append_nil, hdue id event (hties.records.bindingsOf_of_ne hid n)]

theorem Hooked.text (h : w.Hooked) (hstaffed : w'.Staffed) (htext : (w'.node n).isElement = false)
    (hvisited : Visited c holds owner n tally w w') : w'.Hooked := by
  have hhooks : ∀ event, (w'.node n).hooks event = [] := fun event => hooks_of_not_isElement htext
  refine h.visited hstaffed hvisited (fun event listener hmem => ?_) (fun helement => ?_) fun id event => ?_
  · exact absurd (hhooks event ▸ hmem) List.not_mem_nil
  · exact absurd (htext.symm.trans helement) Bool.false_ne_true
  · rw [hhooks, due, directives, attributes_of_not_isElement htext]
    rfl

end Binding

/-! ### Leaving -/

section Leaving

omit [Inhabited Code]

/-- Leaving a tree takes away what is recorded for it, and no other recorded binding. -/
theorem Accounted.mem_removed_iff (h : w.Accounted) {b : BindingId} (hb : b ∈ w.bindingsOf id m) :
    b ∈ w.removed owner n ↔ id = owner ∧ (m = n ∨ w.Below n m) := by
  rw [mem_removed]
  constructor
  · rintro ⟨k, hk, hb'⟩
    have hsame : k = m := (h.placed owner k b hb').symm.trans (h.placed id m b hb)
    exact ⟨h.once id owner m k b hb hb', hsame ▸ hk⟩
  · rintro ⟨rfl, hm⟩
    exact ⟨m, hm, hb⟩

theorem Leaves.bindingsOf (h : Leaves owner n w w') (id : ViewModelId) (m : NodeId) :
    (id = owner ∧ (m = n ∨ w.Below n m)) ∧ w'.bindingsOf id m = [] ∧ w'.isBound id m = false ∨
      ¬ (id = owner ∧ (m = n ∨ w.Below n m)) ∧ w'.bindingsOf id m = w.bindingsOf id m ∧
        w'.isBound id m = w.isBound id m := by
  by_cases hid : id = owner
  · subst hid
    by_cases hm : m = n ∨ w.Below n m
    · refine Or.inl ⟨⟨rfl, hm⟩, ?_, ?_⟩
      · rw [World.bindingsOf, h.inside m hm]
        rfl
      · rw [isBound, Entries.contains, h.inside m hm]
        rfl
    · refine Or.inr ⟨fun hinside => hm hinside.2, ?_, ?_⟩
      · rw [World.bindingsOf, h.outside m hm, World.bindingsOf]
      · rw [isBound, Entries.contains, h.outside m hm, isBound, Entries.contains]
  · refine Or.inr ⟨fun hinside => hid hinside.1, ?_, ?_⟩
    · rw [World.bindingsOf, h.others id hid, World.bindingsOf]
    · rw [isBound, h.others id hid, isBound]

theorem Leaves.directives (h : Leaves owner n w w') : w'.directives id m = w.directives id m := by
  have hsettings : (w'.viewModel id).settings = (w.viewModel id).settings :=
    (congrArg ViewModel.settings (h.faces id) :)
  rw [World.directives, hsettings, h.rest, World.directives]
  rfl

theorem Hooked.leaves (h : w.Hooked) (hw : Leaves owner n w w') : w'.Hooked where
  toAccounted := h.toAccounted.leaves hw
  hung m event listener hmem other b hhost := by
    rw [hw.rest] at hmem
    exact Nat.lt_of_lt_of_le (h.hung m event listener hmem other b hhost) hw.bindings
  active id m b hb := by
    rcases hw.bindingsOf id m with ⟨-, hnil, -⟩ | ⟨houtside, hsame, -⟩
    · exact absurd (hnil ▸ hb) List.not_mem_nil
    · rw [hsame] at hb
      rw [hw.binding, if_neg fun hremoved => houtside ((h.mem_removed_iff hb).mp hremoved)]
      exact h.active id m b hb
  full id m helement hbound := by
    rcases hw.bindingsOf id m with ⟨-, -, hunbound⟩ | ⟨-, hsame, hsame'⟩
    · exact absurd (hunbound.symm.trans hbound) Bool.false_ne_true
    · rw [hw.rest] at helement
      rw [hsame, hw.directives]
      exact h.full id m helement (hsame' ▸ hbound)
  hooks id m event := by
    have hnode : (w'.node m).hooks event = (w.node m).hooks event := by
      rw [hw.rest]
      rfl
    rw [hnode]
    rcases hw.bindingsOf id m with ⟨hinside, hnil, -⟩ | ⟨houtside, hsame, -⟩
    · -- whoever would act here has its binding among those that were taken away
      rw [due_of_unrecorded hnil]
      refine List.filter_eq_nil_iff.mpr fun listener hmem hanswers => ?_
      obtain ⟨b, hhost, hactive⟩ := answers_iff.mp hanswers
      rw [hw.binding] at hactive
      split at hactive
      · exact absurd hactive Bool.false_ne_true
      · next hkept => exact hkept ((h.mem_removed_iff (h.recorded hmem hhost hactive)).mpr hinside)
    · rw [due_congr hsame fun _ => hw.directives, ← h.hooks]
      refine filter_answers_congr fun listener hmem b hhost => ?_
      rw [hw.binding]
      split
      · next hremoved =>
        refine (Bool.eq_false_iff.mpr fun hactive => houtside ?_).symm
        exact (h.mem_removed_iff (h.recorded hmem hhost hactive)).mp hremoved
      · rfl

end Leaving

/-! ### What is kept from an earlier moment on -/

/-- No listener was taken off a node, and no binding came into force again. -/
structure Retains (w w' : World Code Memory) : Prop where
  bindings : w.bindings.size ≤ w'.bindings.size
  inactive : ∀ b : BindingId, b.index < w.bindings.size → (w.binding b).active = false →
    (w'.binding b).active = false
  hooks : ∀ n event, ∀ listener ∈ (w.node n).hooks event, listener ∈ (w'.node n).hooks event

section Retaining

variable {w₁ w₂ : World Code Memory} {holds : Memory → List Ref}

omit [Inhabited Code] in
theorem Retains.refl (w : World Code Memory) : w.Retains w :=
  ⟨Nat.le_refl _, fun _ _ h => h, fun _ _ _ h => h⟩

omit [Inhabited Code] in
theorem Retains.trans (h : w.Retains w₁) (h' : w₁.Retains w₂) : w.Retains w₂ where
  bindings := Nat.le_trans h.bindings h'.bindings
  inactive b hb hinactive := h'.inactive b (Nat.lt_of_lt_of_le hb h.bindings) (h.inactive b hb hinactive)
  hooks n event listener hmem := h'.hooks n event listener (h.hooks n event listener hmem)

omit [Inhabited Code] in
theorem Bystands.retains (h : w.Bystands w') : w.Retains w' :=
  ⟨h.bindings, h.outlasts.inactive, fun n event _ hmem => h.hooks n event ▸ hmem⟩

theorem Ties.retains (h : Ties holds owner (· = n) w w') (hstaffed : w.Staffed)
    (hhooks : ∀ event, ∀ listener ∈ (w.node n).hooks event, listener ∈ (w'.node n).hooks event) : w.Retains w' := by
  refine ⟨h.binds.bindings, (h.outlasts hstaffed).inactive, fun m event listener hmem => ?_⟩
  by_cases hm : m = n
  · exact hm ▸ hhooks event listener (hm ▸ hmem)
  · exact h.hooks hm ▸ hmem

omit [Inhabited Code] in
theorem Strung.hooks (h : Strung owner n w w') {listener : Listener Code} (hmem : listener ∈ (w.node n).hooks event) :
    listener ∈ (w'.node n).hooks event := by
  cases h with
  | kept _ _ hhooks => exact hhooks event ▸ hmem
  | bound _ _ _ _ _ _ hhooks => exact hhooks event ▸ List.mem_append_left _ hmem
  | refused _ _ _ _ hhooks => exact hhooks event ▸ List.mem_append_left _ hmem

omit [Inhabited Code] in
theorem Leaves.retains (h : Leaves owner n w w') : w.Retains w' where
  bindings := h.bindings
  inactive b hb hinactive := (h.toDischarges.outlasts h.bindings h.binding).inactive b hb hinactive
  hooks m event listener hmem := by
    rw [h.rest]
    exact hmem

end Retaining

end World

/-- A regular request that leaves binding to passes: no directive is carried out by hand, and no binding is torn down
by hand. -/
def Request.Automatic : Request Code Memory → Prop
  | .install .. => False
  | .teardownBinding _ => False
  | request => request.Regular

namespace Engine

variable {application : Application Code Memory} {start : World Code Memory}

/-- The listeners stay in order while nodes are bound and left, and what was true at the start is kept. -/
theorem tends_hooked (start : World Code Memory) :
    Tends application (fun request _ => request.Automatic) fun w => w.Hooked ∧ start.Retains w where
  staffed h := h.1.toStaffed
  noting hw _ h := ⟨h.1.bystands hw, h.2.trans hw.retains⟩
  regular {request _} h := by
    cases request <;> first | exact h | trivial
  element {c w owner n} habreast h helement := by
    have hstaffed := h.1.toStaffed
    refine ((habreast.visits_element hstaffed helement).and (strung_compileElement habreast hstaffed helement)).mono ?_
    rintro _ w' ⟨⟨⟨hstaffed', -⟩, tally, hvisited⟩, hstrung⟩
    exact ⟨h.1.element hstaffed' helement hvisited hstrung,
      h.2.trans (hvisited.ties.retains hstaffed fun _ _ => hstrung.hooks)⟩
  text {c w owner n text} habreast h htext := by
    have hstaffed := h.1.toStaffed
    have hbefore : (w.node n).isElement = false := by rw [htext]; rfl
    refine (habreast.visits_text hstaffed htext).mono ?_
    rintro _ w' ⟨⟨hstaffed', -⟩, tally, hvisited⟩
    have hafter : (w'.node n).isElement = false := by
      by_cases hn : n.index < w.nodes.size
      · exact (hvisited.ties.hosts.isElement n hn).trans hbefore
      · exact hvisited.ties.hosts.text n (Nat.le_of_not_lt hn)
    refine ⟨h.1.text hstaffed' hafter hvisited, h.2.trans (hvisited.ties.retains hstaffed fun event listener hmem => ?_)⟩
    rw [World.hooks_of_not_isElement hbefore] at hmem
    exact absurd hmem List.not_mem_nil
  install _ hok := hok.elim
  unmount {w} owner n h := by
    have hleaves := World.leaves_unmount w owner n
    exact ⟨h.1.leaves hleaves, h.2.trans hleaves.retains⟩
  teardownBinding hok := hok.elim
  remember {w f} _ h := by
    have hbystands : w.Bystands { w with memory := f w.memory } :=
      World.bystands_of_same rfl rfl rfl rfl (fun _ _ hs => hs) fun _ hx => hx
    exact ⟨h.1.bystands hbystands, h.2.trans hbystands.retains⟩

end Engine

end ViewBinding
