import ViewBinding.Proofs.Readiness

/-!
# Reading in a ready world

Reading keeps a world ready, whether the realm has to do with what is read or not. A watcher of the realm
that has evaluated listens to what its path asks for, and its value is the one there is.
-/

namespace ViewBinding.Realm

open Engine World

variable {Code Memory : Type} [Inhabited Code]

/-- Two engines that are entered again while some wait: telling and running lead back to a calm world, and
programs that only read pay attention. -/
structure Relays (k : Realm Code Memory) (waiting : List Subscriber) (c d : Reentry Code Memory) :
    Prop where
  left : c.application = k.application
  right : d.application = k.application
  depth : d.depth = c.depth
  notify {n : Nat} {w : World Code Memory} (source : SourceId) :
    k.Calm n (fun x => x ∈ waiting ∨ x ∈ (w.source source).subscribers) w →
      Ends w (c.notify source) (d.notify source) fun _ => k.Calm n (· ∈ waiting)
  run {α : Type} (n : Nat) (program : Program Code Memory α) :
    Leads (k.Calm n (· ∈ waiting)) (k.Ready n True (· ∈ waiting)) (c.run program) (d.run program)
  sound {start : World Code Memory} : k.Fair start → (k.setting start).SoundRun start c
  attentive {start : World Code Memory} : k.Fair start →
    k.KeptAlike (properties (· ∈ waiting)) start → k.AttentiveRun (· ∈ waiting) start c d

variable {k : Realm Code Memory} {n : Nat} {a : Prop} {late late' : Subscriber → Prop}
  {waiting : List Subscriber} {w w₁ w' start : World Code Memory} {x y : Subscriber} {id : ComputedId}
  {c d : Reentry Code Memory}

/-! ### Steps that the realm has nothing to do with -/

theorem Calm.held (h : k.Calm n late w) (held : List Ref) : k.Calm n late { w with held } :=
  ⟨(h.heeds.held held).heeds, h.quiesces, h.made⟩

theorem Ready.held (h : k.Ready n a late w) (held : List Ref) : k.Ready n a late { w with held } :=
  h.pass (passes_of_eq rfl rfl rfl rfl rfl) rfl (fun _ _ => unmoved_of_eq rfl rfl rfl rfl rfl)
    fun _ hid => Or.inl hid

theorem Ready.relax (h : k.Ready n a late w) {b : Prop} (hb : b → a) : k.Ready n b late w :=
  ⟨h.toCalm, h.fair, fun hyes => h.audible (hb hyes)⟩

/-- What counts as made may be another number. -/
theorem Ready.remake (h : k.Ready n a late w) {m : Nat} (hm : m ≤ w.computeds.size) :
    k.Ready m a late w :=
  ⟨⟨h.heeds, h.quiesces, hm⟩, h.fair, h.audible⟩

theorem Ready.opening (hk : k.Lawful) (h : k.Ready n a late w) (hy : ¬ k.Has y) (t : TrackerId)
    (hmade : ∀ id, y = .computed id → Key.index id < w.computeds.size) :
    k.Ready n a late (w.opening k.application t y) := by
  refine h.pass (passes_opening hk w t hmade) (holds_opening hk w t y) (fun x hx => ?_) fun id hid => ?_
  · have hne : y ≠ x := fun heq => hy (heq ▸ hx)
    exact unmoved_opening hk.records w hne t
  · exact ((evaluates_opening w t).mp hid).symm.imp_right (hmade id)

omit [Inhabited Code] in
/-- Who is not evaluating is not so when a frame has been taken off. -/
theorem mem_pop_iff (hidle : ¬ w.Evaluates x) (t : TrackerId) :
    some x ∈ (w.tracker t).pop.frames ↔ some x ∈ (w.tracker t).frames :=
  iff_of_false (fun h => hidle ⟨t, List.mem_of_mem_tail h⟩) fun h => hidle ⟨t, h⟩

theorem evaluates_of_closing {t : TrackerId} {r : Except Error Value}
    (h : (w.closing k.application t y r).Evaluates x) : w.Evaluates x := by
  refine evaluates_of_pop w t ((evaluates_congr fun j => ?_).mp h)
  cases r with
  | ok value =>
    rw [World.closing, settle_eq]
    exact tracker_mapDependencies _ y _ j
  | error error => exact tracker_mapDependencies _ y _ j

theorem Ready.closing (hk : k.Lawful) (h : k.Ready n a late w) (hy : ¬ k.Has y) (t : TrackerId)
    (hmade : ∀ id, y = .computed id → Key.index id < w.computeds.size) (r : Except Error Value) :
    k.Ready n a late (w.closing k.application t y r) := by
  refine h.pass (passes_closing hk hy t r hmade) (holds_closing hk w t y r) (fun x hx => ?_)
    fun id hid => Or.inl (evaluates_of_closing hid)
  have hne : y ≠ x := fun heq => hy (heq ▸ hx)
  exact unmoved_closing_pop hk.records hne t (mem_pop_iff (h.quiesces x hx) t) r

theorem Ready.mapTracker (h : k.Ready n a late w) (t : TrackerId) {f : Tracker → Tracker}
    (hf : ∀ x, k.Has x → (some x ∈ (f (w.tracker t)).frames ↔ some x ∈ (w.tracker t).frames))
    (hmade : ∀ id, (w.mapTracker t f).Evaluates (.computed id) →
      w.Evaluates (.computed id) ∨ Key.index id < w.computeds.size) :
    k.Ready n a late (w.mapTracker t f) :=
  h.pass (passes_mapTracker w t f) rfl (fun x hx => unmoved_mapTracker w t (hf x hx)) hmade

/-- Tracking may be paused meanwhile. -/
theorem keeps_pausing {α : Type} (t : TrackerId) {b b' : Engine Code Memory α}
    (hb : Keeps (k.Ready n a late) b b') :
    Keeps (k.Ready n a late) (framed (some t) none b) (framed (some t) none b') := by
  intro w hw
  refine Ends.framed t none (hb _ (hw.mapTracker t (fun x _ => ?_) fun id hid => Or.inl ?_))
    fun r w' hw' => hw'.mapTracker t (fun x hx => mem_pop_iff (hw'.quiesces x hx) t)
      fun id hid => Or.inl (evaluates_of_pop w' t hid)
  · simp [Tracker.push]
  · exact ((evaluates_push w t none).mp hid).resolve_left (by simp)

theorem keeps_keeping {α : Type} (refs : List Ref) {b b' : Engine Code Memory α}
    (hb : Keeps (k.Ready n a late) b b') :
    Keeps (k.Ready n a late) (keeping refs b) (keeping refs b') :=
  Keeps.keeping (I := k.Ready n a late) (fun _ held hw => hw.held held) refs hb

/-- An occurrence that does not count in the realm is noted. -/
theorem Ready.note (hk : k.Lawful) (h : k.Ready n a late w) {occurrence : Occurrence}
    (hminor : k.Minor occurrence) (hstep : ∀ x, k.Has x → ∀ t, Trail.step x t occurrence = t) :
    k.Ready n a late (w.note k.application occurrence) :=
  h.pass (passes_note hk w hminor) (hk.quiet occurrence w)
    (fun x hx => unmoved_note hk.records w (hstep x hx)) fun _ hid => Or.inl hid

theorem Ready.depend (hk : k.Lawful) (h : k.Relays waiting c d) (hw : k.Ready n a (· ∈ waiting) w)
    (reader : Option TrackerId) (source : SourceId) :
    Ends w (depend c reader source) (depend d reader source) fun r w' =>
      r = .ok () ∧ k.Ready n a (· ∈ waiting) w' ∧ w'.computeds.size = w.computeds.size := by
  refine ((hw.heeds.ends_depend hk h.left h.right reader source).and
    (Setting.aside_depend (hw.fair.fits hk) h.left reader source w)).mono ?_
  rintro r w' ⟨⟨hr, hforth, -⟩, -, haside⟩
  exact ⟨hr, hw.forth (hw.fair.phase.aside haside) haside.toRests hforth, hforth.onward.quiet.size⟩

/-! ### Computed properties outside of the realm -/

section Outside

variable (hk : k.Lawful) (h : k.Relays waiting c d) (hw : k.Ready n a (· ∈ waiting) w)
  (hlt : Key.index id < w.computeds.size)

include hk h hw hlt

theorem Relays.runGetter_other : Ends w (runGetter c id) (runGetter d id) fun _ =>
    k.Ready n a (· ∈ waiting) := by
  have hcomputing : k.Ready n a (· ∈ waiting) (w.computing k.application id) :=
    hw.pass (passes_computing hk w hlt) (hk.quiet _ _) (fun _ _ => unmoved_computing hk w id)
      fun _ hj => Or.inl hj
  have hrun : ∀ program : Program Code Memory Value,
      Leads (k.Ready n a (· ∈ waiting)) (k.Ready n a (· ∈ waiting)) (c.run program) (d.run program) :=
    fun program => (h.run n program).mono (fun _ hw => hw.toCalm) fun _ hw => hw.relax fun _ => trivial
  rw [runGetter, runGetter, ends_update_bind, Engine.note, Engine.note, h.left, h.right, ends_update_bind,
    ends_inspect_bind]
  split
  · exact hrun _ _ hcomputing
  · rw [ends_inspect_bind]
    split
    · exact keeps_keeping _ (hrun _) _ hcomputing
    · exact (ends_throw _).mpr hcomputing

theorem Relays.memoizedValue_other (hid : ¬ k.computed id) :
    Ends w (memoizedValue c id) (memoizedValue d id) fun _ => k.Ready n a (· ∈ waiting) := by
  rw [memoizedValue, memoizedValue, ends_inspect_bind]
  cases (w.computed id).cache with
  | some value => exact (ends_pure value).mpr hw
  | none =>
    have hy : ¬ k.Has (.computed id) := hid
    have hmade : ∀ {w' : World Code Memory}, w.computeds.size ≤ w'.computeds.size →
        ∀ j, Subscriber.computed id = .computed j → Key.index j < w'.computeds.size := by
      intro w' hsize j hj
      cases hj
      exact Nat.lt_of_lt_of_le hlt hsize
    have hopening := (hw.remake (Nat.le_refl _)).opening hk hy (w.computed id).tracker
      (hmade (Nat.le_refl _))
    refine Ends.bind (R := fun _ => k.Ready w.computeds.size a (· ∈ waiting)) ?_ ?_ ?_
    · refine ends_evaluate (h.right.trans h.left.symm) _ _ (R := fun _ =>
        k.Ready w.computeds.size a (· ∈ waiting)) ?_ fun r w' hw' => ?_
      · rw [h.left]
        refine h.runGetter_other hk hopening ?_
        rw [(passes_opening hk w _ (hmade (Nat.le_refl _))).size]
        exact hlt
      · rw [h.left]
        exact hw'.closing hk hy _ (hmade hw'.made) r
    · intro value w' hw'
      rw [ends_update_bind, ends_pure]
      have hpasses : k.Passes w' (w'.mapComputed id fun x => { x with cache := some value }) :=
        passes_mapComputed w' (hmade hw'.made id rfl) (fun _ => rfl) (fun _ => rfl)
          fun hyes => absurd hyes hid
      refine (hw'.remake (Nat.le_trans hw.made hw'.made)).pass hpasses rfl (fun x _ => ?_)
        fun j hj => Or.inl hj
      exact unmoved_mapComputed w' id fun _ => rfl
    · exact fun error w' hw' => hw'.remake (Nat.le_trans hw.made hw'.made)

theorem Relays.readComputed_other (hid : ¬ k.computed id) (reader : Option TrackerId) :
    Ends w (readComputed c id reader) (readComputed d id reader) fun _ =>
      k.Ready n a (· ∈ waiting) := by
  refine Ends.keeping _ (R := fun _ => k.Ready n a (· ∈ waiting)) ?_ fun _ w' hw' => hw'.held _
  have hheld := hw.held ([.computed id] ++ w.held)
  rw [ends_inspect_bind]
  split
  · refine (hheld.depend hk h reader _).bind ?_ ?_
    · rintro - w' ⟨-, hw', hsize⟩
      exact h.memoizedValue_other hk hw' (hsize ▸ hlt) hid
    · rintro e w' ⟨he, -⟩
      cases he
  · exact h.runGetter_other hk hheld hlt

end Outside

/-! ### Reading -/

section Reading

variable (hk : k.Lawful) (h : k.Relays waiting c d)

include hk h

/-- What is read in the realm has met what covers it. -/
theorem Relays.get_realm (hw : k.Ready n a (· ∈ waiting) w) {object : ObjectId} {key : String}
    (hscope : ∀ id, w.slotAt object key = some (.computed id) → k.Scope w id)
    (reader : Option TrackerId) : Ends w (Engine.get c object key reader)
      (Engine.get d object key reader) fun _ => k.Ready n a (· ∈ waiting) := by
  have habove : (k.sight w).Above (k.Under w w) (Query.property object key) :=
    View.above_nothing _ fun id hid => hw.quiesces (.computed id) hid.1.1 hid.2
  refine (attentive_get hk hw.fair hw.heeds.keptAlike h.left h.right (h.sound hw.fair)
    (h.attentive hw.fair hw.heeds.keptAlike) hscope reader (hw.fair.course hw.heeds) habove).mono ?_
  rintro r w' ⟨hreads, hforth, -⟩
  exact hw.forth hreads.phase hreads.rests hforth

/-- Reading a property keeps the world ready. -/
theorem Relays.get (object : ObjectId) (key : String) (reader : Option TrackerId) :
    Keeps (k.Ready n a (· ∈ waiting)) (Engine.get c object key reader)
      (Engine.get d object key reader) := by
  intro w hw
  by_cases hscope : ∀ id, w.slotAt object key = some (.computed id) → k.Scope w id
  · exact h.get_realm hk hw hscope reader
  · simp only [Classical.not_forall] at hscope
    obtain ⟨id, hslot, hout⟩ := hscope
    have hlt : Key.index id < w.computeds.size := hw.heeds.wired.computed _ _ id hslot
    rw [Engine.get, Engine.get, ends_inspect_bind]
    refine Ends.keeping _ (R := fun _ => k.Ready n a (· ∈ waiting)) ?_ fun _ w' hw' => hw'.held _
    rw [ends_inspect_bind]
    change Ends _ (readSlot c _ _ reader (w.slotAt object key))
      (readSlot d _ _ reader (w.slotAt object key)) _
    rw [hslot]
    have hheld := hw.held ([.object object, .object (w.resolve object key).1] ++ w.held)
    exact h.readComputed_other hk hheld hlt (fun hyes => hout ⟨hyes, hlt⟩) reader

/-- A computed property that is there is read. -/
theorem Relays.readComputed (hw : k.Ready n a (· ∈ waiting) w) (hlt : Key.index id < w.computeds.size)
    (reader : Option TrackerId) : Ends w (Engine.readComputed c id reader)
      (Engine.readComputed d id reader) fun _ => k.Ready n a (· ∈ waiting) := by
  by_cases hid : k.computed id
  · have habove : (k.sight w).Above (k.Under w w) (.ask (.computed id) .done : Query Value) :=
      View.above_nothing _ fun id hid => hw.quiesces (.computed id) hid.1.1 hid.2
    refine (attentive_readComputed hk hw.fair hw.heeds.keptAlike h.left h.right (h.sound hw.fair)
      (h.attentive hw.fair hw.heeds.keptAlike) ⟨hid, hlt⟩ reader (hw.fair.course hw.heeds) habove).mono ?_
    rintro r w' ⟨hreads, hforth, -⟩
    exact hw.forth hreads.phase hreads.rests hforth
  · exact h.readComputed_other hk hw hlt hid reader

theorem Relays.walk (path : Path) (reader : Option TrackerId) (root : Value) :
    Keeps (k.Ready n a (· ∈ waiting)) (readPath c root path reader) (readPath d root path reader) :=
  Keeps.walk (h.get hk) path reader path.segments none root

end Reading

end ViewBinding.Realm
