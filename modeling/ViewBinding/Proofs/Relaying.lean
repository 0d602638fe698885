import ViewBinding.Proofs.Altering
import ViewBinding.Proofs.Attention
import ViewBinding.Proofs.Registration
import ViewBinding.Proofs.Service

/-!
# Passing changes on

Steps after which others wait than before: something is written, a source begins to tell its subscribers,
a computed property that is told forgets its value. Everybody heeds what came before, as those that
listen to what has changed wait until they are told.
-/

namespace ViewBinding

open Engine World

variable {Code Memory : Type} [Inhabited Code]
variable {k : Realm Code Memory} {late late' : Subscriber → Prop} {waits waits' : ComputedId → Prop}
  {told : SourceId → Prop} {w w₁ w' : World Code Memory} {x : Subscriber}

omit [Inhabited Code] in
theorem Computed.memoize_of_known? {y : Computed Code} {value : Value} (h : y.known? = some value) :
    y.memoize = true := by
  cases hmemo : y.memoize with
  | true => rfl
  | false => simp [Computed.known?, hmemo] at h

/-! ### Steps that shift -/

/-- What was built and written was told. -/
theorem World.Alters.shift (h : Alters told w w') (hw : w.Wired) (hfair : k.Fair w)
    (hwaits : ∀ id, k.Scope w id → waits id → waits' id)
    (hheeds : ∀ id, k.Scope w id → ∀ s ∈ (w.dependencies (.computed id)).current, told s → waits' id) :
    k.Shift told waits waits' w w' where
  scope id hid := ⟨hid.1, Nat.lt_of_lt_of_le hid.2 h.computeds⟩
  memoize id hid := Computed.memoize_eq_of_base_eq (h.rows id hid.2).1
  source id hid := Computed.source_eq_of_base_eq (h.rows id hid.2).1
  query id hid := by
    rw [Realm.query_congr (Computed.getter_eq_of_base_eq (h.rows id hid.2).1) fun owner howner =>
      h.roots owner (hfair.owner id hid owner howner).2.2]
    exact hfair.alike id hid
  lists id _ := congrArg Dependencies.current (h.dependencies id)
  slots _ _ _ hsounds hl := h.sounds hw hsounds hl
  waits id hid _ hlate := Or.inl (hwaits id hid hlate)
  heeds id hid _ := hheeds id hid

namespace Realm

/-- Only books were kept, or values forgotten. -/
theorem shift_of_rows (hobjects : w'.objects = w.objects) (hviewModels : w'.viewModels = w.viewModels)
    (hsize : w.computeds.size ≤ w'.computeds.size)
    (hbases : ∀ id, (w'.computed id).base = (w.computed id).base)
    (hself : ∀ id, k.Scope w id → (k.query w id).Alike (k.query w id))
    (hlists : ∀ id, (w'.dependencies (.computed id)).current = (w.dependencies (.computed id)).current)
    (hwaits : ∀ id, k.Scope w id → waits id → waits' id ∨ told (w.computed id).source)
    (hheeds : ∀ id, k.Scope w id → ∀ s ∈ (w.dependencies (.computed id)).current, told s → waits' id) :
    k.Shift told waits waits' w w' where
  scope id hid := ⟨hid.1, Nat.lt_of_lt_of_le hid.2 hsize⟩
  memoize id _ := Computed.memoize_eq_of_base_eq (hbases id)
  source id _ := Computed.source_eq_of_base_eq (hbases id)
  query id hid := by
    rw [query_congr (Computed.getter_eq_of_base_eq (hbases id)) fun owner _ => by
      rw [viewModel, hviewModels, viewModel]]
    exact hself id hid
  lists id _ := hlists id
  slots l object key hsounds _ := by
    rw [slotAt_congr hobjects]
    refine ⟨fun hwritable => ?_, .refl _⟩
    rw [World.Writable, slotAt_congr hobjects] at hwritable
    obtain ⟨s, hs, hsource⟩ := hsounds hwritable
    exact ⟨s, hs, (hears_congr hobjects object key).trans hsource⟩
  waits id hid _ := hwaits id hid
  heeds id hid _ := hheeds id hid

/-- After a shift everybody heeds who does not wait, if the books agree and nobody keeps or knows more than
before. -/
theorem Heeds.shift (h : k.Heeds late w) (hs : k.Shift told (properties late) (properties late') w w')
    (hbooks : ∀ x, k.Has x → (w'.page k.record x).Agrees (w'.Evaluates x))
    (hundropped : ∀ id, k.computed id →
      (Trail.ofHistory (.computed id) (k.record w'.memory)).dropped = false)
    (hkept : ∀ id value, k.Scope w' id → (w'.computed id).known? = some value →
      ¬ late' (.computed id) → k.Scope w id ∧ (w.computed id).known? = some value ∧ ¬ late (.computed id))
    (hwatchers : k.watchers → ∀ id, k.Awake late' w' id → k.Awake late w id ∧
      (w'.watcher id).face = (w.watcher id).face ∧
      (w'.dependencies (.watcher id)).current = (w.dependencies (.watcher id)).current ∧
      ∀ s ∈ (w.dependencies (.watcher id)).current, ¬ told s)
    (honce : ∀ id, k.computed id →
      Once (.computed id) ((w'.computed id).cache = none) (k.record w'.memory))
    (hwired : w'.Wired)
    (hmade : ∀ id, w'.Evaluates (.computed id) → Key.index id < w'.computeds.size) :
    k.Heeds late' w' where
  books := hbooks
  undropped := hundropped
  kept id value hid hvalue hprompt := by
    obtain ⟨hid', hvalue', hprompt'⟩ := hkept id value hid hvalue hprompt
    have hsettled := h.kept id value hid' hvalue' hprompt'
    have hl : ∀ s ∈ (w.dependencies (.computed id)).current, ¬ told s := fun s hmem htold =>
      hprompt (hs.heeds id hid' (Computed.memoize_of_known? hvalue') s hmem htold)
    refine ⟨?_, fun r' hr' => ?_⟩
    · rw [hs.lists id hid']
      exact hs.covers hsettled.covers hl (hs.query id hid')
    · obtain ⟨r, hr, hlike⟩ := hs.gives_before hsettled.covers hl (hs.query id hid') hr'
      exact hlike.symm.trans (hsettled.fresh r hr)
  knows hw id hawake := by
    obtain ⟨hawake', hface, hlist, hl⟩ := hwatchers hw id hawake
    have hknows := h.knows hw id hawake'
    refine ⟨?_, fun value hvalue => ?_⟩
    · rw [hlist, path_congr hface]
      exact hs.covers hknows.covers hl (Query.alike_path _ _)
    · rw [path_congr hface] at hvalue
      obtain ⟨r, hr, hlike⟩ := hs.gives_before hknows.covers hl (Query.alike_path _ _) hvalue
      obtain ⟨other, rfl, hother⟩ := hlike.exists_ok
      rw [(Watcher.fields_eq_of_face_eq hface).2.2.2.1]
      exact (hknows.fresh other hr).trans hother.agrees
  once := honce
  wired := hwired
  made := hmade

/-- Who listens to a source is listed by it, unless it was dropped. -/
theorem Heeds.listed (h : k.Heeds late w) (hx : k.Has x)
    (hkept : (Trail.ofHistory x (k.record w.memory)).dropped = false) {s : SourceId}
    (hs : s ∈ (w.dependencies x).current) : x ∈ (w.source s).subscribers :=
  (h.books x hx).listed hkept s (Or.inl hs)

/-- Nobody in the realm is evaluating. -/
def Quiesces (k : Realm Code Memory) (w : World Code Memory) : Prop :=
  ∀ x, k.Has x → ¬ w.Evaluates x

/-- The watchers that are told of changes have paths that can be heard of. -/
def Audible (k : Realm Code Memory) (w : World Code Memory) : Prop :=
  k.watchers → ∀ id, k.Tuned w id → (k.afresh w).Along w.Heard (path w id)

/-! ### More may wait -/

theorem Heeds.mono (h : k.Heeds late w)
    (hself : ∀ id, k.Scope w id → (k.query w id).Alike (k.query w id))
    (hlate : ∀ x, k.Has x → late x → late' x) : k.Heeds late' w := by
  have hs : k.Shift (fun _ => False) (properties late) (properties late') w w :=
    shift_of_rows rfl rfl (Nat.le_refl _) (fun _ => rfl) hself (fun _ => rfl)
      (fun id hid hl => Or.inl (hlate (.computed id) hid.1 hl)) fun _ _ _ _ => False.elim
  refine h.shift hs h.books h.undropped ?_ ?_ h.once h.wired h.made
  · exact fun id value hid hvalue hprompt =>
      ⟨hid, hvalue, fun hl => hprompt (hlate (.computed id) hid.1 hl)⟩
  · exact fun hw id hawake => ⟨⟨hawake.toTuned, fun hl => hawake.prompt (hlate (.watcher id) hw hl),
      hawake.idle, hawake.heard⟩, rfl, rfl, fun _ _ hfalse => hfalse⟩

/-! ### Building and writing -/

/-- After building and writing, everybody heeds if those that are to be told wait. -/
theorem Heeds.alters (h : k.Heeds late w) (hfair : k.Fair w) (haudible : k.Audible w)
    (hidle : k.Quiesces w) (ha : Alters told w w') (hlate : ∀ x, k.Has x → late x → late' x)
    (htold : ∀ x, k.Has x → ∀ s, told s → x ∈ (w.source s).subscribers → late' x) :
    k.Heeds late' w' := by
  have hu : ∀ x, Unmoved k.record x w w' := fun x => ha.toBuilds.unmoved
  have hmemory : w'.memory = w.memory := ha.memory
  have hwatcher : ∀ id, w'.watcher id = w.watcher id := fun id => by
    rw [World.watcher, ha.watchers, World.watcher]
  have hcache : ∀ id, (w'.computed id).cache = (w.computed id).cache := by
    intro id
    by_cases hlt : Key.index id < w.computeds.size
    · exact (ha.rows id hlt).2
    · rw [ha.fresh id (Nat.le_of_not_lt hlt), cache_of_size_le (Nat.le_of_not_lt hlt)]
  have hlisted : ∀ id, k.computed id → ∀ s ∈ (w.dependencies (.computed id)).current,
      Subscriber.computed id ∈ (w.source s).subscribers := fun id hid s hs =>
    Heeds.listed (x := .computed id) h hid (h.undropped id hid) hs
  have hs : k.Shift told (properties late) (properties late') w w' :=
    ha.shift h.wired hfair (fun id hid => hlate (.computed id) hid.1) fun id hid s hmem hs =>
      htold (.computed id) hid.1 s hs (hlisted id hid.1 s hmem)
  refine h.shift hs (fun x hx => ?_) (fun id hid => ?_) (fun id value hid hvalue hprompt => ?_)
    (fun hw id hawake => ?_) (fun id hid => ?_) (ha.wired h.wired) fun id hev => ?_
  · rw [(hu x).page, (hu x).evaluates]
    exact h.books x hx
  · rw [hmemory]
    exact h.undropped id hid
  · have hlt : Key.index id < w.computeds.size := by
      refine Classical.byContradiction fun hnot => ?_
      rw [Computed.known?, ha.fresh id (Nat.le_of_not_lt hnot), ite_self] at hvalue
      cases hvalue
    refine ⟨⟨hid.1, hlt⟩, ?_, fun hl => hprompt (hlate (.computed id) hid.1 hl)⟩
    rw [← hvalue, Computed.known?, Computed.known?, hcache,
      Computed.memoize_eq_of_base_eq (ha.rows id hlt).1]
  · have htuned : k.Tuned w id :=
      tuned_congr (by rw [hwatcher]) (by rw [hmemory]) hawake.toTuned
    refine ⟨⟨htuned, fun hl => hawake.prompt (hlate (.watcher id) hw hl), hidle (.watcher id) hw,
      haudible hw id htuned⟩, by rw [hwatcher], by rw [(hu _).dependencies], fun s hs htolds => ?_⟩
    have hlistened := Heeds.listed (x := .watcher id) h hw htuned.kept hs
    exact hawake.prompt (htold (.watcher id) hw s htolds hlistened)
  · rw [hmemory, hcache]
    exact h.once id hid
  · exact Nat.lt_of_lt_of_le (h.made id ((hu _).evaluates.mp hev)) ha.computeds

/-! ### Telling -/

/-- A source begins to tell its subscribers. Those that are gone are dropped, which no computed property
of the realm is. -/
theorem Heeds.tell (hk : k.Lawful) (h : k.Heeds late w)
    (hself : ∀ id, k.Scope w id → (k.query w id).Alike (k.query w id)) (hidle : k.Quiesces w)
    {s : SourceId} {live : List Subscriber} (hlive : ∀ y ∈ live, y ∈ (w.source s).subscribers)
    (halive : ∀ id, k.computed id → .computed id ∈ (w.source s).subscribers → .computed id ∈ live)
    (hlate : ∀ x, k.Has x → late x → late' x ∨ (x ∈ (w.source s).subscribers ∧ x ∉ live)) :
    k.Heeds late' ((w.mapSource s fun _ => ⟨live⟩).note k.application (.telling s live)) := by
  generalize hw' : (w.mapSource s fun _ => ⟨live⟩).note k.application (.telling s live) = w'
  have htrail : ∀ x, Trail.ofHistory x (k.record w'.memory)
      = (Trail.ofHistory x (k.record w.memory)).step x (.telling s live) := by
    intro x
    rw [← hw', World.note, hk.records, Trail.ofHistory]
    rfl
  have hobjects : w'.objects = w.objects := by
    rw [← hw']
    rfl
  have hevaluates : ∀ x, w'.Evaluates x ↔ w.Evaluates x := fun x =>
    evaluates_congr fun t => by rw [← hw']; rfl
  have hcomputed : ∀ id, w'.computed id = w.computed id := fun id => by rw [← hw']; rfl
  have hwatcher : ∀ id, w'.watcher id = w.watcher id := fun id => by rw [← hw']; rfl
  have hlists : ∀ x, w'.dependencies x = w.dependencies x := fun x => by
    rw [← hw', dependencies_note]
    exact dependencies_congr rfl rfl
  have hwait : ∀ id, k.computed id → late (.computed id) → late' (.computed id) := by
    intro id hid hl
    rcases hlate (.computed id) hid hl with hl' | ⟨hmem, hnot⟩
    · exact hl'
    · exact absurd (halive id hid hmem) hnot
  have hs : k.Shift (fun _ => False) (properties late) (properties late') w w' := by
    refine shift_of_rows hobjects (by rw [← hw']; rfl) (by rw [← hw']; exact Nat.le_refl _)
      (fun id => by rw [hcomputed]) hself (fun id => by rw [hlists]) ?_ fun _ _ _ _ => False.elim
    exact fun id hid hl => Or.inl (hwait id hid.1 hl)
  refine h.shift hs (fun x hx => ?_) (fun id hid => ?_) (fun id value hid hvalue hprompt => ?_)
    (fun hw id hawake => ?_) (fun id hid => ?_) ?_ fun id hev => ?_
  · have hpage := page_tell hk.records w s (hlive x)
    rw [hw'] at hpage
    rw [hpage, hevaluates]
    exact (h.books x hx).tell s _
  · rw [htrail, Trail.step, if_neg]
    · exact h.undropped id hid
    · rintro ⟨hmet, hnot⟩
      have hbooks := h.books (.computed id) hid
      have hcurrent : s ∈ (w.dependencies (.computed id)).current := by
        rcases hmet with hkept | hmet
        · refine (hbooks.kept ?_ s).mpr hkept
          rintro ⟨j, hj, -⟩
          cases hj
        · have hrest := hbooks.rest (hidle (.computed id) hid)
          change (Trail.ofHistory (.computed id) (k.record w.memory)).met = [] at hrest
          rw [hrest] at hmet
          cases hmet
      exact hnot (halive id hid (Heeds.listed (x := .computed id) h hid (h.undropped id hid) hcurrent))
  · rw [hcomputed] at hvalue
    refine ⟨⟨hid.1, ?_⟩, hvalue, fun hl => hprompt (hwait id hid.1 hl)⟩
    have hsize := hid.2
    rw [← hw'] at hsize
    exact hsize
  · have hdropped := hawake.kept
    rw [htrail, Trail.step] at hdropped
    split at hdropped
    · cases hdropped
    · next hnot =>
      have hdisposed : (w.watcher id).disposed = false := by
        rw [← hwatcher]
        exact hawake.lives
      have htuned : k.Tuned w id := ⟨by rw [← hwatcher]; exact hawake.home, hdisposed, hdropped⟩
      have hprompt : ¬ late (.watcher id) := by
        intro hl
        rcases hlate (.watcher id) hw hl with hl' | ⟨hmem, hgone⟩
        · exact hawake.prompt hl'
        · refine hnot ⟨Or.inl ?_, hgone⟩
          have hbooks := h.books (.watcher id) hw
          refine (hbooks.kept ?_ s).mp ?_
          · rintro ⟨j, hj, hover⟩
            cases hj
            rw [hdisposed] at hover
            cases hover
          · rcases hbooks.noted s hmem with hcurrent | hpending
            · exact hcurrent
            · rw [hbooks.idle (hidle (.watcher id) hw)] at hpending
              cases hpending
      have hheard : (k.afresh w).Along w.Heard (path w id) := by
        have hquiet : k.Quiet w w' := quiet_of_rows hobjects (by rw [← hw']; rfl) (by rw [← hw']; rfl)
          fun j => by rw [hcomputed]
        have hafter := hawake.heard
        rw [hquiet.afresh, heard_congr hobjects,
          path_congr (w := w) (by rw [hwatcher])] at hafter
        exact hafter
      exact ⟨⟨htuned, hprompt, hidle (.watcher id) hw, hheard⟩, by rw [hwatcher], by rw [hlists],
        fun _ _ hfalse => hfalse⟩
  · have hold := h.once id hid
    rw [hcomputed, ← hw', World.note, hk.records]
    exact hold.cons ⟨Occurrence.noConfusion, Occurrence.noConfusion⟩
  · rw [← hw']
    exact ⟨h.wired.proxy, h.wired.computed⟩
  · have hmade := h.made id ((hevaluates _).mp hev)
    rw [← hw']
    exact hmade

/-! ### Forgetting a value -/

end Realm

/-- The world in which a computed property has forgotten its value. -/
def World.forgetting (w : World Code Memory) (application : Application Code Memory) (id : ComputedId) :
    World Code Memory :=
  (w.note application (.updating (.computed id))).mapComputed id fun x => { x with cache := none }

namespace Realm

theorem computed_forgetting (w : World Code Memory) (application : Application Code Memory)
    (id j : ComputedId) : (w.forgetting application id).computed j
      = if j = id then { w.computed id with cache := none } else w.computed j :=
  computed_mapComputed (w.note application (.updating (.computed id))) id j _

theorem unmoved_forgetting (hk : k.Lawful) (w : World Code Memory) (id : ComputedId) :
    Unmoved k.record x w (w.forgetting k.application id) :=
  (unmoved_note hk.records w fun _ => rfl).trans (unmoved_mapComputed _ id fun _ => rfl)

/-- A computed property that is told of a change forgets its value, and whoever listens to it waits. -/
theorem Heeds.forget (hk : k.Lawful) (h : k.Heeds late w)
    (hself : ∀ id, k.Scope w id → (k.query w id).Alike (k.query w id)) (haudible : k.Audible w)
    {id : ComputedId}
    (hlate : ∀ x, k.Has x → late x → late' x ∨ x = .computed id)
    (htold : ∀ x, k.Has x → x ∈ (w.source (w.computed id).source).subscribers → late' x) :
    k.Heeds late' (w.forgetting k.application id) := by
  have hu : ∀ x, Unmoved k.record x w (w.forgetting k.application id) := fun x =>
    unmoved_forgetting hk w id
  have hsize : w.computeds.size ≤ (w.forgetting k.application id).computeds.size :=
    Table.size_le_modify _ _ _
  have hrecord : k.record (w.forgetting k.application id).memory
      = .updating (.computed id) :: k.record w.memory := hk.records _ w
  have hrow := computed_forgetting w k.application id
  have hbases : ∀ j, ((w.forgetting k.application id).computed j).base = (w.computed j).base := by
    intro j
    rw [hrow]
    split
    · next hj => rw [hj]; rfl
    · rfl
  have hlistens : ∀ {x s}, k.Has x → (Trail.ofHistory x (k.record w.memory)).dropped = false →
      s ∈ (w.dependencies x).current → s = (w.computed id).source → late' x := by
    intro x s hx hkept hs hsource
    exact htold x hx (hsource ▸ h.listed hx hkept hs)
  have hs : k.Shift (· = (w.computed id).source) (properties late) (properties late') w
      (w.forgetting k.application id) := by
    refine shift_of_rows rfl rfl hsize hbases hself (fun j => by rw [(hu _).dependencies]) ?_ ?_
    · intro j hj hl
      rcases hlate (.computed j) hj.1 hl with hl' | heq
      · exact Or.inl hl'
      · cases heq
        exact Or.inr rfl
    · exact fun j hj s hmem hsource => hlistens (x := .computed j) hj.1 (h.undropped j hj.1) hmem hsource
  have hdropped : ∀ x, (Trail.ofHistory x (k.record (w.forgetting k.application id).memory)).dropped
      = (Trail.ofHistory x (k.record w.memory)).dropped := by
    intro x
    rw [hrecord, Trail.ofHistory]
    rfl
  refine h.shift hs (fun x hx => ?_) (fun j hj => (hdropped _).trans (h.undropped j hj))
    (fun j value hj hvalue hprompt => ?_) (fun hw j hawake => ?_) (fun j hj => ?_) ?_ fun j hev => ?_
  · rw [(hu x).page, (hu x).evaluates]
    exact h.books x hx
  · have hne : j ≠ id := by
      rintro rfl
      rw [hrow, if_pos rfl, Computed.known?, ite_self] at hvalue
      cases hvalue
    rw [hrow, if_neg hne] at hvalue
    refine ⟨⟨hj.1, ?_⟩, hvalue, fun hl => ?_⟩
    · refine Classical.byContradiction fun hnot => ?_
      rw [Computed.known?, cache_of_size_le (Nat.le_of_not_lt hnot), ite_self] at hvalue
      cases hvalue
    · rcases hlate (.computed j) hj.1 hl with hl' | heq
      · exact hprompt hl'
      · exact hne (Subscriber.computed.inj heq)
  · have hface : ((w.forgetting k.application id).watcher j).face = (w.watcher j).face := rfl
    have htuned : k.Tuned w j := tuned_congr hface (hdropped _) hawake.toTuned
    refine ⟨⟨htuned, fun hl => ?_, fun hev => hawake.idle ((hu _).evaluates.mpr hev),
      haudible hw j htuned⟩, rfl, by rw [(hu _).dependencies], fun s hs hsource => ?_⟩
    · rcases hlate (.watcher j) hw hl with hl' | heq
      · exact hawake.prompt hl'
      · cases heq
    · exact hawake.prompt (hlistens (x := .watcher j) hw htuned.kept hs hsource)
  · have hold := h.once j hj
    rw [hrecord, hrow]
    by_cases hj' : j = id
    · subst hj'
      exact hold.updating
    · rw [if_neg hj']
      refine hold.cons ⟨fun heq => hj' ?_, Occurrence.noConfusion⟩
      exact (Subscriber.computed.inj (Occurrence.updating.inj heq)).symm
  · exact ⟨h.wired.proxy, fun object key j hslot =>
      Nat.lt_of_lt_of_le (h.wired.computed object key j hslot) hsize⟩
  · exact Nat.lt_of_lt_of_le (h.made j ((hu _).evaluates.mp hev)) hsize

/-! ### Watchers -/

/-- A watcher no longer waits once it knows. -/
theorem Heeds.learn (h : k.Heeds late w) (hsame : ∀ id, late' (.computed id) ↔ late (.computed id))
    (hknows : k.watchers → ∀ id, late (.watcher id) → k.Awake late' w id →
      k.Knows (properties late') w id) : k.Heeds late' w := by
  have hproperties : properties late' = properties late := funext fun id => propext (hsame id)
  refine ⟨h.books, h.undropped, fun id value hid hvalue hprompt => ?_, fun hw id hawake => ?_, h.once,
    h.wired, h.made⟩
  · rw [hproperties]
    exact h.kept id value hid hvalue fun hl => hprompt ((hsame id).mpr hl)
  · by_cases hl : late (.watcher id)
    · exact hknows hw id hl hawake
    · rw [hproperties]
      exact h.knows hw id ⟨hawake.toTuned, hl, hawake.idle, hawake.heard⟩

/-- The row of a watcher that waits may change. -/
theorem Heeds.rewatch (h : k.Heeds late w) {id : WatcherId} (hlate : late (.watcher id))
    (hobjects : w'.objects = w.objects) (hviewModels : w'.viewModels = w.viewModels)
    (hcomputeds : w'.computeds = w.computeds) (hmemory : w'.memory = w.memory)
    (htrackers : ∀ t, w'.tracker t = w.tracker t)
    (hothers : ∀ j, j ≠ id → w'.watcher j = w.watcher j)
    (hbooks : ∀ x, k.Has x → (w'.page k.record x).Agrees (w'.Evaluates x)) : k.Heeds late w' := by
  have hcomputed : ∀ j, w'.computed j = w.computed j := fun j => by
    rw [World.computed, hcomputeds, World.computed]
  have hquiet : k.Quiet w w' := quiet_of_rows hobjects hviewModels (by rw [hcomputeds])
    fun j => by rw [hcomputed]
  have hlists : ∀ j, w'.dependencies (.computed j) = w.dependencies (.computed j) := fun j => by
    rw [World.dependencies, hcomputed, World.dependencies]
  have ho : k.Onward (properties late) w w' :=
    hquiet.onward (heard_congr hobjects) fun j _ => Or.inl (by rw [hlists])
  have hwired : w'.Wired := by
    have hobject : ∀ object, w'.object object = w.object object := fun object => by
      rw [World.object, hobjects, World.object]
    refine ⟨fun object key target name hslot => ?_, fun object key j hslot => ?_⟩
    · rw [hobject] at hslot
      exact h.wired.proxy object key target name hslot
    · rw [hobject] at hslot
      rw [hcomputeds]
      exact h.wired.computed object key j hslot
  refine h.onward ho hbooks (fun x _ => by rw [hmemory]) (fun j value _ hvalue => Or.inl ?_)
    (fun _ j hj => ?_) (fun _ j _ hj => (evaluates_congr htrackers).mpr hj) (fun j hj => ?_) hwired
    fun j hj => Or.inl ((evaluates_congr htrackers).mp hj)
  · rw [hcomputed] at hvalue
    exact hvalue
  · have hrow : w'.watcher j = w.watcher j := hothers j fun heq => hj (heq ▸ hlate)
    simp only [World.dependencies, hrow, and_self]
  · rw [hmemory, hcomputed]
    exact h.once j hj

theorem quiet_closing (w₁ : World Code Memory) (t : TrackerId) (id : WatcherId)
    (r : Except Error Value) : k.Quiet w₁ (w₁.closing k.application t (.watcher id) r) :=
  quiet_of_rows (closing_tables w₁ t _ r).1 (closing_tables w₁ t _ r).2
    (size_closing w₁ t r fun _ => Subscriber.noConfusion)
    fun j => Computed.base_eq_of_face_eq (faces_closing w₁ t _ r j)

/-- A watcher evaluates for itself alone. -/
theorem onward_closing (w₁ : World Code Memory) (t : TrackerId) (id : WatcherId)
    (r : Except Error Value) : k.Onward waits w₁ (w₁.closing k.application t (.watcher id) r) :=
  (quiet_closing w₁ t id r).onward (heard_congr (closing_tables w₁ t _ r).1) fun j _ => Or.inl (by
    rw [dependencies_closing fun _ => Subscriber.noConfusion, if_neg Subscriber.noConfusion])

/-- A watcher that waits has evaluated. -/
theorem Heeds.closing_watcher (hk : k.Lawful) (h : k.Heeds late w₁) {id : WatcherId} {t : TrackerId}
    (hlate : late (.watcher id))
    (htrackers : ∀ j, w₁.tracker j = (w.opening k.application t (.watcher id)).tracker j)
    (hidle : ¬ w.Evaluates (.watcher id)) (r : Except Error Value) :
    k.Heeds late (w₁.closing k.application t (.watcher id) r) := by
  have hobjects : (w₁.closing k.application t (.watcher id) r).objects = w₁.objects :=
    (closing_tables w₁ t _ r).1
  have hfaces : ∀ j, ((w₁.closing k.application t (.watcher id) r).computed j).face
      = (w₁.computed j).face := faces_closing w₁ t _ r
  have hlists : ∀ x, x ≠ .watcher id →
      (w₁.closing k.application t (.watcher id) r).dependencies x = w₁.dependencies x := fun x hx => by
    rw [dependencies_closing fun _ => Subscriber.noConfusion, if_neg hx]
  have hrecord := record_closing hk.records w₁ t (.watcher id) r
  refine h.onward (onward_closing w₁ t id r) (fun x hx => ?_) (fun x _ => ?_)
    (fun j value _ hvalue => Or.inl ?_) (fun _ j hj => ⟨face_closing w₁ k.application t _ r j, ?_⟩)
    (fun _ j hj hev => ?_) (fun j hj => ?_)
    ⟨fun object key target name hslot => ?_, fun object key j hslot => ?_⟩ fun j hj => Or.inl ?_
  · by_cases hxid : Subscriber.watcher id = x
    · subst hxid
      rw [evaluates_closing htrackers, eq_false hidle]
      have hbooks : w₁.InOrder k.record (.watcher id) False := by
        refine ⟨h.books _ hx, fun j _ _ => Or.inr (Or.inr ⟨fun hmade => hmade, ?_⟩)⟩
        exact (evaluates_inside htrackers).mpr (Or.inl rfl)
      exact (hbooks.closing_self hx.not_probe hk.records hidle t htrackers r).1
    · have hu : Unmoved k.record x w₁ (w₁.closing k.application t (.watcher id) r) :=
        unmoved_closing hk.records hxid t htrackers r
      rw [hu.page, hu.evaluates]
      exact h.books x hx
  · rw [hrecord, Trail.ofHistory]
    exact Trail.dropped_step x _ fun _ _ => Occurrence.noConfusion
  · rw [Computed.known?_eq_of_face_eq (hfaces j)] at hvalue
    exact hvalue
  · have hne : Subscriber.watcher j ≠ .watcher id := fun heq => hj (heq ▸ hlate)
    rw [hlists _ hne]
  · have hne : ¬ Subscriber.watcher id = .watcher j := fun heq => hj (heq ▸ hlate)
    exact (evaluates_closing htrackers r).mpr (((evaluates_inside htrackers).mp hev).resolve_left hne)
  · rw [hrecord, Computed.cache_eq_of_face_eq (hfaces j)]
    exact (h.once j hj).cons ⟨Occurrence.noConfusion, fun heq => by cases heq⟩
  · rw [World.object, hobjects, ← World.object] at hslot
    exact h.wired.proxy object key target name hslot
  · rw [World.object, hobjects, ← World.object] at hslot
    rw [(quiet_closing w₁ t id r).size]
    exact h.wired.computed object key j hslot
  · exact (evaluates_inside htrackers).mpr (Or.inr ((evaluates_closing htrackers r).mp hj))

/-- A watcher is torn down. -/
theorem Heeds.teardown (h : k.Heeds late w) (hidle : k.Quiesces w) (id : WatcherId) :
    k.Heeds late (w.teardownWatcher id) := by
  cases hdisposed : (w.watcher id).disposed with
  | true =>
    rw [teardownWatcher_of_disposed hdisposed]
    exact h
  | false =>
    have heq := teardownWatcher_eq w id
    have htrackers := tracker_teardownWatcher w id
    have hexcused : k.Heeds (fun x => late x ∨ x = .watcher id) w := by
      refine h.learn (fun j => or_iff_left Subscriber.noConfusion) fun _ j hl hawake => ?_
      exact absurd (Or.inl hl) hawake.prompt
    have hafter : k.Heeds (fun x => late x ∨ x = .watcher id) (w.teardownWatcher id) := by
      refine hexcused.rewatch (Or.inr rfl) (by rw [heq]) (by rw [heq]) (by rw [heq]) (by rw [heq])
        htrackers (fun j hj => watcher_teardownWatcher_of_ne hj) fun x hx => ?_
      by_cases hxid : Subscriber.watcher id = x
      · have hover : ¬ w.IsOver x := by
          rintro ⟨j, hj, hover⟩
          rw [← hxid, Subscriber.watcher.injEq] at hj
          rw [← hj, hdisposed] at hover
          cases hover
        rw [page_teardown w hxid.symm hover, evaluates_congr htrackers]
        exact (h.books x hx).close (hidle x hx)
      · have hu : Unmoved k.record x w (w.teardownWatcher id) := unmoved_teardownWatcher w hxid
        rw [hu.page, hu.evaluates]
        exact h.books x hx
    refine hafter.learn (fun j => (or_iff_left Subscriber.noConfusion).symm) fun _ j hl hawake => ?_
    rcases hl with hl | hj
    · exact absurd hl hawake.prompt
    · cases hj
      have hrow := (teardownWatcher_of_serves hdisposed).1 id
      have hlives := hawake.lives
      rw [hrow, if_pos rfl] at hlives
      cases hlives

end Realm

end ViewBinding
