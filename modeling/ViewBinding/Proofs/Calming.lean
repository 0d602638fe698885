import ViewBinding.Proofs.Editing

/-!
# Writes that nobody hears of

As long as nobody is registered with the fields of a document, reading them for nobody changes nothing, and a write to
one of them tells nobody: it comes to an end, one field is overwritten, and everything else stays calm, which is to say
that no other object holds anything else and that still nobody is registered.
-/

namespace ViewBinding

variable {Code Memory : Type}

namespace World

/-! ### Calm -/

/-- Nobody is registered with the source of a field of an object. -/
def Unheard (w : World Code Memory) (id : ObjectId) : Prop :=
  ∀ key value source, (w.object id).slot? key = some (.field value (some source)) →
    (w.source source).subscribers = []

variable {w w₁ w₂ : World Code Memory} {kept : ObjectId → Prop}

/-- Certain objects hold what they held, and nobody has registered with a field. -/
structure Calm (kept : ObjectId → Prop) (w w' : World Code Memory) : Prop extends Intact kept w w' where
  viewModels : w'.viewModels = w.viewModels
  unheard (id : ObjectId) : w.Unheard id → w'.Unheard id

theorem Calm.trans (h : Calm kept w w₁) (h' : Calm kept w₁ w₂) : Calm kept w w₂ :=
  ⟨h.toIntact.trans h'.toIntact, h'.viewModels.trans h.viewModels, fun id hid => h'.unheard id (h.unheard id hid)⟩

theorem Calm.mono {fewer : ObjectId → Prop} (h : Calm kept w w₁) (hfewer : ∀ id, fewer id → kept id) :
    Calm fewer w w₁ :=
  ⟨h.toIntact.mono hfewer, h.viewModels, h.unheard⟩

/-- Nothing that a document depends on was written. -/
theorem calm_of_eq (hobjects : w₁.objects = w.objects) (harrays : w₁.arrays = w.arrays)
    (hsources : w₁.sources = w.sources) (hviewModels : w₁.viewModels = w.viewModels) : Calm kept w w₁ := by
  have hobject : ∀ id, w₁.object id = w.object id := fun id => congrArg (Table.get · id) hobjects
  refine ⟨⟨⟨Nat.le_of_eq (congrArg Table.size hobjects.symm), fun id _ => ?_⟩, ?_⟩, hviewModels, ?_⟩
  · exact contents_congr (congrArg Object.slots (hobject id))
  · exact Nat.le_of_eq (congrArg Table.size harrays.symm)
  · intro id hunheard key value source hslot
    rw [hobject] at hslot
    rw [World.source, hsources]
    exact hunheard key value source hslot

theorem Calm.refl (w : World Code Memory) : Calm kept w w :=
  calm_of_eq rfl rfl rfl rfl

theorem calm_keep (w : World Code Memory) (held : List Ref) : Calm kept w { w with held } :=
  calm_of_eq rfl rfl rfl rfl

theorem calm_quieten (w : World Code Memory) (source : SourceId) :
    Calm kept w (w.mapSource source fun _ => ⟨[]⟩) := by
  refine ⟨⟨⟨Nat.le_refl _, fun _ _ => rfl⟩, Nat.le_refl _⟩, rfl, fun id hunheard key value other hslot => ?_⟩
  rw [source_mapSource]
  split
  · rfl
  · exact hunheard key value other hslot

theorem unheard_of_unobserved {id : ObjectId} (h : (w.object id).Unobserved) : w.Unheard id :=
  fun _ _ _ hslot => nomatch h.sourceless hslot

theorem calm_load (w : World Code Memory) (json : Json) :
    Calm (fun id => id.index < w.objects.size) w (w.load json).2 := by
  have hloads := loads_load w json
  refine ⟨hloads.intact, hloads.viewModels, fun id hunheard => ?_⟩
  by_cases hid : id.index < w.objects.size
  · intro key value source hslot
    rw [hloads.kept id hid] at hslot
    rw [World.source, hloads.sources]
    exact hunheard key value source hslot
  · exact unheard_of_unobserved (hloads.unobserved id (Nat.le_of_not_lt hid))

/-! ### Nobody is evaluating -/

theorem sameData_paused (w : World Code Memory) (reader : Option TrackerId) : w.SameData (w.paused reader) := by
  cases reader with
  | none => exact .refl w
  | some t => exact SameFace.data_congr (.refl w)

theorem current?_paused (w : World Code Memory) (reader : Option TrackerId) :
    (w.paused reader).current? reader = none := by
  cases reader with
  | none => rfl
  | some t => simp [paused, current?, tracker_mapTracker, Tracker.push, Tracker.current?]

theorem calm_paused (w : World Code Memory) (reader : Option TrackerId) : Calm kept w (w.paused reader) := by
  cases reader with
  | none => exact .refl w
  | some t => exact calm_of_eq rfl rfl rfl rfl

theorem calm_resumed (w : World Code Memory) (reader : Option TrackerId) : Calm kept w (w.resumed reader) := by
  cases reader with
  | none => exact .refl w
  | some t => exact calm_of_eq rfl rfl rfl rfl

/-! ### Overwriting a field -/

/-- A field was stored and nothing else that was there was touched. What is stored is the value, unless this is the same
as what was there. -/
structure Overwrites (old value : Value) (holder : ObjectId) (name : String) (w w' : World Code Memory) : Prop where
  calm : Calm (fun id => id.index < w.objects.size ∧ id ≠ holder) w w'
  stored : ∃ stored, (stored = value ∨ stored = old ∧ old.same value = true) ∧ w.Stored holder name stored w'

/-- What happens before and after does not touch the objects that are there. -/
theorem Overwrites.between {old value : Value} {holder : ObjectId} {name : String} {w₃ : World Code Memory}
    (h : w₁.Overwrites old value holder name w₂) (hpresent : holder.index < w.objects.size)
    (hbefore : Calm (fun id => id.index < w.objects.size) w w₁)
    (hafter : Calm (fun id => id.index < w₁.objects.size) w₂ w₃) : w.Overwrites old value holder name w₃ := by
  obtain ⟨stored, hor, hstored⟩ := h.stored
  have hthere : ∀ id : ObjectId, id.index < w.objects.size → id.index < w₁.objects.size := fun id hid =>
    Nat.lt_of_lt_of_le hid hbefore.heap
  refine ⟨?_, stored, hor, ?_⟩
  · refine (hbefore.mono fun id hid => hid.1).trans (Calm.trans ?_ (hafter.mono fun id hid => hthere id hid.1))
    exact h.calm.mono fun id hid => ⟨hthere id hid.1, hid.2⟩
  · exact (hstored.since hpresent hbefore.toUntouched).rests hpresent (hafter.toUntouched.mono hthere)

/-! ### Arriving at a field -/

/-- A path leads to a field that nobody is registered with. -/
structure Arrives (w : World Code Memory) (root : Value) (path : Path) (holder : ObjectId) (old : Value) : Prop where
  reached : ∃ visited object, w.passage root path.parents = some (visited, .object object) ∧
    w.resolve object path.last = (holder, path.last)
  field : ∃ source, (w.object holder).slot? path.last = some (.field old source)
  unheard : w.Unheard holder

section Arriving

variable {root data holder : ObjectId} {first : String} {path : Path} {value old : Value} {source : Option SourceId}

theorem resolve_of_proxy (hproxy : (w.object root).slot? first = some (.proxy data first))
    (hdata : (w.object data).slot? first = some (.field value source)) : w.resolve root first = (data, first) := by
  have hsize := index_lt_of_slot? hproxy
  obtain ⟨steps, hsteps⟩ : ∃ n, w.objects.size = n + 1 := ⟨w.objects.size - 1, by omega⟩
  rw [resolve, hsteps, follow_proxy hproxy]
  apply follow_of_not_proxy
  intro target name hother
  rw [hdata] at hother
  cases hother

/-- A root with a proxy for the first key leads wherever the data leads. -/
theorem arrives_of_proxy {rest : List String} (hsegments : path.segments = first :: rest)
    (hproxy : (w.object root).slot? first = some (.proxy data first))
    (hdata : (w.object data).slot? first = some (.field value source)) {visited : List (ObjectId × String)}
    (hpassage : w.passage (.object data) path.parents = some (visited, .object holder))
    (hfield : ∃ source, (w.object holder).slot? path.last = some (.field old source)) (hunheard : w.Unheard holder) :
    w.Arrives (.object root) path holder old := by
  refine ⟨?_, hfield, hunheard⟩
  have hresolve := resolve_of_proxy hproxy hdata
  rw [← path.parents_concat] at hsegments
  cases hparents : path.parents with
  | nil =>
    rw [hparents] at hpassage hsegments
    cases hpassage
    obtain ⟨rfl, -⟩ := List.cons.inj hsegments
    exact ⟨[], root, rfl, hresolve⟩
  | cons parent more =>
    rw [hparents] at hpassage hsegments
    obtain ⟨rfl, -⟩ := List.cons.inj hsegments
    obtain ⟨next, onward, hnext, honward, rfl⟩ := passage_object.mp hpassage
    obtain ⟨source', hlast⟩ := hfield
    refine ⟨_, holder, passage_object.mpr ⟨next, onward, ?_, honward, rfl⟩, resolve_of_field hlast⟩
    rw [slotAt, hresolve, ← resolve_of_field hdata]
    exact hnext

end Arriving

/-! ### Objects change -/

variable [Inhabited Code]

theorem calm_putSlot {object : ObjectId} {key : String} {slot : Slot}
    (hslot : ∀ value source, slot = .field value (some source) →
      ∃ old, (w.object object).slot? key = some (.field old (some source))) :
    Calm (· ≠ object) w (w.putSlot object key slot) := by
  have hchanges := changesAt_putSlot w object key slot
  refine ⟨⟨⟨hchanges.heap, fun _ => contents_putSlot_of_ne key slot⟩, Nat.le_refl _⟩, rfl, ?_⟩
  intro id hunheard name value source hfield
  by_cases hsame : id = object ∧ name = key
  · obtain ⟨rfl, rfl⟩ := hsame
    rw [slot?_putSlot] at hfield
    obtain ⟨old, hold⟩ := hslot value source (Option.some.inj hfield)
    exact hunheard name old source hold
  · rw [hchanges.slots id name (not_and_or.mp hsame)] at hfield
    exact hunheard name value source hfield

theorem calm_instrument (w : World Code Memory) (object : ObjectId) : Calm kept w (w.instrument object) := by
  have hinstruments := instruments w object
  have hraises := raises_instrument w object
  obtain ⟨hthread, -⟩ := thread_equip_sources w (w.object object).slots.toList
  have harrays : (w.instrument object).arrays = w.arrays := by
    change (Entries.thread equip (w.object object).slots.toList w).2.arrays = _
    rw [hthread]
  refine ⟨⟨⟨hinstruments.heap, fun id _ => contents_instrument w object id⟩, ?_⟩, hraises.viewModels, ?_⟩
  · exact Nat.le_of_eq (congrArg Table.size harrays.symm)
  · intro id hunheard key value source hslot
    rw [hraises.sources]
    rcases hinstruments.slot? hslot with ⟨hold, -⟩ | ⟨-, _, new, -, heq, hnew, -⟩
    · exact hunheard key value source hold
    · -- a source that has just been made lists nobody
      cases heq
      rw [World.source, w.sources.get_of_size_le hnew]
      rfl

theorem calm_observe (w : World Code Memory) (value : Value) : Calm kept w (w.observe value) := by
  have hfold : ∀ (l : List ObjectId) (w : World Code Memory), Calm kept w (l.foldl instrument w) := by
    intro l
    induction l with
    | nil => exact fun w => .refl w
    | cons object rest inductionHypothesis =>
      exact fun w => (calm_instrument w object).trans (inductionHypothesis _)
  exact hfold _ w

end World

namespace Engine

variable [Inhabited Code] {c : Reentry Code Memory} {w : World Code Memory} {reader : Option TrackerId}
  {object holder : ObjectId} {key name : String} {value old root reached : Value} {path : Path}

/-! ### Reading for nobody -/

theorem readSlot_unread (hreader : w.current? reader = none) {slot : Option Slot}
    (hslot : Slot.stored? slot = some value) :
    readSlot c holder name reader slot w = some (.ok value, w) := by
  match slot, hslot with
  | some (.field _ none), rfl => rfl
  | some (.constant _), rfl => rfl
  | some (.field _ (some source)), rfl =>
    have hdepend : depend c reader source w = some (.ok (), w) := by
      simp only [depend, update, hreader]
    exact bind_of_run hdepend

/-- Where nobody is evaluating, a stored value is read and nothing happens. -/
theorem get_unread (hreader : w.current? reader = none) (hslot : Slot.stored? (w.slotAt object key) = some value) :
    get c object key reader w = some (.ok value, w) := by
  let held := [Ref.object object, .object (w.resolve object key).1] ++ w.held
  have hread : readSlot c (w.resolve object key).1 (w.resolve object key).2 reader (w.slotAt object key)
      { w with held } = some (.ok value, { w with held }) :=
    readSlot_unread (w := { w with held }) hreader hslot
  exact keeping_of_run (v := { w with held }) hread

theorem walk_unread (hreader : w.current? reader = none) (owner : Option String) {segments : List String}
    {visited : List (ObjectId × String)} (hpassage : w.passage root segments = some (visited, reached)) :
    walk c path reader owner root segments w = some (.ok reached, w) := by
  induction segments generalizing root visited owner with
  | nil =>
    cases hpassage
    rfl
  | cons segment rest inductionHypothesis =>
    cases root with
    | object object =>
      obtain ⟨next, onward, hnext, honward, -⟩ := World.passage_object.mp hpassage
      rw [walk, bind_of_run (get_unread hreader hnext)]
      exact inductionHypothesis (some segment) honward
    | array id items => exact inductionHypothesis (some segment) hpassage
    | _ => cases hpassage

/-- A write that arrives at an object writes a property of it. -/
theorem writePath_unread {visited : List (ObjectId × String)}
    (hpassage : w.passage root path.parents = some (visited, .object object)) :
    writePath c root path value reader w
      = (set c object path.last value (w.paused reader)).map fun p => (p.1, p.2.resumed reader) := by
  have hpaused := (World.sameFace_paused (fun _ => []) w reader value).data
  have hwalk : keeping value.refs (walk c path reader none root path.parents) (w.paused reader)
      = some (.ok (.object object), w.paused reader) := by
    have hthere := (hpaused.passage_eq path.parents root).trans hpassage
    have hnobody := World.current?_paused w reader
    generalize w.paused reader = v at hthere hnobody
    have hread : walk c path reader none root path.parents { v with held := value.refs ++ v.held }
        = some (.ok (.object object), { v with held := value.refs ++ v.held }) :=
      walk_unread (w := { v with held := value.refs ++ v.held }) hnobody none hthere
    exact keeping_of_run (v := { v with held := value.refs ++ v.held }) hread
  rw [writePath, framed_none, bind_of_run hwalk]

/-! ### Writing what nobody hears of -/

/-- Notifying a source that lists nobody comes to an end, and everything stays calm. -/
def Unheeded (c : Reentry Code Memory) : Prop :=
  ∀ source w, (w.source source).subscribers = [] →
    ∃ w', c.notify source w = some (.ok (), w') ∧ World.Calm (fun _ => True) w w'

theorem unheeded_reentry (application : Application Code Memory) (depth : Nat) :
    Unheeded (reentry application (depth + 1)) := by
  intro source w hnobody
  have hlive : w.liveSubscribers (application.holds w.memory) source = [] := by
    rw [World.liveSubscribers, hnobody]
    rfl
  have happlication : (reentry application depth).application = application := by
    cases depth <;> rfl
  have hfind : inspect (fun v : World Code Memory => v.liveSubscribers (application.holds v.memory) source) w
      = some (.ok [], w) := by
    rw [inspect, hlive]
  have htold : Engine.notify (reentry application depth) source w
      = some (.ok (), (w.mapSource source fun _ => ⟨[]⟩).note application (.telling source [])) := by
    rw [notify, happlication, bind_of_run hfind]
    simp only [note, happlication]
    rfl
  exact ⟨_, htold, (World.calm_quieten w source).trans (World.calm_of_eq rfl rfl rfl rfl)⟩

omit [Inhabited Code] in
/-- What is kept alive meanwhile makes no difference to what is overwritten. -/
theorem exists_keeping {refs : List Ref} {x : Engine Code Memory Unit} (hpresent : holder.index < w.objects.size)
    (h : ∃ v, x { w with held := refs ++ w.held } = some (.ok (), v) ∧
      World.Overwrites old value holder name { w with held := refs ++ w.held } v) :
    ∃ w', keeping refs x w = some (.ok (), w') ∧ w.Overwrites old value holder name w' := by
  obtain ⟨v, hrun, hover⟩ := h
  exact ⟨_, keeping_of_run hrun, hover.between hpresent (World.calm_keep w _) (World.calm_keep v w.held)⟩

section Writing

variable {source : Option SourceId} (hunheeded : Unheeded c)
  (hfield : (w.object holder).slot? name = some (.field old source)) (hunheard : w.Unheard holder)

include hunheeded hfield hunheard

theorem writeSlot_unheard (value : Value) : ∃ w', writeSlot c holder name value ((w.object holder).slot? name) w
    = some (.ok (), w') ∧ w.Overwrites old value holder name w' := by
  rw [hfield]
  simp only [writeSlot]
  split
  · next hsame => exact ⟨w, rfl, .refl w, old, .inr ⟨rfl, hsame⟩, World.stored_field hfield⟩
  · have hput : World.Calm (fun id => id.index < w.objects.size ∧ id ≠ holder) w
        (w.putSlot holder name (.field value source)) :=
      (World.calm_putSlot fun _ _ heq => ⟨old, by cases heq; exact hfield⟩).mono fun _ hid => hid.2
    cases source with
    | none => exact ⟨_, rfl, hput, value, .inl rfl, .of_putSlot (.refl w) (.refl _)⟩
    | some source =>
      let observed := (w.putSlot holder name (.field value (some source))).observe value
      let held := Ref.object holder :: value.refs ++ observed.held
      have hnobody : (observed.source source).subscribers = [] := by
        rw [(World.raises_observe _ value).sources]
        exact hunheard name old source hfield
      obtain ⟨told, hnotify, hcalm⟩ := hunheeded source { observed with held } hnobody
      have hrest := ((World.calm_observe _ value).trans ((World.calm_keep observed held).trans hcalm)).trans
        (World.calm_keep told observed.held)
      exact ⟨_, keeping_of_run hnotify, hput.trans (hrest.mono fun _ _ => trivial), value, .inl rfl,
        .of_putSlot (.refl w) hrest.toUntouched⟩

theorem set_unheard {object : ObjectId} {key : String} (hresolve : w.resolve object key = (holder, name))
    (value : Value) : ∃ w', set c object key value w = some (.ok (), w') ∧ w.Overwrites old value holder name w' := by
  have hfind : inspect (·.resolve object key) w = some (.ok (holder, name), w) := by rw [inspect, hresolve]
  rw [set, bind_of_run hfind]
  apply exists_keeping (World.index_lt_of_slot? hfield)
  let u : World Code Memory := { w with held := (if holder = object then [] else [.object object]) ++ w.held }
  exact writeSlot_unheard (w := u) hunheeded hfield hunheard value

omit hfield hunheard in
/-- A write to a field that nobody is registered with overwrites the field and comes to an end. -/
theorem writePath_unheard (h : w.Arrives root path holder old) (value : Value) (reader : Option TrackerId) :
    ∃ w', writePath c root path value reader w = some (.ok (), w') ∧
      w.Overwrites old value holder path.last w' := by
  obtain ⟨visited, object, hpassage, hresolve⟩ := h.reached
  obtain ⟨source, hfield⟩ := h.field
  have hpaused : World.Calm (fun id => id.index < w.objects.size) w (w.paused reader) := World.calm_paused w reader
  have hsame := World.sameData_paused w reader
  have hresolve' := (hsame.resolve_eq object path.last).trans hresolve
  have hfield' : ((w.paused reader).object holder).slot? path.last = some (.field old source) := by
    rw [Object.slot?, hsame.slots]
    exact hfield
  obtain ⟨v, hrun, hover⟩ := set_unheard hunheeded hfield' (hpaused.unheard holder h.unheard) hresolve' value
  refine ⟨v.resumed reader, ?_,
    hover.between (World.index_lt_of_slot? hfield) hpaused (World.calm_resumed v reader)⟩
  rw [writePath_unread hpassage, hrun]
  rfl

end Writing

end Engine

end ViewBinding
