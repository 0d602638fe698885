import ViewBinding.Proofs.Observed
import ViewBinding.Proofs.Upkeep

/-!
# What keeps sources in order

Every change of a world that the engine makes leaves sources in order and lets keys keep their sources:
storing and writing fields, waiting for keys, observing values, and making view models.
-/

namespace ViewBinding.World

variable {Code Memory : Type} [Inhabited Code]

/-- Every key has kept its source, and nothing it rests on has been taken away. -/
structure Evolves (w w' : World Code Memory) : Prop extends w.Grows w' where
  keeps : w.KeepsSources w'

section

variable {w w₁ w₂ : World Code Memory} {pending pending' : ObjectId → Prop}

theorem Evolves.trans (h : w.Evolves w₁) (h' : w₁.Evolves w₂) : w.Evolves w₂ :=
  ⟨h.toGrows.trans h'.toGrows, h.keeps.trans h'.keeps h.toGrows h'.toGrows⟩

theorem Steady.evolves (h : w.Steady w₁) : w.Evolves w₁ :=
  ⟨h.toGrows, h.keepsSources⟩

theorem Sourced.mono (hw : w.Sourced pending) (h : ∀ id, pending id → pending' id) :
    w.Sourced pending' where
  field := hw.field
  child hobserved hslot := (hw.child hobserved hslot).imp_right (h _)
  unique := hw.unique
  awaiting := hw.awaiting
  arrived := hw.arrived
  fresh := hw.fresh
  made := hw.made

/-! ### Changes that leave the objects alone -/

theorem steady_of_eq (hobjects : w₁.objects = w.objects) (hsources : w.sources.size ≤ w₁.sources.size)
    (hcomputeds : w₁.computeds = w.computeds) (hviewModels : w₁.viewModels = w.viewModels) :
    w.Steady w₁ where
  heap := hobjects ▸ Nat.le_refl _
  sources := hsources
  computeds := hcomputeds ▸ Nat.le_refl _
  computed id _ := by
    rw [World.computed, hcomputeds, World.computed]
    exact ⟨rfl, rfl, rfl⟩
  viewModels := hviewModels ▸ Nat.le_refl _
  data id _ := by rw [World.viewModel, hviewModels, World.viewModel]
  objects id := by rw [World.object, hobjects, World.object]

theorem Fringe.steady (h : w.Fringe w₁) : w.Steady w₁ where
  heap := h.objects ▸ Nat.le_refl _
  sources := h.sources ▸ Nat.le_refl _
  computeds := h.computeds ▸ Nat.le_refl _
  computed id _ := by
    rw [World.computed, h.computeds, World.computed]
    exact ⟨rfl, rfl, rfl⟩
  viewModels := h.size
  data id _ := (congrArg ViewModel.data (h.viewModels id) :)
  objects id := by rw [World.object, h.objects, World.object]

variable (w)

theorem steady_mapSource (s : SourceId) (f : Source → Source) : w.Steady (w.mapSource s f) :=
  steady_of_eq rfl (Table.size_le_modify _ _ _) rfl rfl

theorem steady_addSource : w.Steady w.addSource.2 :=
  steady_of_eq rfl (Table.size_add w.sources _ ▸ Nat.le_succ _) rfl rfl

theorem steady_addObject : w.Steady w.addObject.2 where
  toGrows := ⟨Table.size_add w.objects _ ▸ Nat.le_succ _, Nat.le_refl _, Nat.le_refl _, fun _ _ => ⟨rfl, rfl, rfl⟩,
    Nat.le_refl _, fun _ _ => rfl⟩
  objects := Table.get_add_default w.objects

theorem steady_mapComputed (id : ComputedId) {f : Computed Code → Computed Code}
    (hf : ∀ x, (f x).name = x.name ∧ (f x).getter = x.getter ∧ (f x).source = x.source) :
    w.Steady (w.mapComputed id f) where
  heap := Nat.le_refl _
  sources := Nat.le_refl _
  computeds := Table.size_le_modify _ _ _
  computed j _ := by
    rw [computed_mapComputed]
    split
    · next h => exact h ▸ hf _
    · exact ⟨rfl, rfl, rfl⟩
  viewModels := Nat.le_refl _
  data _ _ := rfl
  objects _ := rfl

theorem steady_addComputed (x : Computed Code) : w.Steady (w.addComputed x).2 where
  heap := Nat.le_refl _
  sources := Nat.le_refl _
  computeds := Table.size_add w.computeds x ▸ Nat.le_succ _
  computed id hid := by
    have hget : (w.addComputed x).2.computed id = w.computed id := by
      refine Table.get_add_of_ne w.computeds x ?_
      rintro rfl
      rw [Table.index_fresh] at hid
      exact Nat.lt_irrefl _ hid
    rw [hget]
    exact ⟨rfl, rfl, rfl⟩
  viewModels := Nat.le_refl _
  data _ _ := rfl
  objects _ := rfl

theorem steady_addViewModel (x : ViewModel Code) : w.Steady (w.addViewModel x).2 where
  heap := Nat.le_refl _
  sources := Nat.le_refl _
  computeds := Nat.le_refl _
  computed _ _ := ⟨rfl, rfl, rfl⟩
  viewModels := Table.size_add w.viewModels x ▸ Nat.le_succ _
  data id hid := by
    change (Table.get (w.viewModels.add x) id).data = _
    rw [Table.get_add_of_ne]
    · rfl
    · rintro rfl
      rw [Table.index_fresh] at hid
      exact Nat.lt_irrefl _ hid
  objects _ := rfl

theorem steady_mapDependencies (subscriber : Subscriber) (f : Dependencies → Dependencies) :
    w.Steady (w.mapDependencies subscriber f) := by
  cases subscriber with
  | watcher id => exact steady_of_eq rfl (Nat.le_refl _) rfl rfl
  | computed id => exact steady_mapComputed w id fun _ => ⟨rfl, rfl, rfl⟩
  | probe id => exact .refl w

theorem steady_unregisterAll (subscriber : Subscriber) (l : List SourceId) :
    w.Steady (w.unregisterAll subscriber l) := by
  induction l generalizing w with
  | nil => exact .refl w
  | cons source rest inductionHypothesis =>
    exact (steady_mapSource w source _).trans (inductionHypothesis _)

theorem steady_settle (subscriber : Subscriber) : w.Steady (w.settle subscriber) :=
  (steady_mapDependencies w subscriber _).trans (steady_unregisterAll _ _ _)

theorem steady_teardownWatcher (id : WatcherId) : w.Steady (w.teardownWatcher id) := by
  unfold teardownWatcher
  split
  · exact .refl w
  · refine Steady.trans ?_ ((steady_mapDependencies _ _ _).trans (steady_unregisterAll _ _ _))
    exact steady_of_eq rfl (Nat.le_refl _) rfl rfl

end

/-! ### Instrumenting an object -/

/-- What equipping makes of a slot. New sources are numbered from `m` up, below `n`. -/
inductive Equipped (m n : Nat) : Slot → Slot → Prop
  | new {value : Value} {s : SourceId} (hle : m ≤ Key.index s) (hlt : Key.index s < n) :
      Equipped m n (.field value none) (.field value (some s))
  | same {slot : Slot} (h : ∀ value, slot ≠ .field value none) : Equipped m n slot slot

theorem Equipped.mono {m m' n n' : Nat} {slot slot' : Slot} (h : Equipped m n slot slot')
    (hm : m' ≤ m) (hn : n ≤ n') : Equipped m' n' slot slot' := by
  cases h with
  | new hle hlt => exact .new (Nat.le_trans hm hle) (Nat.lt_of_lt_of_le hlt hn)
  | same h => exact .same h

omit [Inhabited Code] in
/-- Only new sources are added when a slot is equipped. -/
theorem equip_spec (w : World Code Memory) (slot : Slot) :
    (w.equip slot).2 = { w with sources := (w.equip slot).2.sources } ∧
      w.sources.size ≤ (w.equip slot).2.sources.size ∧
      Equipped w.sources.size (w.equip slot).2.sources.size slot (w.equip slot).1 := by
  unfold equip
  split
  · next value =>
    refine ⟨rfl, Table.size_add w.sources _ ▸ Nat.le_succ _, .new ?_ ?_⟩
    · exact Nat.le_of_eq (Key.index_ofIndex _).symm
    · change Key.index w.sources.fresh < (w.sources.add _).size
      rw [Table.index_fresh, Table.size_add]
      exact Nat.lt_succ_self _
  · next hslot => exact ⟨rfl, Nat.le_refl _, .same hslot⟩

/-- A slot in a list of slots with their keys. -/
abbrev slotIn (l : List (String × Slot)) (key : String) : Option Slot :=
  (l.find? (·.1 = key)).map Prod.snd

section Thread

variable (w : World Code Memory) (l : List (String × Slot))

omit [Inhabited Code] in
theorem slotIn_cons (pair : String × Slot) (key : String) :
    slotIn (pair :: l) key = if pair.1 = key then some pair.2 else slotIn l key := by
  by_cases h : pair.1 = key <;> simp [slotIn, h]

omit [Inhabited Code] in
theorem thread_equip_sources :
    (Entries.thread equip l w).2 = { w with sources := (Entries.thread equip l w).2.sources } ∧
      w.sources.size ≤ (Entries.thread equip l w).2.sources.size := by
  induction l generalizing w with
  | nil => exact ⟨rfl, Nat.le_refl _⟩
  | cons pair rest inductionHypothesis =>
    obtain ⟨heq, hle, -⟩ := equip_spec w pair.2
    obtain ⟨heq', hle'⟩ := inductionHypothesis (w.equip pair.2).2
    rw [Entries.thread_cons]
    refine ⟨heq'.trans ?_, Nat.le_trans hle hle'⟩
    rw [heq]

omit [Inhabited Code] in
theorem thread_equip_slots (key : String) :
    Option.Rel (Equipped w.sources.size (Entries.thread equip l w).2.sources.size) (slotIn l key)
      (slotIn (Entries.thread equip l w).1 key) := by
  induction l generalizing w with
  | nil => exact .none
  | cons pair rest inductionHypothesis =>
    obtain ⟨-, hle, hequipped⟩ := equip_spec w pair.2
    obtain ⟨-, hle'⟩ := thread_equip_sources (w.equip pair.2).2 rest
    rw [Entries.thread_cons, slotIn_cons, slotIn_cons]
    split
    · exact .some (hequipped.mono (Nat.le_refl _) hle')
    · have hrest := inductionHypothesis (w.equip pair.2).2
      revert hrest
      generalize slotIn rest key = slot?, slotIn (Entries.thread equip rest _).1 key = slot'?
      intro hrest
      cases hrest with
      | none => exact .none
      | some h => exact .some (h.mono hle (Nat.le_refl _))

omit [Inhabited Code] in
/-- A source that was not there before is new. -/
theorem Equipped.le_of_source {m n : Nat} {slot : Slot} {value : Value} {s : SourceId}
    (h : Equipped m n slot (.field value (some s))) (hold : slot ≠ .field value (some s)) :
    m ≤ Key.index s ∧ Key.index s < n := by
  cases h with
  | new hle hlt => exact ⟨hle, hlt⟩
  | same h => exact absurd rfl hold

omit [Inhabited Code] in
/-- Different keys get different new sources. -/
theorem thread_equip_injective {m : Nat} (hm : m ≤ w.sources.size)
    (hold : ∀ pair ∈ l, ∀ value s, pair.2 = .field value (some s) → Key.index s < m)
    {key key' : String} {value value' : Value} {s : SourceId} (hs : m ≤ Key.index s)
    (h : slotIn (Entries.thread equip l w).1 key = some (.field value (some s)))
    (h' : slotIn (Entries.thread equip l w).1 key' = some (.field value' (some s))) : key = key' := by
  induction l generalizing w with
  | nil => cases h
  | cons pair rest inductionHypothesis =>
    obtain ⟨-, hle, hequipped⟩ := equip_spec w pair.2
    -- the sources of the head come before those of the others
    have hhead : ∀ {value}, (w.equip pair.2).1 = .field value (some s) →
        Key.index s < (w.equip pair.2).2.sources.size := by
      intro value heq
      rw [heq] at hequipped
      refine (hequipped.le_of_source fun hslot => ?_).2
      exact Nat.not_lt.mpr hs (hold pair List.mem_cons_self value s hslot)
    have hrest : ∀ {key value},
        slotIn (Entries.thread equip rest (w.equip pair.2).2).1 key = some (.field value (some s)) →
          (w.equip pair.2).2.sources.size ≤ Key.index s := by
      intro key value heq
      have hrel := thread_equip_slots (w.equip pair.2).2 rest key
      rw [heq] at hrel
      revert hrel
      generalize hslot? : slotIn rest key = slot?
      intro hrel
      cases hrel with
      | @some slot _ hequipped =>
        refine (hequipped.le_of_source fun hslot => ?_).1
        obtain ⟨p, hp, rfl⟩ := Option.map_eq_some_iff.mp hslot?
        refine Nat.not_lt.mpr hs (hold p (List.mem_cons_of_mem _ (List.mem_of_find?_eq_some hp)) _ s hslot)
    rw [Entries.thread_cons, slotIn_cons] at h h'
    split at h
    · next hkey =>
      split at h'
      · next hkey' => exact hkey.symm.trans hkey'
      · exact absurd (hhead (Option.some.inj h)) (Nat.not_lt.mpr (hrest h'))
    · split at h'
      · exact absurd (hhead (Option.some.inj h')) (Nat.not_lt.mpr (hrest h))
      · exact inductionHypothesis (w.equip pair.2).2 (Nat.le_trans hm hle)
          (fun p hp => hold p (List.mem_cons_of_mem _ hp)) h h'

end Thread

theorem grows_mapObject (w : World Code Memory) (id : ObjectId) (f : Object → Object) :
    w.Grows (w.mapObject id f) :=
  ⟨Table.size_le_modify _ _ _, Nat.le_refl _, Nat.le_refl _, fun _ _ => ⟨rfl, rfl, rfl⟩, Nat.le_refl _, fun _ _ => rfl⟩

/-- What instrumenting does to an object and to the others. -/
structure Instruments (id : ObjectId) (w w' : World Code Memory) : Prop extends w.Grows w' where
  observed : ∀ j, (w'.object j).observed = true ↔ (w.object j).observed = true ∨ j = id
  awaited : ∀ j, (w'.object j).awaited = (w.object j).awaited
  slots : ∀ j, j ≠ id → (w'.object j).slots = (w.object j).slots
  equipped : ∀ key, Option.Rel (Equipped w.sources.size w'.sources.size)
    ((w.object id).slot? key) ((w'.object id).slot? key)
  injective : (∀ key value s, (w.object id).slot? key = some (.field value (some s)) →
      Key.index s < w.sources.size) →
    ∀ key key' value value' s, w.sources.size ≤ Key.index s →
      (w'.object id).slot? key = some (.field value (some s)) →
        (w'.object id).slot? key' = some (.field value' (some s)) → key = key'

section Instrument

variable {w w₁ : World Code Memory} {pending pending' : ObjectId → Prop} {id : ObjectId}

theorem instruments (w : World Code Memory) (id : ObjectId) : Instruments id w (w.instrument id) := by
  obtain ⟨hsources, hle⟩ := thread_equip_sources w (w.object id).slots.toList
  have hsteady : w.Steady (Entries.thread equip (w.object id).slots.toList w).2 :=
    steady_of_eq (by rw [hsources]) hle (by rw [hsources]) (by rw [hsources])
  have hobject : ∀ j, (w.instrument id).object j = if j = id then
      { w.object id with
        slots := ((w.object id).slots.mapThread equip w).1, observed := true } else w.object j := by
    intro j
    refine (object_mapObject _ _ _ _).trans ?_
    simp only [Entries.mapThread, hsteady.objects]
  have hself : (w.instrument id).object id = { w.object id with
      slots := ((w.object id).slots.mapThread equip w).1, observed := true } :=
    (hobject id).trans (if_pos rfl)
  constructor
  case toGrows => exact hsteady.toGrows.trans (grows_mapObject _ id _)
  case observed =>
    intro j
    rw [hobject]
    split
    · next h => simp [h]
    · next h => simp [h]
  case awaited =>
    intro j
    rw [hobject]
    split
    · next h => rw [h]
    · rfl
  case slots =>
    intro j hj
    rw [hobject, if_neg hj]
  case equipped =>
    intro key
    rw [hself]
    exact thread_equip_slots w _ key
  case injective =>
    intro hold key key' value value' s hs h h'
    rw [hself] at h h'
    refine thread_equip_injective w _ (Nat.le_refl _) (fun pair hpair value s hslot => ?_) hs h h'
    refine hold pair.1 value s ?_
    rw [Object.slot?, Entries.find?_eq_some_iff, ← hslot]
    exact hpair

/-- The slot of a key after instrumenting is the one before, or a field that has got a source. -/
theorem Instruments.slot? (h : Instruments id w w₁) {object : ObjectId} {key : String} {slot : Slot}
    (hslot : (w₁.object object).slot? key = some slot) :
    (w.object object).slot? key = some slot ∧ (object = id → ∀ value, slot ≠ .field value none) ∨
      object = id ∧ ∃ value s, (w.object object).slot? key = some (.field value none) ∧
        slot = .field value (some s) ∧ w.sources.size ≤ Key.index s ∧ Key.index s < w₁.sources.size := by
  by_cases hid : object = id
  · subst hid
    have hrel := h.equipped key
    rw [hslot] at hrel
    revert hrel
    generalize hslot? : (w.object object).slot? key = slot?
    intro hrel
    cases hrel with
    | some hequipped =>
      cases hequipped with
      | @new value s hle hlt => exact Or.inr ⟨rfl, value, s, rfl, rfl, hle, hlt⟩
      | same hsame => exact Or.inl ⟨rfl, fun _ => hsame⟩
  · refine Or.inl ⟨?_, fun heq => absurd heq hid⟩
    rw [← hslot, Object.slot?, Object.slot?, h.slots object hid]

theorem Instruments.slot?_none (h : Instruments id w w₁) {object : ObjectId} {key : String} :
    (w₁.object object).slot? key = none ↔ (w.object object).slot? key = none := by
  by_cases hid : object = id
  · subst hid
    have hrel := h.equipped key
    revert hrel
    generalize (w.object object).slot? key = slot?, (w₁.object object).slot? key = slot'?
    intro hrel
    cases hrel with
    | none => simp
    | some _ => simp
  · rw [Object.slot?, Object.slot?, h.slots object hid]

/-- A field had its value before. -/
theorem Instruments.field (h : Instruments id w w₁) {object : ObjectId} {key : String} {value : Value}
    {source : Option SourceId} (hslot : (w₁.object object).slot? key = some (.field value source)) :
    ∃ source', (w.object object).slot? key = some (.field value source') := by
  rcases h.slot? hslot with ⟨hold, -⟩ | ⟨-, value', s, hold, heq, -⟩
  · exact ⟨source, hold⟩
  · cases heq
    exact ⟨none, hold⟩

theorem Instruments.belongs (h : Instruments id w w₁) (hw : w.Sourced pending) {s : SourceId}
    {object : ObjectId} {key : String} (hs : w₁.Belongs s object key) :
    w.Belongs s object key ∨ object = id ∧ w.sources.size ≤ Key.index s ∧
      Key.index s < w₁.sources.size ∧ ∃ value, (w₁.object id).slot? key = some (.field value (some s)) := by
  cases hs with
  | @field value hslot =>
    rcases h.slot? hslot with ⟨hold, -⟩ | ⟨hid, value', s', -, heq, hle, hlt⟩
    · exact Or.inl (.field hold)
    · cases heq
      exact Or.inr ⟨hid, hle, hlt, value, hid ▸ hslot⟩
  | @computed computed hslot hsource =>
    rcases h.slot? hslot with ⟨hold, -⟩ | ⟨-, value', s', -, heq, -⟩
    · exact Or.inl (.computed hold ((h.computed computed (hw.made hold)).2.2.symm.trans hsource))
    · cases heq
  | awaited hawaited => exact Or.inl (.awaited (h.awaited object ▸ hawaited))

theorem Instruments.sourced (h : Instruments id w w₁) (hw : w.Sourced pending)
    (hpending : ∀ child, pending child → child = id ∨ pending' child)
    (hchild : ∀ child key source, (w.object id).slot? key = some (.field (.object child) source) →
      (w.object child).observed = true ∨ child = id ∨ pending' child) : w₁.Sourced pending' := by
  have hobserved : ∀ child, (w.object child).observed = true ∨ child = id ∨ pending' child →
      (w₁.object child).observed = true ∨ pending' child := by
    intro child hor
    rw [h.observed, or_assoc]
    exact hor
  constructor
  case field =>
    intro object key value source hslot
    rw [h.observed]
    rcases h.slot? hslot with ⟨hold, hself⟩ | ⟨hid, value', s, -, heq, -⟩
    · rw [hw.field hold]
      refine ⟨Or.inl, ?_⟩
      rintro (hobserved | hid)
      · exact hobserved
      · cases source with
        | none => exact absurd rfl (hself hid value)
        | some s => exact (hw.field hold).mp rfl
    · cases heq
      simp [hid]
  case child =>
    intro object child key source hobs hslot
    obtain ⟨source', hold⟩ := h.field hslot
    refine hobserved child ?_
    by_cases hid : object = id
    · exact hchild child key source' (hid ▸ hold)
    · have hobs' := ((h.observed object).mp hobs).resolve_right hid
      exact (hw.child hobs' hold).imp_right (hpending child)
  case unique =>
    intro s object object' key key' hs hs'
    rcases h.belongs hw hs with hold | ⟨hid, hle, -, value, hslot⟩
    · rcases h.belongs hw hs' with hold' | ⟨-, hle', -⟩
      · exact hw.unique hold hold'
      · exact absurd (hw.fresh hold) (Nat.not_lt.mpr hle')
    · rcases h.belongs hw hs' with hold' | ⟨hid', -, -, value', hslot'⟩
      · exact absurd (hw.fresh hold') (Nat.not_lt.mpr hle)
      · refine ⟨hid.trans hid'.symm, h.injective ?_ key key' value value' s hle hslot hslot'⟩
        exact fun key value s hslot => hw.fresh (.field hslot)
  case awaiting =>
    intro object key s hs
    rw [h.awaited] at hs
    exact (h.observed object).mpr (Or.inl (hw.awaiting hs))
  case arrived =>
    intro object key s hs
    rw [h.awaited] at hs
    exact (hw.arrived hs).imp h.slot?_none.mpr (h.defined (Nat.le_refl 0))
  case fresh =>
    intro s object key hs
    rcases h.belongs hw hs with hold | ⟨-, -, hlt, -⟩
    · exact Nat.lt_of_lt_of_le (hw.fresh hold) h.sources
    · exact hlt
  case made =>
    intro object key computed hslot
    rcases h.slot? hslot with ⟨hold, -⟩ | ⟨-, value', s', -, heq, -⟩
    · exact Nat.lt_of_lt_of_le (hw.made hold) h.computeds
    · cases heq

theorem Instruments.evolves (h : Instruments id w w₁) : w.Evolves w₁ := by
  refine ⟨h.toGrows, fun object key s hs => Or.inl ?_⟩
  unfold ownSource at hs ⊢
  rw [h.awaited]
  cases hslot : (w₁.object object).slot? key with
  | none =>
    rw [h.slot?_none.mp hslot] at hs
    exact hs
  | some slot =>
    rcases h.slot? hslot with ⟨hold, -⟩ | ⟨-, value', s', hold, -⟩
    · rw [hold] at hs
      exact hs
    · rw [hold] at hs
      cases hs

end Instrument

/-! ### Observing a value -/

section Observe

variable {w w₁ : World Code Memory}

/-- The objects that are values of fields of some objects are among these. -/
def Closed (w : World Code Memory) (l : List ObjectId) : Prop :=
  ∀ id ∈ l, ∀ key child source,
    (w.object id).slot? key = some (.field (.object child) source) → child ∈ l

omit [Inhabited Code] in
theorem mem_children {o : Object} {key : String} {child : ObjectId} {source : Option SourceId}
    (h : o.slot? key = some (.field (.object child) source)) : child ∈ o.children := by
  rw [Object.slot?, Entries.find?_eq_some_iff] at h
  simp only [Object.children, Object.fields, List.mem_filterMap]
  exact ⟨(key, .object child), ⟨_, h, rfl⟩, rfl⟩

omit [Inhabited Code] in
theorem closed_reachable (w : World Code Memory) (value : Value) : w.Closed (w.reachable value) := by
  intro id hid key child source hslot
  refine mem_explore_of_next (fun k hk => ?_) hid (mem_children hslot)
  have hdefault : w.object k = default := by
    refine Table.get_of_size_le _ (Nat.not_lt.mp fun hlt => hk ?_)
    simp only [Table.keys, List.mem_map, List.mem_range]
    exact ⟨_, hlt, Key.ofIndex_index k⟩
  rw [hdefault]
  rfl

/-- Instrumenting objects one after the other puts the sources in order, if nothing is pending but
these objects, and those of a closed list wait or are observed. -/
theorem Sourced.instrumentAll {l r : List ObjectId} (hw : w.Sourced (· ∈ l)) (hclosed : w.Closed r)
    (hl : ∀ id ∈ l, id ∈ r) (hr : ∀ id ∈ r, (w.object id).observed = true ∨ id ∈ l) :
    (l.foldl instrument w).Sourced (fun _ => False) ∧ w.Evolves (l.foldl instrument w) := by
  induction l generalizing w with
  | nil => exact ⟨hw.mono fun _ h => (List.not_mem_nil h), (Steady.refl w).evolves⟩
  | cons id rest inductionHypothesis =>
    have h := instruments w id
    have hw₁ : (w.instrument id).Sourced (· ∈ rest) := by
      refine h.sourced hw (fun child => List.mem_cons.mp) fun child key source hslot => ?_
      have hchild := hclosed id (hl id List.mem_cons_self) key child source hslot
      exact (hr child hchild).imp_right List.mem_cons.mp
    have hclosed₁ : (w.instrument id).Closed r := by
      intro object hobject key child source hslot
      obtain ⟨source', hold⟩ := h.field hslot
      exact hclosed object hobject key child source' hold
    have hr₁ : ∀ j ∈ r, ((w.instrument id).object j).observed = true ∨ j ∈ rest := by
      intro j hj
      rw [h.observed, or_assoc, ← List.mem_cons]
      exact hr j hj
    obtain ⟨hsourced, hevolves⟩ := inductionHypothesis hw₁ hclosed₁
      (fun j hj => hl j (List.mem_cons_of_mem _ hj)) hr₁
    exact ⟨hsourced, h.evolves.trans hevolves⟩

/-- Observing a value settles what was pending if that is the value itself. -/
theorem Sourced.observe (value : Value) (hw : w.Sourced (value.object? = some ·)) :
    (w.observe value).Sourced (fun _ => False) ∧ w.Evolves (w.observe value) := by
  refine (hw.mono fun id hid => ?_).instrumentAll (closed_reachable w value) (fun _ h => h)
    fun _ h => Or.inr h
  refine mem_explore_of_mem ?_
  rw [hid]
  exact List.mem_singleton_self id

end Observe

/-! ### Storing, writing and waiting -/

section Fields

variable {w w₁ : World Code Memory} {object : ObjectId} {key : String} {value : Value}
  {pending : ObjectId → Prop}

theorem changesAt_mapObject {f : Object → Object}
    (hobserved : (f (w.object object)).observed = (w.object object).observed)
    (hslots : ∀ name, name ≠ key → (f (w.object object)).slot? name = (w.object object).slot? name)
    (hawaited : ∀ name, name ≠ key →
      (f (w.object object)).awaited.find? name = (w.object object).awaited.find? name) :
    ChangesAt object key w (w.mapObject object f) where
  toGrows := grows_mapObject w object f
  observed id := by
    rw [object_mapObject]
    split
    · next h => rw [hobserved, h]
    · rfl
  slots id name hne := by
    rw [object_mapObject]
    split
    · next h => rw [hslots name (hne.resolve_left (not_not_intro h)), h]
    · rfl
  awaited id name hne := by
    rw [object_mapObject]
    split
    · next h => rw [hawaited name (hne.resolve_left (not_not_intro h)), h]
    · rfl

theorem changesAt_putSlot (w : World Code Memory) (object : ObjectId) (key : String) (slot : Slot) :
    ChangesAt object key w (w.putSlot object key slot) :=
  changesAt_mapObject rfl (fun _ hname => Entries.find?_put_of_ne _ _ hname) fun _ _ => rfl

omit [Inhabited Code] in
theorem slot?_putSlot (w : World Code Memory) (object : ObjectId) (key : String) (slot : Slot) :
    ((w.putSlot object key slot).object object).slot? key = some slot := by
  rw [putSlot, object_mapObject, if_pos rfl, Object.slot?, Entries.find?_put_self]

omit [Inhabited Code] in
theorem awaited_putSlot (w : World Code Memory) (object id : ObjectId) (key : String) (slot : Slot) :
    ((w.putSlot object key slot).object id).awaited = (w.object id).awaited := by
  rw [putSlot, object_mapObject]
  split
  · next h => rw [h]
  · rfl

/-- A field is stored, with the source that the key had if it had one. -/
theorem Sourced.storeField (hw : w.Sourced fun _ => False) (h : ChangesAt object key w w₁)
    {source : Option SourceId}
    (hslot : (w₁.object object).slot? key = some (.field value source))
    (hsource : source.isSome ↔ (w.object object).observed = true)
    (hnew : ∀ s, source = some s →
      w.Belongs s object key ∨ w.sources.size ≤ Key.index s ∧ Key.index s < w₁.sources.size)
    (hold : ∀ s, w.ownSource object key = some s → source = some s)
    (hawaited : ∀ s, (w₁.object object).awaited.find? key = some s →
      (w.object object).awaited.find? key = some s ∧ (w.object object).slot? key ≠ none) :
    w₁.Sourced (fun id => source.isSome ∧ value.object? = some id) ∧ w.Evolves w₁ := by
  refine ⟨hw.changeAt h (fun _ hf => hf.elim) ?_ ?_ ?_ ?_, h.toGrows, h.keepsSources ?_⟩
  · intro s hs
    cases hs with
    | field hs =>
      rw [hslot] at hs
      cases hs
      exact hnew s rfl
    | computed hs => rw [hslot] at hs; cases hs
    | awaited hs => exact Or.inl (.awaited (hawaited s hs).1)
  · intro value' source' hs
    rw [hslot] at hs
    cases hs
    refine ⟨hsource, fun child hchild hobserved => Or.inr ⟨hsource.mpr hobserved, hchild ▸ rfl⟩⟩
  · intro s hs
    obtain ⟨hs', hpresent⟩ := hawaited s hs
    exact ⟨hw.awaiting hs', Or.inr (h.defined (Nat.le_refl 0) ((hw.arrived hs').resolve_left hpresent))⟩
  · intro id hs
    rw [hslot] at hs
    cases hs
  · intro s hs
    rw [ownSource, hslot]
    exact Or.inl (hold s hs)

/-- A stored field keeps its source when it is written. -/
theorem Sourced.rewrite (hw : w.Sourced fun _ => False) {old : Value} {source : Option SourceId}
    (hslot : (w.object object).slot? key = some (.field old source)) :
    (w.putSlot object key (.field value source)).Sourced
        (fun id => source.isSome ∧ value.object? = some id) ∧
      w.Evolves (w.putSlot object key (.field value source)) := by
  refine hw.storeField (changesAt_putSlot w object key _) (slot?_putSlot w object key _)
    (hw.field hslot) (fun s hs => Or.inl (.field (hs ▸ hslot))) (fun s hs => ?_) fun s hs => ?_
  · rw [ownSource, hslot] at hs
    exact hs
  · rw [awaited_putSlot] at hs
    rw [hslot]
    exact ⟨hs, Option.some_ne_none _⟩

/-- What comes into being is not waited for any longer. -/
theorem changesAt_arrive (w : World Code Memory) (object : ObjectId) (key : String) :
    ChangesAt object key w (w.arrive object key) := by
  unfold arrive
  split
  · exact changesAt_mapObject rfl (fun _ _ => rfl) fun _ hname => Entries.find?_erase_of_ne _ hname
  · exact (Steady.refl w).changesAt object key

omit [Inhabited Code] in
theorem awaited_arrive (hobserved : (w.object object).observed = true) {s : SourceId}
    (hs : ((w.arrive object key).object object).awaited.find? key = some s) :
    (w.object object).awaited.find? key = some s ∧ (w.object object).slot? key ≠ none := by
  unfold arrive at hs
  split at hs
  · rw [object_mapObject, if_pos rfl, Entries.find?_erase_self] at hs
    cases hs
  · next h =>
    refine ⟨hs, fun hnone => h ?_⟩
    rw [hobserved, hnone]
    rfl

omit [Inhabited Code] in
theorem fresh_addSource (w : World Code Memory) : w.sources.size ≤ Key.index w.addSource.1 ∧
    Key.index w.addSource.1 < w.addSource.2.sources.size := by
  change _ ≤ Key.index w.sources.fresh ∧ Key.index w.sources.fresh < (w.sources.add {}).size
  rw [Table.index_fresh, Table.size_add]
  exact ⟨Nat.le_refl _, Nat.lt_succ_self _⟩

/-- The source that a field gets is the one that is kept, or a new one. -/
theorem sourceOrNew_spec (w : World Code Memory) (kept : Option SourceId) :
    w.Steady (w.sourceOrNew kept).2 ∧ (∀ s, kept = some s → (w.sourceOrNew kept).1 = s) ∧
      (kept = none → w.sources.size ≤ Key.index (w.sourceOrNew kept).1 ∧
        Key.index (w.sourceOrNew kept).1 < (w.sourceOrNew kept).2.sources.size) := by
  cases kept with
  | some s =>
    refine ⟨.refl w, fun s' h => Option.some.inj h, fun h => ?_⟩
    cases h
  | none =>
    refine ⟨steady_addSource w, fun s h => ?_, fun _ => fresh_addSource w⟩
    cases h

/-- What a key keeps of its source is the source itself. -/
theorem Sourced.handover (hw : w.Sourced fun _ => False) (object : ObjectId) (key : String)
    (value : Value) :
    (∀ s, w.ownSource object key = some s → (handover (w.object object) key value).1 = some s) ∧
      ∀ s, (World.handover (w.object object) key value).1 = some s →
        w.Belongs s object key ∧ (w.object object).observed = true := by
  unfold World.handover ownSource
  cases hslot : (w.object object).slot? key with
  | none =>
    constructor
    · intro s hs
      simp only [hw.awaiting hs, if_true]
      exact hs
    · intro s hs
      simp only at hs
      split at hs
      · next hobserved => exact ⟨.awaited hs, hobserved⟩
      · cases hs
  | some slot =>
    cases slot with
    | field old source =>
      refine ⟨fun s hs => hs, fun s hs => ?_⟩
      simp only at hs
      subst hs
      exact ⟨.field hslot, (hw.field hslot).mp rfl⟩
    | computed _ | constant _ | proxy _ _ =>
      constructor
      · intro s hs
        cases hs
      · intro s hs
        cases hs

theorem Sourced.store (hw : w.Sourced fun _ => False) (object : ObjectId) (key : String)
    (value : Value) :
    (w.store object key value).2.Sourced (fun _ => False) ∧
      w.Evolves (w.store object key value).2 := by
  obtain ⟨hkeeps, hbelongs⟩ := hw.handover object key value
  have harrive := changesAt_arrive w object key
  unfold World.store
  simp only [harrive.observed]
  split
  · next hobserved =>
    generalize (World.handover (w.object object) key value).1 = kept at hkeeps hbelongs ⊢
    obtain ⟨hsteady, hkept, hfresh⟩ := sourceOrNew_spec (w.arrive object key) kept
    generalize (w.arrive object key).sourceOrNew kept = made at hsteady hkept hfresh ⊢
    have h : ChangesAt object key w (made.2.putSlot object key (.field value (some made.1))) :=
      harrive.trans ((hsteady.changesAt object key).trans (changesAt_putSlot _ object key _))
    have hnew : ∀ s, some made.1 = some s →
        w.Belongs s object key ∨ w.sources.size ≤ Key.index s ∧ Key.index s < made.2.sources.size := by
      intro s hs
      cases hkept? : kept with
      | some s' =>
        rw [hkept s' hkept?] at hs
        cases hs
        exact Or.inl (hbelongs _ hkept?).1
      | none =>
        obtain ⟨hle, hlt⟩ := hfresh hkept?
        cases hs
        exact Or.inr ⟨Nat.le_trans harrive.sources hle, hlt⟩
    have hold : ∀ s, w.ownSource object key = some s → some made.1 = some s :=
      fun s hs => congrArg some (hkept s (hkeeps s hs))
    obtain ⟨hsourced, hevolves⟩ := hw.storeField h (slot?_putSlot _ object key _)
      (iff_of_true rfl hobserved) hnew hold fun s hs => by
        rw [awaited_putSlot, hsteady.objects] at hs
        exact awaited_arrive hobserved hs
    have hobserve := (hsourced.mono fun id hid => hid.2).observe
    exact ⟨hobserve.1, hevolves.trans hobserve.2⟩
  · next hobserved =>
    have hkept : (World.handover (w.object object) key value).1 = none :=
      Option.eq_none_iff_forall_not_mem.mpr fun s hs => hobserved (hbelongs s hs).2
    have harrived : w.arrive object key = w := by
      rw [arrive, if_neg]
      simp [hobserved]
    rw [hkept, harrived]
    obtain ⟨hsourced, hevolves⟩ := hw.storeField (changesAt_putSlot w object key _)
      (slot?_putSlot w object key (.field value none)) (iff_of_false Bool.false_ne_true hobserved)
      (fun s hs => by cases hs) (fun s hs => hkept.symm.trans (hkeeps s hs)) fun s hs => by
        rw [awaited_putSlot] at hs
        exact absurd (hw.awaiting hs) hobserved
    exact ⟨hsourced.mono fun id hid => Bool.noConfusion hid.1, hevolves⟩

/-- Waiting for an absent key of an observed object. -/
theorem Sourced.await (hw : w.Sourced fun _ => False)
    (hobserved : (w.object object).observed = true) (hslot : (w.object object).slot? key = none) :
    (w.await object key).2.Sourced (fun _ => False) ∧ w.Evolves (w.await object key).2 := by
  unfold World.await
  split
  · exact ⟨hw, (Steady.refl w).evolves⟩
  · next hnone =>
    have hsteady := steady_addSource w
    obtain ⟨hle, hlt⟩ := fresh_addSource w
    generalize w.addSource = made at hsteady hle hlt ⊢
    obtain ⟨source, w₀⟩ := made
    have h : ChangesAt object key w (w₀.mapObject object fun o =>
        { o with awaited := o.awaited.put key source }) :=
      (hsteady.changesAt object key).trans
        (changesAt_mapObject rfl (fun _ _ => rfl) fun _ hname => Entries.find?_put_of_ne _ _ hname)
    have hobject : (w₀.mapObject object fun o =>
        { o with awaited := o.awaited.put key source }).object object =
          { w.object object with awaited := (w.object object).awaited.put key source } := by
      rw [object_mapObject, if_pos rfl, hsteady.objects]
    replace hlt : Key.index source < (w₀.mapObject object fun o =>
        { o with awaited := o.awaited.put key source }).sources.size := hlt
    simp only
    generalize w₀.mapObject object _ = w₁ at h hobject hlt ⊢
    have hslot₁ : (w₁.object object).slot? key = none := by
      rw [hobject]
      exact hslot
    have hawaited₁ : (w₁.object object).awaited.find? key = some source := by
      rw [hobject]
      exact Entries.find?_put_self _ _ _
    refine ⟨hw.changeAt h (fun _ hf => hf.elim) ?_ ?_ ?_ ?_, h.toGrows, h.keepsSources ?_⟩
    · intro s hs
      cases hs with
      | field hs => rw [hslot₁] at hs; cases hs
      | computed hs => rw [hslot₁] at hs; cases hs
      | awaited hs =>
        rw [hawaited₁] at hs
        cases hs
        exact Or.inr ⟨hle, hlt⟩
    · intro value source hs
      rw [hslot₁] at hs
      cases hs
    · exact fun s hs => ⟨hobserved, Or.inl hslot₁⟩
    · intro id hs
      rw [hslot₁] at hs
      cases hs
    · intro s hs
      rw [ownSource, hslot] at hs
      cases hnone.symm.trans hs

end Fields

/-! ### Documents -/

mutual

theorem Sourced.load {w : World Code Memory} (hw : w.Sourced fun _ => False) : (json : Json) →
    (w.load json).2.Sourced (fun _ => False) ∧ w.Evolves (w.load json).2
  | .null => ⟨hw, (Steady.refl w).evolves⟩
  | .bool _ => ⟨hw, (Steady.refl w).evolves⟩
  | .integer _ => ⟨hw, (Steady.refl w).evolves⟩
  | .real _ => ⟨hw, (Steady.refl w).evolves⟩
  | .string _ => ⟨hw, (Steady.refl w).evolves⟩
  | .array items => by
    obtain ⟨hsourced, hevolves⟩ := hw.loadItems items
    have hadd : (w.loadItems items).2.Steady ((w.loadItems items).2.addArray (w.loadItems items).1).2 :=
      steady_of_eq rfl (Nat.le_refl _) rfl rfl
    exact ⟨hsourced.steady hadd, hevolves.trans hadd.evolves⟩
  | .object members => by
    have hadd := steady_addObject w
    obtain ⟨hsourced, hevolves⟩ := (hw.steady hadd).loadMembers w.addObject.1 members
    exact ⟨hsourced, hadd.evolves.trans hevolves⟩

theorem Sourced.loadItems {w : World Code Memory} (hw : w.Sourced fun _ => False) :
    (items : List Json) →
      (w.loadItems items).2.Sourced (fun _ => False) ∧ w.Evolves (w.loadItems items).2
  | [] => ⟨hw, (Steady.refl w).evolves⟩
  | item :: rest => by
    obtain ⟨hsourced, hevolves⟩ := hw.load item
    obtain ⟨hsourced', hevolves'⟩ := hsourced.loadItems rest
    exact ⟨hsourced', hevolves.trans hevolves'⟩

theorem Sourced.loadMembers {w : World Code Memory} (hw : w.Sourced fun _ => False)
    (object : ObjectId) : (members : List (String × Json)) →
      (w.loadMembers object members).Sourced (fun _ => False) ∧ w.Evolves (w.loadMembers object members)
  | [] => ⟨hw, (Steady.refl w).evolves⟩
  | (key, json) :: rest => by
    obtain ⟨hsourced, hevolves⟩ := hw.load json
    obtain ⟨hsourced', hevolves'⟩ := hsourced.store object key (w.load json).1
    obtain ⟨hsourced'', hevolves''⟩ := hsourced'.loadMembers object rest
    exact ⟨hsourced'', hevolves.trans (hevolves'.trans hevolves'')⟩

end

/-! ### View models -/

section Assembling

variable {w : World Code Memory}

/-- A computed property is defined under a key of the data of a view model. -/
theorem Sourced.define (hw : w.Sourced fun _ => False) {owner : ViewModelId} {data : ObjectId}
    (howner : Key.index owner < w.viewModels.size) (hdata : (w.viewModel owner).data = data)
    (x : Computed Code) (code : Code) (hgetter : x.getter = .ofViewModel owner code)
    (hsource : x.source = w.addSource.1) :
    (((w.addSource.2.addComputed x).2).putSlot data x.name
        (.computed (w.addSource.2.addComputed x).1)).Sourced (fun _ => False) ∧
      w.Evolves (((w.addSource.2.addComputed x).2).putSlot data x.name
        (.computed (w.addSource.2.addComputed x).1)) := by
  have hsteady : w.Steady (w.addSource.2.addComputed x).2 :=
    (steady_addSource w).trans (steady_addComputed _ x)
  have hcomputed : (w.addSource.2.addComputed x).2.computed (w.addSource.2.addComputed x).1 = x :=
    Table.get_add_fresh _ _
  have hindex : w.computeds.size = Key.index (w.addSource.2.addComputed x).1 :=
    (Key.index_ofIndex w.computeds.size).symm
  have hsize : Key.index (w.addSource.2.addComputed x).1 <
      (w.addSource.2.addComputed x).2.computeds.size := by
    rw [← hindex]
    exact Nat.lt_of_lt_of_eq (Nat.lt_succ_self _) (Table.size_add w.computeds x).symm
  have hfresh : w.sources.size ≤ Key.index x.source ∧
      Key.index x.source < (w.addSource.2.addComputed x).2.sources.size :=
    hsource ▸ fresh_addSource w
  have hviewModel : (w.addSource.2.addComputed x).2.viewModel owner = w.viewModel owner := rfl
  have hviewModels : (w.addSource.2.addComputed x).2.viewModels.size = w.viewModels.size := rfl
  generalize (w.addSource.2.addComputed x).1 = id at hcomputed hindex hsize ⊢
  generalize (w.addSource.2.addComputed x).2 = w₁ at hsteady hcomputed hsize hfresh hviewModel hviewModels ⊢
  have h := (hsteady.changesAt data x.name).trans (changesAt_putSlot w₁ data x.name (.computed id))
  have hslot := slot?_putSlot w₁ data x.name (.computed id)
  have hdefined : (w₁.putSlot data x.name (.computed id)).DefinedSince w.computeds.size data x.name := by
    refine ⟨id, Nat.le_of_eq hindex, hsize, congrArg Computed.name hcomputed, owner, ?_, ?_, code, ?_⟩
    · exact hviewModels ▸ howner
    · exact (congrArg ViewModel.data hviewModel).trans hdata
    · exact (congrArg Computed.getter hcomputed).trans hgetter
  refine ⟨hw.changeAt h (fun _ hf => hf.elim) ?_ ?_ ?_ ?_, h.toGrows, h.keepsSources ?_⟩
  · intro s hs
    cases hs with
    | field hs => rw [hslot] at hs; cases hs
    | computed hs hs' =>
      rw [hslot] at hs
      cases hs
      rw [show s = x.source from hs'.symm.trans (congrArg Computed.source hcomputed)]
      exact Or.inr hfresh
    | awaited hs =>
      rw [awaited_putSlot, hsteady.objects] at hs
      exact Or.inl (.awaited hs)
  · intro value source hs
    rw [hslot] at hs
    cases hs
  · intro s hs
    rw [awaited_putSlot, hsteady.objects] at hs
    exact ⟨hw.awaiting hs, Or.inr ((Grows.refl _).defined (Nat.zero_le _) hdefined)⟩
  · intro id' hs
    rw [hslot] at hs
    cases hs
    exact hsize
  · exact fun _ _ => Or.inr hdefined

theorem Sourced.defineComputed (hw : w.Sourced fun _ => False) {owner : ViewModelId} {data : ObjectId}
    (howner : Key.index owner < w.viewModels.size) (hdata : (w.viewModel owner).data = data)
    (tracker : TrackerId) (memoize : Bool) (l : List (String × Code)) :
    (defineComputed owner data tracker memoize w l).Sourced (fun _ => False) ∧
      w.Evolves (defineComputed owner data tracker memoize w l) := by
  induction l generalizing w with
  | nil => exact ⟨hw, (Steady.refl w).evolves⟩
  | cons pair rest inductionHypothesis =>
    obtain ⟨name, code⟩ := pair
    obtain ⟨hsourced, hevolves⟩ := hw.define howner hdata
      { name, tracker, memoize, getter := .ofViewModel owner code, source := w.addSource.1 } code rfl rfl
    obtain ⟨hsourced', hevolves'⟩ := inductionHypothesis hsourced howner hdata
    exact ⟨hsourced', hevolves.trans hevolves'⟩

/-- An object that has neither fields nor keys that are waited for. -/
def Bare (w : World Code Memory) (object : ObjectId) : Prop :=
  (∀ key value source, (w.object object).slot? key ≠ some (.field value source)) ∧
    ∀ key, (w.object object).awaited.find? key = none

omit [Inhabited Code] in
theorem Bare.putSlot {root : ObjectId} (h : w.Bare root) (object : ObjectId) (key : String)
    (slot : Slot) (hslot : ∀ value source, slot ≠ .field value source) :
    (w.putSlot object key slot).Bare root := by
  refine ⟨fun name value source hs => ?_, fun name => ?_⟩
  · rw [World.putSlot, object_mapObject] at hs
    split at hs
    · next hobject =>
      by_cases hname : name = key
      · subst hname
        rw [Object.slot?, Entries.find?_put_self] at hs
        exact hslot value source (Option.some.inj hs)
      · rw [Object.slot?, Entries.find?_put_of_ne _ _ hname, ← hobject] at hs
        exact h.1 name value source hs
    · exact h.1 name value source hs
  · rw [awaited_putSlot]
    exact h.2 name

theorem Sourced.putBare (hw : w.Sourced fun _ => False) {root : ObjectId} (hroot : w.Bare root)
    (key : String) (slot : Slot) (hfield : ∀ value source, slot ≠ .field value source)
    (hcomputed : ∀ id, slot ≠ .computed id) :
    (w.putSlot root key slot).Sourced (fun _ => False) ∧ w.Evolves (w.putSlot root key slot) := by
  have h := changesAt_putSlot w root key slot
  have hslot := slot?_putSlot w root key slot
  have hawaited : ∀ s, ((w.putSlot root key slot).object root).awaited.find? key ≠ some s := by
    intro s hs
    rw [awaited_putSlot, hroot.2] at hs
    cases hs
  refine ⟨hw.changeAt h (fun _ hf => hf.elim) ?_ ?_ ?_ ?_, h.toGrows, h.keepsSources ?_⟩
  · intro s hs
    cases hs with
    | field hs => exact absurd (Option.some.inj (hslot.symm.trans hs)) (hfield _ _)
    | computed hs => exact absurd (Option.some.inj (hslot.symm.trans hs)) (hcomputed _)
    | awaited hs => exact absurd hs (hawaited s)
  · exact fun value source hs => absurd (Option.some.inj (hslot.symm.trans hs)) (hfield _ _)
  · exact fun s hs => absurd hs (hawaited s)
  · exact fun id hs => absurd (Option.some.inj (hslot.symm.trans hs)) (hcomputed _)
  · intro s hs
    unfold ownSource at hs
    split at hs
    · next hs' => exact absurd hs' (hroot.1 _ _ _)
    · rw [hroot.2] at hs
      cases hs
    · cases hs

theorem Sourced.defineMethods (hw : w.Sourced fun _ => False) {root : ObjectId}
    (hroot : w.Bare root) (l : List (String × Code)) :
    ((defineMethods root w l).Sourced (fun _ => False) ∧ w.Evolves (defineMethods root w l)) ∧
      (defineMethods root w l).Bare root := by
  induction l generalizing w with
  | nil => exact ⟨⟨hw, (Steady.refl w).evolves⟩, hroot⟩
  | cons pair rest inductionHypothesis =>
    obtain ⟨name, code⟩ := pair
    have hsteady : w.Steady (w.addFunction { name, code }).2 :=
      steady_of_eq rfl (Nat.le_refl _) rfl rfl
    obtain ⟨hsourced, hevolves⟩ := (hw.steady hsteady).putBare hroot name
      (.constant (.function (w.addFunction { name, code }).1 name))
      (fun _ _ => Slot.noConfusion) fun _ => Slot.noConfusion
    have hroot' := Bare.putSlot (w := (w.addFunction { name, code }).2) hroot root name
      (.constant (.function (w.addFunction { name, code }).1 name)) fun _ _ => Slot.noConfusion
    obtain ⟨⟨hsourced', hevolves'⟩, hroot''⟩ := inductionHypothesis hsourced hroot'
    exact ⟨⟨hsourced', hsteady.evolves.trans (hevolves.trans hevolves')⟩, hroot''⟩

theorem Sourced.defineProxies (hw : w.Sourced fun _ => False) {root : ObjectId}
    (hroot : w.Bare root) (data : ObjectId) (keys : List String) :
    ((keys.foldl (fun w key => w.putSlot root key (.proxy data key)) w).Sourced (fun _ => False) ∧
      w.Evolves (keys.foldl (fun w key => w.putSlot root key (.proxy data key)) w)) ∧
        (keys.foldl (fun w key => w.putSlot root key (.proxy data key)) w).Bare root := by
  induction keys generalizing w with
  | nil => exact ⟨⟨hw, (Steady.refl w).evolves⟩, hroot⟩
  | cons key rest inductionHypothesis =>
    obtain ⟨hsourced, hevolves⟩ := hw.putBare hroot key (.proxy data key)
      (fun _ _ => Slot.noConfusion) fun _ => Slot.noConfusion
    have hroot' := hroot.putSlot root key (.proxy data key) fun _ _ => Slot.noConfusion
    obtain ⟨⟨hsourced', hevolves'⟩, hroot''⟩ := inductionHypothesis hsourced hroot'
    exact ⟨⟨hsourced', hevolves.trans hevolves'⟩, hroot''⟩

omit [Inhabited Code] in
theorem Bare.defineComputed {root : ObjectId} (h : w.Bare root) (owner : ViewModelId)
    (data : ObjectId) (tracker : TrackerId) (memoize : Bool) (l : List (String × Code)) :
    (defineComputed owner data tracker memoize w l).Bare root := by
  induction l generalizing w with
  | nil => exact h
  | cons pair rest inductionHypothesis =>
    refine inductionHypothesis (Bare.putSlot ?_ data pair.1 _ fun _ _ => Slot.noConfusion)
    exact h

theorem Sourced.assemble (hw : w.Sourced fun _ => False) (options : Options Code) (data : ObjectId) :
    (w.assemble options data).2.Sourced (fun _ => False) ∧ w.Evolves (w.assemble options data).2 := by
  obtain ⟨h₁, hevolves₁⟩ := Sourced.observe (.object data) (hw.mono fun _ hf => hf.elim)
  unfold World.assemble
  generalize w.observe (.object data) = w₁ at h₁ hevolves₁ ⊢
  generalize options.directives.foldl _ Registry.standard = registry
  -- the root is a new object, the view model comes after all others
  let made := w₁.addTracker.2.addObject
  have hmade : w₁.Steady made.2 := by
    refine Steady.trans ?_ (steady_addObject _)
    exact steady_of_eq rfl (Nat.le_refl _) rfl rfl
  have hroot : made.2.object made.1 = default := Table.get_add_fresh _ _
  let vm : ViewModel Code :=
    { settings := options.settings, tracker := w₁.addTracker.1, data, root := made.1, registry
      document := options.document }
  have hadd := hmade.trans (steady_addViewModel made.2 vm)
  have howner : Key.index (made.2.addViewModel vm).1 < (made.2.addViewModel vm).2.viewModels.size := by
    change Key.index made.2.viewModels.fresh < (made.2.viewModels.add vm).size
    rw [Table.index_fresh, Table.size_add]
    exact Nat.lt_succ_self _
  have hdata : ((made.2.addViewModel vm).2.viewModel (made.2.addViewModel vm).1).data = data :=
    congrArg ViewModel.data (Table.get_add_fresh made.2.viewModels vm)
  have hbare : (made.2.addViewModel vm).2.Bare made.1 := by
    change (∀ key value source, (made.2.object made.1).slot? key ≠ _) ∧
      ∀ key, (made.2.object made.1).awaited.find? key = none
    rw [hroot]
    refine ⟨fun _ _ _ h => ?_, fun _ => rfl⟩
    cases h
  obtain ⟨h₂, hevolves₂⟩ := (h₁.steady hadd).defineComputed howner hdata vm.tracker
    options.settings.memoize options.computed.toList
  obtain ⟨⟨h₃, hevolves₃⟩, hbare₃⟩ := h₂.defineMethods (hbare.defineComputed _ data vm.tracker _ _)
    options.methods.toList
  obtain ⟨⟨h₄, hevolves₄⟩, hbare₄⟩ := h₃.defineProxies hbare₃ data
    ((World.defineMethods made.1 _ options.methods.toList).object data).keys
  obtain ⟨h₅, hevolves₅⟩ := h₄.putBare hbare₄ "$data" (.constant (.object data))
    (fun _ _ => Slot.noConfusion) fun _ => Slot.noConfusion
  exact ⟨h₅, hevolves₁.trans (hadd.evolves.trans (hevolves₂.trans (hevolves₃.trans
    (hevolves₄.trans hevolves₅))))⟩

end Assembling

/-- Nothing has a source in an empty world. -/
theorem sourced_empty (memory : Memory) :
    ({ memory } : World Code Memory).Sourced fun _ => False := by
  have hbelongs : ∀ {s object key}, ¬ ({ memory } : World Code Memory).Belongs s object key := by
    rintro s object key (h | h | h) <;> cases h
  constructor
  case unique => exact fun h => absurd h hbelongs
  case fresh => exact fun h => absurd h hbelongs
  case child =>
    intro id key child source _ h
    cases h
  all_goals
    intros
    contradiction

end ViewBinding.World
