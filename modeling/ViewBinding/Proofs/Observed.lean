import ViewBinding.Proofs.Frame

/-!
# The graph of observed objects

An observed object has a source for every stored field, and what its fields hold is observed too. A
source belongs to one key of one object for good. The relations below say what changes of a world keep
of this: `Grows` passes over everything but the tables, `Steady` leaves the objects alone, and
`ChangesAt` touches a single key.
-/

namespace ViewBinding.World

variable {Code Memory : Type} [Inhabited Code]

/-- A source that hears of a key: of its field, of its computed property, or waited on while the key is
absent. -/
inductive Belongs (w : World Code Memory) (s : SourceId) (object : ObjectId) (key : String) : Prop
  | field {value : Value} (h : (w.object object).slot? key = some (.field value (some s)))
  | computed {id : ComputedId} (h : (w.object object).slot? key = some (.computed id))
      (hs : (w.computed id).source = s)
  | awaited (h : (w.object object).awaited.find? key = some s)

/-- A view model has defined a computed property under a key, and it is not one of the first `n`. -/
def DefinedSince (w : World Code Memory) (n : Nat) (object : ObjectId) (key : String) : Prop :=
  ∃ id : ComputedId, n ≤ Key.index id ∧ Key.index id < w.computeds.size ∧ (w.computed id).name = key ∧
    ∃ owner, Key.index owner < w.viewModels.size ∧ (w.viewModel owner).data = object ∧
      ∃ code, (w.computed id).getter = .ofViewModel owner code

/-- Sources are in order, but for objects that are `pending`: they may be values of an observed object
without being observed. -/
structure Sourced (pending : ObjectId → Prop) (w : World Code Memory) : Prop where
  field {object : ObjectId} {key : String} {value : Value} {source : Option SourceId} :
    (w.object object).slot? key = some (.field value source) →
      (source.isSome ↔ (w.object object).observed = true)
  child {object child : ObjectId} {key : String} {source : Option SourceId} :
    (w.object object).observed = true →
      (w.object object).slot? key = some (.field (.object child) source) →
        (w.object child).observed = true ∨ pending child
  unique {s : SourceId} {object object' : ObjectId} {key key' : String} :
    w.Belongs s object key → w.Belongs s object' key' → object = object' ∧ key = key'
  awaiting {object : ObjectId} {key : String} {s : SourceId} :
    (w.object object).awaited.find? key = some s → (w.object object).observed = true
  arrived {object : ObjectId} {key : String} {s : SourceId} :
    (w.object object).awaited.find? key = some s →
      (w.object object).slot? key = none ∨ w.DefinedSince 0 object key
  fresh {s : SourceId} {object : ObjectId} {key : String} :
    w.Belongs s object key → Key.index s < w.sources.size
  made {object : ObjectId} {key : String} {id : ComputedId} :
    (w.object object).slot? key = some (.computed id) → Key.index id < w.computeds.size

/-- The source of a key that is a stored field, or is absent and waited for. -/
def ownSource (w : World Code Memory) (object : ObjectId) (key : String) : Option SourceId :=
  match (w.object object).slot? key with
  | some (.field _ source) => source
  | none => (w.object object).awaited.find? key
  | _ => none

/-- Every key has kept its source, unless a computed property has been defined under it since. -/
def KeepsSources (w w' : World Code Memory) : Prop :=
  ∀ object key s, w.ownSource object key = some s →
    w'.ownSource object key = some s ∨ w'.DefinedSince w.computeds.size object key

/-! ### Tables grow -/

/-- Nothing that the sources of keys rest on has been taken away. -/
structure Grows (w w' : World Code Memory) : Prop where
  heap : w.objects.size ≤ w'.objects.size
  sources : w.sources.size ≤ w'.sources.size
  computeds : w.computeds.size ≤ w'.computeds.size
  computed : ∀ id, Key.index id < w.computeds.size → (w'.computed id).name = (w.computed id).name ∧
    (w'.computed id).getter = (w.computed id).getter ∧ (w'.computed id).source = (w.computed id).source
  viewModels : w.viewModels.size ≤ w'.viewModels.size
  data : ∀ id, Key.index id < w.viewModels.size → (w'.viewModel id).data = (w.viewModel id).data

section Relations

variable {w w₁ w₂ : World Code Memory}

theorem Grows.refl (w : World Code Memory) : w.Grows w :=
  ⟨Nat.le_refl _, Nat.le_refl _, Nat.le_refl _, fun _ _ => ⟨rfl, rfl, rfl⟩, Nat.le_refl _, fun _ _ => rfl⟩

theorem Grows.trans (h : w.Grows w₁) (h' : w₁.Grows w₂) : w.Grows w₂ where
  heap := Nat.le_trans h.heap h'.heap
  sources := Nat.le_trans h.sources h'.sources
  computeds := Nat.le_trans h.computeds h'.computeds
  computed id hid := by
    obtain ⟨hname, hgetter, hsource⟩ := h.computed id hid
    obtain ⟨hname', hgetter', hsource'⟩ := h'.computed id (Nat.lt_of_lt_of_le hid h.computeds)
    exact ⟨hname'.trans hname, hgetter'.trans hgetter, hsource'.trans hsource⟩
  viewModels := Nat.le_trans h.viewModels h'.viewModels
  data id hid := (h'.data id (Nat.lt_of_lt_of_le hid h.viewModels)).trans (h.data id hid)

theorem Grows.defined (h : w.Grows w₁) {m n : Nat} (hmn : m ≤ n) {object : ObjectId} {key : String}
    (hdefined : w.DefinedSince n object key) : w₁.DefinedSince m object key := by
  obtain ⟨id, hn, hid, hname, owner, howner, hdata, code, hgetter⟩ := hdefined
  obtain ⟨hname', hgetter', -⟩ := h.computed id hid
  exact ⟨id, Nat.le_trans hmn hn, Nat.lt_of_lt_of_le hid h.computeds, hname'.trans hname, owner,
    Nat.lt_of_lt_of_le howner h.viewModels, (h.data owner howner).trans hdata, code,
    hgetter'.trans hgetter⟩

theorem KeepsSources.trans (h : w.KeepsSources w₁) (h' : w₁.KeepsSources w₂) (hgrows : w.Grows w₁)
    (hgrows' : w₁.Grows w₂) : w.KeepsSources w₂ := by
  intro object key s hs
  rcases h object key s hs with h₁ | hdefined
  · rcases h' object key s h₁ with h₂ | hdefined
    · exact Or.inl h₂
    · exact Or.inr ((Grows.refl w₂).defined hgrows.computeds hdefined)
  · exact Or.inr (hgrows'.defined (Nat.le_refl _) hdefined)

/-! ### The objects stay as they are -/

/-- The objects have not changed, and the tables may have grown. -/
structure Steady (w w' : World Code Memory) : Prop extends w.Grows w' where
  objects : ∀ id, w'.object id = w.object id

theorem Steady.refl (w : World Code Memory) : w.Steady w :=
  ⟨.refl w, fun _ => rfl⟩

theorem Steady.trans (h : w.Steady w₁) (h' : w₁.Steady w₂) : w.Steady w₂ :=
  ⟨h.toGrows.trans h'.toGrows, fun id => (h'.objects id).trans (h.objects id)⟩

theorem Steady.ownSource (h : w.Steady w₁) (object : ObjectId) (key : String) :
    w₁.ownSource object key = w.ownSource object key := by
  rw [World.ownSource, h.objects, World.ownSource]

theorem Steady.keepsSources (h : w.Steady w₁) : w.KeepsSources w₁ :=
  fun object key _ hs => Or.inl ((h.ownSource object key).trans hs)

end Relations

/-! ### One key changes -/

/-- No key but one has changed, and the tables may have grown. -/
structure ChangesAt (object : ObjectId) (key : String) (w w' : World Code Memory) : Prop
    extends w.Grows w' where
  observed : ∀ id, (w'.object id).observed = (w.object id).observed
  slots : ∀ id name, id ≠ object ∨ name ≠ key →
    (w'.object id).slot? name = (w.object id).slot? name
  awaited : ∀ id name, id ≠ object ∨ name ≠ key →
    (w'.object id).awaited.find? name = (w.object id).awaited.find? name

section ChangesAt

variable {w w₁ w₂ : World Code Memory} {object : ObjectId} {key : String} {pending : ObjectId → Prop}

theorem Steady.changesAt (h : w.Steady w₁) (object : ObjectId) (key : String) :
    ChangesAt object key w w₁ where
  toGrows := h.toGrows
  observed id := by rw [h.objects]
  slots id name _ := by rw [h.objects]
  awaited id name _ := by rw [h.objects]

theorem ChangesAt.trans (h : ChangesAt object key w w₁) (h' : ChangesAt object key w₁ w₂) :
    ChangesAt object key w w₂ where
  toGrows := h.toGrows.trans h'.toGrows
  observed id := (h'.observed id).trans (h.observed id)
  slots id name hne := (h'.slots id name hne).trans (h.slots id name hne)
  awaited id name hne := (h'.awaited id name hne).trans (h.awaited id name hne)

theorem ChangesAt.belongs (h : ChangesAt object key w w₁) (hw : w.Sourced pending) {s : SourceId}
    {id : ObjectId} {name : String} (hne : id ≠ object ∨ name ≠ key) (hs : w₁.Belongs s id name) :
    w.Belongs s id name := by
  cases hs with
  | field hslot => exact .field ((h.slots id name hne).symm.trans hslot)
  | @computed computed hslot hsource =>
    have hslot' := (h.slots id name hne).symm.trans hslot
    exact .computed hslot' ((h.computed computed (hw.made hslot')).2.2.symm.trans hsource)
  | awaited hawaited => exact .awaited ((h.awaited id name hne).symm.trans hawaited)

theorem ChangesAt.ownSource (h : ChangesAt object key w w₁) {id : ObjectId} {name : String}
    (hne : id ≠ object ∨ name ≠ key) : w₁.ownSource id name = w.ownSource id name := by
  rw [World.ownSource, h.slots id name hne, h.awaited id name hne, World.ownSource]

theorem ChangesAt.keepsSources (h : ChangesAt object key w w₁)
    (hkey : ∀ s, w.ownSource object key = some s →
      w₁.ownSource object key = some s ∨ w₁.DefinedSince w.computeds.size object key) :
    w.KeepsSources w₁ := by
  intro id name s hs
  by_cases hid : id = object ∧ name = key
  · obtain ⟨rfl, rfl⟩ := hid
    exact hkey s hs
  · exact Or.inl ((h.ownSource (by grind)).trans hs)

/-- Sources are in order again if they are at the key that has changed. A source that it did not have
before is a new one. -/
theorem Sourced.changeAt (hw : w.Sourced pending) (h : ChangesAt object key w w₁)
    {pending' : ObjectId → Prop} (hpending : ∀ id, pending id → pending' id)
    (hbelongs : ∀ s, w₁.Belongs s object key →
      w.Belongs s object key ∨ w.sources.size ≤ Key.index s ∧ Key.index s < w₁.sources.size)
    (hfield : ∀ value source, (w₁.object object).slot? key = some (.field value source) →
      (source.isSome ↔ (w.object object).observed = true) ∧ ∀ child, value = .object child →
        (w.object object).observed = true → (w.object child).observed = true ∨ pending' child)
    (hawaited : ∀ s, (w₁.object object).awaited.find? key = some s →
      (w.object object).observed = true ∧
        ((w₁.object object).slot? key = none ∨ w₁.DefinedSince 0 object key))
    (hmade : ∀ id, (w₁.object object).slot? key = some (.computed id) →
      Key.index id < w₁.computeds.size) : w₁.Sourced pending' := by
  have hfresh : ∀ {s id name}, w₁.Belongs s id name → w.Belongs s id name ∨
      w.sources.size ≤ Key.index s ∧ Key.index s < w₁.sources.size ∧ id = object ∧ name = key := by
    intro s id name hs
    by_cases hid : id = object ∧ name = key
    · obtain ⟨rfl, rfl⟩ := hid
      exact (hbelongs s hs).imp_right fun hnew => ⟨hnew.1, hnew.2, rfl, rfl⟩
    · exact Or.inl (h.belongs hw (by grind) hs)
  constructor
  case field =>
    intro id name value source hslot
    rw [h.observed]
    by_cases hid : id = object ∧ name = key
    · obtain ⟨rfl, rfl⟩ := hid
      exact (hfield value source hslot).1
    · rw [h.slots id name (by grind)] at hslot
      exact hw.field hslot
  case child =>
    intro id child name source hobserved hslot
    rw [h.observed] at hobserved ⊢
    by_cases hid : id = object ∧ name = key
    · obtain ⟨rfl, rfl⟩ := hid
      exact (hfield _ source hslot).2 child rfl hobserved
    · rw [h.slots id name (by grind)] at hslot
      exact (hw.child hobserved hslot).imp_right (hpending child)
  case unique =>
    intro s id id' name name' hs hs'
    rcases hfresh hs with hold | ⟨hle, -, hid, hname⟩
    · rcases hfresh hs' with hold' | ⟨hle', -⟩
      · exact hw.unique hold hold'
      · exact absurd (hw.fresh hold) (Nat.not_lt.mpr hle')
    · rcases hfresh hs' with hold' | ⟨-, -, hid', hname'⟩
      · exact absurd (hw.fresh hold') (Nat.not_lt.mpr hle)
      · exact ⟨hid.trans hid'.symm, hname.trans hname'.symm⟩
  case awaiting =>
    intro id name s hs
    rw [h.observed]
    by_cases hid : id = object ∧ name = key
    · obtain ⟨rfl, rfl⟩ := hid
      exact (hawaited s hs).1
    · rw [h.awaited id name (by grind)] at hs
      exact hw.awaiting hs
  case arrived =>
    intro id name s hs
    by_cases hid : id = object ∧ name = key
    · obtain ⟨rfl, rfl⟩ := hid
      exact (hawaited s hs).2
    · rw [h.awaited id name (by grind)] at hs
      rw [h.slots id name (by grind)]
      exact (hw.arrived hs).imp_right (h.defined (Nat.le_refl 0))
  case fresh =>
    intro s id name hs
    rcases hfresh hs with hold | ⟨-, hlt, -⟩
    · exact Nat.lt_of_lt_of_le (hw.fresh hold) h.sources
    · exact hlt
  case made =>
    intro id name computed hslot
    by_cases hid : id = object ∧ name = key
    · obtain ⟨rfl, rfl⟩ := hid
      exact hmade computed hslot
    · rw [h.slots id name (by grind)] at hslot
      exact Nat.lt_of_lt_of_le (hw.made hslot) h.computeds

theorem Sourced.steady (hw : w.Sourced pending) (h : w.Steady w₁) : w₁.Sourced pending := by
  have hbelongs : ∀ {s id name}, w₁.Belongs s id name → w.Belongs s id name := by
    intro s id name hs
    cases hs with
    | field hslot => exact .field (h.objects id ▸ hslot)
    | @computed computed hslot hsource =>
      rw [h.objects] at hslot
      exact .computed hslot ((h.computed computed (hw.made hslot)).2.2.symm.trans hsource)
    | awaited hawaited => exact .awaited (h.objects id ▸ hawaited)
  constructor
  case field =>
    intro id name value source hslot
    rw [h.objects] at hslot ⊢
    exact hw.field hslot
  case child =>
    intro id child name source hobserved hslot
    rw [h.objects] at hobserved hslot ⊢
    exact hw.child hobserved hslot
  case unique => exact fun hs hs' => hw.unique (hbelongs hs) (hbelongs hs')
  case awaiting =>
    intro id name s hs
    rw [h.objects] at hs ⊢
    exact hw.awaiting hs
  case arrived =>
    intro id name s hs
    rw [h.objects] at hs ⊢
    exact (hw.arrived hs).imp_right (h.defined (Nat.le_refl 0))
  case fresh => exact fun hs => Nat.lt_of_lt_of_le (hw.fresh (hbelongs hs)) h.sources
  case made =>
    intro id name computed hslot
    rw [h.objects] at hslot
    exact Nat.lt_of_lt_of_le (hw.made hslot) h.computeds

end ChangesAt

end ViewBinding.World
