import ViewBinding.Proofs.Building
import ViewBinding.Proofs.Everywhere

/-!
# Sources stay with their keys

At every moment of every run the graph of observed objects is in order: fields of observed objects have
sources, what they hold is observed, and no source has two keys. A source that was seen at a key is the
source of that key ever after, whether readers wait for the key or it has come into being, unless a
view model defines a computed property under it.
-/

namespace ViewBinding

variable {Code Memory : Type}

/-- A source that a key was seen to have, when there were so many computed properties. -/
structure Sighting where
  object : ObjectId
  key : String
  source : SourceId
  computeds : Nat

namespace Sighting

variable [Inhabited Code]

/-- The key is a stored field with this source, or absent and waited for with this source. -/
def Made (x : Sighting) (w : World Code Memory) : Prop :=
  w.ownSource x.object x.key = some x.source ∧ w.computeds.size = x.computeds

/-- The key has this source, unless a computed property has been defined under it since. -/
def Stands (x : Sighting) (w : World Code Memory) : Prop :=
  w.ownSource x.object x.key = some x.source ∨ w.DefinedSince x.computeds x.object x.key

end Sighting

/-- A request that notes no source but one that its key has at the time. -/
def Request.Honest [Inhabited Code] (sightings : Memory → List Sighting) :
    Request Code Memory → World Code Memory → Prop
  | .remember f, w => ∀ x ∈ sightings (f w.memory), x ∈ sightings w.memory ∨ x.Made w
  | _, _ => True

/-- An embedder that notes no source but those that keys have at the time. -/
structure Application.Honest [Inhabited Code] (application : Application Code Memory)
    (sightings : Memory → List Sighting) : Prop where
  notes (occurrence : Occurrence) (w : World Code Memory) :
    ∀ x ∈ sightings (application.notes occurrence w), x ∈ sightings w.memory ∨ x.Made w
  programs : application.Makes (Request.Honest sightings)

/-- The graph of observed objects is in order. -/
structure World.Orderly [Inhabited Code] (w : World Code Memory) : Prop where
  /-- A stored field has a source exactly if its object is observed. -/
  field {object : ObjectId} {key : String} {value : Value} {source : Option SourceId} :
    (w.object object).slot? key = some (.field value source) →
      (source.isSome ↔ (w.object object).observed = true)
  /-- What a field of an observed object holds is observed. -/
  child {object child : ObjectId} {key : String} {source : Option SourceId} :
    (w.object object).observed = true →
      (w.object object).slot? key = some (.field (.object child) source) →
        (w.object child).observed = true
  /-- A source belongs to one key of one object. -/
  unique {s : SourceId} {object object' : ObjectId} {key key' : String} :
    w.Belongs s object key → w.Belongs s object' key' → object = object' ∧ key = key'
  /-- A key that has come into being is not waited for any longer. -/
  arrived {object : ObjectId} {key : String} {value : Value} {source : Option SourceId} :
    (w.object object).slot? key = some (.field value source) → ¬ w.DefinedSince 0 object key →
      (w.object object).awaited.find? key = none

variable [Inhabited Code]

theorem World.Sourced.orderly {w : World Code Memory} (h : w.Sourced fun _ => False) :
    w.Orderly where
  field := h.field
  child hobserved hslot := (h.child hobserved hslot).resolve_right id
  unique := h.unique
  arrived := by
    intro object key value source hslot hdefined
    refine Option.eq_none_iff_forall_not_mem.mpr fun s hs => ?_
    rcases h.arrived hs with hnone | hsince
    · rw [hslot] at hnone
      cases hnone
    · exact hdefined hsince

/-- Sources are in order and all sightings stand. -/
structure World.Kept (sightings : Memory → List Sighting) (w : World Code Memory) : Prop where
  sourced : w.Sourced fun _ => False
  stands : ∀ x ∈ sightings w.memory, x.Stands w ∧ x.computeds ≤ w.computeds.size

section Kept

variable {sightings : Memory → List Sighting} {w w' : World Code Memory}

theorem Sighting.Stands.evolve {x : Sighting} (h : x.Stands w) (hle : x.computeds ≤ w.computeds.size)
    (hw : w.Evolves w') : x.Stands w' := by
  rcases h with hsource | hdefined
  · rcases hw.keeps _ _ _ hsource with hsource' | hdefined
    · exact Or.inl hsource'
    · exact Or.inr ((World.Grows.refl w').defined hle hdefined)
  · exact Or.inr (hw.toGrows.defined (Nat.le_refl _) hdefined)

theorem World.Kept.evolve (h : w.Kept sightings)
    (hw : w'.Sourced (fun _ => False) ∧ w.Evolves w') (hmemory : w'.memory = w.memory) :
    w'.Kept sightings := by
  refine ⟨hw.1, fun x hx => ?_⟩
  rw [hmemory] at hx
  obtain ⟨hstands, hle⟩ := h.stands x hx
  exact ⟨hstands.evolve hle hw.2, Nat.le_trans hle hw.2.computeds⟩

/-- What is noted honestly stands. -/
theorem World.Kept.remember (h : w.Kept sightings) {memory : Memory}
    (hmemory : ∀ x ∈ sightings memory, x ∈ sightings w.memory ∨ x.Made w) :
    ({ w with memory } : World Code Memory).Kept sightings := by
  have hsteady : w.Steady { w with memory } := World.steady_of_eq rfl (Nat.le_refl _) rfl rfl
  refine ⟨h.sourced.steady hsteady, fun x hx => ?_⟩
  rcases hmemory x hx with hold | ⟨hsource, hcomputeds⟩
  · exact h.stands x hold
  · exact ⟨Or.inl hsource, Nat.le_of_eq hcomputeds.symm⟩

/-- Loading, storing and observing leave the memory alone. -/
theorem World.memory_observe (w : World Code Memory) (value : Value) :
    (w.observe value).memory = w.memory :=
  (World.raises_observe w value).memory

theorem Engine.invariant_kept {application : Application Code Memory}
    (happ : application.Honest sightings) :
    Invariant application (Request.Honest sightings) (World.Kept sightings) where
  steady hw hmemory h := h.evolve ⟨h.sourced.steady hw, hw.evolves⟩ hmemory
  note w occurrence h := h.remember (happ.notes occurrence w)
  remember hok h := h.remember hok
  store w object key value h :=
    h.evolve (h.sourced.store object key value) (World.raises_store w object key value).memory
  write hslot h := by
    obtain ⟨hsourced, hevolves⟩ := h.sourced.rewrite hslot
    exact h.evolve ⟨hsourced.mono fun _ hid => Bool.noConfusion hid.1, hevolves⟩ rfl
  writeObserved hslot h := by
    obtain ⟨hsourced, hevolves⟩ := h.sourced.rewrite hslot
    obtain ⟨hobserved, hevolves'⟩ := (hsourced.mono fun _ hid => hid.2).observe
    exact h.evolve ⟨hobserved, hevolves.trans hevolves'⟩ (World.memory_observe _ _)
  await hobserved hslot h :=
    h.evolve (h.sourced.await hobserved hslot) (World.raises_await _ _ _).memory
  observe w value h :=
    h.evolve (h.sourced.mono fun _ hf => hf.elim).observe (World.memory_observe w value)
  load w json h := h.evolve (h.sourced.load json) (World.raises_load w json).memory
  assemble w options data h :=
    h.evolve (h.sourced.assemble options data) (World.builds_assemble w options data).memory

end Kept

/--
The graph of observed objects is in order at every moment of every run, and a source that was noted for
a key is the source of the key from then on: as long as the key is absent and waited for or is a stored
field, its source is never replaced.
-/
theorem Engine.sources_stay_with_keys {α : Type} {application : Application Code Memory}
    {sightings : Memory → List Sighting} (happ : application.Honest sightings)
    {program : Program Code Memory α} (hprogram : program.Makes (Request.Honest sightings))
    {memory : Memory} (hmemory : sightings memory = []) (depth : Nat) :
    Throughout (fun _ _ w => w.Orderly ∧ ∀ x ∈ sightings w.memory, x.Stands w) application depth
      program { memory } := by
  intro outcome hrun
  rw [← runUnder_of_holds (P := fun _ _ _ => True) fun _ _ _ => trivial] at hrun
  have hkept : ({ memory } : World Code Memory).Kept sightings := by
    refine ⟨World.sourced_empty memory, fun x hx => ?_⟩
    change x ∈ sightings memory at hx
    rw [hmemory] at hx
    cases hx
  refine ((invariant_kept happ).runUnder (fun _ _ w hw _ => ?_) happ.programs depth hprogram _ hkept
    outcome.1 outcome.2 hrun).1
  exact ⟨hw.sourced.orderly, fun x hx => (hw.stands x hx).1⟩

/-! ### An embedder that looks on -/

/-- An embedder whose programs do nothing. -/
def Application.idle : Application Unit Memory where
  holds _ := []
  callback _ _ := .done ()
  method _ _ _ := .done ()
  listener _ _ := .done ()
  getter _ _ := .done .undefined
  update _ := .done ()
  install _ _ _ _ := .fail .detached

/-- Notes the source of a key. -/
def Program.sight (object : ObjectId) (key : String) : Program Unit (List Sighting) Unit :=
  .look fun w =>
    match w.ownSource object key with
    | some source => request (.remember (⟨object, key, source, w.computeds.size⟩ :: ·))
    | none => .done ()

/-- Waits for a key of an observed object, notes the source, and lets the key come into being. -/
def Program.onlooker : Program Unit (List Sighting) Unit := do
  let object ← request .newObject
  request (.observe (.object object))
  let tracker ← request .newTracker
  let probe ← request (.newProbe ())
  request (.enter tracker (some (.probe probe)))
  let _ ← request (.get object "a" (some tracker))
  request (.leave tracker)
  sight object "a"
  request (.insert object "a" (.string "x"))

theorem Application.honest_idle :
    (idle : Application Unit (List Sighting)).Honest id where
  notes _ _ _ hx := Or.inl hx
  programs := ⟨fun _ _ => trivial, fun _ _ _ => trivial, fun _ _ => trivial, fun _ _ => trivial,
    fun _ => trivial, fun _ _ _ _ => trivial⟩

theorem Program.honest_sight (object : ObjectId) (key : String) :
    (sight object key).Makes (Request.Honest id) := by
  intro w
  cases hsource : w.ownSource object key with
  | none =>
    simp only [hsource]
    trivial
  | some source =>
    simp only [hsource]
    refine makes_request fun w' hw' x hx => ?_
    rcases List.mem_cons.mp hx with rfl | hold
    · rw [hw' w rfl]
      exact Or.inr ⟨hsource, rfl⟩
    · exact Or.inl hold

theorem Program.honest_onlooker : onlooker.Makes (Request.Honest id) := by
  refine (makes_request fun _ _ => trivial).bind fun object => ?_
  refine (makes_request fun _ _ => trivial).bind fun _ => ?_
  refine (makes_request fun _ _ => trivial).bind fun tracker => ?_
  refine (makes_request fun _ _ => trivial).bind fun probe => ?_
  refine (makes_request fun _ _ => trivial).bind fun _ => ?_
  refine (makes_request fun _ _ => trivial).bind fun _ => ?_
  refine (makes_request fun _ _ => trivial).bind fun _ => ?_
  exact (honest_sight object "a").bind fun _ => makes_request fun _ _ => trivial

theorem Engine.sources_stay_with_keys_onlooker :
    (Application.idle : Application Unit (List Sighting)).Honest id ∧
      Program.onlooker.Makes (Request.Honest id) ∧
        Throughout (fun _ _ w => w.Orderly ∧ ∀ x ∈ w.memory, x.Stands w) Application.idle 2
          Program.onlooker { memory := [] } :=
  ⟨Application.honest_idle, Program.honest_onlooker,
    sources_stay_with_keys Application.honest_idle Program.honest_onlooker rfl 2⟩

end ViewBinding
