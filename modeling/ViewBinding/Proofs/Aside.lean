import ViewBinding.Proofs.Frame
import ViewBinding.Proofs.Reading

/-!
# What reading leaves alone

Reading keeps books: who listens to what, which keys are waited for, how often a getter ran. The data,
the stacks and the values that are kept are the same before and after such an entry. View models are
kept alive by whoever holds them and by nothing else.
-/

namespace ViewBinding

variable {Code Memory : Type} [Inhabited Code]

namespace World

/-- What a key of an object stands for, proxies followed. -/
def slotAt (w : World Code Memory) (object : ObjectId) (key : String) : Option Slot :=
  (w.object (w.resolve object key).1).slot? (w.resolve object key).2

omit [Inhabited Code] in
theorem follow_congr {w w' : World Code Memory}
    (h : ∀ id, (w'.object id).slots = (w.object id).slots) (steps : Nat) (object : ObjectId)
    (key : String) : w'.follow steps object key = w.follow steps object key := by
  induction steps generalizing object key with
  | zero => rfl
  | succ steps inductionHypothesis =>
    simp only [follow, Object.slot?, h]
    split
    · exact inductionHypothesis _ _
    · rfl

omit [Inhabited Code] in
theorem SameData.resolve_eq {w w' : World Code Memory} (h : w.SameData w') (object : ObjectId)
    (key : String) : w'.resolve object key = w.resolve object key := by
  rw [resolve, resolve, h.size, follow_congr h.slots]

omit [Inhabited Code] in
theorem SameData.slotAt_eq {w w' : World Code Memory} (h : w.SameData w') (object : ObjectId)
    (key : String) : w'.slotAt object key = w.slotAt object key := by
  rw [slotAt, slotAt, h.resolve_eq, Object.slot?, Object.slot?, h.slots]

/-! ### View models live while somebody holds them -/

theorem viewModel_not_owned (w : World Code Memory) (id : ViewModelId) (y : Ref) :
    Ref.viewModel id ∉ w.owned y := by
  have hvalue := Engine.ReadingRules.refs_no_viewModel
  cases y with
  | object j =>
    simp only [owned, Object.refs, List.mem_flatMap, not_exists, not_and]
    intro slot _
    cases slot <;> simp [Slot.refs, hvalue]
  | array j => simp [owned, hvalue]
  | computed j =>
    cases h : (w.computed j).cache <;> simp [owned, Computed.refs, h, hvalue]
  | watcher j =>
    cases h : (w.watcher j).reaction <;> simp [owned, Watcher.refs, Reaction.refs, h, hvalue]
  | probe j => simp [owned]
  | node j => simp [owned, Node.refs, hvalue]
  | binding j => simp [owned, Binding.refs]
  | viewModel j => simp [owned, ViewModel.refs]

theorem alive_viewModel (w : World Code Memory) (embedder : List Ref) (id : ViewModelId) :
    w.alive embedder (.viewModel id) = true ↔
      Ref.viewModel id ∈ embedder ∨ Ref.viewModel id ∈ w.held := by
  have hevaluating : Ref.viewModel id ∉ w.evaluating := by
    simp only [evaluating, List.mem_flatMap, List.mem_filterMap, Option.map_eq_some_iff, not_exists,
      not_and]
    intro _ _ _ _ subscriber _
    cases subscriber <;> simp [Subscriber.ref]
  have hroots : Ref.viewModel id ∈ w.roots embedder ↔
      Ref.viewModel id ∈ embedder ∨ Ref.viewModel id ∈ w.held := by
    simp [roots, hevaluating]
  rw [← hroots]
  constructor
  · intro h
    refine Classical.byContradiction fun hnot => ?_
    have hfold : ∀ all known : List Ref,
        all.foldlM (fun known _ => some known) known = some known := by
      intro all known
      induction all with
      | nil => rfl
      | cons y rest inductionHypothesis => exact inductionHypothesis
    rw [alive_eq_lives, lives, gone?] at h
    simp only [List.contains_iff_mem, List.not_mem_nil, hnot, if_false] at h
    simp [viewModel_not_owned, hfold] at h
  · exact alive_of_mem_roots

end World

/-! ### Rows without their bookkeeping -/

def Getter.code {Code : Type} : Getter Code → Code
  | .ofViewModel _ code => code
  | .free code => code

def Getter.owner? {Code : Type} : Getter Code → Option ViewModelId
  | .ofViewModel owner _ => some owner
  | .free _ => none

namespace Computed

variable {Code : Type}

/-- The value, as far as it is kept. -/
def known? (x : Computed Code) : Option Value :=
  if x.memoize then x.cache else none

/-- What stays as it was made. -/
def base (x : Computed Code) : Computed Code :=
  { x with cache := none, dependencies := {}, evaluations := 0 }

/-- What readers get to see. -/
def face (x : Computed Code) : Computed Code :=
  { x with dependencies := {}, evaluations := 0 }

theorem base_eq_of_face_eq {x y : Computed Code} (h : x.face = y.face) : x.base = y.base := by
  simp_all [face, base]

theorem known?_eq_of_face_eq {x y : Computed Code} (h : x.face = y.face) : x.known? = y.known? := by
  simp_all [face, known?]

theorem getter_eq_of_base_eq {x y : Computed Code} (h : x.base = y.base) : x.getter = y.getter := by
  simp_all [base]

theorem memoize_eq_of_base_eq {x y : Computed Code} (h : x.base = y.base) :
    x.memoize = y.memoize := by
  simp_all [base]

theorem tracker_eq_of_base_eq {x y : Computed Code} (h : x.base = y.base) :
    x.tracker = y.tracker := by
  simp_all [base]

theorem cache_eq_of_face_eq {x y : Computed Code} (h : x.face = y.face) : x.cache = y.cache := by
  simp_all [face]

theorem source_eq_of_base_eq {x y : Computed Code} (h : x.base = y.base) : x.source = y.source := by
  simp_all [base]

end Computed

/-- A watcher without what it depends on. -/
def Watcher.face {Code : Type} (x : Watcher Code) : Watcher Code :=
  { x with dependencies := {} }

theorem Watcher.fields_eq_of_face_eq {Code : Type} {x y : Watcher Code} (h : x.face = y.face) :
    x.tracker = y.tracker ∧ x.root = y.root ∧ x.path = y.path ∧ x.cached = y.cached
      ∧ x.disposed = y.disposed := by
  simp_all [face]

/-- The stacks are as they were, and so is what is held. -/
structure World.Rests (holds : Memory → List Ref) (w w' : World Code Memory) : Prop where
  trackers : ∀ id, w'.tracker id = w.tracker id
  held : w'.held = w.held
  holds : holds w'.memory = holds w.memory
  watchers : ∀ id, (w'.watcher id).face = (w.watcher id).face

/-- Nothing but the bookkeeping of reading has changed. -/
structure World.Aside (holds : Memory → List Ref) (w w' : World Code Memory) : Prop
    extends World.Rests holds w w' where
  data : w.SameData w'
  computeds : ∀ id, (w'.computed id).face = (w.computed id).face

namespace World

variable {holds : Memory → List Ref} {w w₁ w₂ : World Code Memory}

omit [Inhabited Code] in
theorem Rests.refl (w : World Code Memory) : Rests holds w w :=
  ⟨fun _ => rfl, rfl, rfl, fun _ => rfl⟩

omit [Inhabited Code] in
theorem Rests.trans (h : Rests holds w w₁) (h' : Rests holds w₁ w₂) : Rests holds w w₂ where
  trackers id := (h'.trackers id).trans (h.trackers id)
  held := h'.held.trans h.held
  holds := h'.holds.trans h.holds
  watchers id := (h'.watchers id).trans (h.watchers id)

theorem Aside.refl (w : World Code Memory) : Aside holds w w where
  toRests := .refl w
  data := .refl w
  computeds _ := rfl

theorem Aside.trans (h : Aside holds w w₁) (h' : Aside holds w₁ w₂) : Aside holds w w₂ where
  toRests := h.toRests.trans h'.toRests
  data := h.data.trans h'.data
  computeds id := (h'.computeds id).trans (h.computeds id)

/-- A change of the sources alone. -/
theorem aside_sources (w : World Code Memory) (sources : Table SourceId Source) :
    Aside holds w { w with sources } where
  toRests := ⟨fun _ => rfl, rfl, rfl, fun _ => rfl⟩
  data := ⟨rfl, fun _ => rfl, fun _ => rfl, rfl, rfl, rfl, rfl, rfl, rfl⟩
  computeds _ := rfl

theorem aside_note {application : Application Code Memory}
    (hquiet : ∀ o w, holds (application.notes o w) = holds w.memory) (w : World Code Memory)
    (occurrence : Occurrence) : Aside holds w (w.note application occurrence) where
  toRests := ⟨fun _ => rfl, rfl, hquiet occurrence w, fun _ => rfl⟩
  data := ⟨rfl, fun _ => rfl, fun _ => rfl, rfl, rfl, rfl, rfl, rfl, rfl⟩
  computeds _ := rfl

theorem aside_mapDependencies (w : World Code Memory) (subscriber : Subscriber)
    (f : Dependencies → Dependencies) : Aside holds w (w.mapDependencies subscriber f) := by
  cases subscriber with
  | watcher id =>
    refine ⟨⟨fun _ => rfl, rfl, rfl, ?_⟩,
      ⟨rfl, fun _ => rfl, fun _ => rfl, rfl, rfl, rfl, rfl, rfl, rfl⟩, fun _ => rfl⟩
    intro j
    simp only [mapDependencies, watcher_mapWatcher]
    split
    · next h => rw [h]; rfl
    · rfl
  | computed id =>
    refine ⟨⟨fun _ => rfl, rfl, rfl, fun _ => rfl⟩,
      ⟨rfl, fun _ => rfl, fun _ => rfl, rfl, rfl, rfl, rfl, rfl, rfl⟩, ?_⟩
    intro j
    simp only [mapDependencies, computed_mapComputed]
    split
    · next h => rw [h]; rfl
    · rfl
  | probe id => exact .refl w

theorem aside_settle (w : World Code Memory) (subscriber : Subscriber) :
    Aside holds w (w.settle subscriber) := by
  rw [settle_eq]
  exact (aside_mapDependencies w subscriber _).trans (aside_sources _ _)

theorem aside_count (w : World Code Memory) (id : ComputedId) :
    Aside holds w (w.mapComputed id fun x => { x with evaluations := x.evaluations + 1 }) where
  toRests := ⟨fun _ => rfl, rfl, rfl, fun _ => rfl⟩
  data := ⟨rfl, fun _ => rfl, fun _ => rfl, rfl, rfl, rfl, rfl, rfl, rfl⟩
  computeds j := by
    rw [computed_mapComputed]
    split
    · next h => rw [h]; rfl
    · rfl

theorem aside_await (w : World Code Memory) {object : ObjectId} (key : String)
    (hobserved : (w.object object).observed = true) : Aside holds w (w.await object key).2 := by
  unfold await
  split
  · exact .refl w
  · have hlt : Key.index object < w.objects.size := by
      refine Classical.byContradiction fun hle => ?_
      have hdefault : w.object object = default := Table.get_of_size_le _ (by omega)
      rw [hdefault] at hobserved
      cases hobserved
    refine ⟨⟨fun _ => rfl, rfl, rfl, fun _ => rfl⟩,
      ⟨Table.size_modify_of_lt _ hlt _, ?_, ?_, rfl, rfl, rfl, rfl, rfl, rfl⟩, fun _ => rfl⟩
    · intro j
      simp only [object_mapObject]
      split
      · next h => rw [h]; rfl
      · rfl
    · intro j
      simp only [object_mapObject]
      split
      · next h => rw [h]; rfl
      · rfl

end World

end ViewBinding
