import Mathlib.Data.List.Forall2
import ViewBinding.Proofs.Altering

/-!
# What a view model makes of its data

Making a view model observes the data object and adds its computed properties at the end. Apart from the
sources that observation brings, the keys that were there keep their order and what they hold, and so do
all other objects.
-/

namespace ViewBinding

namespace Entries

variable {κ α : Type} [DecidableEq κ]

/-- A new key goes to the end. -/
theorem toList_put_of_not_mem (e : Entries κ α) {k : κ} (a : α) (hk : k ∉ e.keys) :
    (e.put k a).toList = e.toList ++ [(k, a)] := by
  obtain ⟨pairs, hnodup⟩ := e
  change k ∉ pairs.map Prod.fst at hk
  change putPair k a pairs = pairs ++ [(k, a)]
  clear hnodup
  induction pairs with
  | nil => rfl
  | cons pair rest inductionHypothesis =>
    rw [List.map_cons, List.mem_cons, not_or] at hk
    simp only [putPair, if_neg (Ne.symm hk.1), inductionHypothesis hk.2, List.cons_append]

end Entries

/-- A slot without the source that observation has given it. -/
def Slot.plain : Slot → Slot
  | .field value _ => .field value none
  | slot => slot

namespace World

variable {Code Memory : Type} [Inhabited Code]

/-- The keys of an object in order, with what they hold. -/
def contents (w : World Code Memory) (id : ObjectId) : List (String × Slot) :=
  (w.object id).slots.toList.map fun pair => (pair.1, pair.2.plain)

variable {w w₁ w₂ : World Code Memory}

omit [Inhabited Code] in
theorem map_fst_contents (w : World Code Memory) (id : ObjectId) :
    (w.contents id).map Prod.fst = (w.object id).keys := by
  rw [contents, List.map_map]
  rfl

omit [Inhabited Code] in
theorem contents_congr {id : ObjectId} (h : (w₁.object id).slots = (w.object id).slots) :
    w₁.contents id = w.contents id := by
  rw [contents, h, contents]

theorem Steady.contents (h : w.Steady w₁) (id : ObjectId) : w₁.contents id = w.contents id :=
  contents_congr (congrArg Object.slots (h.objects id))

omit [Inhabited Code] in
theorem contents_putSlot_of_ne {object id : ObjectId} (key : String) (slot : Slot) (h : id ≠ object) :
    (w.putSlot object key slot).contents id = w.contents id :=
  contents_congr (by rw [putSlot, object_mapObject, if_neg h])

omit [Inhabited Code] in
theorem contents_putSlot_new {object : ObjectId} {key : String} (slot : Slot)
    (hkey : key ∉ (w.object object).keys) :
    (w.putSlot object key slot).contents object = w.contents object ++ [(key, slot.plain)] := by
  rw [contents, putSlot, object_mapObject, if_pos rfl]
  change ((w.object object).slots.put key slot).toList.map _ = _
  rw [Entries.toList_put_of_not_mem _ slot hkey, List.map_append]
  rfl

/-! ### Observing -/

omit [Inhabited Code] in
theorem plain_equip (w : World Code Memory) (slot : Slot) : (w.equip slot).1.plain = slot.plain := by
  rcases slot with ⟨value, _ | source⟩ | id | value | ⟨target, key⟩ <;> rfl

omit [Inhabited Code] in
theorem plain_thread_equip (w : World Code Memory) (l : List (String × Slot)) :
    (Entries.thread equip l w).1.map (fun pair => (pair.1, pair.2.plain))
      = l.map fun pair => (pair.1, pair.2.plain) := by
  induction l generalizing w with
  | nil => rfl
  | cons pair rest inductionHypothesis =>
    simp only [Entries.thread_cons, List.map_cons, plain_equip, inductionHypothesis]

theorem contents_instrument (w : World Code Memory) (object id : ObjectId) :
    (w.instrument object).contents id = w.contents id := by
  by_cases h : id = object
  · subst h
    change (((w.object id).slots.mapThread equip w).2.mapObject id _).contents id = _
    rw [contents, object_mapObject, if_pos rfl]
    exact plain_thread_equip w (w.object id).slots.toList
  · exact contents_congr ((instruments w object).slots id h)

theorem contents_instrumentAll (w : World Code Memory) (l : List ObjectId) (id : ObjectId) :
    (l.foldl instrument w).contents id = w.contents id := by
  induction l generalizing w with
  | nil => rfl
  | cons object rest inductionHypothesis =>
    exact (inductionHypothesis (w.instrument object)).trans (contents_instrument w object id)

/-- Observing a value changes nothing that an object holds. -/
theorem contents_observe (w : World Code Memory) (value : Value) (id : ObjectId) :
    (w.observe value).contents id = w.contents id :=
  contents_instrumentAll w (w.reachable value) id

/-! ### Defining -/

/-- A slot is the computed property that a view model has under a name, with the getter of a code. -/
def Computes (w : World Code Memory) (owner : ViewModelId) (named : String × Code)
    (pair : String × Slot) : Prop :=
  ∃ id : ComputedId, pair = (named.1, .computed id) ∧ id.index < w.computeds.size ∧
    (w.computed id).name = named.1 ∧ (w.computed id).getter = .ofViewModel owner named.2

theorem Computes.grows {owner : ViewModelId} {named : String × Code} {pair : String × Slot}
    (h : w.Computes owner named pair) (hgrows : w.Grows w₁) : w₁.Computes owner named pair := by
  obtain ⟨id, hpair, hid, hname, hgetter⟩ := h
  obtain ⟨hname', hgetter', -⟩ := hgrows.computed id hid
  exact ⟨id, hpair, Nat.lt_of_lt_of_le hid hgrows.computeds, hname'.trans hname, hgetter'.trans hgetter⟩

/-- Nothing was taken away, and no object but one holds anything else. -/
structure Beside (object : ObjectId) (w w' : World Code Memory) : Prop extends w.Grows w' where
  contents : ∀ id, id ≠ object → w'.contents id = w.contents id

theorem Beside.trans {object : ObjectId} (h : Beside object w w₁) (h' : Beside object w₁ w₂) :
    Beside object w w₂ :=
  ⟨h.toGrows.trans h'.toGrows, fun id hid => (h'.contents id hid).trans (h.contents id hid)⟩

theorem Steady.beside (h : w.Steady w₁) (object : ObjectId) : Beside object w w₁ :=
  ⟨h.toGrows, fun id _ => h.contents id⟩

theorem beside_putSlot (w : World Code Memory) (object : ObjectId) (key : String) (slot : Slot) :
    Beside object w (w.putSlot object key slot) :=
  ⟨(changesAt_putSlot w object key slot).toGrows, fun _ hid => contents_putSlot_of_ne key slot hid⟩

theorem beside_defineComputed (w : World Code Memory) (owner : ViewModelId) (data : ObjectId)
    (tracker : TrackerId) (memoize : Bool) (l : List (String × Code)) :
    Beside data w (defineComputed owner data tracker memoize w l) := by
  induction l generalizing w with
  | nil => exact (Steady.refl w).beside data
  | cons named rest inductionHypothesis =>
    refine Beside.trans (Beside.trans ?_ (beside_putSlot _ data named.1 _)) (inductionHypothesis _)
    exact ((steady_addSource w).trans (steady_addComputed _ _)).beside data

theorem beside_defineMethods (w : World Code Memory) (root : ObjectId) (l : List (String × Code)) :
    Beside root w (defineMethods root w l) := by
  induction l generalizing w with
  | nil => exact (Steady.refl w).beside root
  | cons named rest inductionHypothesis =>
    refine Beside.trans (Beside.trans ?_ (beside_putSlot _ root named.1 _)) (inductionHypothesis _)
    have hsteady : w.Steady (w.addFunction { name := named.1, code := named.2 }).2 :=
      steady_of_eq rfl (Nat.le_refl _) rfl rfl
    exact hsteady.beside root

theorem beside_defineProxies (w : World Code Memory) (root data : ObjectId) (keys : List String) :
    Beside root w (keys.foldl (fun w key => w.putSlot root key (.proxy data key)) w) := by
  induction keys generalizing w with
  | nil => exact (Steady.refl w).beside root
  | cons key rest inductionHypothesis =>
    exact (beside_putSlot w root key _).trans (inductionHypothesis _)

/-- Computed properties under new names are added in order. -/
theorem contents_defineComputed (owner : ViewModelId) (data : ObjectId) (tracker : TrackerId)
    (memoize : Bool) {l : List (String × Code)} (hnew : ∀ named ∈ l, named.1 ∉ (w.object data).keys)
    (hnodup : (l.map Prod.fst).Nodup) :
    ∃ added, (defineComputed owner data tracker memoize w l).contents data = w.contents data ++ added ∧
      List.Forall₂ ((defineComputed owner data tracker memoize w l).Computes owner) l added := by
  induction l generalizing w with
  | nil => exact ⟨[], (List.append_nil _).symm, .nil⟩
  | cons named rest inductionHypothesis =>
    obtain ⟨name, code⟩ := named
    let x : Computed Code :=
      { name, tracker, memoize, getter := .ofViewModel owner code, source := w.addSource.1 }
    let made := w.addSource.2.addComputed x
    have hsteady : w.Steady made.2 := (steady_addSource w).trans (steady_addComputed _ x)
    have hkey : name ∉ (made.2.object data).keys := by
      rw [hsteady.objects]
      exact hnew (name, code) List.mem_cons_self
    rw [List.map_cons, List.nodup_cons] at hnodup
    have hput : (made.2.putSlot data name (.computed made.1)).contents data
        = w.contents data ++ [(name, .computed made.1)] := by
      rw [contents_putSlot_new _ hkey, hsteady.contents]
      rfl
    have hrest : ∀ pair ∈ rest,
        pair.1 ∉ ((made.2.putSlot data name (.computed made.1)).object data).keys := by
      intro pair hpair
      rw [← map_fst_contents, hput, List.map_append, map_fst_contents, List.mem_append, not_or]
      refine ⟨hnew pair (List.mem_cons_of_mem _ hpair), fun hmem => hnodup.1 ?_⟩
      rw [← List.mem_singleton.mp hmem]
      exact List.mem_map_of_mem hpair
    obtain ⟨added, hcontents, hadded⟩ := inductionHypothesis hrest hnodup.2
    refine ⟨(name, .computed made.1) :: added, ?_, .cons ?_ hadded⟩
    · refine hcontents.trans ?_
      rw [hput, List.append_assoc]
      rfl
    · have hcomputes : made.2.Computes owner (name, code) (name, .computed made.1) := by
        refine ⟨made.1, rfl, ?_, ?_⟩
        · change Key.index w.addSource.2.computeds.fresh < (w.addSource.2.computeds.add x).size
          rw [Table.index_fresh, Table.size_add]
          exact Nat.lt_succ_self _
        · have hrow : made.2.computed made.1 = x := Table.get_add_fresh _ x
          rw [hrow]
          exact ⟨rfl, rfl⟩
      exact hcomputes.grows ((beside_putSlot _ _ _ _).trans (beside_defineComputed _ _ _ _ _ rest)).toGrows

/-! ### Making a view model -/

/-- The data object of a view model still holds what it held, in the same order, and after that its
computed properties. No other object holds anything else than before. -/
structure Furnished (options : Options Code) (data : ObjectId) (w w' : World Code Memory) : Prop where
  kept : ∃ owner added, w'.contents data = w.contents data ++ added ∧
    List.Forall₂ (w'.Computes owner) options.computed.toList added
  others : ∀ id : ObjectId, id.index < w.objects.size → id ≠ data → w'.contents id = w.contents id

theorem Furnished.grows {options : Options Code} {data : ObjectId} (h : w.Furnished options data w₁)
    (hgrows : w₁.Grows w₂) (hcontents : ∀ id, w₂.contents id = w₁.contents id) :
    w.Furnished options data w₂ := by
  obtain ⟨owner, added, hadded, hcomputes⟩ := h.kept
  exact ⟨⟨owner, added, (hcontents data).trans hadded, hcomputes.imp fun _ _ hc => hc.grows hgrows⟩,
    fun id hid hne => (hcontents id).trans (h.others id hid hne)⟩

theorem furnished_assemble {options : Options Code} {data : ObjectId}
    (hdata : data.index < w.objects.size)
    (hnew : ∀ named ∈ options.computed.toList, named.1 ∉ (w.object data).keys) :
    w.Furnished options data (w.assemble options data).2 := by
  have hcontents := contents_observe w (.object data)
  have hobserve : Alters (fun _ => True) w (w.observe (.object data)) := alters_observe w (.object data)
  have hsize := hobserve.objects
  unfold World.assemble
  generalize w.observe (.object data) = w₁ at hcontents hsize ⊢
  generalize options.directives.foldl _ Registry.standard = registry
  -- the root is a new object, so what is put there is neither in the data nor in another old object
  have hroot : ∀ {id : ObjectId}, id.index < w.objects.size → id ≠ w₁.objects.fresh := by
    intro id hid hfresh
    have hindex : Key.index id = w₁.objects.size := hfresh ▸ w₁.objects.index_fresh
    exact Nat.not_lt.mpr hsize (hindex ▸ hid)
  let vm : ViewModel Code :=
    { settings := options.settings, tracker := w₁.trackers.fresh, data, root := w₁.objects.fresh, registry
      document := options.document }
  let made := w₁.addTracker.2.addObject.2.addViewModel vm
  have htracker : w₁.Steady w₁.addTracker.2 := steady_of_eq rfl (Nat.le_refl _) rfl rfl
  have hmade : w₁.Steady made.2 :=
    htracker.trans ((steady_addObject _).trans (steady_addViewModel _ vm))
  have hstart : ∀ id, made.2.contents id = w.contents id := fun id =>
    (hmade.contents id).trans (hcontents id)
  have hnew' : ∀ named ∈ options.computed.toList, named.1 ∉ (made.2.object data).keys := by
    intro named hnamed
    rw [← map_fst_contents, hstart, map_fst_contents]
    exact hnew named hnamed
  obtain ⟨added, hadded, hcomputes⟩ := contents_defineComputed made.1 data vm.tracker
    options.settings.memoize hnew' options.computed.nodup
  have hdefined := beside_defineComputed made.2 made.1 data vm.tracker options.settings.memoize
    options.computed.toList
  have hrest := fun keys => ((beside_defineMethods (World.defineComputed made.1 data vm.tracker
    options.settings.memoize made.2 options.computed.toList) vm.root options.methods.toList).trans
      (beside_defineProxies _ vm.root data keys)).trans
        (beside_putSlot _ vm.root "$data" (.constant (.object data)))
  refine ⟨⟨made.1, added, ?_, ?_⟩, fun id hid hne => ?_⟩
  · exact ((hrest _).contents data (hroot hdata)).trans (hadded.trans (congrArg (· ++ added) (hstart data)))
  · exact hcomputes.imp fun _ _ hc => hc.grows (hrest _).toGrows
  · exact ((hrest _).contents id (hroot hid)).trans ((hdefined.contents id hne).trans (hstart id))

end World

end ViewBinding
