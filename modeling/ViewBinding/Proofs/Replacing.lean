import ViewBinding.Proofs.Altering
import ViewBinding.Proofs.Cascading
import ViewBinding.Proofs.Sightings

/-!
# Setting and inserting

A property can be written in place, and a field can be stored whatever was there. Where the key is a stored field or
absent the two come to the same, but for one thing: a write that changes a field keeps the new value alive until
the subscribers are told, and an insertion leaves that to its caller.
-/

namespace ViewBinding

variable {Code Memory : Type}

/-- What is strictly equal to an object is that object. -/
theorem Value.eq_object_of_same {old value : Value} {id : ObjectId} (hsame : old.same value = true)
    (hid : value.object? = some id) : old = .object id := by
  cases value <;> cases hid
  cases old <;> first | cases hsame | exact congrArg Value.object (beq_iff_eq.mp hsame)

namespace Entries

variable {κ α σ : Type} {f : σ → α → α × σ}

/-- Steps that leave the values and the state alone leave everything alone. -/
theorem mapThread_of_fixed {e : Entries κ α} {s : σ} (h : ∀ pair ∈ e.toList, f s pair.2 = (pair.2, s)) :
    e.mapThread f s = (e, s) := by
  have hthread : ∀ l : List (κ × α), (∀ pair ∈ l, f s pair.2 = (pair.2, s)) → thread f l s = (l, s) := by
    intro l
    induction l with
    | nil => exact fun _ => rfl
    | cons pair rest inductionHypothesis =>
      intro hl
      rw [thread_cons, hl pair List.mem_cons_self, inductionHypothesis fun p hp => hl p (List.mem_cons_of_mem _ hp)]
  obtain ⟨pairs, hnodup⟩ := e
  simp only [mapThread, hthread pairs h]

/-- A part of the state that the steps carry along may as well be changed in the end. -/
theorem mapThread_carry {g : σ → σ} (hg : ∀ s a, f (g s) a = ((f s a).1, g (f s a).2)) (e : Entries κ α) (s : σ) :
    e.mapThread f (g s) = ((e.mapThread f s).1, g (e.mapThread f s).2) := by
  have hthread : ∀ (l : List (κ × α)) s, thread f l (g s) = ((thread f l s).1, g (thread f l s).2) := by
    intro l
    induction l with
    | nil => exact fun _ => rfl
    | cons pair rest inductionHypothesis =>
      intro s
      rw [thread_cons, thread_cons, hg, inductionHypothesis]
  simp only [mapThread, hthread]

end Entries

/-- Rewriting a row with itself changes nothing if the row is there. -/
theorem Table.modify_of_fixed {κ α : Type} [Key κ] [Inhabited α] {t : Table κ α} {k : κ} {f : α → α}
    (hk : Key.index k < t.size) (h : f (t.get k) = t.get k) : t.modify k f = t := by
  have hlt : Key.index k < t.rows.size := hk
  have hrow : t.get k = t.rows[Key.index k] := by
    rw [get, Array.getD_eq_getD_getElem?, Array.getElem?_eq_getElem hlt, Option.getD_some]
  rw [modify, h, put, if_pos hlt, hrow, Array.setIfInBounds_def, dif_pos hlt, Array.set_getElem_self]

variable [Inhabited Code]

/-- Where no source is noted, whatever is requested is honest. -/
theorem Request.honest_nil (request : Request Code Memory) (w : World Code Memory) :
    request.Honest (fun _ => []) w := by
  cases request <;> first | trivial | exact nofun

namespace World

variable {w : World Code Memory} {object : ObjectId} {key : String} {value : Value}

/-! ### What is held makes no difference to what is stored -/

/-- The world with other things held. -/
def holding (w : World Code Memory) (held : List Ref) : World Code Memory :=
  { w with held }

omit [Inhabited Code] in
theorem instrument_holding (w : World Code Memory) (held : List Ref) (id : ObjectId) :
    (w.holding held).instrument id = (w.instrument id).holding held := by
  have hequip : ∀ (w : World Code Memory) (slot : Slot),
      (w.holding held).equip slot = ((w.equip slot).1, (w.equip slot).2.holding held) := by
    intro w slot
    rcases slot with ⟨_, _ | _⟩ | _ | _ | ⟨_, _⟩ <;> rfl
  have hthread := Entries.mapThread_carry hequip (w.object id).slots w
  exact congrArg (fun p : Entries String Slot × World Code Memory =>
    p.2.mapObject id fun o => { o with slots := p.1, observed := true }) hthread

omit [Inhabited Code] in
theorem observe_holding (w : World Code Memory) (held : List Ref) (value : Value) :
    (w.holding held).observe value = (w.observe value).holding held := by
  change (w.reachable value).foldl instrument (w.holding held) = _
  rw [observe]
  generalize w.reachable value = l
  induction l generalizing w with
  | nil => rfl
  | cons id rest inductionHypothesis => rw [List.foldl_cons, List.foldl_cons, instrument_holding, inductionHypothesis]

omit [Inhabited Code] in
/-- What is stored does not depend on what is held, nor does the source to notify. -/
theorem store_holding (w : World Code Memory) (held : List Ref) (object : ObjectId) (key : String) (value : Value) :
    (w.holding held).store object key value
      = ((w.store object key value).1, (w.store object key value).2.holding held) := by
  have harrive : (w.holding held).arrive object key = (w.arrive object key).holding held := by
    unfold arrive
    change (if ((w.object object).observed && ((w.object object).slot? key).isNone) = true then _ else _) = _
    split <;> rfl
  have hsource : ∀ (w : World Code Memory) source?, (w.holding held).sourceOrNew source?
      = ((w.sourceOrNew source?).1, (w.sourceOrNew source?).2.holding held) := by
    rintro w (_ | _) <;> rfl
  have hput : ∀ (w : World Code Memory) slot, (w.holding held).putSlot object key slot
      = (w.putSlot object key slot).holding held := fun _ _ => rfl
  have hobject : ∀ w : World Code Memory, (w.holding held).object object = w.object object := fun _ => rfl
  simp only [store, harrive, hsource, hput, hobject, observe_holding]
  split <;> rfl

/-! ### What is observed already -/

omit [Inhabited Code] in
/-- The children of an object are values of its fields. -/
theorem exists_slot_of_mem_children {o : Object} {child : ObjectId} (h : child ∈ o.children) :
    ∃ key source, o.slot? key = some (.field (.object child) source) := by
  simp only [Object.children, Object.fields, List.mem_filterMap] at h
  obtain ⟨_, ⟨⟨key, slot⟩, hpair, hfield⟩, hchild⟩ := h
  cases slot with
  | field value source =>
    cases hfield
    cases value <;> cases hchild
    exact ⟨key, source, (Entries.find?_eq_some_iff o.slots key _).mpr hpair⟩
  | _ => cases hfield

omit [Inhabited Code] in
/-- An observed object whose fields have their sources stays as it is. -/
theorem instrument_of_observed (hobserved : (w.object object).observed = true)
    (hfield : ∀ key value source, (w.object object).slot? key = some (.field value source) → source.isSome) :
    w.instrument object = w := by
  have hthread : (w.object object).slots.mapThread equip w = ((w.object object).slots, w) := by
    refine Entries.mapThread_of_fixed fun pair hpair => ?_
    have hslot := (Entries.find?_eq_some_iff (w.object object).slots pair.1 pair.2).mpr hpair
    rcases hpair : pair.2 with ⟨value, _ | _⟩ | _ | _ | ⟨_, _⟩
    · rw [hpair] at hslot
      cases hfield pair.1 value none hslot
    all_goals rfl
  have hthere : object.index < w.objects.size := by
    refine Nat.lt_of_not_le fun hle => ?_
    rw [World.object, Table.get_of_size_le _ hle] at hobserved
    cases hobserved
  rw [instrument, hthread]
  refine congrArg (fun objects => { w with objects }) (Table.modify_of_fixed hthere ?_)
  change ({ w.object object with observed := true } : Object) = w.object object
  rw [← hobserved]

/-- Observing what is observed changes nothing. -/
theorem Sourced.observe_of_observed {pending : ObjectId → Prop} (hw : w.Sourced pending)
    (hpending : ∀ id, pending id → (w.object id).observed = true)
    (hvalue : ∀ id, value.object? = some id → (w.object id).observed = true) : w.observe value = w := by
  have hreached : ∀ id ∈ w.reachable value, (w.object id).observed = true := by
    refine forall_mem_explore (fun id hid child hchild => ?_) fun id hid => hvalue id (Option.mem_toList.mp hid)
    obtain ⟨key, source, hslot⟩ := exists_slot_of_mem_children hchild
    exact (hw.child hid hslot).elim (fun h => h) (hpending child)
  rw [World.observe]
  refine List.foldlRecOn (motive := (· = w)) _ instrument rfl ?_
  rintro _ rfl id hid
  exact instrument_of_observed (hreached id hid) fun key value source hslot => (hw.field hslot).mpr (hreached id hid)

/-- Storing what a field holds, or what is strictly equal to it, tells nobody and changes nothing else. -/
theorem store_of_same (hw : w.Sourced fun _ => False) {old : Value} {source : Option SourceId}
    (hslot : (w.object object).slot? key = some (.field old source)) (hsame : old.same value = true) :
    w.store object key value = (none, w.putSlot object key (.field value source)) := by
  have hhandover : handover (w.object object) key value = (source, none) := by simp [handover, hslot, hsame]
  have harrive : w.arrive object key = w := by simp [arrive, hslot]
  rw [store, hhandover]
  dsimp only
  rw [harrive]
  split
  · next hobserved =>
    obtain ⟨s, rfl⟩ := Option.isSome_iff_exists.mp ((hw.field hslot).mpr hobserved)
    have hwritten : (w.putSlot object key (.field value (some s))).Sourced _ := (hw.rewrite hslot).1
    have hchild : ∀ id, value.object? = some id →
        ((w.putSlot object key (.field value (some s))).object id).observed = true := by
      intro id hid
      obtain rfl := Value.eq_object_of_same hsame hid
      rw [(changesAt_putSlot w object key _).observed]
      exact (hw.child hobserved hslot).elim (fun h => h) False.elim
    exact congrArg (Prod.mk none) (hwritten.observe_of_observed (fun id hid => hchild id hid.2) hchild)
  · rfl

omit [Inhabited Code] in
/-- On an object that is not observed nobody is told of a field. -/
theorem store_of_unobserved (hunobserved : ¬ (w.object object).observed = true) {old : Value}
    (hslot : (w.object object).slot? key = some (.field old none)) :
    w.store object key value = (none, w.putSlot object key (.field value none)) := by
  simp [store, handover, arrive, hslot, hunobserved]

end World

namespace Engine

variable {application : Application Code Memory} {c : Reentry Code Memory} {w : World Code Memory} {object : ObjectId}
  {key : String} {value : Value}

omit [Inhabited Code] in
/-- What is kept alive inside and outside is kept alive at once. -/
theorem keeping_keeping {α : Type} (outer inner : List Ref) (x : Engine Code Memory α) :
    keeping outer (keeping inner x) = keeping (inner ++ outer) x := by
  funext w
  simp only [keeping, List.append_assoc, Option.map_map]
  rfl

omit [Inhabited Code] in
/-- A field is stored, and the subscribers of its source are told while the object and something else are kept alive. -/
theorem keeping_insert (refs : List Ref) (c : Reentry Code Memory) (w : World Code Memory) (object : ObjectId)
    (key : String) (value : Value) : keeping refs (insert c object key value) w
      = (tell c (w.store object key value).1
          ((w.store object key value).2.holding (.object object :: refs ++ w.held))).map
        fun p => (p.1, p.2.holding w.held) := by
  rw [insert, keeping_keeping]
  exact congrArg (fun p : Option SourceId × World Code Memory =>
    (tell c p.1 p.2).map fun p => (p.1, p.2.holding w.held)) (World.store_holding w _ object key value)

omit [Inhabited Code] in
/-- Keeping nothing alive besides makes no difference to an insertion. -/
theorem keeping_nil_insert (c : Reentry Code Memory) (object : ObjectId) (key : String) (value : Value) :
    keeping [] (insert c object key value) = insert c object key value := by
  rw [insert, keeping_keeping, List.append_nil]

/-- A write comes to what an insertion comes to. If the field holds a value that is strictly equal, neither tells
anybody, and the insertion stores the value that it was given. Where an observed field is changed, the write is an
insertion by a caller who keeps the new value alive meanwhile, which says something of objects, arrays and functions
only. Everywhere else the two are one step. -/
structure Matches (c : Reentry Code Memory) (w : World Code Memory) (object : ObjectId) (key : String) (value : Value) :
    Prop where
  same (old : Value) (source : Option SourceId) : (w.object object).slot? key = some (.field old source) →
    old.same value = true → set c object key value w = some (.ok (), w) ∧
      insert c object key value w = some (.ok (), w.putSlot object key (.field value source))
  absent : (w.object object).slot? key = none → set c object key value w = insert c object key value w
  unobserved (old : Value) : (w.object object).slot? key = some (.field old none) → old.same value = false →
    set c object key value w = insert c object key value w
  observed (old : Value) (s : SourceId) : (w.object object).slot? key = some (.field old (some s)) →
    old.same value = false → set c object key value w = keeping value.refs (insert c object key value) w ∧
      (value.refs = [] → set c object key value w = insert c object key value w)

omit [Inhabited Code] in
/-- Where the key is a stored field or absent, it stands for itself. -/
theorem set_of_plain (hplain : Plain ((w.object object).slot? key)) : set c object key value w
    = keeping [] (writeSlot c object key value ((w.object object).slot? key)) w := by
  have hresolve : w.resolve object key = (object, key) := World.follow_of_not_proxy (fun target name hproxy => by
    rw [hproxy] at hplain
    exact hplain) _
  unfold Engine.set
  rw [bind_of_run (a := w.resolve object key) rfl, hresolve]
  simp only [if_true]
  rfl

theorem matches_of_sourced (hw : w.Sourced fun _ => False) (hplain : Plain ((w.object object).slot? key))
    (c : Reentry Code Memory) (value : Value) : Matches c w object key value where
  same old source hslot hsame := by
    rw [set_of_plain hplain, hslot]
    constructor
    · simp only [writeSlot, hsame, if_true]
      rfl
    · rw [← keeping_nil_insert, keeping_insert, World.store_of_same hw hslot hsame]
      rfl
  absent hslot := by
    rw [set_of_plain hplain, hslot, writeSlot, keeping_nil_insert]
  unobserved old hslot hnew := by
    have hstore : w.store object key value = _ :=
      World.store_of_unobserved (fun h => Bool.false_ne_true ((hw.field hslot).mpr h)) hslot
    rw [set_of_plain hplain, hslot, ← keeping_nil_insert, keeping_insert, hstore]
    simp only [writeSlot, hnew, Bool.false_eq_true, if_false]
    rfl
  observed old s hslot hnew := by
    have hset : set c object key value w = keeping value.refs (insert c object key value) w := by
      rw [set_of_plain hplain, hslot, keeping_insert, World.store_of_observed ((hw.field hslot).mp rfl) hslot hnew]
      simp only [writeSlot, hnew, Bool.false_eq_true, if_false]
      have hobserve := World.observe_holding (w.putSlot object key (.field value (some s))) w.held value
      refine (congrArg (fun v => (keeping (.object object :: value.refs) (c.notify s) v).map
        fun p => (p.1, p.2.holding w.held)) hobserve).trans ?_
      simp only [keeping, Option.map_map]
      rfl
    refine ⟨hset, fun hrefs => ?_⟩
    rw [hset, hrefs, keeping_nil_insert]

/--
Setting and inserting agree on plain slots. At every moment of every run, whatever the object, the value, and a key that
is a stored field or absent: if the field holds a value that is strictly equal to the new one, both end well, tell
nobody and leave the same world but for that value. Otherwise the write comes to exactly what the insertion comes to, that is
the same result, the same notifications and the same world, if the caller of the insertion keeps the value alive where
it changes an observed field.
-/
theorem set_matches_insert {α : Type} (application : Application Code Memory) (depth : Nat)
    (program : Program Code Memory α) (memory : Memory) :
    Throughout (fun _ _ w => ∀ (c : Reentry Code Memory) (object : ObjectId) (key : String) (value : Value),
        Plain ((w.object object).slot? key) → Matches c w object key value)
      application depth program { memory } := by
  intro outcome hrun
  rw [← runUnder_of_holds (P := fun _ _ _ => True) fun _ _ _ => trivial] at hrun
  have hhonest : application.Honest fun _ => [] :=
    ⟨fun _ _ => nofun, application.makes_true.imp fun request w _ => request.honest_nil w⟩
  have hkept : ({ memory } : World Code Memory).Kept fun _ => [] := ⟨World.sourced_empty memory, nofun⟩
  refine ((invariant_kept hhonest).runUnder (fun _ _ w hw _ => ?_) hhonest.programs depth
    ((program.makes_true).imp fun request w _ => request.honest_nil w) _ hkept outcome.1 outcome.2 hrun).1
  exact fun c object key value hplain => matches_of_sourced hw.sourced hplain c value

end Engine

/-! ### A value that is gone before everybody is told -/

/-- An embedder whose probe overwrites the field that it is told of and writes another one, and whose getter reads that
other field. It takes note of who is told. -/
def Application.overwriter : Application Unit (List (List Subscriber)) where
  holds _ := []
  notes
    | .telling _ live, w => w.memory ++ [live]
    | _, w => w.memory
  callback _ _ := .done ()
  method _ _ _ := .done ()
  listener _ _ := .done ()
  getter _ _ := Program.request (.get ⟨0⟩ "rate" (some ⟨0⟩))
  update _ := do
    Program.request (.set ⟨3⟩ "order" .null)
    Program.request (.set ⟨0⟩ "rate" (.string "high"))
  install _ _ _ _ := .fail .detached

/-- Makes an object with a computed property that has read a rate, and a field that a probe has read. The view model
that defined the property is gone, so nothing but the object keeps the property alive. -/
def Program.furnish : Program Unit (List (List Subscriber)) Unit := do
  let rates ← request .newObject
  request (.insert rates "rate" (.string "low"))
  request (.observe (.object rates))
  let data ← request .newObject
  let owner ← request (.newViewModel { data := .object data, computed := .ofList [("price", ())] })
  request (.hold [.viewModel owner])
  let _ ← request (.get data "price" none)
  request (.release [.viewModel owner])
  let basket ← request .newObject
  request (.insert basket "order" (.bool false))
  request (.observe (.object basket))
  let probe ← request (.newProbe ())
  let tracker ← request .newTracker
  request (.enter tracker (some (.probe probe)))
  let _ ← request (.get basket "order" (some tracker))
  request (.leave tracker)
  request (.hold [.probe probe])

omit [Inhabited Code] in
/-- What is known of a step that ends well is known of the world where it ends. -/
theorem Engine.exists_of_isOk {β : Type} {x : Option (Except Error Unit × World Code Memory)}
    {f : World Code Memory → β} {b : β} (h : x.map (fun p => (p.1.isOk, f p.2)) = some (true, b)) :
    ∃ w, x = some (.ok (), w) ∧ f w = b := by
  obtain ⟨⟨r, w⟩, hx, hp⟩ := Option.map_eq_some_iff.mp h
  cases r with
  | error e => cases hp
  | ok u => exact ⟨w, hx, (Prod.mk.inj hp).2⟩

/-- If the probe overwrites the object that was stored, then a write still tells the property of the rate, and an
insertion does not. -/
theorem Engine.set_and_insert_differ :
    ∃ w w₁ w₂, run Application.overwriter 4 .furnish { memory := [] } = some (.ok (), w) ∧
      (w.object ⟨3⟩).fields.map Prod.fst = ["order"] ∧
      set (reentry Application.overwriter 8) ⟨3⟩ "order" (.object ⟨1⟩) w = some (.ok (), w₁) ∧
      w₁.memory = [[.probe ⟨0⟩], [.probe ⟨0⟩], [.computed ⟨0⟩], []] ∧
      insert (reentry Application.overwriter 8) ⟨3⟩ "order" (.object ⟨1⟩) w = some (.ok (), w₂) ∧
      w₂.memory = [[.probe ⟨0⟩], [.probe ⟨0⟩], []] := by
  let furnished := run Application.overwriter 4 .furnish { memory := [] }
  have hfurnished : furnished.map (fun p => (p.1.isOk, (p.2.object ⟨3⟩).fields.map Prod.fst))
      = some (true, ["order"]) := by
    decide +kernel
  have hset : (furnished.bind fun p => (set (reentry Application.overwriter 8) ⟨3⟩ "order" (.object ⟨1⟩) p.2).map
      fun q => (q.1.isOk, q.2.memory)) = some (true, [[.probe ⟨0⟩], [.probe ⟨0⟩], [.computed ⟨0⟩], []]) := by
    decide +kernel
  have hinsert : (furnished.bind fun p => (insert (reentry Application.overwriter 8) ⟨3⟩ "order" (.object ⟨1⟩) p.2).map
      fun q => (q.1.isOk, q.2.memory)) = some (true, [[.probe ⟨0⟩], [.probe ⟨0⟩], []]) := by
    decide +kernel
  obtain ⟨w, hrun, hfields⟩ := exists_of_isOk (f := fun w => (w.object ⟨3⟩).fields.map Prod.fst) hfurnished
  rw [hrun, Option.bind_some] at hset hinsert
  obtain ⟨w₁, hset, hmemory₁⟩ := exists_of_isOk (f := World.memory) hset
  obtain ⟨w₂, hinsert, hmemory₂⟩ := exists_of_isOk (f := World.memory) hinsert
  exact ⟨w, w₁, w₂, hrun, hfields, hset, hmemory₁, hinsert, hmemory₂⟩

end ViewBinding
