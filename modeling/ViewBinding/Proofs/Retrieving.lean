import ViewBinding.Proofs.Stillness
import ViewBinding.Proofs.Stopping

/-!
# What is written is read

A path that leads through stored values alone can be followed without running any getter, and a write at its end
changes one field. So the parents lead to the same object after the write, unless the field that was written is one
on the way; and the notification moves nothing as long as nobody else writes.
-/

namespace ViewBinding

variable {Code Memory : Type}

/-- The value that a slot holds, if it is a field or a constant. -/
def Slot.stored? : Option Slot → Option Value
  | some (.field value _) => some value
  | some (.constant value) => some value
  | _ => none

theorem Slot.shown?_of_stored? {slot : Option Slot} {value : Value} (h : stored? slot = some value) :
    shown? slot = some value := by
  rcases slot with _ | (⟨_, _⟩ | _ | _ | ⟨_, _⟩) <;> first | exact h | cases h

theorem Slot.isSome_of_stored? {slot : Option Slot} {value : Value} (h : stored? slot = some value) :
    ∃ slot', slot = some slot' := by
  cases slot with
  | none => cases h
  | some slot => exact ⟨slot, rfl⟩

namespace World

section Slots

variable {w w' : World Code Memory} {object holder : ObjectId} {key name : String} {value : Value}

/-- What the keys of an object hold, sources apart. -/
def plainly (w : World Code Memory) (id : ObjectId) : Entries String Slot :=
  ⟨w.contents id, by rw [map_fst_contents]; exact (w.object id).slots.nodup⟩

theorem find?_plainly (w : World Code Memory) (id : ObjectId) (key : String) :
    (w.plainly id).find? key = ((w.object id).slot? key).map Slot.plain := by
  simp only [Entries.find?, plainly, contents, Object.slot?, List.find?_map, Option.map_map]
  rfl

/-- A field stays a field of its value, whatever source it has, and everything else stays what it is. -/
theorem eq_or_field_of_plain_eq {slot slot' : Slot} (h : slot'.plain = slot.plain) :
    slot' = slot ∨ ∃ value source source', slot = .field value source ∧ slot' = .field value source' := by
  cases slot <;> cases slot' <;> simp_all [Slot.plain]

/-- Following proxies leads to the same property if they are still there and the property is none. -/
theorem follow_eq_of_proxies
    (hproxies : ∀ object key target name, (w.object object).slot? key = some (.proxy target name) →
      (w'.object object).slot? key = some (.proxy target name)) {steps steps' : Nat} (hle : steps ≤ steps')
    (hend : ∀ target name, (w'.object (w.follow steps object key).1).slot? (w.follow steps object key).2
      ≠ some (.proxy target name)) : w'.follow steps' object key = w.follow steps object key := by
  induction steps generalizing object key steps' with
  | zero => exact follow_of_not_proxy hend steps'
  | succ steps inductionHypothesis =>
    by_cases hproxy : ∃ target name, (w.object object).slot? key = some (.proxy target name)
    · obtain ⟨target, name, hslot⟩ := hproxy
      rw [follow_proxy hslot] at hend ⊢
      obtain ⟨steps', rfl⟩ : ∃ n, steps' = n + 1 := ⟨steps' - 1, by omega⟩
      rw [follow_proxy (hproxies object key target name hslot)]
      exact inductionHypothesis (by omega) hend
    · have hnone := fun target name h => hproxy ⟨target, name, h⟩
      rw [follow_of_not_proxy hnone] at hend ⊢
      exact follow_of_not_proxy hend steps'

end Slots

/-! ### After a field was stored -/

section Stored

variable {w w' : World Code Memory} {object holder : ObjectId} {key name : String} {value : Value}

theorem Stored.plainly_self (h : Stored holder name value w w') :
    w'.plainly holder = (w.plainly holder).put name (.field value none) := by
  simp only [World.plainly, Entries.put, h.contents]

theorem Stored.slot?_self (h : Stored holder name value w w') :
    ∃ source, (w'.object holder).slot? name = some (.field value source) := by
  have hfind := find?_plainly w' holder name
  rw [h.plainly_self, Entries.find?_put_self] at hfind
  obtain ⟨slot, hslot, hplain⟩ := Option.map_eq_some_iff.mp hfind.symm
  cases slot with
  | field stored source =>
    cases hplain
    exact ⟨source, hslot⟩
  | _ => cases hplain

theorem Stored.slot?_of_ne (h : Stored holder name value w w') (hthere : object.index < w.objects.size)
    (hne : (object, key) ≠ (holder, name)) :
    ((w'.object object).slot? key).map Slot.plain = ((w.object object).slot? key).map Slot.plain := by
  rw [← find?_plainly, ← find?_plainly]
  by_cases hobject : object = holder
  · subst hobject
    rw [h.plainly_self]
    exact Entries.find?_put_of_ne _ _ fun hkey => hne (hkey ▸ rfl)
  · simp only [World.plainly, h.untouched.contents object ⟨hthere, hobject⟩]

/-- Another property is what it was, up to its source. -/
theorem Stored.slot?_eq (h : Stored holder name value w w') (hne : (object, key) ≠ (holder, name)) {slot : Slot}
    (hslot : (w.object object).slot? key = some slot) : (w'.object object).slot? key = some slot ∨
      ∃ value source source', slot = .field value source ∧
        (w'.object object).slot? key = some (.field value source') := by
  have hplain := h.slot?_of_ne (index_lt_of_slot? hslot) hne
  rw [hslot, Option.map_some] at hplain
  obtain ⟨slot', hslot', hsame⟩ := Option.map_eq_some_iff.mp hplain
  rw [hslot']
  rcases eq_or_field_of_plain_eq hsame with rfl | ⟨value, source, source', rfl, rfl⟩
  · exact .inl rfl
  · exact .inr ⟨value, source, source', rfl, rfl⟩

/-- What a field holds is stored there. -/
theorem stored_field {source : Option SourceId} (hslot : (w.object holder).slot? name = some (.field value source)) :
    Stored holder name value w w := by
  refine ⟨.refl w, (Entries.putPair_of_find? ?_).symm⟩
  have hfind := find?_plainly w holder name
  rw [hslot] at hfind
  exact hfind

/-- Storing a field is all that has happened if the objects that were there were not touched any more. -/
theorem Stored.rests (h : Stored holder name value w w') {w'' : World Code Memory}
    (hpresent : holder.index < w.objects.size) (h' : w'.Untouched (fun id => id.index < w.objects.size) w'') :
    Stored holder name value w w'' where
  untouched := h.untouched.trans (h'.mono fun _ hid => hid.1)
  contents := (h'.contents holder hpresent).trans h.contents

theorem SameData.untouched {kept : ObjectId → Prop} (h : w.SameData w') : w.Untouched kept w' :=
  ⟨Nat.le_of_eq h.size.symm, fun id _ => contents_congr (h.slots id)⟩

/-- It is the data that counts. -/
theorem Stored.sameData {v v' : World Code Memory} (h : Stored holder name value w w') (hw : v.SameData w)
    (hw' : w'.SameData v') : Stored holder name value v v' where
  untouched := (hw.untouched.trans (h.untouched.mono fun id hid => ⟨hw.size ▸ hid.1, hid.2⟩)).trans hw'.untouched
  contents := by rw [contents_congr (hw'.slots holder), h.contents, contents_congr (hw.slots holder)]

variable (hwritable : Plain ((w.object holder).slot? name))

include hwritable

theorem Stored.proxy (h : Stored holder name value w w') {target : ObjectId} {other : String}
    (hslot : (w.object object).slot? key = some (.proxy target other)) :
    (w'.object object).slot? key = some (.proxy target other) := by
  have hne : (object, key) ≠ (holder, name) := by
    rintro heq
    cases heq
    rw [hslot] at hwritable
    exact hwritable
  rcases h.slot?_eq hne hslot with hslot' | ⟨_, _, _, hfield, -⟩
  · exact hslot'
  · cases hfield

/-- Proxies lead to where they led. -/
theorem Stored.resolve (h : Stored holder name value w w')
    (hend : ∀ target other, (w'.object (w.resolve object key).1).slot? (w.resolve object key).2
      ≠ some (.proxy target other)) : w'.resolve object key = w.resolve object key :=
  follow_eq_of_proxies (fun _ _ _ _ => h.proxy hwritable) h.untouched.heap hend

/-- A value that is found behind proxies is found there again. -/
theorem Stored.kept (h : Stored holder name value w w') (hne : w.resolve object key ≠ (holder, name)) {old : Value}
    (hslot : Slot.stored? (w.slotAt object key) = some old) :
    w'.resolve object key = w.resolve object key ∧ Slot.stored? (w'.slotAt object key) = some old := by
  have hfound : Slot.stored? ((w'.object (w.resolve object key).1).slot? (w.resolve object key).2) = some old := by
    rw [World.slotAt] at hslot
    obtain ⟨slot, hslot'⟩ := Slot.isSome_of_stored? hslot
    rw [hslot'] at hslot
    have hother : ((w.resolve object key).1, (w.resolve object key).2) ≠ (holder, name) := hne
    rcases h.slot?_eq hother hslot' with hsame | ⟨_, _, source', rfl, hfield⟩
    · rw [hsame, hslot]
    · rw [hfield]
      exact hslot
  have hresolve : w'.resolve object key = w.resolve object key := by
    refine h.resolve hwritable fun target other hproxy => ?_
    rw [hproxy] at hfound
    cases hfound
  rw [World.slotAt, hresolve]
  exact ⟨rfl, hfound⟩

end Stored

/-! ### Passages -/

variable {w w' : World Code Memory} {holder : ObjectId} {name : String} {value root : Value}

/-- Where segments lead from a value through stored fields, constants, proxies and items of arrays, and which
properties are read on the way. -/
def passage (w : World Code Memory) : Value → List String → Option (List (ObjectId × String) × Value)
  | value, [] => some ([], value)
  | .object object, segment :: rest =>
    (Slot.stored? (w.slotAt object segment)).bind fun next =>
      (w.passage next rest).map fun onward => (w.resolve object segment :: onward.1, onward.2)
  | .array _ items, segment :: rest => w.passage (itemAt items segment) rest
  | _, _ :: _ => none

theorem passage_object {object : ObjectId} {segment : String} {rest : List String}
    {visited : List (ObjectId × String)} {reached : Value} :
    w.passage (.object object) (segment :: rest) = some (visited, reached) ↔
      ∃ next onward, Slot.stored? (w.slotAt object segment) = some next ∧
        w.passage next rest = some (onward, reached) ∧ visited = w.resolve object segment :: onward := by
  simp only [passage, Option.bind_eq_some_iff, Option.map_eq_some_iff, Prod.exists, Prod.mk.injEq]
  constructor
  · rintro ⟨next, hnext, onward, _, honward, rfl, rfl⟩
    exact ⟨next, onward, hnext, honward, rfl⟩
  · rintro ⟨next, onward, hnext, honward, rfl⟩
    exact ⟨next, hnext, onward, reached, honward, rfl, rfl⟩

theorem SameData.passage_eq (h : w.SameData w') (segments : List String) (value : Value) :
    w'.passage value segments = w.passage value segments := by
  induction segments generalizing value with
  | nil => rfl
  | cons segment rest inductionHypothesis =>
    cases value with
    | object object => simp only [passage, h.slotAt_eq, h.resolve_eq, inductionHypothesis]
    | array id items => exact inductionHypothesis (itemAt items segment)
    | _ => rfl

/-- A passage to an object goes on through a value of the object. -/
theorem passage_concat {segments : List String} {visited : List (ObjectId × String)} {object : ObjectId}
    {segment : String}
    (h : w.passage root segments = some (visited, .object object))
    (hslot : Slot.stored? (w.slotAt object segment) = some value) :
    w.passage root (segments ++ [segment]) = some (visited ++ [w.resolve object segment], value) := by
  induction segments generalizing root visited with
  | nil =>
    cases h
    exact passage_object.mpr ⟨value, [], hslot, rfl, rfl⟩
  | cons first rest inductionHypothesis =>
    cases root with
    | object root =>
      obtain ⟨next, onward, hnext, honward, rfl⟩ := passage_object.mp h
      exact passage_object.mpr ⟨next, _, hnext, inductionHypothesis honward, rfl⟩
    | array id items => exact inductionHypothesis h
    | _ => cases h

/-- A stored field leaves the passages alone that do not go through it. -/
theorem Stored.passage (h : Stored holder name value w w')
    (hwritable : Plain ((w.object holder).slot? name))
    {segments : List String} {visited : List (ObjectId × String)} {reached : Value}
    (hpassage : w.passage root segments = some (visited, reached)) (hvisited : (holder, name) ∉ visited) :
    w'.passage root segments = some (visited, reached) := by
  induction segments generalizing root visited with
  | nil => exact hpassage
  | cons segment rest inductionHypothesis =>
    cases root with
    | object object =>
      obtain ⟨next, onward, hnext, honward, rfl⟩ := passage_object.mp hpassage
      rw [List.mem_cons, not_or] at hvisited
      obtain ⟨hresolve, hnext'⟩ := h.kept hwritable (Ne.symm hvisited.1) hnext
      exact passage_object.mpr ⟨next, onward, hnext', inductionHypothesis honward hvisited.2, hresolve ▸ rfl⟩
    | array id items => exact inductionHypothesis hpassage hvisited
    | _ => cases hpassage

end World

/-- A path leads through stored values to an object, where its last segment means a field or an absent key of the
holder that is not read on the way. -/
structure World.Targets (w : World Code Memory) (root : Value) (path : Path) (holder : ObjectId) (name : String) :
    Prop where
  reached : ∃ visited object, w.passage root path.parents = some (visited, .object object) ∧
    w.resolve object path.last = (holder, name) ∧ (holder, name) ∉ visited
  present : holder.index < w.objects.size
  writable : Plain ((w.object holder).slot? name)

namespace Engine

variable [Inhabited Code] {c d : Reentry Code Memory} {w after : World Code Memory} {root value : Value} {path : Path}
  {holder : ObjectId} {name : String}

/-! ### Walking a passage -/

/-- A stored value is read, and no data changes. -/
theorem achieves_get_stored {object : ObjectId} {key : String} (reader : Option TrackerId)
    (hslot : Slot.stored? (w.slotAt object key) = some value) :
    Achieves True w (get c object key reader) fun r w' => r = .ok value ∧ w.SameData w' := by
  unfold get
  rw [achieves_inspect_bind]
  refine Achieves.keeping _ (R := fun r w' => r = .ok value ∧ w.SameData w') ?_ fun _ _ h =>
    ⟨h.1, World.SameFace.data_congr h.2⟩
  rw [achieves_inspect_bind]
  let holds : Memory → List Ref := fun _ => []
  have hquiet : ∀ o w, holds (c.application.notes o w) = holds w.memory := fun _ _ => rfl
  exact (achieves_readSlot rfl hquiet _ _ reader (Slot.shown?_of_stored? hslot) _).mono fun r w' h =>
    ⟨h.1, World.SameFace.data_congr h.2.data⟩

/-- For a stored value nothing is run, so any engine reads it in the same way. -/
theorem readSlot_of_stored (happlication : d.application = c.application) (holder : ObjectId) (name : String)
    (reader : Option TrackerId) {slot : Option Slot} (hslot : Slot.stored? slot = some value) :
    readSlot d holder name reader slot = readSlot c holder name reader slot := by
  match slot, hslot with
  | some (.field _ none), _ | some (.constant _), _ => rfl
  | some (.field _ (some _)), _ => simp only [readSlot, depend, happlication]

theorem get_of_stored (happlication : d.application = c.application) {object : ObjectId} {key : String}
    (reader : Option TrackerId) (hslot : Slot.stored? (w.slotAt object key) = some value) :
    get d object key reader w = get c object key reader w := by
  have hread := readSlot_of_stored happlication (w.resolve object key).1 (w.resolve object key).2 reader hslot
  let held := [Ref.object object, .object (w.resolve object key).1] ++ w.held
  exact congrArg (fun x : Engine Code Memory Value =>
    (x { w with held }).map fun p => (p.1, { p.2 with held := w.held })) hread

/-- A passage is walked to its end, whoever reads, and no data changes. -/
theorem achieves_walk (path : Path) (reader : Option TrackerId) (owner : Option String) {segments : List String}
    {visited : List (ObjectId × String)} {reached : Value}
    (hpassage : w.passage root segments = some (visited, reached)) :
    Achieves True w (walk c path reader owner root segments) fun r w' => r = .ok reached ∧ w.SameData w' := by
  induction segments generalizing root visited owner w with
  | nil =>
    cases hpassage
    exact (achieves_pure _).mpr ⟨rfl, .refl w⟩
  | cons segment rest inductionHypothesis =>
    cases root with
    | object object =>
      obtain ⟨next, onward, hnext, honward, -⟩ := World.passage_object.mp hpassage
      refine (achieves_get_stored reader hnext).bind ?_ ?_
      · rintro _ w' ⟨hok, hsame⟩
        cases hok
        refine (inductionHypothesis (some segment) ((hsame.passage_eq rest next).trans honward)).mono fun r w'' h => ?_
        exact ⟨h.1, hsame.trans h.2⟩
      · rintro e w' ⟨herror, -⟩
        cases herror
    | array id items => exact inductionHypothesis (some segment) hpassage
    | _ => cases hpassage

/-- Any engine walks a passage in the same way. -/
theorem walk_of_passage (happlication : d.application = c.application) (path : Path) (reader : Option TrackerId)
    (owner : Option String) {segments : List String} {visited : List (ObjectId × String)} {reached : Value}
    (hpassage : w.passage root segments = some (visited, reached)) :
    walk d path reader owner root segments w = walk c path reader owner root segments w := by
  induction segments generalizing root visited owner w with
  | nil => rfl
  | cons segment rest inductionHypothesis =>
    cases root with
    | object object =>
      obtain ⟨next, onward, hnext, honward, -⟩ := World.passage_object.mp hpassage
      have hget := achieves_get_stored (c := c) reader hnext
      obtain ⟨⟨r, v⟩, hrun⟩ := hget.halts trivial
      obtain ⟨-, rfl, hsame⟩ := hget.ends r v hrun
      rw [walk, walk, bind_of_run hrun, bind_of_run ((get_of_stored happlication reader hnext).trans hrun)]
      exact inductionHypothesis (some segment) ((hsame.passage_eq rest next).trans honward)
    | array id items => exact inductionHypothesis (some segment) hpassage
    | _ => rfl

/-! ### Storing and telling -/

section Writing

/-- Whoever is told, none of the objects that there were when the field was stored is touched. -/
structure Undisturbed (c d : Reentry Code Memory) (count : Nat) : Prop where
  application : d.application = c.application
  notify (start : World Code Memory) (hcount : count ≤ start.objects.size) (source : SourceId) :
    Keeps (start.Untouched fun id => id.index < count) (c.notify source) (d.notify source)

/-- The value, or one that is strictly equal to it, was stored, and nothing else. -/
def Lands (value : Value) (holder : ObjectId) (name : String) (w after : World Code Memory) : Prop :=
  ∃ stored : Value, stored.Agrees value ∧ w.Stored holder name stored after

omit [Inhabited Code] in
theorem Lands.sameData {v v' : World Code Memory} (h : Lands value holder name w after) (hw : v.SameData w)
    (hafter : after.SameData v') : Lands value holder name v v' := by
  obtain ⟨stored, hagrees, hstored⟩ := h
  exact ⟨stored, hagrees, hstored.sameData hw hafter⟩

variable (hnotify : Undisturbed c d w.objects.size) (hpresent : holder.index < w.objects.size)
  (hwritable : Plain ((w.object holder).slot? name))

include hnotify hpresent hwritable

theorem lands_writeSlot : Ends w (writeSlot c holder name value ((w.object holder).slot? name))
    (writeSlot d holder name value ((w.object holder).slot? name)) fun _ => Lands value holder name w := by
  have htold : ∀ {w₁ : World Code Memory} (source : SourceId), w.Stored holder name value w₁ →
      Ends w₁ (c.notify source) (d.notify source) fun _ => Lands value holder name w := fun source h =>
    (hnotify.notify _ h.untouched.heap source _ (.refl _)).mono fun _ _ h' => ⟨value, .refl value, h.rests hpresent h'⟩
  cases hslot : (w.object holder).slot? name with
  | none =>
    rw [writeSlot, writeSlot, insert, insert]
    refine Ends.keeping _ (R := fun _ => Lands value holder name w) ?_ fun _ w' h =>
      h.sameData (.refl w) (World.SameFace.data_congr (.refl w'))
    have hstored := World.stored_store { w with held := [Ref.object holder] ++ w.held } holder name value
    have hstored : w.Stored holder name value _ := hstored.sameData (World.SameFace.data_congr (.refl w)) (.refl _)
    rw [ends_create_bind]
    cases (World.store _ holder name value).1 with
    | none => exact (ends_pure _).mpr ⟨value, .refl value, hstored⟩
    | some source => exact htold source hstored
  | some slot =>
    rw [hslot] at hwritable
    obtain ⟨old, source, rfl⟩ := hwritable.exists_field
    simp only [writeSlot]
    split
    · next hsame => exact (ends_pure _).mpr ⟨old, .inl hsame, World.stored_field hslot⟩
    · rw [ends_update_bind]
      cases source with
      | none => exact (ends_pure _).mpr ⟨value, .refl value, .of_putSlot (.refl w) (.refl _)⟩
      | some source =>
        rw [ends_update_bind]
        have hstored : w.Stored holder name value
            ((w.putSlot holder name (.field value (some source))).observe value) :=
          .of_putSlot (.refl w) (World.untouched_observe _ value)
        have hkept : ∀ held, w.Stored holder name value
            { (w.putSlot holder name (.field value (some source))).observe value with held } := fun _ =>
          hstored.sameData (.refl w) (World.SameFace.data_congr (.refl _))
        refine Ends.keeping _ (htold source (hkept _)) fun _ w' h => ?_
        exact h.sameData (.refl w) (World.SameFace.data_congr (.refl w'))

theorem lands_set {object : ObjectId} {key : String} (hresolve : w.resolve object key = (holder, name)) :
    Ends w (set c object key value) (set d object key value) fun _ => Lands value holder name w := by
  unfold set
  rw [ends_inspect_bind, hresolve]
  refine Ends.keeping _ (R := fun _ => Lands value holder name w) ?_ fun _ w' h =>
    h.sameData (.refl w) (World.SameFace.data_congr (.refl w'))
  rw [ends_inspect_bind]
  generalize (if holder = object then [] else [Ref.object object]) = refs
  exact (lands_writeSlot (w := { w with held := refs ++ w.held }) hnotify hpresent hwritable).mono fun _ w' h =>
    h.sameData (World.SameFace.data_congr (.refl w)) (.refl w')

end Writing

/-- Nobody is evaluating while a step is taken. -/
theorem ends_paused {x y : Engine Code Memory Unit} {Q R : Except Error Unit → World Code Memory → Prop}
    (reader : Option TrackerId) (hx : Ends (w.paused reader) x y R)
    (hQ : ∀ r w', R r w' → Q r (w'.resumed reader)) : Ends w (framed reader none x) (framed reader none y) Q := by
  cases reader with
  | none => exact hx.mono hQ
  | some t => exact hx.framed t none hQ

/-- Whatever a write comes to, its value was stored, and nothing else was touched. -/
theorem lands_writePath (hnotify : Undisturbed c d w.objects.size) (htargets : w.Targets root path holder name)
    (reader : Option TrackerId) : Ends w (writePath c root path value reader) (writePath d root path value reader)
      fun _ => Lands value holder name w := by
  obtain ⟨visited, object, hpassage, hresolve, -⟩ := htargets.reached
  refine ends_paused reader (R := fun _ => Lands value holder name w) ?_ fun _ v h =>
    h.sameData (.refl w) (World.SameData.resumed (.refl v) v.held reader)
  have hheld := (World.sameFace_paused (fun _ => []) w reader value).data
  have hthere := (hheld.passage_eq path.parents root).trans hpassage
  have hwalk : Ends (w.paused reader) (keeping value.refs (walk c path reader none root path.parents))
      (keeping value.refs (walk d path reader none root path.parents))
      fun r v => r = .ok (.object object) ∧ w.SameData v := by
    refine Ends.keeping _ (R := fun r v => r = .ok (.object object) ∧ w.SameData v) (fun r v hrun => ?_) fun r v h =>
      ⟨h.1, World.SameFace.data_congr h.2⟩
    obtain ⟨-, hok, hsame⟩ := (achieves_walk path reader none hthere).ends r v hrun
    exact ⟨(walk_of_passage hnotify.application path reader none hthere).trans hrun, hok, hheld.trans hsame⟩
  refine hwalk.bind ?_ ?_
  · rintro _ v ⟨hok, hsame⟩
    cases hok
    have hset : Ends v (set c object path.last value) (set d object path.last value) fun _ =>
        Lands value holder name v := lands_set (hsame.size ▸ hnotify) (hsame.size ▸ htargets.present)
      (by rw [Object.slot?, hsame.slots]; exact htargets.writable)
      ((hsame.resolve_eq object path.last).trans hresolve)
    exact hset.mono fun _ v' h => h.sameData hsame (.refl v')
  · rintro e v ⟨herror, -⟩
    cases herror

/-! ### Read after write -/

variable {application : Application Code Memory}

/-- An engine whose programs write nothing disturbs nothing. -/
theorem undisturbed_reentryUnder {P : Proviso Code Memory} {ok : Request Code Memory → World Code Memory → Prop}
    {count : Nat} (hharmless : Harmless P ok count) (hprograms : application.Makes ok) (depth : Nat) :
    Undisturbed (reentryUnder P application depth []) (reentryUnder (.sparing count) application depth []) count where
  application := (application_reentryUnder _ depth []).trans (application_reentryUnder P depth []).symm
  notify _ hcount := (rests_reentryUnder hharmless hcount hprograms depth []).notify ()

/-- Nobody writes during a write if no program of the embedder ever does. -/
theorem writePath_sparing (hprograms : application.Makes (Request.Spares w.objects.size))
    (htargets : w.Targets root path holder name) (depth : Nat) (value : Value) (writer : Option TrackerId)
    {outcome : Except Error Unit × World Code Memory}
    (hrun : writePath (reentry application depth) root path value writer w = some outcome) :
    writePath (reentryUnder (.sparing w.objects.size) application depth []) root path value writer w
      = some outcome := by
  have hundisturbed := undisturbed_reentryUnder (P := fun _ _ _ => True) (fun _ _ _ _ h => h) hprograms depth
  rw [reentryUnder_of_holds fun _ _ _ => trivial] at hundisturbed
  exact (lands_writePath hundisturbed htargets writer outcome.1 outcome.2 hrun).1

/--
What is written is read, and nothing else moves. If the parents of a path lead through stored values to an object, the
last segment means a field or an absent key there, and no property on the way is the one that is written, then whatever
a write comes to, a read of the path gives a value that is strictly equal to the one that was written, or both are NaN.
The object that holds the property has it where it was, or at the end if it was absent, and it holds nothing else that
it did not hold; no other object has changed. That is so as long as no program writes when it is told.
-/
theorem written_is_read {depth : Nat} {writer : Option TrackerId} {r : Except Error Unit}
    (htargets : w.Targets root path holder name)
    (hrun : writePath (reentry application depth) root path value writer w = some (r, after))
    (hsparing : ∀ outcome, writePath (reentry application depth) root path value writer w = some outcome →
      writePath (reentryUnder (.sparing w.objects.size) application depth []) root path value writer w = some outcome) :
    ∃ stored : Value, stored.Agrees value ∧
      (∀ depth reader, ∃ after',
        readPath (reentry application depth) root path reader after = some (.ok stored, after')) ∧
      after.contents holder = Entries.putPair name (.field stored none) (w.contents holder) ∧
      ∀ id : ObjectId, id.index < w.objects.size → id ≠ holder → after.contents id = w.contents id := by
  have hnotify := undisturbed_reentryUnder (P := .sparing w.objects.size) (fun _ request _ h _ => h request rfl)
    application.makes_true depth
  obtain ⟨-, stored, hagrees, hstored⟩ := lands_writePath hnotify htargets writer r after (hsparing _ hrun)
  refine ⟨stored, hagrees, fun depth reader => ?_, hstored.contents,
    fun id hid hne => hstored.untouched.contents id ⟨hid, hne⟩⟩
  obtain ⟨visited, object, hpassage, hresolve, hvisited⟩ := htargets.reached
  obtain ⟨source, hslot⟩ := hstored.slot?_self
  have hresolve' : after.resolve object path.last = (holder, name) := by
    rw [hstored.resolve htargets.writable, hresolve]
    rw [hresolve, hslot]
    nofun
  have hfound : Slot.stored? (after.slotAt object path.last) = some stored := by
    rw [World.slotAt, hresolve', hslot]
    rfl
  have hpassage' := World.passage_concat (hstored.passage htargets.writable hpassage hvisited) hfound
  rw [Path.parents_concat] at hpassage'
  have hread := achieves_walk (c := reentry application depth) path reader none hpassage'
  obtain ⟨⟨r', after'⟩, hrun'⟩ := hread.halts trivial
  obtain ⟨-, rfl, -⟩ := hread.ends r' after' hrun'
  exact ⟨after', hrun'⟩

end Engine

/-! ### A probe that looks at the field it is told of -/

/-- A list of one line behind a proxy, and a probe that has read whether the line is packed. -/
def World.parcel : World Unit Unit where
  objects := ⟨#[{ slots := .ofList [("lines", .proxy ⟨1⟩ "lines")] },
    { slots := .ofList [("lines", .field (.array ⟨0⟩ [.object ⟨2⟩]) none)] },
    { slots := .ofList [("packed", .field (.bool false) (some ⟨0⟩))], observed := true }]⟩
  arrays := ⟨#[[.object ⟨2⟩]]⟩
  sources := ⟨#[⟨[.probe ⟨0⟩]⟩]⟩
  probes := ⟨#[⟨()⟩]⟩
  held := [.probe ⟨0⟩]
  memory := ()

/-- An embedder whose probes read a field when they are told, and which does nothing else. -/
def Application.onlooker : Application Unit Unit where
  holds _ := []
  callback _ _ := .done ()
  method _ _ _ := .done ()
  listener _ _ := .done ()
  getter _ _ := .done .null
  update _ := .ask (.get ⟨2⟩ "packed" none) fun _ => .done ()
  install _ _ _ _ := .fail .detached

theorem Application.spares_onlooker (count : Nat) : onlooker.Makes (Request.Spares count) where
  callback _ _ := trivial
  method _ _ _ := trivial
  listener _ _ := trivial
  getter _ _ := trivial
  update _ := ⟨fun _ _ => trivial, fun _ => trivial⟩
  install _ _ _ _ := trivial

theorem World.targets_parcel :
    parcel.Targets (.object ⟨0⟩) ⟨["lines", "0", "packed"], by decide, by decide⟩ ⟨2⟩ "packed" where
  reached := ⟨[(⟨1⟩, "lines")], ⟨2⟩, by rfl, by decide +kernel, by decide⟩
  present := by decide
  writable := trivial

/-- The line is packed, and the probe has had its look meanwhile. -/
theorem Engine.written_is_read_parcel :
    let path : Path := ⟨["lines", "0", "packed"], by decide, by decide⟩
    World.parcel.Targets (.object ⟨0⟩) path ⟨2⟩ "packed" ∧
      ∃ after, writePath (reentry Application.onlooker 3) (.object ⟨0⟩) path (.bool true) none World.parcel
          = some (.ok (), after) ∧
        writePath (reentryUnder (.sparing 3) Application.onlooker 3 []) (.object ⟨0⟩) path (.bool true) none
          World.parcel = some (.ok (), after) ∧
        ∃ stored : Value, stored.Agrees (.bool true) ∧
          (∃ after',
            readPath (reentry Application.onlooker 3) (.object ⟨0⟩) path none after = some (.ok stored, after')) ∧
          after.contents ⟨2⟩ = [("packed", .field stored none)] ∧
          after.contents ⟨1⟩ = World.parcel.contents ⟨1⟩ := by
  intro path
  have htargets := World.targets_parcel
  have hsparing : ∀ outcome, writePath (reentry Application.onlooker 3) (.object ⟨0⟩) path (.bool true) none
      World.parcel = some outcome → _ = some outcome := fun _ =>
    writePath_sparing (Application.spares_onlooker 3) htargets 3 (.bool true) none
  have hends : (writePath (reentry Application.onlooker 3) (.object ⟨0⟩) path (.bool true) none World.parcel).map
      (fun p => p.1.isOk) = some true := by decide +kernel
  obtain ⟨⟨r, after⟩, hrun, hok⟩ := Option.map_eq_some_iff.mp hends
  cases r with
  | error e => cases hok
  | ok u =>
    obtain ⟨stored, hagrees, hread, hholder, hothers⟩ := written_is_read htargets hrun hsparing
    exact ⟨htargets, after, hrun, hsparing _ hrun, stored, hagrees, hread 3 none, hholder,
      hothers ⟨1⟩ (by decide) (by decide)⟩

end ViewBinding
