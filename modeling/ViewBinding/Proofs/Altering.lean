import ViewBinding.Proofs.Building
import ViewBinding.Proofs.Heeding
import ViewBinding.Proofs.Observing

/-!
# Building and writing, as readers see it

Where a step builds or writes, it puts fields where there was a field or nothing, and adds rows at the end
of tables. Whatever else readers find is alike, and every source goes on hearing of what it heard of, but
for the sources that are told. Properties are followed along proxies as before, for proxies stay and
stand for properties of older objects.
-/

namespace ViewBinding

variable {Code Memory : Type} [Inhabited Code]

/-- A field, or nothing. -/
def Plain : Option Slot → Prop
  | some (.field _ _) => True
  | none => True
  | _ => False

theorem Plain.exists_field {slot : Slot} (h : Plain (some slot)) : ∃ value source, slot = .field value source := by
  cases slot with
  | field value source => exact ⟨value, source, rfl⟩
  | _ => exact h.elim

theorem AlikeSlots.plain_iff {slot slot' : Option Slot} (h : AlikeSlots slot slot') :
    Plain slot' ↔ Plain slot := by
  rcases h.eq_or_fields with rfl | ⟨value, source, value', source', rfl, rfl, -⟩
  · exact Iff.rfl
  · exact Iff.rfl

theorem AlikeSlots.trans {slot slot₁ slot' : Option Slot} (h : AlikeSlots slot slot₁)
    (h' : AlikeSlots slot₁ slot') : AlikeSlots slot slot' := by
  rcases h.eq_or_fields with rfl | ⟨value, source, value₁, source₁, rfl, rfl, halike⟩
  · exact h'
  · rcases h'.eq_or_fields with rfl | ⟨_, _, value', source', heq, rfl, halike'⟩
    · exact h
    · cases heq
      exact halike.trans halike'

/-- A proxy is read alike to itself only. -/
theorem AlikeSlots.proxy_iff {slot slot' : Option Slot} (h : AlikeSlots slot slot') (target : ObjectId)
    (name : String) : slot' = some (.proxy target name) ↔ slot = some (.proxy target name) := by
  rcases h.eq_or_fields with rfl | ⟨value, source, value', source', rfl, rfl, -⟩
  · exact Iff.rfl
  · simp

namespace World

variable {w w₁ w' : World Code Memory} {object : ObjectId} {key : String} {told : SourceId → Prop}

/-! ### Following proxies -/

omit [Inhabited Code] in
theorem index_lt_of_slot? {slot : Slot} (h : (w.object object).slot? key = some slot) :
    Key.index object < w.objects.size := by
  refine Classical.byContradiction fun hnot => ?_
  rw [World.object, Table.get_of_size_le _ (Nat.le_of_not_lt hnot)] at h
  cases h

omit [Inhabited Code] in
theorem follow_of_not_proxy (h : ∀ target name, (w.object object).slot? key ≠ some (.proxy target name))
    (steps : Nat) : w.follow steps object key = (object, key) := by
  cases steps with
  | zero => rfl
  | succ steps =>
    rw [follow]
    split
    · next hslot => exact absurd hslot (h _ _)
    · rfl

omit [Inhabited Code] in
theorem follow_proxy {target : ObjectId} {name : String}
    (h : (w.object object).slot? key = some (.proxy target name)) (steps : Nat) :
    w.follow (steps + 1) object key = w.follow steps target name := by
  rw [follow, h]

omit [Inhabited Code] in
/-- With enough steps, following proxies ends at something that is none. -/
theorem Wired.follow_ends (hw : w.Wired) {steps : Nat}
    (hsteps : ∀ target name, (w.object object).slot? key = some (.proxy target name) →
      Key.index object < steps) (target : ObjectId) (name : String) :
    (w.object (w.follow steps object key).1).slot? (w.follow steps object key).2
      ≠ some (.proxy target name) := by
  induction steps generalizing object key with
  | zero => exact fun h => absurd (hsteps target name h) (Nat.not_lt_zero _)
  | succ steps inductionHypothesis =>
    by_cases hproxy : ∃ target name, (w.object object).slot? key = some (.proxy target name)
    · obtain ⟨next, other, hslot⟩ := hproxy
      rw [follow_proxy hslot]
      have hlt := hw.proxy object key next other hslot
      have hindex := hsteps next other hslot
      exact inductionHypothesis fun _ _ _ => by omega
    · rw [follow_of_not_proxy fun target name h => hproxy ⟨target, name, h⟩]
      exact fun h => hproxy ⟨target, name, h⟩

omit [Inhabited Code] in
theorem Wired.resolve_ends (hw : w.Wired) (object : ObjectId) (key : String) (target : ObjectId)
    (name : String) : (w.object (w.resolve object key).1).slot? (w.resolve object key).2
      ≠ some (.proxy target name) :=
  hw.follow_ends (fun _ _ => index_lt_of_slot?) target name

omit [Inhabited Code] in
/-- If proxies stay, and the property in the end is none, it is found again. -/
theorem Wired.follow_eq (hw : w.Wired)
    (hproxies : ∀ object key target name, (w.object object).slot? key = some (.proxy target name) →
      (w'.object object).slot? key = some (.proxy target name))
    {steps steps' : Nat}
    (hsteps : ∀ target name, (w.object object).slot? key = some (.proxy target name) →
      Key.index object < steps ∧ Key.index object < steps')
    (hend : ∀ target name, (w'.object (w.follow steps object key).1).slot? (w.follow steps object key).2
      ≠ some (.proxy target name)) :
    w'.follow steps' object key = w.follow steps object key := by
  induction steps generalizing object key steps' with
  | zero => exact follow_of_not_proxy hend steps'
  | succ steps inductionHypothesis =>
    by_cases hproxy : ∃ target name, (w.object object).slot? key = some (.proxy target name)
    · obtain ⟨target, name, hslot⟩ := hproxy
      have hlt := hw.proxy object key target name hslot
      obtain ⟨hindex, hindex'⟩ := hsteps target name hslot
      rw [follow_proxy hslot] at hend ⊢
      cases steps' with
      | zero => exact absurd hindex' (Nat.not_lt_zero _)
      | succ steps' =>
        rw [follow_proxy (hproxies object key target name hslot)]
        exact inductionHypothesis (fun _ _ _ => by omega) hend
    · have hnone := fun target name h => hproxy ⟨target, name, h⟩
      rw [follow_of_not_proxy hnone] at hend ⊢
      exact follow_of_not_proxy hend steps'

/-! ### Altering -/

omit [Inhabited Code] in
theorem hearer_congr (hslot : (w'.object object).slot? key = (w.object object).slot? key)
    (hobserved : (w'.object object).observed = (w.object object).observed)
    (hawaited : (w'.object object).awaited.find? key = (w.object object).awaited.find? key) :
    w'.hearer object key = w.hearer object key := by
  rw [hearer, hslot, hobserved, hawaited, hearer]

/-- A slot was altered and the source that hears of it is told, or it is read alike and heard of as
before. -/
def AltersAt (told : SourceId → Prop) (w w' : World Code Memory) (object : ObjectId) (key : String) :
    Prop :=
  (Plain ((w.object object).slot? key) ∧ ∀ s, w.hearer object key = some s → told s) ∨
    (AlikeSlots ((w.object object).slot? key) ((w'.object object).slot? key) ∧
      ∀ s, w.hearer object key = some s → w'.hearer object key = some s)

/-- Slots that can be written were altered and rows were added. -/
structure Alters (told : SourceId → Prop) (w w' : World Code Memory) : Prop extends w.Builds w' where
  objects : w.objects.size ≤ w'.objects.size
  slots : ∀ object key, AltersAt told w w' object key
  computeds : w.computeds.size ≤ w'.computeds.size
  rows : ∀ id, Key.index id < w.computeds.size →
    (w'.computed id).base = (w.computed id).base ∧ (w'.computed id).cache = (w.computed id).cache
  fresh : ∀ id, w.computeds.size ≤ Key.index id → (w'.computed id).cache = none
  viewModels : w.viewModels.size ≤ w'.viewModels.size
  roots : ∀ owner, Key.index owner < w.viewModels.size →
    (w'.viewModel owner).root = (w.viewModel owner).root
  wired : w.Wired → w'.Wired

omit [Inhabited Code] in
theorem altersAt_same (hslot : (w'.object object).slot? key = (w.object object).slot? key)
    (hobserved : (w'.object object).observed = (w.object object).observed)
    (hawaited : (w'.object object).awaited.find? key = (w.object object).awaited.find? key) :
    AltersAt told w w' object key := by
  refine Or.inr ⟨hslot ▸ .refl _, fun s hs => ?_⟩
  rw [hearer_congr hslot hobserved hawaited, hs]

theorem cache_of_size_le {id : ComputedId} (h : w.computeds.size ≤ Key.index id) :
    (w.computed id).cache = none := by
  rw [World.computed, Table.get_of_size_le _ h]
  rfl

theorem Alters.refl (w : World Code Memory) : Alters told w w :=
  ⟨.refl w, Nat.le_refl _, fun _ _ => altersAt_same rfl rfl rfl, Nat.le_refl _, fun _ _ => ⟨rfl, rfl⟩,
    fun _ => cache_of_size_le, Nat.le_refl _, fun _ _ => rfl, id⟩

theorem Alters.trans (h : Alters told w w₁) (h' : Alters told w₁ w') : Alters told w w' where
  toBuilds := h.toBuilds.trans h'.toBuilds
  objects := Nat.le_trans h.objects h'.objects
  slots object key := by
    rcases h.slots object key with htold | ⟨halike, hhears⟩
    · exact Or.inl htold
    · rcases h'.slots object key with ⟨hplain, htold⟩ | ⟨halike', hhears'⟩
      · exact Or.inl ⟨halike.plain_iff.mp hplain, fun s hs => htold s (hhears s hs)⟩
      · exact Or.inr ⟨halike.trans halike', fun s hs => hhears' s (hhears s hs)⟩
  computeds := Nat.le_trans h.computeds h'.computeds
  rows id hid := by
    obtain ⟨hbase, hcache⟩ := h.rows id hid
    obtain ⟨hbase', hcache'⟩ := h'.rows id (Nat.lt_of_lt_of_le hid h.computeds)
    exact ⟨hbase'.trans hbase, hcache'.trans hcache⟩
  fresh id hid := by
    by_cases hlt : Key.index id < w₁.computeds.size
    · exact (h'.rows id hlt).2.trans (h.fresh id hid)
    · exact h'.fresh id (Nat.le_of_not_lt hlt)
  viewModels := Nat.le_trans h.viewModels h'.viewModels
  roots owner howner := (h'.roots owner (Nat.lt_of_lt_of_le howner h.viewModels)).trans
    (h.roots owner howner)
  wired hw := h'.wired (h.wired hw)

/-- What is covered by sources that are not told is heard of as before, and read alike. -/
theorem Alters.sounds (h : Alters told w w') (hw : w.Wired) {l : List SourceId}
    (hsounds : w.Sounds l (.property object key)) (hl : ∀ s ∈ l, ¬ told s) :
    w'.Sounds l (.property object key) ∧ AlikeSlots (w.slotAt object key) (w'.slotAt object key) := by
  rcases h.slots (w.resolve object key).1 (w.resolve object key).2 with ⟨hplain, htold⟩ | ⟨halike, hhears⟩
  · obtain ⟨s, hs, hsource⟩ := hsounds hplain
    exact absurd (htold s hsource) (hl s hs)
  · have hproxies : ∀ object key target name, (w.object object).slot? key = some (.proxy target name) →
        (w'.object object).slot? key = some (.proxy target name) := by
      intro other name target next hslot
      rcases h.slots other name with ⟨hplain, -⟩ | ⟨halike, -⟩
      · rw [hslot] at hplain
        exact hplain.elim
      · exact (halike.proxy_iff target next).mpr hslot
    have hresolve : w'.resolve object key = w.resolve object key := by
      refine hw.follow_eq hproxies (fun target name hslot => ?_) fun target name hslot => ?_
      · have hlt := index_lt_of_slot? hslot
        exact ⟨hlt, Nat.lt_of_lt_of_le hlt h.objects⟩
      · exact hw.resolve_ends object key target name ((halike.proxy_iff target name).mp hslot)
    have hslotAt : w'.slotAt object key
        = (w'.object (w.resolve object key).1).slot? (w.resolve object key).2 := by
      rw [slotAt, hresolve]
    rw [hslotAt]
    refine ⟨fun hwritable => ?_, halike⟩
    have hplain : Plain (w'.slotAt object key) := hwritable
    rw [hslotAt, halike.plain_iff] at hplain
    obtain ⟨s, hs, hsource⟩ := hsounds hplain
    refine ⟨s, hs, ?_⟩
    rw [hears, hresolve]
    exact hhears s hsource

/-! ### Rows -/

/-- Nothing was written that readers find. -/
theorem Builds.alters (hb : w.Builds w') (hobjects : w'.objects = w.objects)
    (hcomputeds : w'.computeds = w.computeds) (hviewModels : w'.viewModels = w.viewModels) :
    Alters told w w' := by
  have hobject : ∀ id, w'.object id = w.object id := fun id => by
    rw [World.object, hobjects, World.object]
  have hcomputed : ∀ id, w'.computed id = w.computed id := fun id => by
    rw [World.computed, hcomputeds, World.computed]
  refine ⟨hb, Nat.le_of_eq (by rw [hobjects]), fun object key => ?_, Nat.le_of_eq (by rw [hcomputeds]),
    fun id _ => ?_, fun id hid => ?_, Nat.le_of_eq (by rw [hviewModels]), fun owner _ => ?_,
    fun hw => ⟨?_, ?_⟩⟩
  · exact altersAt_same (by rw [hobject]) (by rw [hobject]) (by rw [hobject])
  · rw [hcomputed]
    exact ⟨rfl, rfl⟩
  · rw [hcomputed]
    exact cache_of_size_le hid
  · rw [viewModel, hviewModels, viewModel]
  · intro object key target name hslot
    rw [hobject] at hslot
    exact hw.proxy object key target name hslot
  · intro object key id hslot
    rw [hobject] at hslot
    rw [hcomputeds]
    exact hw.computed object key id hslot

theorem alters_addObject (w : World Code Memory) : Alters told w w.addObject.2 := by
  have hobject : ∀ id, w.addObject.2.object id = w.object id := Table.get_add_default w.objects
  refine ⟨builds_of_eq rfl rfl rfl rfl rfl, ?_, fun object key => ?_, Nat.le_refl _, fun _ _ => ⟨rfl, rfl⟩,
    fun _ => cache_of_size_le, Nat.le_refl _, fun _ _ => rfl, fun hw => ⟨?_, ?_⟩⟩
  · exact Table.size_add w.objects _ ▸ Nat.le_succ _
  · exact altersAt_same (by rw [hobject]) (by rw [hobject]) (by rw [hobject])
  · intro object key target name hslot
    rw [hobject] at hslot
    exact hw.proxy object key target name hslot
  · intro object key id hslot
    rw [hobject] at hslot
    exact hw.computed object key id hslot

theorem alters_addComputed (w : World Code Memory) (x : Computed Code) (hcache : x.cache = none)
    (hlist : x.dependencies = {}) : Alters told w (w.addComputed x).2 := by
  have hsize : w.computeds.size ≤ (w.addComputed x).2.computeds.size :=
    Table.size_add w.computeds x ▸ Nat.le_succ _
  have hrow : ∀ id, (w.addComputed x).2.computed id
      = if id = w.computeds.fresh then x else w.computed id := by
    intro id
    split
    · next h => exact h ▸ Table.get_add_fresh w.computeds x
    · next h => exact Table.get_add_of_ne w.computeds x h
  refine ⟨(raises_addComputed w x hlist).toBuilds, Nat.le_refl _, fun object key => altersAt_same rfl rfl rfl, hsize,
    fun id hid => ?_, fun id hid => ?_, Nat.le_refl _, fun _ _ => rfl, fun hw => ⟨hw.proxy, ?_⟩⟩
  · rw [hrow, if_neg]
    · exact ⟨rfl, rfl⟩
    · rintro rfl
      rw [Table.index_fresh] at hid
      exact Nat.lt_irrefl _ hid
  · rw [hrow]
    split
    · exact hcache
    · exact cache_of_size_le hid
  · intro object key id hslot
    exact Nat.lt_of_lt_of_le (hw.computed object key id hslot) hsize

theorem alters_addViewModel (w : World Code Memory) (x : ViewModel Code) :
    Alters told w (w.addViewModel x).2 := by
  refine ⟨builds_of_eq rfl rfl rfl rfl rfl, Nat.le_refl _, fun object key => altersAt_same rfl rfl rfl,
    Nat.le_refl _, fun _ _ => ⟨rfl, rfl⟩, fun _ => cache_of_size_le, ?_, fun owner howner => ?_,
    fun hw => ⟨hw.proxy, hw.computed⟩⟩
  · exact Table.size_add w.viewModels x ▸ Nat.le_succ _
  · have hne : owner ≠ w.viewModels.fresh := by
      rintro rfl
      rw [Table.index_fresh] at howner
      exact Nat.lt_irrefl _ howner
    exact congrArg ViewModel.root (Table.get_add_of_ne w.viewModels x hne)

/-! ### Slots -/

/-- A slot that stands for something older than its object, if for anything. -/
def Grounded (w : World Code Memory) (object : ObjectId) : Slot → Prop
  | .proxy target _ => Key.index target < Key.index object
  | .computed id => Key.index id < w.computeds.size
  | _ => True

omit [Inhabited Code] in
theorem wired_iff : w.Wired ↔
    ∀ object key slot, (w.object object).slot? key = some slot → w.Grounded object slot := by
  constructor
  · intro hw object key slot hslot
    cases slot with
    | proxy target name => exact hw.proxy object key target name hslot
    | computed id => exact hw.computed object key id hslot
    | _ => trivial
  · intro hw
    exact ⟨fun object key target name hslot => hw object key _ hslot,
      fun object key id hslot => hw object key _ hslot⟩

omit [Inhabited Code] in
theorem AltersAt.trans_same (h : AltersAt told w w₁ object key)
    (hslot : (w'.object object).slot? key = (w₁.object object).slot? key)
    (hobserved : (w'.object object).observed = (w₁.object object).observed)
    (hawaited : (w'.object object).awaited.find? key = (w₁.object object).awaited.find? key) :
    AltersAt told w w' object key := by
  rcases h with htold | ⟨halike, hhears⟩
  · exact Or.inl htold
  · refine Or.inr ⟨hslot ▸ halike, fun s hs => ?_⟩
    rw [hearer_congr hslot hobserved hawaited]
    exact hhears s hs

/-- After altering, one more key has changed. -/
theorem Alters.changeAt (h : Alters told w w₁) (hc : ChangesAt object key w₁ w') (hb : w₁.Builds w')
    (hsize : w₁.objects.size ≤ w'.objects.size) (hcomputeds : w'.computeds = w₁.computeds)
    (hviewModels : w'.viewModels = w₁.viewModels) (hkey : AltersAt told w w' object key)
    (hground : ∀ slot, (w'.object object).slot? key = some slot → w'.Grounded object slot) :
    Alters told w w' := by
  have hcomputed : ∀ id, w'.computed id = w₁.computed id := fun id => by
    rw [World.computed, hcomputeds, World.computed]
  refine ⟨h.toBuilds.trans hb, Nat.le_trans h.objects hsize, fun other name => ?_, hcomputeds ▸ h.computeds,
    fun id hid => ?_, fun id hid => ?_, hviewModels ▸ h.viewModels, fun owner howner => ?_, fun hw => ?_⟩
  · by_cases hother : other = object ∧ name = key
    · rw [hother.1, hother.2]
      exact hkey
    · have hne : other ≠ object ∨ name ≠ key := by grind
      exact (h.slots other name).trans_same (hc.slots other name hne) (hc.observed other)
        (hc.awaited other name hne)
  · rw [hcomputed]
    exact h.rows id hid
  · rw [hcomputed]
    exact h.fresh id hid
  · rw [viewModel, hviewModels]
    exact h.roots owner howner
  · refine wired_iff.mpr fun other name slot hslot => ?_
    by_cases hother : other = object ∧ name = key
    · rw [hother.1, hother.2] at hslot
      rw [hother.1]
      exact hground slot hslot
    · rw [hc.slots other name (by grind)] at hslot
      have hold := wired_iff.mp (h.wired hw) other name slot hslot
      cases slot with
      | computed id =>
        rw [Grounded, hcomputeds]
        exact hold
      | _ => exact hold

omit [Inhabited Code] in
/-- Nobody has heard of an object that was not there. -/
theorem altersAt_fresh (hfresh : w.objects.size ≤ Key.index object) (key : String) :
    AltersAt told w w' object key := by
  have hrow : w.object object = {} := by
    rw [World.object, Table.get_of_size_le _ hfresh]
    rfl
  have hslot : (w.object object).slot? key = none := by
    rw [hrow]
    rfl
  refine Or.inl ⟨hslot ▸ trivial, fun s hs => ?_⟩
  rw [hearer, hslot, hrow] at hs
  cases hs

/-- After altering, a slot of an object that is new was written. -/
theorem Alters.putFresh (h : Alters told w w₁) (hfresh : w.objects.size ≤ Key.index object) (key : String)
    {slot : Slot} (hground : w₁.Grounded object slot) : Alters told w (w₁.putSlot object key slot) := by
  refine h.changeAt (changesAt_putSlot w₁ object key slot) (raises_putSlot w₁ object key slot).toBuilds
    (Table.size_le_modify _ _ _) rfl rfl (altersAt_fresh hfresh key) fun other hslot => ?_
  rw [slot?_putSlot] at hslot
  cases hslot
  cases slot <;> exact hground

/-! ### Observing -/

omit [Inhabited Code] in
/-- Whoever was heard of is so if the object is observed still. -/
theorem hearer_mono (hslot : (w'.object object).slot? key = (w.object object).slot? key)
    (hobserved : (w.object object).observed = true → (w'.object object).observed = true)
    (hawaited : (w'.object object).awaited = (w.object object).awaited) {s : SourceId}
    (hs : w.hearer object key = some s) : w'.hearer object key = some s := by
  rw [hearer] at hs ⊢
  rw [hslot]
  split at hs
  · exact hs
  · split at hs
    · next h =>
      rw [if_pos (hobserved h), hawaited]
      exact hs
    · cases hs
  · cases hs

theorem alters_instrument (w : World Code Memory) (id : ObjectId) : Alters told w (w.instrument id) := by
  have h := instruments w id
  obtain ⟨hthread, -⟩ := thread_equip_sources w (w.object id).slots.toList
  have hsize : w.objects.size ≤ (w.instrument id).objects.size := by
    refine Nat.le_trans (Nat.le_of_eq ?_) (Table.size_le_modify _ id _)
    exact (congrArg (fun v : World Code Memory => v.objects.size) hthread).symm
  have hcomputeds : (w.instrument id).computeds = w.computeds := by
    change (Entries.thread equip (w.object id).slots.toList w).2.computeds = _
    rw [hthread]
  have hviewModels : (w.instrument id).viewModels = w.viewModels := by
    change (Entries.thread equip (w.object id).slots.toList w).2.viewModels = _
    rw [hthread]
  have hcomputed : ∀ j, (w.instrument id).computed j = w.computed j := fun j => by
    rw [World.computed, hcomputeds, World.computed]
  refine ⟨(raises_instrument w id).toBuilds, hsize, fun object key => ?_, Nat.le_of_eq (by rw [hcomputeds]),
    fun j _ => ?_, fun j hj => ?_, Nat.le_of_eq (by rw [hviewModels]), fun owner _ => ?_, fun hw => ?_⟩
  · by_cases hid : object = id
    · subst hid
      have hsame : ((w.instrument object).object object).slot? key = (w.object object).slot? key →
          AltersAt told w (w.instrument object) object key := fun hslot =>
        Or.inr ⟨hslot ▸ .refl _, fun s hs =>
          hearer_mono hslot (fun hobserved => (h.observed object).mpr (Or.inl hobserved)) (h.awaited object)
            hs⟩
      cases hslot' : ((w.instrument object).object object).slot? key with
      | none => exact hsame (hslot'.trans (h.slot?_none.mp hslot').symm)
      | some slot =>
        rcases h.slot? hslot' with ⟨hslot, -⟩ | ⟨-, value, s, hslot, -⟩
        · exact hsame (hslot'.trans hslot.symm)
        · refine Or.inl ⟨hslot ▸ trivial, fun s hs => ?_⟩
          rw [hearer, hslot] at hs
          cases hs
    · have hobserved : ((w.instrument id).object object).observed = (w.object object).observed := by
        rw [Bool.eq_iff_iff, h.observed]
        exact or_iff_left hid
      refine altersAt_same ?_ hobserved (by rw [h.awaited])
      rw [Object.slot?, Object.slot?, h.slots object hid]
  · rw [hcomputed]
    exact ⟨rfl, rfl⟩
  · rw [hcomputed]
    exact cache_of_size_le hj
  · rw [viewModel, hviewModels, viewModel]
  · refine wired_iff.mpr fun object key slot hslot => ?_
    rcases h.slot? hslot with ⟨hold, -⟩ | ⟨-, value, s, -, rfl, -⟩
    · have hground := wired_iff.mp hw object key slot hold
      cases slot with
      | computed j =>
        rw [Grounded, hcomputeds]
        exact hground
      | _ => exact hground
    · trivial

theorem alters_observe (w : World Code Memory) (value : Value) : Alters told w (w.observe value) := by
  have hfold : ∀ (l : List ObjectId) (w : World Code Memory), Alters told w (l.foldl instrument w) := by
    intro l
    induction l with
    | nil => exact fun w => .refl w
    | cons id rest inductionHypothesis =>
      exact fun w => (alters_instrument w id).trans (inductionHypothesis _)
  exact hfold _ w

/-! ### Writing and storing -/

/-- A field is written whose source is told. -/
theorem alters_write (w : World Code Memory) {old value : Value} {source : Option SourceId}
    (hslot : (w.object object).slot? key = some (.field old source)) :
    Alters (fun s => source = some s) w (w.putSlot object key (.field value source)) := by
  refine (Alters.refl w).changeAt (changesAt_putSlot w object key _) (raises_putSlot w object key _).toBuilds
    (Table.size_le_modify _ _ _) rfl rfl (Or.inl ⟨hslot ▸ trivial, fun s hs => ?_⟩) fun slot hslot' => ?_
  · rw [hearer, hslot] at hs
    exact hs
  · rw [slot?_putSlot] at hslot'
    cases hslot'
    trivial

/-- Storing puts a field under the key, with the source that is kept, and observes what it holds. -/
theorem exists_stored (w : World Code Memory) (object : ObjectId) (key : String) (value : Value) :
    ∃ (w₁ : World Code Memory) (source : Option SourceId), ChangesAt object key w w₁ ∧ w.Builds w₁ ∧
      w.objects.size ≤ w₁.objects.size ∧ w₁.computeds = w.computeds ∧ w₁.viewModels = w.viewModels ∧
      (w₁.object object).slot? key = some (.field value source) ∧
      ((handover (w.object object) key value).1.isSome →
        source = (handover (w.object object) key value).1) ∧
      ∀ told, Alters told w₁ (w.store object key value).2 := by
  have harrive := changesAt_arrive w object key
  have hobjects : w.objects.size ≤ (w.arrive object key).objects.size := by
    unfold arrive
    split
    · exact Table.size_le_modify _ _ _
    · exact Nat.le_refl _
  have htables : (w.arrive object key).computeds = w.computeds
      ∧ (w.arrive object key).viewModels = w.viewModels := by
    unfold arrive
    split <;> exact ⟨rfl, rfl⟩
  have hbuilds : w.Builds (w.arrive object key) := by
    unfold arrive
    split
    · exact builds_of_eq rfl rfl rfl rfl rfl
    · exact .refl w
  unfold World.store
  simp only [harrive.observed]
  generalize (handover (w.object object) key value).1 = kept
  cases (w.object object).observed with
  | true =>
    obtain ⟨hsteady, hkept, -⟩ := sourceOrNew_spec (w.arrive object key) kept
    have hrest : ((w.arrive object key).sourceOrNew kept).2.objects = (w.arrive object key).objects ∧
        ((w.arrive object key).sourceOrNew kept).2.computeds = (w.arrive object key).computeds ∧
        ((w.arrive object key).sourceOrNew kept).2.viewModels = (w.arrive object key).viewModels := by
      cases kept <;> exact ⟨rfl, rfl, rfl⟩
    obtain ⟨hobjects', hcomputeds', hviewModels'⟩ := hrest
    refine ⟨_, _, harrive.trans ((hsteady.changesAt object key).trans (changesAt_putSlot _ object key _)),
      hbuilds.trans ((raises_sourceOrNew _ kept).trans (raises_putSlot _ object key _)).toBuilds, ?_,
      hcomputeds'.trans htables.1, hviewModels'.trans htables.2, slot?_putSlot _ object key _,
      fun hsome => ?_, fun told => alters_observe _ value⟩
    · refine Nat.le_trans hobjects (Nat.le_trans (Nat.le_of_eq ?_) (Table.size_le_modify _ _ _))
      rw [hobjects']
    · obtain ⟨s, hs⟩ := Option.isSome_iff_exists.mp hsome
      rw [hkept s hs, hs]
  | false =>
    exact ⟨_, kept, harrive.trans (changesAt_putSlot _ object key _),
      hbuilds.trans (raises_putSlot _ object key _).toBuilds, Nat.le_trans hobjects (Table.size_le_modify _ _ _),
      htables.1, htables.2, slot?_putSlot _ object key _, fun _ => rfl, fun told => .refl _⟩

/-- A field or an absent key is written, and the source is told if the value is another one. A value that
counts as the same must be one that readers do not tell apart. -/
theorem alters_store (w : World Code Memory) (value : Value)
    (hplain : Plain ((w.object object).slot? key))
    (halike : ∀ old source, (w.object object).slot? key = some (.field old source) →
      old.same value = true → old.Alike value) :
    Alters (fun s => (handover (w.object object) key value).2 = some s) w
      (w.store object key value).2 := by
  obtain ⟨w₁, source, hc, hbuilds, hsize, hcomputeds, hviewModels, hslot', hkept, hrest⟩ :=
    exists_stored w object key value
  refine ((Alters.refl w).changeAt hc hbuilds hsize hcomputeds hviewModels ?_ fun slot hslot => ?_).trans
    (hrest _)
  · rw [handover] at hkept ⊢
    rw [AltersAt, hearer, hearer, hslot']
    cases hslot : (w.object object).slot? key with
    | none =>
      refine Or.inl ⟨trivial, fun s hs => ?_⟩
      simp only at hs ⊢
      exact hs
    | some slot =>
      cases slot with
      | field old kept =>
        simp only [hslot] at hkept ⊢
        cases hsame : old.same value with
        | true =>
          refine Or.inr ⟨halike old kept hslot hsame, fun s hs => ?_⟩
          rw [hs] at hkept
          exact hkept rfl
        | false => exact Or.inl ⟨trivial, fun s hs => hs⟩
      | _ =>
        rw [hslot] at hplain
        exact hplain.elim
  · rw [hslot'] at hslot
    cases hslot
    trivial

/-- After altering, a field of an object that is new was stored. -/
theorem Alters.storeFresh (h : Alters told w w₁) (hfresh : w.objects.size ≤ Key.index object) (key : String)
    (value : Value) : Alters told w (w₁.store object key value).2 := by
  obtain ⟨w₂, source, hc, hbuilds, hsize, hcomputeds, hviewModels, hslot', -, hrest⟩ :=
    exists_stored w₁ object key value
  refine (h.changeAt hc hbuilds hsize hcomputeds hviewModels (altersAt_fresh hfresh key)
    fun slot hslot => ?_).trans (hrest _)
  rw [hslot'] at hslot
  cases hslot
  trivial

/-! ### Documents -/

mutual

theorem alters_load (w : World Code Memory) : (json : Json) → Alters told w (w.load json).2
  | .null => .refl w
  | .bool _ => .refl w
  | .integer _ => .refl w
  | .real _ => .refl w
  | .string _ => .refl w
  | .array items =>
    (alters_loadItems w items).trans (Builds.alters (builds_of_eq rfl rfl rfl rfl rfl) rfl rfl rfl)
  | .object members =>
    (alters_addObject w).loadMembers (Nat.le_of_eq (Table.index_fresh w.objects).symm) members

theorem alters_loadItems (w : World Code Memory) :
    (items : List Json) → Alters told w (w.loadItems items).2
  | [] => .refl w
  | item :: rest => (alters_load w item).trans (alters_loadItems _ rest)

theorem Alters.loadMembers {w w₁ : World Code Memory} {object : ObjectId} (h : Alters told w w₁)
    (hfresh : w.objects.size ≤ Key.index object) :
    (members : List (String × Json)) → Alters told w (w₁.loadMembers object members)
  | [] => h
  | (key, json) :: rest =>
    ((h.trans (alters_load w₁ json)).storeFresh hfresh key _).loadMembers hfresh rest

end

/-! ### View models -/

/-- Computed properties are defined under keys that were absent and that nobody waited for. -/
theorem Alters.defineComputed {owner : ViewModelId} {data : ObjectId} {tracker : TrackerId} {memoize : Bool}
    {l : List (String × Code)} (h : Alters told w w₁)
    (hl : ∀ pair ∈ l, (w.object data).slot? pair.1 = none ∧ w.hearer data pair.1 = none) :
    Alters told w (defineComputed owner data tracker memoize w₁ l) := by
  induction l generalizing w₁ with
  | nil => exact h
  | cons pair rest inductionHypothesis =>
    obtain ⟨hslot, hhearer⟩ := hl pair List.mem_cons_self
    refine inductionHypothesis ?_ fun other hother => hl other (List.mem_cons_of_mem _ hother)
    have hadded := (h.trans (Builds.alters (raises_addSource w₁).toBuilds rfl rfl rfl)).trans
      (alters_addComputed w₁.addSource.2
        ⟨pair.1, tracker, memoize, .ofViewModel owner pair.2, w₁.addSource.1, none, {}, 0⟩ rfl rfl)
    refine hadded.changeAt (changesAt_putSlot _ data pair.1 _) (raises_putSlot _ data pair.1 _).toBuilds
      (Table.size_le_modify _ _ _) rfl rfl (Or.inl ⟨hslot ▸ trivial, fun s hs => ?_⟩) fun slot hslot' => ?_
    · rw [hhearer] at hs
      cases hs
    · rw [slot?_putSlot] at hslot'
      cases hslot'
      change Key.index w₁.computeds.fresh < (w₁.computeds.add _).size
      rw [Table.index_fresh, Table.size_add]
      exact Nat.lt_succ_self _

theorem Alters.defineMethods {root : ObjectId} {l : List (String × Code)} (h : Alters told w w₁)
    (hfresh : w.objects.size ≤ Key.index root) : Alters told w (defineMethods root w₁ l) := by
  induction l generalizing w₁ with
  | nil => exact h
  | cons pair rest inductionHypothesis =>
    have hbuilds : w₁.Builds (w₁.addFunction { name := pair.1, code := pair.2 }).2 :=
      builds_of_eq rfl rfl rfl rfl rfl
    have hadded := h.trans (hbuilds.alters rfl rfl rfl)
    exact inductionHypothesis (hadded.putFresh hfresh pair.1 trivial)

theorem Alters.defineProxies {root data : ObjectId} {keys : List String} (h : Alters told w w₁)
    (hfresh : w.objects.size ≤ Key.index root) (hdata : Key.index data < Key.index root) :
    Alters told w (keys.foldl (fun w key => w.putSlot root key (.proxy data key)) w₁) := by
  induction keys generalizing w₁ with
  | nil => exact h
  | cons key rest inductionHypothesis => exact inductionHypothesis (h.putFresh hfresh key hdata)

/-- A view model is made on data that is there, if nobody waits for the names of its computed
properties. -/
theorem alters_assemble (w : World Code Memory) (options : Options Code) {data : ObjectId}
    (hdata : Key.index data < w.objects.size)
    (hnames : ∀ pair ∈ options.computed.toList,
      (w.object data).slot? pair.1 = none ∧ w.hearer data pair.1 = none) :
    Alters told w (w.assemble options data).2 := by
  have hobserved : Alters told w (w.observe (.object data)) := alters_observe w (.object data)
  unfold World.assemble
  generalize w.observe (.object data) = w₁ at hobserved ⊢
  generalize options.directives.foldl _ Registry.standard = registry
  have hroot : w.objects.size ≤ Key.index w₁.objects.fresh := by
    rw [Table.index_fresh]
    exact hobserved.objects
  have hmade := (hobserved.trans (Builds.alters (raises_addTracker w₁).toBuilds rfl rfl rfl)).trans
    ((alters_addObject w₁.addTracker.2).trans (alters_addViewModel _
      { settings := options.settings, tracker := w₁.addTracker.1, data, root := w₁.objects.fresh, registry
        document := options.document }))
  exact (((hmade.defineComputed hnames).defineMethods hroot).defineProxies hroot
    (Nat.lt_of_lt_of_le hdata hroot)).putFresh hroot "$data" trivial

end World

end ViewBinding
