import Mathlib.Data.List.Nodup
import Mathlib.Data.List.Perm.Subperm
import ViewBinding.Proofs.Exactness
import ViewBinding.Proofs.Retrieving
import ViewBinding.Proofs.Surveying

/-!
# Documents in the heap

A value embodies a document in some objects: they are the objects of the document, in the order in which it mentions
them. If they are all different then the document can be read back from them, and whatever leaves them alone leaves the
document alone. Loading a document makes a value that embodies it in new objects.
-/

namespace ViewBinding

namespace Json

mutual

/-- The numbers are integers that are written as such, and the members of an object have different names. -/
def Faithful : Json → Prop
  | integer n => n.natAbs < 9000000000000000
  | real _ => False
  | array items => FaithfulItems items
  | object members => (members.map Prod.fst).Nodup ∧ FaithfulMembers members
  | _ => True

def FaithfulItems : List Json → Prop
  | [] => True
  | item :: rest => item.Faithful ∧ FaithfulItems rest

def FaithfulMembers : List (String × Json) → Prop
  | [] => True
  | (_, value) :: rest => value.Faithful ∧ FaithfulMembers rest

end

end Json

/-- Nobody observes an object, and none of its fields has a source. -/
structure Object.Unobserved (o : Object) : Prop where
  observed : o.observed = false
  sourceless {key : String} {value : Value} {source : Option SourceId} :
    o.slot? key = some (.field value source) → source = none

namespace World

variable {Code Memory : Type} {w w₁ w₂ : World Code Memory}

mutual

/-- A value says what a document says, by means of some objects. -/
inductive Embodies (w : World Code Memory) : Value → Json → List ObjectId → Prop
  | null : Embodies w .null .null []
  | bool (b : Bool) : Embodies w (.bool b) (.bool b) []
  | integer {x : Float} {n : Int} (hvalue : (Decimal.Binary.ofFloat x).integer? = some n)
      (hbound : n.natAbs < 9000000000000000) : Embodies w (.number x) (.integer n) []
  | string (s : String) : Embodies w (.string s) (.string s) []
  | array {id : ArrayId} {values : List Value} {items : List Json} {ids : List ObjectId}
      (hmade : id.index < w.arrays.size) (hitems : EmbodiesItems w values items ids) :
      Embodies w (.array id values) (.array items) ids
  | object {id : ObjectId} {members : List (String × Json)} {ids : List ObjectId}
      (hmade : id.index < w.objects.size) (hmembers : EmbodiesMembers w (w.contents id) members ids) :
      Embodies w (.object id) (.object members) (id :: ids)

inductive EmbodiesItems (w : World Code Memory) : List Value → List Json → List ObjectId → Prop
  | nil : EmbodiesItems w [] [] []
  | cons {value : Value} {item : Json} {values : List Value} {rest : List Json} {ids others : List ObjectId}
      (hitem : Embodies w value item ids) (hrest : EmbodiesItems w values rest others) :
      EmbodiesItems w (value :: values) (item :: rest) (ids ++ others)

inductive EmbodiesMembers (w : World Code Memory) :
    List (String × Slot) → List (String × Json) → List ObjectId → Prop
  | nil : EmbodiesMembers w [] [] []
  | cons {key : String} {value : Value} {json : Json} {slots : List (String × Slot)} {rest : List (String × Json)}
      {ids others : List ObjectId} (hmember : Embodies w value json ids) (hrest : EmbodiesMembers w slots rest others) :
      EmbodiesMembers w ((key, .field value none) :: slots) ((key, json) :: rest) (ids ++ others)

end

variable {kept : ObjectId → Prop}

/-! ### Leaving a document alone -/

/-- Certain objects hold what they held, and no array has gone. -/
structure Intact (kept : ObjectId → Prop) (w w' : World Code Memory) : Prop extends Untouched kept w w' where
  arrays : w.arrays.size ≤ w'.arrays.size

theorem Intact.refl (w : World Code Memory) : Intact kept w w :=
  ⟨.refl w, Nat.le_refl _⟩

theorem Intact.trans (h : Intact kept w w₁) (h' : Intact kept w₁ w₂) : Intact kept w w₂ :=
  ⟨h.toUntouched.trans h'.toUntouched, Nat.le_trans h.arrays h'.arrays⟩

theorem Intact.mono {fewer : ObjectId → Prop} (h : Intact kept w w₁) (hfewer : ∀ id, fewer id → kept id) :
    Intact fewer w w₁ :=
  ⟨h.toUntouched.mono hfewer, h.arrays⟩

mutual

theorem Embodies.intact {value : Value} {json : Json} {ids : List ObjectId} (h : w.Embodies value json ids)
    (hintact : w.Intact (· ∈ ids) w₁) : w₁.Embodies value json ids :=
  match h with
  | .null => .null
  | .bool b => .bool b
  | .integer hvalue hbound => .integer hvalue hbound
  | .string s => .string s
  | .array hmade hitems => .array (Nat.lt_of_lt_of_le hmade hintact.arrays) (hitems.intact hintact)
  | .object hmade hmembers => by
    have hbelow := hmembers.intact (hintact.mono fun _ => List.mem_cons_of_mem _)
    rw [← hintact.contents _ List.mem_cons_self] at hbelow
    exact .object (Nat.lt_of_lt_of_le hmade hintact.heap) hbelow

theorem EmbodiesItems.intact {values : List Value} {items : List Json} {ids : List ObjectId}
    (h : w.EmbodiesItems values items ids) (hintact : w.Intact (· ∈ ids) w₁) :
    w₁.EmbodiesItems values items ids :=
  match h with
  | .nil => .nil
  | .cons hitem hrest => .cons (hitem.intact (hintact.mono fun _ => List.mem_append_left _))
      (hrest.intact (hintact.mono fun _ => List.mem_append_right _))

theorem EmbodiesMembers.intact {slots : List (String × Slot)} {members : List (String × Json)} {ids : List ObjectId}
    (h : w.EmbodiesMembers slots members ids) (hintact : w.Intact (· ∈ ids) w₁) :
    w₁.EmbodiesMembers slots members ids :=
  match h with
  | .nil => .nil
  | .cons hmember hrest => .cons (hmember.intact (hintact.mono fun _ => List.mem_append_left _))
      (hrest.intact (hintact.mono fun _ => List.mem_append_right _))

end

/-! ### Reading a document back -/

mutual

theorem Embodies.made {value : Value} {json : Json} {ids : List ObjectId} (h : w.Embodies value json ids) :
    ∀ id ∈ ids, id.index < w.objects.size :=
  match h with
  | .null => nofun
  | .bool _ => nofun
  | .integer _ _ => nofun
  | .string _ => nofun
  | .array _ hitems => hitems.made
  | .object hmade hmembers => List.forall_mem_cons.mpr ⟨hmade, hmembers.made⟩

theorem EmbodiesItems.made {values : List Value} {items : List Json} {ids : List ObjectId}
    (h : w.EmbodiesItems values items ids) : ∀ id ∈ ids, id.index < w.objects.size :=
  match h with
  | .nil => nofun
  | .cons hitem hrest => List.forall_mem_append.mpr ⟨hitem.made, hrest.made⟩

theorem EmbodiesMembers.made {slots : List (String × Slot)} {members : List (String × Json)} {ids : List ObjectId}
    (h : w.EmbodiesMembers slots members ids) : ∀ id ∈ ids, id.index < w.objects.size :=
  match h with
  | .nil => nofun
  | .cons hmember hrest => List.forall_mem_append.mpr ⟨hmember.made, hrest.made⟩

end

theorem numberJson_of_integer {x : Float} {n : Int} (hvalue : (Decimal.Binary.ofFloat x).integer? = some n)
    (hbound : n.natAbs < 9000000000000000) : numberJson x = .integer n := by
  unfold numberJson
  cases hbinary : Decimal.Binary.ofFloat x with
  | finite negative mantissa exponent =>
    rw [hbinary] at hvalue
    simp only [hvalue, if_pos hbound]
  | _ =>
    rw [hbinary] at hvalue
    cases hvalue

/-- The stored field that a key holds. -/
def pickField : String × Slot → Option (String × Value)
  | (key, .field value _) => some (key, value)
  | _ => none

theorem fields_eq_filterMap (w : World Code Memory) (id : ObjectId) :
    (w.object id).fields = (w.contents id).filterMap pickField := by
  have hpick : ∀ key slot, pickField (key, Slot.plain slot) = pickField (key, slot) := by
    intro key slot
    cases slot <;> rfl
  exact (filterMap_contents hpick w id).symm

mutual

theorem Embodies.jsonWithin_eq {value : Value} {json : Json} {ids : List ObjectId} (h : w.Embodies value json ids)
    {depth : Nat} (hdepth : ids.length ≤ depth) : w.jsonWithin depth value = json :=
  match h with
  | .null => by rw [jsonWithin]
  | .bool b => by rw [jsonWithin]
  | .integer hvalue hbound => by rw [jsonWithin, numberJson_of_integer hvalue hbound]
  | .string s => by rw [jsonWithin]
  | .array _ hitems => by rw [jsonWithin, hitems.itemsWithin_eq hdepth]
  | .object _ hmembers => by
    cases depth with
    | zero => exact absurd hdepth (Nat.not_succ_le_zero _)
    | succ depth => rw [jsonWithin, fields_eq_filterMap, hmembers.membersWithin_eq (Nat.le_of_succ_le_succ hdepth)]

theorem EmbodiesItems.itemsWithin_eq {values : List Value} {items : List Json} {ids : List ObjectId}
    (h : w.EmbodiesItems values items ids) {depth : Nat} (hdepth : ids.length ≤ depth) :
    w.itemsWithin depth values = items :=
  match h with
  | .nil => by rw [itemsWithin]
  | .cons hitem hrest => by
    rw [List.length_append] at hdepth
    rw [itemsWithin, hitem.jsonWithin_eq (by omega), hrest.itemsWithin_eq (by omega)]

theorem EmbodiesMembers.membersWithin_eq {slots : List (String × Slot)} {members : List (String × Json)}
    {ids : List ObjectId} (h : w.EmbodiesMembers slots members ids) {depth : Nat} (hdepth : ids.length ≤ depth) :
    w.membersWithin depth (slots.filterMap pickField) = members :=
  match h with
  | .nil => by rw [List.filterMap_nil, membersWithin]
  | .cons hmember hrest => by
    rw [List.length_append] at hdepth
    simp only [List.filterMap_cons, pickField]
    rw [membersWithin, hmember.jsonWithin_eq (by omega), hrest.membersWithin_eq (by omega)]

end

/-- A document is read back from a value that embodies it in different objects. -/
theorem Embodies.json_eq {value : Value} {json : Json} {ids : List ObjectId} (h : w.Embodies value json ids)
    (hnodup : ids.Nodup) : w.json value = json := by
  have hindices : (ids.map ObjectId.index).Nodup :=
    List.Nodup.map (fun _ _ heq => Key.index_inj.mp heq) hnodup
  have hrange : ids.map ObjectId.index ⊆ List.range w.objects.size := by
    intro i hi
    obtain ⟨id, hid, rfl⟩ := List.mem_map.mp hi
    exact List.mem_range.mpr (h.made id hid)
  apply h.jsonWithin_eq
  simpa using (hindices.subperm hrange).length_le

/-! ### Loading -/

variable {n : Nat}

/-- Objects and arrays have come in. The first so many objects are what they were, and nobody observes any other. -/
structure Loads (n : Nat) (w w' : World Code Memory) : Prop where
  heap : w.objects.size ≤ w'.objects.size
  arrays : w.arrays.size ≤ w'.arrays.size
  sources : w'.sources = w.sources
  viewModels : w'.viewModels = w.viewModels
  kept (id : ObjectId) : id.index < n → w'.object id = w.object id
  unobserved (id : ObjectId) : n ≤ id.index → (w'.object id).Unobserved

theorem loads_self (w : World Code Memory) : Loads w.objects.size w w := by
  refine ⟨Nat.le_refl _, Nat.le_refl _, rfl, rfl, fun _ _ => rfl, fun id hid => ?_⟩
  rw [object, w.objects.get_of_size_le hid]
  exact ⟨rfl, fun hslot => absurd hslot.symm (Option.some_ne_none _)⟩

theorem Loads.again (h : Loads n w w₁) : Loads n w₁ w₁ :=
  ⟨Nat.le_refl _, Nat.le_refl _, rfl, rfl, fun _ _ => rfl, h.unobserved⟩

theorem Loads.intact (h : Loads n w w₁) : Intact (fun id => id.index < n) w w₁ :=
  ⟨⟨h.heap, fun id hid => contents_congr (congrArg Object.slots (h.kept id hid))⟩, h.arrays⟩

theorem Loads.addObject (h : Loads n w w₁) : Loads n w w₁.addObject.2 := by
  have hobjects (id : ObjectId) : w₁.addObject.2.object id = w₁.object id := Table.get_add_default w₁.objects id
  refine ⟨Nat.le_trans h.heap ?_, h.arrays, h.sources, h.viewModels, fun id hid => ?_, fun id hid => ?_⟩
  · change w₁.objects.size ≤ (w₁.objects.add {}).size
    rw [Table.size_add]
    exact Nat.le_succ _
  · rw [hobjects, h.kept id hid]
  · rw [hobjects]
    exact h.unobserved id hid

theorem Loads.addArray (h : Loads n w w₁) (items : List Value) : Loads n w (w₁.addArray items).2 := by
  refine ⟨h.heap, Nat.le_trans h.arrays ?_, h.sources, h.viewModels, h.kept, h.unobserved⟩
  change w₁.arrays.size ≤ (w₁.arrays.add items).size
  rw [Table.size_add]
  exact Nat.le_succ _

/-- Nobody hears of a field that is stored in an object that nobody observes. -/
theorem store_of_unobserved_object {object : ObjectId} (hobject : (w.object object).Unobserved) (key : String)
    (value : Value) : (w.store object key value).2 = w.putSlot object key (.field value none) := by
  have hkept : (handover (w.object object) key value).1 = none := by
    unfold handover
    cases hslot : (w.object object).slot? key with
    | none => rw [hobject.observed]; rfl
    | some slot =>
      cases slot with
      | field old source => exact hobject.sourceless hslot
      | _ => rfl
  have harrive : w.arrive object key = w := by
    rw [arrive, hobject.observed]
    rfl
  unfold store
  simp [harrive, hobject.observed, hkept]

theorem unobserved_put {o : Object} (h : o.Unobserved) (key : String) (value : Value) :
    ({ o with slots := o.slots.put key (.field value none) } : Object).Unobserved := by
  refine ⟨h.observed, fun {name other source} hslot => ?_⟩
  by_cases hname : name = key
  · rw [hname, Object.slot?, Entries.find?_put_self] at hslot
    cases hslot
    rfl
  · rw [Object.slot?, Entries.find?_put_of_ne _ _ hname] at hslot
    exact h.sourceless hslot

theorem Loads.store (h : Loads n w w₁) {object : ObjectId} (hobject : n ≤ object.index) (key : String)
    (value : Value) : Loads n w (w₁.store object key value).2 := by
  rw [store_of_unobserved_object (h.unobserved object hobject)]
  refine ⟨Nat.le_trans h.heap (Table.size_le_modify _ _ _), h.arrays, h.sources, h.viewModels, fun id hid => ?_,
    fun id hid => ?_⟩
  · rw [putSlot, object_mapObject, if_neg, h.kept id hid]
    rintro rfl
    exact Nat.not_lt.mpr hobject hid
  · rw [putSlot, object_mapObject]
    split
    · exact unobserved_put (h.unobserved object hobject) key value
    · exact h.unobserved id hid

theorem loadMembers_cons (w : World Code Memory) (object : ObjectId) (key : String) (json : Json)
    (rest : List (String × Json)) : w.loadMembers object ((key, json) :: rest)
      = ((w.load json).2.store object key (w.load json).1).2.loadMembers object rest := rfl

mutual

theorem Loads.load {w₁ : World Code Memory} (h : Loads n w w₁) (hsize : n ≤ w.objects.size) :
    (json : Json) → Loads n w (w₁.load json).2
  | .null => h
  | .bool _ => h
  | .integer _ => h
  | .real _ => h
  | .string _ => h
  | .array items => (h.loadItems hsize items).addArray _
  | .object members => by
    have hfresh : n ≤ Key.index w₁.objects.fresh := by
      rw [Table.index_fresh]
      exact Nat.le_trans hsize h.heap
    exact h.addObject.loadMembers hsize hfresh members

theorem Loads.loadItems {w₁ : World Code Memory} (h : Loads n w w₁) (hsize : n ≤ w.objects.size) :
    (items : List Json) → Loads n w (w₁.loadItems items).2
  | [] => h
  | item :: rest => (h.load hsize item).loadItems hsize rest

theorem Loads.loadMembers {w₁ : World Code Memory} {object : ObjectId} (h : Loads n w w₁)
    (hsize : n ≤ w.objects.size) (hobject : n ≤ object.index) :
    (members : List (String × Json)) → Loads n w (w₁.loadMembers object members)
  | [] => h
  | (key, json) :: rest => ((h.load hsize json).store hobject key _).loadMembers hsize hobject rest

end

/-- Loading brings in objects that nobody observes, and leaves the others as they are. -/
theorem loads_load (w : World Code Memory) (json : Json) : Loads w.objects.size w (w.load json).2 :=
  (loads_self w).load (Nat.le_refl _) json

/-! ### Embodying what is loaded -/

/-- The objects are different ones, and none of them is among the first so many. -/
structure New (n : Nat) (ids : List ObjectId) : Prop where
  nodup : ids.Nodup
  since : ∀ id ∈ ids, n ≤ id.index

theorem New.mono {m : Nat} {ids : List ObjectId} (h : New m ids) (hle : n ≤ m) : New n ids :=
  ⟨h.nodup, fun id hid => Nat.le_trans hle (h.since id hid)⟩

theorem New.append {m : Nat} {ids others : List ObjectId} (h : New n ids) (hids : ∀ id ∈ ids, id.index < m)
    (h' : New m others) (hle : n ≤ m) : New n (ids ++ others) where
  nodup := List.nodup_append.mpr ⟨h.nodup, h'.nodup, fun id hid other hother heq => by
    have hlt := hids id hid
    have hle := h'.since other hother
    rw [heq] at hlt
    omega⟩
  since := List.forall_mem_append.mpr ⟨h.since, fun id hid => Nat.le_trans hle (h'.since id hid)⟩

theorem New.cons {id : ObjectId} {ids : List ObjectId} (hid : n ≤ id.index) (h : New (id.index + 1) ids) :
    New n (id :: ids) where
  nodup := List.nodup_cons.mpr ⟨fun hmem => Nat.not_succ_le_self _ (h.since id hmem), h.nodup⟩
  since := List.forall_mem_cons.mpr ⟨hid, fun other hother => by
    have hle := h.since other hother
    omega⟩

variable [Inhabited Code]

mutual

theorem embodies_load (w : World Code Memory) : (json : Json) → json.Faithful →
    ∃ ids, (w.load json).2.Embodies (w.load json).1 json ids ∧ New w.objects.size ids
  | .null, _ => ⟨[], .null, .nil, nofun⟩
  | .bool b, _ => ⟨[], .bool b, .nil, nofun⟩
  | .integer n, hfaithful => by
    have hbound : n.natAbs < 9000000000000000 := hfaithful
    exact ⟨[], .integer (Decimal.Binary.integer?_ofInt (by omega)) hbound, .nil, nofun⟩
  | .string s, _ => ⟨[], .string s, .nil, nofun⟩
  | .array items, hfaithful => by
    obtain ⟨ids, hitems, hnew⟩ := embodies_loadItems w items hfaithful
    refine ⟨ids, .array ?_ (hitems.intact ⟨⟨Nat.le_refl _, fun _ _ => rfl⟩, ?_⟩), hnew⟩
    · change Key.index (w.loadItems items).2.arrays.fresh < ((w.loadItems items).2.arrays.add _).size
      rw [Table.index_fresh, Table.size_add]
      exact Nat.lt_succ_self _
    · change (w.loadItems items).2.arrays.size ≤ ((w.loadItems items).2.arrays.add _).size
      rw [Table.size_add]
      exact Nat.le_succ _
  | .object members, hfaithful => by
    have hadded : Loads w.objects.size w w.addObject.2 := (loads_self w).addObject
    have hindex : Key.index w.objects.fresh = w.objects.size := w.objects.index_fresh
    have hsize : w.addObject.2.objects.size = Key.index w.objects.fresh + 1 := by
      rw [hindex]
      exact Table.size_add _ _
    have hcontents : w.addObject.2.contents w.objects.fresh = [] := by
      rw [(steady_addObject w).contents, contents, object, Table.get_fresh]
      rfl
    have hmade : Key.index w.objects.fresh < w.addObject.2.objects.size := by
      omega
    have hfree : ∀ name ∈ members.map Prod.fst, name ∉ (w.addObject.2.object w.objects.fresh).keys := by
      rw [← map_fst_contents, hcontents]
      exact fun _ _ => List.not_mem_nil
    obtain ⟨slots, ids, hslots, hmembers, hnew⟩ :=
      embodies_loadMembers hadded (Nat.le_refl _) (Nat.le_of_eq hindex.symm) hmade members hfaithful.2 hfaithful.1 hfree
    rw [hcontents, List.nil_append] at hslots
    have hheap := (hadded.again.loadMembers (by omega) (Nat.le_of_eq hindex.symm) members).heap
    refine ⟨w.objects.fresh :: ids, .object (Nat.lt_of_lt_of_le hmade hheap) (hslots ▸ hmembers), .cons ?_ ?_⟩
    · exact Nat.le_of_eq hindex.symm
    · exact hsize ▸ hnew

theorem embodies_loadItems (w : World Code Memory) : (items : List Json) → Json.FaithfulItems items →
    ∃ ids, (w.loadItems items).2.EmbodiesItems (w.loadItems items).1 items ids ∧ New w.objects.size ids
  | [], _ => ⟨[], .nil, .nil, nofun⟩
  | item :: rest, hfaithful => by
    obtain ⟨ids, hitem, hnew⟩ := embodies_load w item hfaithful.1
    obtain ⟨others, hrest, hothers⟩ := embodies_loadItems (w.load item).2 rest hfaithful.2
    have hloads := (loads_self (w.load item).2).loadItems (Nat.le_refl _) rest
    have hkept := hitem.intact ⟨untouched_loadItems _ hitem.made rest, hloads.arrays⟩
    exact ⟨ids ++ others, .cons hkept hrest, hnew.append hitem.made hothers (loads_load w item).heap⟩

theorem embodies_loadMembers {n : Nat} {w₁ w : World Code Memory} (h : Loads n w₁ w) (hsize : n ≤ w₁.objects.size)
    {object : ObjectId} (hobject : n ≤ object.index) (hmade : object.index < w.objects.size) :
    (members : List (String × Json)) → Json.FaithfulMembers members → (members.map Prod.fst).Nodup →
    (∀ name ∈ members.map Prod.fst, name ∉ (w.object object).keys) →
    ∃ slots ids, (w.loadMembers object members).contents object = w.contents object ++ slots ∧
      (w.loadMembers object members).EmbodiesMembers slots members ids ∧ New w.objects.size ids
  | [], _, _, _ => ⟨[], [], (List.append_nil _).symm, .nil, .nil, nofun⟩
  | (key, json) :: rest, hfaithful, hnodup, hfree => by
    rw [List.map_cons, List.nodup_cons] at hnodup
    obtain ⟨ids, hmember, hnew⟩ := embodies_load w json hfaithful.1
    have hloads := loads_load w json
    have hloaded := h.load hsize json
    have hstored := stored_store (w.load json).2 object key (w.load json).1
    have hstores := hloaded.store hobject key (w.load json).1
    have hagain := (hloaded.again.store hobject key (w.load json).1).loadMembers (Nat.le_trans hsize hloaded.heap)
      hobject rest
    have hheld : (w.load json).2.contents object = w.contents object := hloads.intact.contents object hmade
    rw [loadMembers_cons]
    generalize (w.load json).1 = value at *
    generalize (w.load json).2 = v at *
    have hcontents : (v.store object key value).2.contents object
        = w.contents object ++ [(key, .field value none)] := by
      have hkey : key ∉ (v.plainly object).keys := by
        change key ∉ (v.contents object).map Prod.fst
        rw [hheld, map_fst_contents]
        exact hfree key List.mem_cons_self
      have hput := congrArg Entries.toList hstored.plainly_self
      rw [Entries.toList_put_of_not_mem _ _ hkey] at hput
      exact hheld ▸ hput
    generalize (v.store object key value).2 = stored at *
    have hfree' : ∀ name ∈ rest.map Prod.fst, name ∉ (stored.object object).keys := by
      intro name hname
      rw [← map_fst_contents, hcontents, List.map_append, List.mem_append, map_fst_contents, not_or]
      refine ⟨hfree name (List.mem_cons_of_mem _ hname), fun hkey => ?_⟩
      exact hnodup.1 (List.mem_singleton.mp hkey ▸ hname)
    have hmade' := Nat.lt_of_lt_of_le hmade hloads.heap
    obtain ⟨slots, others, hslots, hrest, hothers⟩ := embodies_loadMembers hstores hsize hobject
      (Nat.lt_of_lt_of_le hmade' hstored.untouched.heap) rest hfaithful.2 hnodup.2 hfree'
    have huntouched := Untouched.loadMembers hstored.untouched (fun _ hid => hid.1) (fun hself => hself.2 rfl) rest
    have hapart : ∀ id ∈ ids, id.index < v.objects.size ∧ id ≠ object := by
      refine fun id hid => ⟨hmember.made id hid, ?_⟩
      rintro rfl
      exact Nat.not_lt.mpr (hnew.since _ hid) hmade
    have hmember' := hmember.intact (Intact.mono ⟨huntouched, hagain.arrays⟩ hapart)
    refine ⟨(key, .field value none) :: slots, ids ++ others, ?_, .cons hmember' hrest, ?_⟩
    · rw [hslots, hcontents, List.append_assoc]
      rfl
    · exact hnew.append hmember.made (hothers.mono hstored.untouched.heap) hloads.heap

end

omit [Inhabited Code] in
/-- A value that was there is the same as one that is loaded only if both say the same. -/
theorem Embodies.eq_of_same {old : Value} {part new : Json} {ids : List ObjectId} (h : w.Embodies old part ids)
    (hnew : new.Faithful) (hsame : old.same (w.load new).1 = true) : part = new := by
  cases new with
  | real _ => exact hnew.elim
  | integer n =>
    have hbound : n.natAbs < 9000000000000000 := hnew
    cases h with
    | integer hvalue _ =>
      have heq := Decimal.Binary.integer?_eq_of_same hsame
      rw [hvalue, Decimal.Binary.integer?_ofInt (by omega)] at heq
      cases heq
      rfl
    | _ => cases hsame
  | array items =>
    cases h with
    | @array id _ _ _ hmade _ =>
      -- the array that is loaded comes after all that were there
      have hid : id = (w.loadItems items).2.arrays.fresh := beq_iff_eq.mp hsame
      have hfresh : id.index = (w.loadItems items).2.arrays.size := hid ▸ (w.loadItems items).2.arrays.index_fresh
      have harrays := ((loads_self w).loadItems (Nat.le_refl _) items).arrays
      omega
    | _ => cases hsame
  | object members =>
    cases h with
    | @object id _ _ hmade _ =>
      have hid : id = w.objects.fresh := beq_iff_eq.mp hsame
      have hfresh : id.index = w.objects.size := hid ▸ w.objects.index_fresh
      omega
    | _ => cases hsame
  | null =>
    cases h with
    | null => rfl
    | _ => cases hsame
  | bool b =>
    cases h with
    | bool a => exact congrArg Json.bool (beq_iff_eq.mp hsame)
    | _ => cases hsame
  | string s =>
    cases h with
    | string t => exact congrArg Json.string (beq_iff_eq.mp hsame)
    | _ => cases hsame

end World

end ViewBinding
