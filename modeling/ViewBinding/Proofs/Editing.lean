import ViewBinding.Proofs.Loading

/-!
# Documents with one position replaced

Keys lead from the value of a document to the object that holds one of its positions. Once another value is stored
there, and this embodies another document in objects of its own, the first value embodies its document with this
position replaced.
-/

namespace ViewBinding

namespace Json

/-- The document with another one in place of what some keys lead to, if they all are there. -/
def replace : Json → List String → Json → Option Json
  | _, [], new => some new
  | object members, key :: rest, new =>
    (members.lookup key).bind fun part => (part.replace rest new).map fun part =>
      object (Entries.putPair key part members)
  | _, _ :: _, _ => none

/-- The names of the members of an object. -/
def keys : Json → List String
  | object members => members.map Prod.fst
  | _ => []

theorem replace_cons_iff {json new json' : Json} {key : String} {rest : List String} :
    json.replace (key :: rest) new = some json' ↔
      ∃ members part part', json = object members ∧ members.lookup key = some part ∧
        part.replace rest new = some part' ∧ json' = object (Entries.putPair key part' members) := by
  cases json with
  | object members =>
    simp only [replace, Option.bind_eq_some_iff, Option.map_eq_some_iff]
    constructor
    · rintro ⟨part, hpart, part', hpart', rfl⟩
      exact ⟨members, part, part', rfl, hpart, hpart', rfl⟩
    · rintro ⟨_, part, part', heq, hpart, hpart', rfl⟩
      cases heq
      exact ⟨part, hpart, part', hpart', rfl⟩
  | _ => simp [replace]

theorem mem_keys_of_lookup {members : List (String × Json)} {key : String} {part : Json}
    (h : members.lookup key = some part) : key ∈ members.map Prod.fst := by
  induction members with
  | nil => cases h
  | cons member rest inductionHypothesis =>
    obtain ⟨name, value⟩ := member
    rw [List.lookup_cons] at h
    rw [List.map_cons, List.mem_cons]
    split at h
    · next heq => exact .inl (beq_iff_eq.mp heq)
    · exact .inr (inductionHypothesis h)

/-- Replacing what is below the document leaves its own keys as they are. -/
theorem keys_of_replace {json new json' : Json} {key : String} {rest : List String}
    (h : json.replace (key :: rest) new = some json') : key ∈ json.keys ∧ json'.keys = json.keys := by
  obtain ⟨members, part, part', rfl, hlookup, -, rfl⟩ := replace_cons_iff.mp h
  have hmem := mem_keys_of_lookup hlookup
  refine ⟨hmem, ?_⟩
  simp only [keys]
  rw [Entries.keys_putPair, if_pos hmem]

end Json

namespace World

variable {Code Memory : Type} {w : World Code Memory}

/-! ### The holder of a key -/

section Holding

variable {id : ObjectId} {key : String} {value : Value} {source : Option SourceId}

/-- A stored field is found among the slots of its object. -/
theorem field_of_contents
    (h : (w.contents id).find? (·.1 = key) = some (key, .field value none)) :
    ∃ source, (w.object id).slot? key = some (.field value source) := by
  have hplain := find?_plainly w id key
  simp only [Entries.find?, plainly, h, Option.map_some] at hplain
  obtain ⟨slot, hslot, hfield⟩ := Option.map_eq_some_iff.mp hplain.symm
  cases slot with
  | field stored source =>
    cases hfield
    exact ⟨source, hslot⟩
  | _ => cases hfield

theorem resolve_of_field (h : (w.object id).slot? key = some (.field value source)) :
    w.resolve id key = (id, key) := by
  apply follow_of_not_proxy
  intro target name hproxy
  rw [h] at hproxy
  cases hproxy

theorem stored?_of_field (h : (w.object id).slot? key = some (.field value source)) :
    Slot.stored? (w.slotAt id key) = some value := by
  rw [slotAt, resolve_of_field h, h]
  rfl

end Holding

/-! ### Parts of a document -/

/-- A member of an object stands for a part of the document, and whatever takes its place, the rest stays. -/
theorem EmbodiesMembers.focus {key : String} {part : Json} {slots : List (String × Slot)}
    {members : List (String × Json)} {ids : List ObjectId} (h : w.EmbodiesMembers slots members ids)
    (hlookup : members.lookup key = some part) : ∃ value before below after, ids = before ++ below ++ after ∧
      slots.find? (·.1 = key) = some (key, .field value none) ∧ w.Embodies value part below ∧
      ∀ {w' : World Code Memory} {value' : Value} {part' : Json} {below' : List ObjectId},
        w.Intact (fun id => id ∈ before ∨ id ∈ after) w' → w'.Embodies value' part' below' →
          w'.EmbodiesMembers (Entries.putPair key (.field value' none) slots) (Entries.putPair key part' members)
            (before ++ below' ++ after) := by
  induction members generalizing slots ids with
  | nil => cases hlookup
  | cons member rest inductionHypothesis =>
    cases h with
    | @cons name value json slots _ ids others hmember hrest =>
      by_cases hname : name = key
      · subst hname
        rw [List.lookup_cons_self] at hlookup
        cases hlookup
        refine ⟨value, [], ids, others, rfl, by simp, hmember, fun {w' value' part' below'} hintact hpart' => ?_⟩
        simp only [Entries.putPair, if_true, List.nil_append]
        exact .cons hpart' (hrest.intact (hintact.mono fun _ => .inr))
      · have hlookup' : rest.lookup key = some part := by
          rwa [List.lookup_cons, beq_eq_false_iff_ne.mpr (Ne.symm hname)] at hlookup
        obtain ⟨found, before, below, after, rfl, hfind, hpart, hput⟩ := inductionHypothesis hrest hlookup'
        refine ⟨found, ids ++ before, below, after, ?_, ?_, hpart, fun {w' value' part' below'} hintact hpart' => ?_⟩
        · simp only [List.append_assoc]
        · simpa [hname] using hfind
        · have hmember' := hmember.intact (hintact.mono fun _ hid => .inl (List.mem_append_left _ hid))
          have hintact' : w.Intact (fun id => id ∈ before ∨ id ∈ after) w' :=
            hintact.mono fun _ hid => hid.imp_left (List.mem_append_right _)
          simp only [Entries.putPair, hname, if_false, List.append_assoc]
          rw [← List.append_assoc before]
          exact .cons hmember' (hput hintact' hpart')

/-- Keys lead from a value to an object that holds a field under the last of them. Whatever is stored there instead,
the value embodies a document in which it is in place of what was there. -/
structure Leads (w : World Code Memory) (value : Value) (parents : List String) (last : String) (new json' : Json)
    (holder : ObjectId) (old : Value) (before below after : List ObjectId) : Prop where
  passage : ∃ visited, w.passage value parents = some (visited, .object holder) ∧
    ∀ visit ∈ visited, visit.1 ≠ holder
  holds : holder ∈ before
  field : ∃ source, (w.object holder).slot? last = some (.field old source)
  part : ∃ part, w.Embodies old part below
  replaced {w' : World Code Memory} {stored : Value} {below' : List ObjectId} :
    w.Stored holder last stored w' → w.arrays.size ≤ w'.arrays.size → w'.Embodies stored new below' →
      w'.Embodies value json' (before ++ below' ++ after)

variable {value : Value} {json json' new : Json} {ids : List ObjectId} {parents : List String} {last : String}

/-- Different objects can be told by where they stand. -/
theorem apart_of_nodup {before below after : List ObjectId} (h : (before ++ below ++ after).Nodup) :
    below.Nodup ∧ ∀ id ∈ below, id ∉ before ∧ id ∉ after := by
  rw [List.nodup_append, List.nodup_append] at h
  obtain ⟨⟨-, hbelow, hbefore⟩, -, hafter⟩ := h
  refine ⟨hbelow, fun id hid => ⟨fun hmem => hbefore id hmem id hid rfl, fun hmem => ?_⟩⟩
  exact hafter id (List.mem_append_right _ hid) id hmem rfl

/-- Storing a field in one object leaves the other objects of a document alone. -/
theorem Stored.around {holder : ObjectId} {stored : Value} {w' : World Code Memory}
    {before below after : List ObjectId} (h : w.Stored holder last stored w')
    (harrays : w.arrays.size ≤ w'.arrays.size)
    (hmade : ∀ id ∈ before ++ below ++ after, id.index < w.objects.size)
    (hholder : holder ∉ before ∧ holder ∉ after) : w.Intact (fun id => id ∈ before ∨ id ∈ after) w' := by
  refine ⟨h.untouched.mono fun id hid => ⟨hmade id ?_, ?_⟩, harrays⟩
  · simp only [List.mem_append]
    tauto
  · rintro rfl
    exact hid.elim hholder.1 hholder.2

/-- Storing a field is all that has happened if the objects that were there were not touched before. -/
theorem Stored.since {holder : ObjectId} {stored : Value} {w₁ w' : World Code Memory}
    (h : w₁.Stored holder last stored w') (hpresent : holder.index < w.objects.size)
    (h' : w.Untouched (fun id => id.index < w.objects.size) w₁) : w.Stored holder last stored w' where
  untouched := (h'.mono fun _ hid => hid.1).trans
    (h.untouched.mono fun _ hid => ⟨Nat.lt_of_lt_of_le hid.1 h'.heap, hid.2⟩)
  contents := by rw [h.contents, h'.contents holder hpresent]

/-- If a position of a document can be replaced, then its keys lead to it. -/
theorem Embodies.leads (h : w.Embodies value json ids) (hnodup : ids.Nodup)
    (hreplace : json.replace (parents ++ [last]) new = some json') : ∃ holder old before below after,
      ids = before ++ below ++ after ∧ w.Leads value parents last new json' holder old before below after := by
  induction parents generalizing value json json' ids with
  | nil =>
    obtain ⟨members, part, part', rfl, hlookup, hnew, rfl⟩ := Json.replace_cons_iff.mp hreplace
    rw [Json.replace, Option.some_inj] at hnew
    subst hnew
    cases h with
    | @object id _ ids hmade hmembers =>
      obtain ⟨old, before, below, after, rfl, hfind, hpart, hput⟩ := hmembers.focus hlookup
      simp only [List.nodup_cons, List.mem_append, not_or] at hnodup
      refine ⟨id, old, id :: before, below, after, rfl, ⟨⟨[], rfl, nofun⟩, List.mem_cons_self,
        field_of_contents hfind, ⟨part, hpart⟩, fun {w' stored below'} hstored harrays hnew => ?_⟩⟩
      have hintact := hstored.around harrays hmembers.made ⟨hnodup.1.1.1, hnodup.1.2⟩
      refine .object (Nat.lt_of_lt_of_le hmade hstored.untouched.heap) ?_
      rw [hstored.contents]
      exact hput hintact hnew
  | cons parent rest inductionHypothesis =>
    obtain ⟨members, part, part', rfl, hlookup, hpart', rfl⟩ := Json.replace_cons_iff.mp hreplace
    cases h with
    | @object id _ ids hmade hmembers =>
      obtain ⟨next, before, below, after, rfl, hfind, hpart, hput⟩ := hmembers.focus hlookup
      rw [List.nodup_cons] at hnodup
      obtain ⟨hbelow, hapart⟩ := apart_of_nodup hnodup.2
      obtain ⟨holder, old, before', below', after', rfl, hleads⟩ := inductionHypothesis hpart hbelow hpart'
      have hholder : holder ∈ before' ++ below' ++ after' :=
        List.mem_append_left _ (List.mem_append_left _ hleads.holds)
      have hne : id ≠ holder := by
        rintro rfl
        exact hnodup.1 (List.mem_append_left _ (List.mem_append_right _ hholder))
      obtain ⟨visited, hpassage, hvisited⟩ := hleads.passage
      obtain ⟨source, hfield⟩ := field_of_contents hfind
      refine ⟨holder, old, id :: (before ++ before'), below', after' ++ after, by simp,
        ⟨⟨w.resolve id parent :: visited, ?_, ?_⟩, ?_, hleads.field, hleads.part,
          fun {w' stored below''} hstored harrays hnew => ?_⟩⟩
      · exact passage_object.mpr ⟨next, visited, stored?_of_field hfield, hpassage, rfl⟩
      · rw [resolve_of_field hfield]
        exact List.forall_mem_cons.mpr ⟨hne, hvisited⟩
      · exact List.mem_cons_of_mem _ (List.mem_append_right _ hleads.holds)
      · have hintact := hstored.around harrays hmembers.made (hapart holder hholder)
        have hmembers' := hput hintact (hleads.replaced hstored harrays hnew)
        -- the object holds the same value as before, but this embodies another document now
        rw [Entries.putPair_of_find? (by rw [hfind]; rfl), ← hstored.untouched.contents id ⟨hmade, hne⟩] at hmembers'
        simpa using Embodies.object (Nat.lt_of_lt_of_le hmade hstored.untouched.heap) hmembers'

theorem Embodies.field_of_replace {id : ObjectId} {first : String} {rest : List String}
    (h : w.Embodies (.object id) json ids) (hreplace : json.replace (first :: rest) new = some json') :
    ∃ value source, (w.object id).slot? first = some (.field value source) := by
  obtain ⟨members, part, part', rfl, hlookup, -, -⟩ := Json.replace_cons_iff.mp hreplace
  cases h with
  | object hmade hmembers =>
    obtain ⟨value, _, _, _, -, hfind, -, -⟩ := hmembers.focus hlookup
    exact ⟨value, field_of_contents hfind⟩

theorem EmbodiesMembers.keys {slots : List (String × Slot)} {members : List (String × Json)}
    (h : w.EmbodiesMembers slots members ids) : slots.map Prod.fst = members.map Prod.fst := by
  induction members generalizing slots ids with
  | nil =>
    cases h
    rfl
  | cons member rest inductionHypothesis =>
    cases h with
    | cons hmember hrest => rw [List.map_cons, List.map_cons, inductionHypothesis hrest]

/-- An object has the keys of the document that it embodies. -/
theorem Embodies.keys {id : ObjectId} (h : w.Embodies (.object id) json ids) : (w.object id).keys = json.keys := by
  cases h with
  | object hmade hmembers =>
    rw [← map_fst_contents]
    exact hmembers.keys

end World

end ViewBinding
