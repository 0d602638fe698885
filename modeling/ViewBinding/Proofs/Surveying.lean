import ViewBinding.Proofs.Furnishing
import ViewBinding.Proofs.Replacing

/-!
# What observing reaches

Observing follows stored fields from object to object and stops at those it has been at. What bounds it is
the list of these alone, so data may be shared and cyclic in any way. The main statement says that the walk
ends, that it comes to every object that fields lead to exactly once and to no other, and what it leaves behind.
-/

namespace ViewBinding

namespace World

variable {Code Memory : Type} [Inhabited Code]

/-- An object that a value is, or that a stored field holds of an object that the value leads to. -/
inductive Reaches (w : World Code Memory) (value : Value) : ObjectId → Prop
  | self {id : ObjectId} (h : value = .object id) : Reaches w value id
  | field {id child : ObjectId} {key : String} (h : Reaches w value id)
      (hfield : (key, .object child) ∈ (w.object id).fields) : Reaches w value child

/--
A walk over values that has been at the objects of `seen` already and ends. An object that is new is instrumented,
and the values of its fields are walked over before those that come next; whatever else there is, is passed over.
-/
inductive Surveys : World Code Memory → (seen : List ObjectId) → List Value →
    World Code Memory → List ObjectId → Prop
  | done {w : World Code Memory} {seen : List ObjectId} : Surveys w seen [] w seen
  | plain {w w' : World Code Memory} {seen seen' : List ObjectId} {value : Value} {rest : List Value}
      (hvalue : value.object? = none) (hrest : Surveys w seen rest w' seen') :
      Surveys w seen (value :: rest) w' seen'
  | again {w w' : World Code Memory} {seen seen' : List ObjectId} {id : ObjectId} {rest : List Value}
      (hseen : id ∈ seen) (hrest : Surveys w seen rest w' seen') :
      Surveys w seen (.object id :: rest) w' seen'
  | first {w w₁ w' : World Code Memory} {seen seen₁ seen' : List ObjectId} {id : ObjectId} {rest : List Value}
      (hnew : id ∉ seen)
      (hfields : Surveys (w.instrument id) (seen ++ [id]) (((w.instrument id).object id).fields.map Prod.snd) w₁ seen₁)
      (hrest : Surveys w₁ seen₁ rest w' seen') :
      Surveys w seen (.object id :: rest) w' seen'

variable {w w₁ w₂ : World Code Memory} {seen seen₁ seen₂ l : List ObjectId} {values : List Value} {value : Value}
  {id object : ObjectId} {key : String}

/-! ### Where a walk ends -/

omit [Inhabited Code] in
/-- A walk ends in one way only. -/
theorem Surveys.unique (h₁ : Surveys w seen values w₁ seen₁) (h₂ : Surveys w seen values w₂ seen₂) :
    w₁ = w₂ ∧ seen₁ = seen₂ := by
  induction h₁ generalizing w₂ seen₂ with
  | done =>
    cases h₂
    exact ⟨rfl, rfl⟩
  | plain hvalue _ inductionHypothesis =>
    cases h₂ with
    | plain _ hrest => exact inductionHypothesis hrest
    | again _ _ => cases hvalue
    | first _ _ _ => cases hvalue
  | again hseen _ inductionHypothesis =>
    cases h₂ with
    | plain hvalue _ => cases hvalue
    | again _ hrest => exact inductionHypothesis hrest
    | first hnew _ _ => exact absurd hseen hnew
  | first hnew _ _ fieldsHypothesis restHypothesis =>
    cases h₂ with
    | plain hvalue _ => cases hvalue
    | again hseen _ => exact absurd hseen hnew
    | first _ hfields hrest =>
      obtain ⟨rfl, rfl⟩ := fieldsHypothesis hfields
      exact restHypothesis hrest

omit [Inhabited Code] in
theorem filterMap_contents {α : Type} {pick : String × Slot → Option α}
    (hpick : ∀ key slot, pick (key, slot.plain) = pick (key, slot)) (w : World Code Memory) (id : ObjectId) :
    (w.contents id).filterMap pick = (w.object id).slots.toList.filterMap pick := by
  rw [contents, List.filterMap_map]
  congr 1
  funext pair
  exact hpick pair.1 pair.2

omit [Inhabited Code] in
/-- The fields of an object are part of what it holds. -/
theorem fields_congr (h : w₁.contents id = w₂.contents id) : (w₁.object id).fields = (w₂.object id).fields := by
  rw [Object.fields, Object.fields, ← filterMap_contents _ w₁, ← filterMap_contents _ w₂, h]
  all_goals
    intro key slot
    cases slot <;> rfl

theorem fields_instrument (w : World Code Memory) (object id : ObjectId) :
    ((w.instrument object).object id).fields = (w.object id).fields :=
  fields_congr (contents_instrument w object id)

theorem fields_instrumentAll (w : World Code Memory) (l : List ObjectId) (id : ObjectId) :
    ((l.foldl instrument w).object id).fields = (w.object id).fields :=
  fields_congr (contents_instrumentAll w l id)

omit [Inhabited Code] in
theorem children_eq (o : Object) : o.children = (o.fields.map Prod.snd).filterMap Value.object? := by
  rw [Object.children, List.filterMap_map]
  rfl

omit [Inhabited Code] in
theorem fields_of_not_mem_keys (h : id ∉ w.objects.keys) : (w.object id).fields = [] := by
  have hdefault : w.object id = default := by
    apply Table.get_of_size_le
    apply Nat.le_of_not_lt
    intro hlt
    apply h
    simp only [Table.keys, List.mem_map, List.mem_range]
    exact ⟨_, hlt, Key.ofIndex_index id⟩
  rw [hdefault]
  rfl

/-- What has been visited after an object was visited down to a depth. -/
abbrev visitFrom (w : World Code Memory) (depth : Nat) (seen : List ObjectId) (id : ObjectId) : List ObjectId :=
  visit (fun id => (w.object id).children) depth seen id

/-- What has been visited after the objects of values were visited down to a depth. -/
abbrev visitAll (w : World Code Memory) (depth : Nat) (seen : List ObjectId) (values : List Value) : List ObjectId :=
  (values.filterMap Value.object?).foldl (w.visitFrom depth) seen

/-- A walk over values visits their objects, if it does so from every object that it has not been at. -/
theorem surveys_visitAll {depth : Nat} (hroom : w.objects.keys.countP (· ∉ seen) ≤ depth)
    (hfirst : ∀ seen id, w.objects.keys.countP (· ∉ seen) ≤ depth → id ∉ seen →
      Surveys ((seen ++ [id]).foldl instrument w) (seen ++ [id]) ((w.object id).fields.map Prod.snd)
        ((w.visitFrom depth seen id).foldl instrument w) (w.visitFrom depth seen id)) :
    Surveys (seen.foldl instrument w) seen values ((w.visitAll depth seen values).foldl instrument w)
      (w.visitAll depth seen values) := by
  induction values generalizing seen with
  | nil => exact .done
  | cons value rest inductionHypothesis =>
    cases hvalue : value.object? with
    | none =>
      rw [visitAll, List.filterMap_cons_none hvalue]
      exact .plain hvalue (inductionHypothesis hroom)
    | some id =>
      obtain rfl := Value.eq_object_of_object? hvalue
      rw [visitAll, List.filterMap_cons_some hvalue, List.foldl_cons]
      have hroom₁ : w.objects.keys.countP (· ∉ w.visitFrom depth seen id) ≤ depth :=
        Nat.le_trans (countP_visit_le seen id) hroom
      have hrest := inductionHypothesis hroom₁
      by_cases hseen : id ∈ seen
      · have hvisit : w.visitFrom depth seen id = seen := by
          cases depth <;> simp [visit, hseen]
        rw [hvisit] at hrest ⊢
        exact .again hseen hrest
      · apply Surveys.first hseen _ hrest
        rw [fields_instrument, fields_instrumentAll]
        simpa using hfirst seen id hroom hseen

/-- The depth that is left suffices if it is not less than the number of objects not visited yet, since every
visit from an object with fields takes one of these away. -/
theorem surveys_visitFrom {depth : Nat} (hroom : w.objects.keys.countP (· ∉ seen) ≤ depth) (hnew : id ∉ seen) :
    Surveys ((seen ++ [id]).foldl instrument w) (seen ++ [id]) ((w.object id).fields.map Prod.snd)
      ((w.visitFrom depth seen id).foldl instrument w) (w.visitFrom depth seen id) := by
  induction depth generalizing seen id with
  | zero =>
    have hkeys : id ∉ w.objects.keys := by
      intro hmem
      have hlt := countP_append_lt hmem hnew
      omega
    rw [visitFrom, visit, if_neg hnew, fields_of_not_mem_keys hkeys]
    exact .done
  | succ depth inductionHypothesis =>
    rw [visitFrom, visit, if_neg hnew, children_eq]
    by_cases hkeys : id ∈ w.objects.keys
    · have hlt := countP_append_lt hkeys hnew
      exact surveys_visitAll (by omega) fun seen id => inductionHypothesis
    · rw [fields_of_not_mem_keys hkeys]
      exact .done

/-- The walk over a value ends where observing it ends. -/
theorem surveys_observe (w : World Code Memory) (value : Value) :
    Surveys w [] [value] (w.observe value) (w.reachable value) := by
  have hsurvey : Surveys ([].foldl instrument w) [] [value] _ (w.visitAll w.objects.keys.length [] [value]) :=
    surveys_visitAll List.countP_le_length fun seen id => surveys_visitFrom
  have htodo : [value].filterMap Value.object? = value.object?.toList := by
    cases h : value.object? <;> simp [h]
  rw [visitAll, htodo] at hsurvey
  exact hsurvey

/-! ### What a walk comes to -/

omit [Inhabited Code] in
theorem mem_reachable_iff (w : World Code Memory) (value : Value) (id : ObjectId) :
    id ∈ w.reachable value ↔ w.Reaches value id := by
  have hchildren : ∀ id child, child ∈ (w.object id).children ↔
      ∃ key, (key, .object child) ∈ (w.object id).fields := by
    intro id child
    simp only [Object.children, List.mem_filterMap]
    constructor
    · rintro ⟨⟨key, held⟩, hmem, hheld⟩
      obtain rfl := Value.eq_object_of_object? hheld
      exact ⟨key, hmem⟩
    · rintro ⟨key, hmem⟩
      exact ⟨_, hmem, rfl⟩
  constructor
  · apply forall_mem_explore
    · intro id hid child hchild
      obtain ⟨key, hfield⟩ := (hchildren id child).mp hchild
      exact .field hid hfield
    · exact fun id hid => .self (Value.eq_object_of_object? (Option.mem_toList.mp hid))
  · intro hreaches
    induction hreaches with
    | self h =>
      subst h
      exact mem_explore_of_mem (List.mem_singleton_self _)
    | field _ hfield inductionHypothesis =>
      apply mem_explore_of_next _ inductionHypothesis ((hchildren _ _).mpr ⟨_, hfield⟩)
      intro id hid
      rw [children_eq, fields_of_not_mem_keys hid]
      rfl

/-! ### What a walk leaves behind -/

omit [Inhabited Code] in
theorem object_instrument_of_ne (w : World Code Memory) (h : id ≠ object) :
    (w.instrument object).object id = w.object id := by
  obtain ⟨hsources, -⟩ := thread_equip_sources w (w.object object).slots.toList
  apply (object_mapObject _ _ _ _).trans
  rw [if_neg h]
  rw [hsources]
  rfl

/-- A field that has a source keeps it. -/
theorem slot?_instrument_of_source (w : World Code Memory) (object : ObjectId) {source : SourceId}
    (hslot : (w.object id).slot? key = some (.field value (some source))) :
    ((w.instrument object).object id).slot? key = some (.field value (some source)) := by
  by_cases h : id = object
  · subst h
    have hequipped := (instruments w id).equipped key
    rw [hslot] at hequipped
    revert hequipped
    generalize ((w.instrument id).object id).slot? key = slot?
    rintro (hequipped | _)
    cases hequipped
    rfl
  · rw [object_instrument_of_ne w h, hslot]

theorem isSome_of_slot?_instrument {source : Option SourceId}
    (hslot : ((w.instrument id).object id).slot? key = some (.field value source)) : source.isSome := by
  rcases (instruments w id).slot? hslot with ⟨-, hsame⟩ | ⟨-, _, _, -, heq, -⟩
  · cases source with
    | none => exact absurd rfl (hsame rfl value)
    | some _ => rfl
  · cases heq
    rfl

omit [Inhabited Code] in
theorem object_instrumentAll_of_not_mem (h : id ∉ l) : (l.foldl instrument w).object id = w.object id := by
  induction l generalizing w with
  | nil => rfl
  | cons object rest inductionHypothesis =>
    rw [List.mem_cons, not_or] at h
    rw [List.foldl_cons, inductionHypothesis h.2, object_instrument_of_ne w h.1]

theorem slot?_instrumentAll_of_source (l : List ObjectId) {source : SourceId}
    (hslot : (w.object id).slot? key = some (.field value (some source))) :
    ((l.foldl instrument w).object id).slot? key = some (.field value (some source)) := by
  induction l generalizing w with
  | nil => exact hslot
  | cons object rest inductionHypothesis => exact inductionHypothesis (slot?_instrument_of_source w object hslot)

theorem observed_instrumentAll : ((l.foldl instrument w).object id).observed = true ↔
    (w.object id).observed = true ∨ id ∈ l := by
  induction l generalizing w with
  | nil => simp
  | cons object rest inductionHypothesis =>
    rw [List.foldl_cons, inductionHypothesis, (instruments w object).observed, or_assoc, List.mem_cons]

/-- Every field of an object that was instrumented has a source. -/
theorem isSome_of_slot?_instrumentAll (hid : id ∈ l) {source : Option SourceId}
    (hslot : ((l.foldl instrument w).object id).slot? key = some (.field value source)) : source.isSome := by
  induction l generalizing w with
  | nil => cases hid
  | cons object rest inductionHypothesis =>
    by_cases hrest : id ∈ rest
    · exact inductionHypothesis hrest hslot
    · obtain rfl := (List.mem_cons.mp hid).resolve_right hrest
      rw [List.foldl_cons, object_instrumentAll_of_not_mem hrest] at hslot
      exact isSome_of_slot?_instrument hslot

theorem reaches_observe (w : World Code Memory) (value : Value) :
    (w.observe value).Reaches value id ↔ w.Reaches value id := by
  have hfields : ∀ id, ((w.observe value).object id).fields = (w.object id).fields :=
    fields_instrumentAll w (w.reachable value)
  constructor
  · intro hreaches
    induction hreaches with
    | self h => exact .self h
    | field _ hfield inductionHypothesis => exact .field inductionHypothesis (hfields _ ▸ hfield)
  · intro hreaches
    induction hreaches with
    | self h => exact .self h
    | field _ hfield inductionHypothesis => exact .field inductionHypothesis ((hfields _).symm ▸ hfield)

/--
What observing a value comes to. `walk` says that the walk over the value ends, having instrumented the objects of
`seen` in turn, and that it ends nowhere else; the others say which objects these are and what they are like then.
-/
structure Observation (w : World Code Memory) (value : Value) (seen : List ObjectId) (w' : World Code Memory) :
    Prop where
  walk : ∀ w₁ seen₁, w.Surveys [] [value] w₁ seen₁ ↔ w₁ = w' ∧ seen₁ = seen
  once : seen.Nodup
  exact : ∀ id, id ∈ seen ↔ w.Reaches value id
  others : ∀ id, ¬ w.Reaches value id → w'.object id = w.object id
  observed : ∀ id, w.Reaches value id → (w'.object id).observed = true
  sourced : ∀ id key held source, w.Reaches value id →
    (w'.object id).slot? key = some (.field held source) → source.isSome
  kept : ∀ id key held source, (w.object id).slot? key = some (.field held (some source)) →
    (w'.object id).slot? key = some (.field held (some source))
  contents : ∀ id, w'.contents id = w.contents id
  again : w'.observe value = w'

/--
Observing reaches exactly the objects that stored fields lead to. Whatever the objects hold and share, the walk
ends, instruments each of these once and no other, and gives all their fields sources; a field that had one keeps
it, nothing that an object holds changes, and observing the value again changes nothing at all.
-/
theorem observe_reaches_exactly (w : World Code Memory) (value : Value) :
    w.Observation value (w.reachable value) (w.observe value) := by
  have hmem := mem_reachable_iff w value
  constructor
  case walk =>
    intro w₁ seen₁
    constructor
    · exact fun hsurvey => hsurvey.unique (surveys_observe w value)
    · rintro ⟨rfl, rfl⟩
      exact surveys_observe w value
  case once => exact nodup_explore _ _ _
  case exact => exact hmem
  case others => exact fun id h => object_instrumentAll_of_not_mem (mt (hmem id).mp h)
  case observed => exact fun id h => observed_instrumentAll.mpr (Or.inr ((hmem id).mpr h))
  case sourced => exact fun id key held source h => isSome_of_slot?_instrumentAll ((hmem id).mpr h)
  case kept => exact fun id key held source => slot?_instrumentAll_of_source (w.reachable value)
  case contents => exact contents_observe w value
  case again =>
    have hreached : ∀ id ∈ (w.observe value).reachable value, id ∈ w.reachable value := by
      intro id hid
      rw [hmem, ← reaches_observe, ← mem_reachable_iff]
      exact hid
    rw [observe]
    apply List.foldlRecOn (motive := (· = w.observe value)) _ instrument rfl
    rintro _ rfl id hid
    apply instrument_of_observed
    · exact observed_instrumentAll.mpr (Or.inr (hreached id hid))
    · exact fun key held source => isSome_of_slot?_instrumentAll (hreached id hid)

end World

end ViewBinding
