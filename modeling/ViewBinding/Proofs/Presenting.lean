import ViewBinding.Proofs.Calming

/-!
# View models that present a document

A view model presents a document if its data embodies it, its root names the keys of the data, and nobody is registered
with the data. Making a view model of a document that was loaded makes it present this document. A write to a path of
keys that are there replaces a position, and what is presented then is the document with this position replaced. So a
view model shows the document that it was made of with all that was written since.
-/

namespace ViewBinding

variable {Code Memory : Type}

namespace World

/-- The data of a view model embodies a document, and nobody is registered with it. The root names the keys of the data,
save one that has another meaning there. -/
structure Presents (w : World Code Memory) (owner : ViewModelId) (json : Json) : Prop where
  embodied : ∃ ids, w.Embodies (.object (w.viewModel owner).data) json ids ∧ ids.Nodup ∧ ∀ id ∈ ids, w.Unheard id
  named (key : String) : key ∈ json.keys → key ≠ "$data" →
    (w.object (w.viewModel owner).root).slot? key = some (.proxy (w.viewModel owner).data key)

variable {w v w' : World Code Memory} {owner : ViewModelId} {json json' new : Json} {value : Value}

theorem Presents.snapshot_eq (h : w.Presents owner json) : w.snapshot owner = json := by
  obtain ⟨ids, hembodied, hnodup, -⟩ := h.embodied
  exact hembodied.json_eq hnodup

/-- What is kept alive is no part of what is presented. -/
theorem Presents.keep (h : w.Presents owner json) (held : List Ref) :
    ({ w with held } : World Code Memory).Presents owner json := by
  obtain ⟨ids, hembodied, hnodup, hunheard⟩ := h.embodied
  have hintact : w.Intact (· ∈ ids) { w with held } := ⟨⟨Nat.le_refl _, fun _ _ => rfl⟩, Nat.le_refl _⟩
  exact ⟨⟨ids, hembodied.intact hintact, hnodup, hunheard⟩, h.named⟩

/-! ### A value that takes the place of another -/

/-- A value embodies a document by means of objects that came in later, and is the same as one that was there before
only if both say the same. -/
structure Fresh (w : World Code Memory) (new : Json) (v : World Code Memory) (value : Value) : Prop where
  calm : Calm (fun id => id.index < w.objects.size) w v
  embodied : ∃ ids, v.Embodies value new ids ∧ New w.objects.size ids ∧ ∀ id ∈ ids, v.Unheard id
  eq_of_same {old : Value} {part : Json} {ids : List ObjectId} :
    w.Embodies old part ids → old.same value = true → part = new

theorem fresh_load [Inhabited Code] (w : World Code Memory) (hnew : new.Faithful) :
    Fresh w new (w.load new).2 (w.load new).1 where
  calm := calm_load w new
  embodied := by
    obtain ⟨ids, hembodied, hids⟩ := embodies_load w new hnew
    exact ⟨ids, hembodied, hids, fun id hid =>
      unheard_of_unobserved ((loads_load w new).unobserved id (hids.since id hid))⟩
  eq_of_same hold := hold.eq_of_same hnew

section Replacing

variable {holder : ObjectId} {name : String} {old : Value} {part : Json} {before below after : List ObjectId}

/-- Later objects are different from those that they stand between. -/
theorem New.nodup_between {n : Nat} {ids : List ObjectId} (h : New n ids) (hnodup : (before ++ below ++ after).Nodup)
    (hmade : ∀ id ∈ before ++ below ++ after, id.index < n) : (before ++ ids ++ after).Nodup := by
  have hapart : ∀ id ∈ ids, id ∉ before ∧ id ∉ after := by
    intro id hid
    have hlate := h.since id hid
    constructor
    · intro hbefore
      have hearly := hmade id (List.mem_append_left _ (List.mem_append_left _ hbefore))
      omega
    · intro hafter
      have hearly := hmade id (List.mem_append_right _ hafter)
      omega
  simp only [List.nodup_append, List.mem_append] at hnodup ⊢
  obtain ⟨⟨hbefore, -, -⟩, hafter, hdisjoint⟩ := hnodup
  refine ⟨⟨hbefore, h.nodup, ?_⟩, hafter, ?_⟩
  · rintro id hid _ hother rfl
    exact (hapart id hother).1 hid
  · rintro id (hid | hid) other hother rfl
    · exact hdisjoint id (.inl hid) id hother rfl
    · exact (hapart id hid).2 hother

/-- Whether the new value was stored or the old one was the same, the field holds the new part of the document, in
objects that nobody is registered with. -/
theorem Fresh.stored (h : Fresh w new v value) (hover : v.Overwrites old value holder name w')
    (hpart : w.Embodies old part below) (hmade : ∀ id ∈ before ++ below ++ after, id.index < w.objects.size)
    (hnodup : (before ++ below ++ after).Nodup) (hholder : holder ∈ before)
    (hunheard : ∀ id ∈ before ++ below ++ after, w.Unheard id) :
    ∃ stored below', w.Stored holder name stored w' ∧ w'.Embodies stored new below' ∧
      (before ++ below' ++ after).Nodup ∧ ∀ id ∈ before ++ below' ++ after, w'.Unheard id := by
  have hpresent := hmade holder (List.mem_append_left _ (List.mem_append_left _ hholder))
  have hkept : Calm (fun id => id.index < w.objects.size ∧ id ≠ holder) w w' :=
    (h.calm.mono fun _ hid => hid.1).trans
      (hover.calm.mono fun _ hid => ⟨Nat.lt_of_lt_of_le hid.1 h.calm.heap, hid.2⟩)
  obtain ⟨stored, hor, hstored⟩ := hover.stored
  have hstored' := hstored.since hpresent h.calm.toUntouched
  rcases hor with rfl | ⟨rfl, hsame⟩
  · obtain ⟨ids, hembodied, hnew, hfresh⟩ := h.embodied
    have hlate : ∀ id ∈ ids, id.index < v.objects.size ∧ id ≠ holder := by
      refine fun id hid => ⟨hembodied.made id hid, ?_⟩
      rintro rfl
      exact Nat.not_lt.mpr (hnew.since _ hid) hpresent
    refine ⟨stored, ids, hstored', hembodied.intact (hover.calm.toIntact.mono hlate),
      hnew.nodup_between hnodup hmade, fun id hid => ?_⟩
    simp only [List.mem_append] at hid hunheard
    rcases hid with (hid | hid) | hid
    · exact hkept.unheard id (hunheard id (.inl (.inl hid)))
    · exact hover.calm.unheard id (hfresh id hid)
    · exact hkept.unheard id (hunheard id (.inr hid))
  · obtain rfl := h.eq_of_same hpart hsame
    have hbelow : ∀ id ∈ below, id.index < w.objects.size ∧ id ≠ holder := by
      refine fun id hid => ⟨hmade id (List.mem_append_left _ (List.mem_append_right _ hid)), ?_⟩
      rintro rfl
      exact ((apart_of_nodup hnodup).2 _ hid).1 hholder
    exact ⟨stored, below, hstored', hpart.intact (hkept.toIntact.mono hbelow), hnodup, fun id hid =>
      hkept.unheard id (hunheard id hid)⟩

end Replacing

/-- A position that can be replaced is where a path arrives, and what is presented once it has been overwritten is the
document with this position replaced. -/
theorem Presents.replace (h : w.Presents owner json) {path : Path} {first : String} {rest : List String}
    (hsegments : path.segments = first :: rest) (hfirst : first ≠ "$data")
    (hreplace : json.replace path.segments new = some json') : ∃ holder old,
      (∀ v, Calm (fun id => id.index < w.objects.size) w v →
        v.Arrives (.object (w.viewModel owner).root) path holder old) ∧
      ∀ v value w', Fresh w new v value → v.Overwrites old value holder path.last w' → w'.Presents owner json' := by
  obtain ⟨ids, hembodied, hnodup, hunheard⟩ := h.embodied
  have hparents : json.replace (path.parents ++ [path.last]) new = some json' := by
    rw [path.parents_concat]
    exact hreplace
  obtain ⟨holder, old, before, below, after, rfl, hleads⟩ := hembodied.leads hnodup hparents
  rw [hsegments] at hreplace
  obtain ⟨hkey, hkeys⟩ := Json.keys_of_replace hreplace
  obtain ⟨visited, hpassage, hvisited⟩ := hleads.passage
  obtain ⟨source, hfield⟩ := hleads.field
  obtain ⟨part, hpart⟩ := hleads.part
  have hmem : holder ∈ before ++ below ++ after := List.mem_append_left _ (List.mem_append_left _ hleads.holds)
  have hpresent := hembodied.made holder hmem
  have hwritable : Plain ((w.object holder).slot? path.last) := by
    rw [hfield]
    trivial
  refine ⟨holder, old, fun v hcalm => ?_, fun v value w' hfresh hover => ?_⟩
  · -- as far as the objects that were there go, it is as if the old value had been stored again
    have hagain := (stored_field hfield).rests hpresent hcalm.toUntouched
    have hapart : (holder, path.last) ∉ visited := fun hvisit => hvisited _ hvisit rfl
    obtain ⟨value, source', hdata⟩ :=
      (hembodied.intact (hcalm.toIntact.mono hembodied.made)).field_of_replace hreplace
    exact arrives_of_proxy hsegments (hagain.proxy hwritable (h.named first hkey hfirst)) hdata
      (hagain.passage hwritable hpassage hapart) hagain.slot?_self (hcalm.unheard holder (hunheard holder hmem))
  · obtain ⟨stored, below', hstored, hnew, hnodup', hunheard'⟩ :=
      hfresh.stored hover hpart hembodied.made hnodup hleads.holds hunheard
    have hviewModel : w'.viewModel owner = w.viewModel owner := by
      rw [viewModel, hover.calm.viewModels, hfresh.calm.viewModels]
      rfl
    constructor
    · rw [hviewModel]
      have harrays := Nat.le_trans hfresh.calm.arrays hover.calm.arrays
      exact ⟨_, hleads.replaced hstored harrays hnew, hnodup', hunheard'⟩
    · intro key hkey hne
      rw [hviewModel]
      exact hstored.proxy hwritable (h.named key (hkeys ▸ hkey) hne)

/-! ### A new view model -/

variable [Inhabited Code]

theorem calm_addObject (w : World Code Memory) : Calm (fun _ => True) w w.addObject.2 := by
  refine ⟨⟨⟨(steady_addObject w).heap, fun id _ => (steady_addObject w).contents id⟩, Nat.le_refl _⟩, rfl, ?_⟩
  intro id hunheard key value source hslot
  have hobject : w.addObject.2.object id = w.object id := Table.get_add_default w.objects id
  rw [hobject] at hslot
  exact hunheard key value source hslot

theorem calm_defineProxies (w : World Code Memory) (root data : ObjectId) (keys : List String) :
    Calm (· ≠ root) w (keys.foldl (fun w key => w.putSlot root key (.proxy data key)) w) := by
  induction keys generalizing w with
  | nil => exact .refl w
  | cons key rest inductionHypothesis =>
    have hput : Calm (· ≠ root) w (w.putSlot root key (.proxy data key)) := calm_putSlot nofun
    exact hput.trans (inductionHypothesis _)

/-- Every key gets a proxy. -/
theorem slot?_defineProxies {root data : ObjectId} {keys : List String} {key : String}
    (h : key ∈ keys ∨ (w.object root).slot? key = some (.proxy data key)) :
    ((keys.foldl (fun w key => w.putSlot root key (.proxy data key)) w).object root).slot? key
      = some (.proxy data key) := by
  induction keys generalizing w with
  | nil => exact h.resolve_left List.not_mem_nil
  | cons first rest inductionHypothesis =>
    apply inductionHypothesis
    by_cases hfirst : key = first
    · subst hfirst
      exact .inr (slot?_putSlot w root key _)
    · rw [(changesAt_putSlot w root first _).slots root key (.inr hfirst)]
      exact h.imp_left fun hmem => (List.mem_cons.mp hmem).resolve_left hfirst

/-- A view model without computed properties and methods presents the document that its data embodies. -/
theorem presents_assemble {options : Options Code} {data : ObjectId} {ids : List ObjectId}
    (hembodied : w.Embodies (.object data) json ids) (hnodup : ids.Nodup) (hunheard : ∀ id ∈ ids, w.Unheard id)
    (hmethods : options.methods = {}) (hcomputed : options.computed = {}) :
    (w.assemble options data).2.Presents (w.assemble options data).1 json := by
  unfold World.assemble
  rw [hmethods, hcomputed]
  generalize options.directives.foldl _ Registry.standard = registry
  let v := (w.observe (.object data)).addTracker.2.addObject.2
  let root := (w.observe (.object data)).objects.fresh
  let vm : ViewModel Code :=
    { settings := options.settings, tracker := (w.observe (.object data)).trackers.fresh, data, root, registry
      document := options.document }
  have hbefore : Calm (fun _ => True) w v := by
    have htracker : Calm (fun _ => True) (w.observe (.object data)) (w.observe (.object data)).addTracker.2 :=
      calm_of_eq rfl rfl rfl rfl
    exact (calm_observe w _).trans (htracker.trans (calm_addObject _))
  -- a view model that comes in changes no object
  let made := v.addViewModel vm
  have hthere : made.2.Embodies (.object data) json ids := by
    have hmade : v.Intact (· ∈ ids) made.2 := ⟨⟨Nat.le_refl _, fun _ _ => rfl⟩, Nat.le_refl _⟩
    exact (hembodied.intact (hbefore.toIntact.mono fun _ _ => trivial)).intact hmade
  let named := (made.2.object data).keys.foldl (fun w key => w.putSlot root key (.proxy data key)) made.2
  have hconstant : Calm (· ≠ root) named (named.putSlot root "$data" (.constant (.object data))) := calm_putSlot nofun
  have hafter : Calm (· ≠ root) made.2 (named.putSlot root "$data" (.constant (.object data))) :=
    (calm_defineProxies made.2 root data _).trans hconstant
  change (named.putSlot root "$data" (.constant (.object data))).Presents made.1 json
  have hviewModel : (named.putSlot root "$data" (.constant (.object data))).viewModel made.1 = vm := by
    rw [viewModel, hafter.viewModels]
    exact v.viewModels.get_add_fresh vm
  have hroot : ∀ id ∈ ids, id ≠ root := by
    rintro id hid rfl
    have hobserved : Calm (fun _ => True) w (w.observe (.object data)) := calm_observe w _
    have hindex : Key.index root = (w.observe (.object data)).objects.size := Table.index_fresh _
    exact Nat.not_lt.mpr hobserved.heap (hindex ▸ hembodied.made root hid)
  constructor
  · rw [hviewModel]
    exact ⟨ids, hthere.intact (hafter.toIntact.mono hroot), hnodup, fun id hid =>
      hafter.unheard id (hbefore.unheard id (hunheard id hid))⟩
  · intro key hkey hne
    rw [hviewModel, (changesAt_putSlot named root "$data" _).slots root key (.inr hne)]
    exact slot?_defineProxies (.inl (hthere.keys ▸ hkey))

end World

/-! ### Programs that write documents -/

/-- Other documents are put in place of positions of a document, one after the other. An expression says what leads to
a position from below the data. -/
inductive Json.Edits : Json → List (String × Json) → Json → Prop
  | nil (json : Json) : Edits json [] json
  | cons {json new json₁ json' : Json} {expression : String} {path : Path} {rest : List (String × Json)}
      (hpath : Path.parse expression = .ok path) (hfirst : path.segments.head path.nonempty ≠ "$data")
      (hnew : new.Faithful) (hreplace : json.replace path.segments new = some json₁) (hrest : Edits json₁ rest json') :
      Edits json ((expression, new) :: rest) json'

/-- Loads documents and writes them to paths of a view model, which is the answer. -/
def Program.revise (owner : ViewModelId) : List (String × Json) → Program Code Memory ViewModelId
  | [] => return owner
  | (expression, json) :: rest => do
    let value ← request (.load json)
    request (.write owner expression value)
    revise owner rest

/-- Makes a view model of a document and revises it. -/
def Program.present (options : Options Code) (json : Json) (edits : List (String × Json)) :
    Program Code Memory ViewModelId := do
  let data ← request (.load json)
  let owner ← request (.newViewModel { options with data })
  revise owner edits

namespace Engine

open World

variable [Inhabited Code] {c : Reentry Code Memory} {w v w' : World Code Memory} {owner : ViewModelId}
  {json json' new : Json} {value : Value}

/-- A program goes on with what comes of its request. -/
theorem follow_request {α : Type} {request : Request Code Memory} {answer : request.Answer}
    {next : request.Answer → Program Code Memory α} (h : fulfil c request w = some (.ok answer, w')) :
    follow c (Program.request request >>= next) w = follow c (next answer) w' := by
  have hattempt : attempt (fulfil c request) w = some (.ok (.ok answer), w') := by
    rw [attempt, h]
    rfl
  exact bind_of_run hattempt

/-- After a write the view model presents the document with a position replaced. -/
theorem write_presents (hunheeded : Unheeded c) (h : w.Presents owner json) (hfresh : Fresh w new v value)
    {expression : String} {path : Path} (hpath : Path.parse expression = .ok path)
    (hfirst : path.segments.head path.nonempty ≠ "$data") (hreplace : json.replace path.segments new = some json') :
    ∃ w', fulfil c (.write owner expression value) v = some (.ok (), w') ∧ w'.Presents owner json' := by
  obtain ⟨holder, old, harrives, hpresents⟩ :=
    h.replace (List.cons_head_tail path.nonempty).symm hfirst hreplace
  let u : World Code Memory := { v with held := [.viewModel owner] ++ v.held }
  have hcalm := hfresh.calm.trans (calm_keep v u.held)
  have hroot : (u.viewModel owner).root = (w.viewModel owner).root := by
    rw [viewModel, hcalm.viewModels]
    rfl
  obtain ⟨source, hfield⟩ := (harrives u hcalm).field
  obtain ⟨after, hrun, hover⟩ :=
    writePath_unheard hunheeded (harrives u hcalm) value (some (u.viewModel owner).tracker)
  have hwrite : withPath expression (fun path => writeOn c owner path value) u = some (.ok (), after) := by
    have hparse : ofExcept (Path.parse expression) u = some (.ok path, u) := by
      rw [hpath]
      rfl
    rw [withPath, bind_of_run hparse, ← hrun, ← hroot]
    rfl
  obtain ⟨w', hkeeping, hover'⟩ := exists_keeping (w := v) (index_lt_of_slot? hfield) ⟨after, hwrite, hover⟩
  exact ⟨w', hkeeping, hpresents v value w' hfresh hover'⟩

/-- However many documents are written, the view model presents what the document has become. -/
theorem revise_presents (hunheeded : Unheeded c) {edits : List (String × Json)} (hedits : json.Edits edits json')
    (h : w.Presents owner json) :
    ∃ w', follow c (Program.revise owner edits) w = some (.ok owner, w') ∧ w'.Presents owner json' := by
  induction hedits generalizing w with
  | nil json => exact ⟨w, rfl, h⟩
  | @cons json new json₁ json' expression path rest hpath hfirst hnew hreplace _ inductionHypothesis =>
    have hload : fulfil c (.load new) w = some (.ok (w.load new).1, (w.load new).2) := rfl
    obtain ⟨written, hwrite, hwritten⟩ :=
      write_presents hunheeded h (fresh_load w hnew) hpath hfirst hreplace
    have hedit : follow c (Program.revise owner ((expression, new) :: rest)) w
        = follow c (Program.revise owner rest) written := (follow_request hload).trans (follow_request hwrite)
    rw [hedit]
    exact inductionHypothesis hwritten

/-- A view model of a document that was loaded presents it. -/
theorem construct_presents (c : Reentry Code Memory) {options : Options Code} {data : ObjectId} {ids : List ObjectId}
    (hsettings : options.settings.validate = .ok ()) (hmethods : options.methods = {})
    (hcomputed : options.computed = {}) (htarget : options.target = none) (hdata : options.data = .object data)
    (hembodied : w.Embodies (.object data) json ids) (hnodup : ids.Nodup) (hunheard : ∀ id ∈ ids, w.Unheard id) :
    ∃ owner w', construct c options w = some (.ok owner, w') ∧ w'.Presents owner json := by
  let u : World Code Memory := { w with held := options.data.refs ++ w.held }
  have hcheck : u.checkOptions options = .ok data := by
    rw [checkOptions_eq_ok, hmethods, hcomputed]
    exact ⟨hsettings, hdata, nofun, nofun⟩
  have hembodied' : u.Embodies (.object data) json ids :=
    hembodied.intact ⟨⟨Nat.le_refl _, fun _ _ => rfl⟩, Nat.le_refl _⟩
  have hpresents := presents_assemble hembodied' hnodup hunheard hmethods hcomputed
  have hmade : construct c options w
      = some (.ok (u.assemble options data).1, { (u.assemble options data).2 with held := w.held }) := by
    change Option.map _ ((ofExcept (u.checkOptions options) >>= fun _ => _ : Engine Code Memory _) _) = _
    rw [hcheck, htarget]
    rfl
  exact ⟨_, _, hmade, hpresents.keep w.held⟩

/--
A document survives the data model, if its numbers are integers that are written as such. Loading it makes a value from
which it is read back, by means of different new objects that nobody observes, and changes no other object. A view
model that is made of an object of this kind, without computed properties, methods and target, shows it; and whatever
documents of this kind are written to paths of keys that are there, each of these writes comes to an end, and the view
model shows the document with these positions replaced.
-/
theorem document_survives (application : Application Code Memory) (w : World Code Memory) {json : Json}
    (hjson : json.Faithful) :
    ((w.load json).2.json (w.load json).1 = json ∧
      (∃ ids, (w.load json).2.Embodies (w.load json).1 json ids ∧ New w.objects.size ids) ∧
      (∀ id, w.objects.size ≤ id.index → ((w.load json).2.object id).Unobserved) ∧
      ∀ id, id.index < w.objects.size → (w.load json).2.object id = w.object id) ∧
    ∀ {options : Options Code} {members : List (String × Json)} {edits : List (String × Json)} {json' : Json},
      options.settings.validate = .ok () → options.methods = {} → options.computed = {} → options.target = none →
      json = .object members → json.Edits edits json' → ∀ depth, ∃ owner w',
        run application (depth + 1) (Program.present options json edits) w = some (.ok owner, w') ∧
          w'.snapshot owner = json' := by
  obtain ⟨ids, hembodied, hnew⟩ := embodies_load w json hjson
  have hloads := loads_load w json
  refine ⟨⟨hembodied.json_eq hnew.nodup, ⟨ids, hembodied, hnew⟩, hloads.unobserved, hloads.kept⟩, ?_⟩
  intro options members edits json' hsettings hmethods hcomputed htarget hmembers hedits depth
  subst hmembers
  let c := reentry application (depth + 1)
  let loaded := (w.load (.object members)).2
  let options' : Options Code := { options with data := .object w.objects.fresh }
  have hunheard : ∀ id ∈ ids, loaded.Unheard id := fun id hid =>
    unheard_of_unobserved (hloads.unobserved id (hnew.since id hid))
  have hconstructed : ∃ owner made, construct c options' loaded = some (.ok owner, made) ∧
      made.Presents owner (.object members) :=
    construct_presents c hsettings hmethods hcomputed htarget rfl hembodied hnew.nodup hunheard
  obtain ⟨owner, made, hconstruct, hpresents⟩ := hconstructed
  obtain ⟨w', hrevise, hpresents'⟩ := revise_presents (unheeded_reentry application depth) hedits hpresents
  have hload : fulfil c (.load (.object members)) w = some (.ok (.object w.objects.fresh), loaded) := rfl
  have hmade : fulfil c (.newViewModel options') loaded = some (.ok owner, made) := hconstruct
  have hrun : run application (depth + 1) (Program.present options (.object members) edits) w
      = some (.ok owner, w') := ((follow_request hload).trans (follow_request hmade)).trans hrevise
  exact ⟨owner, w', hrun, hpresents'.snapshot_eq⟩

end Engine

/-! ### A list of errands -/

/-- Where to go and what to bring. -/
def Json.errands (number : Json) (lines : List Json) : Json :=
  .object [("title", .string "errands"), ("place", .object [("street", .string "Elm"), ("number", number)]),
    ("lines", .array lines)]

/-- The number becomes a range, the range is made longer, and all is brought. -/
def Json.errandsDone : List (String × Json) :=
  [("place.number", .object [("from", .integer 7), ("to", .integer 9)]), ("place.number.to", .integer 11),
    ("lines", .array [])]

theorem Json.faithful_errands : (errands (.integer 7) [.object [("count", .integer 2)], .null]).Faithful := by
  simp [errands, Faithful, FaithfulItems, FaithfulMembers]

theorem Json.edits_errands : (errands (.integer 7) [.object [("count", .integer 2)], .null]).Edits errandsDone
    (errands (.object [("from", .integer 7), ("to", .integer 11)]) []) := by
  have hrange : Path.parse "place.number" = .ok ⟨["place", "number"], by decide, by decide⟩ := rfl
  have hlonger : Path.parse "place.number.to" = .ok ⟨["place", "number", "to"], by decide, by decide⟩ := rfl
  have hbrought : Path.parse "lines" = .ok ⟨["lines"], by decide, by decide⟩ := rfl
  refine .cons hrange (by decide) ?_ rfl (.cons hlonger (by decide) ?_ rfl (.cons hbrought (by decide) ?_ rfl (.nil _)))
  all_goals simp [Faithful, FaithfulItems, FaithfulMembers]

theorem Engine.document_survives_errands :
    let json := Json.errands (.integer 7) [.object [("count", .integer 2)], .null]
    let json' := Json.errands (.object [("from", .integer 7), ("to", .integer 11)]) []
    let options : Options Unit := { data := .null }
    json.Faithful ∧ options.settings.validate = .ok () ∧ json.Edits Json.errandsDone json' ∧
      ((World.parcel.load json).2.json (World.parcel.load json).1 = json) ∧
      ∃ owner w', run Application.idle 1 (Program.present options json Json.errandsDone) World.parcel
          = some (.ok owner, w') ∧ w'.snapshot owner = json' := by
  intro json json' options
  obtain ⟨hloaded, hshown⟩ := document_survives Application.idle World.parcel Json.faithful_errands
  exact ⟨Json.faithful_errands, rfl, Json.edits_errands, hloaded.1, hshown rfl rfl rfl rfl rfl Json.edits_errands 0⟩

end ViewBinding
