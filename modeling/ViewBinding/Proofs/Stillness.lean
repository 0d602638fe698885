import ViewBinding.Proofs.Setback

/-!
# Data at rest

What an object holds changes when somebody writes, or when a view model defines computed properties on its data.
While no program of the embedder does either, the objects that are there keep their keys and what these hold,
whatever else a notification sets in motion: evaluations, reactions, events, and bindings that are made and torn
down.
-/

namespace ViewBinding

variable {Code Memory : Type}

namespace Entries

/-- Writing a key and mapping the values may be done in either order. -/
theorem map_putPair {κ α β : Type} [DecidableEq κ] (f : α → β) (k : κ) (a : α) (l : List (κ × α)) :
    (putPair k a l).map (fun pair => (pair.1, f pair.2)) = putPair k (f a) (l.map fun pair => (pair.1, f pair.2)) := by
  induction l with
  | nil => rfl
  | cons pair rest inductionHypothesis =>
    simp only [putPair, List.map_cons]
    split
    · rfl
    · rw [List.map_cons, inductionHypothesis]

/-- Writing what a key holds changes nothing. -/
theorem putPair_of_find? {κ α : Type} [DecidableEq κ] {k : κ} {a : α} {l : List (κ × α)}
    (h : (l.find? (·.1 = k)).map Prod.snd = some a) : putPair k a l = l := by
  induction l with
  | nil => cases h
  | cons pair rest inductionHypothesis =>
    obtain ⟨j, b⟩ := pair
    rw [putPair]
    by_cases hkey : j = k
    · simp only [List.find?_cons, hkey, decide_true, Option.map_some, Option.some.injEq] at h
      rw [if_pos hkey, h, hkey]
    · simp only [List.find?_cons, hkey, decide_false] at h
      rw [if_neg hkey, inductionHypothesis h]

end Entries

/-- A listener that writes form values. -/
def Listener.writes : Listener Code → Bool
  | .writeBack .. => true
  | _ => false

/-- A request by which nothing is written, and no property is defined on the first so many objects. What is
requested by programs that it runs is their affair. -/
def Request.Spares (count : Nat) (request : Request Code Memory) (w : World Code Memory) : Prop :=
  match request with
  | .place .. | .insert .. | .set .. | .writePath .. | .write .. => False
  | .dispatch node event => ∀ listener ∈ (w.node node).listeners event, listener.writes = false
  | .input node _ => ∀ listener ∈ (w.node node).listeners "input", listener.writes = false
  | .newViewModel options =>
    options.computed.toList = [] ∨ ∀ data : ObjectId, options.data = .object data → count ≤ data.index
  | _ => True

/-- No program writes, or defines a property on the first so many objects. -/
def Proviso.sparing (count : Nat) : Proviso Code Memory :=
  fun _ moment w => ∀ request, moment = .asking request → request.Spares count w

variable [Inhabited Code]

namespace World

variable {w w₁ w₂ : World Code Memory} {kept : ObjectId → Prop}

/-- Certain objects hold what they held. -/
structure Untouched (kept : ObjectId → Prop) (w w' : World Code Memory) : Prop where
  heap : w.objects.size ≤ w'.objects.size
  contents : ∀ id, kept id → w'.contents id = w.contents id

omit [Inhabited Code] in
theorem Untouched.refl (w : World Code Memory) : Untouched kept w w :=
  ⟨Nat.le_refl _, fun _ _ => rfl⟩

omit [Inhabited Code] in
theorem Untouched.trans (h : Untouched kept w w₁) (h' : Untouched kept w₁ w₂) : Untouched kept w w₂ :=
  ⟨Nat.le_trans h.heap h'.heap, fun id hid => (h'.contents id hid).trans (h.contents id hid)⟩

omit [Inhabited Code] in
theorem Untouched.mono {fewer : ObjectId → Prop} (h : Untouched kept w w₁) (hfewer : ∀ id, fewer id → kept id) :
    Untouched fewer w w₁ :=
  ⟨h.heap, fun id hid => h.contents id (hfewer id hid)⟩

theorem Steady.untouched (h : w.Steady w₁) : Untouched kept w w₁ :=
  ⟨h.heap, fun id _ => h.contents id⟩

theorem Beside.untouched {object : ObjectId} (h : Beside object w w₁) : Untouched (· ≠ object) w w₁ :=
  ⟨h.heap, h.contents⟩

theorem untouched_mapObject (w : World Code Memory) (object : ObjectId) {f : Object → Object}
    (hf : ∀ x, (f x).slots = x.slots) : Untouched kept w (w.mapObject object f) := by
  refine ⟨(grows_mapObject w object f).heap, fun id _ => contents_congr ?_⟩
  rw [object_mapObject]
  split
  · next hid => rw [hf, hid]
  · rfl

theorem untouched_await (w : World Code Memory) (object : ObjectId) (key : String) :
    Untouched kept w (w.await object key).2 := by
  unfold World.await
  cases (w.object object).awaited.find? key with
  | some source => exact .refl w
  | none => exact (steady_addSource w).untouched.trans (untouched_mapObject _ object fun _ => rfl)

theorem untouched_observe (w : World Code Memory) (value : Value) : Untouched kept w (w.observe value) :=
  have halters : Alters (fun _ => True) w (w.observe value) := alters_observe w value
  ⟨halters.objects, fun id _ => contents_observe w value id⟩

/-! ### Storing -/

omit [Inhabited Code] in
theorem contents_putSlot (w : World Code Memory) (object : ObjectId) (key : String) (slot : Slot) :
    (w.putSlot object key slot).contents object = Entries.putPair key slot.plain (w.contents object) := by
  rw [contents, putSlot, object_mapObject, if_pos rfl]
  exact Entries.map_putPair Slot.plain key slot _

/-- The field of a key of an object was stored, where the key stood or else at the end, and no other object that was
there was touched. -/
structure Stored (object : ObjectId) (key : String) (value : Value) (w w' : World Code Memory) : Prop where
  untouched : Untouched (fun id => id.index < w.objects.size ∧ id ≠ object) w w'
  contents : w'.contents object = Entries.putPair key (.field value none) (w.contents object)

theorem Stored.of_putSlot {object : ObjectId} {key : String} {value : Value} {source : Option SourceId}
    (h : Untouched (fun _ => True) w w₁)
    (h' : Untouched (fun _ => True) (w₁.putSlot object key (.field value source)) w₂) :
    Stored object key value w w₂ where
  untouched := ((h.mono fun _ _ => trivial).trans
    ((beside_putSlot w₁ object key _).untouched.mono fun _ hid => hid.2)).trans (h'.mono fun _ _ => trivial)
  contents := by
    rw [h'.contents object trivial, contents_putSlot, h.contents object trivial]
    rfl

theorem stored_store (w : World Code Memory) (object : ObjectId) (key : String) (value : Value) :
    Stored object key value w (w.store object key value).2 := by
  have harrive : Untouched (fun _ => True) w (w.arrive object key) := by
    unfold arrive
    split
    · exact untouched_mapObject w object fun _ => rfl
    · exact .refl w
  unfold World.store
  dsimp only
  generalize handover (w.object object) key value = sources
  split
  · exact .of_putSlot (harrive.trans (sourceOrNew_spec _ sources.1).1.untouched) (untouched_observe _ value)
  · exact .of_putSlot harrive (.refl _)

/-! ### New objects -/

omit [Inhabited Code] in
theorem Untouched.there (h : Untouched kept w w₁) (hkept : ∀ id, kept id → Key.index id < w.objects.size)
    (id : ObjectId) (hid : kept id) : Key.index id < w₁.objects.size :=
  Nat.lt_of_lt_of_le (hkept id hid) h.heap

omit [Inhabited Code] in
theorem not_kept_fresh (hkept : ∀ id, kept id → Key.index id < w.objects.size) : ¬ kept w.objects.fresh := by
  intro hfresh
  have hlt := hkept _ hfresh
  rw [Table.index_fresh] at hlt
  exact Nat.lt_irrefl _ hlt

mutual

/-- What is loaded goes into new objects. -/
theorem untouched_load (w : World Code Memory) (hkept : ∀ id, kept id → Key.index id < w.objects.size) :
    (json : Json) → Untouched kept w (w.load json).2
  | .null => .refl w
  | .bool _ => .refl w
  | .integer _ => .refl w
  | .real _ => .refl w
  | .string _ => .refl w
  | .array items =>
    have harray : (w.loadItems items).2.Steady (w.load (.array items)).2 := steady_of_eq rfl (Nat.le_refl _) rfl rfl
    (untouched_loadItems w hkept items).trans harray.untouched
  | .object members => (steady_addObject w).untouched.loadMembers hkept (not_kept_fresh hkept) members

theorem untouched_loadItems (w : World Code Memory) (hkept : ∀ id, kept id → Key.index id < w.objects.size) :
    (items : List Json) → Untouched kept w (w.loadItems items).2
  | [] => (Steady.refl w).untouched
  | item :: rest =>
    have hitem := untouched_load w hkept item
    hitem.trans (untouched_loadItems _ (hitem.there hkept) rest)

theorem Untouched.loadMembers {w w₁ : World Code Memory} {object : ObjectId} (h : Untouched kept w w₁)
    (hkept : ∀ id, kept id → Key.index id < w.objects.size) (hobject : ¬ kept object) :
    (members : List (String × Json)) → Untouched kept w (w₁.loadMembers object members)
  | [] => h
  | (key, json) :: rest =>
    have hloaded := h.trans (untouched_load w₁ (h.there hkept) json)
    have hstored := (stored_store (w₁.load json).2 object key (w₁.load json).1).untouched
    (hloaded.trans (hstored.mono fun id hid =>
      ⟨hloaded.there hkept id hid, fun heq => hobject (heq ▸ hid)⟩)).loadMembers hkept hobject rest

end

/-- Making a view model touches its data if it has computed properties, and no other object that is there. -/
theorem untouched_assemble (w : World Code Memory) (options : Options Code) (data : ObjectId)
    (hkept : ∀ id, kept id → Key.index id < w.objects.size)
    (hdata : options.computed.toList = [] ∨ ¬ kept data) : Untouched kept w (w.assemble options data).2 := by
  have hobserved : Untouched kept w (w.observe (.object data)) := untouched_observe w _
  unfold World.assemble
  generalize w.observe (.object data) = w₁ at hobserved ⊢
  generalize options.directives.foldl _ Registry.standard = registry
  have hroot : ¬ kept w₁.objects.fresh := not_kept_fresh (hobserved.there hkept)
  let vm : ViewModel Code :=
    { settings := options.settings, tracker := w₁.trackers.fresh, data, root := w₁.objects.fresh, registry
      document := options.document }
  let made := w₁.addTracker.2.addObject.2.addViewModel vm
  have hmade : Untouched kept w made.2 := by
    refine hobserved.trans (Steady.untouched ?_)
    have htracker : w₁.Steady w₁.addTracker.2 := steady_of_eq rfl (Nat.le_refl _) rfl rfl
    exact htracker.trans ((steady_addObject _).trans (steady_addViewModel _ vm))
  have hcomputed : Untouched kept made.2 (defineComputed made.1 data vm.tracker options.settings.memoize made.2
      options.computed.toList) := by
    rcases hdata with hnone | hdata
    · rw [hnone]
      exact .refl _
    · exact (beside_defineComputed _ _ _ _ _ _).untouched.mono fun _ hid heq => hdata (heq ▸ hid)
  refine (hmade.trans hcomputed).trans (Untouched.mono (Beside.untouched (((beside_defineMethods _ vm.root _).trans
    (beside_defineProxies _ vm.root data _)).trans (beside_putSlot _ vm.root "$data" (.constant (.object data)))))
    fun _ hid heq => hroot (show kept vm.root from heq ▸ hid))

end World

/-! ### Notifications in which nobody writes -/

namespace Engine

variable {application : Application Code Memory} {ok : Request Code Memory → World Code Memory → Prop}
  {start : World Code Memory} {kept : ObjectId → Prop} {count : Nat} {c d : Reentry Code Memory}
  {P P' : Moment Code Memory → World Code Memory → Prop} {α : Type}

theorem remains_untouched (application : Application Code Memory)
    (ok : Request Code Memory → World Code Memory → Prop) (start : World Code Memory) (kept : ObjectId → Prop) :
    Remains application ok (start.Untouched kept) where
  steady hsteady _ hw := hw.trans hsteady.untouched
  note _ _ hw := hw.trans ⟨Nat.le_refl _, fun _ _ => rfl⟩
  remember _ hw := hw.trans ⟨Nat.le_refl _, fun _ _ => rfl⟩
  await _ _ hw := hw.trans (World.untouched_await _ _ _)

/-- What is entered again touches none of the first so many objects, if the requests of programs are `ok`. -/
abbrev Rests (application : Application Code Memory) (ok : Request Code Memory → World Code Memory → Prop)
    (start : World Code Memory) (count : Nat) (c d : Reentry Code Memory) : Prop :=
  Revisits application ok (fun _ : Unit => start.Untouched fun id => id.index < count) c d

section Resting

variable (h : Rests application ok start count c d)

include h

theorem Rests.upkeep : Upkeep (start.Untouched fun id => id.index < count) c d :=
  Revisits.upkeep (i := ()) (remains_untouched application ok start _).endures h

/-- A listener that writes no form value runs a program or a method. -/
theorem Rests.handle (event : Event) {listener : Listener Code} (hlistener : listener.writes = false) :
    Keeps (start.Untouched fun id => id.index < count) (handle c event listener) (handle d event listener) := by
  cases listener with
  | run code =>
    unfold Engine.handle
    rw [h.left, h.right]
    exact h.run () (h.programs.listener code event)
  | writeBack owner binding path => cases hlistener
  | invoke owner binding method =>
    refine (Keeps.inspect _).bind fun active => ?_
    cases active with
    | true =>
      unfold Engine.onLiving
      rw [h.left, h.right]
      refine (Keeps.inspect _).bind fun alive => ?_
      cases alive with
      | true => exact (Rests.upkeep h).keeping _ ((Rests.upkeep h).callMethod owner method event)
      | false => exact Keeps.throw _
    | false => exact Keeps.pure ()

variable (hP' : ∀ w, P .acting w → P' .acting w)

include hP'

theorem Rests.dispatchUnder {node : NodeId} {event : String} {w : World Code Memory}
    (hlisteners : ∀ listener ∈ (w.node node).listeners event, listener.writes = false)
    (hw : start.Untouched (fun id => id.index < count) w) :
    Ends w (dispatchUnder P c node event) (dispatchUnder P' d node event)
      fun _ => start.Untouched fun id => id.index < count := by
  have hheld : ∀ w held, start.Untouched (fun id => id.index < count) w →
      start.Untouched (fun id => id.index < count) { w with held } := fun _ held => (Rests.upkeep h).held held
  refine Ends.keeping _ (R := fun _ => start.Untouched fun id => id.index < count) ?_ fun _ _ => hheld _ _
  rw [ends_inspect_bind]
  refine ((Keeps.failures hheld _ _ fun listener hlistener w hw => ?_).bind fun errors => Keeps.ofExcept _) _
    (hheld w _ hw)
  exact Ends.under (hP' w) fun _ => Rests.handle h _ (hlisteners listener hlistener) w hw

theorem Rests.inputUnder {node : NodeId} {value : Value} {w : World Code Memory}
    (hlisteners : ∀ listener ∈ (w.node node).listeners "input", listener.writes = false)
    (hw : start.Untouched (fun id => id.index < count) w) :
    Ends w (Engine.keeping [.node node] (inputUnder P c node value))
      (Engine.keeping [.node node] (inputUnder P' d node value)) fun _ => start.Untouched fun id => id.index < count := by
  have hheld := (Rests.upkeep h).held ([.node node] ++ w.held) hw
  refine Ends.keeping _ (R := fun _ => start.Untouched fun id => id.index < count) ?_
    fun _ _ => (Rests.upkeep h).held _
  rw [Engine.inputUnder, Engine.inputUnder, ends_update_bind]
  refine Rests.dispatchUnder h hP' ?_ ((Rests.upkeep h).display .value node value hheld)
  have hsame : ∀ x : Node Code, (x.setValue value).listeners "input" = x.listeners "input" := fun x => by
    cases x <;> rfl
  rw [World.display, World.node, World.mapNode, Table.get_modify, if_pos rfl, hsame]
  exact hlisteners

theorem Rests.constructUnder (hcount : count ≤ start.objects.size) {options : Options Code} {w : World Code Memory}
    (hdata : options.computed.toList = [] ∨ ∀ data : ObjectId, options.data = .object data → count ≤ data.index)
    (hw : start.Untouched (fun id => id.index < count) w) :
    Ends w (constructUnder P c options) (constructUnder P' d options)
      fun _ => start.Untouched fun id => id.index < count := by
  refine Ends.keeping _ (R := fun _ => start.Untouched fun id => id.index < count) ?_
    fun _ _ => (Rests.upkeep h).held _
  have hheld := (Rests.upkeep h).held (options.data.refs ++ w.held) hw
  rw [ends_inspect_bind, ends_ofExcept_bind]
  generalize ({ w with held := options.data.refs ++ w.held } : World Code Memory) = v at hheld
  cases hcheck : v.checkOptions options with
  | error error => exact hheld
  | ok data =>
    simp only
    rw [ends_create_bind]
    refine Ends.under (hP' _) fun _ => ?_
    have hassembled : start.Untouched (fun id => id.index < count) (v.assemble options data).2 := by
      refine hheld.trans
        (World.untouched_assemble v options data (fun id hid => ?_) (hdata.imp_right fun hnew hlt => ?_))
      · exact Nat.lt_of_lt_of_le hid (Nat.le_trans hcount hheld.heap)
      · exact Nat.not_lt.mpr (hnew data (World.checkOptions_eq_ok.mp hcheck).2.1) hlt
    cases options.target with
    | none => exact (ends_pure _).mpr hassembled
    | some target =>
      exact (((Rests.upkeep h).walking.mount _ target).bind fun _ => Keeps.pure _) _ hassembled

/-- A request by which nothing is written touches none of the objects. -/
theorem Rests.fulfilUnder (hcount : count ≤ start.objects.size) {request : Request Code Memory} {w : World Code Memory}
    (hspares : request.Spares count w) (hok : ok request w) (hw : start.Untouched (fun id => id.index < count) w) :
    Ends w (fulfilUnder P c request) (fulfilUnder P' d request)
      fun _ => start.Untouched fun id => id.index < count := by
  have hI := remains_untouched application ok start fun id => id.index < count
  have hu := Rests.upkeep h
  have hsteady : ∀ {w' : World Code Memory}, w.Steady w' → start.Untouched (fun id => id.index < count) w' :=
    fun hs => hw.trans hs.untouched
  have hrows : ∀ {w' : World Code Memory}, w'.objects = w.objects → w.sources.size ≤ w'.sources.size →
      w'.computeds = w.computeds → w'.viewModels = w.viewModels → start.Untouched (fun id => id.index < count) w' :=
    fun h₁ h₂ h₃ h₄ => hsteady (World.steady_of_eq h₁ h₂ h₃ h₄)
  have hmargin : ∀ {w' : World Code Memory}, w.Margin w' → start.Untouched (fun id => id.index < count) w' :=
    fun hm => hw.trans hm.fringe.steady.untouched
  cases request with
  | place => exact hspares.elim
  | insert => exact hspares.elim
  | set => exact hspares.elim
  | writePath => exact hspares.elim
  | write => exact hspares.elim
  | newObject => exact (ends_create _).mpr (hsteady (World.steady_addObject w))
  | newArray items => exact (ends_create _).mpr (hrows rfl (Nat.le_refl _) rfl rfl)
  | newFunction name code => exact (ends_create _).mpr (hrows rfl (Nat.le_refl _) rfl rfl)
  | load json =>
    refine (ends_create _).mpr (hw.trans (World.untouched_load w (fun id hid => ?_) json))
    exact Nat.lt_of_lt_of_le hid (Nat.le_trans hcount hw.heap)
  | get object key reader => exact hu.get object key reader w hw
  | observe value => exact (ends_update _).mpr (hw.trans (World.untouched_observe w value))
  | readPath root path reader => exact hu.keeping _ (hu.readPath root path reader) w hw
  | renderTemplate template root reader => exact hu.keeping _ (hu.renderTemplate template root reader) w hw
  | newTracker => exact (ends_create _).mpr (hrows rfl (Nat.le_refl _) rfl rfl)
  | enter tracker frame => exact (ends_update _).mpr (hrows rfl (Nat.le_refl _) rfl rfl)
  | leave tracker => exact (ends_update _).mpr (hrows rfl (Nat.le_refl _) rfl rfl)
  | depend tracker source => exact h.recurring.depend hI.peruses.recurs (i := ()) (some tracker) source w hw
  | newSource => exact (ends_create _).mpr (hsteady (World.steady_addSource w))
  | register source subscriber => exact (ends_update _).mpr (hsteady (World.steady_mapSource w source _))
  | unregister source subscriber => exact (ends_update _).mpr (hsteady (World.steady_mapSource w source _))
  | notify source => exact h.notify () source w hw
  | newProbe code => exact (ends_create _).mpr (hrows rfl (Nat.le_refl _) rfl rfl)
  | watch tracker root path code => exact hu.watch tracker root path (.run code) w hw
  | watchOn owner path code => exact hu.keeping _ (hu.watchOn owner path (.run code)) w hw
  | updateWatcher id => exact Revisits.updateWatcher (i := ()) hI.endures h id w hw
  | teardownWatcher id => exact (ends_update _).mpr (hsteady (World.steady_teardownWatcher w id))
  | newComputed name tracker memoize code =>
    exact (ends_create _).mpr (hsteady ((World.steady_addSource w).trans (World.steady_addComputed w.addSource.2 _)))
  | readComputed id reader => exact h.recurring.readComputed hI.peruses.recurs (i := ()) id reader w hw
  | newElement tag attributes children =>
    exact (ends_create _).mpr (hmargin (World.margin_newElement w tag attributes children))
  | newText content => exact (ends_create _).mpr (hmargin (World.margin_newText w content))
  | display updater node value => exact (ends_update _).mpr (hmargin (World.margin_display w updater node value))
  | takeChildren node => exact (ends_create _).mpr (hmargin (World.margin_setChildren w node []))
  | appendChildren node children => exact (ends_update _).mpr (hmargin (World.margin_appendChildren w node children))
  | listen node event code => exact (ends_update _).mpr (hmargin (World.margin_listen w node event code))
  | dispatch node event => exact Rests.dispatchUnder h hP' hspares hw
  | input node value => exact Rests.inputUnder h hP' hspares hw
  | newViewModel options => exact Rests.constructUnder h hP' hcount hspares hw
  | read owner expression => exact hu.keeping _ (Perusal.withPath expression fun path => hu.readOn owner path) w hw
  | call owner method event => exact hu.keeping _ (hu.callMethod owner method event) w hw
  | render owner text => exact hu.keeping _ (hu.renderOn owner text) w hw
  | mount owner target => exact hu.walking.mount owner target w hw
  | compile owner node => exact hu.walking.compile owner node w hw
  | unmount owner node => exact (ends_create _).mpr (hu.unmount w owner node hw)
  | install installer owner node directive =>
    refine hu.keeping _ (fun w hw => hu.installDirective (fun code _ => ?_) hw) w hw
    exact h.left ▸ h.run () (h.programs.install code owner node directive) w hw
  | newBinding node kind expression => exact (ends_create _).mpr (hrows rfl (Nat.le_refl _) rfl rfl)
  | teardownBinding id => exact (ends_update _).mpr (hu.teardownBinding w id hw)
  | hold refs => exact (ends_update _).mpr (hmargin (World.margin_held w _))
  | release refs => exact (ends_update _).mpr (hmargin (World.margin_held w _))
  | remember f => exact (ends_update _).mpr (hI.remember hok hw)

end Resting

/-! ### However deep -/

section Nesting

variable {application : Application Code Memory} {P : Proviso Code Memory}
  {ok : Request Code Memory → World Code Memory → Prop} {start : World Code Memory} {count : Nat}

/-- What programs request under the proviso writes nothing. -/
def Harmless (P : Proviso Code Memory) (ok : Request Code Memory → World Code Memory → Prop) (count : Nat) : Prop :=
  ∀ waiting request w, P waiting (.asking request) w → ok request w → request.Spares count w

variable (hharmless : Harmless P ok count) (hcount : count ≤ start.objects.size)

include hharmless hcount

theorem Rests.followUnder {c d : Reentry Code Memory} (h : Rests application ok start count c d)
    (waiting : List Subscriber) {α : Type} {program : Program Code Memory α} {seen : Option (World Code Memory)}
    (hprogram : program.Makes ok seen) {w : World Code Memory} (hseen : ∀ v ∈ seen, w = v)
    (hw : start.Untouched (fun id => id.index < count) w) :
    Ends w (followUnder (P waiting) c program) (followUnder (Proviso.sparing count waiting) d program)
      fun _ => start.Untouched fun id => id.index < count := by
  induction program generalizing seen w with
  | done result => exact Ends.under (fun _ => nofun) fun _ => (ends_pure _).mpr hw
  | fail error => exact Ends.under (fun _ => nofun) fun _ => (ends_throw _).mpr hw
  | look next inductionHypothesis =>
    refine Ends.under (fun _ => nofun) fun _ => ?_
    exact inductionHypothesis w (hprogram w) (fun v hv => Option.some.inj hv) hw
  | ask request next inductionHypothesis =>
    have hok : ok request w := hprogram.1 w hseen
    refine Ends.under (fun hP other hother => ?_) fun hP => ?_
    · cases hother
      exact hharmless waiting request w hP hok
    · refine (Rests.fulfilUnder h (fun _ _ => nofun) hcount (hharmless waiting request w hP hok) hok hw).attempt_bind ?_
      intro answer w' hw'
      exact inductionHypothesis answer (hprogram.2 answer) (fun v hv => absurd hv (Option.not_mem_none _)) hw'

/-- However deep the engine is entered again, the objects rest. -/
theorem rests_reentryUnder (hprograms : application.Makes ok) (depth : Nat) (waiting : List Subscriber) :
    Rests application ok start count (reentryUnder P application depth waiting)
      (reentryUnder (.sparing count) application depth waiting) := by
  have hI := remains_untouched application ok start fun id => id.index < count
  induction depth generalizing waiting with
  | zero => exact ⟨hprograms, rfl, rfl, rfl, fun _ _ => Keeps.exhausted _, fun _ _ _ _ => Keeps.exhausted _⟩
  | succ depth inductionHypothesis =>
    refine ⟨hprograms, rfl, rfl, rfl, fun _ source => ?_, fun _ _ _ hprogram w hw => ?_⟩
    · exact hI.endures.notifyUnder (i := ()) (fun _ _ _ _ _ => nofun) (fun _ _ _ _ _ _ => nofun) inductionHypothesis
        waiting source
    · exact Rests.followUnder hharmless hcount (inductionHypothesis waiting) waiting hprogram
        (fun v hv => absurd hv (Option.not_mem_none _)) hw

end Nesting

end Engine

end ViewBinding
