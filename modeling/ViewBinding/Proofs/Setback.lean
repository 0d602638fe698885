import ViewBinding.Proofs.Furnishing
import ViewBinding.Proofs.Recalling
import ViewBinding.Proofs.Sightings

/-!
# When a view model cannot be made

A view model whose options are refused leaves the world as it was. If it is not mounted because its target
is not found or the tree does not compile, then its data has already been observed and has its computed
properties: what was there before is still there, but the names of computed properties are taken.
-/

namespace ViewBinding

open Engine

variable {Code Memory : Type} [Inhabited Code]

/-- A request that reads, or binds nodes and watchers, and writes no property. -/
def Request.Binds : Request Code Memory → Prop
  | .watch .. | .watchOn .. | .teardownWatcher .. => True
  | .newElement .. | .newText .. | .display .. | .takeChildren .. | .appendChildren .. | .listen .. => True
  | .mount .. | .compile .. | .unmount .. => True
  | .install .. | .newBinding .. | .teardownBinding .. => True
  | .hold .. | .release .. => True
  | request => request.ReadsOnly

/-- An embedder whose getters only read, and whose installers bind. -/
structure Application.Binds (application : Application Code Memory) : Prop where
  getters : application.GettersRead
  install (code : Code) (owner : ViewModelId) (node : NodeId) (directive : Directive) :
    (application.install code owner node directive).Makes fun request _ => request.Binds

/-- No property was written or defined. -/
structure World.Unwritten (w w' : World Code Memory) : Prop extends w.Grows w' where
  slots : ∀ id, (w'.object id).slots = (w.object id).slots

namespace World

variable {w w₁ w₂ : World Code Memory}

theorem Unwritten.refl (w : World Code Memory) : w.Unwritten w :=
  ⟨.refl w, fun _ => rfl⟩

theorem Unwritten.steady (h : w.Unwritten w₁) (hsteady : w₁.Steady w₂) : w.Unwritten w₂ :=
  ⟨h.toGrows.trans hsteady.toGrows, fun id =>
    (congrArg Object.slots (hsteady.objects id)).trans (h.slots id)⟩

theorem Unwritten.await (h : w.Unwritten w₁) (object : ObjectId) (key : String) :
    w.Unwritten (w₁.await object key).2 := by
  unfold World.await
  cases (w₁.object object).awaited.find? key with
  | some source => exact h
  | none =>
    have hadded := h.steady (steady_addSource w₁)
    refine ⟨hadded.toGrows.trans (grows_mapObject _ object _), fun id => ?_⟩
    refine Eq.trans ?_ (hadded.slots id)
    change ((w₁.addSource.2.mapObject object _).object id).slots = _
    rw [object_mapObject]
    split
    · next hid => rw [hid]
    · rfl

end World

namespace Engine

variable {application : Application Code Memory} {start : World Code Memory} {c : Reentry Code Memory}
  {α : Type}

theorem peruses_unwritten (application : Application Code Memory) (start : World Code Memory) :
    Peruses application start.Unwritten where
  note _ _ h := h.steady (World.steady_of_eq rfl (Nat.le_refl _) rfl rfl)
  held _ h := h.steady (World.steady_of_eq rfl (Nat.le_refl _) rfl rfl)
  mapTracker _ _ h := h.steady (World.steady_of_eq rfl (Nat.le_refl _) rfl rfl)
  mapSource s f h := h.steady (World.steady_mapSource _ s f)
  mapDependencies subscriber f h := h.steady (World.steady_mapDependencies _ subscriber f)
  settle subscriber h := h.steady (World.steady_settle _ subscriber)
  mapComputed id _ hf h := h.steady (World.steady_mapComputed _ id hf)
  await _ _ h := h.await _ _

/-! ### Binding -/

/-- What is entered again writes no property, for programs that bind. -/
structure Rebinds (application : Application Code Memory) (start : World Code Memory)
    (c : Reentry Code Memory) : Prop extends Rereads application start.Unwritten c c where
  run {α : Type} {program : Program Code Memory α} : program.Makes (fun request _ => request.Binds) →
    Keeps start.Unwritten (c.run program) (c.run program)

namespace Rebinds

variable (h : Rebinds application start c) (happ : application.Binds)

include h

theorem watch (t : TrackerId) (root : Value) (path : Path) (reaction : Reaction Code) :
    Keeps start.Unwritten (watch c t root path reaction) (watch c t root path reaction) := by
  have hI := peruses_unwritten application start
  have hwatchers : ∀ {w : World Code Memory} (watchers : Table WatcherId (Watcher Code)),
      start.Unwritten w → start.Unwritten { w with watchers } := fun _ hw =>
    hw.steady (World.steady_of_eq rfl (Nat.le_refl _) rfl rfl)
  refine Keeps.bind (Keeps.create fun w hw => hwatchers _ hw) fun id => ?_
  refine (h.perusal hI).keeping _ ((h.evaluateWatcher hI id).attempt.bind fun result => ?_)
  cases result with
  | ok value => exact Keeps.bind (Keeps.update fun w hw => hwatchers _ hw) fun _ => Keeps.pure id
  | error error =>
    refine Keeps.bind (Keeps.update fun w hw => ?_) fun _ => Keeps.throw error
    exact hw.steady (World.steady_teardownWatcher w id)

theorem fitting : Fitting start.Unwritten c c where
  toPerusal := h.perusal (peruses_unwritten application start)
  fringe hfringe _ hw := hw.steady hfringe.steady
  watch := h.watch

include happ

theorem mounting : Mounting start.Unwritten c c where
  toFitting := h.fitting
  depth := rfl
  installRender owner node kind updater path := h.fitting.installRender owner node kind updater path
    fun {w} value hw => hw.steady (World.fringe_display w updater node value).steady
  installInterpolation node _ := h.fitting.installInterpolation _ node _
    (fun {w} content hw => hw.steady (World.fringe_setText w node content).steady) _
  teardown w id hw := hw.steady (World.steady_teardownWatcher w id)
  install node _ hw := by
    rw [h.left]
    exact h.run (happ.install _ _ node _) _ hw

theorem fulfil {request : Request Code Memory} (hbinds : request.Binds) :
    Keeps start.Unwritten (fulfil c request) (fulfil c request) := by
  have hm := h.mounting happ
  have hfringes : ∀ {f : World Code Memory → World Code Memory}, (∀ w : World Code Memory, w.Fringe (f w)) →
      Keeps start.Unwritten (update f) (update f) := fun hf => Keeps.update fun w hw => hw.steady (hf w).steady
  cases request with
  | watch tracker root path code => exact h.watch tracker root path _
  | watchOn owner path code => exact hm.keeping _ (hm.watchOn owner path _)
  | teardownWatcher id => exact Keeps.update fun w hw => hm.teardown w id hw
  | newElement tag attributes children =>
    exact Keeps.create fun w hw => hw.steady (World.margin_newElement w tag attributes children).fringe.steady
  | newText content => exact Keeps.create fun w hw => hw.steady (World.margin_newText w content).fringe.steady
  | display updater node value => exact hfringes fun w => World.fringe_display w updater node value
  | takeChildren node =>
    exact Keeps.create fun w hw => hw.steady (World.margin_setChildren w node []).fringe.steady
  | appendChildren node children => exact hfringes fun w => (World.margin_appendChildren w node children).fringe
  | listen node event code => exact hfringes fun w => (World.margin_listen w node event code).fringe
  | mount owner target => exact hm.walking.mount owner target
  | compile owner node => exact hm.walking.compile owner node
  | unmount owner node => exact Keeps.create fun w hw => hm.unmount w owner node hw
  | install installer owner node directive =>
    refine hm.keeping _ fun w hw => hm.installDirective (fun code _ => ?_) hw
    rw [h.left]
    exact h.run (happ.install code owner node directive) w hw
  | newBinding node kind expression => exact hm.addBinding _
  | teardownBinding id => exact Keeps.update fun w hw => hm.teardownBinding w id hw
  | hold refs => exact hfringes fun w => (World.margin_held w _).fringe
  | release refs => exact hfringes fun w => (World.margin_held w _).fringe
  | _ => exact Rereads.fulfil (peruses_unwritten application start) h.toRereads hbinds

theorem follow {program : Program Code Memory α} {seen : Option (World Code Memory)}
    (hprogram : program.Makes (fun request _ => request.Binds) seen) :
    Keeps start.Unwritten (follow c program) (follow c program) := by
  induction program generalizing seen with
  | done result => exact Keeps.pure result
  | fail error => exact Keeps.throw error
  | look next inductionHypothesis => exact fun w hw => inductionHypothesis w (hprogram w) w hw
  | ask request next inductionHypothesis =>
    intro w hw
    have hbinds : request.Binds := hprogram.1 (seen.getD w) fun v hv => by rw [hv, Option.getD_some]
    refine (h.fulfil happ hbinds).attempt.bind (fun answer => ?_) w hw
    exact inductionHypothesis answer (hprogram.2 answer)

end Rebinds

/-- However deep the engine is entered again, binding writes no property. -/
theorem rebinds_reentry (happ : application.Binds) (start : World Code Memory) (depth : Nat) :
    Rebinds application start (reentry application depth) := by
  induction depth with
  | zero => exact ⟨⟨rfl, rfl, fun _ _ => Keeps.exhausted _⟩, fun _ => Keeps.exhausted _⟩
  | succ depth inductionHypothesis =>
    exact ⟨rereads_reentry (peruses_unwritten application start) happ.getters (depth + 1),
      fun hprogram => inductionHypothesis.follow happ hprogram⟩

end Engine

/-! ### Refused names -/

section Names

omit [Inhabited Code]

theorem Options.checkNames_eq_ok {names : List String} {taken : String → Bool}
    {fault : String → OptionsFault} :
    checkNames names taken fault = .ok () ↔ ∀ name ∈ names, taken name = false := by
  unfold checkNames
  cases hfind : names.find? taken with
  | none =>
    simp only [true_iff]
    exact fun name hname => Bool.not_eq_true _ ▸ List.find?_eq_none.mp hfind name hname
  | some name =>
    refine iff_of_false nofun fun hfree => ?_
    have htaken := List.find?_some hfind
    rw [hfree name (List.mem_of_find?_eq_some hfind)] at htaken
    cases htaken

end Names

namespace World

variable {w w' : World Code Memory} {options options' : Options Code} {data : ObjectId}

omit [Inhabited Code] in
/-- Options are in order if their settings are, their data is an object, and no name has two meanings. -/
theorem checkOptions_eq_ok : w.checkOptions options = .ok data ↔
    options.settings.validate = .ok () ∧ options.data = .object data ∧
      (∀ name ∈ options.methods.keys ++ options.computed.keys, name ∉ (w.object data).keys) ∧
        ∀ name ∈ options.methods.keys, name ∉ options.computed.keys := by
  have hcontains : ∀ {α : Type} (e : Entries String α) name, e.contains name = false ↔ name ∉ e.keys :=
    fun e name => by rw [← Bool.not_eq_true, Entries.contains_iff_mem_keys]
  unfold checkOptions
  cases options.settings.validate with
  | error e => exact iff_of_false nofun fun h => nomatch h.1
  | ok _ =>
    cases options.data with
    | object id =>
      have hchecks : ∀ x y : Except Error Unit, (do x; y; return id) = Except.ok data ↔
          id = data ∧ x = .ok () ∧ y = .ok () := by
        rintro (_ | _) (_ | _) <;> simp [bind, Except.bind, pure, Except.pure]
      refine (hchecks _ _).trans ?_
      simp only [Options.checkNames_eq_ok, hcontains, Value.object.injEq, true_and]
      refine and_congr_right ?_
      rintro rfl
      rfl
    | _ => exact iff_of_false nofun fun h => nomatch h.2.1

theorem Furnished.keys (h : w.Furnished options data w') :
    (w'.object data).keys = (w.object data).keys ++ options.computed.keys := by
  obtain ⟨owner, added, hadded, hcomputes⟩ := h.kept
  have hnames : added.map Prod.fst = options.computed.keys := by
    unfold Entries.keys
    generalize options.computed.toList = l at hcomputes
    clear hadded h
    induction hcomputes with
    | nil => rfl
    | cons hcomputes _ inductionHypothesis =>
      obtain ⟨id, rfl, -⟩ := hcomputes
      rw [List.map_cons, inductionHypothesis, List.map_cons]
  rw [← map_fst_contents, hadded, List.map_append, map_fst_contents, hnames]

/-- Once the computed properties are there, the first of their names is refused. -/
theorem checkOptions_again (hcheck : w.checkOptions options = .ok data)
    (hfurnished : w.Furnished options data w') (hdata : options'.data = options.data)
    (hmethods : options'.methods = options.methods) (hcomputed : options'.computed = options.computed)
    (hsettings : options'.settings.validate = .ok ()) :
    w'.checkOptions options' = match options.computed.keys with
      | [] => .ok data
      | name :: _ => .error (.invalidOptions (.dataKeyTaken name)) := by
  obtain ⟨-, hobject, hfree, hdistinct⟩ := checkOptions_eq_ok.mp hcheck
  have hkeys := hfurnished.keys
  cases hnames : options.computed.keys with
  | nil =>
    rw [hnames, List.append_nil] at hkeys
    refine checkOptions_eq_ok.mpr ⟨hsettings, hdata.trans hobject, ?_, ?_⟩
    · rw [hmethods, hcomputed, hkeys]
      exact hfree
    · rw [hmethods, hcomputed]
      exact hdistinct
  | cons name rest =>
    have hcontains : ∀ other, (w'.object data).slots.contains other ↔ other ∈ (w'.object data).keys :=
      Entries.contains_iff_mem_keys _
    have hmethod : options.methods.keys.find? (w'.object data).slots.contains = none := by
      refine List.find?_eq_none.mpr fun other hother => ?_
      rw [hcontains, hkeys, List.mem_append, not_or]
      exact ⟨hfree other (List.mem_append_left _ hother), hdistinct other hother⟩
    have hfirst : (w'.object data).slots.contains name = true := by
      rw [hcontains, hkeys, hnames]
      exact List.mem_append_right _ List.mem_cons_self
    have hfind : (options.methods.keys ++ options.computed.keys).find? (w'.object data).slots.contains
        = some name := by
      rw [List.find?_append, hmethod, hnames, List.find?_cons, hfirst]
      rfl
    simp only [checkOptions, hsettings, hdata, hobject, hmethods, hcomputed, Options.checkNames, hfind]
    rfl

end World

/-! ### A view model that is not made -/

namespace Engine

section Construct

variable {options : Options Code} {data : ObjectId} {w : World Code Memory}

theorem construct_refused (c : Reentry Code Memory) {error : Error}
    (h : w.checkOptions options = .error error) : construct c options w = some (.error error, w) := by
  change Option.map _ ((ofExcept (w.checkOptions options) >>= fun _ => _ : Engine Code Memory _) _) = _
  rw [h]
  rfl

/-- Without a target there is nothing that can fail once the options are in order. -/
theorem construct_untargeted (c : Reentry Code Memory) (h : w.checkOptions options = .ok data)
    (htarget : options.target = none) : ∃ owner w', construct c options w = some (.ok owner, w') := by
  change ∃ _ _, Option.map _ ((ofExcept (w.checkOptions options) >>= fun _ => _ : Engine Code Memory _) _) = _
  rw [h, htarget]
  exact ⟨_, _, rfl⟩

theorem construct_targeted (c : Reentry Code Memory) (h : w.checkOptions options = .ok data)
    {target : Target} (htarget : options.target = some target) :
    let made := World.assemble { w with held := options.data.refs ++ w.held } options data
    construct c options w = (mount c made.1 target made.2).map fun (r, v) =>
      (r.map fun _ => made.1, { v with held := w.held }) := by
  intro made
  change Option.map _ ((ofExcept (w.checkOptions options) >>= fun _ => _ : Engine Code Memory _) _) = _
  rw [h, htarget]
  let answer : Nat → Engine Code Memory ViewModelId := fun _ => pure made.1
  change Option.map _ ((mount c made.1 target made.2).bind fun p => ExceptT.bindCont answer p.1 p.2) = _
  cases mount c made.1 target made.2 with
  | none => rfl
  | some outcome =>
    obtain ⟨r, v⟩ := outcome
    cases r with
    | ok count => rfl
    | error error => rfl

end Construct

/-- What is left behind when a view model is not made. If its options are refused, then nothing has changed.
If it is not mounted, then its data has its computed properties, and if there are any it is not possible to
make it once more. -/
structure Setback (c : Reentry Code Memory) (options : Options Code) (error : Error)
    (w w' : World Code Memory) : Prop where
  refused {fault : Error} : w.checkOptions options = .error fault → error = fault ∧ w' = w
  unmounted {data : ObjectId} : w.checkOptions options = .ok data →
    options.target.isSome ∧ w.Furnished options data w'
  /-- Once its cause is gone, a failure is made good, unless computed properties were left behind. -/
  again {options' : Options Code} {data : ObjectId} : options'.data = options.data →
    options'.methods = options.methods → options'.computed = options.computed →
    options'.target = none → w.checkOptions options' = .ok data →
    (∀ data, w.checkOptions options = .ok data → options.computed.keys = []) →
      ∃ owner w'', construct c options' w' = some (.ok owner, w'')
  /-- The computed properties that were left behind stand in the way. -/
  stuck {options' : Options Code} {data : ObjectId} {name : String} {rest : List String} :
    options'.data = options.data → options'.methods = options.methods →
    options'.computed = options.computed → options'.settings.validate = .ok () →
    w.checkOptions options = .ok data → options.computed.keys = name :: rest →
      construct c options' w' = some (.error (.invalidOptions (.dataKeyTaken name)), w')

/--
A view model that is not made leaves its data usable. If options are refused, nothing has changed. If the
target is not found or the tree does not compile, and getters only read and installers bind, then every key
of the data keeps its place and what it holds, and the computed properties come after them. So the view
model can be made once the cause of the failure is gone, unless the names of computed properties are taken.
-/
theorem construct_setback {application : Application Code Memory} (happ : application.Binds)
    {options : Options Code} {w w' : World Code Memory}
    (hmade : ∀ data, options.data = .object data → data.index < w.objects.size) {depth : Nat}
    {error : Error} (hrun : construct (reentry application depth) options w = some (.error error, w')) :
    Setback (reentry application depth) options error w w' := by
  cases hcheck : w.checkOptions options with
  | error fault =>
    have hsame : error = fault ∧ w' = w := by
      rw [construct_refused _ hcheck] at hrun
      cases hrun
      exact ⟨rfl, rfl⟩
    refine {
      refused := fun h => ?_
      unmounted := fun h => ?_
      again := fun _ _ _ htarget h _ => hsame.2 ▸ construct_untargeted _ h htarget
      stuck := fun _ _ _ _ h => ?_ }
    · exact Except.error.inj (hcheck.symm.trans h) ▸ hsame
    · cases hcheck.symm.trans h
    · cases hcheck.symm.trans h
  | ok data =>
    obtain ⟨-, hobject, hfree, -⟩ := World.checkOptions_eq_ok.mp hcheck
    obtain ⟨target, htarget⟩ : ∃ target, options.target = some target := by
      cases htarget : options.target with
      | some target => exact ⟨target, rfl⟩
      | none =>
        obtain ⟨owner, v, hrun'⟩ := construct_untargeted (reentry application depth) hcheck htarget
        cases hrun.symm.trans hrun'
    have hfurnished : w.Furnished options data w' := by
      rw [construct_targeted _ hcheck htarget, Option.map_eq_some_iff] at hrun
      obtain ⟨⟨r, v⟩, hmount, hv⟩ := hrun
      obtain rfl := (Prod.mk.inj hv).2
      let waiting : World Code Memory := { w with held := options.data.refs ++ w.held }
      have hassembled : waiting.Furnished options data (waiting.assemble options data).2 :=
        World.furnished_assemble (hmade data hobject)
          fun named hnamed => hfree named.1 (List.mem_append_right _ (List.mem_map_of_mem hnamed))
      have hunwritten := ((((rebinds_reentry happ _ depth).mounting happ).walking.mount _ target) _
        (World.Unwritten.refl _) _ _ hmount).2
      have hmounted := hassembled.grows hunwritten.toGrows fun id => World.contents_congr (hunwritten.slots id)
      exact ⟨hmounted.kept, hmounted.others⟩
    refine {
      refused := fun h => ?_
      unmounted := fun h => ?_
      again := fun hdata hmethods hcomputed htarget' h hnone => ?_
      stuck := fun hdata hmethods hcomputed hsettings h hnames => ?_ }
    · cases hcheck.symm.trans h
    · obtain rfl := Except.ok.inj (hcheck.symm.trans h)
      exact ⟨Option.isSome_iff_exists.mpr ⟨target, htarget⟩, hfurnished⟩
    · have hcheck' := World.checkOptions_again hcheck hfurnished hdata hmethods hcomputed
        (World.checkOptions_eq_ok.mp h).1
      rw [hnone data hcheck] at hcheck'
      exact construct_untargeted _ hcheck' htarget'
    · refine construct_refused _ ?_
      rw [World.checkOptions_again hcheck hfurnished hdata hmethods hcomputed hsettings, hnames]

end Engine

/-! ### A target that is not there -/

/-- An object with one key, and a tree with a paragraph that shows `c` and one that shows nothing. -/
def World.seed : World Unit Unit where
  objects := ⟨#[{ slots := .ofList [("a", .field (.string "x") none)] }]⟩
  nodes := ⟨#[.element { tag := "div", children := [⟨1⟩, ⟨2⟩] },
    .element { tag := "p", attributes := .ofList [("v-text", "c")] },
    .element { tag := "p", attributes := .ofList [("v-text", "")] }]⟩
  memory := ()

/-- A computed property `c` of the object. -/
def Options.derived (target : Option Target) : Options Unit :=
  { data := .object ⟨0⟩, computed := .ofList [("c", ())], target }

/-- An embedder whose getters write. -/
def Application.meddler : Application Unit Unit :=
  { Application.idle with
    getter := fun _ _ => do
      Program.request (.set ⟨0⟩ "a" (.string "y"))
      return .undefined }

/-- The text that a key holds. -/
def World.textAt (w : World Code Memory) (object : ObjectId) (key : String) : Option String :=
  match (w.object object).slot? key with
  | some (.field (.string text) _) => some text
  | _ => none

/-- A view model whose target is not found leaves its computed property behind, which stands in the way when
it is to be made again. What getters write while the tree is compiled stays, too. -/
theorem Engine.construct_not_undone :
    (∃ w' fault, construct (reentry Application.idle 1) (.derived (some (.selector "#nope"))) World.seed
        = some (.error (.targetNotFound "#nope"), w') ∧
      (World.seed.object ⟨0⟩).keys = ["a"] ∧ (w'.object ⟨0⟩).keys = ["a", "c"] ∧
      construct (reentry Application.idle 1) (.derived none) w' = some (.error fault, w')) ∧
    World.seed.textAt ⟨0⟩ "a" = some "x" ∧
    (construct (reentry Application.meddler 4) (.derived (some (.node ⟨0⟩))) World.seed).map
      (fun (r, w') => (r.toBool, w'.textAt ⟨0⟩ "a")) = some (false, some "y") :=
  ⟨⟨_, _, rfl, rfl, rfl, rfl⟩, rfl, by decide +kernel⟩

theorem Application.binds_idle : (idle : Application Unit Memory).Binds where
  getters _ _ := .done _
  install _ _ _ _ := trivial

theorem Engine.construct_setback_seed :
    (Application.idle : Application Unit Unit).Binds ∧
      ∃ error w', construct (reentry Application.idle 1) (.derived (some (.selector "#nope"))) World.seed
          = some (.error error, w') ∧
        Setback (reentry Application.idle 1) (.derived (some (.selector "#nope"))) error World.seed w' := by
  refine ⟨Application.binds_idle, _, _, rfl, construct_setback Application.binds_idle ?_ rfl⟩
  rintro data hdata
  cases hdata
  decide

end ViewBinding
