import ViewBinding.Proofs.Accounts

/-!
# What binding an element puts on it

Carrying out a directive that acts on an event puts one listener on the element, which belongs to the binding that
was made. So a pass over an element adds a listener for every directive of this sort that did not fail, in the order
of the attributes, whether the element is recorded then or not.
-/

namespace ViewBinding

open Engine

variable {Code Memory : Type} [Inhabited Code]

/-- The listener for an event that a directive puts on its element, if it has one for it. -/
def Directive.hook? (directive : Directive) (owner : ViewModelId) (event : String) (b : BindingId) :
    Option (Listener Code) :=
  match directive.kind with
  | .model =>
    if event = "input" then (Path.parse directive.expression).toOption.map fun path => .writeBack owner b path else none
  | .on => if directive.argument = some event then some (.invoke owner b directive.expression) else none
  | .html | .text => none

/-- A directive for a form value has a path to write to. -/
def Directive.HasPath (directive : Directive) : Prop :=
  directive.kind = .model → ∃ path, Path.parse directive.expression = .ok path

/-- The listeners for an event that directives put on their element, in order. -/
def hooksFor (owner : ViewModelId) (event : String) (made : List (Directive × BindingId)) : List (Listener Code) :=
  made.filterMap fun p => p.1.hook? owner event p.2

/-- The directives among attributes, in order. -/
def directivesOf (mark : String) (attributes : List (String × String)) : List Directive :=
  attributes.filterMap fun p => (Directive.parse p.1 p.2 mark).toOption.join

/-- The view model and the binding that a listener belongs to, if it is not the embedder's. -/
def Listener.host? : Listener Code → Option (ViewModelId × BindingId)
  | .writeBack owner b _ => some (owner, b)
  | .invoke owner b _ => some (owner, b)
  | .run _ => none

namespace World

/-- The directives of a node, as a view model reads its attributes. -/
def directives (w : World Code Memory) (owner : ViewModelId) (n : NodeId) : List Directive :=
  directivesOf (w.viewModel owner).settings.mark (w.node n).attributes

end World

omit [Inhabited Code] in
/-- A listener that a directive has put on its element belongs to the binding. -/
theorem Directive.host?_of_hook? {directive : Directive} {owner : ViewModelId} {event : String} {b : BindingId}
    {listener : Listener Code} (h : directive.hook? owner event b = some listener) :
    listener.host? = some (owner, b) := by
  unfold Directive.hook? at h
  split at h
  · split at h
    · obtain ⟨path, -, rfl⟩ := Option.map_eq_some_iff.mp h
      rfl
    · cases h
  · split at h
    · cases h
      rfl
    · cases h
  · cases h
  · cases h

theorem directivesOf_plain {mark name value : String} {rest : List (String × String)}
    (h : Directive.parse name value mark = .ok none) :
    directivesOf mark ((name, value) :: rest) = directivesOf mark rest := by
  rw [directivesOf, List.filterMap_cons, h]
  rfl

theorem directivesOf_made {mark name value : String} {rest : List (String × String)} {directive : Directive}
    (h : Directive.parse name value mark = .ok (some directive)) :
    directivesOf mark ((name, value) :: rest) = directive :: directivesOf mark rest := by
  rw [directivesOf, List.filterMap_cons, h]
  rfl

omit [Inhabited Code] in
theorem hooksFor_cons (owner : ViewModelId) (event : String) (directive : Directive) (b : BindingId)
    (made : List (Directive × BindingId)) :
    (hooksFor owner event ((directive, b) :: made) : List (Listener Code))
      = (directive.hook? owner event b).toList ++ hooksFor owner event made := by
  rw [hooksFor, List.filterMap_cons]
  cases (directive.hook? owner event b : Option (Listener Code)) <;> rfl

omit [Inhabited Code] in
theorem mem_hooksFor {owner : ViewModelId} {event : String} {ds : List Directive} {bs : List BindingId}
    {listener : Listener Code} (h : listener ∈ hooksFor owner event (ds.zip bs)) :
    ∃ b ∈ bs, listener.host? = some (owner, b) := by
  obtain ⟨⟨directive, b⟩, hmem, hhook⟩ := List.mem_filterMap.mp h
  exact ⟨b, (List.of_mem_zip hmem).2, Directive.host?_of_hook? hhook⟩

omit [Inhabited Code] in
/-- A listener of a binding comes after those that the element has for the event. -/
theorem Node.hooks_addListener {node : Node Code} (helement : node.isElement = true) (event other : String)
    {listener : Listener Code} (hhost : listener.host?.isSome = true) :
    (node.addListener event listener).hooks other = node.hooks other ++ if other = event then [listener] else [] := by
  cases node with
  | text content => cases helement
  | element e =>
    by_cases h : other = event
    · subst h
      cases listener with
      | run code => cases hhost
      | writeBack owner b path => simp [Node.hooks, Node.addListener, Node.listeners, List.filter_append]
      | invoke owner b method => simp [Node.hooks, Node.addListener, Node.listeners, List.filter_append]
    · simp [h, Node.hooks, Node.addListener, Node.listeners, Entries.find?_put_of_ne _ _ h]

namespace World

/-- The watchers are in order, and a node is an element with the hooks given. -/
structure Hung (n : NodeId) (hooks : String → List (Listener Code)) (w : World Code Memory) : Prop where
  staffed : w.Staffed
  element : (w.node n).isElement = true
  hooks : ∀ event, (w.node n).hooks event = hooks event

variable {application : Application Code Memory} {n : NodeId} {hooks : String → List (Listener Code)}
  {w w' : World Code Memory}

omit [Inhabited Code] in
theorem lasts_hung (application : Application Code Memory) (n : NodeId) (hooks : String → List (Listener Code)) :
    Lasts application (Hung n hooks : World Code Memory → Prop) where
  staffed h := h.staffed
  noting hw _ h := {
    staffed := hw.staffed h.staffed
    element := (hw.isElement n (index_lt_of_isElement h.element)).trans h.element
    hooks := fun event => (hw.hooks n event).trans (h.hooks event) }

omit [Inhabited Code] in
theorem Hung.congr {others : String → List (Listener Code)} (h : w.Hung n hooks)
    (hsame : ∀ event, others event = hooks event) : w.Hung n others :=
  ⟨h.staffed, h.element, fun event => (h.hooks event).trans (hsame event).symm⟩

omit [Inhabited Code] in
/-- The bindings have nothing to do with it. -/
theorem Hung.mapBinding (h : w.Hung n hooks) (b : BindingId) (f : Binding → Binding) : (w.mapBinding b f).Hung n hooks :=
  ⟨h.staffed.congr rfl rfl rfl fun _ => Or.inl rfl, h.element, h.hooks⟩

omit [Inhabited Code] in
theorem Hung.held (h : w.Hung n hooks) (held : List Ref) : World.Hung n hooks { w with held } :=
  ⟨h.staffed.congr rfl rfl rfl fun _ => Or.inl rfl, h.element, h.hooks⟩

omit [Inhabited Code] in
theorem Hung.addListener (h : w.Hung n hooks) (event : String) (listener : Listener Code)
    (hhost : listener.host?.isSome = true) :
    (w.mapNode n (·.addListener event listener)).Hung n fun other =>
      hooks other ++ if other = event then [listener] else [] := by
  have hnode : (w.mapNode n (·.addListener event listener)).node n = (w.node n).addListener event listener := by
    rw [node, mapNode, Table.get_modify, if_pos rfl, node]
  refine ⟨h.staffed.congr rfl rfl rfl fun _ => Or.inl rfl, ?_, fun other => ?_⟩
  · have hisElement : ((w.node n).addListener event listener).isElement = (w.node n).isElement := by
      cases w.node n <;> rfl
    rw [hnode, hisElement, h.element]
  · rw [hnode, Node.hooks_addListener h.element event other hhost, h.hooks]

/-- How carrying out a directive may end: with its listener on the element, or with nothing new there. -/
inductive Hooks (directive : Directive) (owner : ViewModelId) (n : NodeId) (hooks : String → List (Listener Code)) :
    Except Error BindingId → World Code Memory → Prop
  | made {b : BindingId} {w : World Code Memory} (hpath : directive.HasPath)
      (hw : w.Hung n fun event => hooks event ++ (directive.hook? owner event b).toList) :
      Hooks directive owner n hooks (.ok b) w
  | failed {e : Error} {w : World Code Memory} (hw : w.Hung n hooks) : Hooks directive owner n hooks (.error e) w

/-- How carrying out an attribute may end that was read as `parsed`. -/
inductive Hangs (parsed : Except Error (Option Directive)) (owner : ViewModelId) (n : NodeId)
    (hooks : String → List (Listener Code)) : Except Error (Option BindingId) → World Code Memory → Prop
  | plain {w : World Code Memory} (hparse : parsed = .ok none) (hw : w.Hung n hooks) :
      Hangs parsed owner n hooks (.ok none) w
  | made {directive : Directive} {b : BindingId} {w : World Code Memory} (hparse : parsed = .ok (some directive))
      (hpath : directive.HasPath)
      (hw : w.Hung n fun event => hooks event ++ (directive.hook? owner event b).toList) :
      Hangs parsed owner n hooks (.ok (some b)) w
  | failed {e : Error} {w : World Code Memory} (hw : w.Hung n hooks) : Hangs parsed owner n hooks (.error e) w

/-- How carrying out attributes ends: the element gets the listeners of the bindings that were made, which belong to
all directives among the attributes if nothing failed. -/
inductive HangsAll (mark : String) (attributes : List (String × String)) (owner : ViewModelId) (n : NodeId)
    (hooks : String → List (Listener Code)) : Except Error (List BindingId × List Error) → World Code Memory → Prop
  | done {ds : List Directive} {bs : List BindingId} {errors : List Error} {w : World Code Memory}
      (hlength : ds.length = bs.length) (hpath : ∀ directive ∈ ds, directive.HasPath)
      (hall : errors = [] → ds = directivesOf mark attributes)
      (hw : w.Hung n fun event => hooks event ++ hooksFor owner event (ds.zip bs)) :
      HangsAll mark attributes owner n hooks (.ok (bs, errors)) w

/-- What a visit by a view model puts on an element. -/
inductive Strung (owner : ViewModelId) (n : NodeId) (w w' : World Code Memory) : Prop
  /-- The element was bound before. -/
  | kept (hbound : w.isBound owner n = true) (hrecorded : w'.bindingsOf owner n = w.bindingsOf owner n)
      (hhooks : ∀ event, (w'.node n).hooks event = (w.node n).hooks event)
  /-- Every directive has put its listener on the element, and their bindings are recorded and active. -/
  | bound {bs : List BindingId} (hunbound : w.isBound owner n = false)
      (hlength : (w.directives owner n).length = bs.length)
      (hpath : ∀ directive ∈ w.directives owner n, directive.HasPath) (hrecorded : w'.bindingsOf owner n = bs)
      (hmade : ∀ b ∈ bs, w.MadeSince w' b) (hactive : ∀ b ∈ bs, (w'.binding b).active = true)
      (hhooks : ∀ event, (w'.node n).hooks event
        = (w.node n).hooks event ++ hooksFor owner event ((w.directives owner n).zip bs))
  /-- Some directives have put listeners on the element, and none of their bindings is active. -/
  | refused {ds : List Directive} {bs : List BindingId} (hunbound : w.isBound owner n = false)
      (hrecorded : w'.isBound owner n = false) (hmade : ∀ b ∈ bs, w.MadeSince w' b)
      (hinactive : ∀ b ∈ bs, (w'.binding b).active = false)
      (hhooks : ∀ event, (w'.node n).hooks event = (w.node n).hooks event ++ hooksFor owner event (ds.zip bs))

theorem Attempted.ties {holds : Memory → List Ref} {owner : ViewModelId} {parsed : Except Error (Option Directive)}
    {r : Except Error (Option BindingId)} (h : Attempted holds owner n parsed w r w') :
    Ties holds owner (· = n) w w' := by
  cases h with
  | plain _ => exact .refl w
  | made _ hties _ _ => exact hties
  | failed _ hties _ _ => exact hties

end World

namespace Engine

variable {application : Application Code Memory} {c : Reentry Code Memory} {owner : ViewModelId} {n : NodeId}
  {hooks : String → List (Listener Code)} {w : World Code Memory}

variable (h : Abreast application c c)

include h

/-! ### One directive -/

theorem keeps_hung_watchFor (b : BindingId) (path : Path) (reaction : Reaction Code) :
    Keeps (World.Hung n hooks) (watchFor c owner b path reaction) (watchFor c owner b path reaction) := by
  have hwatchOn : Keeps (World.Hung n hooks) (watchOn c owner path reaction) (watchOn c owner path reaction) :=
    (Keeps.inspect _).bind fun vm => h.watch (World.lasts_hung application n hooks) vm.tracker _ path reaction
  refine hwatchOn.bind fun watcher => Keeps.bind (Keeps.update fun w hw => ?_) fun _ => Keeps.pure watcher
  exact hw.mapBinding b _

theorem keeps_hung_installRender (kind : DirectiveKind) (updater : Updater) (path : Path) :
    Keeps (World.Hung n hooks) (installRender c owner n kind updater path)
      (installRender c owner n kind updater path) := by
  have hlasts := World.lasts_hung application n hooks
  refine Keeps.bind (Keeps.create fun w hw => hlasts.bystands (World.bystands_addBinding w rfl) rfl hw) fun b => ?_
  refine Keeps.keeping (fun _ held hw => hw.held held) _ ((keeps_hung_watchFor h b path _).bind fun watcher => ?_)
  exact Keeps.bind (Keeps.update fun w hw => hlasts.margin (World.margin_display w updater n _) hw) fun _ => Keeps.pure b

/-- The listener of a form value writes back what is put in. -/
theorem hung_installModel {directive : Directive} (hkind : directive.kind = .model) (hw : w.Hung n hooks) :
    Ends w (installModel c owner n directive) (installModel c owner n directive)
      (World.Hooks directive owner n hooks) := by
  refine (ends_ofExcept_bind _).mpr ?_
  cases hparse : Path.parse directive.expression with
  | error e => exact .failed hw
  | ok path =>
    refine (keeps_hung_installRender h .model .value path w hw).bind (fun b v hv => ?_) fun e v hv => .failed hv
    rw [ends_update_bind, ends_pure]
    have hadded := hv.addListener "input" (.writeBack owner b path) rfl
    refine .made (fun _ => ⟨path, hparse⟩) ⟨hadded.staffed, hadded.element, fun event => ?_⟩
    rw [hadded.hooks, Directive.hook?, hkind, hparse]
    split <;> rfl

/-- The listener of an event calls a method. -/
theorem hung_installOn {directive : Directive} (hkind : directive.kind = .on) (hw : w.Hung n hooks) :
    Ends w (installOn c owner n directive) (installOn c owner n directive) (World.Hooks directive owner n hooks) := by
  have hlasts : World.Lasts application (World.Hung n hooks) := World.lasts_hung application n hooks
  unfold installOn
  cases hargument : directive.argument with
  | none => exact (ends_throw _).mpr (.failed hw)
  | some event =>
    refine (ends_inspect_bind _).mpr ?_
    refine ((h.perusal hlasts).get _ directive.expression none w hw).bind (fun value v hv => ?_) fun e v hv => .failed hv
    cases value with
    | function id name =>
      simp only
      rw [ends_create_bind, ends_update_bind, ends_pure]
      have hbinding : (v.addBinding { node := n, kind := .on, expression := directive.expression }).2.Hung n hooks :=
        hlasts.bystands (World.bystands_addBinding v rfl) rfl hv
      have hadded := hbinding.addListener event (.invoke owner v.bindings.fresh directive.expression) rfl
      have hpath : directive.HasPath := fun hmodel => by cases hkind.symm.trans hmodel
      refine .made hpath ⟨hadded.staffed, hadded.element, fun other => ?_⟩
      refine (hadded.hooks other).trans ?_
      rw [Directive.hook?, hkind, hargument]
      by_cases hother : other = event
      · rw [if_pos hother, if_pos (congrArg some hother.symm)]
        rfl
      · rw [if_neg hother, if_neg fun heq => hother (Option.some.inj heq).symm]
        rfl
    | _ => exact (ends_throw _).mpr (.failed hv)

/-- Carrying out a directive puts its listener on the element if it makes a binding, and nothing otherwise. -/
theorem hung_install {installer : Installer Code} {directive : Directive}
    (hinstaller : Registry.standard.find? directive.kind = some installer) (hw : w.Hung n hooks) :
    Ends w (install c installer owner n directive) (install c installer owner n directive)
      (World.Hooks directive owner n hooks) := by
  have hrender : ∀ kind updater, directive.kind ≠ .model →
      (∀ event b, (directive.hook? owner event b : Option (Listener Code)) = none) →
      Ends w (ofExcept (Path.parse directive.expression) >>= fun path => installRender c owner n kind updater path)
        (ofExcept (Path.parse directive.expression) >>= fun path => installRender c owner n kind updater path)
        (World.Hooks directive owner n hooks) := by
    intro kind updater hmodel hnone
    refine (ends_ofExcept_bind _).mpr ?_
    cases Path.parse directive.expression with
    | error e => exact .failed hw
    | ok path =>
      refine (keeps_hung_installRender h kind updater path w hw).mono fun r v hv => ?_
      cases r with
      | ok b =>
        refine .made (fun heq => absurd heq hmodel) ⟨hv.staffed, hv.element, fun event => ?_⟩
        rw [hnone, hv.hooks, Option.toList_none, List.append_nil]
      | error e => exact .failed hv
  cases hkind : directive.kind with
  | model =>
    rw [hkind] at hinstaller
    cases hinstaller
    exact hung_installModel h hkind hw
  | on =>
    rw [hkind] at hinstaller
    cases hinstaller
    exact hung_installOn h hkind hw
  | html =>
    rw [hkind] at hinstaller
    cases hinstaller
    rw [install, hkind]
    exact hrender .html .html (by rw [hkind]; decide) fun event b => by rw [Directive.hook?, hkind]
  | text =>
    rw [hkind] at hinstaller
    cases hinstaller
    rw [install, hkind]
    exact hrender .text .text (by rw [hkind]; decide) fun event b => by rw [Directive.hook?, hkind]

/-! ### All attributes -/

/-- Carrying out an attribute puts on the element what its directive makes. -/
theorem hung_installAttribute (owner : ViewModelId) (name value : String) (hw : w.Hung n hooks) :
    Ends w (installAttribute c owner n name value) (installAttribute c owner n name value)
      (World.Hangs (Directive.parse name value (w.viewModel owner).settings.mark) owner n hooks) := by
  unfold installAttribute
  rw [ends_inspect_bind]
  refine (ends_ofExcept_bind _).mpr ?_
  cases Directive.parse name value (w.viewModel owner).settings.mark with
  | error e => exact .failed hw
  | ok directive? =>
    cases directive? with
    | none => exact (ends_pure none).mpr (.plain rfl hw)
    | some directive =>
      simp only
      cases hfind : (w.viewModel owner).registry.find? directive.kind with
      | none => exact (ends_throw _).mpr (.failed hw)
      | some installer =>
        have hinstaller := hw.staffed.installers owner _ _ hfind
        refine (hung_install h hinstaller hw).bind (fun b v hv => ?_) fun e v hv => ?_
        · cases hv with
          | made hpath hv => exact (ends_pure _).mpr (.made rfl hpath hv)
        · cases hv with
          | failed hv => exact .failed hv

/-- Carrying out attributes puts on the element what the directives among them make that do not fail. -/
theorem hung_installAttributes {origin : World Code Memory} (attributes : List (String × String))
    (hready : origin.Ready w) (hw : w.Hung n hooks) :
    Ends w (installAttributes c owner n attributes) (installAttributes c owner n attributes)
      (World.HangsAll (origin.viewModel owner).settings.mark attributes owner n hooks) := by
  have hinstallers : ∀ kind installer, (origin.viewModel owner).registry.find? kind = some installer →
      Registry.standard.find? kind = some installer := fun kind installer hfind =>
    hw.staffed.installers owner kind installer (hready.kin.registry owner ▸ hfind)
  -- a directive that is carried out adds to the hooks that the remaining attributes start from
  induction attributes generalizing w hooks with
  | nil =>
    refine (ends_pure _).mpr (.done rfl (fun _ h => absurd h List.not_mem_nil) (fun _ => rfl) ?_)
    exact hw.congr fun _ => List.append_nil _
  | cons pair rest inductionHypothesis =>
    obtain ⟨name, value⟩ := pair
    rw [installAttributes]
    have hattribute := hung_installAttribute h owner name value hw
    rw [hready.kin.settings owner] at hattribute
    refine Ends.attempt_bind (hattribute.and
      (achieves_installAttribute (h.relies origin) hready hinstallers name value).ends) fun r v hr => ?_
    obtain ⟨hhangs, hattempted⟩ := hr
    have hready' := hattempted.ties.ready hready
    cases hhangs with
    | plain hparse hv =>
      refine (inductionHypothesis hready' hv).mono fun r v' hr => ?_
      obtain ⟨hlength, hpaths, hall, hv'⟩ := hr
      exact .done hlength hpaths (fun herrors => (hall herrors).trans (directivesOf_plain hparse).symm) hv'
    | @made directive b _ hparse hpath hv =>
      have hrest := Ends.keeping [.binding b] (inductionHypothesis (hready'.holding _) (hv.held _))
        (Q := World.HangsAll (origin.viewModel owner).settings.mark rest owner n fun event =>
          hooks event ++ (directive.hook? owner event b).toList) fun r v' hr => ?_
      · refine hrest.bind (fun result v' hr => ?_) fun e v' hr => ?_
        · cases hr with
          | @done ds bs errors _ hlength hpaths hall hv' =>
            have hlength' : (directive :: ds).length = (b :: bs).length := congrArg Nat.succ hlength
            have hpaths' := List.forall_mem_cons.mpr ⟨hpath, hpaths⟩
            refine (ends_pure _).mpr (.done hlength' hpaths' (fun herrors => ?_) (hv'.congr fun event => ?_))
            · rw [directivesOf_made hparse, ← hall herrors]
            · rw [List.zip_cons_cons, hooksFor_cons, List.append_assoc]
        · cases hr
      · obtain ⟨hlength, hpaths, hall, hv'⟩ := hr
        exact .done hlength hpaths hall (hv'.held _)
    | failed hv =>
      rw [ends_inspect_bind]
      refine (inductionHypothesis hready' hv).bind (fun result v' hr => ?_) fun e v' hr => ?_
      · obtain ⟨hlength, hpaths, hall, hv'⟩ := hr
        exact (ends_pure _).mpr (.done hlength hpaths (fun herrors => absurd herrors (List.cons_ne_nil _ _)) hv')
      · cases hr

/-- A visit puts the listeners of all directives on an element, for bindings that are recorded, or it leaves none there
that belongs to an active binding. -/
theorem strung_compileElement (hstaffed : w.Staffed) (helement : (w.node n).isElement = true) :
    Ends w (compileElement c owner n) (compileElement c owner n) fun _ w' => World.Strung owner n w w' := by
  have hn := World.index_lt_of_isElement helement
  unfold compileElement
  rw [ends_inspect_bind]
  cases hbound : w.isBound owner n with
  | true => exact (ends_pure _).mpr (.kept hbound rfl fun _ => rfl)
  | false =>
    simp only [Bool.false_eq_true, if_false]
    rw [ends_inspect_bind]
    have hself : w.Hung n fun event => (w.node n).hooks event := ⟨hstaffed, helement, fun _ => rfl⟩
    refine ((hung_installAttributes h _ hstaffed.ready hself).and
      (achieves_installAttributes (h.relies w) (hstaffed.installers owner) _ hstaffed.ready hn).ends).bind ?_ ?_
    · rintro ⟨bs, errors⟩ v ⟨hhangs, _, fs, hr, hcarries⟩
      cases hr
      cases hhangs with
      | @done ds _ _ _ hlength hpaths hall hv =>
        simp only [List.isEmpty_iff]
        split
        · next herrors =>
          rw [ends_update_bind, ends_pure]
          obtain rfl : ds = w.directives owner n := hall herrors
          have hrecorded : (v.record owner n bs).bindingsOf owner n = bs := by
            rw [World.bindingsOf_record, if_pos rfl, World.bindingsOf, World.viewModel, hcarries.viewModels]
            exact congrArg (· ++ bs) (World.bindingsOf_of_not_isBound hbound)
          rw [World.record_eq] at hrecorded ⊢
          exact .bound hbound hlength hpaths hrecorded hcarries.fresh hcarries.active hv.hooks
        · rw [ends_update_bind, ends_pure]
          have hdown := World.dismisses_teardownBindings bs v
          have hrecorded : (bs.foldl World.teardownBinding v).isBound owner n = false := by
            rw [World.isBound, World.viewModel, hdown.viewModels, hcarries.viewModels]
            exact hbound
          have hinactive : ∀ b ∈ bs, ((bs.foldl World.teardownBinding v).binding b).active = false := by
            intro b hb
            rw [hdown.binding, if_pos hb]
          have hhooks : ∀ event, ((bs.foldl World.teardownBinding v).node n).hooks event
              = (w.node n).hooks event ++ hooksFor owner event (ds.zip bs) := by
            intro event
            rw [World.node, hdown.nodes]
            exact hv.hooks event
          refine .refused hbound hrecorded (fun b hb => ?_) hinactive hhooks
          exact ⟨(hcarries.fresh b hb).1, Nat.lt_of_lt_of_le (hcarries.fresh b hb).2 hdown.bindings⟩
    · rintro e v ⟨hhangs, -⟩
      cases hhangs

end Engine

end ViewBinding
