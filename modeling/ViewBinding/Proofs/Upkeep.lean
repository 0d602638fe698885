import ViewBinding.Proofs.Frame
import ViewBinding.Proofs.Moments

/-!
# What every operation keeps

Installing, compiling, mounting and calling are made of a few steps: reading a property, making a
watcher, running a program of the embedder, and changes to the tree and the bindings. A property of
worlds that these steps keep is kept by the operations.
-/

namespace ViewBinding

variable {Code Memory : Type} [Inhabited Code]

/-- A view model without what it has done so far. -/
def ViewModel.face (vm : ViewModel Code) : ViewModel Code :=
  { vm with bindings := {}, mounted := none }

/-- Nothing has changed but the host tree, the bindings, and what is held. -/
structure World.Fringe (w w' : World Code Memory) : Prop where
  objects : w'.objects = w.objects
  functions : w'.functions = w.functions
  arrays : w'.arrays = w.arrays
  sources : w'.sources = w.sources
  trackers : w'.trackers = w.trackers
  watchers : w'.watchers = w.watchers
  computeds : w'.computeds = w.computeds
  probes : w'.probes = w.probes
  memory : w'.memory = w.memory
  size : w.viewModels.size ≤ w'.viewModels.size
  viewModels : ∀ id, (w'.viewModel id).face = (w.viewModel id).face

namespace World

omit [Inhabited Code]

variable {w w₁ w₂ : World Code Memory}

theorem Fringe.refl (w : World Code Memory) : w.Fringe w :=
  ⟨rfl, rfl, rfl, rfl, rfl, rfl, rfl, rfl, rfl, Nat.le_refl _, fun _ => rfl⟩

theorem fringe_tree (w : World Code Memory) (nodes : Table NodeId (Node Code))
    (bindings : Table BindingId Binding) (held : List Ref) :
    w.Fringe { w with nodes, bindings, held } :=
  ⟨rfl, rfl, rfl, rfl, rfl, rfl, rfl, rfl, rfl, Nat.le_refl _, fun _ => rfl⟩

theorem fringe_setText (w : World Code Memory) (id : NodeId) (content : String) :
    w.Fringe (w.setText id content) := by
  unfold setText
  cases w.node id with
  | text _ => exact fringe_tree w _ _ _
  | element _ => exact fringe_tree w _ _ _

theorem fringe_display (w : World Code Memory) (updater : Updater) (id : NodeId) (value : Value) :
    w.Fringe (w.display updater id value) := by
  cases updater with
  | value => exact fringe_tree w _ _ _
  | html => exact fringe_tree w _ _ _
  | text => exact fringe_setText w id value.text

/-- A view model that does not change its face. -/
theorem fringe_mapViewModel (w : World Code Memory) (id : ViewModelId)
    {f : ViewModel Code → ViewModel Code} (hf : ∀ vm, (f vm).face = vm.face) :
    w.Fringe (w.mapViewModel id f) where
  objects := rfl
  functions := rfl
  arrays := rfl
  sources := rfl
  trackers := rfl
  watchers := rfl
  computeds := rfl
  probes := rfl
  memory := rfl
  size := Table.size_le_modify _ _ _
  viewModels j := by
    simp only [viewModel, mapViewModel, Table.get_modify]
    split
    · next h => rw [h, hf]
    · rfl

theorem fringe_record (w : World Code Memory) (owner : ViewModelId) (node : NodeId)
    (bindings : List BindingId) : w.Fringe (w.record owner node bindings) := by
  unfold record
  split
  · exact .refl w
  · exact fringe_mapViewModel w owner fun _ => rfl

end World

/-- What a node holds by itself: the form value of an element, the content of a text. -/
def Node.front {Code : Type} : Node Code → Value ⊕ String
  | .element e => .inl e.value
  | .text content => .inr content

/-- The nodes that there were hold what they held. -/
structure World.KeepsFronts (w w' : World Code Memory) : Prop where
  nodes : w.nodes.size ≤ w'.nodes.size
  front : ∀ n : NodeId, n.index < w.nodes.size → (w'.node n).front = (w.node n).front

namespace World

omit [Inhabited Code]

variable {w w₁ w₂ : World Code Memory}

theorem KeepsFronts.trans (h : w.KeepsFronts w₁) (h' : w₁.KeepsFronts w₂) : w.KeepsFronts w₂ where
  nodes := Nat.le_trans h.nodes h'.nodes
  front n hn := (h'.front n (Nat.lt_of_lt_of_le hn h.nodes)).trans (h.front n hn)

theorem keepsFronts_of_eq (h : w₁.nodes = w.nodes) : w.KeepsFronts w₁ where
  nodes := Nat.le_of_eq (congrArg Table.size h.symm)
  front n _ := by rw [node, h, node]

theorem keepsFronts_mapNode (w : World Code Memory) (id : NodeId) {f : Node Code → Node Code}
    (hf : ∀ x, (f x).front = x.front) : w.KeepsFronts (w.mapNode id f) where
  nodes := Table.size_le_modify _ _ _
  front n _ := by
    rw [node, mapNode, Table.get_modify]
    split
    · next h => rw [hf, h, node]
    · rfl

theorem keepsFronts_addNode (w : World Code Memory) (x : Node Code) : w.KeepsFronts (w.addNode x).2 where
  nodes := Nat.le_of_lt (Nat.lt_of_lt_of_eq (Nat.lt_succ_self _) (Table.size_add w.nodes x).symm)
  front n hn := by
    refine congrArg Node.front (Table.get_add_of_ne _ _ ?_)
    rintro rfl
    exact Nat.lt_irrefl _ hn

theorem keepsFronts_setChildren (w : World Code Memory) (id : NodeId) (children : List NodeId) :
    w.KeepsFronts (w.mapNode id (·.setChildren children)) :=
  keepsFronts_mapNode w id fun x => by cases x <;> rfl

theorem keepsFronts_appendChildren (w : World Code Memory) (id : NodeId) (children : List NodeId) :
    w.KeepsFronts (w.appendChildren id children) :=
  keepsFronts_mapNode w id fun x => by cases x <;> rfl

theorem keepsFronts_addListener (w : World Code Memory) (id : NodeId) (event : String) (listener : Listener Code) :
    w.KeepsFronts (w.mapNode id (·.addListener event listener)) :=
  keepsFronts_mapNode w id fun x => by cases x <;> rfl

theorem keepsFronts_record (w : World Code Memory) (owner : ViewModelId) (node : NodeId)
    (bindings : List BindingId) : w.KeepsFronts (w.record owner node bindings) := by
  unfold record
  split
  · exact keepsFronts_of_eq rfl
  · exact keepsFronts_of_eq rfl

end World

namespace Engine

/-- Walking a path keeps what reading properties keeps. -/
theorem Keeps.walk {I : World Code Memory → Prop} {c d : Reentry Code Memory}
    (hget : ∀ object key reader, Keeps I (get c object key reader) (get d object key reader))
    (path : Path) (reader : Option TrackerId) (segments : List String) (owner : Option String)
    (value : Value) :
    Keeps I (walk c path reader owner value segments) (walk d path reader owner value segments) := by
  induction segments generalizing owner value with
  | nil => exact Keeps.pure value
  | cons segment rest inductionHypothesis =>
    cases value with
    | object object =>
      exact (hget object segment reader).bind fun next => inductionHypothesis (some segment) next
    | array id items => exact inductionHypothesis (some segment) (itemAt items segment)
    | _ => exact Keeps.throw _

/-- A path is not followed from nothing. -/
theorem readPath_undefined (c : Reentry Code Memory) (path : Path) (reader : Option TrackerId) :
    ∃ result, readPath c .undefined path reader = ofExcept result ∧
      ∀ value, result = .ok value → value = .undefined := by
  unfold readPath walk
  cases path.segments with
  | nil => exact ⟨.ok .undefined, rfl, fun _ h => (Except.ok.inj h).symm⟩
  | cons segment rest => exact ⟨.error (path.faultAt segment .undefined), rfl, fun _ h => nomatch h⟩

/-- The steps of reading keep a property of worlds, or keep it in two engines alike. -/
structure Perusal (I : World Code Memory → Prop) (c d : Reentry Code Memory) : Prop where
  application : d.application = c.application
  held {w : World Code Memory} (held : List Ref) : I w → I { w with held }
  pausing {α : Type} (tracker : TrackerId) {x y : Engine Code Memory α} :
    Keeps I x y → Keeps I (framed (some tracker) none x) (framed (some tracker) none y)
  get (object : ObjectId) (key : String) (reader : Option TrackerId) :
    Keeps I (get c object key reader) (get d object key reader)

/-- Binding one node keeps a property of worlds, or keeps it in two engines alike. -/
structure Walking (I : World Code Memory → Prop) (c d : Reentry Code Memory) : Prop where
  depth : d.depth = c.depth
  held {w : World Code Memory} (held : List Ref) : I w → I { w with held }
  element {w : World Code Memory} {owner : ViewModelId} {node : NodeId} :
    (w.node node).isElement = true → I w →
      Ends w (compileElement c owner node) (compileElement d owner node) fun _ => I
  text {w : World Code Memory} {owner : ViewModelId} {node : NodeId} :
    (w.node node).isElement = false → I w →
      Ends w (compileText c owner node) (compileText d owner node) fun _ => I
  setChildren {w : World Code Memory} (node : NodeId) (children : List NodeId) :
    I w → I (w.mapNode node (·.setChildren children))
  appendChildren {w : World Code Memory} (node : NodeId) (children : List NodeId) :
    I w → I (w.appendChildren node children)
  mounted {w : World Code Memory} (owner : ViewModelId) (node : NodeId) :
    I w → I (w.mapViewModel owner fun vm => { vm with mounted := some node })

/-- Making watchers for bindings keeps a property of worlds, or keeps it in two engines alike. -/
structure Fitting (I : World Code Memory → Prop) (c d : Reentry Code Memory) : Prop
    extends Perusal I c d where
  fringe {w w' : World Code Memory} : w.Fringe w' → w.KeepsFronts w' → I w → I w'
  watch (tracker : TrackerId) (root : Value) (path : Path) (reaction : Reaction Code) :
    Keeps I (watch c tracker root path reaction) (watch d tracker root path reaction)

/-- The steps of which binding nodes is made keep a property of worlds, or keep it in two engines alike.
An embedder's installer is called only if a view model has it. -/
structure Mounting (I : World Code Memory → Prop) (c d : Reentry Code Memory) : Prop
    extends Fitting I c d where
  depth : d.depth = c.depth
  teardown (w : World Code Memory) (id : WatcherId) : I w → I (w.teardownWatcher id)
  installRender (owner : ViewModelId) (node : NodeId) (kind : DirectiveKind) (updater : Updater) (path : Path) :
    Keeps I (installRender c owner node kind updater path) (installRender d owner node kind updater path)
  installInterpolation {w : World Code Memory} {owner : ViewModelId} {text : String} (node : NodeId) :
    Template.mentions text (w.viewModel owner).settings.delimiters = true → I w →
      Ends w (installInterpolation c owner node text) (installInterpolation d owner node text) fun _ => I
  install {w : World Code Memory} {code : Code} {owner : ViewModelId} {directive : Directive}
    (node : NodeId) :
    (w.viewModel owner).registry.find? directive.kind = some (.custom code) → I w →
      Ends w (c.run (c.application.install code owner node directive))
        (d.run (c.application.install code owner node directive)) fun _ => I

/-- The steps that keep a property of worlds, or keep it in two engines alike. -/
structure Upkeep (I : World Code Memory → Prop) (c d : Reentry Code Memory) : Prop
    extends Mounting I c d where
  display {w : World Code Memory} (updater : Updater) (node : NodeId) (value : Value) :
    I w → I (w.display updater node value)
  setText {w : World Code Memory} (node : NodeId) (content : String) : I w → I (w.setText node content)
  calling (w : World Code Memory) (owner : ViewModelId) (method : String) (event : Event) :
    I w → I (w.note c.application (.calling owner method event))
  callback (code : Code) (value : Value) :
    Keeps I (c.run (c.application.callback code value)) (d.run (c.application.callback code value))
  method (code : Code) (owner : ViewModelId) (event : Event) :
    Keeps I (c.run (c.application.method code owner event))
      (d.run (c.application.method code owner event))

section Operations

variable {I : World Code Memory → Prop} {c d : Reentry Code Memory} {α : Type}

/-! ### Reading -/

namespace Perusal

theorem keeping (h : Perusal I c d) (refs : List Ref) {x y : Engine Code Memory α}
    (hx : Keeps I x y) : Keeps I (keeping refs x) (keeping refs y) :=
  hx.keeping (fun _ held hw => h.held held hw) refs

theorem walk (h : Perusal I c d) (path : Path) (reader : Option TrackerId)
    (segments : List String) (owner : Option String) (value : Value) :
    Keeps I (walk c path reader owner value segments) (walk d path reader owner value segments) :=
  Keeps.walk h.get path reader segments owner value

theorem readPath (h : Perusal I c d) (root : Value) (path : Path) (reader : Option TrackerId) :
    Keeps I (readPath c root path reader) (readPath d root path reader) :=
  h.walk path reader path.segments none root

theorem renderTemplate (h : Perusal I c d) (template : Template) (root : Value)
    (reader : Option TrackerId) :
    Keeps I (renderTemplate c template root reader) (renderTemplate d template root reader) := by
  unfold Engine.renderTemplate
  induction template.segments with
  | nil => exact Keeps.pure ""
  | cons segment rest inductionHypothesis =>
    cases segment with
    | literal text => exact inductionHypothesis.bind fun others => Keeps.pure _
    | placeholder path =>
      refine (h.readPath root path reader).bind fun value => ?_
      exact inductionHypothesis.bind fun others => Keeps.pure _

theorem readOn (h : Perusal I c d) (owner : ViewModelId) (path : Path) :
    Keeps I (readOn c owner path) (readOn d owner path) :=
  (Keeps.inspect _).bind fun vm => h.readPath (.object vm.root) path (some vm.tracker)

omit [Inhabited Code] in
theorem withPath (expression : String) {x y : Path → Engine Code Memory α}
    (hx : ∀ path, Keeps I (x path) (y path)) :
    Keeps I (withPath expression x) (withPath expression y) :=
  (Keeps.ofExcept _).bind hx

theorem renderOn (h : Perusal I c d) (owner : ViewModelId) (text : String) :
    Keeps I (renderOn c owner text) (renderOn d owner text) := by
  refine (Keeps.inspect _).bind fun vm => (Keeps.ofExcept _).bind fun template => ?_
  exact h.pausing vm.tracker (h.renderTemplate template (.object vm.root) (some vm.tracker))

end Perusal

namespace Walking

omit [Inhabited Code] in
theorem tallyAll {f g : NodeId → Engine Code Memory Tally} (hf : ∀ node, Keeps I (f node) (g node))
    (nodes : List NodeId) : Keeps I (tallyAll f nodes) (tallyAll g nodes) := by
  induction nodes with
  | nil => exact Keeps.pure _
  | cons node rest inductionHypothesis =>
    exact (hf node).bind fun _ => inductionHypothesis.bind fun _ => Keeps.pure _

theorem keeping (h : Walking I c d) (refs : List Ref) {x y : Engine Code Memory α}
    (hx : Keeps I x y) : Keeps I (keeping refs x) (keeping refs y) :=
  hx.keeping (fun _ held hw => h.held held hw) refs

theorem compileNodes (h : Walking I c d) (owner : ViewModelId) (depth : Nat) (nodes : List NodeId) :
    Keeps I (compileNodes c owner depth nodes) (compileNodes d owner depth nodes) := by
  induction depth generalizing nodes with
  | zero => exact Keeps.exhausted _
  | succ depth inductionHypothesis =>
    refine h.keeping _ (tallyAll (fun node w hw => ?_) nodes)
    rw [ends_inspect_bind]
    cases hnode : (w.node node).isElement with
    | true =>
      refine (h.element hnode hw).bind (fun result w' hw' => ?_) fun _ _ hw' => hw'
      obtain ⟨here, descend⟩ := result
      cases descend with
      | true =>
        refine ((Keeps.inspect _).bind fun children => ?_) w' hw'
        exact (inductionHypothesis children).bind fun _ => Keeps.pure _
      | false => exact Keeps.pure _ w' hw'
    | false => exact h.text hnode hw

theorem compile (h : Walking I c d) (owner : ViewModelId) (node : NodeId) :
    Keeps I (compile c owner node) (compile d owner node) := by
  unfold Engine.compile
  rw [h.depth]
  refine h.keeping _ ((Keeps.inspect _).bind fun children => ?_)
  exact (h.compileNodes owner c.depth children).bind fun tally => Keeps.ofExcept _

theorem compileDetached (h : Walking I c d) (owner : ViewModelId) (node : NodeId) :
    Keeps I (compileDetached c owner node) (compileDetached d owner node) := by
  unfold Engine.compileDetached
  rw [h.depth]
  refine h.keeping _ ((Keeps.inspect _).bind fun children => ?_)
  refine (Keeps.update fun w hw => h.setChildren node [] hw).bind fun _ => ?_
  refine (h.compileNodes owner c.depth children).bind fun tally => ?_
  refine (Keeps.update fun w hw => h.appendChildren node children hw).bind fun _ => ?_
  exact Keeps.ofExcept _

theorem mount (h : Walking I c d) (owner : ViewModelId) (target : Target) :
    Keeps I (mount c owner target) (mount d owner target) := by
  refine h.keeping _ ((Keeps.inspect _).bind fun vm => (Keeps.inspect _).bind fun node? => ?_)
  refine (Keeps.ofExcept _).bind fun node => ?_
  exact (Keeps.update fun w hw => h.mounted owner node hw).bind fun _ => h.compileDetached owner node

end Walking

namespace Fitting

variable {f : World Code Memory → World Code Memory}

theorem update (h : Fitting I c d) (hf : ∀ w : World Code Memory, w.Fringe (f w))
    (hfronts : ∀ w : World Code Memory, w.KeepsFronts (f w)) : Keeps I (Engine.update f) (Engine.update f) :=
  Keeps.update fun w hw => h.fringe (hf w) (hfronts w) hw

/-! ### Installing -/

theorem watchOn (h : Fitting I c d) (owner : ViewModelId) (path : Path) (reaction : Reaction Code) :
    Keeps I (watchOn c owner path reaction) (watchOn d owner path reaction) :=
  (Keeps.inspect _).bind fun vm => h.watch vm.tracker (.object vm.root) path reaction

theorem addToBinding (h : Fitting I c d) (binding : BindingId) (watcher : WatcherId) :
    Keeps I (Engine.update (·.mapBinding binding fun b => { b with watchers := b.watchers ++ [watcher] }))
      (Engine.update (·.mapBinding binding fun b => { b with watchers := b.watchers ++ [watcher] })) :=
  h.update (fun w => World.fringe_tree w _ _ _) fun _ => World.keepsFronts_of_eq rfl

theorem watchFor (h : Fitting I c d) (owner : ViewModelId) (binding : BindingId) (path : Path)
    (reaction : Reaction Code) :
    Keeps I (watchFor c owner binding path reaction) (watchFor d owner binding path reaction) :=
  (h.watchOn owner path reaction).bind fun watcher =>
    (h.addToBinding binding watcher).bind fun _ => Keeps.pure watcher

theorem addBinding (h : Fitting I c d) (f : World Code Memory → Binding) :
    Keeps I (create fun w => w.addBinding (f w)) (create fun w => w.addBinding (f w)) :=
  Keeps.create fun w hw => h.fringe (World.fringe_tree w _ _ _) (World.keepsFronts_of_eq rfl) hw

theorem addListener (h : Fitting I c d) (node : NodeId) (event : String) (listener : Listener Code) :
    Keeps I (Engine.update (·.mapNode node (·.addListener event listener)))
      (Engine.update (·.mapNode node (·.addListener event listener))) :=
  h.update (fun w => World.fringe_tree w _ _ _) fun w => World.keepsFronts_addListener w node event listener

/-- If it does not matter what the node holds, anything may be shown at once. -/
theorem installRender (h : Fitting I c d) (owner : ViewModelId) (node : NodeId) (kind : DirectiveKind)
    (updater : Updater) (path : Path)
    (hdisplay : ∀ {w : World Code Memory} value, I w → I (w.display updater node value)) :
    Keeps I (installRender c owner node kind updater path)
      (installRender d owner node kind updater path) := by
  refine (h.addBinding _).bind fun binding => h.keeping _ ?_
  refine (h.watchFor owner binding path _).bind fun watcher => ?_
  exact (Keeps.update fun w hw => hdisplay _ hw).bind fun _ => Keeps.pure binding

theorem installOn (h : Fitting I c d) (owner : ViewModelId) (node : NodeId) (directive : Directive) :
    Keeps I (installOn c owner node directive) (installOn d owner node directive) := by
  unfold Engine.installOn
  cases directive.argument with
  | none => exact Keeps.throw _
  | some event =>
    refine (Keeps.inspect _).bind fun vm => (h.get vm.root _ none).bind fun value => ?_
    cases value with
    | function id name =>
      refine (h.addBinding _).bind fun binding => ?_
      exact (h.addListener node event _).bind fun _ => Keeps.pure binding
    | _ => exact Keeps.throw _

theorem watchPlaceholders (h : Fitting I c d) (owner : ViewModelId) (binding : BindingId)
    (reaction : Reaction Code) (paths : List Path) :
    Keeps I (watchPlaceholders c owner binding reaction paths)
      (watchPlaceholders d owner binding reaction paths) := by
  induction paths with
  | nil => exact Keeps.pure ()
  | cons path rest inductionHypothesis =>
    exact (h.watchFor owner binding path reaction).bind fun _ => inductionHypothesis

theorem installInterpolation (h : Fitting I c d) (owner : ViewModelId) (node : NodeId) (text : String)
    (hsetText : ∀ {w : World Code Memory} content, I w → I (w.setText node content)) :
    Keeps I (installInterpolation c owner node text) (installInterpolation d owner node text) := by
  refine (Keeps.inspect _).bind fun vm => (Keeps.ofExcept _).bind fun template => ?_
  refine (h.addBinding _).bind fun binding => h.keeping _ ?_
  refine (h.watchPlaceholders owner binding _ template.paths).bind fun _ => ?_
  refine (h.pausing vm.tracker ?_).bind fun _ => Keeps.pure binding
  refine (h.renderTemplate template (.object vm.root) (some vm.tracker)).bind fun shown => ?_
  exact Keeps.update fun w hw => hsetText shown hw

end Fitting

namespace Mounting

theorem teardownBinding (h : Mounting I c d) (w : World Code Memory) (id : BindingId) (hw : I w) :
    I (w.teardownBinding id) := by
  have hfold : ∀ (l : List WatcherId) (w : World Code Memory), I w →
      I (l.foldl World.teardownWatcher w) := by
    intro l
    induction l with
    | nil => exact fun _ hw => hw
    | cons watcher rest inductionHypothesis =>
      exact fun w hw => inductionHypothesis _ (h.teardown w watcher hw)
  exact hfold _ _ (h.fringe (World.fringe_tree w _ _ _) (World.keepsFronts_of_eq rfl) hw)

theorem teardownBindings (h : Mounting I c d) (l : List BindingId) (w : World Code Memory)
    (hw : I w) : I (l.foldl World.teardownBinding w) := by
  induction l generalizing w with
  | nil => exact hw
  | cons binding rest inductionHypothesis =>
    exact inductionHypothesis _ (h.teardownBinding w binding hw)

theorem installModel (h : Mounting I c d) (owner : ViewModelId) (node : NodeId)
    (directive : Directive) :
    Keeps I (installModel c owner node directive) (installModel d owner node directive) := by
  refine (Keeps.ofExcept _).bind fun path => ?_
  refine (h.installRender owner node .model .value path).bind fun binding => ?_
  exact (h.addListener node "input" _).bind fun _ => Keeps.pure binding

theorem installDirective (h : Mounting I c d) {w : World Code Memory} {installer : Installer Code}
    {owner : ViewModelId} {node : NodeId} {directive : Directive}
    (hcustom : ∀ code, installer = .custom code →
      Ends w (c.run (c.application.install code owner node directive))
        (d.run (c.application.install code owner node directive)) fun _ => I) (hw : I w) :
    Ends w (Engine.install c installer owner node directive)
      (Engine.install d installer owner node directive) fun _ => I := by
  cases installer with
  | model => exact h.installModel owner node directive w hw
  | on => exact h.installOn owner node directive w hw
  | render updater =>
    exact (Keeps.ofExcept _).bind
      (fun path => h.installRender owner node directive.kind updater path) w hw
  | custom code =>
    unfold Engine.install
    rw [h.application]
    exact hcustom code rfl

/-! ### Compiling and mounting -/

theorem installAttribute (h : Mounting I c d) (owner : ViewModelId) (node : NodeId)
    (name value : String) :
    Keeps I (installAttribute c owner node name value) (installAttribute d owner node name value) := by
  intro w hw
  unfold Engine.installAttribute
  rw [ends_inspect_bind, ends_ofExcept_bind]
  cases Directive.parse name value (w.viewModel owner).settings.mark with
  | error error => exact hw
  | ok directive? =>
    cases directive? with
    | none => exact (ends_pure none).mpr hw
    | some directive =>
      simp only
      cases hfind : (w.viewModel owner).registry.find? directive.kind with
      | none => exact (ends_throw _).mpr hw
      | some installer =>
        refine (h.installDirective (fun code hcode => ?_) hw).bind
          (fun _ _ hw' => (ends_pure _).mpr hw') fun _ _ hw' => hw'
        exact h.install node (hcode ▸ hfind) hw

theorem installAttributes (h : Mounting I c d) (owner : ViewModelId) (node : NodeId)
    (attributes : List (String × String)) :
    Keeps I (installAttributes c owner node attributes) (installAttributes d owner node attributes) := by
  induction attributes with
  | nil => exact Keeps.pure _
  | cons pair rest inductionHypothesis =>
    obtain ⟨name, value⟩ := pair
    refine (h.installAttribute owner node name value).attempt.bind fun result => ?_
    cases result with
    | ok binding? =>
      cases binding? with
      | none => exact inductionHypothesis
      | some binding => exact (h.keeping _ inductionHypothesis).bind fun _ => Keeps.pure _
    | error error =>
      refine (Keeps.inspect _).bind fun error => ?_
      exact inductionHypothesis.bind fun _ => Keeps.pure _

theorem record (h : Mounting I c d) (owner : ViewModelId) (node : NodeId) (bindings : List BindingId) :
    Keeps I (Engine.update (·.record owner node bindings)) (Engine.update (·.record owner node bindings)) :=
  h.update (fun w => World.fringe_record w owner node bindings) fun w =>
    World.keepsFronts_record w owner node bindings

theorem compileElement (h : Mounting I c d) (owner : ViewModelId) (node : NodeId) :
    Keeps I (compileElement c owner node) (compileElement d owner node) := by
  refine (Keeps.inspect _).bind fun bound => ?_
  cases bound with
  | true => exact Keeps.pure _
  | false =>
    refine (Keeps.inspect _).bind fun attributes => ?_
    refine (h.installAttributes owner node attributes).bind fun result => ?_
    obtain ⟨bindings, errors⟩ := result
    simp only
    split
    · exact (h.record owner node bindings).bind fun _ => Keeps.pure _
    · exact (Keeps.update fun w hw => h.teardownBindings bindings w hw).bind fun _ => Keeps.pure _

theorem compileText (h : Mounting I c d) (owner : ViewModelId) (node : NodeId) :
    Keeps I (compileText c owner node) (compileText d owner node) := by
  refine (Keeps.inspect _).bind fun bound => ?_
  cases bound with
  | true => exact Keeps.pure _
  | false =>
    simp only [Bool.false_eq_true, if_false]
    intro w hw
    rw [ends_inspect_bind, ends_inspect_bind]
    split
    · exact (ends_pure _).mpr hw
    · next hmentions =>
      have hmentions' : Template.mentions (w.textContent node) (w.viewModel owner).settings.delimiters = true := by
        simpa using hmentions
      refine (h.installInterpolation node hmentions' hw).attempt_bind fun result w' hw' => ?_
      cases result with
      | ok binding =>
        exact ((h.record owner node [binding]).bind fun _ => Keeps.pure _) w' hw'
      | error error => exact ((Keeps.inspect _).bind fun _ => Keeps.pure _) w' hw'

theorem walking (h : Mounting I c d) : Walking I c d where
  depth := h.depth
  held := h.held
  element _ hw := h.compileElement _ _ _ hw
  text _ hw := h.compileText _ _ _ hw
  setChildren node children hw :=
    h.fringe (World.fringe_tree _ _ _ _) (World.keepsFronts_setChildren _ node children) hw
  appendChildren node children hw :=
    h.fringe (World.fringe_tree _ _ _ _) (World.keepsFronts_appendChildren _ node children) hw
  mounted owner _ hw := h.fringe (World.fringe_mapViewModel _ owner fun _ => rfl) (World.keepsFronts_of_eq rfl) hw

theorem unmount (h : Mounting I c d) (w : World Code Memory) (owner : ViewModelId) (node : NodeId)
    (hw : I w) : I (w.unmount owner node).2 :=
  h.teardownBindings _ _ (h.fringe (World.fringe_mapViewModel w owner fun _ => rfl) (World.keepsFronts_of_eq rfl) hw)

end Mounting

namespace Upkeep

/-! ### Reacting and calling -/

theorem react (h : Upkeep I c d) (reaction : Reaction Code) (value : Value) :
    Keeps I (react c reaction value) (react d reaction value) := by
  cases reaction with
  | render updater node => exact Keeps.update fun w hw => h.display updater node value hw
  | interpolate template root tracker node =>
    refine (h.renderTemplate template root (some tracker)).bind fun text => ?_
    exact Keeps.update fun w hw => h.setText node text hw
  | run code =>
    unfold Engine.react
    rw [h.application]
    exact h.callback code value

theorem callMethod (h : Upkeep I c d) (owner : ViewModelId) (method : String) (event : Event) :
    Keeps I (callMethod c owner method event) (callMethod d owner method event) := by
  unfold Engine.callMethod note
  rw [h.application]
  refine (Keeps.update fun w hw => h.calling w owner method event hw).bind fun _ => ?_
  refine (Keeps.inspect _).bind fun vm => (h.get vm.root method none).bind fun value => ?_
  cases value with
  | function id name => exact (Keeps.inspect _).bind fun code => h.method code owner event
  | _ => exact Keeps.throw _

end Upkeep

end Operations

end Engine

end ViewBinding
