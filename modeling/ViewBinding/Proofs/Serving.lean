import ViewBinding.Proofs.Upkeep

/-!
# What every request keeps

Most requests are carried out by steps that other requests ask for one at a time: reading a property,
writing one, making a watcher, running a program. A property of worlds that these keep, and that the
remaining requests keep, is kept by all programs.
-/

namespace ViewBinding

variable {Code Memory : Type} [Inhabited Code]

/-- All requests of a program satisfy a condition, whatever it sees and is answered. A condition on the
world in which a request is made holds of all worlds, or of the one that the program has just seen. -/
def Program.Makes (ok : Request Code Memory → World Code Memory → Prop) {α : Type} :
    Program Code Memory α → (seen : Option (World Code Memory) := none) → Prop
  | .done _, _ => True
  | .fail _, _ => True
  | .look next, _ => ∀ w, (next w).Makes ok (some w)
  | .ask request next, seen =>
    (∀ w, (∀ v ∈ seen, w = v) → ok request w) ∧ ∀ answer, (next answer).Makes ok none

namespace Program

omit [Inhabited Code]

variable {ok : Request Code Memory → World Code Memory → Prop} {seen : Option (World Code Memory)}
  {α β : Type}

theorem makes_request {r : Request Code Memory} (hr : ∀ w, (∀ v ∈ seen, w = v) → ok r w) :
    (request r).Makes ok seen := by
  refine ⟨hr, fun answer => ?_⟩
  cases answer with
  | ok a => trivial
  | error error => trivial

theorem Makes.bind {p : Program Code Memory α} {f : α → Program Code Memory β} (hp : p.Makes ok seen)
    (hf : ∀ a {seen}, (f a).Makes ok seen) : (p >>= f).Makes ok seen := by
  induction p generalizing seen with
  | done result => exact hf result
  | fail error => trivial
  | look next inductionHypothesis => exact fun w => inductionHypothesis w (hp w)
  | ask request next inductionHypothesis =>
    exact ⟨hp.1, fun answer => inductionHypothesis answer (hp.2 answer)⟩

/-- What requests satisfy, they satisfy more weakly. -/
theorem Makes.imp {ok' : Request Code Memory → World Code Memory → Prop} {p : Program Code Memory α}
    (himp : ∀ r w, ok r w → ok' r w) (hp : p.Makes ok seen) : p.Makes ok' seen := by
  induction p generalizing seen with
  | done result => trivial
  | fail error => trivial
  | look next inductionHypothesis => exact fun w => inductionHypothesis w (hp w)
  | ask request next inductionHypothesis =>
    exact ⟨fun w hw => himp request w (hp.1 w hw), fun answer => inductionHypothesis answer (hp.2 answer)⟩

/-- Any program makes any requests. -/
theorem makes_true (program : Program Code Memory α) : program.Makes (fun _ _ => True) seen := by
  induction program generalizing seen with
  | done result => trivial
  | fail error => trivial
  | look next inductionHypothesis => exact fun w => inductionHypothesis w
  | ask request next inductionHypothesis =>
    exact ⟨fun _ _ => trivial, fun answer => inductionHypothesis answer⟩

end Program

/-- Requests that are carried out by the steps of others, or change nothing but the fringe. -/
def Request.Compound : Request Code Memory → Prop
  | .set .. | .get .. | .readPath .. | .writePath .. | .renderTemplate .. => True
  | .watch .. | .watchOn .. | .teardownWatcher .. => True
  | .newElement .. | .newText .. | .display .. | .takeChildren .. | .appendChildren .. => True
  | .listen .. | .dispatch .. | .input .. | .newViewModel .. => True
  | .read .. | .write .. | .call .. | .render .. => True
  | .mount .. | .compile .. | .unmount .. => True
  | .hold .. | .release .. => True
  | _ => False

/-- The listeners for an event that bindings have put on a node. -/
def Node.hooks {Code : Type} (event : String) (node : Node Code) : List (Listener Code) :=
  (node.listeners event).filter fun
    | .run _ => false
    | _ => true

/-- Nodes that bindings know are touched on their surface only: they keep their attributes and what
bindings have put on them. Otherwise nothing has changed but what is held. -/
structure World.Margin (w w' : World Code Memory) : Prop where
  rest : w' = { w with nodes := w'.nodes, held := w'.held }
  size : w.nodes.size ≤ w'.nodes.size
  isElement : ∀ n : NodeId, n.index < w.nodes.size → (w'.node n).isElement = (w.node n).isElement
  attributes : ∀ n : NodeId, n.index < w.nodes.size → (w'.node n).attributes = (w.node n).attributes
  hooks : ∀ (n : NodeId) (event : String), (w'.node n).hooks event = (w.node n).hooks event

namespace World

section Margin

omit [Inhabited Code]

variable {w w₁ w₂ : World Code Memory}

theorem Margin.fringe (h : w.Margin w₁) : w.Fringe w₁ := by
  rw [h.rest]
  exact fringe_tree w _ w.bindings _

theorem Margin.trans (h : w.Margin w₁) (h' : w₁.Margin w₂) : w.Margin w₂ where
  rest := by rw [h'.rest, h.rest]
  size := Nat.le_trans h.size h'.size
  isElement n hn := (h'.isElement n (Nat.lt_of_lt_of_le hn h.size)).trans (h.isElement n hn)
  attributes n hn := (h'.attributes n (Nat.lt_of_lt_of_le hn h.size)).trans (h.attributes n hn)
  hooks n event := (h'.hooks n event).trans (h.hooks n event)

theorem margin_held (w : World Code Memory) (held : List Ref) : w.Margin { w with held } :=
  ⟨rfl, Nat.le_refl _, fun _ _ => rfl, fun _ _ => rfl, fun _ _ => rfl⟩

theorem margin_mapNode (w : World Code Memory) (id : NodeId) {f : Node Code → Node Code}
    (hisElement : ∀ x, (f x).isElement = x.isElement) (hattributes : ∀ x, (f x).attributes = x.attributes)
    (hhooks : ∀ x event, (f x).hooks event = x.hooks event) : w.Margin (w.mapNode id f) := by
  have hrow : ∀ {α : Type} (g : Node Code → α), (∀ x, g (f x) = g x) → ∀ n,
      g ((w.mapNode id f).node n) = g (w.node n) := by
    intro α g hg n
    rw [node, mapNode, Table.get_modify]
    split
    · next h => rw [hg, h, node]
    · rfl
  exact ⟨rfl, Table.size_le_modify _ _ _, fun n _ => hrow _ hisElement n, fun n _ => hrow _ hattributes n,
    fun n event => hrow (Node.hooks event) (hhooks · event) n⟩

theorem margin_addNode (w : World Code Memory) {x : Node Code} (hx : ∀ event, x.hooks event = []) :
    w.Margin (w.addNode x).2 := by
  have hold : ∀ n : NodeId, n.index < w.nodes.size → (w.addNode x).2.node n = w.node n := by
    intro n hn
    refine Table.get_add_of_ne _ _ ?_
    rintro rfl
    exact Nat.lt_irrefl _ hn
  refine ⟨rfl, Nat.le_of_lt (Nat.lt_of_lt_of_eq (Nat.lt_succ_self _) (Table.size_add w.nodes x).symm),
    fun n hn => by rw [hold n hn], fun n hn => by rw [hold n hn], fun n event => ?_⟩
  by_cases hn : n = w.nodes.fresh
  · subst hn
    rw [node, addNode, Table.get_add_fresh, hx, node, Table.get_fresh]
    rfl
  · exact congrArg (Node.hooks event) (Table.get_add_of_ne _ _ hn)

theorem margin_newElement (w : World Code Memory) (tag : String) (attributes : List (String × String))
    (children : List NodeId) :
    w.Margin (w.addNode (.element { tag, attributes := .ofList attributes, children })).2 :=
  margin_addNode w fun _ => rfl

theorem margin_newText (w : World Code Memory) (content : String) :
    w.Margin (w.addNode (.text content)).2 :=
  margin_addNode w fun _ => rfl

theorem margin_setChildren (w : World Code Memory) (id : NodeId) (children : List NodeId) :
    w.Margin (w.mapNode id (·.setChildren children)) :=
  margin_mapNode w id (fun x => by cases x <;> rfl) (fun x => by cases x <;> rfl)
    fun x _ => by cases x <;> rfl

theorem margin_appendChildren (w : World Code Memory) (id : NodeId) (children : List NodeId) :
    w.Margin (w.appendChildren id children) :=
  margin_mapNode w id (fun x => by cases x <;> rfl) (fun x => by cases x <;> rfl)
    fun x _ => by cases x <;> rfl

theorem margin_setText (w : World Code Memory) (id : NodeId) (content : String) :
    w.Margin (w.setText id content) := by
  unfold setText
  cases hnode : w.node id with
  | text old =>
    refine ⟨rfl, Table.size_le_modify _ _ _, fun n _ => ?_, fun n _ => ?_, fun n event => ?_⟩
    all_goals
      rw [node, mapNode, Table.get_modify]
      split
      · next h => rw [h, hnode]; rfl
      · rfl
  | element e =>
    exact (margin_newText w content).trans (margin_mapNode _ id (fun x => by cases x <;> rfl)
      (fun x => by cases x <;> rfl) fun x _ => by cases x <;> rfl)

theorem margin_display (w : World Code Memory) (updater : Updater) (id : NodeId) (value : Value) :
    w.Margin (w.display updater id value) := by
  cases updater with
  | value =>
    exact margin_mapNode w id (fun x => by cases x <;> rfl) (fun x => by cases x <;> rfl)
      fun x _ => by cases x <;> rfl
  | html =>
    exact margin_mapNode w id (fun x => by cases x <;> rfl) (fun x => by cases x <;> rfl)
      fun x _ => by cases x <;> rfl
  | text => exact margin_setText w id value.text

/-- The embedder listens for itself. -/
theorem margin_listen (w : World Code Memory) (id : NodeId) (event : String) (code : Code) :
    w.Margin (w.mapNode id (·.addListener event (.run code))) := by
  refine margin_mapNode w id (fun x => by cases x <;> rfl) (fun x => by cases x <;> rfl) fun x other => ?_
  cases x with
  | text content => rfl
  | element e =>
    by_cases h : other = event
    · subst h
      simp [Node.hooks, Node.addListener, Node.listeners, List.filter_append]
    · simp [Node.hooks, Node.addListener, Node.listeners, Entries.find?_put_of_ne _ _ h]

end Margin

end World

namespace Engine

/--
The steps that keep properties of worlds when a program makes requests that are `ok`, under one
supervision and under another. Most is kept at all times; what `J` adds is kept by whatever does not
write, and the moments of the run vouch for all of `K`, from which a program may write.
-/
structure Service (ok : Request Code Memory → World Code Memory → Prop)
    (P P' : Moment Code Memory → World Code Memory → Prop) (I J K : World Code Memory → Prop)
    (c d : Reentry Code Memory) : Prop extends Perusal J c d where
  rests {w : World Code Memory} : K w → J w
  loose {w : World Code Memory} : J w → I w
  moment {w : World Code Memory} (moment : Moment Code Memory) : I w → P moment w →
    P' moment w ∧ K w
  retaining {w : World Code Memory} (held : List Ref) : I w → I { w with held }
  margin {w w' : World Code Memory} : w.Margin w' → w.KeepsFronts w' → K w → K w'
  display {w v : World Code Memory} {updater : Updater} {node : NodeId} {value : Value} :
    ok (.display updater node value) v ∨ updater = .value ∧ ok (.input node value) v → K w →
      K (w.display updater node value)
  teardown (w : World Code Memory) (id : WatcherId) : J w → J (w.teardownWatcher id)
  watch (tracker : TrackerId) (root : Value) (path : Path) (reaction : Reaction Code) :
    Keeps J (Engine.watch c tracker root path reaction) (Engine.watch d tracker root path reaction)
  callMethod (owner : ViewModelId) (method : String) (event : Event) :
    Keeps J (Engine.callMethod c owner method event) (Engine.callMethod d owner method event)
  mount (owner : ViewModelId) (target : Target) :
    Keeps J (Engine.mount c owner target) (Engine.mount d owner target)
  compile (owner : ViewModelId) (node : NodeId) :
    Keeps J (Engine.compile c owner node) (Engine.compile d owner node)
  unmount (w : World Code Memory) (owner : ViewModelId) (node : NodeId) :
    J w → J (w.unmount owner node).2
  writing (w : World Code Memory) (owner : ViewModelId) (path : Path) (value : Value) :
    K w → K (w.note c.application (.writing owner path value))
  reading (object : ObjectId) (key : String) (reader : Option TrackerId) :
    Keeps K (Engine.get c object key reader) (Engine.get d object key reader)
  shading (tracker : TrackerId) {x y : Engine Code Memory Unit} :
    Leads K I x y → Leads K I (framed (some tracker) none x) (framed (some tracker) none y)
  set (object : ObjectId) (key : String) (value : Value) :
    Leads K I (set c object key value) (set d object key value)
  listener (code : Code) (event : Event) :
    Leads K I (c.run (c.application.listener code event)) (d.run (c.application.listener code event))
  assemble {w : World Code Memory} {options : Options Code} {data : ObjectId} (held : List Ref) :
    P (.asking (.newViewModel options)) w → ok (.newViewModel options) w →
      w.checkOptions options = .ok data → K w → I (World.assemble { w with held } options data).2
  simple {w : World Code Memory} {request : Request Code Memory} : ¬ request.Compound →
    P (.asking request) w → ok request w → K w → Ends w (fulfil c request) (fulfil d request) fun _ => I

namespace Service

variable {ok : Request Code Memory → World Code Memory → Prop}
  {P P' : Moment Code Memory → World Code Memory → Prop} {I J K : World Code Memory → Prop}
  {c d : Reentry Code Memory} {α : Type}

theorem under (h : Service ok P P' I J K c d) (moment : Moment Code Memory)
    {x y : Engine Code Memory α} {I' : World Code Memory → Prop} (hx : Leads K I' x y) :
    Leads I I' (under (P moment) x) (under (P' moment) y) :=
  fun w hw => Ends.under (fun hP => (h.moment moment hw hP).1) fun hP =>
    hx w (h.moment moment hw hP).2

/-- What keeps `J` leads from a moment to whatever is kept at all times. -/
theorem calm (h : Service ok P P' I J K c d) {x y : Engine Code Memory α} (hx : Keeps J x y) :
    Leads K I x y :=
  hx.leads (fun _ => h.rests) fun _ => h.loose

theorem holding (h : Service ok P P' I J K c d) (refs : List Ref) {x y : Engine Code Memory α}
    (hx : Leads K I x y) : Leads K I (Engine.keeping refs x) (Engine.keeping refs y) :=
  hx.keeping (fun _ held hw => h.margin (World.margin_held _ held) (World.keepsFronts_of_eq rfl) hw)
    (fun _ held => h.retaining held) refs

theorem writePath (h : Service ok P P' I J K c d) (root : Value) (path : Path) (value : Value)
    (reader : Option TrackerId) :
    Leads K I (writePath c root path value reader) (writePath d root path value reader) := by
  have hframed : ∀ {x y : Engine Code Memory Unit}, Leads K I x y →
      Leads K I (framed reader none x) (framed reader none y) := by
    intro x y hxy
    cases reader with
    | none => exact hxy
    | some t => exact h.shading t hxy
  have hheld : ∀ (w : World Code Memory) held, K w → K { w with held } :=
    fun w held hw => h.margin (World.margin_held w held) (World.keepsFronts_of_eq rfl) hw
  unfold Engine.writePath
  refine hframed (Keeps.bind_leads ((Keeps.walk h.reading path reader path.parents none root).keeping
    hheld _) (fun target => ?_) fun _ hw => h.loose (h.rests hw))
  cases target with
  | object object => exact h.set object path.last value
  | _ => exact h.calm (Keeps.throw _)

theorem writeOn (h : Service ok P P' I J K c d) (owner : ViewModelId) (path : Path) (value : Value) :
    Leads K I (writeOn c owner path value) (writeOn d owner path value) :=
  Keeps.bind_leads (Keeps.inspect _) (fun vm => h.writePath (.object vm.root) path value
    (some vm.tracker)) fun _ hw => h.loose (h.rests hw)

/-! ### Events -/

theorem onLiving (h : Service ok P P' I J K c d) (owner : ViewModelId) {x y : Engine Code Memory α}
    (hx : Leads K I x y) : Leads K I (onLiving c owner x) (onLiving d owner y) := by
  unfold Engine.onLiving
  rw [h.application]
  refine Keeps.bind_leads (Keeps.inspect _) (fun alive => ?_) fun _ hw => h.loose (h.rests hw)
  cases alive with
  | true => exact h.holding _ hx
  | false => exact h.calm (Keeps.throw _)

theorem handle (h : Service ok P P' I J K c d) (event : Event) (listener : Listener Code) :
    Leads K I (handle c event listener) (handle d event listener) := by
  have hloose : ∀ w, K w → I w := fun _ hw => h.loose (h.rests hw)
  cases listener with
  | run code =>
    unfold Engine.handle
    rw [h.application]
    exact h.listener code event
  | writeBack owner binding path =>
    refine Keeps.bind_leads (Keeps.inspect _) (fun active => ?_) hloose
    cases active with
    | true =>
      refine h.onLiving owner (Keeps.bind_leads (Keeps.inspect _) (fun value =>
        Keeps.bind_leads ?_ (fun _ => h.writeOn owner path value) hloose) hloose)
      unfold note
      rw [h.application]
      exact Keeps.update fun w hw => h.writing w owner path value hw
    | false => exact h.calm (Keeps.pure ())
  | invoke owner binding method =>
    refine Keeps.bind_leads (Keeps.inspect _) (fun active => ?_) hloose
    cases active with
    | true => exact h.onLiving owner (h.calm (h.callMethod owner method event))
    | false => exact h.calm (Keeps.pure ())

theorem dispatchUnder (h : Service ok P P' I J K c d) (node : NodeId) (event : String) :
    Keeps I (dispatchUnder P c node event) (dispatchUnder P' d node event) := by
  have hheld : ∀ (w : World Code Memory) held, I w → I { w with held } := fun _ held => h.retaining held
  refine Keeps.keeping hheld _ ((Keeps.inspect _).bind fun listeners => ?_)
  refine (Keeps.failures hheld _ _ fun listener _ => ?_).bind fun errors => Keeps.ofExcept _
  exact h.under .acting (h.handle ⟨event, node⟩ listener)

/-! ### Requests and programs -/

theorem constructUnder (h : Service ok P P' I J K c d) {options : Options Code}
    {w : World Code Memory} (hP : P (.asking (.newViewModel options)) w)
    (hok : ok (.newViewModel options) w) (hw : K w) :
    Ends w (constructUnder P c options) (constructUnder P' d options) fun _ => I := by
  refine Ends.keeping _ (R := fun _ => I) ?_ fun _ _ => h.retaining _
  rw [ends_inspect_bind, ends_ofExcept_bind]
  have hchecked : World.checkOptions { w with held := options.data.refs ++ w.held } options
      = w.checkOptions options := rfl
  rw [hchecked]
  cases hresult : w.checkOptions options with
  | error error => exact h.retaining _ (h.loose (h.rests hw))
  | ok data =>
    simp only
    rw [ends_create_bind]
    refine h.under .acting ?_ _ (h.assemble _ hP hok hresult hw)
    cases options.target with
    | none => exact h.calm (Keeps.pure _)
    | some target => exact h.calm ((h.mount _ target).bind fun _ => Keeps.pure _)

theorem fulfilUnder (h : Service ok P P' I J K c d) {w : World Code Memory} (hw : K w)
    {request : Request Code Memory} (hP : P (.asking request) w) (hok : ok request w) :
    Ends w (fulfilUnder P c request) (fulfilUnder P' d request) fun _ => I := by
  have hmargin : ∀ {w' : World Code Memory}, w.Margin w' → w.KeepsFronts w' → I w' := fun hw' hfronts =>
    h.loose (h.rests (h.margin hw' hfronts hw))
  cases request with
  | set object key value => exact h.set object key value w hw
  | get object key reader => exact h.calm (h.get object key reader) w hw
  | readPath root path reader => exact h.calm (h.keeping _ (h.readPath root path reader)) w hw
  | writePath root path value reader => exact h.holding _ (h.writePath root path value reader) w hw
  | renderTemplate template root reader =>
    exact h.calm (h.keeping _ (h.renderTemplate template root reader)) w hw
  | watch tracker root path code => exact h.calm (h.watch tracker root path (.run code)) w hw
  | watchOn owner path code =>
    exact h.calm (h.keeping _ ((Keeps.inspect _).bind fun vm => h.watch _ _ path (.run code))) w hw
  | teardownWatcher id => exact (ends_update _).mpr (h.loose (h.teardown w id (h.rests hw)))
  | newElement tag attributes children =>
    exact (ends_create _).mpr
      (hmargin (World.margin_newElement w tag attributes children) (World.keepsFronts_addNode w _))
  | newText content =>
    exact (ends_create _).mpr (hmargin (World.margin_newText w content) (World.keepsFronts_addNode w _))
  | display updater node value => exact (ends_update _).mpr (h.loose (h.rests (h.display (.inl hok) hw)))
  | takeChildren node =>
    exact (ends_create _).mpr
      (hmargin (World.margin_setChildren w node []) (World.keepsFronts_setChildren w node []))
  | appendChildren node children =>
    exact (ends_update _).mpr
      (hmargin (World.margin_appendChildren w node children) (World.keepsFronts_appendChildren w node children))
  | listen node event code =>
    exact (ends_update _).mpr
      (hmargin (World.margin_listen w node event code) (World.keepsFronts_addListener w node event (.run code)))
  | dispatch node event => exact h.dispatchUnder node event w (h.loose (h.rests hw))
  | input node value =>
    refine h.holding _ (Keeps.bind_leads (Keeps.update fun w hw => ?_) (fun _ => ?_)
      fun _ hw => h.loose (h.rests hw)) w hw
    · exact h.display (.inr ⟨rfl, hok⟩) hw
    · exact (h.dispatchUnder node "input").leads (fun _ hw => h.loose (h.rests hw)) fun _ hw => hw
  | newViewModel options => exact h.constructUnder hP hok hw
  | read owner expression =>
    exact h.calm (h.keeping _ (Perusal.withPath expression fun path => h.readOn owner path)) w hw
  | write owner expression value =>
    exact h.holding _ (Keeps.bind_leads (Keeps.ofExcept _) (fun path => h.writeOn owner path value)
      fun _ hw => h.loose (h.rests hw)) w hw
  | call owner method event => exact h.calm (h.keeping _ (h.callMethod owner method event)) w hw
  | render owner text => exact h.calm (h.keeping _ (h.renderOn owner text)) w hw
  | mount owner target => exact h.calm (h.mount owner target) w hw
  | compile owner node => exact h.calm (h.compile owner node) w hw
  | unmount owner node => exact (ends_create _).mpr (h.loose (h.unmount w owner node (h.rests hw)))
  | install installer owner node directive => exact h.simple id hP hok hw
  | newBinding node kind expression => exact h.simple id hP hok hw
  | teardownBinding id => exact h.simple (fun hcompound => hcompound) hP hok hw
  | hold refs => exact (ends_update _).mpr (hmargin (World.margin_held w _) (World.keepsFronts_of_eq rfl))
  | release refs => exact (ends_update _).mpr (hmargin (World.margin_held w _) (World.keepsFronts_of_eq rfl))
  | newObject => exact h.simple id hP hok hw
  | newArray items => exact h.simple id hP hok hw
  | newFunction name code => exact h.simple id hP hok hw
  | load json => exact h.simple id hP hok hw
  | place object key value => exact h.simple id hP hok hw
  | insert object key value => exact h.simple id hP hok hw
  | observe value => exact h.simple id hP hok hw
  | newTracker => exact h.simple id hP hok hw
  | enter tracker frame => exact h.simple id hP hok hw
  | leave tracker => exact h.simple id hP hok hw
  | depend tracker source => exact h.simple id hP hok hw
  | newSource => exact h.simple id hP hok hw
  | register source subscriber => exact h.simple id hP hok hw
  | unregister source subscriber => exact h.simple id hP hok hw
  | notify source => exact h.simple id hP hok hw
  | newProbe code => exact h.simple id hP hok hw
  | updateWatcher id => exact h.simple (fun hcompound => hcompound) hP hok hw
  | newComputed name tracker memoize code => exact h.simple id hP hok hw
  | readComputed id reader => exact h.simple (fun hcompound => hcompound) hP hok hw
  | remember f => exact h.simple id hP hok hw

theorem followUnder_seen (h : Service ok P P' I J K c d) {program : Program Code Memory α}
    {seen : Option (World Code Memory)} (hprogram : program.Makes ok seen) {w : World Code Memory}
    (hseen : ∀ v ∈ seen, w = v) (hw : I w) :
    Ends w (followUnder P c program) (followUnder P' d program) fun _ => K := by
  induction program generalizing seen w with
  | done result => exact h.under .acting (Keeps.pure result) w hw
  | fail error => exact h.under .acting (Keeps.throw error) w hw
  | look next inductionHypothesis =>
    refine Ends.under (fun hP => (h.moment _ hw hP).1) fun _ => ?_
    exact inductionHypothesis w (hprogram w) (fun v hv => Option.some.inj hv) hw
  | ask request next inductionHypothesis =>
    refine Ends.under (fun hP => (h.moment _ hw hP).1) fun hP => ?_
    refine (h.fulfilUnder (h.moment _ hw hP).2 hP (hprogram.1 w hseen)).attempt_bind ?_
    intro answer w' hw'
    exact inductionHypothesis answer (hprogram.2 answer) (fun v hv => absurd hv (Option.not_mem_none _)) hw'

/-- Following a program whose requests are made under the condition. -/
theorem followUnder (h : Service ok P P' I J K c d) {program : Program Code Memory α}
    (hprogram : program.Makes ok) : Leads I K (followUnder P c program) (followUnder P' d program) :=
  fun _ hw => h.followUnder_seen hprogram (fun _ hv => absurd hv (Option.not_mem_none _)) hw

end Service

end Engine

end ViewBinding
