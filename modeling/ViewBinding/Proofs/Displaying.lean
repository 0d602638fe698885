import ViewBinding.Proofs.Interpolating
import ViewBinding.Proofs.Surfaces

/-!
# What a watcher shows

A watcher may show what it knows by setting what a node holds, an element its form value and a text its content. It
does so each time it reacts, in one step with what it learns. So as long as no other watcher and no program sets what
the node holds, this is what it was, or it is what the watcher knows.
-/

namespace ViewBinding

open Engine

variable {Code Memory : Type}

/-- Reacting in this way sets what a node holds by itself. -/
def Reaction.Shows (n : NodeId) (isElement : Bool) : Reaction Code → Prop
  | .render updater m => m = n ∧ updater.Sets isElement
  | .interpolate _ _ _ m => m = n ∧ isElement = false
  | .run _ => False

instance (n : NodeId) (isElement : Bool) (reaction : Reaction Code) : Decidable (reaction.Shows n isElement) :=
  match reaction with
  | .render updater m => inferInstanceAs (Decidable (m = n ∧ updater.Sets isElement))
  | .interpolate _ _ _ m => inferInstanceAs (Decidable (m = n ∧ isElement = false))
  | .run _ => .isFalse id

instance (reaction : Reaction Code) (updater : Updater) (n : NodeId) : Decidable (reaction = .render updater n) :=
  match reaction with
  | .render other m => decidable_of_iff (other = updater ∧ m = n) (by simp)
  | .interpolate .. => .isFalse nofun
  | .run _ => .isFalse nofun

/-- A request that leaves what a node holds to the watchers. -/
def Request.LeavesFront (n : NodeId) : Request Code Memory → World Code Memory → Prop
  | .display _ m _, _ => m ≠ n
  | .input m _, _ => m ≠ n
  | _, _ => True

/-- What is promised of a node as long as no other watcher shows anything on it. -/
inductive Pledge where
  /-- That there is another one. -/
  | never
  /-- That it shows what the watcher knows. -/
  | shown
  | nothing
deriving DecidableEq

namespace World

variable {w w' : World Code Memory} {i j : WatcherId} {n : NodeId}

/-- A node holds what a watcher knows, in a form that shows it. -/
def Mirrors (w : World Code Memory) (i : WatcherId) (n : NodeId) (form : Value → Value ⊕ String) : Prop :=
  (w.node n).front = form (w.watcher i).cached

/-- A watcher has not reacted since, and a node holds what it held; or it has, and the node shows what it knows. -/
inductive Shown (start : World Code Memory) (i : WatcherId) (n : NodeId) (form : Value → Value ⊕ String)
    (w : World Code Memory) : Prop
  | idle (hfires : (w.watcher i).fires = (start.watcher i).fires)
      (hcached : (w.watcher i).cached = (start.watcher i).cached)
      (hfront : (w.node n).front = (start.node n).front)
  | reacted (hfires : (start.watcher i).fires < (w.watcher i).fires)
      (hfront : (w.node n).front = form (w.watcher i).cached)

/-- Besides a watcher, there is or was another one that shows something on a node. Those that were torn down at the
start do not count. -/
def Crowded (start : World Code Memory) (i : WatcherId) (n : NodeId) (w : World Code Memory) : Prop :=
  ∃ j : WatcherId, j ≠ i ∧ j.index < w.watchers.size ∧ (w.watcher j).reaction.Shows n (start.node n).isElement ∧
    (j.index < start.watchers.size → (start.watcher j).disposed = false)

instance (start w : World Code Memory) (i : WatcherId) (n : NodeId) : Decidable (start.Crowded i n w) :=
  decidable_of_iff (∃ j, j < w.watchers.size ∧ (⟨j⟩ : WatcherId) ≠ i ∧
      (w.watcher ⟨j⟩).reaction.Shows n (start.node n).isElement ∧
      (j < start.watchers.size → (start.watcher ⟨j⟩).disposed = false))
    ⟨fun ⟨j, hmade, hj, h⟩ => ⟨⟨j⟩, hj, hmade, h⟩, fun ⟨j, hj, hmade, h⟩ => ⟨j.index, hmade, hj, h⟩⟩

/-- The promise is kept. -/
def Upholds (start : World Code Memory) (pledge : Pledge) (i : WatcherId) (n : NodeId)
    (form : Value → Value ⊕ String) (w : World Code Memory) : Prop :=
  match pledge with
  | .never => False
  | .shown => start.Shown i n form w
  | .nothing => True

/-- What is promised of a node holds since a start, unless others show something on it. -/
structure Reflects (start : World Code Memory) (i : WatcherId) (n : NodeId) (form : Value → Value ⊕ String)
    (pledge : Pledge) (w : World Code Memory) : Prop where
  watcher : i.index < start.watchers.size
  node : n.index < start.nodes.size
  later : start.Later n w
  shown : start.Crowded i n w ∨ start.Upholds pledge i n form w

variable {start : World Code Memory} {form : Value → Value ⊕ String} {pledge : Pledge}

theorem reflects_start (hi : i.index < w.watchers.size) (hn : n.index < w.nodes.size) :
    w.Reflects i n form .shown w :=
  ⟨hi, hn, .refl w, .inr (.idle rfl rfl rfl)⟩

theorem Crowded.later (h : start.Crowded i n w) (hw : w.Later n w') : start.Crowded i n w' := by
  obtain ⟨j, hj, hmade, hshows, hstart⟩ := h
  exact ⟨j, hj, Nat.lt_of_lt_of_le hmade hw.watchers, (hw.reaction hmade).symm ▸ hshows, hstart⟩

theorem Shown.fires_le (h : start.Shown i n form w) : (start.watcher i).fires ≤ (w.watcher i).fires := by
  cases h with
  | idle hsame => exact Nat.le_of_eq hsame.symm
  | reacted hless => exact Nat.le_of_lt hless

/-- What was in step still is, and so is what has reacted. -/
theorem Shown.mirrors (h : start.Shown i n form w)
    (hstart : start.Mirrors i n form ∨ (w.watcher i).fires ≠ (start.watcher i).fires) : w.Mirrors i n form := by
  cases h with
  | idle hfires hcached hfront =>
    rw [Mirrors, hfront, hcached]
    exact hstart.resolve_right fun hreacted => hreacted hfires
  | reacted _ hfront => exact hfront

theorem Shown.aloof (h : start.Shown i n form w) (hw : w.Aloof i n w') (hi : i.index < w.watchers.size)
    (hn : n.index < w.nodes.size) : start.Shown i n form w' := by
  cases h with
  | idle hfires hcached hfront =>
    exact .idle ((hw.fires hi).trans hfires) ((hw.cached hi).trans hcached) ((hw.front hn).trans hfront)
  | reacted hfires hfront =>
    refine .reacted (Nat.lt_of_lt_of_eq hfires (hw.fires hi).symm) ?_
    rw [hw.front hn, hfront, hw.cached hi]

theorem Upholds.aloof (h : start.Upholds pledge i n form w) (hw : w.Aloof i n w') (hi : i.index < w.watchers.size)
    (hn : n.index < w.nodes.size) : start.Upholds pledge i n form w' := by
  cases pledge with
  | never => exact h
  | shown => exact Shown.aloof h hw hi hn
  | nothing => trivial

namespace Reflects

theorem made (h : start.Reflects i n form pledge w) : i.index < w.watchers.size :=
  Nat.lt_of_lt_of_le h.watcher h.later.watchers

theorem there (h : start.Reflects i n form pledge w) : n.index < w.nodes.size :=
  Nat.lt_of_lt_of_le h.node h.later.nodes

theorem isElement (h : start.Reflects i n form pledge w) : (w.node n).isElement = (start.node n).isElement :=
  h.later.isElement h.node

theorem aloof (h : start.Reflects i n form pledge w) (hw : w.Aloof i n w') : start.Reflects i n form pledge w' where
  watcher := h.watcher
  node := h.node
  later := h.later.trans hw.toLater
  shown := h.shown.imp (·.later hw.toLater) (·.aloof hw h.made h.there)

/-- Neither watchers nor nodes were changed. -/
theorem of_eq (h : start.Reflects i n form pledge w) (hwatchers : w'.watchers = w.watchers)
    (hnodes : w'.nodes = w.nodes) : start.Reflects i n form pledge w' :=
  h.aloof (aloof_of_eq hwatchers (keepsFronts_of_eq hnodes))

/-- Where nothing else is promised, a node may show anything. -/
theorem onward (h : start.Reflects i n form pledge w) (hpledge : pledge ≠ .shown) (hw : w.Later n w') :
    start.Reflects i n form pledge w' where
  watcher := h.watcher
  node := h.node
  later := h.later.trans hw
  shown := by
    cases pledge with
    | never => exact h.shown.imp_left (·.later hw)
    | shown => exact absurd rfl hpledge
    | nothing => exact .inr trivial

/-- Whoever else shows something makes a node a crowded one. -/
theorem crowd (h : start.Reflects i n form pledge w) (hj : j ≠ i) (hmade : j.index < w.watchers.size)
    (hshows : (w.watcher j).reaction.Shows n (start.node n).isElement)
    (hstart : j.index < start.watchers.size → (start.watcher j).disposed = false) :
    start.Reflects i n form .never w :=
  ⟨h.watcher, h.node, h.later, .inl ⟨j, hj, hmade, hshows, hstart⟩⟩

theorem loose (h : start.Reflects i n form .never w) : start.Reflects i n form pledge w :=
  ⟨h.watcher, h.node, h.later, h.shown.imp_right False.elim⟩

/-- The watcher learns a value and shows it. -/
theorem react (h : start.Reflects i n form pledge w) {value : Value} (hlater : w.Later n w')
    (hfires : (w'.watcher i).fires = (w.watcher i).fires + 1) (hcached : (w'.watcher i).cached = value)
    (hfront : (w'.node n).front = form value) : start.Reflects i n form pledge w' := by
  refine ⟨h.watcher, h.node, h.later.trans hlater, h.shown.imp (·.later hlater) fun hholds => ?_⟩
  cases pledge with
  | never => exact hholds
  | nothing => trivial
  | shown =>
    refine .reacted ?_ (hcached.symm ▸ hfront)
    rw [hfires]
    exact Nat.lt_succ_of_le (Shown.fires_le hholds)

end Reflects

end World

namespace Engine

variable [Inhabited Code] {application : Application Code Memory} {start : World Code Memory} {i : WatcherId}
  {n : NodeId} {form : Value → Value ⊕ String} {c : Reentry Code Memory} {pledge : Pledge} {w : World Code Memory}

theorem recurs_reflects : Recurs application (start.Reflects i n form) where
  held _ hw := hw.of_eq rfl rfl
  mapTracker _ _ hw := hw.of_eq rfl rfl
  mapComputed _ _ _ _ hw := hw.of_eq rfl rfl
  computing _ hw := hw.of_eq rfl rfl
  meeting x source hw := hw.aloof (World.aloof_meeting _ x source)
  evaluating pledge x := ⟨pledge, fun t => ⟨fun w hw => hw.aloof (World.aloof_opening w t x), fun w r hw =>
    hw.aloof (World.aloof_closing w t x r)⟩⟩
  await {_ w object key} _ _ hw := by
    have hraises := World.raises_await w object key
    exact hw.of_eq hraises.watchers hraises.nodes

/-- What is entered again leads back to what a node shows. -/
structure Reflecting (application : Application Code Memory) (start : World Code Memory) (i : WatcherId) (n : NodeId)
    (form : Value → Value ⊕ String) (c : Reentry Code Memory) : Prop
    extends Revisits application (Request.LeavesFront n) (start.Reflects i n form) c c

namespace Reflecting

variable (h : Reflecting application start i n form c)

include h

theorem perusal (pledge : Pledge) : Perusal (start.Reflects i n form pledge) c c :=
  h.recurring.perusal recurs_reflects

/-! ### Making watchers -/

/-- Making a watcher leads to whatever its row leads to. -/
theorem watch_leads {after : Pledge} (t : TrackerId) (root : Value) (path : Path) (reaction : Reaction Code)
    (hrow : ∀ w : World Code Memory, start.Reflects i n form pledge w →
      start.Reflects i n form after (w.addWatcher { tracker := t, root, path, reaction }).2) :
    Leads (start.Reflects i n form pledge) (start.Reflects i n form after) (watch c t root path reaction)
      (watch c t root path reaction) := by
  intro w hw
  have hne : w.watchers.fresh ≠ i := by
    rintro rfl
    exact Nat.lt_irrefl _ (Nat.lt_of_lt_of_eq hw.made w.watchers.index_fresh.symm)
  let row : Watcher Code := { tracker := t, root, path, reaction }
  have hadded : start.Reflects i n form after ({ (w.addWatcher row).2 with
      held := .watcher w.watchers.fresh :: (w.addWatcher row).2.held } : World Code Memory) :=
    (hrow w hw).of_eq rfl rfl
  unfold Engine.watch
  rw [ends_create_bind]
  refine Ends.keeping _ (R := fun _ => start.Reflects i n form after) ?_ fun _ v hv => hv.of_eq rfl rfl
  refine (h.recurring.evaluateWatcher recurs_reflects w.watchers.fresh _ hadded).attempt_bind fun r v hv => ?_
  cases r with
  | ok value =>
    rw [ends_update_bind, ends_pure]
    exact hv.aloof (World.aloof_mapWatcher v _ (fun _ => rfl) (fun _ hx => hx) fun heq => absurd heq hne)
  | error error =>
    rw [ends_update_bind, ends_throw]
    exact hv.aloof (World.aloof_teardownWatcher v _)

theorem fitting (pledge : Pledge) : Fitting (start.Reflects i n form pledge) c c where
  toPerusal := h.perusal pledge
  fringe hfringe hfronts hw := hw.aloof (World.aloof_of_eq hfringe.watchers hfronts)
  watch t root path reaction := h.watch_leads t root path reaction fun w hw => hw.aloof (World.aloof_addWatcher w _)

/-- Another watcher that shows something on the node makes it a crowded one. -/
theorem watchFor_crowds (owner : ViewModelId) (binding : BindingId) (path : Path) {reaction : Reaction Code}
    (hshows : reaction.Shows n (start.node n).isElement) :
    Leads (start.Reflects i n form pledge) (start.Reflects i n form .never) (watchFor c owner binding path reaction)
      (watchFor c owner binding path reaction) := by
  have hwatch : Leads (start.Reflects i n form pledge) (start.Reflects i n form .never)
      (Engine.watchOn c owner path reaction) (Engine.watchOn c owner path reaction) := by
    intro v hv
    rw [Engine.watchOn, ends_inspect_bind]
    refine h.watch_leads _ _ path reaction (fun w hw => ?_) v hv
    have hnew := w.watchers.index_fresh
    refine (hw.aloof (World.aloof_addWatcher w _)).crowd (j := w.watchers.fresh) ?_ ?_ ?_ fun hold => ?_
    · rintro rfl
      exact Nat.lt_irrefl _ (Nat.lt_of_lt_of_eq hw.made hnew.symm)
    · exact Nat.lt_of_lt_of_eq (Nat.lt_succ_of_le (Nat.le_of_eq hnew)) (Table.size_add w.watchers _).symm
    · rwa [World.watcher_addWatcher, if_pos rfl]
    · exact absurd (Nat.lt_of_lt_of_le hold hw.later.watchers) (Nat.not_lt_of_le (Nat.le_of_eq hnew.symm))
  intro w hw
  refine (hwatch w hw).bind (fun watcher v hv => ?_) fun _ _ hv => hv
  exact (((h.fitting .never).addToBinding binding watcher).bind fun _ => Keeps.pure watcher) v hv

/-! ### Binding -/

theorem installRender (owner : ViewModelId) (node : NodeId) (kind : DirectiveKind) (updater : Updater)
    (path : Path) : Keeps (start.Reflects i n form pledge) (installRender c owner node kind updater path)
      (installRender c owner node kind updater path) := by
  by_cases hshows : node = n ∧ updater.Sets (start.node n).isElement
  · have hcrowds : (Reaction.render updater node : Reaction Code).Shows n (start.node n).isElement := hshows
    refine ((h.fitting pledge).addBinding _).bind fun binding => (h.perusal pledge).keeping _ fun w hw => ?_
    refine (h.watchFor_crowds owner binding path hcrowds w hw).bind (fun watcher v hv => ?_) fun _ _ hv => hv.loose
    rw [ends_update_bind, ends_pure]
    exact (hv.onward (by decide) (World.later_display v updater node _)).loose
  · refine (h.fitting pledge).installRender owner node kind updater path fun {w} value hw => ?_
    exact hw.aloof (World.aloof_display w value (hw.isElement ▸ hshows))

theorem watchPlaceholders_crowds (owner : ViewModelId) (binding : BindingId) {reaction : Reaction Code}
    (hshows : reaction.Shows n (start.node n).isElement) {paths : List Path} (hpaths : paths ≠ []) :
    Leads (start.Reflects i n form pledge) (start.Reflects i n form .never)
      (watchPlaceholders c owner binding reaction paths) (watchPlaceholders c owner binding reaction paths) := by
  cases paths with
  | nil => exact absurd rfl hpaths
  | cons path rest =>
    intro w hw
    refine (h.watchFor_crowds owner binding path hshows w hw).bind (fun _ v hv => ?_) fun _ _ hv => hv
    exact (h.fitting .never).watchPlaceholders owner binding reaction rest v hv

/-- A template that is shown on the node has a placeholder, and so there is another watcher. -/
theorem installInterpolation {owner : ViewModelId} {text : String} (node : NodeId)
    (hmentions : Template.mentions text (w.viewModel owner).settings.delimiters = true)
    (hw : start.Reflects i n form pledge w) :
    Ends w (installInterpolation c owner node text) (installInterpolation c owner node text)
      fun _ => start.Reflects i n form pledge := by
  by_cases hshows : node = n ∧ (start.node n).isElement = false
  · unfold Engine.installInterpolation
    rw [ends_inspect_bind, ends_ofExcept_bind]
    cases hparse : Template.parse text (w.viewModel owner).settings.delimiters with
    | error error => exact hw
    | ok template =>
      have hpaths : template.paths ≠ [] := by
        rcases Template.mentions_iff_parse.mp hmentions with ⟨error, herror⟩ | ⟨template', hok, hhas⟩
        · cases hparse.symm.trans herror
        · cases hparse.symm.trans hok
          simpa [Template.hasPlaceholder] using hhas
      have hcrowds : (Reaction.interpolate template (.object (w.viewModel owner).root) (w.viewModel owner).tracker
        node : Reaction Code).Shows n (start.node n).isElement := hshows
      refine (((h.fitting pledge).addBinding _).bind fun binding => ?_) w hw
      refine (h.perusal pledge).keeping _ fun v hv => ?_
      refine (h.watchPlaceholders_crowds owner binding hcrowds hpaths v hv).bind (fun _ u hu => ?_)
        fun _ _ hu => hu.loose
      refine Ends.mono (R := fun _ => start.Reflects i n form .never) ?_ fun _ _ hu => hu.loose
      refine (((h.perusal .never).pausing _ ?_).bind fun _ => Keeps.pure binding) u hu
      refine ((h.perusal .never).renderTemplate template _ _).bind fun shown => Keeps.update fun x hx => ?_
      exact hx.onward (by decide) (World.later_setText x node shown)
  · refine (h.fitting pledge).installInterpolation owner node text (fun {v} content hv => ?_) w hw
    exact hv.aloof (World.aloof_setText v content (hv.isElement ▸ hshows))

theorem mounting (pledge : Pledge) : Mounting (start.Reflects i n form pledge) c c where
  toFitting := h.fitting pledge
  depth := rfl
  teardown w id hw := hw.aloof (World.aloof_teardownWatcher w id)
  installRender := h.installRender
  installInterpolation := h.installInterpolation
  install node _ hw := h.left ▸ h.run pledge (h.programs.install _ _ node _) _ hw

/-! ### Reacting -/

/-- Whoever does not show anything on the node, or finds a crowded one, reacts as he likes. -/
theorem react {reaction : Reaction Code} (value : Value)
    (hshows : pledge ≠ .shown ∨ ¬ reaction.Shows n (start.node n).isElement) :
    Keeps (start.Reflects i n form pledge) (react c reaction value) (react c reaction value) := by
  cases reaction with
  | render updater node =>
    refine Keeps.update fun w hw => ?_
    rcases hshows with hpledge | hshows
    · exact hw.onward hpledge (World.later_display w updater node value)
    · exact hw.aloof (World.aloof_display w value (hw.isElement ▸ hshows))
  | interpolate template root tracker node =>
    refine ((h.perusal pledge).renderTemplate template root (some tracker)).bind fun text => ?_
    refine Keeps.update fun w hw => ?_
    rcases hshows with hpledge | hshows
    · exact hw.onward hpledge (World.later_setText w node text)
    · exact hw.aloof (World.aloof_setText w text (hw.isElement ▸ hshows))
  | run code =>
    unfold Engine.react
    rw [h.left]
    exact h.run pledge (h.programs.callback code value)

/-- The turn of a watcher that has learned a value. -/
theorem reacting (id : WatcherId) (t : TrackerId) {reaction : Reaction Code} (value : Value)
    (hshows : pledge ≠ .shown ∨ ¬ reaction.Shows n (start.node n).isElement) :
    Keeps (start.Reflects i n form pledge)
      (Engine.keeping value.refs (framed (some t) none do
        note c (.reacting id value); Engine.react c reaction value))
      (Engine.keeping value.refs (framed (some t) none do
        note c (.reacting id value); Engine.react c reaction value)) := by
  refine (h.perusal pledge).keeping _ ((h.perusal pledge).pausing _ (Keeps.bind ?_ fun _ => h.react value hshows))
  exact Keeps.update fun u hu => hu.of_eq rfl rfl

/-- An update of another watcher, or of any where nothing else is promised. If it shows something on the node, it
makes it a crowded one. -/
theorem updateWatcher_of_ne {id : WatcherId} (hid : id ≠ i ∨ pledge ≠ .shown) :
    Keeps (start.Reflects i n form pledge) (updateWatcher c id) (updateWatcher c id) := by
  refine (h.perusal pledge).keeping _ fun w hw => ?_
  rw [ends_inspect_bind]
  cases hdisposed : (w.watcher id).disposed with
  | true => exact (ends_pure ()).mpr hw
  | false =>
    have hstart : id.index < start.watchers.size → (start.watcher id).disposed = false := fun hold => by
      rw [← Bool.not_eq_true]
      intro hgone
      simp [hw.later.disposed id hold hgone] at hdisposed
    refine (h.recurring.evaluateWatcher recurs_reflects id w hw).bind (fun value v hv => ?_) fun _ _ hv => hv
    rw [ends_inspect_bind]
    split
    · exact (ends_pure ()).mpr hv
    · rw [ends_update_bind]
      change Ends (v.learning id value) _ _ _
      rcases hid with hid | hpledge
      · have hlearned := hv.aloof (World.aloof_learning v hid value)
        by_cases hshows : (v.watcher id).reaction.Shows n (start.node n).isElement
        · have hrow : ((v.learning id value).watcher id).reaction = (v.watcher id).reaction := by
            rw [World.learning, World.watcher_mapWatcher, if_pos rfl]
          have hcrowded : start.Reflects i n form .never (v.learning id value) :=
            hlearned.crowd hid (Table.index_lt_modify v.watchers id _) (hrow ▸ hshows) hstart
          have hnever : Pledge.never ≠ .shown := by decide
          exact (h.reacting id _ value (.inl hnever) _ hcrowded).mono fun _ _ hu => hu.loose
        · exact h.reacting id _ value (.inr hshows) _ hlearned
      · exact h.reacting id _ value (.inl hpledge) _ (hv.onward hpledge (World.later_learning v id value))

omit [Inhabited Code] in
theorem listener (code : Code) (event : Event) : Keeps (start.Reflects i n form pledge)
    (c.run (c.application.listener code event)) (c.run (c.application.listener code event)) :=
  h.left ▸ h.run pledge (h.programs.listener code event)

theorem install {installer : Installer Code} {owner : ViewModelId} {node : NodeId} {directive : Directive}
    (hw : start.Reflects i n form pledge w) : Ends w (install c installer owner node directive)
      (install c installer owner node directive) fun _ => start.Reflects i n form pledge :=
  (h.mounting pledge).installDirective (fun code _ => h.left ▸ h.run pledge (h.programs.install code _ _ _) _ hw) hw

theorem callMethod (owner : ViewModelId) (method : String) (event : Event) :
    Keeps (start.Reflects i n form pledge) (callMethod c owner method event) (callMethod c owner method event) := by
  unfold Engine.callMethod Engine.note
  refine Keeps.bind (Keeps.update fun w hw => ?_) fun _ => (Keeps.inspect _).bind fun vm => ?_
  · exact World.Reflects.of_eq hw rfl rfl
  refine ((h.perusal pledge).get vm.root method none).bind fun value => ?_
  cases value with
  | function id name =>
    rw [h.left]
    exact (Keeps.inspect _).bind fun code => h.run pledge (h.programs.method code owner event)
  | _ => exact Keeps.throw _

end Reflecting

/-- A watcher whose own turns lead back to what a node shows, at the moments of runs under a proviso, and programs that
leave what the node holds to the watchers. -/
structure Displays (application : Application Code Memory) (P : Proviso Code Memory) (start : World Code Memory)
    (i : WatcherId) (n : NodeId) (form : Value → Value ⊕ String) : Prop where
  programs : application.Makes (Request.LeavesFront n)
  told {depth : Nat} {waiting : List Subscriber} {w : World Code Memory} :
    Reflecting application start i n form (reentryUnder P application depth waiting) →
      P (.watcher i :: waiting) .acting w → start.Reflects i n form .shown w →
        Ends (w.note application (.updating (.watcher i)))
          (updateWatcher (reentryUnder P application depth waiting) i)
          (updateWatcher (reentryUnder P application depth waiting) i) fun _ => start.Reflects i n form .shown
  asked {depth : Nat} {waiting : List Subscriber} {w : World Code Memory} :
    Reflecting application start i n form (reentryUnder P application depth waiting) →
      P waiting (.asking (.updateWatcher i)) w → start.Reflects i n form .shown w →
        Ends w (updateWatcher (reentryUnder P application depth waiting) i)
          (updateWatcher (reentryUnder P application depth waiting) i) fun _ => start.Reflects i n form .shown

namespace Displays

variable {P : Proviso Code Memory} {depth : Nat} {waiting : List Subscriber} {α : Type}
  (hI : Displays application P start i n form)

include hI

section Steps

variable (h : Reflecting application start i n form (reentryUnder P application depth waiting))

include h

theorem updateSubscriber {subscriber : Subscriber} (hP : P (subscriber :: waiting) .acting w)
    (hw : start.Reflects i n form pledge w) :
    Ends w (updateSubscriber (reentryUnder P application depth waiting) subscriber)
      (updateSubscriber (reentryUnder P application depth waiting) subscriber)
      fun _ => start.Reflects i n form pledge := by
  have hnote : start.Reflects i n form pledge (w.note application (.updating subscriber)) := hw.of_eq rfl rfl
  refine ends_updateSubscriber h.left h.right hnote (fun id heq => ?_) (fun _ hv => hv.of_eq rfl rfl)
    (h.notify pledge) fun code => h.run pledge (h.programs.update code)
  subst heq
  by_cases hown : id = i ∧ pledge = .shown
  · obtain ⟨rfl, rfl⟩ := hown
    exact hI.told h hP hw
  · exact h.updateWatcher_of_ne (not_and_or.mp hown) _ hnote

theorem chores (pledge : Pledge) : Chores (Request.LeavesFront n) (P waiting) (start.Reflects i n form pledge)
    (reentryUnder P application depth waiting) (reentryUnder P application depth waiting) where
  toPerusal := h.perusal pledge
  notify := h.notify pledge
  store {w} object key value hw :=
    have hraises := World.raises_store w object key value
    hw.of_eq hraises.watchers hraises.nodes
  write _ hw := hw.of_eq rfl rfl
  writeObserved {_ _ _ _ value _} _ hw :=
    have hraises := World.raises_observe _ value
    World.Reflects.of_eq (World.Reflects.of_eq hw rfl rfl) hraises.watchers hraises.nodes
  tables _ hraises hw := hw.of_eq hraises.watchers hraises.nodes
  observe {w} value hw :=
    have hraises := World.raises_observe w value
    hw.of_eq hraises.watchers hraises.nodes
  load {w} json hw :=
    have hraises := World.raises_load w json
    hw.of_eq hraises.watchers hraises.nodes
  enter _ hw := hw.of_eq rfl rfl
  leave _ hw := hw.of_eq rfl rfl
  depend t source := h.recurring.depend recurs_reflects (some t) source
  register _ hw := hw.of_eq rfl rfl
  unregister _ hw := hw.of_eq rfl rfl
  updateWatcher id hP hw := by
    by_cases hown : id = i ∧ pledge = .shown
    · obtain ⟨rfl, rfl⟩ := hown
      exact hI.asked h hP hw
    · exact h.updateWatcher_of_ne (not_and_or.mp hown) _ hw
  readComputed := h.recurring.readComputed recurs_reflects
  install _ hw := h.install hw
  addBinding _ hw := hw.of_eq rfl rfl
  teardownBinding {w id} _ := (h.mounting pledge).teardownBinding w id
  remember _ hw := hw.of_eq rfl rfl

theorem service (pledge : Pledge) : Service (Request.LeavesFront n) (P waiting) (P waiting)
    (start.Reflects i n form pledge) (start.Reflects i n form pledge) (start.Reflects i n form pledge)
    (reentryUnder P application depth waiting) (reentryUnder P application depth waiting) where
  toPerusal := h.perusal pledge
  rests hw := hw
  loose hw := hw
  moment moment hw hP := ⟨hP, hw⟩
  retaining _ hw := hw.of_eq rfl rfl
  margin hmargin hfronts hw := hw.aloof (World.aloof_of_eq hmargin.fringe.watchers hfronts)
  display {w _ updater node value} hok hw := by
    have hne : node ≠ n := hok.elim id And.right
    exact hw.aloof (World.aloof_display w value fun h => hne h.1)
  teardown w id hw := hw.aloof (World.aloof_teardownWatcher w id)
  watch := (h.fitting pledge).watch
  callMethod := h.callMethod
  mount := (h.mounting pledge).walking.mount
  compile := (h.mounting pledge).walking.compile
  unmount := (h.mounting pledge).unmount
  writing _ _ _ _ hw := hw.of_eq rfl rfl
  reading := (h.perusal pledge).get
  shading t := (h.perusal pledge).pausing t
  set := (hI.chores h pledge).set
  listener := h.listener
  assemble {w options data} held _ _ _ hw := by
    obtain ⟨w₁, row, hbefore, -, -, hafter⟩ := World.raises_assemble { w with held } options data
    exact hw.of_eq (hafter.watchers.trans hbefore.watchers) (hafter.nodes.trans hbefore.nodes)
  simple hsimple hP hok hw := (hI.chores h pledge).simple hsimple hP hok hw

end Steps

/-- However deep the engine is entered again, it leads back to what the node shows. -/
theorem reflecting (depth : Nat) (waiting : List Subscriber) :
    Reflecting application start i n form (reentryUnder P application depth waiting) := by
  induction depth generalizing waiting with
  | zero =>
    exact ⟨hI.programs, rfl, rfl, rfl, fun _ _ => Keeps.exhausted _, fun _ _ _ _ => Keeps.exhausted _⟩
  | succ depth inductionHypothesis =>
    refine ⟨hI.programs, rfl, rfl, rfl, fun pledge => ?_, fun pledge _ _ hprogram => ?_⟩
    · refine keeps_notifyUnder (fun _ _ hw => hw.of_eq rfl rfl) (fun _ hw => hw.of_eq rfl rfl) (fun _ _ _ hP => hP)
        (fun _ _ _ _ hP => hP) (fun waiting subscriber w hP hw => ?_) waiting
      exact hI.updateSubscriber (inductionHypothesis waiting) hP hw
    · exact (hI.service (inductionHypothesis waiting) pledge).followUnder hprogram

end Displays

/-! ### Values that are shown -/

theorem Reflecting.updateWatcher_of_render
    (h : Reflecting application start i n (Value.front (start.node n).isElement) c)
    {updater : Updater} (hreaction : (start.watcher i).reaction = .render updater n)
    (hsets : updater.Sets (start.node n).isElement) :
    Keeps (start.Reflects i n (Value.front (start.node n).isElement) pledge) (updateWatcher c i)
      (updateWatcher c i) := by
  refine (h.perusal pledge).keeping _ fun w hw => ?_
  rw [ends_inspect_bind]
  cases (w.watcher i).disposed with
  | true => exact (ends_pure ()).mpr hw
  | false =>
    refine (h.recurring.evaluateWatcher recurs_reflects i w hw).bind (fun value v hv => ?_) fun _ _ hv => hv
    rw [ends_inspect_bind]
    split
    · exact (ends_pure ()).mpr hv
    · have hown : (v.watcher i).reaction = .render updater n := (hv.later.reaction hv.watcher).trans hreaction
      rw [ends_update_bind]
      refine Ends.keeping _ (R := fun _ => start.Reflects i n (Value.front (start.node n).isElement) pledge) ?_
        fun _ _ hu => hu.of_eq rfl rfl
      refine Ends.framed _ _ (R := fun _ => start.Reflects i n (Value.front (start.node n).isElement) pledge) ?_
        fun _ _ hu => hu.of_eq rfl rfl
      unfold Engine.note
      rw [ends_update_bind, hown, Engine.react, ends_update]
      let u := v.reacting c.application i value value.refs
      change start.Reflects i n _ pledge (u.display updater n value)
      have hrow : (u.display updater n value).watcher i
          = { v.watcher i with cached := value, fires := (v.watcher i).fires + 1 } := by
        rw [World.display_eq]
        exact World.watcher_reacting v c.application i value value.refs
      have hcached : ((u.display updater n value).watcher i).cached = value := congrArg Watcher.cached hrow
      have hlater : v.Later n (u.display updater n value) :=
        (World.later_reacting v c.application i value value.refs).trans (World.later_display u updater n value)
      refine hv.react hlater (congrArg Watcher.fires hrow) hcached ?_
      have hkind : (u.node n).isElement = (start.node n).isElement := hv.isElement
      rw [World.front_display u updater n value hv.there, hkind, if_pos ⟨rfl, hsets⟩]

theorem displays_render {P : Proviso Code Memory} (hprograms : application.Makes (Request.LeavesFront n))
    {updater : Updater} (hreaction : (start.watcher i).reaction = .render updater n)
    (hsets : updater.Sets (start.node n).isElement) :
    Displays application P start i n (Value.front (start.node n).isElement) where
  programs := hprograms
  told h _ hw := h.updateWatcher_of_render hreaction hsets _ (hw.of_eq rfl rfl)
  asked h _ hw := h.updateWatcher_of_render hreaction hsets _ hw

end Engine

end ViewBinding
