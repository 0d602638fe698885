import ViewBinding.Proofs.Building
import ViewBinding.Proofs.Steps

/-!
# From the world before to the world after

`Moves P ρ x` says that `x` leads from every world with `P` to worlds that are related to it by `ρ`. A frame that
is put on a stack for a while makes another world to start from, so that a relation can be kept inside it and
outside it, where no property of single worlds is.
-/

namespace ViewBinding

variable {Code Memory : Type}

namespace Engine

variable {α β : Type}

/-- However `x` ends from a world with `P`, the world after is related to the one before. -/
def Moves (P : World Code Memory → Prop) (ρ : World Code Memory → World Code Memory → Prop)
    (x : Engine Code Memory α) : Prop :=
  ∀ w, P w → Ends w x x fun _ => ρ w

/-- A relation that steps can be put together by, and a property of worlds that it passes on. -/
structure Coherent (P : World Code Memory → Prop) (ρ : World Code Memory → World Code Memory → Prop) : Prop where
  refl (w : World Code Memory) : ρ w w
  trans {w w₁ w₂ : World Code Memory} : ρ w w₁ → ρ w₁ w₂ → ρ w w₂
  lasts {w w₁ : World Code Memory} : ρ w w₁ → P w → P w₁
  held (w : World Code Memory) (held : List Ref) : ρ w { w with held }

namespace Moves

variable {P Q : World Code Memory → Prop} {ρ : World Code Memory → World Code Memory → Prop}
  {x : Engine Code Memory α} {f : α → Engine Code Memory β}

theorem of_imp (h : Moves P ρ x) (hQ : ∀ w, Q w → P w) : Moves Q ρ x :=
  fun w hw => h w (hQ w hw)

theorem exhausted : Moves P ρ (exhausted : Engine Code Memory α) :=
  fun _ _ => ends_exhausted _

theorem update {g : World Code Memory → World Code Memory} (hg : ∀ w, P w → ρ w (g w)) :
    Moves P ρ (update g) :=
  fun w hw => (ends_update g).mpr (hg w hw)

theorem create {g : World Code Memory → α × World Code Memory} (hg : ∀ w, P w → ρ w (g w).2) :
    Moves P ρ (create g) :=
  fun w hw => (ends_create g).mpr (hg w hw)

theorem attempt (hx : Moves P ρ x) : Moves P ρ (attempt x) :=
  fun w hw => (hx w hw).attempt fun _ _ h => h

variable (hρ : Coherent P ρ)

include hρ

theorem pure (a : α) : Moves P ρ (pure a : Engine Code Memory α) :=
  fun w _ => (ends_pure a).mpr (hρ.refl w)

theorem throw (e : Error) : Moves P ρ (throw e : Engine Code Memory α) :=
  fun w _ => (ends_throw e).mpr (hρ.refl w)

theorem ofExcept (r : Except Error α) : Moves P ρ (ofExcept r) :=
  fun w _ => (ends_ofExcept r).mpr (hρ.refl w)

theorem inspect (see : World Code Memory → α) : Moves P ρ (inspect see) :=
  fun w _ => (ends_inspect see).mpr (hρ.refl w)

/-- What comes after a move starts where it led. -/
theorem bind (hx : Moves P ρ x) (hf : ∀ a, Moves P ρ (f a)) : Moves P ρ (x >>= f) := by
  intro w hw
  refine (hx w hw).bind (fun a w' hw' => ?_) fun _ _ hw' => hw'
  exact (hf a w' (hρ.lasts hw' hw)).mono fun _ _ h => hρ.trans hw' h

theorem keeping (refs : List Ref) (hx : Moves P ρ x) : Moves P ρ (keeping refs x) := by
  intro w hw
  have hheld : ρ w { w with held := refs ++ w.held } := hρ.held w _
  refine (hx _ (hρ.lasts hheld hw)).keeping refs fun _ w' hw' => ?_
  exact hρ.trans (hρ.trans hheld hw') (hρ.held w' _)

theorem failures {γ : Type} (ref? : γ → Option Ref) {step : γ → Engine Code Memory Unit} {l : List γ}
    (hstep : ∀ b ∈ l, Moves P ρ (step b)) : Moves P ρ (failures ref? step l) := by
  induction l with
  | nil => exact pure hρ []
  | cons b rest inductionHypothesis =>
    refine bind hρ (keeping hρ _ (hstep b List.mem_cons_self)).attempt fun result => ?_
    refine bind hρ (inductionHypothesis fun b hb => hstep b (List.mem_cons_of_mem _ hb)) fun errors => ?_
    cases result with
    | ok _ => exact pure hρ errors
    | error error => exact pure hρ (error :: errors)

theorem tallyAll {step : NodeId → Engine Code Memory Tally} (hstep : ∀ node, Moves P ρ (step node))
    (nodes : List NodeId) : Moves P ρ (tallyAll step nodes) := by
  induction nodes with
  | nil => exact pure hρ _
  | cons node rest inductionHypothesis =>
    exact bind hρ (hstep node) fun _ => bind hρ inductionHypothesis fun _ => pure hρ _

end Moves

end Engine

/-! ### Guards -/

/-- A request that puts a frame on a stack or takes one off. -/
def Request.Guards : Request Code Memory → Prop
  | .enter .. | .leave .. => True
  | _ => False

/-- A program takes off every frame that it puts on a stack, however it goes on, and makes requests that are
`ok`. The list says on which stacks it still has frames. -/
inductive Program.Closes (ok : Request Code Memory → Prop) {α : Type} :
    List TrackerId → Program Code Memory α → Prop
  | done (result : α) : Closes ok [] (.done result)
  | fail (error : Error) : Closes ok [] (.fail error)
  | look {guards : List TrackerId} {next : World Code Memory → Program Code Memory α}
      (hnext : ∀ w, Closes ok guards (next w)) : Closes ok guards (.look next)
  | enter {guards : List TrackerId} {tracker : TrackerId} {frame : Frame}
      {next : Except Error Unit → Program Code Memory α} (hok : ok (.enter tracker frame))
      (hnext : Closes ok (tracker :: guards) (next (.ok ()))) : Closes ok guards (.ask (.enter tracker frame) next)
  | leave {guards : List TrackerId} {tracker : TrackerId}
      {next : Except Error Unit → Program Code Memory α} (hmem : tracker ∈ guards)
      (hnext : Closes ok (guards.erase tracker) (next (.ok ()))) : Closes ok guards (.ask (.leave tracker) next)
  | ask {guards : List TrackerId} {request : Request Code Memory}
      {next : Except Error request.Answer → Program Code Memory α} (hplain : ¬ request.Guards)
      (hok : ok request) (hnext : ∀ answer, Closes ok guards (next answer)) :
      Closes ok guards (.ask request next)

namespace Program

variable {ok : Request Code Memory → Prop} {α β : Type}

theorem closes_request {r : Request Code Memory} (hplain : ¬ r.Guards) (hok : ok r) : (request r).Closes ok [] := by
  refine .ask hplain hok fun answer => ?_
  cases answer with
  | ok a => exact .done a
  | error error => exact .fail error

theorem Closes.bind {p : Program Code Memory α} {f : α → Program Code Memory β} {guards : List TrackerId}
    (hp : p.Closes ok guards) (hf : ∀ a, (f a).Closes ok []) : (p >>= f).Closes ok guards := by
  induction hp with
  | done result => exact hf result
  | fail error => exact .fail error
  | look _ inductionHypothesis => exact .look inductionHypothesis
  | enter hok _ inductionHypothesis => exact .enter hok inductionHypothesis
  | leave hmem _ inductionHypothesis => exact .leave hmem inductionHypothesis
  | ask hplain hok _ inductionHypothesis => exact .ask hplain hok inductionHypothesis

end Program

/-- An embedder whose programs all leave no frames behind. -/
structure Application.Closes (application : Application Code Memory) (ok : Request Code Memory → Prop) : Prop where
  callback (code : Code) (value : Value) : (application.callback code value).Closes ok []
  method (code : Code) (owner : ViewModelId) (event : Event) : (application.method code owner event).Closes ok []
  listener (code : Code) (event : Event) : (application.listener code event).Closes ok []
  getter (code : Code) (owner? : Option ViewModelId) : (application.getter code owner?).Closes ok []
  update (code : Code) : (application.update code).Closes ok []
  install (code : Code) (owner : ViewModelId) (node : NodeId) (directive : Directive) :
    (application.install code owner node directive).Closes ok []

/-- Every row changed in the same way. -/
def Table.mapRows {κ ρ : Type} [Key κ] (t : Table κ ρ) (f : κ → ρ → ρ) : Table κ ρ :=
  ⟨t.rows.mapIdx fun i row => f (Key.ofIndex i) row⟩

theorem Table.get_mapRows {κ ρ : Type} [Key κ] [Inhabited ρ] (t : Table κ ρ) {f : κ → ρ → ρ}
    (hf : ∀ k, f k default = default) (k : κ) : (t.mapRows f).get k = f k (t.get k) := by
  unfold Table.get Table.mapRows
  rw [Array.getD_eq_getD_getElem?, Array.getD_eq_getD_getElem?, Array.getElem?_mapIdx]
  cases t.rows[Key.index k]? with
  | none => exact (hf k).symm
  | some row =>
    rw [Option.map_some, Option.getD_some, Option.getD_some, Key.ofIndex_index]

namespace World

/-- The world without the newest frames of its stacks, `n` of each. -/
def lowered (w : World Code Memory) (n : TrackerId → Nat) : World Code Memory :=
  { w with trackers := w.trackers.mapRows fun t x => ⟨x.frames.drop (n t)⟩ }

theorem tracker_lowered (w : World Code Memory) (n : TrackerId → Nat) (t : TrackerId) :
    (w.lowered n).tracker t = ⟨(w.tracker t).frames.drop (n t)⟩ :=
  Table.get_mapRows w.trackers (fun t => congrArg Tracker.mk (List.drop_nil (i := n t))) t

variable [Inhabited Code]

/-- Worlds that differ in nothing but how their stacks are written down. -/
theorem builds_of_tracker {w w' : World Code Memory} (hrest : w' = { w with trackers := w'.trackers })
    (htracker : ∀ t, w'.tracker t = w.tracker t) : w.Builds w' where
  sources s := by rw [hrest]; rfl
  trackers := htracker
  watchers := by rw [hrest]
  dependencies id := by rw [hrest]; rfl
  memory := by rw [hrest]

end World

/-- The stacks are as they should be when something happens: a watcher reacts while its tracker is paused, and
the getter of a memoized property runs in a frame of the property. -/
def Occurrence.Framed [Inhabited Code] (w : World Code Memory) : Occurrence → Prop
  | .reacting id _ => (w.tracker (w.watcher id).tracker).frames.head? = some none
  | .computing id => (w.computed id).memoize = true →
      (w.tracker (w.computed id).tracker).frames.head? = some (some (.computed id))
  | _ => True

theorem framed_reacting [Inhabited Code] {w : World Code Memory} {id : WatcherId} {value : Value} :
    Occurrence.Framed w (.reacting id value) ↔
      (w.tracker (w.watcher id).tracker).frames.head? = some none :=
  Iff.rfl

theorem framed_computing [Inhabited Code] {w : World Code Memory} {id : ComputedId} :
    Occurrence.Framed w (.computing id) ↔ ((w.computed id).memoize = true →
      (w.tracker (w.computed id).tracker).frames.head? = some (some (.computed id))) :=
  Iff.rfl

/-- A property that evaluates has its own frame on top. -/
theorem framed_opening [Inhabited Code] (w : World Code Memory) (application : Application Code Memory)
    (id : ComputedId) :
    Occurrence.Framed (w.opening application (w.computed id).tracker (.computed id)) (.computing id) := by
  rw [framed_computing]
  intro _
  have htracker : ((w.opening application (w.computed id).tracker (.computed id)).computed id).tracker
      = (w.computed id).tracker := by
    change ((w.mapComputed id _).computed id).tracker = _
    rw [World.computed_mapComputed, if_pos rfl]
  rw [htracker, World.opening, World.tracker_mapTracker, if_pos rfl]
  rfl

end ViewBinding
