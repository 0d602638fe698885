import ViewBinding.Proofs.Outcome

/-!
# The moments of a run

Between the outermost operation and its end, a program of the embedder has its say many times, and
many sources tell their subscribers. A run under supervision is the run itself, step for step, but it
has no outcome when a proviso fails at one of its moments. So a proviso holds throughout a run if every
outcome of the run is an outcome under supervision too.
-/

namespace ViewBinding

/-- What happens next at a moment of a run. -/
inductive Moment (Code Memory : Type) where
  /-- A program looks, ends or begins, or it is the turn of a subscriber or of a listener. -/
  | acting
  /-- A program is about to make a request. -/
  | asking (request : Request Code Memory)
  /-- A source is about to tell its subscribers. -/
  | telling (source : SourceId)

/-- A condition on the moments of a run, given who is still waiting to be told at that moment. -/
abbrev Proviso (Code Memory : Type) :=
  List Subscriber → Moment Code Memory → World Code Memory → Prop

namespace Engine

variable {Code Memory : Type}

open Classical in
/-- The step `x`, which has no outcome from a world where the condition fails. -/
noncomputable def under {α : Type} (P : World Code Memory → Prop) (x : Engine Code Memory α) :
    Engine Code Memory α :=
  fun w => if P w then x w else none

theorem Ends.under {α : Type} {w : World Code Memory} {x y : Engine Code Memory α}
    {P P' : World Code Memory → Prop} {Q : Except Error α → World Code Memory → Prop}
    (hP : P w → P' w) (hx : P w → Ends w x y Q) : Ends w (under P x) (under P' y) Q := by
  intro r w' h
  unfold Engine.under at h ⊢
  by_cases hw : P w
  · rw [if_pos hw] at h
    rw [if_pos (hP hw)]
    exact hx hw r w' h
  · rw [if_neg hw] at h
    cases h

theorem under_of_holds {α : Type} {P : World Code Memory → Prop} {x : Engine Code Memory α}
    (hP : ∀ w, P w) : under P x = x := by
  funext w
  exact if_pos (hP w)

variable [Inhabited Code] (P : Moment Code Memory → World Code Memory → Prop)

/-- Dispatching an event, with a moment before the turn of every listener. -/
noncomputable def dispatchUnder (c : Reentry Code Memory) (node : NodeId) (event : String) :
    Engine Code Memory Unit := keeping [.node node] do
  let listeners ← inspect fun w => (w.node node).listeners event
  collect .notify (← failures (fun _ => none)
    (fun listener => under (P .acting) (handle c ⟨event, node⟩ listener)) listeners)

/-- Giving input, with a moment before the turn of every listener. -/
noncomputable def inputUnder (c : Reentry Code Memory) (node : NodeId) (value : Value) :
    Engine Code Memory Unit := do
  update (·.display .value node value)
  dispatchUnder P c node "input"

/-- Making a view model, with a moment before it is mounted. -/
noncomputable def constructUnder (c : Reentry Code Memory) (options : Options Code) :
    Engine Code Memory ViewModelId := keeping (options.data.refs) do
  let data ← ofExcept (← inspect (·.checkOptions options))
  let owner ← create (·.assemble options data)
  under (P .acting) do
    if let some target := options.target then
      let _ ← mount c owner target
    return owner

/-- Carrying out a request, with moments inside it. -/
noncomputable def fulfilUnder (c : Reentry Code Memory) :
    (request : Request Code Memory) → Engine Code Memory request.Answer
  | .dispatch node event => dispatchUnder P c node event
  | .input node value => keeping [.node node] (inputUnder P c node value)
  | .newViewModel options => constructUnder P c options
  | request => fulfil c request

/-- Following a program, with a moment at every node of it. -/
noncomputable def followUnder {α : Type} (c : Reentry Code Memory) :
    Program Code Memory α → Engine Code Memory α
  | .done result => under (P .acting) (return result)
  | .fail error => under (P .acting) (throw error)
  | .look next => under (P .acting) fun w => followUnder c (next w) w
  | .ask request next => under (P (.asking request)) do
    followUnder c (next (← attempt (fulfilUnder P c request)))

variable (P : Proviso Code Memory)

/-- Telling subscribers in turn. `next` is the engine as it is entered again, given who waits. -/
noncomputable def tellUnder (next : List Subscriber → Reentry Code Memory)
    (waiting : List Subscriber) : List Subscriber → Engine Code Memory (List Error)
  | [] => return []
  | subscriber :: rest => do
    let result ← attempt (keeping ((subscriber :: rest).filterMap fun s => some s.ref)
      (under (P (subscriber :: (rest ++ waiting)) .acting)
        (updateSubscriber (next (rest ++ waiting)) subscriber)))
    let errors ← tellUnder next waiting rest
    match result with
    | .ok _ => return errors
    | .error error => return error :: errors

/-- Notifying a source, while others are waiting to be told by other sources. -/
noncomputable def notifyUnder (application : Application Code Memory)
    (next : List Subscriber → Reentry Code Memory) (waiting : List Subscriber) (source : SourceId) :
    Engine Code Memory Unit := under (P waiting (.telling source)) do
  let live ← inspect fun w => w.liveSubscribers (application.holds w.memory) source
  update (·.mapSource source fun _ => ⟨live⟩)
  update (·.note application (.telling source live))
  collect .notify (← tellUnder P next waiting live)

/-- The supervised engine as its own steps enter it again. -/
noncomputable def reentryUnder (application : Application Code Memory) :
    Nat → List Subscriber → Reentry Code Memory
  | 0, _ => { application, depth := 0, notify := fun _ => exhausted, run := fun _ => exhausted }
  | depth + 1, waiting =>
    { application, depth := depth + 1,
      notify := fun source =>
        notifyUnder P application (reentryUnder application depth) waiting source,
      run := fun program => followUnder (P waiting) (reentryUnder application depth waiting) program }

theorem application_reentryUnder {application : Application Code Memory} (depth : Nat)
    (waiting : List Subscriber) : (reentryUnder P application depth waiting).application = application := by
  cases depth <;> rfl

theorem depth_reentryUnder {application : Application Code Memory} (depth : Nat)
    (waiting : List Subscriber) : (reentryUnder P application depth waiting).depth = depth := by
  cases depth <;> rfl

/-- Runs a program of the embedder under supervision. -/
noncomputable def runUnder {α : Type} (application : Application Code Memory) (depth : Nat)
    (program : Program Code Memory α) : Engine Code Memory α :=
  followUnder (P []) (reentryUnder P application depth []) program

/-- The proviso holds at every moment of a run that comes to an end. -/
def Throughout {α : Type} (application : Application Code Memory) (depth : Nat)
    (program : Program Code Memory α) (w : World Code Memory) : Prop :=
  ∀ outcome, run application depth program w = some outcome →
    runUnder P application depth program w = some outcome

/-! ### Supervision by a proviso that always holds changes nothing -/

variable {P}

theorem tellUnder_of_holds (hP : ∀ waiting m w, P waiting m w) (c : Reentry Code Memory)
    (waiting : List Subscriber) (l : List Subscriber) :
    tellUnder P (fun _ => c) waiting l = failures (fun s => some s.ref) (updateSubscriber c) l := by
  induction l with
  | nil => rfl
  | cons subscriber rest inductionHypothesis =>
    simp only [tellUnder, under_of_holds (hP _ _), inductionHypothesis]
    rfl

theorem fulfilUnder_of_holds (hP : ∀ waiting m w, P waiting m w) (waiting : List Subscriber)
    (c : Reentry Code Memory) (request : Request Code Memory) :
    fulfilUnder (P waiting) c request = fulfil c request := by
  have hdispatch : ∀ node event, dispatchUnder (P waiting) c node event = dispatch c node event := by
    intro node event
    simp only [dispatchUnder, under_of_holds (hP waiting .acting)]
    rfl
  cases request with
  | dispatch node event => exact hdispatch node event
  | input node value =>
    change keeping _ (inputUnder (P waiting) c node value) = keeping _ (input c node value)
    rw [inputUnder, hdispatch, input]
  | newViewModel options =>
    change constructUnder (P waiting) c options = construct c options
    simp only [constructUnder, under_of_holds (hP waiting .acting)]
    rfl
  | _ => rfl

theorem followUnder_of_holds {α : Type} (hP : ∀ waiting m w, P waiting m w)
    (waiting : List Subscriber) (c : Reentry Code Memory) (program : Program Code Memory α) :
    followUnder (P waiting) c program = follow c program := by
  induction program with
  | done result => exact under_of_holds (hP _ _)
  | fail error => exact under_of_holds (hP _ _)
  | look next inductionHypothesis =>
    rw [followUnder, under_of_holds (hP _ _), follow]
    funext w
    rw [inductionHypothesis]
  | ask request next inductionHypothesis =>
    rw [followUnder, under_of_holds (hP _ _), follow, fulfilUnder_of_holds hP]
    simp only [inductionHypothesis]

theorem reentryUnder_of_holds (hP : ∀ waiting m w, P waiting m w)
    (application : Application Code Memory) (depth : Nat) (waiting : List Subscriber) :
    reentryUnder P application depth waiting = reentry application depth := by
  induction depth generalizing waiting with
  | zero => rfl
  | succ depth inductionHypothesis =>
    have h : reentryUnder P application depth = fun _ => reentry application depth :=
      funext inductionHypothesis
    have hrefl : (reentry application depth).application = application := by
      cases depth <;> rfl
    simp only [reentryUnder, reentry, h, notifyUnder, under_of_holds (hP _ _),
      tellUnder_of_holds hP, followUnder_of_holds hP, notify, note, hrefl]

/-- A run under a proviso that always holds is the run. -/
theorem runUnder_of_holds {α : Type} (hP : ∀ waiting m w, P waiting m w)
    (application : Application Code Memory) (depth : Nat) (program : Program Code Memory α) :
    runUnder P application depth program = run application depth program := by
  rw [runUnder, followUnder_of_holds hP, reentryUnder_of_holds hP, run]

end Engine

end ViewBinding
