import ViewBinding.Proofs.Everywhere
import ViewBinding.Proofs.Telling

/-!
# Supervision that can be computed

If the condition on the moments of a run can be decided, so can supervision: the checked run does what the
supervised run does, and it computes. So a condition holds throughout a run that comes to an end under a
check that implies it.
-/

namespace ViewBinding

variable {Code Memory : Type}

namespace Engine

variable {α : Type}

/-- The step `x`, which has no outcome from a world where the check fails. -/
def checked (P : World Code Memory → Prop) [DecidablePred P] (x : Engine Code Memory α) :
    Engine Code Memory α :=
  fun w => if P w then x w else none

theorem checked_eq (P : World Code Memory → Prop) [DecidablePred P] (x : Engine Code Memory α) :
    checked P x = under P x := by
  funext w
  unfold checked under
  by_cases h : P w
  · rw [if_pos h, if_pos h]
  · rw [if_neg h, if_neg h]

variable [Inhabited Code]

section Requests

variable (P : Moment Code Memory → World Code Memory → Prop) [∀ moment, DecidablePred (P moment)]

def dispatchChecked (c : Reentry Code Memory) (node : NodeId) (event : String) :
    Engine Code Memory Unit := keeping [.node node] do
  let listeners ← inspect fun w => (w.node node).listeners event
  collect .notify (← failures (fun _ => none)
    (fun listener => checked (P .acting) (handle c ⟨event, node⟩ listener)) listeners)

def inputChecked (c : Reentry Code Memory) (node : NodeId) (value : Value) : Engine Code Memory Unit := do
  update (·.display .value node value)
  dispatchChecked P c node "input"

def constructChecked (c : Reentry Code Memory) (options : Options Code) :
    Engine Code Memory ViewModelId := keeping (options.data.refs) do
  let data ← ofExcept (← inspect (·.checkOptions options))
  let owner ← create (·.assemble options data)
  checked (P .acting) do
    if let some target := options.target then
      let _ ← mount c owner target
    return owner

/-- Carrying out a request, with its moments checked. -/
def fulfilChecked (c : Reentry Code Memory) :
    (request : Request Code Memory) → Engine Code Memory request.Answer
  | .dispatch node event => dispatchChecked P c node event
  | .input node value => keeping [.node node] (inputChecked P c node value)
  | .newViewModel options => constructChecked P c options
  | request => fulfil c request

/-- Following a program, with its moments checked. -/
def followChecked (c : Reentry Code Memory) : Program Code Memory α → Engine Code Memory α
  | .done result => checked (P .acting) (return result)
  | .fail error => checked (P .acting) (throw error)
  | .look next => checked (P .acting) fun w => followChecked c (next w) w
  | .ask request next => checked (P (.asking request)) do
    followChecked c (next (← attempt (fulfilChecked P c request)))

theorem fulfilChecked_eq (c : Reentry Code Memory) (request : Request Code Memory) :
    fulfilChecked P c request = fulfilUnder P c request := by
  have hdispatch : ∀ node event, dispatchChecked P c node event = dispatchUnder P c node event :=
    fun node event => by simp only [dispatchChecked, dispatchUnder, checked_eq]
  cases request with
  | dispatch node event => exact hdispatch node event
  | input node value =>
    change keeping _ (inputChecked P c node value) = keeping _ (inputUnder P c node value)
    rw [inputChecked, hdispatch, inputUnder]
  | newViewModel options =>
    change constructChecked P c options = constructUnder P c options
    refine congrArg (keeping _) (congrArg (Bind.bind _) (funext fun result => ?_))
    refine congrArg (Bind.bind _) (funext fun data => congrArg (Bind.bind _) (funext fun owner => ?_))
    exact checked_eq _ _
  | _ => rfl

theorem followChecked_eq (c : Reentry Code Memory) (program : Program Code Memory α) :
    followChecked P c program = followUnder P c program := by
  induction program with
  | done result => exact checked_eq _ _
  | fail error => exact checked_eq _ _
  | look next inductionHypothesis =>
    simp only [followChecked, followUnder, checked_eq, inductionHypothesis]
  | ask request next inductionHypothesis =>
    simp only [followChecked, followUnder, checked_eq, fulfilChecked_eq, inductionHypothesis]

end Requests

section Runs

variable (P : Proviso Code Memory) [∀ waiting moment, DecidablePred (P waiting moment)]

/-- Telling subscribers in turn, with the moments checked. -/
def tellChecked (next : List Subscriber → Reentry Code Memory) (waiting : List Subscriber) :
    List Subscriber → Engine Code Memory (List Error)
  | [] => return []
  | subscriber :: rest => do
    let result ← attempt (keeping ((subscriber :: rest).filterMap fun s => some s.ref)
      (checked (P (subscriber :: (rest ++ waiting)) .acting)
        (updateSubscriber (next (rest ++ waiting)) subscriber)))
    let errors ← tellChecked next waiting rest
    match result with
    | .ok _ => return errors
    | .error error => return error :: errors

def notifyChecked (application : Application Code Memory) (next : List Subscriber → Reentry Code Memory)
    (waiting : List Subscriber) (source : SourceId) :
    Engine Code Memory Unit := checked (P waiting (.telling source)) do
  let live ← inspect fun w => w.liveSubscribers (application.holds w.memory) source
  update (·.mapSource source fun _ => ⟨live⟩)
  update (·.note application (.telling source live))
  collect .notify (← tellChecked P next waiting live)

/-- The checked engine as its own steps enter it again. -/
def reentryChecked (application : Application Code Memory) : Nat → List Subscriber → Reentry Code Memory
  | 0, _ => { application, depth := 0, notify := fun _ => exhausted, run := fun _ => exhausted }
  | depth + 1, waiting =>
    { application, depth := depth + 1,
      notify := fun source => notifyChecked P application (reentryChecked application depth) waiting source,
      run := fun program => followChecked (P waiting) (reentryChecked application depth waiting) program }

/-- Runs a program of the embedder under check. -/
def runChecked (application : Application Code Memory) (depth : Nat) (program : Program Code Memory α) :
    Engine Code Memory α :=
  followChecked (P []) (reentryChecked P application depth []) program

theorem tellChecked_eq (next : List Subscriber → Reentry Code Memory) (waiting l : List Subscriber) :
    tellChecked P next waiting l = tellUnder P next waiting l := by
  induction l with
  | nil => rfl
  | cons subscriber rest inductionHypothesis =>
    have hturn := checked_eq (P (subscriber :: (rest ++ waiting)) .acting)
      (updateSubscriber (next (rest ++ waiting)) subscriber)
    unfold tellChecked tellUnder
    rw [hturn]
    exact congrArg (Bind.bind _) (funext fun result => congrArg (Bind.bind · _) inductionHypothesis)

theorem reentryChecked_eq (application : Application Code Memory) (depth : Nat)
    (waiting : List Subscriber) :
    reentryChecked P application depth waiting = reentryUnder P application depth waiting := by
  induction depth generalizing waiting with
  | zero => rfl
  | succ depth inductionHypothesis =>
    have hnext : reentryChecked P application depth = reentryUnder P application depth :=
      funext inductionHypothesis
    simp only [reentryChecked, reentryUnder, notifyChecked, notifyUnder, checked_eq, tellChecked_eq,
      followChecked_eq, hnext]

/-- The checked run is the supervised one. -/
theorem runChecked_eq (application : Application Code Memory) (depth : Nat)
    (program : Program Code Memory α) :
    runChecked P application depth program = runUnder P application depth program := by
  rw [runChecked, followChecked_eq, reentryChecked_eq, runUnder]

end Runs

/-- Nothing is kept by everything. -/
theorem invariant_true (application : Application Code Memory) :
    Invariant application (fun _ _ => True) fun _ => True := by
  constructor
  case toRemains => constructor <;> intros <;> trivial
  all_goals intros; trivial

/-- What follows from a check holds throughout a run that comes to an end under it. -/
theorem throughout_of_runChecked {P P' : Proviso Code Memory}
    [∀ waiting moment, DecidablePred (P waiting moment)] {application : Application Code Memory}
    {depth : Nat} {program : Program Code Memory α} {w : World Code Memory}
    (hP : ∀ waiting moment w, P waiting moment w → P' waiting moment w)
    (hends : (runChecked P application depth program w).isSome = true) :
    Throughout P' application depth program w := by
  obtain ⟨outcome, hchecked⟩ := Option.isSome_iff_exists.mp hends
  rw [runChecked_eq] at hchecked
  have hfollows : ∀ {P' : Proviso Code Memory},
      (∀ waiting moment w, P waiting moment w → P' waiting moment w) →
        runUnder P' application depth program w = some outcome := fun hP' =>
    ((invariant_true application).runUnder (fun waiting moment w _ => hP' waiting moment w)
      application.makes_true depth program.makes_true w trivial _ _ hchecked).1
  have hrun : run application depth program w = some outcome := by
    rw [← runUnder_of_holds (P := fun _ _ _ => True) fun _ _ _ => trivial]
    exact hfollows fun _ _ _ _ => trivial
  intro outcome' hrun'
  rw [hrun] at hrun'
  cases hrun'
  exact hfollows hP

end Engine

/-! ### What can be seen of a world -/

variable [Inhabited Code]

namespace World

/-- Whether a key stands for a field that is observed. -/
def isHeard (w : World Code Memory) (object : ObjectId) (key : String) : Bool :=
  match w.slotAt object key with
  | some (.field _ source) => source.isSome
  | _ => false

/-- Whether a key stands for a computed property. -/
def isComputed (w : World Code Memory) (object : ObjectId) (key : String) : Bool :=
  match w.slotAt object key with
  | some (.computed _) => true
  | _ => false

omit [Inhabited Code] in
theorem heard_of_isHeard {w : World Code Memory} {object : ObjectId} {key : String}
    (h : w.isHeard object key = true) :
    w.Heard (.property object key) ∧ ∀ id, w.slotAt object key ≠ some (.computed id) := by
  unfold isHeard at h
  simp only [Heard]
  split at h
  · next hslot => exact ⟨hslot ▸ h, fun id hid => by rw [hslot] at hid; cases hid⟩
  · cases h

omit [Inhabited Code] in
theorem heard_of_isComputed {w : World Code Memory} {object : ObjectId} {key : String}
    (h : w.isComputed object key = true) : w.Heard (.property object key) := by
  unfold isComputed at h
  simp only [Heard]
  split at h
  · next hslot =>
    rw [hslot]
    trivial
  · cases h

end World

/-- Whether a request can be seen to be proper, whatever the realm. -/
def Request.harmless (w : World Code Memory) : Request Code Memory → Bool
  | .insert object key _ => ((w.object object).slot? key).isNone
  | .newViewModel options =>
    match w.checkOptions options with
    | .ok data => decide (Key.index data < w.objects.size) && options.computed.toList.all fun pair =>
        ((w.object data).slot? pair.1).isNone && (w.hearer data pair.1).isNone
    | .error _ => true
  | .newObject => true
  | .get .. => true
  | .set .. => true
  | .watchOn .. => true
  | _ => false

omit [Inhabited Code] in
theorem Realm.proper_of_harmless {k : Realm Code Memory} {w : World Code Memory}
    {request : Request Code Memory} (h : request.harmless w = true) : k.Proper w request := by
  cases request with
  | insert object key value =>
    have hnone : (w.object object).slot? key = none := Option.isNone_iff_eq_none.mp h
    refine ⟨hnone ▸ trivial, fun old source hslot => ?_⟩
    rw [hnone] at hslot
    cases hslot
  | newViewModel options =>
    intro data hdata
    simp only [Request.harmless, hdata, Bool.and_eq_true, decide_eq_true_eq, List.all_eq_true,
      Option.isNone_iff_eq_none] at h
    exact h
  | newObject => trivial
  | get object key reader => trivial
  | set object key value => trivial
  | watchOn owner path code => trivial
  | _ => cases h

end ViewBinding
