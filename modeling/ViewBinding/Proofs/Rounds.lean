import ViewBinding.Proofs.Abiding
import ViewBinding.Proofs.Turns

/-!
# Everybody is told once

A source that tells its subscribers goes the round of those that it lists and that live, and so does a
node of the listeners that it has for an event. Who is on the round is settled before the first turn. No
source lists anybody twice, whatever programs do, so everybody on a round has one turn in it.
-/

namespace ViewBinding

open Engine

variable {Code Memory : Type}

/-! ### Going the round of a list -/

namespace Engine

section Rounds

variable {β : Type} {ref? : β → Option Ref} {step : β → Engine Code Memory Unit}

/-- A step is run for every member of a list in order, each from the world that the one before it has
left, and with these results. Members whose turn is not over are held. -/
inductive Round (ref? : β → Option Ref) (step : β → Engine Code Memory Unit) :
    List β → World Code Memory → List (Except Error Unit) → World Code Memory → Prop
  | done {w : World Code Memory} : Round ref? step [] w [] w
  | turn {b : β} {rest : List β} {w v w' : World Code Memory} {result : Except Error Unit}
      {results : List (Except Error Unit)}
      (hstep : keeping ((b :: rest).filterMap ref?) (step b) w = some (result, v))
      (hrest : Round ref? step rest v results w') : Round ref? step (b :: rest) w (result :: results) w'

/-- The errors among results, in order. -/
def errorsOf (results : List (Except Error Unit)) : List Error :=
  results.filterMap fun
    | .ok _ => none
    | .error error => some error

/-- What comes of several turns: nothing went wrong, a single error, or all errors in one. -/
def verdict : List Error → Except Error Unit
  | [] => .ok ()
  | [error] => .error error
  | errors => .error (.notify errors)

theorem collect_eq_verdict (errors : List Error) : Error.collect .notify errors = verdict errors := by
  rcases errors with _ | ⟨first, _ | ⟨second, rest⟩⟩ <;> rfl

theorem attempt_of_run {α : Type} {x : Engine Code Memory α} {r : Except Error α} {w w' : World Code Memory}
    (h : x w = some (r, w')) : attempt x w = some (.ok r, w') := by
  simp [attempt, h]

theorem run_of_attempt {α : Type} {x : Engine Code Memory α} {r : Except Error (Except Error α)}
    {w w' : World Code Memory} (h : attempt x w = some (r, w')) :
    ∃ result, r = .ok result ∧ x w = some (result, w') := by
  obtain ⟨⟨result, v⟩, hrun, heq⟩ := Option.map_eq_some_iff.mp h
  cases heq
  exact ⟨result, rfl, hrun⟩

/-- A round that is gone comes to an end with its errors. -/
theorem Round.failures {l : List β} {w w' : World Code Memory} {results : List (Except Error Unit)}
    (h : Round ref? step l w results w') :
    failures ref? step l w = some (.ok (errorsOf results), w') := by
  induction h with
  | done => rfl
  | @turn b rest w v w' result results hstep _ inductionHypothesis =>
    unfold Engine.failures
    rw [bind_of_run (attempt_of_run hstep), bind_of_run inductionHypothesis]
    cases result <;> rfl

/-- Running a step for every member of a list is going the round, and never fails as a whole. -/
theorem failures_eq_some_iff {l : List β} {w w' : World Code Memory} {r : Except Error (List Error)} :
    failures ref? step l w = some (r, w') ↔
      ∃ results, Round ref? step l w results w' ∧ r = .ok (errorsOf results) := by
  constructor
  · intro h
    induction l generalizing w w' r with
    | nil =>
      cases h
      exact ⟨[], .done, rfl⟩
    | cons b rest inductionHypothesis =>
      obtain ⟨r₁, v, hattempt, hrest⟩ := run_of_bind h
      obtain ⟨result, rfl, hstep⟩ := run_of_attempt hattempt
      obtain ⟨r₂, v', hfailures, -⟩ := run_of_bind (hrest result rfl)
      obtain ⟨results, hround, rfl⟩ := inductionHypothesis hfailures
      have hwhole := (Round.turn hstep hround).failures
      rw [h] at hwhole
      cases hwhole
      exact ⟨_, .turn hstep hround, rfl⟩
  · rintro ⟨results, hround, rfl⟩
    exact hround.failures

/-- Going the round and putting the errors together. -/
theorem collect_failures_eq_some_iff {l : List β} {w w' : World Code Memory} {r : Except Error Unit} :
    (failures ref? step l >>= collect .notify) w = some (r, w') ↔
      ∃ results, Round ref? step l w results w' ∧ r = verdict (errorsOf results) := by
  constructor
  · intro h
    obtain ⟨r₁, v, hfailures, hcollect⟩ := run_of_bind h
    obtain ⟨results, hround, rfl⟩ := failures_eq_some_iff.mp hfailures
    have hrun := hcollect _ rfl
    rw [collect, collect_eq_verdict] at hrun
    cases hrun
    exact ⟨results, hround, rfl⟩
  · rintro ⟨results, hround, rfl⟩
    rw [bind_of_run hround.failures, collect, collect_eq_verdict]
    rfl

end Rounds

end Engine

/-! ### Nobody is listed twice -/

variable [Inhabited Code]

namespace World

/-- No source lists a subscriber twice. -/
def ListsOnce (w : World Code Memory) : Prop :=
  ∀ s, (w.source s).subscribers.Nodup

variable {w : World Code Memory}

omit [Inhabited Code] in
theorem ListsOnce.mapSource (h : w.ListsOnce) (s : SourceId) {f : Source → Source}
    (hf : (f (w.source s)).subscribers.Nodup) : (w.mapSource s f).ListsOnce := by
  intro t
  rw [source_mapSource]
  split
  · exact hf
  · exact h t

omit [Inhabited Code] in
theorem ListsOnce.unregisterAll (h : w.ListsOnce) (x : Subscriber) (l : List SourceId) :
    (w.unregisterAll x l).ListsOnce := by
  induction l generalizing w with
  | nil => exact h
  | cons s rest inductionHypothesis =>
    rw [unregisterAll_cons]
    exact inductionHypothesis (h.mapSource s ((h s).filter _))

theorem ListsOnce.mapDependencies (h : w.ListsOnce) (x : Subscriber) (f : Dependencies → Dependencies) :
    (w.mapDependencies x f).ListsOnce := by
  intro s
  rw [source_mapDependencies]
  exact h s

theorem ListsOnce.closing (h : w.ListsOnce) (application : Application Code Memory) (t : TrackerId)
    (x : Subscriber) (r : Except Error Value) : (w.closing application t x r).ListsOnce := by
  cases r with
  | ok value =>
    exact ListsOnce.unregisterAll (ListsOnce.mapDependencies (w := w.mapTracker t (·.pop)) h x _) x _
  | error error => exact ListsOnce.mapDependencies (w := w.mapTracker t (·.pop)) h x _

theorem ListsOnce.teardownWatcher (h : w.ListsOnce) (id : WatcherId) : (w.teardownWatcher id).ListsOnce := by
  unfold World.teardownWatcher World.clear
  split
  · exact h
  · exact ListsOnce.unregisterAll (ListsOnce.mapDependencies (w := w.mapWatcher id _) h _ _) _ _

end World

namespace Engine

variable {application : Application Code Memory} {w : World Code Memory}

/-- Whatever programs do, no source comes to list a subscriber twice. -/
theorem withstands_listsOnce (application : Application Code Memory)
    (ok : Request Code Memory → World Code Memory → Prop) :
    Withstands application ok fun _ : Unit => World.ListsOnce where
  mapTracker _ _ hw := hw
  note _ hw := hw
  meeting x s hw := World.ListsOnce.mapDependencies
    (World.ListsOnce.mapSource hw s (Source.nodup_register x (hw s))) x _
  evaluating _ x := by
    refine ⟨(), fun t => ⟨fun w hw => ?_, fun w r hw => ?_⟩⟩
    · exact World.ListsOnce.mapDependencies hw x _
    · exact World.ListsOnce.closing hw application t x r
  making {_ w x} held _ hw := by
    refine ⟨(), ?_, fun v value hv => ?_, fun v error hv => ?_⟩
    · exact World.ListsOnce.mapDependencies (w := { (w.addWatcher x).2 with held }) hw _ _
    · exact World.ListsOnce.closing hv application _ _ (.ok value)
    · exact (World.ListsOnce.closing hv application _ _ (.error error)).teardownWatcher _
  reacting _ _ hw := hw
  telling {_ w} s hw := by
    apply World.ListsOnce.mapSource hw s
    rw [World.liveSubscribers_eq_filter]
    exact (hw s).filter _
  teardown id hw := World.ListsOnce.teardownWatcher hw id
  register _ hw := World.ListsOnce.mapSource hw _ (Source.nodup_register _ (hw _))
  unregister _ hw := World.ListsOnce.mapSource hw _ ((hw _).filter _)
  remember _ hw := hw

theorem abides_listsOnce (application : Application Code Memory)
    (ok : Request Code Memory → World Code Memory → Prop) :
    Abides application ok fun _ : Unit => World.ListsOnce :=
  (withstands_listsOnce application ok).abides fun _ _ _ hbuilds hw s => by
    rw [hbuilds.sources]
    exact hw s

end Engine

/-! ### Telling and dispatching -/

/-- The subscribers of a source that live, in the order in which they were registered. -/
def World.audience (w : World Code Memory) (application : Application Code Memory) (s : SourceId) :
    List Subscriber :=
  (w.source s).subscribers.filter fun x => w.alive (application.holds w.memory) x.ref

theorem World.record_telling {application : Application Code Memory} {record : Memory → List Occurrence}
    (hrecord : application.Records record) (w : World Code Memory) (s : SourceId) :
    record (w.telling application s).memory
      = .telling s (w.audience application s) :: record w.memory := by
  rw [audience, ← liveSubscribers_eq_filter]
  exact hrecord _ _

/-- Whatever is notified or dispatched in a world, everybody concerned has one turn. -/
structure World.FansOut (application : Application Code Memory) (depth : Nat) (w : World Code Memory) :
    Prop where
  /-- A notification updates the living subscribers of the source in order, and ends in what went wrong. -/
  notify (s : SourceId) (r : Except Error Unit) (w' : World Code Memory) :
    Engine.notify (reentry application depth) s w = some (r, w') ↔
      ∃ results, Round (fun x => some x.ref) (updateSubscriber (reentry application depth))
        (w.audience application s) (w.telling application s) results w' ∧ r = verdict (errorsOf results)
  /-- If the notification ends, it is the turn of each of them once, and of nobody else. -/
  told (s : SourceId) (outcome : Except Error Unit × World Code Memory) :
    Engine.notify (reentry application depth) s w = some outcome → ∀ x,
      ((∃ v, w.TellsAt application depth s x v) ↔ x ∈ w.audience application s) ∧
        ∀ v v', w.TellsAt application depth s x v → w.TellsAt application depth s x v' → v' = v
  /-- Dispatching runs the listeners that the node has for the event, in order. -/
  dispatch (node : NodeId) (event : String) (r : Except Error Unit) (w' : World Code Memory) :
    Engine.dispatch (reentry application depth) node event w = some (r, w') ↔
      ∃ results v, Round (fun _ => none) (handle (reentry application depth) ⟨event, node⟩)
        ((w.node node).listeners event) { w with held := .node node :: w.held } results v ∧
          r = verdict (errorsOf results) ∧ w' = { v with held := w.held }
  /-- Nobody is on a round twice. -/
  nodup (s : SourceId) : (w.audience application s).Nodup

namespace Engine

variable {application : Application Code Memory} {w w' : World Code Memory} {r : Except Error Unit}
  {depth : Nat}

/-- A notification goes the round of the living subscribers. -/
theorem notify_eq_some_iff {s : SourceId} :
    notify (reentry application depth) s w = some (r, w') ↔
      ∃ results, Round (fun x => some x.ref) (updateSubscriber (reentry application depth))
        (w.audience application s) (w.telling application s) results w' ∧
          r = verdict (errorsOf results) := by
  have happlication : (reentry application depth).application = application := by
    cases depth <;> rfl
  have haudience : w.audience application s = w.liveSubscribers (application.holds w.memory) s :=
    (w.liveSubscribers_eq_filter _ s).symm
  unfold Engine.notify Engine.note
  rw [haudience, ← collect_failures_eq_some_iff, happlication]
  exact Iff.rfl

/-- Dispatching goes the round of the listeners. -/
theorem dispatch_eq_some_iff {node : NodeId} {event : String} :
    dispatch (reentry application depth) node event w = some (r, w') ↔
      ∃ results v, Round (fun _ => none) (handle (reentry application depth) ⟨event, node⟩)
        ((w.node node).listeners event) { w with held := .node node :: w.held } results v ∧
          r = verdict (errorsOf results) ∧ w' = { v with held := w.held } := by
  constructor
  · intro h
    obtain ⟨v, hrun, rfl⟩ := run_of_keeping h
    obtain ⟨results, hround, hr⟩ := collect_failures_eq_some_iff.mp hrun
    exact ⟨results, v, hround, hr, rfl⟩
  · rintro ⟨results, v, hround, hr, rfl⟩
    exact Option.map_eq_some_iff.mpr ⟨(r, v), collect_failures_eq_some_iff.mpr ⟨results, hround, hr⟩, rfl⟩

end Engine

/-- Where nobody is listed twice, everybody has one turn. -/
theorem World.ListsOnce.fansOut {w : World Code Memory} (h : w.ListsOnce)
    (application : Application Code Memory) (depth : Nat) : w.FansOut application depth where
  notify _ _ _ := notify_eq_some_iff
  dispatch _ _ _ _ := dispatch_eq_some_iff
  nodup s := (h s).filter _
  told s outcome hrun x := by
    have haudience : w.audience application s = w.liveSubscribers (application.holds w.memory) s :=
      (w.liveSubscribers_eq_filter _ s).symm
    rw [haudience]
    refine ⟨⟨fun ⟨v, hturn⟩ => hturn.mem, fun hmem => ?_⟩, fun v v' hturn hturn' => ?_⟩
    · obtain ⟨results, hround, -⟩ := notify_eq_some_iff.mp hrun
      rw [haudience] at hround
      exact exists_turn hround.failures hmem
    · refine hturn.unique hturn' (p := fun _ => true) rfl (List.Pairwise.filter _ ?_)
      rw [← haudience]
      exact (h s).filter _

/--
Everybody is told once. Whatever programs do, and at every moment of a run: a notification updates every
subscriber that was listed and alive when it began exactly once, in the order of registration, and nobody
else, and it ends well, in the only error or in all of them; so does an event with its listeners.
-/
theorem Engine.everybody_is_told_once {α : Type} (application : Application Code Memory)
    (program : Program Code Memory α) (memory : Memory) (depth : Nat) :
    Throughout (fun _ _ w => ∀ levels, w.FansOut application levels) application depth program
      { memory } := by
  refine (abides_listsOnce application _).throughout (i := ()) application.makes_true
    program.makes_true ?_ ?_
  · exact fun _ _ _ w hw levels => hw.fansOut application levels
  · exact fun s => List.nodup_nil

end ViewBinding
