import ViewBinding.Id

/-!
# Who is told about changes

A change source keeps its subscribers in the order of registration. A subscriber keeps the sources
that its last evaluation read: `current` is that list, `pending` the one being collected. A tracker
is the stack of subscribers that are evaluating; a pause hides those below it.
-/

namespace ViewBinding

inductive Subscriber where
  | watcher (id : WatcherId)
  | computed (id : ComputedId)
  | probe (id : ProbeId)
  deriving DecidableEq, Repr, Inhabited

structure Source where
  subscribers : List Subscriber := []
  deriving Repr, Inhabited

namespace Source

/-- One that is registered keeps its place. -/
def register (s : Source) (subscriber : Subscriber) : Source :=
  if subscriber ∈ s.subscribers then s else ⟨s.subscribers ++ [subscriber]⟩

def unregister (s : Source) (subscriber : Subscriber) : Source :=
  ⟨s.subscribers.filter (· ≠ subscriber)⟩

@[simp] theorem mem_register {s : Source} {x subscriber : Subscriber} :
    x ∈ (s.register subscriber).subscribers ↔ x ∈ s.subscribers ∨ x = subscriber := by
  unfold register
  split
  · next h => exact ⟨Or.inl, fun hx => hx.elim id fun e => e ▸ h⟩
  · simp

@[simp] theorem mem_unregister {s : Source} {x subscriber : Subscriber} :
    x ∈ (s.unregister subscriber).subscribers ↔ x ∈ s.subscribers ∧ x ≠ subscriber := by
  simp [unregister]

theorem nodup_register {s : Source} (subscriber : Subscriber) (h : s.subscribers.Nodup) :
    (s.register subscriber).subscribers.Nodup := by
  unfold register
  split
  · exact h
  · next hnew =>
    rw [List.nodup_append]
    exact ⟨h, by simp, fun x hx y hy e => hnew (List.mem_singleton.mp hy ▸ e ▸ hx)⟩

end Source

/-- The subscriber that is evaluating, or nobody while tracking is paused. -/
abbrev Frame := Option Subscriber

structure Tracker where
  /-- The newest frame first. -/
  frames : List Frame := []
  deriving Repr, Inhabited

namespace Tracker

/-- The subscriber that reads are tracked for. -/
def current? (t : Tracker) : Option Subscriber :=
  match t.frames with
  | some subscriber :: _ => some subscriber
  | _ => none

def push (t : Tracker) (frame : Frame) : Tracker :=
  ⟨frame :: t.frames⟩

def pop (t : Tracker) : Tracker :=
  ⟨t.frames.tail⟩

end Tracker

structure Dependencies where
  current : List SourceId := []
  pending : List SourceId := []
  deriving Repr, Inhabited

namespace Dependencies

/-- Starts to collect anew. -/
def begin (d : Dependencies) : Dependencies :=
  { d with pending := [] }

/-- Notes a source that was read. -/
def record (d : Dependencies) (source : SourceId) : Dependencies :=
  if source ∈ d.pending then d else { d with pending := d.pending ++ [source] }

/-- What a successful evaluation collected takes the place of the list before. -/
def settle (d : Dependencies) : Dependencies :=
  ⟨d.pending, []⟩

/-- The sources that a successful evaluation did not read again. -/
def stale (d : Dependencies) : List SourceId :=
  d.current.filter (· ∉ d.pending)

/-- What a failed evaluation collected is added to the list before. -/
def merge (d : Dependencies) : Dependencies :=
  ⟨d.current ++ d.pending.filter (· ∉ d.current), []⟩

@[simp] theorem mem_pending_record {d : Dependencies} {x source : SourceId} :
    x ∈ (d.record source).pending ↔ x ∈ d.pending ∨ x = source := by
  unfold record
  split
  · next h => exact ⟨Or.inl, fun hx => hx.elim id fun e => e ▸ h⟩
  · simp

@[simp] theorem current_record (d : Dependencies) (source : SourceId) :
    (d.record source).current = d.current := by
  unfold record
  split <;> rfl

@[simp] theorem mem_stale {d : Dependencies} {x : SourceId} :
    x ∈ d.stale ↔ x ∈ d.current ∧ x ∉ d.pending := by
  simp [stale]

@[simp] theorem mem_current_merge {d : Dependencies} {x : SourceId} :
    x ∈ d.merge.current ↔ x ∈ d.current ∨ x ∈ d.pending := by
  by_cases h : x ∈ d.current <;> simp [merge, h]

end Dependencies

end ViewBinding
