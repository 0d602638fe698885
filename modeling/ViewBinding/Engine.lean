import ViewBinding.Program
import ViewBinding.World.Ownership

/-!
# The engine

A step of the engine changes a world and ends in a result or an error; what it changed stays changed
in both cases. It has no outcome at all when notifications and programs are nested deeper than
allowed, which is how a cascade without end appears.
-/

namespace ViewBinding

abbrev Engine (Code Memory : Type) := ExceptT Error (StateT (World Code Memory) Option)

namespace Engine

variable {Code Memory α : Type}

/-- The step that has no outcome. -/
def exhausted : Engine Code Memory α :=
  fun _ => none

def inspect (f : World Code Memory → α) : Engine Code Memory α :=
  fun w => some (.ok (f w), w)

def update (f : World Code Memory → World Code Memory) : Engine Code Memory Unit :=
  fun w => some (.ok (), f w)

/-- Adds something to the world and answers what it is. -/
def create (f : World Code Memory → α × World Code Memory) : Engine Code Memory α :=
  fun w => some (.ok (f w).1, (f w).2)

/-- A step that does not fail and answers how `x` ended. -/
def attempt (x : Engine Code Memory α) : Engine Code Memory (Except Error α) :=
  fun w => (x w).map fun (result, w) => (.ok result, w)

def ofExcept (result : Except Error α) : Engine Code Memory α :=
  fun w => some (result, w)

/-- Runs `x` with a frame on a tracker's stack, which is taken off however `x` ends. -/
def framed (reader : Option TrackerId) (frame : Frame) (x : Engine Code Memory α) :
    Engine Code Memory α :=
  match reader with
  | none => x
  | some t => fun w =>
    (x (w.mapTracker t (·.push frame))).map fun (result, w) =>
      (result, w.mapTracker t (·.pop))

/-- Runs `x` and keeps things alive meanwhile. -/
def keeping (refs : List Ref) (x : Engine Code Memory α) : Engine Code Memory α :=
  fun w =>
    let held := w.held
    (x { w with held := refs ++ held }).map fun (result, after) => (result, { after with held })

/-- Ends in the errors of several parts, put together by `wrap` if there are more than one. -/
def collect (wrap : List Error → Error) (errors : List Error) : Engine Code Memory Unit :=
  ofExcept (Error.collect wrap errors)

/-- Runs a step for every member of a list, the later ones too when one fails, and answers the
errors in order. Members whose turn is not over are kept alive, `ref?` saying what they are. -/
def failures {β : Type} (ref? : β → Option Ref) (step : β → Engine Code Memory Unit) :
    List β → Engine Code Memory (List Error)
  | [] => return []
  | b :: rest => do
    let result ← attempt (keeping ((b :: rest).filterMap ref?) (step b))
    let errors ← failures ref? step rest
    match result with
    | .ok _ => return errors
    | .error error => return error :: errors

end Engine

/--
How a step of the engine comes back to the engine: the meaning of the embedder's codes, and the
notification of a source and the run of a program one level deeper.
-/
structure Reentry (Code Memory : Type) where
  application : Application Code Memory
  /-- How many more levels there are. -/
  depth : Nat
  notify : SourceId → Engine Code Memory Unit
  run : {α : Type} → Program Code Memory α → Engine Code Memory α

/-- Lets the embedder take note of an occurrence. -/
def World.note {Code Memory : Type} (w : World Code Memory) (application : Application Code Memory)
    (occurrence : Occurrence) : World Code Memory :=
  { w with memory := application.notes occurrence w }

/-- Lets the embedder take note of an occurrence. -/
def Engine.note {Code Memory : Type} (c : Reentry Code Memory) (occurrence : Occurrence) :
    Engine Code Memory Unit :=
  update (·.note c.application occurrence)

end ViewBinding
