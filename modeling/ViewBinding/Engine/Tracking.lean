import ViewBinding.Engine
import ViewBinding.World.Registration

/-!
# Tracking who reads what

Reading registers the subscriber that is evaluating with the source that was read, and notes the
source among its dependencies. When an evaluation ends well, the sources that it did not read again
are left; when it fails, the old and the new ones are kept.
-/

namespace ViewBinding

variable {Code Memory : Type} [Inhabited Code]

namespace Engine

/-- Registers whoever is evaluating on the reader. -/
def depend (c : Reentry Code Memory) (reader : Option TrackerId) (source : SourceId) :
    Engine Code Memory Unit :=
  update fun w =>
    match w.current? reader with
    | none => w
    | some subscriber =>
      let w := w.mapSource source (·.register subscriber)
      let w := w.mapDependencies subscriber (·.record source)
      w.note c.application (.tracked subscriber source)

/-- Evaluates in a frame of the subscriber and brings its dependencies up to date. -/
def evaluate (c : Reentry Code Memory) (tracker : TrackerId) (subscriber : Subscriber)
    (x : Engine Code Memory Value) : Engine Code Memory Value := do
  update (·.mapDependencies subscriber (·.begin))
  note c (.evaluating subscriber)
  let result ← attempt (framed (some tracker) (some subscriber) x)
  match result with
  | .ok value =>
    update (·.settle subscriber)
    note c (.evaluated subscriber true)
    return value
  | .error error =>
    update (·.mapDependencies subscriber (·.merge))
    note c (.evaluated subscriber false)
    throw error

end Engine

end ViewBinding
