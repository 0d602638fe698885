import ViewBinding.Id

/-!
# What can go wrong

An error is its cause, with what is needed to name it; `Error.message` says it in words. Failures of
several bindings or subscribers are reported together, a single one as itself.
-/

namespace ViewBinding

/-- Why a segment stops the resolution of a path. -/
inductive PathFault where
  /-- The segment, or the whole expression, is empty. -/
  | empty
  /-- The segment is no identifier. -/
  | invalid
  /-- The segment resolved to nothing while more segments remain. -/
  | missing
  /-- The segment resolved to something without properties while more segments remain. -/
  | notAnObject
  deriving DecidableEq, Repr

def PathFault.text : PathFault → String
  | .empty => "is empty"
  | .invalid => "is not a valid identifier"
  | .missing => "does not exist"
  | .notAnObject => "is not an object"

/-- Why settings are refused. -/
inductive SettingsFault where
  | emptyMark
  | emptyDelimiter
  | equalDelimiters (delimiter : String)
  /-- A reason that the embedding program gives. -/
  | other (reason : String)
  deriving DecidableEq, Repr

def SettingsFault.text : SettingsFault → String
  | .emptyMark => "directive prefix must not be empty"
  | .emptyDelimiter => "delimiters must not be empty"
  | .equalDelimiters delimiter =>
    s!"opening and closing delimiters must differ, both are `{delimiter}`"
  | .other reason => reason

/-- Why no view model can be made. -/
inductive OptionsFault where
  | dataNotAnObject (found : String)
  | dataKeyTaken (name : String)
  | methodAndComputed (name : String)
  /-- A reason that the embedding program gives. -/
  | other (reason : String)
  deriving DecidableEq, Repr

def OptionsFault.text : OptionsFault → String
  | .dataNotAnObject found => s!"data must be an object, got {found}"
  | .dataKeyTaken name => s!"`{name}` is both a data key and a method or computed property"
  | .methodAndComputed name => s!"`{name}` is both a method and a computed property"
  | .other reason => reason

/-- A node as errors name it: who it is and what it is called. -/
structure NodeName where
  node : NodeId
  name : String
  deriving DecidableEq, Repr

inductive Error where
  | path (expression segment : String) (fault : PathFault)
  | unknownDirective (name : String)
  | missingArgument (directive : String)
  /-- An opening delimiter at this byte of the text has no closing one. -/
  | malformedTemplate (text : String) (offset : Nat)
  | readOnly (key : String)
  | notCallable (name : String)
  | targetNotFound (selector : String)
  /-- The view model is gone. -/
  | detached
  | settings (fault : SettingsFault)
  | invalidOptions (fault : OptionsFault)
  /-- Settings are not written as they should be. -/
  | config
  | binding (node : NodeName) (expression : String) (source : Error)
  | compile (errors : List Error)
  | notify (errors : List Error)
  deriving Repr

namespace Error

mutual

/-- The error in words, every node named as `describe` gives it. -/
def message (describe : NodeName → String) : Error → String
  | path expression segment fault =>
    s!"cannot resolve `{expression}`: segment `{segment}` {fault.text}"
  | unknownDirective name => s!"unknown directive `{name}`"
  | missingArgument directive => s!"directive `{directive}` requires an argument"
  | malformedTemplate text offset => s!"unterminated interpolation at byte {offset} in `{text}`"
  | readOnly key => s!"property `{key}` is read-only"
  | notCallable name => s!"`{name}` is not a method"
  | targetNotFound selector => s!"no node matches selector `{selector}`"
  | detached => "view model is no longer alive"
  | settings fault => s!"invalid settings: {fault.text}"
  | invalidOptions fault => s!"invalid options: {fault.text}"
  | config => "settings are not valid JSON of the expected form"
  | binding node expression source =>
    s!"binding `{expression}` on {describe node}: {source.message describe}"
  | compile errors =>
    s!"compilation failed with {errors.length} error(s): "
      ++ "; ".intercalate (messages describe errors)
  | notify errors =>
    s!"{errors.length} subscriber(s) failed during notify: "
      ++ "; ".intercalate (messages describe errors)

def messages (describe : NodeName → String) : List Error → List String
  | [] => []
  | error :: rest => error.message describe :: messages describe rest

end

/-- No error is success, a single one is itself, and more are put together by `wrap`. -/
def collect (wrap : List Error → Error) : List Error → Except Error Unit
  | [] => .ok ()
  | [error] => .error error
  | errors => .error (wrap errors)

end Error

end ViewBinding
