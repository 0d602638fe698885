import ViewBinding.Json
import ViewBinding.Json.Shape
import ViewBinding.Template

/-!
# Settings

How directives and placeholders are written, and whether computed properties keep their values. Every
setting has a default; settings that would make markup ambiguous are refused.
-/

namespace ViewBinding

structure Settings where
  /-- What the names of directive attributes begin with. -/
  mark : String := "v-"
  delimiters : Delimiters := ⟨"\x7b\x7b", "\x7d\x7d"⟩
  /-- Whether computed properties are kept until something they read changes. -/
  memoize : Bool := true
  deriving DecidableEq, Repr

namespace Settings

/-- What is wrong with settings, if anything is. -/
def fault? (s : Settings) : Option SettingsFault :=
  if s.mark.isEmpty then some .emptyMark
  else if s.delimiters.opener.isEmpty || s.delimiters.closer.isEmpty then some .emptyDelimiter
  else if s.delimiters.opener = s.delimiters.closer then
    some (.equalDelimiters s.delimiters.opener)
  else none

def validate (s : Settings) : Except Error Unit :=
  match s.fault? with
  | some fault => .error (.settings fault)
  | none => .ok ()

/-- The settings that have a name in JSON. -/
inductive Field where
  | mark
  | delimiters
  | memoize
  deriving DecidableEq, Repr

namespace Field

/-- The order of the fields, also where they are given without names. -/
def all : List Field :=
  [.mark, .delimiters, .memoize]

def name : Field → String
  | .mark => "directive_prefix"
  | .delimiters => "delimiters"
  | .memoize => "memoize_computed"

/-- Sets a field to what a JSON value says, if it is of the right form. -/
def set? (field : Field) (s : Settings) : Json.Shape → Option Settings
  | .text (some content) =>
    match field with
    | .mark => some { s with mark := content }
    | _ => none
  | .bool b =>
    match field with
    | .memoize => some { s with memoize := b }
    | _ => none
  | .array [.text (some opener), .text (some closer)] =>
    match field with
    | .delimiters => some { s with delimiters := ⟨opener, closer⟩ }
    | _ => none
  | _ => none

end Field

/-- Settings from named members: unknown ones are passed over, none may be given twice. -/
def ofMembers? (s : Settings) (given : List Field) :
    List (Option String × Json.Shape) → Option Settings
  | [] => some s
  | (none, _) :: _ => none
  | (some name, value) :: rest =>
    match Field.all.find? (·.name = name) with
    | none => ofMembers? s given rest
    | some field =>
      if field ∈ given then none
      else do ofMembers? (← field.set? s value) (field :: given) rest

/-- Settings from values in the order of the fields; fields at the end may be left out. -/
def ofItems? (s : Settings) : List Field → List Json.Shape → Option Settings
  | _, [] => some s
  | [], _ :: _ => none
  | field :: fields, value :: rest => do ofItems? (← field.set? s value) fields rest

def ofShape? : Json.Shape → Option Settings
  | .object members => ofMembers? {} [] members
  | .array items => ofItems? {} Field.all items
  | _ => none

/-- Reads settings from JSON and checks them. -/
def ofJson (text : String) : Except Error Settings :=
  match (Json.Shape.parse text).bind ofShape? with
  | none => .error .config
  | some s => do
    s.validate
    return s

def toJson (s : Settings) : Json :=
  .object
    [(Field.mark.name, .string s.mark),
     (Field.delimiters.name,
      .array [.string s.delimiters.opener, .string s.delimiters.closer]),
     (Field.memoize.name, .bool s.memoize)]

end Settings

end ViewBinding
