import ViewBinding.Error
import ViewBinding.Text.Blank
import ViewBinding.Text.Search

/-!
# Directives

An attribute whose name begins with the directive mark ties its element to the data. After the mark
come the name of a kind and, after a colon, an argument; the value of the attribute is the
expression.
-/

namespace ViewBinding

/-- The kinds of binding. -/
inductive DirectiveKind where
  /-- The form value shows a path, and input is written back to it. -/
  | model
  /-- An event calls a method. -/
  | on
  /-- The rich content shows a path. -/
  | html
  /-- The plain text shows a path or a template. -/
  | text
  deriving DecidableEq, Repr, Inhabited

namespace DirectiveKind

def all : List DirectiveKind :=
  [.model, .on, .html, .text]

def name : DirectiveKind → String
  | .model => "model"
  | .on => "on"
  | .html => "html"
  | .text => "text"

def requiresArgument (kind : DirectiveKind) : Bool :=
  kind = .on

/-- The kind with a name. -/
def parse (name : String) : Except Error DirectiveKind :=
  match all.find? (·.name = name) with
  | some kind => .ok kind
  | none => .error (.unknownDirective name)

end DirectiveKind

structure Directive where
  kind : DirectiveKind
  argument : Option String
  expression : String
  deriving DecidableEq, Repr

/--
Reads an attribute. One whose name does not begin with `mark` is none. The argument is all that
follows the first colon, and an empty one counts as absent.
-/
def Directive.parse (name value mark : String) : Except Error (Option Directive) :=
  match Text.after? mark.toList name.toList with
  | none => .ok none
  | some rest =>
    let (kindText, argumentText) := (Text.cutAt [':'] rest).getD (rest, [])
    match DirectiveKind.parse (String.ofList kindText) with
    | .error error => .error error
    | .ok kind =>
      let argument := if argumentText.isEmpty then none else some (String.ofList argumentText)
      if kind.requiresArgument && argument.isNone then .error (.missingArgument name)
      else .ok (some ⟨kind, argument, String.ofList (Text.trim value.toList)⟩)

end ViewBinding
