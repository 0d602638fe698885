import ViewBinding.Path

/-!
# Templates

A template is text with paths between delimiters. Placeholders are found from the left and end at
the first closing delimiter, so one text holds several of them.
-/

namespace ViewBinding

/-- The texts around a placeholder. -/
structure Delimiters where
  opener : String
  closer : String
  deriving DecidableEq, Repr

namespace Template

inductive Segment where
  | literal (text : String)
  | placeholder (path : Path)
  deriving DecidableEq

end Template

/-- The raw text is kept, since a node that shows the result no longer has it. -/
structure Template where
  source : String
  segments : List Template.Segment
  deriving DecidableEq

namespace Template

/-- Whether a text holds the opening delimiter. -/
def mentions (text : String) (delimiters : Delimiters) : Bool :=
  (Text.cutAt delimiters.opener.toList text.toList).isSome

/-- A literal segment, unless it would be empty. -/
def literals (text : List Char) : List Segment :=
  if text.isEmpty then [] else [.literal (String.ofList text)]

/--
The segments of `rest`, which starts at byte `offset` of the template `text`. An accepted placeholder
holds a path and is not empty, so the text that remains after it is shorter.
-/
def segmentsFrom (text : String) (opener closer : List Char) (offset : Nat) (rest : List Char) :
    Except Error (List Segment) :=
  match _hopen : Text.cutAt opener rest with
  | none => .ok (literals rest)
  | some (before, inner) =>
    match _hclose : Text.cutAt closer inner with
    | none => .error (.malformedTemplate text (offset + Text.byteLength before))
    | some (raw, after) =>
      match _hpath : Path.parse (String.ofList raw) with
      | .error error => .error error
      | .ok path =>
        let consumed := before ++ opener ++ raw ++ closer
        match segmentsFrom text opener closer (offset + Text.byteLength consumed) after with
        | .error error => .error error
        | .ok segments => .ok (literals before ++ .placeholder path :: segments)
termination_by rest.length
decreasing_by
  have h₁ := Text.length_of_cutAt _hopen
  have h₂ := Text.length_of_cutAt _hclose
  have h₃ : raw ≠ [] := by
    rintro rfl
    have := _hpath.symm.trans Path.parse_empty
    simp at this
  have h₄ := List.length_pos_iff.mpr h₃
  omega

def parse (text : String) (delimiters : Delimiters) : Except Error Template := do
  let segments ←
    segmentsFrom text delimiters.opener.toList delimiters.closer.toList 0 text.toList
  return ⟨text, segments⟩

/-- The path of every placeholder, in order, repetitions included. -/
def paths (t : Template) : List Path :=
  t.segments.filterMap fun
    | .literal _ => none
    | .placeholder path => some path

def hasPlaceholder (t : Template) : Bool :=
  !t.paths.isEmpty

end Template

end ViewBinding
