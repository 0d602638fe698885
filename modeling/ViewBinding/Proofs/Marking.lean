import ViewBinding.Directive
import ViewBinding.Proofs.Cutting

/-!
# The grammar of directive attributes

After the mark an attribute's name has the name of a kind and, after the first colon, an argument, which may hold
colons as the mark may. The main statement says what reading gives for every name, and that a directive is read as
it was written.
-/

namespace ViewBinding

namespace DirectiveKind

theorem parse_name (kind : DirectiveKind) : parse kind.name = .ok kind := by
  cases kind <;> rfl

theorem parse_of_unnamed {text : String} (h : ∀ kind : DirectiveKind, kind.name ≠ text) :
    parse text = .error (.unknownDirective text) := by
  have hnone : all.find? (·.name = text) = none := by
    rw [List.find?_eq_none]
    simpa using fun kind _ => h kind
  rw [parse, hnone]

/-- No name of a kind holds a colon. -/
theorem ne_colon_of_mem_name (kind : DirectiveKind) : ∀ c ∈ kind.name.toList, decide (c ≠ ':') = true := by
  cases kind <;> simp [name]

end DirectiveKind

namespace Directive

/-- What stands before the first colon, which is everything if there is none. -/
def kindText (rest : String) : String :=
  String.ofList (rest.toList.takeWhile (· ≠ ':'))

/-- What stands after the first colon, which is nothing if there is none. -/
def argumentText (rest : String) : String :=
  String.ofList (rest.toList.dropWhile (· ≠ ':')).tail

/-- How a directive can be written after the mark. Where there is no argument the colon may be there or not. -/
inductive Spells (directive : Directive) : String → Prop
  | bare (h : directive.argument = none) : Spells directive directive.kind.name
  | colon : Spells directive (directive.kind.name ++ ":" ++ directive.argument.getD "")

variable {name value mark rest : String} {kind : DirectiveKind}

theorem parse_of_unmarked (h : ¬ mark.toList <+: name.toList) : parse name value mark = .ok none := by
  rw [parse, Text.after?_eq_none_iff.mpr h]

/-- Reading what follows the mark: the kind first, and then whether it has the argument that it needs. -/
theorem parse_append (mark rest value : String) : parse (mark ++ rest) value mark =
    match DirectiveKind.parse (kindText rest) with
    | .error error => .error error
    | .ok kind =>
      if kind.requiresArgument ∧ argumentText rest = "" then .error (.missingArgument (mark ++ rest))
      else .ok (some ⟨kind, if argumentText rest = "" then none else some (argumentText rest),
        String.ofList (Text.trim value.toList)⟩) := by
  have hrest : Text.after? mark.toList (mark ++ rest).toList = some rest.toList :=
    Text.after?_eq_some_iff.mpr String.toList_append
  have hempty : argumentText rest = "" ↔ (rest.toList.dropWhile (· ≠ ':')).tail.isEmpty := by
    rw [argumentText, ← String.toList_inj, String.toList_ofList, List.isEmpty_iff]
    rfl
  rw [parse, hrest]
  dsimp only
  rw [Text.cutAt_singleton]
  dsimp only
  rw [← kindText, ← argumentText]
  cases DirectiveKind.parse (kindText rest) with
  | error error => rfl
  | ok kind =>
    by_cases h : argumentText rest = ""
    · have htail := hempty.mp h
      simp only [h, htail]
      simp
    · have htail := Bool.eq_false_iff.mpr (mt hempty.mpr h)
      simp only [h, htail]
      simp

theorem parse_of_unnamed (h : ∀ kind : DirectiveKind, kind.name ≠ kindText rest) :
    parse (mark ++ rest) value mark = .error (.unknownDirective (kindText rest)) := by
  rw [parse_append, DirectiveKind.parse_of_unnamed h]

theorem parse_of_named (h : kind.name = kindText rest) : parse (mark ++ rest) value mark =
    if kind.requiresArgument ∧ argumentText rest = "" then .error (.missingArgument (mark ++ rest))
    else .ok (some ⟨kind, if argumentText rest = "" then none else some (argumentText rest),
      String.ofList (Text.trim value.toList)⟩) := by
  rw [parse_append, ← h, DirectiveKind.parse_name]

/-- A marked name is read as a directive or refused. -/
theorem parse_append_ne_none (mark rest value : String) : parse (mark ++ rest) value mark ≠ .ok none := by
  rw [parse_append]
  split
  · nofun
  · split <;> nofun

/-! ### Writing -/

theorem toList_colon (kind : DirectiveKind) (argument : String) :
    (kind.name ++ ":" ++ argument).toList = kind.name.toList ++ ':' :: argument.toList := by
  simp [String.toList_append]

theorem kindText_colon (kind : DirectiveKind) (argument : String) :
    kindText (kind.name ++ ":" ++ argument) = kind.name := by
  rw [kindText, toList_colon, List.takeWhile_append_of_pos kind.ne_colon_of_mem_name,
    List.takeWhile_cons_of_neg (by simp), List.append_nil, String.ofList_toList]

theorem argumentText_colon (kind : DirectiveKind) (argument : String) :
    argumentText (kind.name ++ ":" ++ argument) = argument := by
  rw [argumentText, toList_colon, List.dropWhile_append_of_pos kind.ne_colon_of_mem_name,
    List.dropWhile_cons_of_neg (by simp), List.tail_cons, String.ofList_toList]

theorem kindText_name (kind : DirectiveKind) : kindText kind.name = kind.name := by
  cases kind <;> rfl

theorem argumentText_name (kind : DirectiveKind) : argumentText kind.name = "" := by
  cases kind <;> rfl

/--
What reading an attribute gives, whatever its name, its value and the mark. A name that does not begin with the mark is
no directive. Otherwise the kind is looked for first and then the argument that the kind may need; the argument is all
that follows the first colon. However a directive with the argument that it needs is written, it is read again.
-/
theorem parse_recognises_marked_names (name value mark : String) :
    (parse name value mark = .ok none ↔ ¬ mark.toList <+: name.toList) ∧
      (∀ rest, name = mark ++ rest →
        ((∀ kind : DirectiveKind, kind.name ≠ kindText rest) →
          parse name value mark = .error (.unknownDirective (kindText rest))) ∧
        ∀ kind : DirectiveKind, kind.name = kindText rest → parse name value mark =
          if kind.requiresArgument ∧ argumentText rest = "" then .error (.missingArgument name)
          else .ok (some ⟨kind, if argumentText rest = "" then none else some (argumentText rest),
            String.ofList (Text.trim value.toList)⟩)) ∧
      ∀ (directive : Directive) (spelling : String), directive.Spells spelling →
        (directive.kind.requiresArgument → directive.argument.isSome) → directive.argument ≠ some "" →
        Text.Tight directive.expression.toList →
          parse (mark ++ spelling) directive.expression mark = .ok (some directive) := by
  refine ⟨⟨?_, parse_of_unmarked⟩, ?_, ?_⟩
  · rintro hparse ⟨rest, hrest⟩
    obtain rfl : mark ++ String.ofList rest = name := by
      rw [← String.toList_inj, String.toList_append, String.toList_ofList, hrest]
    exact parse_append_ne_none mark _ value hparse
  · rintro rest rfl
    exact ⟨parse_of_unnamed, fun kind => parse_of_named⟩
  · rintro ⟨kind, argument, expression⟩ spelling hspells hrequired hargument hexpression
    have htrim : String.ofList (Text.trim expression.toList) = expression := by
      rw [Text.trim_eq_self hexpression, String.ofList_toList]
    cases hspells with
    | bare hnone =>
      obtain rfl : argument = none := hnone
      rw [parse_of_named (kindText_name kind).symm, argumentText_name, if_neg (by simpa using hrequired), htrim]
      rfl
    | colon =>
      rw [parse_of_named (kindText_colon kind _).symm, argumentText_colon, htrim]
      cases argument with
      | none => simpa using hrequired
      | some argument =>
        have hne : argument ≠ "" := by simpa using hargument
        simp [hne]

end Directive

end ViewBinding
