/-!
# Cutting text at a pattern

`cutAt` cuts a text at the first place where a pattern occurs, and `fields` cuts it at every separator.
What is cut out is exactly the pattern, so the pieces spell the text again.
-/

namespace ViewBinding.Text

/-- The parts before and after the leftmost occurrence of `pattern`, if it occurs. -/
def cutAt (pattern : List Char) : List Char → Option (List Char × List Char)
  | [] => if pattern.isEmpty then some ([], []) else none
  | c :: cs =>
    if pattern.isPrefixOf (c :: cs) then some ([], (c :: cs).drop pattern.length)
    else (cutAt pattern cs).map fun (before, after) => (c :: before, after)

/-- What follows `start` in a text that begins with it. -/
def after? (start text : List Char) : Option (List Char) :=
  if start.isPrefixOf text then some (text.drop start.length) else none

/-- The first field of a text and the fields after it, where every `separator` ends a field. -/
def fields (separator : Char) : List Char → List Char × List (List Char)
  | [] => ([], [])
  | c :: cs =>
    let (first, others) := fields separator cs
    if c = separator then ([], first :: others) else (c :: first, others)

/-- The length of a text in bytes of UTF-8. -/
def byteLength (text : List Char) : Nat :=
  text.foldr (fun c n => c.utf8Size + n) 0

/-- Nothing but the pattern is cut out. -/
theorem eq_append_of_cutAt {pattern text before after : List Char}
    (h : cutAt pattern text = some (before, after)) : text = before ++ pattern ++ after := by
  induction text generalizing before with
  | nil =>
    simp only [cutAt] at h
    split at h
    · next hp => simp_all [List.isEmpty_iff]
    · simp at h
  | cons c cs ih =>
    simp only [cutAt] at h
    split at h
    · next hp =>
      obtain ⟨rest, hrest⟩ := List.isPrefixOf_iff_prefix.mp hp
      simp only [Option.some.injEq, Prod.mk.injEq] at h
      obtain ⟨rfl, rfl⟩ := h
      simp [← hrest]
    · obtain ⟨⟨b, a⟩, hb, he⟩ := Option.map_eq_some_iff.mp h
      simp only [Prod.mk.injEq] at he
      obtain ⟨rfl, rfl⟩ := he
      simp [← ih hb]

theorem length_of_cutAt {pattern text before after : List Char}
    (h : cutAt pattern text = some (before, after)) :
    before.length + pattern.length + after.length = text.length := by
  simp [eq_append_of_cutAt h, Nat.add_assoc]

/-- A text without the pattern is exactly one that is not cut. -/
theorem cutAt_eq_none_iff {pattern text : List Char} :
    cutAt pattern text = none ↔ ¬ pattern <:+: text := by
  induction text with
  | nil => cases pattern <;> simp [cutAt]
  | cons c cs ih =>
    simp only [cutAt, List.infix_cons_iff, ← List.isPrefixOf_iff_prefix]
    split <;> simp_all

/-- The fields spell the text again when the separators are put back. -/
theorem intercalate_fields (separator : Char) (text : List Char) :
    [separator].intercalate ((fields separator text).1 :: (fields separator text).2) = text := by
  induction text with
  | nil => simp [fields]
  | cons c cs ih =>
    simp only [fields]
    split
    · next h =>
      subst h
      simpa [List.intercalate] using ih
    · rcases hf : (fields separator cs).2 with _ | ⟨g, gs⟩ <;>
        simp_all [List.intercalate]

end ViewBinding.Text
