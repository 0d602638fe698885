import Mathlib.Data.List.TakeWhile
import ViewBinding.Text.Blank
import ViewBinding.Text.Search

/-!
# What cutting and trimming do

A text is cut at the leftmost place where a pattern occurs, which is said here without the search for it. What
is cut off does not depend on what follows the pattern.
-/

namespace ViewBinding.Text

variable {pattern text before after rest : List Char} {separator : Char}

/-! ### The leftmost place -/

/-- `pattern` occurs between `before` and `after`, which make up the text with it, and nowhere further left. -/
structure FirstAt (pattern text before after : List Char) : Prop where
  spelled : text = before ++ pattern ++ after
  leftmost : ∀ earlier, earlier ++ pattern <+: text → before.length ≤ earlier.length

theorem FirstAt.of_cutAt (h : cutAt pattern text = some (before, after)) : FirstAt pattern text before after := by
  refine ⟨eq_append_of_cutAt h, ?_⟩
  induction text generalizing before with
  | nil =>
    have hlength := length_of_cutAt h
    simp only [List.length_nil] at hlength
    omega
  | cons c cs inductionHypothesis =>
    simp only [cutAt] at h
    split at h
    · cases h
      simp
    · next hpattern =>
      obtain ⟨⟨b, a⟩, hcut, heq⟩ := Option.map_eq_some_iff.mp h
      cases heq
      intro earlier hearlier
      cases earlier with
      | nil => exact absurd (List.isPrefixOf_iff_prefix.mpr hearlier) hpattern
      | cons d earlier =>
        have htail := (List.cons_prefix_cons.mp hearlier).2
        have hle := inductionHypothesis hcut earlier htail
        simpa using hle

/-- Cutting finds the leftmost place, and finds it wherever there is one. -/
theorem cutAt_eq_some_iff : cutAt pattern text = some (before, after) ↔ FirstAt pattern text before after := by
  constructor
  · exact FirstAt.of_cutAt
  · intro h
    cases hcut : cutAt pattern text with
    | none =>
      apply absurd _ (cutAt_eq_none_iff.mp hcut)
      exact ⟨before, after, h.spelled.symm⟩
    | some cut =>
      obtain ⟨before', after'⟩ := cut
      have h' := FirstAt.of_cutAt hcut
      have hle : before.length ≤ before'.length := h.leftmost before' ⟨after', h'.spelled.symm⟩
      have hge : before'.length ≤ before.length := h'.leftmost before ⟨after, h.spelled.symm⟩
      have hspelled : before' ++ (pattern ++ after') = before ++ (pattern ++ after) := by
        simpa using h'.spelled.symm.trans h.spelled
      obtain ⟨rfl, hrest⟩ := List.append_inj hspelled (Nat.le_antisymm hge hle)
      rw [List.append_cancel_left hrest]

/-- An occurrence further left would end before the pattern does, so what follows the pattern does not matter. -/
theorem FirstAt.extend (h : FirstAt pattern text before after) (rest : List Char) :
    FirstAt pattern (before ++ pattern ++ rest) before rest := by
  refine ⟨rfl, fun earlier hearlier => ?_⟩
  by_contra hlt
  have hshort : earlier ++ pattern <+: before ++ pattern := by
    apply List.prefix_of_prefix_length_le hearlier (List.prefix_append _ _)
    simp only [List.length_append]
    omega
  apply hlt
  apply h.leftmost
  rw [h.spelled]
  exact hshort.trans (List.prefix_append _ _)

/-- The pattern does not occur before its leftmost place. -/
theorem FirstAt.not_infix (h : FirstAt pattern text before after) (hpattern : pattern ≠ []) :
    ¬ pattern <:+: before := by
  rintro ⟨left, right, rfl⟩
  have hle := h.leftmost left ⟨right ++ pattern ++ after, by simp [h.spelled]⟩
  have hpos := List.length_pos_iff.mpr hpattern
  simp only [List.length_append] at hle
  omega

theorem FirstAt.eq_nil (h : FirstAt [] text before after) : before = [] ∧ after = text := by
  have hlength := h.leftmost [] (List.nil_prefix)
  obtain rfl := List.length_eq_zero_iff.mp (Nat.le_zero.mp hlength)
  exact ⟨rfl, h.spelled.symm⟩

/-! ### A start, and separators -/

theorem after?_eq_some_iff {start : List Char} : after? start text = some rest ↔ text = start ++ rest := by
  constructor
  · intro h
    simp only [after?] at h
    split at h
    · next hstart =>
      obtain ⟨rest, rfl⟩ := List.isPrefixOf_iff_prefix.mp hstart
      simpa [eq_comm] using h
    · cases h
  · rintro rfl
    simp [after?, List.isPrefixOf_iff_prefix]

theorem after?_eq_none_iff {start : List Char} : after? start text = none ↔ ¬ start <+: text := by
  simp [after?, ← List.isPrefixOf_iff_prefix]

/-- The fields are the pieces between separators. -/
theorem fields_eq_splitOn (separator : Char) (text : List Char) :
    (fields separator text).1 :: (fields separator text).2 = text.splitOn separator := by
  induction text with
  | nil => rfl
  | cons c cs inductionHypothesis =>
    rw [List.splitOn_eq_splitOnP, List.splitOnP_cons_eq_if_modifyHead, ← List.splitOn_eq_splitOnP,
      ← inductionHypothesis]
    by_cases h : c = separator <;> simp [fields, h]

/-- Cutting at a single character, where a text without it is all before. -/
theorem cutAt_singleton (separator : Char) (text : List Char) :
    (cutAt [separator] text).getD (text, []) =
      (text.takeWhile (· ≠ separator), (text.dropWhile (· ≠ separator)).tail) := by
  induction text with
  | nil => rfl
  | cons c cs inductionHypothesis =>
    by_cases h : c = separator
    · simp [cutAt, h]
    · have hpattern : [separator].isPrefixOf (c :: cs) = false := by
        rw [List.isPrefixOf, beq_false_of_ne (Ne.symm h), Bool.false_and]
      rw [List.takeWhile_cons_of_pos (by simpa using h), List.dropWhile_cons_of_pos (by simpa using h), cutAt,
        hpattern]
      cases hcut : cutAt [separator] cs with
      | none =>
        rw [hcut, Option.getD_none, Prod.mk.injEq] at inductionHypothesis
        rw [← inductionHypothesis.1, ← inductionHypothesis.2]
        rfl
      | some cut =>
        rw [hcut, Option.getD_some] at inductionHypothesis
        simp [inductionHypothesis]

/-! ### Blanks and lengths -/

/-- No blank is at either end. -/
structure Tight (text : List Char) : Prop where
  first : ∀ c ∈ text.head?, isBlank c = false
  last : ∀ c ∈ text.getLast?, isBlank c = false

theorem tight_of_forall (h : ∀ c ∈ text, isBlank c = false) : Tight text :=
  ⟨fun c hc => h c (List.mem_of_head? hc), fun c hc => h c (List.mem_of_getLast? hc)⟩

theorem dropWhile_isBlank_append (hbefore : ∀ c ∈ before, isBlank c) (htext : ∀ c ∈ text.head?, isBlank c = false) :
    (before ++ text).dropWhile isBlank = text := by
  rw [List.dropWhile_append_of_pos hbefore]
  cases text with
  | nil => rfl
  | cons c cs => exact List.dropWhile_cons_of_neg (by simp [htext c rfl])

theorem isBlank_of_head?_dropWhile {c : Char} (h : c ∈ (text.dropWhile isBlank).head?) : isBlank c = false := by
  have hhead := List.head?_dropWhile_not isBlank text
  rw [Option.mem_def.mp h] at hhead
  exact hhead

/-- Trimming takes off blanks at both ends until none is there. -/
theorem trim_eq_iff {body : List Char} : trim text = body ↔ Tight body ∧ ∃ before after,
    text = before ++ body ++ after ∧ (∀ c ∈ before, isBlank c) ∧ ∀ c ∈ after, isBlank c := by
  constructor
  · rintro rfl
    have hlead := List.takeWhile_append_dropWhile (p := isBlank) (l := text)
    have htrail := List.takeWhile_append_dropWhile (p := isBlank) (l := (text.dropWhile isBlank).reverse)
    -- what is left of the blanks at the end is the end of what is left of those at the start
    have hbody : text.dropWhile isBlank =
        trim text ++ ((text.dropWhile isBlank).reverse.takeWhile isBlank).reverse := by
      rw [trim, ← List.reverse_append, htrail, List.reverse_reverse]
    have htight : Tight (trim text) := by
      constructor
      · intro c hc
        apply isBlank_of_head?_dropWhile
        rw [hbody, List.head?_append, Option.mem_def.mp hc]
        rfl
      · intro c hc
        rw [trim, List.getLast?_reverse] at hc
        exact isBlank_of_head?_dropWhile hc
    refine ⟨htight, text.takeWhile isBlank, ((text.dropWhile isBlank).reverse.takeWhile isBlank).reverse, ?_, ?_, ?_⟩
    · rw [List.append_assoc, ← hbody, hlead]
    · exact fun c => List.mem_takeWhile_imp
    · exact fun c hc => List.mem_takeWhile_imp (List.mem_reverse.mp hc)
  · rintro ⟨hbody, before, after, rfl, hbefore, hafter⟩
    cases body with
    | nil =>
      have hall : ∀ c ∈ before ++ after, isBlank c := by
        intro c hc
        exact (List.mem_append.mp hc).elim (hbefore c) (hafter c)
      rw [trim, List.append_nil, List.dropWhile_eq_nil_iff.mpr hall]
      rfl
    | cons c cs =>
      have hfirst : ∀ d ∈ (c :: cs ++ after).head?, isBlank d = false := hbody.first
      have hlast : ∀ d ∈ (c :: cs).reverse.head?, isBlank d = false := by
        rw [List.head?_reverse]
        exact hbody.last
      rw [trim, List.append_assoc, dropWhile_isBlank_append hbefore hfirst, List.reverse_append,
        dropWhile_isBlank_append (by simpa using hafter) hlast, List.reverse_reverse]

theorem trim_eq_self (h : Tight text) : trim text = text :=
  trim_eq_iff.mpr ⟨h, [], [], by simp, nofun, nofun⟩

theorem byteLength_append (left right : List Char) :
    byteLength (left ++ right) = byteLength left + byteLength right := by
  induction left with
  | nil => simp [byteLength]
  | cons c cs inductionHypothesis =>
    simp only [byteLength, List.cons_append, List.foldr_cons] at inductionHypothesis ⊢
    omega

/-- The length in bytes is the size of the text. -/
theorem utf8ByteSize_ofList (text : List Char) : (String.ofList text).utf8ByteSize = byteLength text := by
  induction text with
  | nil => rfl
  | cons c cs inductionHypothesis =>
    rw [String.ofList_cons, String.utf8ByteSize_append, String.utf8ByteSize_singleton, inductionHypothesis]
    rfl

end ViewBinding.Text
