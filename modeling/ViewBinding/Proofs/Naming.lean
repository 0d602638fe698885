import ViewBinding.Path
import ViewBinding.Proofs.Cutting

/-!
# The grammar of paths

A path is written as names with dots between them and blanks around the whole. The main statement says that this
is exactly what reading accepts, what the path is then, and which segment is reported otherwise.
-/

namespace ViewBinding

namespace Text

/-- A name of one character or more. -/
structure IsIdentifier (text : List Char) : Prop where
  nonempty : text ≠ []
  chars : ∀ c ∈ text, isIdentifierChar c

theorem isIdentifierChar_dot : isIdentifierChar '.' = false := by decide +kernel

theorem isBlank_of_isIdentifierChar {c : Char} (h : isIdentifierChar c) : isBlank c = false := by
  have hblanks : ∀ range ∈ blankRanges, ∀ n ∈ List.range' range.first (range.last + 1 - range.first),
      isIdentifierChar (Char.ofNat n) = false := by decide +kernel
  rw [← Bool.not_eq_true]
  intro hblank
  obtain ⟨range, hrange, hholds⟩ := List.any_eq_true.mp hblank
  simp only [CharRange.holds, Bool.and_eq_true, decide_eq_true_eq] at hholds
  have hc := hblanks range hrange c.toNat (List.mem_range'_1.mpr ⟨hholds.1, by omega⟩)
  rw [Char.ofNat_toNat, h] at hc
  cases hc

theorem IsIdentifier.not_mem_dot {text : List Char} (h : IsIdentifier text) : '.' ∉ text := by
  intro hmem
  have hdot := h.chars '.' hmem
  rw [isIdentifierChar_dot] at hdot
  cases hdot

end Text

theorem segmentFault?_eq_none_iff {segment : List Char} :
    segmentFault? segment = none ↔ Text.IsIdentifier segment := by
  constructor
  · intro h
    simp only [segmentFault?] at h
    split at h
    · cases h
    · next hne =>
      split at h
      · next hchars => exact ⟨mt List.isEmpty_iff.mpr hne, List.all_eq_true.mp hchars⟩
      · cases h
  · intro h
    rw [segmentFault?, if_neg (mt List.isEmpty_iff.mp h.nonempty), if_pos (List.all_eq_true.mpr h.chars)]

/-- What is no identifier is empty, or has a character that is not allowed. -/
theorem segmentFault?_of_not_isIdentifier {segment : List Char} (h : ¬ Text.IsIdentifier segment) :
    segmentFault? segment = some (if segment = [] then .empty else .invalid) := by
  by_cases hempty : segment = []
  · simp [segmentFault?, hempty]
  · have hchars : ¬ segment.all Text.isIdentifierChar = true :=
      fun hall => h ⟨hempty, List.all_eq_true.mp hall⟩
    rw [segmentFault?, if_neg (mt List.isEmpty_iff.mp hempty), if_neg hchars, if_neg hempty]

namespace Path

theorem isIdentifier_of_mem {path : Path} {segment : String} (h : segment ∈ path.segments) :
    Text.IsIdentifier segment.toList :=
  segmentFault?_eq_none_iff.mp (path.identifiers segment h)

/-- A path is its segments. -/
theorem eq_of_segments {path path' : Path}
    (h : path.segments.map String.toList = path'.segments.map String.toList) : path = path' := by
  obtain ⟨segments, _, _⟩ := path
  obtain ⟨segments', _, _⟩ := path'
  obtain rfl : segments = segments' := (List.map_inj_right fun _ _ => String.toList_inj.mp).mp h
  rfl

/-- Names with dots between them are a path. -/
theorem exists_of_isIdentifier {segments : List (List Char)} (hne : segments ≠ [])
    (hsegments : ∀ segment ∈ segments, Text.IsIdentifier segment) :
    ∃ path : Path, path.segments.map String.toList = segments := by
  refine ⟨⟨segments.map String.ofList, by simpa using hne, ?_⟩, ?_⟩
  · intro segment hsegment
    obtain ⟨chars, hchars, rfl⟩ := List.mem_map.mp hsegment
    rw [String.toList_ofList]
    exact segmentFault?_eq_none_iff.mpr (hsegments chars hchars)
  · simp [Function.comp_def]

/-! ### Reading -/

variable {expression : String} {path : Path} {error : Error}

/-- What is read is the pieces between the dots of the expression without its blanks. -/
theorem segments_of_parse (h : parse expression = .ok path) :
    path.segments.map String.toList = (Text.trim expression.toList).splitOn '.' := by
  unfold parse at h
  dsimp only at h
  split at h
  · cases h
  · split at h
    · cases h
    · cases h
      rw [← Text.fields_eq_splitOn]
      simp [ofSegments, Function.comp_def]

/-- What is reported is the first piece that is no name. -/
theorem fault_of_parse (h : parse expression = .error error) :
    ∃ before bad after, (Text.trim expression.toList).splitOn '.' = before ++ bad :: after ∧
      (∀ segment ∈ before, Text.IsIdentifier segment) ∧ ¬ Text.IsIdentifier bad ∧
      error = .path
        (if Text.trim expression.toList = [] then expression else String.ofList (Text.trim expression.toList))
        (String.ofList bad) (if bad = [] then .empty else .invalid) := by
  unfold parse at h
  dsimp only at h
  split at h
  · next hempty =>
    cases h
    rw [List.isEmpty_iff.mp hempty]
    exact ⟨[], [], [], rfl, nofun, fun hbad => hbad.nonempty rfl, by simp⟩
  · next hne =>
    split at h
    · next bad fault hfault =>
      cases h
      rw [Text.fields_eq_splitOn] at hfault
      obtain ⟨before, segment, after, hfields, hbad, hbefore⟩ := List.findSome?_eq_some_iff.mp hfault
      obtain ⟨_, hsegment, heq⟩ := Option.map_eq_some_iff.mp hbad
      cases heq
      have hnot : ¬ Text.IsIdentifier bad := by
        rw [← segmentFault?_eq_none_iff, hsegment]
        exact Option.some_ne_none _
      rw [segmentFault?_of_not_isIdentifier hnot] at hsegment
      cases hsegment
      refine ⟨before, bad, after, hfields, fun name hname => ?_, hnot, ?_⟩
      · exact segmentFault?_eq_none_iff.mp (Option.map_eq_none_iff.mp (hbefore name hname))
      · rw [if_neg (mt List.isEmpty_iff.mpr hne)]
    · cases h

/-- Reading gives the path whose segments the expression spells, wherever there is one. -/
theorem parse_eq_ok_iff : parse expression = .ok path ↔
    path.segments.map String.toList = (Text.trim expression.toList).splitOn '.' := by
  constructor
  · exact segments_of_parse
  · intro h
    cases hparse : parse expression with
    | ok path' => rw [eq_of_segments (h.trans (segments_of_parse hparse).symm)]
    | error error =>
      obtain ⟨before, bad, after, hfields, -, hbad, -⟩ := fault_of_parse hparse
      have hmem : bad ∈ path.segments.map String.toList := by simp [h, hfields]
      obtain ⟨segment, hsegment, rfl⟩ := List.mem_map.mp hmem
      exact absurd (isIdentifier_of_mem hsegment) hbad

/-! ### Writing -/

/-- Names with dots between them hold no blank. -/
theorem isBlank_of_mem_intercalate {segments : List (List Char)}
    (hsegments : ∀ segment ∈ segments, Text.IsIdentifier segment) :
    ∀ c ∈ ['.'].intercalate segments, Text.isBlank c = false := by
  induction segments with
  | nil => simp
  | cons segment rest inductionHypothesis =>
    have hsegment : ∀ c ∈ segment, Text.isBlank c = false := fun c hc =>
      Text.isBlank_of_isIdentifierChar ((hsegments segment List.mem_cons_self).chars c hc)
    have hrest := inductionHypothesis fun name hname => hsegments name (List.mem_cons_of_mem _ hname)
    cases rest with
    | nil => simpa using hsegment
    | cons next others =>
      intro c hc
      rw [List.intercalate_cons_cons, List.mem_append, List.mem_append, List.mem_singleton] at hc
      rcases hc with (hc | rfl) | hc
      · exact hsegment c hc
      · decide
      · exact hrest c hc

theorem parse_of_intercalate {segments : List (List Char)} (hne : segments ≠ [])
    (hsegments : ∀ segment ∈ segments, Text.IsIdentifier segment)
    (hpath : path.segments.map String.toList = segments)
    (hexpression : Text.trim expression.toList = ['.'].intercalate segments) : parse expression = .ok path := by
  have hdots : ∀ segment ∈ segments, '.' ∉ segment := fun segment h => (hsegments segment h).not_mem_dot
  rw [parse_eq_ok_iff, hexpression, hpath, List.splitOn_intercalate '.' hdots hne]

theorem isIdentifier_of_mem_map {segment : List Char} (h : segment ∈ path.segments.map String.toList) :
    Text.IsIdentifier segment := by
  obtain ⟨name, hname, rfl⟩ := List.mem_map.mp h
  exact isIdentifier_of_mem hname

theorem toList_text (path : Path) : path.text.toList = ['.'].intercalate (path.segments.map String.toList) :=
  String.toList_intercalate

/-- The text of a path is what it was read from, without the blanks. -/
theorem toList_text_of_parse (h : parse expression = .ok path) : path.text.toList = Text.trim expression.toList := by
  rw [toList_text, segments_of_parse h, List.intercalate_splitOn]

/-- A path is read from its own text. -/
theorem parse_text (path : Path) : parse path.text = .ok path := by
  have hsegments : ∀ segment ∈ path.segments.map String.toList, Text.IsIdentifier segment :=
    fun _ => isIdentifier_of_mem_map
  apply parse_of_intercalate (by simpa using path.nonempty) hsegments rfl
  rw [toList_text]
  exact Text.trim_eq_self (Text.tight_of_forall (isBlank_of_mem_intercalate hsegments))

/--
Reading accepts exactly names with dots between them, with blanks around the whole. The path then spells what was read,
and is read from its own text; what is refused is reported by its first segment from the left that is no name. Every
list of names is the path that their text reads as.
-/
theorem parse_accepts_dotted_names (expression : String) :
    ((∃ path, parse expression = .ok path) ↔ ∃ segments, segments ≠ [] ∧
        (∀ segment ∈ segments, Text.IsIdentifier segment) ∧
        Text.trim expression.toList = ['.'].intercalate segments) ∧
      (match parse expression with
      | .ok path =>
        path.text = String.ofList (Text.trim expression.toList) ∧ ".".intercalate path.segments = path.text ∧
          path.parents ++ [path.last] = path.segments ∧ parse path.text = .ok path
      | .error error =>
        ∃ before bad after, (Text.trim expression.toList).splitOn '.' = before ++ bad :: after ∧
          (∀ segment ∈ before, Text.IsIdentifier segment) ∧ ¬ Text.IsIdentifier bad ∧
          error = .path
            (if Text.trim expression.toList = [] then expression else String.ofList (Text.trim expression.toList))
            (String.ofList bad) (if bad = [] then .empty else .invalid)) ∧
      ∀ segments : List String, segments ≠ [] → (∀ segment ∈ segments, Text.IsIdentifier segment.toList) →
        ∃ path, parse (".".intercalate segments) = .ok path ∧ path.segments = segments := by
  refine ⟨⟨?_, ?_⟩, ?_, ?_⟩
  · rintro ⟨path, hparse⟩
    refine ⟨path.segments.map String.toList, by simpa using path.nonempty, fun _ => isIdentifier_of_mem_map, ?_⟩
    rw [← toList_text_of_parse hparse, toList_text]
  · rintro ⟨segments, hne, hsegments, htrim⟩
    obtain ⟨path, hpath⟩ := exists_of_isIdentifier hne hsegments
    exact ⟨path, parse_of_intercalate hne hsegments hpath htrim⟩
  · cases hparse : parse expression with
    | ok path =>
      refine ⟨?_, rfl, List.dropLast_concat_getLast path.nonempty, parse_text path⟩
      rw [← toList_text_of_parse hparse, String.ofList_toList]
    | error error => exact fault_of_parse hparse
  · intro segments hne hsegments
    obtain ⟨path, hpath⟩ := exists_of_isIdentifier (by simpa using hne) (List.forall_mem_map.mpr hsegments)
    obtain rfl : path.segments = segments := (List.map_inj_right fun _ _ => String.toList_inj.mp).mp hpath
    exact ⟨path, parse_text path, rfl⟩

end Path

end ViewBinding
