import Mathlib.Data.List.Chain
import ViewBinding.Engine.Compile
import ViewBinding.Proofs.Naming
import ViewBinding.Proofs.Outcome
import ViewBinding.Template

/-!
# What a template says

Reading a template passes one placeholder after the other, always the leftmost. This is said here without the
search, for delimiters of any kind: where it stops, what has been passed spells the segments, and what is left is
text without placeholder, a placeholder that does not end, or one that holds no path.
-/

namespace ViewBinding

namespace Template

/-! ### Placeholders from the left -/

/-- `raw` stands in the leftmost placeholder: the first opening delimiter is before it, and the first closing one
after that comes right after it. -/
structure First (d : Delimiters) (text before raw after : List Char) : Prop where
  opened : Text.FirstAt d.opener.toList text before (raw ++ d.closer.toList ++ after)
  closed : Text.FirstAt d.closer.toList (raw ++ d.closer.toList ++ after) raw after

/-- A placeholder with what is before it. -/
def chunk (d : Delimiters) (before raw : List Char) : List Char :=
  before ++ d.opener.toList ++ raw ++ d.closer.toList

/-- The placeholders of `text` up to `rest` hold paths; with what is between them they are `passed`. -/
inductive Passes (d : Delimiters) : List Char → List Char → List Segment → List Char → Prop
  | start {text : List Char} : Passes d text [] [] text
  | next {text before raw after passed rest : List Char} {path : Path} {segments : List Segment}
      (first : First d text before raw after)
      (reads : Path.parse (String.ofList raw) = .ok path) (others : Passes d after passed segments rest) :
      Passes d text (chunk d before raw ++ passed) (literals before ++ .placeholder path :: segments) rest

/-- Reading does not get past `rest`. -/
inductive Halts (d : Delimiters) (rest : List Char) : Prop
  | plain (h : ¬ d.opener.toList <:+: rest)
  | unclosed {before inner : List Char} (opened : Text.FirstAt d.opener.toList rest before inner)
      (h : ¬ d.closer.toList <:+: inner)
  | faulty {before raw after : List Char} {error : Error} (first : First d rest before raw after)
      (fails : Path.parse (String.ofList raw) = .error error)

variable {d : Delimiters} {text rest before inner raw after passed : List Char} {segments : List Segment}
  {path : Path} {error : Error} {shown : String} {offset : Nat}

theorem First.spelled (h : First d text before raw after) : text = chunk d before raw ++ after := by
  rw [h.opened.spelled, chunk]
  simp only [List.append_assoc]

/-- What follows a placeholder does not matter. -/
theorem First.extend (h : First d text before raw after) (other : List Char) :
    First d (chunk d before raw ++ other) before raw other := by
  refine ⟨?_, h.closed.extend other⟩
  have hopened := h.opened.extend (raw ++ d.closer.toList ++ other)
  simpa only [chunk, List.append_assoc] using hopened

theorem First.of_opened (hopened : Text.FirstAt d.opener.toList text before inner)
    (hclosed : Text.FirstAt d.closer.toList inner raw after) : First d text before raw after := by
  obtain rfl := hclosed.spelled
  exact ⟨hopened, hclosed⟩

theorem raw_ne_nil (reads : Path.parse (String.ofList raw) = .ok path) : raw ≠ [] := by
  rintro rfl
  cases Path.parse_empty.symm.trans reads

theorem First.length_lt (h : First d text before raw after) (reads : Path.parse (String.ofList raw) = .ok path) :
    after.length < text.length := by
  have hpos := List.length_pos_iff.mpr (raw_ne_nil reads)
  rw [h.spelled, chunk]
  simp only [List.length_append]
  omega

theorem Passes.spelled (h : Passes d text passed segments rest) : text = passed ++ rest := by
  induction h with
  | start => rfl
  | next first reads others inductionHypothesis =>
    rw [List.append_assoc, ← inductionHypothesis]
    exact first.spelled

theorem Passes.extend (h : Passes d text passed segments rest) (other : List Char) :
    Passes d (passed ++ other) passed segments other := by
  induction h with
  | start => exact .start
  | next first reads others inductionHypothesis =>
    rw [List.append_assoc]
    exact .next (first.extend _) reads inductionHypothesis

/-- From every text on, reading gets to a place that it does not get past. -/
theorem exists_passes (d : Delimiters) (text : List Char) :
    ∃ passed segments rest, Passes d text passed segments rest ∧ Halts d rest := by
  cases hopened : Text.cutAt d.opener.toList text with
  | none => exact ⟨[], [], text, .start, .plain (Text.cutAt_eq_none_iff.mp hopened)⟩
  | some cut =>
    obtain ⟨before, inner⟩ := cut
    have hopened := Text.FirstAt.of_cutAt hopened
    cases hclosed : Text.cutAt d.closer.toList inner with
    | none => exact ⟨[], [], text, .start, .unclosed hopened (Text.cutAt_eq_none_iff.mp hclosed)⟩
    | some cut =>
      obtain ⟨raw, after⟩ := cut
      have first := First.of_opened hopened (Text.FirstAt.of_cutAt hclosed)
      cases hpath : Path.parse (String.ofList raw) with
      | error error => exact ⟨[], [], text, .start, .faulty first hpath⟩
      | ok path =>
        have hlt := first.length_lt hpath
        obtain ⟨passed, segments, rest, hpasses, hhalts⟩ := exists_passes d after
        exact ⟨_, _, rest, .next first hpath hpasses, hhalts⟩
termination_by text.length

/-! ### Reading -/

theorem segmentsFrom_of_plain (h : ¬ d.opener.toList <:+: rest) :
    segmentsFrom shown d.opener.toList d.closer.toList offset rest = .ok (literals rest) := by
  have hopen := Text.cutAt_eq_none_iff.mpr h
  rw [segmentsFrom]
  split
  · rfl
  · next hcut => cases hopen.symm.trans hcut

theorem segmentsFrom_of_unclosed (opened : Text.FirstAt d.opener.toList rest before inner)
    (h : ¬ d.closer.toList <:+: inner) :
    segmentsFrom shown d.opener.toList d.closer.toList offset rest =
      .error (.malformedTemplate shown (offset + Text.byteLength before)) := by
  have hopen := Text.cutAt_eq_some_iff.mpr opened
  have hclose := Text.cutAt_eq_none_iff.mpr h
  rw [segmentsFrom]
  split
  · next hcut => cases hopen.symm.trans hcut
  · next hcut =>
    cases hopen.symm.trans hcut
    split
    · rfl
    · next hcut' => cases hclose.symm.trans hcut'

theorem segmentsFrom_of_first (first : First d rest before raw after) :
    segmentsFrom shown d.opener.toList d.closer.toList offset rest = (do
      let path ← Path.parse (String.ofList raw)
      let others ← segmentsFrom shown d.opener.toList d.closer.toList
        (offset + Text.byteLength (chunk d before raw)) after
      return literals before ++ .placeholder path :: others) := by
  have hopen := Text.cutAt_eq_some_iff.mpr first.opened
  have hclose := Text.cutAt_eq_some_iff.mpr first.closed
  rw [segmentsFrom]
  split
  · next hcut => cases hopen.symm.trans hcut
  · next hcut =>
    cases hopen.symm.trans hcut
    split
    · next hcut' => cases hclose.symm.trans hcut'
    · next hcut' =>
      cases hclose.symm.trans hcut'
      split
      · next hpath =>
        rw [hpath]
        rfl
      · next hpath =>
        rw [hpath]
        dsimp only [chunk]
        cases segmentsFrom shown d.opener.toList d.closer.toList _ after <;> rfl

/-- Reading gives the segments of what is passed, and goes on with the rest. -/
theorem Passes.segmentsFrom_eq (h : Passes d text passed segments rest) :
    segmentsFrom shown d.opener.toList d.closer.toList offset text =
      (segmentsFrom shown d.opener.toList d.closer.toList (offset + Text.byteLength passed) rest).map
        (segments ++ ·) := by
  induction h generalizing offset with
  | start => exact (congrFun Except.map_id _).symm
  | next first reads others inductionHypothesis =>
    rw [segmentsFrom_of_first first, reads, Text.byteLength_append, ← Nat.add_assoc, inductionHypothesis]
    cases segmentsFrom shown d.opener.toList d.closer.toList _ _ with
    | error error => rfl
    | ok later =>
      simp only [Except.map, List.append_assoc, List.cons_append]
      rfl

theorem parse_eq (shown : String) (d : Delimiters) : parse shown d =
    (segmentsFrom shown d.opener.toList d.closer.toList 0 shown.toList).map (Template.mk shown ·) := by
  rw [parse]
  cases segmentsFrom shown d.opener.toList d.closer.toList 0 shown.toList <;> rfl

section Parsing

variable (hpasses : Passes d shown.toList passed segments rest)
include hpasses

theorem parse_of_plain (h : ¬ d.opener.toList <:+: rest) :
    parse shown d = .ok ⟨shown, segments ++ literals rest⟩ := by
  rw [parse_eq, hpasses.segmentsFrom_eq, segmentsFrom_of_plain h]
  rfl

theorem parse_of_unclosed (opened : Text.FirstAt d.opener.toList rest before inner)
    (h : ¬ d.closer.toList <:+: inner) :
    parse shown d = .error (.malformedTemplate shown (String.ofList (passed ++ before)).utf8ByteSize) := by
  rw [parse_eq, hpasses.segmentsFrom_eq, segmentsFrom_of_unclosed opened h, Text.utf8ByteSize_ofList,
    Text.byteLength_append, Nat.zero_add]
  rfl

theorem parse_of_faulty (first : First d rest before raw after)
    (fails : Path.parse (String.ofList raw) = .error error) : parse shown d = .error error := by
  rw [parse_eq, hpasses.segmentsFrom_eq, segmentsFrom_of_first first, fails]
  rfl

end Parsing

/-! ### What the segments spell -/

/-- How a segment is written. -/
inductive Written (d : Delimiters) : Segment → List Char → Prop
  | literal {text : List Char} (nonempty : text ≠ []) (h : ¬ d.opener.toList <:+: text) :
      Written d (.literal (String.ofList text)) text
  | placeholder {raw : List Char} {path : Path} (h : ¬ d.closer.toList <:+: raw)
      (reads : Path.parse (String.ofList raw) = .ok path) :
      Written d (.placeholder path) (d.opener.toList ++ raw ++ d.closer.toList)

/-- Segments that are written one after the other make up the text. -/
inductive Spells (d : Delimiters) : List Segment → List Char → Prop
  | nil : Spells d [] []
  | cons {segment : Segment} {segments : List Segment} {piece text : List Char} (written : Written d segment piece)
      (others : Spells d segments text) : Spells d (segment :: segments) (piece ++ text)

/-- Two segments that can stand side by side, as literals cannot. -/
def Segment.Apart : Segment → Segment → Prop
  | .literal _, .literal _ => False
  | _, _ => True

theorem Spells.literals_append (h : Spells d segments text) (hbefore : ¬ d.opener.toList <:+: before) :
    Spells d (literals before ++ segments) (before ++ text) := by
  cases before with
  | nil => exact h
  | cons c cs => exact .cons (.literal (List.cons_ne_nil c cs) hbefore) h

theorem First.written (first : First d text before raw after) (reads : Path.parse (String.ofList raw) = .ok path) :
    Written d (.placeholder path) (d.opener.toList ++ raw ++ d.closer.toList) := by
  apply Written.placeholder _ reads
  apply first.closed.not_infix
  intro hcloser
  have hclosed := first.closed
  rw [hcloser] at hclosed
  exact raw_ne_nil reads hclosed.eq_nil.1

theorem Passes.spells (h : Passes d text passed segments rest) (hrest : ¬ d.opener.toList <:+: rest) :
    Spells d (segments ++ literals rest) text := by
  induction h with
  | @start text =>
    have hnil := Spells.nil.literals_append hrest
    simpa using hnil
  | next first reads others inductionHypothesis =>
    have hopener : d.opener.toList ≠ [] := by
      intro hnil
      rw [hnil] at hrest
      exact hrest List.nil_infix
    have hplaceholder := Spells.cons (first.written reads) (inductionHypothesis hrest)
    have hall := hplaceholder.literals_append (first.opened.not_infix hopener)
    rw [first.spelled, chunk]
    simpa only [List.append_assoc, List.cons_append] using hall

theorem isChain_chunk (h : segments.IsChain Segment.Apart) :
    (literals before ++ .placeholder path :: segments).IsChain Segment.Apart := by
  have hplaceholder : (.placeholder path :: segments).IsChain Segment.Apart := h.cons fun _ _ => trivial
  cases before with
  | nil => exact hplaceholder
  | cons c cs => exact .cons_cons trivial hplaceholder

theorem Passes.isChain (h : Passes d text passed segments rest) :
    (segments ++ literals rest).IsChain Segment.Apart := by
  induction h with
  | @start text => cases text <;> simp [literals]
  | next first reads others inductionHypothesis =>
    rw [List.append_assoc]
    exact isChain_chunk inductionHypothesis

theorem Passes.hasPlaceholder_iff (h : Passes d text passed segments rest) (hrest : ¬ d.opener.toList <:+: rest)
    (shown : String) : hasPlaceholder ⟨shown, segments ++ literals rest⟩ = true ↔ d.opener.toList <:+: text := by
  cases h with
  | start => cases text <;> simp [hrest, hasPlaceholder, paths, literals]
  | next first reads others =>
    apply iff_of_true
    · simp [hasPlaceholder, paths]
    · exact ⟨_, _, first.opened.spelled.symm⟩

/-! ### The quick test -/

theorem mentions_iff : mentions shown d = true ↔ d.opener.toList <:+: shown.toList := by
  rw [mentions, Option.isSome_iff_ne_none, ne_eq, Text.cutAt_eq_none_iff, not_not]

/-- Where reading stops at a placeholder there is one. -/
theorem Passes.mentions (h : Passes d shown.toList passed segments rest) (hrest : d.opener.toList <:+: rest) :
    mentions shown d = true := by
  rw [mentions_iff, h.spelled]
  exact hrest.trans (List.suffix_append passed rest).isInfix

/-- The quick test finds what cannot be read and what has a placeholder. -/
theorem mentions_iff_parse : mentions shown d = true ↔
    (∃ error, parse shown d = .error error) ∨
      ∃ template, parse shown d = .ok template ∧ template.hasPlaceholder = true := by
  obtain ⟨passed, segments, rest, hpasses, hhalts⟩ := exists_passes d shown.toList
  cases hhalts with
  | plain h =>
    rw [parse_of_plain hpasses h, mentions_iff, ← hpasses.hasPlaceholder_iff h shown]
    simp
  | unclosed opened h =>
    apply iff_of_true
    · exact hpasses.mentions ⟨_, _, opened.spelled.symm⟩
    · exact .inl ⟨_, parse_of_unclosed hpasses opened h⟩
  | faulty first fails =>
    apply iff_of_true
    · exact hpasses.mentions ⟨_, _, first.opened.spelled.symm⟩
    · exact .inl ⟨_, parse_of_faulty hpasses first fails⟩

theorem mentions_eq_false_iff : mentions shown d = false ↔
    ∃ template, parse shown d = .ok template ∧ template.hasPlaceholder = false := by
  rw [← Bool.not_eq_true, mentions_iff_parse]
  cases parse shown d <;> simp

end Template

namespace Engine

variable {Code Memory : Type} {c : Reentry Code Memory} {owner : ViewModelId} {node : NodeId}
  {w : World Code Memory}

theorem inspect_bind_apply {α β : Type} (see : World Code Memory → α) (f : α → Engine Code Memory β) :
    (inspect see >>= f) w = f (see w) w :=
  rfl

variable [Inhabited Code]

/-- A text with the opening delimiter gets a binding or a failure. -/
theorem ends_compileText (hbound : w.isBound owner node = false)
    (hmentions : Template.mentions (w.textContent node) (w.viewModel owner).settings.delimiters = true) :
    Ends w (compileText c owner node) (compileText c owner node) fun r _ => r ≠ .ok {} := by
  rw [compileText, ends_inspect_bind, hbound]
  simp only [Bool.false_eq_true, if_false]
  rw [ends_inspect_bind, ends_inspect_bind, hmentions]
  simp only [Bool.not_true, Bool.false_eq_true, if_false]
  have hinstall : Ends w (installInterpolation c owner node (w.textContent node))
      (installInterpolation c owner node (w.textContent node)) fun _ _ => True := fun _ _ h => ⟨h, trivial⟩
  apply hinstall.attempt_bind
  intro r v _
  cases r with
  | ok binding =>
    rw [ends_update_bind, ends_pure]
    simp
  | error error =>
    rw [ends_inspect_bind, ends_pure]
    simp

/-- A text node without binding is passed over if and only if it does not hold the opening delimiter. -/
theorem compileText_eq_iff (hbound : w.isBound owner node = false) :
    compileText c owner node w = some (.ok {}, w) ↔
      Template.mentions (w.textContent node) (w.viewModel owner).settings.delimiters = false := by
  constructor
  · intro h
    rw [← Bool.not_eq_true]
    intro hmentions
    exact (ends_compileText hbound hmentions _ _ h).2 rfl
  · intro hmentions
    rw [compileText, inspect_bind_apply, hbound]
    simp only [Bool.false_eq_true, if_false]
    rw [inspect_bind_apply, inspect_bind_apply, hmentions]
    rfl

end Engine

namespace Template

variable {d : Delimiters} {rest before inner raw after passed : List Char} {segments : List Segment} {shown : String}

/-! ### What is read -/

/-- A template is the leftmost decomposition of its text. -/
structure Decomposes (d : Delimiters) (text : String) (template : Template) : Prop where
  source : template.source = text
  spelled : Spells d template.segments text.toList
  apart : template.segments.IsChain Segment.Apart
  leftmost : ∃ passed segments rest, Passes d text.toList passed segments rest ∧
    ¬ d.opener.toList <:+: rest ∧ template.segments = segments ++ literals rest

/-- Between `front` and `inner` is the first opening delimiter with no closing one after it. What is before it can be
read by itself. -/
structure Unclosed (d : Delimiters) (text front inner : String) : Prop where
  spelled : text = front ++ d.opener ++ inner
  unclosed : ¬ d.closer.toList <:+: inner.toList
  leftmost : ∃ passed segments rest before, Passes d text.toList passed segments rest ∧
    Text.FirstAt d.opener.toList rest before inner.toList ∧ front.toList = passed ++ before
  readable : d.opener ≠ "" → ∃ template, parse front d = .ok template

/-- Before the placeholder of `raw` there are only placeholders that hold paths. -/
def Reaches (d : Delimiters) (text : String) (raw : List Char) : Prop :=
  ∃ passed segments rest before after, Passes d text.toList passed segments rest ∧ First d rest before raw after

theorem Passes.decomposes (h : Passes d shown.toList passed segments rest) (hrest : ¬ d.opener.toList <:+: rest) :
    Decomposes d shown ⟨shown, segments ++ literals rest⟩ :=
  ⟨rfl, h.spells hrest, h.isChain, passed, segments, rest, h, hrest, rfl⟩

theorem Passes.unclosed (h : Passes d shown.toList passed segments rest)
    (opened : Text.FirstAt d.opener.toList rest before inner) (hinner : ¬ d.closer.toList <:+: inner) :
    Unclosed d shown (String.ofList (passed ++ before)) (String.ofList inner) where
  spelled := by
    rw [← String.toList_inj, h.spelled, opened.spelled]
    simp [String.toList_append]
  unclosed := by rwa [String.toList_ofList]
  leftmost := by
    rw [String.toList_ofList]
    exact ⟨passed, segments, rest, before, h, opened, String.toList_ofList⟩
  readable hopener := by
    have hbefore : ¬ d.opener.toList <:+: before := opened.not_infix (by simpa using hopener)
    have hfront : Passes d (String.ofList (passed ++ before)).toList passed segments before := by
      rw [String.toList_ofList]
      exact h.extend before
    exact ⟨_, parse_of_plain hfront hbefore⟩

/--
What reading a text gives, whatever the delimiters. A template is the leftmost decomposition of the text. Otherwise
the text has an opening delimiter with no closing one after it, and the byte where the first such one begins is
reported; or the fault of the first placeholder that holds no path is. The quick test finds what cannot be read and
what has a placeholder, so compiling passes over exactly the text nodes that can be read and have none.
-/
theorem parse_decomposes_leftmost (text : String) (d : Delimiters) :
    (match parse text d with
      | .ok template => Decomposes d text template
      | .error (.malformedTemplate shown offset) =>
        shown = text ∧ ∃ front inner, Unclosed d text front inner ∧ offset = front.utf8ByteSize
      | .error (.path expression segment fault) =>
        ∃ raw, Reaches d text raw ∧ Path.parse (String.ofList raw) = .error (.path expression segment fault)
      | .error _ => False) ∧
      (mentions text d = true ↔ (∃ error, parse text d = .error error) ∨
        ∃ template, parse text d = .ok template ∧ template.hasPlaceholder = true) ∧
      ∀ {Code Memory : Type} [Inhabited Code] (c : Reentry Code Memory) (owner : ViewModelId) (node : NodeId)
        (w : World Code Memory), w.isBound owner node = false → w.textContent node = text →
        (w.viewModel owner).settings.delimiters = d →
          (Engine.compileText c owner node w = some (.ok {}, w) ↔
            ∃ template, parse text d = .ok template ∧ template.hasPlaceholder = false) := by
  refine ⟨?_, mentions_iff_parse, ?_⟩
  · obtain ⟨passed, segments, rest, hpasses, hhalts⟩ := exists_passes d text.toList
    cases hhalts with
    | plain h =>
      rw [parse_of_plain hpasses h]
      exact hpasses.decomposes h
    | unclosed opened h =>
      rw [parse_of_unclosed hpasses opened h]
      exact ⟨rfl, _, _, hpasses.unclosed opened h, rfl⟩
    | faulty first fails =>
      rw [parse_of_faulty hpasses first fails]
      obtain ⟨_, _, _, -, -, -, rfl⟩ := Path.fault_of_parse fails
      exact ⟨_, ⟨_, _, _, _, _, hpasses, first⟩, fails⟩
  · rintro Code Memory _ c owner node w hbound rfl rfl
    rw [Engine.compileText_eq_iff hbound, mentions_eq_false_iff]

end Template

end ViewBinding
