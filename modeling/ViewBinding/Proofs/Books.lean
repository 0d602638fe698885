import ViewBinding.Proofs.Frame

/-!
# The books of a subscriber

What the sources list and what a subscriber keeps a list of are two books of the same registrations. A
third one can be kept from outside: the occurrences that the embedder notes say which sources were met
and how evaluations ended, and so which registrations there ought to be.
-/

namespace ViewBinding

/-! ### What was noted of a subscriber -/

structure Trail where
  /-- What the last evaluation met if it succeeded; what is met in a failed one comes on top. -/
  kept : List SourceId := []
  /-- What the evaluation under way has met. -/
  met : List SourceId := []
  /-- Whether some evaluation has succeeded. -/
  succeeded : Bool := false
  /-- Whether a source that was met has told its subscribers when this one was gone. -/
  dropped : Bool := false

namespace Trail

/-- What one more occurrence says of a subscriber. -/
def step (x : Subscriber) (t : Trail) : Occurrence → Trail
  | .evaluating y => if y = x then { t with met := [] } else t
  | .tracked y source => if y = x then { t with met := source :: t.met } else t
  | .evaluated y true =>
    if y = x then { t with kept := t.met, met := [], succeeded := true } else t
  | .evaluated y false => if y = x then { t with kept := t.met ++ t.kept, met := [] } else t
  | .telling source live =>
    if (source ∈ t.kept ∨ source ∈ t.met) ∧ x ∉ live then { t with dropped := true } else t
  | _ => t

/-- What a history says of a subscriber, the last occurrence first. -/
def ofHistory (x : Subscriber) : List Occurrence → Trail
  | [] => {}
  | occurrence :: earlier => (ofHistory x earlier).step x occurrence

end Trail

/-! ### The books at one time -/

/-- All that is kept about a subscriber. -/
structure Page where
  /-- The sources that list it. -/
  listed : SourceId → Prop
  dependencies : Dependencies
  /-- Whether it is torn down. -/
  ended : Prop
  trail : Trail

namespace Page

/-- The books agree, also while the subscriber evaluates and collects what it meets. Sources forget one
that was dropped. -/
structure Agrees (p : Page) (evaluating : Prop) : Prop where
  noted : ∀ s, p.listed s → s ∈ p.dependencies.current ∨ s ∈ p.dependencies.pending
  listed : p.trail.dropped = false → ∀ s, s ∈ p.dependencies.current ∨ s ∈ p.dependencies.pending → p.listed s
  current : p.dependencies.current.Nodup
  pending : p.dependencies.pending.Nodup
  idle : ¬ evaluating → p.dependencies.pending = []
  kept : ¬ p.ended → ∀ s, s ∈ p.dependencies.current ↔ s ∈ p.trail.kept
  met : evaluating → ∀ s, s ∈ p.dependencies.pending ↔ s ∈ p.trail.met
  ended : p.ended → ¬ evaluating ∧ p.dependencies.current = []
  rest : ¬ evaluating → p.trail.met = []

/-- An evaluation begins. -/
def begin (p : Page) : Page :=
  { p with dependencies := p.dependencies.begin, trail := { p.trail with met := [] } }

/-- A source is met. -/
def meet (p : Page) (s : SourceId) : Page where
  listed t := p.listed t ∨ t = s
  dependencies := p.dependencies.record s
  ended := p.ended
  trail := { p.trail with met := s :: p.trail.met }

/-- An evaluation ends well. -/
def settle (p : Page) : Page where
  listed s := p.listed s ∧ s ∉ p.dependencies.stale
  dependencies := p.dependencies.settle
  ended := p.ended
  trail := { p.trail with kept := p.trail.met, met := [], succeeded := true }

/-- An evaluation fails. -/
def merge (p : Page) : Page :=
  { p with
    dependencies := p.dependencies.merge
    trail := { p.trail with kept := p.trail.met ++ p.trail.kept, met := [] } }

/-- The subscriber is torn down. -/
def close (p : Page) : Page where
  listed s := p.listed s ∧ s ∉ p.dependencies.current
  dependencies := {}
  ended := True
  trail := p.trail

/-- A source tells its subscribers, perhaps this one among them. It forgets those it does not tell. -/
def tell (p : Page) (s : SourceId) (told : Bool) : Page :=
  { p with
    listed t := p.listed t ∧ (t = s → told = true)
    trail :=
      if (s ∈ p.trail.kept ∨ s ∈ p.trail.met) ∧ told = false then { p.trail with dropped := true }
      else p.trail }

/-- Nothing was ever noted. -/
def blank : Page :=
  ⟨fun _ => False, {}, False, {}⟩

theorem agrees_blank : blank.Agrees False where
  noted _ h := h.elim
  listed _ s h := by
    rcases h with h | h
    · cases h
    · cases h
  current := List.nodup_nil
  pending := List.nodup_nil
  idle _ := rfl
  kept _ _ := Iff.rfl
  met := False.elim
  ended := False.elim
  rest _ := rfl

variable {p : Page} {evaluating : Prop}

theorem Agrees.begin (h : p.Agrees evaluating) (hidle : ¬ evaluating) (hended : ¬ p.ended) :
    p.begin.Agrees True := by
  have hpending := h.idle hidle
  have hdependencies : p.begin.dependencies = p.dependencies := by
    cases hd : p.dependencies with
    | mk current pending =>
      rw [hd] at hpending
      simp only at hpending
      simp [Page.begin, Dependencies.begin, hd, hpending]
  refine ⟨?_, ?_, ?_, ?_, fun hnot => absurd trivial hnot, ?_, ?_, fun h => absurd h hended,
    fun hnot => absurd trivial hnot⟩
  · rw [hdependencies]
    exact h.noted
  · rw [hdependencies]
    exact h.listed
  · rw [hdependencies]
    exact h.current
  · rw [hdependencies]
    exact h.pending
  · rw [hdependencies]
    exact h.kept
  · intro _ s
    rw [hdependencies, hpending]
    rfl

theorem Agrees.meet (h : p.Agrees evaluating) (hevaluating : evaluating) (s : SourceId) :
    (p.meet s).Agrees evaluating := by
  constructor
  · rintro t (ht | rfl)
    · rcases h.noted t ht with hcurrent | hpending
      · exact Or.inl (by simpa [Page.meet] using hcurrent)
      · exact Or.inr (Dependencies.mem_pending_record.mpr (Or.inl hpending))
    · exact Or.inr (Dependencies.mem_pending_record.mpr (Or.inr rfl))
  · intro hkept t ht
    rcases ht with hcurrent | hpending
    · exact Or.inl (h.listed hkept t (Or.inl (by simpa [Page.meet] using hcurrent)))
    · rcases Dependencies.mem_pending_record.mp hpending with hpending | rfl
      · exact Or.inl (h.listed hkept t (Or.inr hpending))
      · exact Or.inr rfl
  · simpa [Page.meet] using h.current
  · simp only [Page.meet, Dependencies.record]
    split
    · exact h.pending
    · next hnew =>
      refine List.nodup_append.mpr ⟨h.pending, by simp, ?_⟩
      intro a ha b hb hab
      rw [List.mem_singleton] at hb
      exact hnew (hb ▸ hab ▸ ha)
  · exact fun hidle => absurd hevaluating hidle
  · intro hended t
    simpa [Page.meet] using h.kept hended t
  · intro _ t
    simp only [Page.meet, Dependencies.mem_pending_record, List.mem_cons, h.met hevaluating t]
    exact or_comm
  · exact fun hended => absurd hevaluating (h.ended hended).1
  · exact fun hidle => absurd hevaluating hidle

theorem Agrees.settle (h : p.Agrees evaluating) (hevaluating : evaluating) :
    p.settle.Agrees False := by
  constructor
  · rintro s ⟨hs, hstale⟩
    rw [Dependencies.mem_stale] at hstale
    rcases h.noted s hs with hcurrent | hpending
    · exact Or.inl (Classical.byContradiction fun hnot => hstale ⟨hcurrent, hnot⟩)
    · exact Or.inl hpending
  · rintro hkept s (hs | hs)
    · refine ⟨h.listed hkept s (Or.inr hs), ?_⟩
      rw [Dependencies.mem_stale]
      exact fun hstale => hstale.2 hs
    · cases hs
  · exact h.pending
  · exact List.nodup_nil
  · exact fun _ => rfl
  · exact fun _ s => h.met hevaluating s
  · exact False.elim
  · exact fun hended => absurd hevaluating (h.ended hended).1
  · exact fun _ => rfl

theorem Agrees.merge (h : p.Agrees evaluating) (hevaluating : evaluating) :
    p.merge.Agrees False := by
  constructor
  · intro s hs
    exact Or.inl (Dependencies.mem_current_merge.mpr (h.noted s hs))
  · rintro hkept s (hs | hs)
    · exact h.listed hkept s (Dependencies.mem_current_merge.mp hs)
    · cases hs
  · refine List.nodup_append.mpr ⟨h.current, h.pending.filter _, ?_⟩
    intro a ha b hb hab
    simp only [List.mem_filter, decide_eq_true_eq] at hb
    exact hb.2 (hab ▸ ha)
  · exact List.nodup_nil
  · exact fun _ => rfl
  · intro hended s
    change s ∈ p.dependencies.merge.current ↔ s ∈ p.trail.met ++ p.trail.kept
    rw [Dependencies.mem_current_merge, List.mem_append, h.kept hended, h.met hevaluating]
    exact or_comm
  · exact False.elim
  · exact fun hended => absurd hevaluating (h.ended hended).1
  · exact fun _ => rfl

theorem Agrees.close (h : p.Agrees evaluating) (hidle : ¬ evaluating) :
    p.close.Agrees evaluating := by
  have hpending := h.idle hidle
  constructor
  · rintro s ⟨hs, hcurrent⟩
    rcases h.noted s hs with hs | hs
    · exact absurd hs hcurrent
    · rw [hpending] at hs
      cases hs
  · rintro _ s (hs | hs) <;> cases hs
  · exact List.nodup_nil
  · exact List.nodup_nil
  · exact fun _ => rfl
  · exact fun hended => absurd trivial hended
  · exact fun hevaluating => absurd hevaluating hidle
  · exact fun _ => ⟨hidle, rfl⟩
  · exact h.rest

theorem Agrees.tell (h : p.Agrees evaluating) (s : SourceId) (told : Bool) :
    (p.tell s told).Agrees evaluating := by
  have htrail : (p.tell s told).trail.kept = p.trail.kept ∧ (p.tell s told).trail.met = p.trail.met := by
    unfold Page.tell
    split <;> exact ⟨rfl, rfl⟩
  constructor
  · exact fun t ht => h.noted t ht.1
  · intro hkept t ht
    have hdropped : p.trail.dropped = false ∧
        ¬ ((s ∈ p.trail.kept ∨ s ∈ p.trail.met) ∧ told = false) := by
      simp only [Page.tell] at hkept
      split at hkept
      · cases hkept
      · next hnot => exact ⟨hkept, hnot⟩
    refine ⟨h.listed hdropped.1 t ht, ?_⟩
    rintro rfl
    refine (Bool.not_eq_false told).mp fun hfalse => hdropped.2 ⟨?_, hfalse⟩
    rcases ht with hcurrent | hpending
    · by_cases hended : p.ended
      · change t ∈ p.dependencies.current at hcurrent
        rw [(h.ended hended).2] at hcurrent
        cases hcurrent
      · exact Or.inl ((h.kept hended t).mp hcurrent)
    · by_cases hevaluating : evaluating
      · exact Or.inr ((h.met hevaluating t).mp hpending)
      · change t ∈ p.dependencies.pending at hpending
        rw [h.idle hevaluating] at hpending
        cases hpending
  · exact h.current
  · exact h.pending
  · exact h.idle
  · rw [htrail.1]
    exact h.kept
  · rw [htrail.2]
    exact h.met
  · exact h.ended
  · rw [htrail.2]
    exact h.rest

end Page

end ViewBinding
