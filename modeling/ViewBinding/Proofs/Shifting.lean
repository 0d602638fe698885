import ViewBinding.Proofs.Coverage

/-!
# Coverage while the world changes

A step shifts the world if it changes only what sources hear of that are told afterwards, and lets
everybody wait who listens to them. What is covered by a list without such a source stays covered, and
what there is to be read of it from scratch stays alike.
-/

namespace ViewBinding

variable {Code Memory : Type} [Inhabited Code]

/-- The slots are read alike. -/
def AlikeSlots : Option Slot → Option Slot → Prop
  | some (.field value _), some (.field value' _) => value.Alike value'
  | slot, slot' => slot = slot'

theorem AlikeSlots.refl (slot : Option Slot) : AlikeSlots slot slot := by
  cases slot with
  | none => rfl
  | some slot =>
    cases slot with
    | field value source => exact Value.Alike.refl value
    | _ => rfl

/-- Slots that are read alike are the same, or both of them hold values. -/
theorem AlikeSlots.eq_or_fields {slot slot' : Option Slot} (h : AlikeSlots slot slot') :
    slot' = slot ∨ ∃ value source value' source', slot = some (.field value source) ∧
      slot' = some (.field value' source') ∧ value.Alike value' := by
  unfold AlikeSlots at h
  split at h
  · next value source value' source' => exact Or.inr ⟨value, source, value', source', rfl, rfl, h⟩
  · exact Or.inl h.symm

/-- A slot of a computed property is read alike to no other. -/
theorem AlikeSlots.computed_iff {slot slot' : Option Slot} (h : AlikeSlots slot slot') (id : ComputedId) :
    slot' = some (.computed id) ↔ slot = some (.computed id) := by
  rcases h.eq_or_fields with rfl | ⟨value, source, value', source', rfl, rfl, -⟩
  · exact Iff.rfl
  · simp

namespace Realm

/-- Readers find the same as before, and every source hears of what it heard of. -/
structure Quiet (k : Realm Code Memory) (w w' : World Code Memory) : Prop where
  slots : ∀ object key, w'.slotAt object key = w.slotAt object key
  hears : ∀ object key s, w.hears object key = some s → w'.hears object key = some s
  size : w'.computeds.size = w.computeds.size
  memoize : ∀ id, (w'.computed id).memoize = (w.computed id).memoize
  source : ∀ id, (w'.computed id).source = (w.computed id).source
  query : ∀ id, k.query w' id = k.query w id

/-- A step changes only what some sources hear of, and whoever listens to one of them waits. -/
structure Shift (k : Realm Code Memory) (told : SourceId → Prop) (late late' : ComputedId → Prop)
    (w w' : World Code Memory) : Prop where
  scope : ∀ id, k.Scope w id → k.Scope w' id
  memoize : ∀ id, k.Scope w id → (w'.computed id).memoize = (w.computed id).memoize
  source : ∀ id, k.Scope w id → (w'.computed id).source = (w.computed id).source
  query : ∀ id, k.Scope w id → (k.query w id).Alike (k.query w' id)
  lists : ∀ id, k.Scope w id →
    (w'.dependencies (.computed id)).current = (w.dependencies (.computed id)).current
  slots : ∀ l object key, w.Sounds l (.property object key) → (∀ s ∈ l, ¬ told s) →
    w'.Sounds l (.property object key) ∧ AlikeSlots (w.slotAt object key) (w'.slotAt object key)
  waits : ∀ id, k.Scope w id → (w.computed id).memoize = true → late id →
    late' id ∨ told (w.computed id).source
  heeds : ∀ id, k.Scope w id → (w.computed id).memoize = true →
    ∀ s ∈ (w.dependencies (.computed id)).current, told s → late' id

variable {k : Realm Code Memory} {late late' : ComputedId → Prop} {w w₁ w' : World Code Memory}
  {told : SourceId → Prop} {id : ComputedId} {l l' : List SourceId} {q q' : Query Value} {what : Ask}

/-! ### Nothing is written -/

theorem Quiet.refl (w : World Code Memory) : k.Quiet w w :=
  ⟨fun _ _ => rfl, fun _ _ _ h => h, rfl, fun _ => rfl, fun _ => rfl, fun _ => rfl⟩

theorem Quiet.trans (h : k.Quiet w w₁) (h' : k.Quiet w₁ w') : k.Quiet w w' where
  slots object key := (h'.slots object key).trans (h.slots object key)
  hears object key s hs := h'.hears object key s (h.hears object key s hs)
  size := h'.size.trans h.size
  memoize id := (h'.memoize id).trans (h.memoize id)
  source id := (h'.source id).trans (h.source id)
  query id := (h'.query id).trans (h.query id)

theorem Quiet.scope (h : k.Quiet w w') (id : ComputedId) : k.Scope w' id ↔ k.Scope w id := by
  rw [Scope, h.size, Scope]

theorem Quiet.names (h : k.Quiet w w') (what : Ask) (id : ComputedId) :
    w'.Names what id ↔ w.Names what id := by
  cases what with
  | property object key => exact iff_of_eq (congrArg (· = some (Slot.computed id)) (h.slots object key))
  | computed other => exact Iff.rfl

theorem Quiet.sounds (h : k.Quiet w w') (hsounds : w.Sounds l what) : w'.Sounds l what := by
  cases what with
  | computed id => trivial
  | property object key =>
    intro hwritable
    rw [World.Writable, h.slots] at hwritable
    obtain ⟨s, hs, hsource⟩ := hsounds hwritable
    exact ⟨s, hs, h.hears object key s hsource⟩

open Classical in
theorem Quiet.scratch (h : k.Quiet w w') (late : ComputedId → Prop) :
    k.scratch late w' = k.scratch late w := by
  have hslot : w'.slotAt = w.slotAt := funext fun object => funext fun key => h.slots object key
  have hopen : ∀ id, k.Scope w' id ∧ ¬ Waits late w' id ↔ k.Scope w id ∧ ¬ Waits late w id := by
    intro id
    rw [h.scope, Waits, h.memoize, Waits]
  simp only [Realm.scratch, hslot, h.query]
  congr 1
  funext id
  exact ite_congr (propext (hopen id)) (fun _ => rfl) fun _ => rfl

theorem Quiet.afresh (h : k.Quiet w w') : k.afresh w' = k.afresh w :=
  h.scratch _

/-- Coverage is kept when lists are, or when new ones cover the same. -/
theorem Covers.relist (h : k.Covers late w l q) (hw : k.Quiet w w')
    (hlists : ∀ id, k.Scope w id →
      (w'.dependencies (.computed id)).current = (w.dependencies (.computed id)).current ∨
        k.Covers late w (w'.dependencies (.computed id)).current (k.query w id)) :
    k.Covers late w' l q := by
  have hnames := hw.names
  induction h with
  | done l result => exact .done l result
  | ask sounds scope source memoized plain answers inductionMemoized inductionPlain inductionAnswers =>
    constructor
    case sounds => exact hw.sounds sounds
    case scope => exact fun id hid => (hw.scope id).mpr (scope id ((hnames _ id).mp hid))
    case source =>
      intro id hid hmemo
      rw [hw.source]
      exact source id ((hnames _ id).mp hid) ((hw.memoize id).symm.trans hmemo)
    case memoized =>
      intro id hid hmemo hlate
      have hid' := (hnames _ id).mp hid
      have hold := inductionMemoized id hid' ((hw.memoize id).symm.trans hmemo) hlate
      rw [hw.query]
      rcases hlists id (scope id hid') with hsame | hnew
      · rw [hsame]
        exact hold
      · refine hold.combine hnew (hw.scratch late).symm (fun what id => (hnames what id).symm) ?_ ?_
        · exact fun id => ⟨(hw.memoize id).symm, (hw.source id).symm, (hw.query id).symm⟩
        · exact fun what => hw.sounds
    case plain =>
      intro id hid hmemo
      rw [hw.query]
      exact inductionPlain id ((hnames _ id).mp hid) ((hw.memoize id).symm.trans hmemo)
    case answers => exact fun a ha => inductionAnswers a (hw.scratch late ▸ ha)

/-- What is heard of stays so. -/
theorem Quiet.noted (h : k.Quiet w w')
    (hheard : ∀ what, w'.Heard what → w.Heard what)
    (hcovers : ∀ l q, k.Covers late w l q → k.Covers late w' l q)
    (hlists : ∀ id, k.Scope w id →
      k.Covers late w (w.dependencies (.computed id)).current (k.query w id) →
        k.Covers late w' (w'.dependencies (.computed id)).current (k.query w id))
    (hl : ∀ s ∈ l, s ∈ l') (hnoted : k.Noted late w l what) : k.Noted late w' l' what where
  sounds hw' := (h.sounds (hnoted.sounds (hheard what hw'))).mono hl
  scope id hid := (h.scope id).mpr (hnoted.scope id ((h.names what id).mp hid))
  source id hid hmemo := by
    rw [h.source]
    exact hl _ (hnoted.source id ((h.names what id).mp hid) ((h.memoize id).symm.trans hmemo))
  memoized id hid hmemo hlate := by
    have hid' := (h.names what id).mp hid
    rw [h.query]
    exact hlists id (hnoted.scope id hid')
      (hnoted.memoized id hid' ((h.memoize id).symm.trans hmemo) hlate)
  plain id hid hmemo := by
    rw [h.query]
    exact (hcovers _ _ (hnoted.plain id ((h.names what id).mp hid)
      ((h.memoize id).symm.trans hmemo))).mono hl

/-! ### Something is written -/

namespace Shift

variable (h : k.Shift told late late' w w')

include h

/-- A question that is covered is about the same computed property as before. -/
theorem names (hsounds : w.Sounds l what) (hl : ∀ s ∈ l, ¬ told s) (id : ComputedId) :
    w'.Names what id ↔ w.Names what id := by
  cases what with
  | computed other => exact Iff.rfl
  | property object key => exact (h.slots l object key hsounds hl).2.computed_iff id

theorem not_late (hid : k.Scope w id) (hmemo : (w.computed id).memoize = true)
    (hsource : ¬ told (w.computed id).source) (hlate : ¬ late' id) : ¬ late id :=
  fun hold => (h.waits id hid hmemo hold).elim hlate hsource

/-- What is given from scratch after the step of something covered was given before, or alike. -/
theorem gives_before (hcovers : k.Covers late w l q) (hl : ∀ s ∈ l, ¬ told s) (hq : q.Alike q')
    {r' : Except Error Value} (hr : (k.scratch late' w').Gives q' r') :
    ∃ r, (k.scratch late w).Gives q r ∧ AlikeAnswers r r' := by
  obtain ⟨n, hn⟩ := hr
  induction n using Nat.strongRecOn generalizing l q q' r' with
  | ind n inductionSteps =>
    induction hcovers generalizing q' r' with
    | done l result =>
      cases q' with
      | done result' =>
        cases hn
        exact ⟨result, View.gives_done.mpr rfl, hq⟩
      | ask what' next' => exact False.elim hq
    | @ask l what next sounds scope source memoized plain answers _ _ inductionAnswers =>
      cases q' with
      | done result' => exact False.elim hq
      | ask what' next' =>
        obtain ⟨rfl, hnext⟩ := hq
        rw [Query.eval, Option.bind_eq_some_iff] at hn
        obtain ⟨a', ha', hn⟩ := hn
        -- a computed property that is asked for is found in fewer steps
        have hcomputed : ∀ {m id a'}, m ≤ n → w.Names what id →
            (k.scratch late' w').tells m (.computed id) = some a' →
              ∃ a, (k.scratch late w).Tells (.computed id) a ∧ AlikeAnswers a a' := by
          intro m id a' hm hid ha'
          obtain ⟨hopen, -⟩ := tells_scratch.mp ⟨m, ha'⟩
          have hscope := scope id hid
          cases m with
          | zero => cases ha'
          | succ m =>
            have hquery : (k.scratch late' w').query id = k.query w' id := if_pos hopen
            rw [View.tells, View.meaning] at ha'
            have hgives : ∀ {l}, k.Covers late w l (k.query w id) → (∀ s ∈ l, ¬ told s) →
                ∃ a, (k.scratch late w).Gives (k.query w id) a ∧ AlikeAnswers a a' :=
              fun hcovers hl => inductionSteps m (by omega) hcovers hl (h.query id hscope)
                (hquery ▸ ha')
            cases hmemo : (w.computed id).memoize with
            | true =>
              have hlate' : ¬ late' id :=
                fun hlate => hopen.2 ⟨(h.memoize id hscope).trans hmemo, hlate⟩
              have hlate := h.not_late hscope hmemo (hl _ (source id hid hmemo)) hlate'
              obtain ⟨a, ha, hlike⟩ := hgives (memoized id hid hmemo hlate)
                fun s hs htold => hlate' (h.heeds id hscope hmemo s hs htold)
              exact ⟨a, tells_scratch.mpr ⟨⟨hscope, fun hwaits => hlate hwaits.2⟩, ha⟩, hlike⟩
            | false =>
              obtain ⟨a, ha, hlike⟩ := hgives (plain id hid hmemo) hl
              refine ⟨a, tells_scratch.mpr ⟨⟨hscope, fun hwaits => ?_⟩, ha⟩, hlike⟩
              rw [hwaits.1] at hmemo
              cases hmemo
        have hanswer : ∃ a, (k.scratch late w).Tells what a ∧ AlikeAnswers a a' := by
          cases what with
          | computed id => exact hcomputed (Nat.le_refl n) rfl ha'
          | property object key =>
            have hslots := (h.slots l object key sounds hl).2
            have htells : (k.scratch late' w').Tells (.property object key) a' := ⟨n, ha'⟩
            simp only [View.tells_property, scratch_slot] at htells ⊢
            cases n with
            | zero => cases ha'
            | succ n =>
              rw [View.tells, View.meaning, scratch_slot] at ha'
              cases hslot : w.slotAt object key with
              | none =>
                rw [hslot] at hslots
                have hslot' : w'.slotAt object key = none := by
                  cases hslot' : w'.slotAt object key with
                  | none => rfl
                  | some slot' => rw [hslot'] at hslots; cases hslots
                rw [hslot'] at htells
                exact ⟨_, rfl, htells ▸ .refl _⟩
              | some slot =>
                rw [hslot] at hslots
                cases slot with
                | field value s =>
                  cases hslot' : w'.slotAt object key with
                  | none => rw [hslot'] at hslots; cases hslots
                  | some slot' =>
                    rw [hslot'] at hslots htells
                    cases slot' with
                    | field value' s' => exact ⟨_, rfl, htells ▸ hslots⟩
                    | _ => cases hslots
                | constant value =>
                  have hslot' : w'.slotAt object key = some (.constant value) := Eq.symm hslots
                  rw [hslot'] at htells
                  exact ⟨_, rfl, htells ▸ .refl _⟩
                | proxy target name =>
                  have hslot' : w'.slotAt object key = some (.proxy target name) := Eq.symm hslots
                  rw [hslot'] at htells
                  exact ⟨_, rfl, htells ▸ .refl _⟩
                | computed id =>
                  have hslot' : w'.slotAt object key = some (.computed id) := Eq.symm hslots
                  rw [hslot'] at ha'
                  simp only [Query.ofSlot, Query.eval, Option.bind_eq_some_iff] at ha'
                  obtain ⟨b, hb, hab⟩ := ha'
                  cases hab
                  exact hcomputed (Nat.le_succ n) hslot hb
        obtain ⟨a, ha, hlike⟩ := hanswer
        obtain ⟨r, hr, hlike'⟩ := inductionAnswers a ha hl (hnext a a' hlike) hn
        exact ⟨r, View.gives_ask.mpr ⟨a, ha, hr⟩, hlike'⟩

/-- What was covered by a list of which nothing is told is so after the step. -/
theorem covers (hcovers : k.Covers late w l q) (hl : ∀ s ∈ l, ¬ told s) (hq : q.Alike q') :
    k.Covers late' w' l q' := by
  induction hcovers generalizing q' with
  | done l result =>
    cases q' with
    | done result' => exact .done l result'
    | ask what' next' => exact False.elim hq
  | @ask l what next sounds scope source memoized plain answers inductionMemoized inductionPlain
      inductionAnswers =>
    cases q' with
    | done result' => exact False.elim hq
    | ask what' next' =>
      obtain ⟨rfl, hnext⟩ := hq
      have hnames := h.names sounds hl
      have hmemoize : ∀ {id}, w.Names what id → (w'.computed id).memoize = (w.computed id).memoize :=
        fun hid => h.memoize _ (scope _ hid)
      constructor
      case sounds =>
        cases what with
        | computed id => trivial
        | property object key => exact (h.slots l object key sounds hl).1
      case scope => exact fun id hid => h.scope id (scope id ((hnames id).mp hid))
      case source =>
        intro id hid hmemo
        have hid' := (hnames id).mp hid
        rw [h.source id (scope id hid')]
        exact source id hid' ((hmemoize hid').symm.trans hmemo)
      case memoized =>
        intro id hid hmemo hlate'
        have hid' := (hnames id).mp hid
        have hmemo' := (hmemoize hid').symm.trans hmemo
        have hscope := scope id hid'
        have hlate := h.not_late hscope hmemo' (hl _ (source id hid' hmemo')) hlate'
        rw [h.lists id hscope]
        refine inductionMemoized id hid' hmemo' hlate ?_ (h.query id hscope)
        exact fun s hs htold => hlate' (h.heeds id hscope hmemo' s hs htold)
      case plain =>
        intro id hid hmemo
        have hid' := (hnames id).mp hid
        exact inductionPlain id hid' ((hmemoize hid').symm.trans hmemo) hl (h.query id (scope id hid'))
      case answers =>
        intro a' ha'
        have hcovered : k.Covers late w l (.ask what .done) :=
          .ask sounds scope source memoized plain fun a _ => .done l a
        have halike : (Query.ask what .done).Alike (.ask what .done) := ⟨rfl, fun _ _ h => h⟩
        obtain ⟨a, ha, hlike⟩ := h.gives_before hcovered hl halike
          (View.gives_ask.mpr ⟨a', ha', View.gives_done.mpr rfl⟩)
        obtain ⟨b, hb, hab⟩ := View.gives_ask.mp ha
        cases View.gives_done.mp hab
        exact inductionAnswers _ hb hl (hnext _ a' hlike)

end Shift

end Realm

end ViewBinding
