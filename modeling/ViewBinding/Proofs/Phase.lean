import ViewBinding.Proofs.Aside
import ViewBinding.Proofs.View

/-!
# Phases of reading

While something is read, the data stays as it is and values become known that were only asked for. So
every answer of a phase is the answer that the view at its start gives: reading ends as the query does
in that view, and puts the stacks back as they were.
-/

namespace ViewBinding

variable {Code Memory : Type} [Inhabited Code]

/-- What reading is about: the embedder's codes, the computed properties whose getters only read, in
which manner they do, and the view models that are alive. -/
structure Setting (Code Memory : Type) where
  application : Application Code Memory
  scope : ComputedId → Prop
  manner : ComputedId → Manner
  lives : ViewModelId → Prop

namespace Setting

variable (s : Setting Code Memory)

/-- The program of a getter. -/
def program (w : World Code Memory) (id : ComputedId) : Program Code Memory Value :=
  s.application.getter (w.computed id).getter.code (w.computed id).getter.owner?

open Classical in
/-- What there is to be read in a world. A computed property out of the scope has no answer. -/
noncomputable def view (w : World Code Memory) : View where
  slot := w.slotAt
  known id := if s.scope id then (w.computed id).known? else none
  query id :=
    if s.scope id then
      if ∀ owner, (w.computed id).getter.owner? = some owner → s.lives owner then
        (s.program w id).query w
      else .done (.error .detached)
    else .ask (.computed id) .done

variable {s} {w : World Code Memory} {id : ComputedId}

theorem view_known (hid : s.scope id) : (s.view w).known id = (w.computed id).known? :=
  if_pos hid

theorem view_unknown (h : (w.computed id).known? = none) : (s.view w).known id = none := by
  simp only [view, h, ite_self]

theorem view_query (hid : s.scope id)
    (halive : ∀ owner, (w.computed id).getter.owner? = some owner → s.lives owner) :
    (s.view w).query id = (s.program w id).query w :=
  (if_pos hid).trans (if_pos halive)

/-- The getter of a view model that is gone fails. -/
theorem view_query_detached {owner : ViewModelId} (hid : s.scope id)
    (howner : (w.computed id).getter.owner? = some owner) (hgone : ¬ s.lives owner) :
    (s.view w).query id = .done (.error .detached) :=
  (if_pos hid).trans (if_neg fun h => hgone (h owner howner))

end Setting

namespace View

/-- A computed property that a question is about. -/
def Names (v : View) : Ask → ComputedId → Prop
  | .property object key, id => v.slot object key = some (.computed id)
  | .computed other, id => other = id

/-- All questions of a query satisfy a condition, as far as the view answers them. -/
def Along {α : Type} (v : View) (ok : Ask → Prop) : Query α → Prop
  | .done _ => True
  | .ask what next => ok what ∧ ∀ a, v.Tells what a → v.Along ok (next a)

variable {α β : Type} {v : View} {ok ok' : Ask → Prop}

/-- Less is told, and more is satisfied. -/
theorem Along.of_tells {v' : View} {q : Query α} (h : v.Along ok q)
    (htells : ∀ what a, v'.Tells what a → v.Tells what a) (hok : ∀ what, ok what → ok' what) :
    v'.Along ok' q := by
  induction q with
  | done result => trivial
  | ask what next inductionHypothesis =>
    exact ⟨hok what h.1, fun a ha => inductionHypothesis a (h.2 a (htells what a ha))⟩

theorem along_andThen {q : Query α} {next : Except Error α → Query β} :
    v.Along ok (q.andThen next) ↔ v.Along ok q ∧ ∀ r, v.Gives q r → v.Along ok (next r) := by
  induction q with
  | done result => simp [Query.andThen, Along]
  | ask what rest inductionHypothesis =>
    simp only [Query.andThen, Along, inductionHypothesis, gives_ask]
    constructor
    · rintro ⟨hwhat, h⟩
      refine ⟨⟨hwhat, fun a ha => (h a ha).1⟩, ?_⟩
      rintro r ⟨a, ha, hr⟩
      exact (h a ha).2 r hr
    · rintro ⟨⟨hwhat, h⟩, hnext⟩
      exact ⟨hwhat, fun a ha => ⟨h a ha, fun r hr => hnext r ⟨a, ha, hr⟩⟩⟩

theorem Along.mono {q : Query α} (h : v.Along ok q) (hok : ∀ what, ok what → ok' what) :
    v.Along ok' q := by
  induction q with
  | done result => trivial
  | ask what next inductionHypothesis =>
    exact ⟨hok what h.1, fun a ha => inductionHypothesis a (h.2 a ha)⟩

end View

namespace Setting

variable (s : Setting Code Memory)

/-- A question about a computed property in the scope, or about none. -/
def Asks (w : World Code Memory) (what : Ask) : Prop :=
  ∀ id, (s.view w).Names what id → s.scope id

/-- The getters in the scope only read, ask only for what is in the scope, and read on their own view
model or on one that is alive. -/
structure Fits (w : World Code Memory) : Prop where
  quiet : ∀ o w, s.application.holds (s.application.notes o w) = s.application.holds w.memory
  reads : ∀ id, s.scope id → (s.program w id).Reads (s.manner id)
  owner : ∀ id, s.scope id → ∀ owner, (s.manner id).owner owner →
    (w.computed id).getter.owner? = some owner ∨ s.lives owner
  home : ∀ id, s.scope id → ∀ owner, (s.manner id).owner owner →
    (s.manner id).reader (some (w.viewModel owner).tracker)
  closed : ∀ id, s.scope id → (s.view w).Along (s.Asks w) ((s.view w).query id)

/-- A world that is met while something is read that began to be read at `start`. -/
structure Phase (start w : World Code Memory) : Prop where
  data : start.SameData w
  bases : ∀ id, (w.computed id).base = (start.computed id).base
  kept : ∀ id value, (start.computed id).known? = some value → (w.computed id).known? = some value
  told : ∀ id value, s.scope id → (w.computed id).known? = some value →
    (s.view start).Tells (.computed id) (.ok value)
  lives : ∀ id owner, s.scope id → (start.computed id).getter.owner? = some owner →
    (w.alive (s.application.holds w.memory) (.viewModel owner) = true ↔ s.lives owner)

variable {s} {start w w' : World Code Memory}

theorem Phase.unknown (h : s.Phase start w) {id : ComputedId} (hid : (w.computed id).known? = none) :
    (start.computed id).known? = none := by
  cases hstart : (start.computed id).known? with
  | none => rfl
  | some value => rw [h.kept id value hstart] at hid; cases hid

theorem Phase.unseen (h : s.Phase start w) {id : ComputedId} (hid : (w.computed id).known? = none) :
    (s.view start).known id = none :=
  view_unknown (h.unknown hid)

theorem Phase.slotAt (h : s.Phase start w) (object : ObjectId) (key : String) :
    (s.view start).slot object key = w.slotAt object key :=
  (h.data.slotAt_eq object key).symm

theorem Phase.getter (h : s.Phase start w) (id : ComputedId) :
    (w.computed id).getter = (start.computed id).getter :=
  Computed.getter_eq_of_base_eq (h.bases id)

theorem Phase.memoize (h : s.Phase start w) (id : ComputedId) :
    (w.computed id).memoize = (start.computed id).memoize :=
  Computed.memoize_eq_of_base_eq (h.bases id)

/-- Books may be kept and stacks may change, as long as the same view models are held. -/
theorem Phase.step (h : s.Phase start w) (hdata : w.SameData w')
    (hcomputeds : ∀ id, (w'.computed id).face = (w.computed id).face)
    (halive : ∀ owner, (w.alive (s.application.holds w.memory) (.viewModel owner) = true ↔
        s.lives owner) → (w'.alive (s.application.holds w'.memory) (.viewModel owner) = true ↔
        s.lives owner)) : s.Phase start w' where
  data := h.data.trans hdata
  bases id := (Computed.base_eq_of_face_eq (hcomputeds id)).trans (h.bases id)
  kept id value hvalue := by
    rw [Computed.known?_eq_of_face_eq (hcomputeds id)]
    exact h.kept id value hvalue
  told id value hid hvalue := by
    rw [Computed.known?_eq_of_face_eq (hcomputeds id)] at hvalue
    exact h.told id value hid hvalue
  lives id owner hid howner := halive owner (h.lives id owner hid howner)

theorem Phase.aside (h : s.Phase start w) (hw : World.Aside s.application.holds w w') :
    s.Phase start w' := by
  refine h.step hw.data hw.computeds fun owner howner => ?_
  rw [World.alive_viewModel, hw.held, hw.holds, ← World.alive_viewModel]
  exact howner

theorem Phase.mapTracker (h : s.Phase start w) (t : TrackerId) (f : Tracker → Tracker) :
    s.Phase start (w.mapTracker t f) := by
  refine h.step ⟨rfl, fun _ => rfl, fun _ => rfl, rfl, rfl, rfl, rfl, rfl, rfl⟩ (fun _ => rfl) ?_
  intro owner howner
  rw [World.alive_viewModel] at howner ⊢
  exact howner

/-- More may be held, but no view model that was not alive. -/
theorem Phase.hold (h : s.Phase start w) (refs : List Ref)
    (hrefs : ∀ owner, Ref.viewModel owner ∈ refs → s.lives owner) :
    s.Phase start { w with held := refs ++ w.held } := by
  refine h.step ⟨rfl, fun _ => rfl, fun _ => rfl, rfl, rfl, rfl, rfl, rfl, rfl⟩ (fun _ => rfl) ?_
  intro owner howner
  rw [World.alive_viewModel] at howner ⊢
  rw [← howner]
  simp only [List.mem_append]
  constructor
  · rintro (hmemory | hmem | hheld)
    · exact Or.inl hmemory
    · exact howner.mpr (hrefs owner hmem)
    · exact Or.inr hheld
  · rintro (hmemory | hheld)
    · exact Or.inl hmemory
    · exact Or.inr (Or.inr hheld)

/-- What is held may be put back as it was. -/
theorem Phase.putBack {w₁ : World Code Memory} (h : s.Phase start w) (h₁ : s.Phase start w₁)
    (hholds : s.application.holds w₁.memory = s.application.holds w.memory) :
    s.Phase start { w₁ with held := w.held } where
  data := h₁.data.trans ⟨rfl, fun _ => rfl, fun _ => rfl, rfl, rfl, rfl, rfl, rfl, rfl⟩
  bases := h₁.bases
  kept := h₁.kept
  told := h₁.told
  lives id owner hid howner := by
    rw [← h.lives id owner hid howner, World.alive_viewModel, World.alive_viewModel, hholds]

/-- What is known later was told before. -/
theorem Phase.tells_start (h : s.Phase start w)
    (hreads : ∀ id, s.scope id → (s.program start id).Reads (s.manner id)) {what : Ask}
    {a : Except Error Value} (ha : (s.view w).Tells what a) : (s.view start).Tells what a := by
  obtain ⟨n, hn⟩ := ha
  induction n generalizing what a with
  | zero => cases hn
  | succ n inductionHypothesis =>
    have hgives := View.gives_of_answers (v := s.view start)
      (fun _ _ => inductionHypothesis) (hn : ((s.view w).meaning what).eval _ = some a)
    cases what with
    | property object key =>
      have hmeaning : (s.view start).meaning (.property object key)
          = (s.view w).meaning (.property object key) := by
        rw [View.meaning, h.slotAt]
        rfl
      rw [View.tells_iff_gives, hmeaning]
      exact hgives
    | computed id =>
      by_cases hid : s.scope id
      · cases hknown : (w.computed id).known? with
        | some value =>
          have hvalue := (View.tells_computed_of_known ((view_known hid).trans hknown)).mp
            (⟨n + 1, hn⟩ : (s.view w).Tells (.computed id) a)
          exact hvalue ▸ h.told id value hid hknown
        | none =>
          have hquery : (s.view w).query id = (s.view start).query id := by
            have hprogram : (s.program w id).query w = (s.program start id).query start := by
              rw [program, h.getter]
              exact (hreads id hid).query_eq h.data
            simp only [view, if_pos hid]
            rw [h.getter id, hprogram]
          rw [View.tells_computed_of_unknown (h.unseen hknown), ← hquery]
          rw [View.meaning, view_unknown hknown] at hgives
          exact hgives
      · have hself : ¬ (s.view w).Tells (.computed id) a :=
          View.not_tells_self (if_neg hid) (if_neg hid)
        exact absurd ⟨n + 1, hn⟩ hself

/-- How a reading ends: as its query does at the start of the phase, which goes on. -/
structure Reads (s : Setting Code Memory) (start : World Code Memory) {α : Type} (q : Query α)
    (w : World Code Memory) (r : Except Error α) (w' : World Code Memory) : Prop where
  gives : (s.view start).Gives q r
  phase : s.Phase start w'
  rests : World.Rests s.application.holds w w'

/-- Whatever a step that reads ends in is the outcome of a query. -/
def Sound (s : Setting Code Memory) (start : World Code Memory) (m : Manner) {α : Type}
    (q : Query α) (x _ : Engine Code Memory α) : Prop :=
  (∀ owner, m.owner owner → s.lives owner) → (s.view start).Along (s.Asks start) q →
    ∀ w, s.Phase start w → Engine.Ends w x x (s.Reads start q w)

end Setting

end ViewBinding
