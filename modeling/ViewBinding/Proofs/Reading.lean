import ViewBinding.Proofs.Moments
import ViewBinding.Proofs.Query

/-!
# Reading rules

Reading a path, rendering a template and following a program that only reads are made of a few steps.
A relation between queries and what the engine does for them that holds of these steps holds of all
reading. The relation compares two engines, the second one under closer supervision perhaps.
-/

namespace ViewBinding.Engine

variable {Code Memory : Type} [Inhabited Code]

omit [Inhabited Code] in
/-- A step is followed by looking how it ended. -/
theorem bind_eq_attempt {α β : Type} (x : Engine Code Memory α) (f : α → Engine Code Memory β) :
    x >>= f = attempt x >>= fun
      | .ok a => f a
      | .error error => throw error := by
  funext w
  change (x w).bind _ = ((x w).map _).bind _
  cases x w with
  | none => rfl
  | some outcome =>
    obtain ⟨result, w'⟩ := outcome
    cases result with
    | ok a => rfl
    | error error => rfl

/-- Rules that a relation between queries and steps satisfies, for readings that begin in worlds with
the data of `start`. -/
structure ReadingRules (c d : Reentry Code Memory)
    (P P' : Moment Code Memory → World Code Memory → Prop) (start : World Code Memory)
    (K : Manner → {α : Type} → Query α → Engine Code Memory α → Engine Code Memory α → Prop) :
    Prop where
  done {m : Manner} {α : Type} (result : Except Error α) :
    K m (.done result) (ofExcept result) (ofExcept result)
  andThen {m : Manner} {α β : Type} {q : Query α} {next : Except Error α → Query β}
    {x y : Engine Code Memory α} {f g : Except Error α → Engine Code Memory β} :
    K m q x y → (∀ r, K m (next r) (f r) (g r)) →
      K m (q.andThen next) (attempt x >>= f) (attempt y >>= g)
  keeping {m : Manner} {α : Type} {q : Query α} {x y : Engine Code Memory α} (refs : List Ref) :
    (∀ id, Ref.viewModel id ∈ refs → m.owner id) → K m q x y →
      K m q (keeping refs x) (keeping refs y)
  paused {m : Manner} {α : Type} {q : Query α} {x y : Engine Code Memory α} (tracker : TrackerId) :
    m.reader none → K m q x y → K m q (framed (some tracker) none x) (framed (some tracker) none y)
  moment {m : Manner} {α : Type} {q : Query α} {x y : Engine Code Memory α}
    (moment : Moment Code Memory) :
    K m q x y → K m q (under (P moment) x) (under (P' moment) y)
  congr {m : Manner} {α : Type} {q : Query α} {x y x' y' : Engine Code Memory α} :
    (∀ w, start.SameData w → x' w = x w ∧ y' w = y w) → K m q x y → K m q x' y'
  property {m : Manner} (object : ObjectId) (key : String) {reader : Option TrackerId} :
    m.reader reader →
      K m (Query.property object key) (get c object key reader) (get d object key reader)
  computed {m : Manner} (id : ComputedId) {reader : Option TrackerId} :
    m.reader reader →
      K m (.ask (.computed id) .done) (readComputed c id reader) (readComputed d id reader)

namespace ReadingRules

variable {c d : Reentry Code Memory} {P P' : Moment Code Memory → World Code Memory → Prop}
  {start : World Code Memory}
  {K : Manner → {α : Type} → Query α → Engine Code Memory α → Engine Code Memory α → Prop}
  {m : Manner} {reader : Option TrackerId}

theorem bind (h : ReadingRules c d P P' start K) {α β : Type} {q : Query α} {next : α → Query β}
    {x y : Engine Code Memory α} {f g : α → Engine Code Memory β} (hx : K m q x y)
    (hf : ∀ a, K m (next a) (f a) (g a)) : K m (q.bind next) (x >>= f) (y >>= g) := by
  rw [bind_eq_attempt x, bind_eq_attempt y]
  refine h.andThen hx fun r => ?_
  cases r with
  | ok a => exact hf a
  | error error => exact h.done (.error error)

theorem walk (h : ReadingRules c d P P' start K) (hreader : m.reader reader) (path : Path)
    (segments : List String) (owner : Option String) (value : Value) :
    K m (Query.walk path owner value segments) (Engine.walk c path reader owner value segments)
      (Engine.walk d path reader owner value segments) := by
  induction segments generalizing owner value with
  | nil => exact h.done (.ok value)
  | cons segment rest inductionHypothesis =>
    cases value with
    | object object =>
      exact h.bind (h.property object segment hreader) fun next =>
        inductionHypothesis (some segment) next
    | array id items => exact inductionHypothesis (some segment) (itemAt items segment)
    | undefined => exact h.done (.error (path.faultAt (owner.getD segment) .undefined))
    | null => exact h.done (.error (path.faultAt (owner.getD segment) .null))
    | bool b => exact h.done (.error (path.faultAt (owner.getD segment) (.bool b)))
    | number x => exact h.done (.error (path.faultAt (owner.getD segment) (.number x)))
    | string s => exact h.done (.error (path.faultAt (owner.getD segment) (.string s)))
    | function id name =>
      exact h.done (.error (path.faultAt (owner.getD segment) (.function id name)))

theorem readPath (h : ReadingRules c d P P' start K) (hreader : m.reader reader) (root : Value)
    (path : Path) :
    K m (Query.path root path) (Engine.readPath c root path reader)
      (Engine.readPath d root path reader) :=
  h.walk hreader path path.segments none root

theorem segments (h : ReadingRules c d P P' start K) (hreader : m.reader reader) (root : Value)
    (l : List Template.Segment) :
    K m (Query.segments root l) (renderSegments c root reader l) (renderSegments d root reader l) := by
  induction l with
  | nil => exact h.done (.ok "")
  | cons segment rest inductionHypothesis =>
    cases segment with
    | literal text =>
      exact h.bind inductionHypothesis fun others => h.done (.ok (text ++ others))
    | placeholder path =>
      exact h.bind (h.readPath hreader root path) fun value =>
        h.bind inductionHypothesis fun others => h.done (.ok (value.text ++ others))

theorem refs_no_viewModel (value : Value) (id : ViewModelId) : Ref.viewModel id ∉ value.refs := by
  cases value <;> simp [Value.refs]

/-- A view model looks as it did at the start. -/
theorem viewing (h : ReadingRules c d P P' start K) {α : Type} {q : Query α} (owner : ViewModelId)
    {f g : ViewModel Code → Engine Code Memory α}
    (hf : K m q (f (start.viewModel owner)) (g (start.viewModel owner))) :
    K m q (inspect (·.viewModel owner) >>= f) (inspect (·.viewModel owner) >>= g) := by
  refine h.congr ?_ hf
  intro w hsame
  have hviewModel : w.viewModel owner = start.viewModel owner := by
    rw [World.viewModel, hsame.viewModels, World.viewModel]
  rw [← hviewModel]
  exact ⟨rfl, rfl⟩

variable (hhome : ∀ id, m.owner id → m.reader (some (start.viewModel id).tracker))

include hhome

theorem read (h : ReadingRules c d P P' start K) {owner : ViewModelId} (howner : m.owner owner)
    (expression : String) :
    K m (start.expressionQuery owner expression)
      (Engine.keeping [.viewModel owner] (withPath expression (readOn c owner)))
      (Engine.keeping [.viewModel owner] (withPath expression (readOn d owner))) := by
  refine h.keeping _ (by simp [howner]) ?_
  rw [World.expressionQuery, withPath, withPath]
  cases Path.parse expression with
  | ok path =>
    change K m _ (readOn c owner path) (readOn d owner path)
    refine h.viewing owner ?_
    exact h.readPath (hhome owner howner) (.object (start.viewModel owner).root) path
  | error error => exact h.done (.error error)

theorem render (h : ReadingRules c d P P' start K) {owner : ViewModelId}
    (howner : m.owner owner) (hpaused : m.reader none) (text : String) :
    K m (start.textQuery owner text)
      (Engine.keeping [.viewModel owner] (renderOn c owner text))
      (Engine.keeping [.viewModel owner] (renderOn d owner text)) := by
  refine h.keeping _ (by simp [howner]) ?_
  rw [World.textQuery]
  refine h.viewing owner ?_
  cases Template.parse text (start.viewModel owner).settings.delimiters with
  | ok template =>
    exact h.paused _ hpaused (h.segments (hhome owner howner) _ template.segments)
  | error error => exact h.done (.error error)

/-- What the relation says of reading requests. -/
theorem fulfil (h : ReadingRules c d P P' start K) {request : Request Code Memory}
    (hreads : request.Reads m) :
    K m (request.query start) (fulfilUnder P c request) (fulfilUnder P' d request) := by
  cases hreads with
  | get hreader => exact h.property _ _ hreader
  | @readPath root path reader hreader =>
    refine h.keeping root.refs ?_ (h.readPath hreader root path)
    intro id hid
    exact absurd hid (refs_no_viewModel root id)
  | @renderTemplate template root reader hreader =>
    refine h.keeping root.refs ?_ (h.segments hreader root template.segments)
    intro id hid
    exact absurd hid (refs_no_viewModel root id)
  | readComputed hreader => exact h.computed _ hreader
  | read howner => exact h.read hhome howner _
  | render howner hpaused => exact h.render hhome howner hpaused _

/-- What the relation says of programs that only read. -/
theorem follow (h : ReadingRules c d P P' start K) {α : Type} {program : Program Code Memory α}
    (hreads : program.Reads m) :
    K m (program.query start) (followUnder P c program) (followUnder P' d program) := by
  induction hreads with
  | done result => exact h.moment .acting (h.done (.ok result))
  | fail error => exact h.moment .acting (h.done (.error error))
  | @look next hpaused hsteady hnext inductionHypothesis =>
    refine h.moment .acting (h.congr ?_ (inductionHypothesis start))
    intro w hsame
    rw [hsteady start w hsame]
    exact ⟨rfl, rfl⟩
  | @ask request next hrequest hnext inductionHypothesis =>
    exact h.moment (.asking request) (h.andThen (h.fulfil hhome hrequest) inductionHypothesis)

end ReadingRules

end ViewBinding.Engine
