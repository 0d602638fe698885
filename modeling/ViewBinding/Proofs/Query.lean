import ViewBinding.Engine.Run

/-!
# What an evaluation asks

Whatever is read, in the end it is properties and computed properties, one after the other, and what
is read next depends on the answers so far. A query is such a course of questions. Paths, templates and
the programs of getters come down to queries, which say what is read but not who is told of it.
-/

namespace ViewBinding

/-- A question that an evaluation puts. -/
inductive Ask where
  | property (object : ObjectId) (key : String)
  | computed (id : ComputedId)

/-- A course of questions that ends in a result or an error. -/
inductive Query (α : Type) where
  | done (result : Except Error α)
  | ask (what : Ask) (next : Except Error Value → Query α)

namespace Query

variable {α β γ : Type}

/-- Goes on with the outcome of a query. -/
def andThen : Query α → (Except Error α → Query β) → Query β
  | done result, next => next result
  | ask what rest, next => ask what fun answer => (rest answer).andThen next

/-- Goes on with the result of a query, and ends in its error if there is one. -/
def bind (q : Query α) (next : α → Query β) : Query β :=
  q.andThen fun
    | .ok a => next a
    | .error error => done (.error error)

/-- The query of one property. -/
def property (object : ObjectId) (key : String) : Query Value :=
  ask (.property object key) done

/-- The query of the segments of a path. `owner` names the segment that gave the value. -/
def walk (path : Path) : Option String → Value → List String → Query Value
  | _, value, [] => done (.ok value)
  | owner, value, segment :: rest =>
    match value with
    | .object object => (property object segment).bind fun next =>
        walk path (some segment) next rest
    | .array _ items => walk path (some segment) (itemAt items segment) rest
    | other => done (.error (path.faultAt (owner.getD segment) other))

def path (root : Value) (path : Path) : Query Value :=
  walk path none root path.segments

def segments (root : Value) : List Template.Segment → Query String
  | [] => done (.ok "")
  | .literal text :: rest => (segments root rest).bind fun others => done (.ok (text ++ others))
  | .placeholder p :: rest =>
    (path root p).bind fun value => (segments root rest).bind fun others =>
      done (.ok (value.text ++ others))

end Query

variable {Code Memory : Type} [Inhabited Code]

/-- The query of an expression on a view model. -/
def World.expressionQuery (w : World Code Memory) (owner : ViewModelId) (expression : String) :
    Query Value :=
  match Path.parse expression with
  | .ok path => Query.path (.object (w.viewModel owner).root) path
  | .error error => .done (.error error)

/-- The query of a text that is rendered on a view model. -/
def World.textQuery (w : World Code Memory) (owner : ViewModelId) (text : String) : Query String :=
  match Template.parse text (w.viewModel owner).settings.delimiters with
  | .ok template => Query.segments (.object (w.viewModel owner).root) template.segments
  | .error error => .done (.error error)

/-- What a request asks for, if it is one that reads. -/
def Request.query (w : World Code Memory) :
    (request : Request Code Memory) → Query request.Answer
  | .get object key _ => Query.property object key
  | .readPath root path _ => Query.path root path
  | .renderTemplate template root _ => Query.segments root template.segments
  | .readComputed id _ => .ask (.computed id) .done
  | .read owner expression => w.expressionQuery owner expression
  | .render owner text => w.textQuery owner text
  | _ => .done (.error .detached)

/-- What a program asks for that only reads. -/
def Program.query {α : Type} (w : World Code Memory) : Program Code Memory α → Query α
  | .done result => .done (.ok result)
  | .fail error => .done (.error error)
  | .look next => (next w).query w
  | .ask request next => (request.query w).andThen fun answer => (next answer).query w

/-- Worlds with the same things in them; what may differ is who listens to what, what is cached, what
is held, and the memory of the embedder. -/
structure World.SameData (w w' : World Code Memory) : Prop where
  size : w'.objects.size = w.objects.size
  slots : ∀ id, (w'.object id).slots = (w.object id).slots
  observed : ∀ id, (w'.object id).observed = (w.object id).observed
  functions : w'.functions = w.functions
  arrays : w'.arrays = w.arrays
  probes : w'.probes = w.probes
  nodes : w'.nodes = w.nodes
  bindings : w'.bindings = w.bindings
  viewModels : w'.viewModels = w.viewModels

namespace World.SameData

omit [Inhabited Code]

variable {w w₁ w₂ : World Code Memory}

theorem refl (w : World Code Memory) : w.SameData w :=
  ⟨rfl, fun _ => rfl, fun _ => rfl, rfl, rfl, rfl, rfl, rfl, rfl⟩

theorem trans (h : w.SameData w₁) (h' : w₁.SameData w₂) : w.SameData w₂ where
  size := h'.size.trans h.size
  slots id := (h'.slots id).trans (h.slots id)
  observed id := (h'.observed id).trans (h.observed id)
  functions := h'.functions.trans h.functions
  arrays := h'.arrays.trans h.arrays
  probes := h'.probes.trans h.probes
  nodes := h'.nodes.trans h.nodes
  bindings := h'.bindings.trans h.bindings
  viewModels := h'.viewModels.trans h.viewModels

end World.SameData

/-- How a program is allowed to read: for which readers, and on which view models. -/
structure Manner where
  reader : Option TrackerId → Prop
  owner : ViewModelId → Prop

/-- Reading for any reader or nobody. -/
def Manner.free (owner : ViewModelId → Prop) : Manner :=
  ⟨fun _ => True, owner⟩

/-- Requests that read and do nothing else. Rendering pauses the tracking of what it reads. -/
inductive Request.Reads (m : Manner) : Request Code Memory → Prop
  | get {object : ObjectId} {key : String} {reader : Option TrackerId}
      (hreader : m.reader reader) : Reads m (.get object key reader)
  | readPath {root : Value} {path : Path} {reader : Option TrackerId}
      (hreader : m.reader reader) : Reads m (.readPath root path reader)
  | renderTemplate {template : Template} {root : Value} {reader : Option TrackerId}
      (hreader : m.reader reader) : Reads m (.renderTemplate template root reader)
  | readComputed {id : ComputedId} {reader : Option TrackerId}
      (hreader : m.reader reader) : Reads m (.readComputed id reader)
  | read {owner : ViewModelId} {expression : String}
      (howner : m.owner owner) : Reads m (.read owner expression)
  | render {owner : ViewModelId} {text : String}
      (howner : m.owner owner) (hpaused : m.reader none) : Reads m (.render owner text)

/-- Programs that read and do nothing else. One that may read for nobody may also look at the world,
as long as it sees nothing there that reading changes. -/
inductive Program.Reads {α : Type} (m : Manner) : Program Code Memory α → Prop
  | done (result : α) : Reads m (.done result)
  | fail (error : Error) : Reads m (.fail error)
  | look {next : World Code Memory → Program Code Memory α} (hpaused : m.reader none)
      (hsteady : ∀ w w' : World Code Memory, w.SameData w' → next w' = next w)
      (hnext : ∀ w, Reads m (next w)) : Reads m (.look next)
  | ask {request : Request Code Memory} {next : Except Error request.Answer → Program Code Memory α}
      (hrequest : request.Reads m) (hnext : ∀ answer, Reads m (next answer)) :
      Reads m (.ask request next)

omit [Inhabited Code] in
theorem Request.Reads.query_eq {m : Manner} {w w' : World Code Memory} {request : Request Code Memory}
    (h : request.Reads m) (hsame : w.SameData w') : request.query w' = request.query w := by
  have hviewModel : ∀ id, w'.viewModel id = w.viewModel id := by
    intro id
    rw [World.viewModel, hsame.viewModels, World.viewModel]
  cases h with
  | get => rfl
  | readPath => rfl
  | renderTemplate => rfl
  | readComputed => rfl
  | @read owner expression =>
    change w'.expressionQuery owner expression = w.expressionQuery owner expression
    rw [World.expressionQuery, hviewModel, World.expressionQuery]
  | @render owner text =>
    change w'.textQuery owner text = w.textQuery owner text
    rw [World.textQuery, hviewModel, World.textQuery]

omit [Inhabited Code] in
/-- What a program that only reads asks for depends on the data alone. -/
theorem Program.Reads.query_eq {α : Type} {m : Manner} {w w' : World Code Memory}
    {program : Program Code Memory α} (h : program.Reads m) (hsame : w.SameData w') :
    program.query w' = program.query w := by
  induction h with
  | done result => rfl
  | fail error => rfl
  | look hpaused hsteady hnext inductionHypothesis =>
    rw [Program.query, Program.query, hsteady w w' hsame]
    exact inductionHypothesis w
  | ask hrequest hnext inductionHypothesis =>
    rw [Program.query, Program.query, hrequest.query_eq hsame]
    congr 1
    funext answer
    exact inductionHypothesis answer

end ViewBinding
