import ViewBinding.Proofs.Sparing

/-!
# Reading needs no supervision

A proviso may leave the moments alone at which a program reads. Getters that only read meet no others, so
then reading, and whatever is made of reading, is the same step with supervision and without.
-/

namespace ViewBinding

variable {Code Memory : Type} [Inhabited Code]

/-- A request that reads for whoever is evaluating, or for nobody. -/
abbrev Request.ReadsOnly (request : Request Code Memory) : Prop :=
  request.Reads (.free fun _ => True)

/-- A proviso that holds at the moments at which programs read. -/
structure Proviso.Lenient (P : Proviso Code Memory) : Prop where
  acting (waiting : List Subscriber) (w : World Code Memory) : P waiting .acting w
  asking {request : Request Code Memory} (waiting : List Subscriber) (w : World Code Memory) :
    request.ReadsOnly → P waiting (.asking request) w

/-- Every getter of an embedder only reads. -/
def Application.GettersRead (application : Application Code Memory) : Prop :=
  ∀ code owner?, (application.getter code owner?).ReadsOnly

namespace Engine

section Congruence

variable {c d : Reentry Code Memory} (happlication : d.application = c.application)
  (hgetter : ∀ id, runGetter d id = runGetter c id)

include happlication hgetter

theorem readComputed_congr (id : ComputedId) (reader : Option TrackerId) :
    readComputed d id reader = readComputed c id reader := by
  simp only [readComputed, memoizedValue, evaluate, depend, note, happlication, hgetter]

theorem get_congr (object : ObjectId) (key : String) (reader : Option TrackerId) :
    get d object key reader = get c object key reader := by
  have hslot : ∀ holder name slot, readSlot d holder name reader slot
      = readSlot c holder name reader slot := by
    intro holder name slot
    rcases slot with _ | (⟨value, _ | source⟩ | id | value | ⟨target, key⟩)
    · simp only [readSlot, depend, happlication]
    · rfl
    · simp only [readSlot, depend, happlication]
    · exact readComputed_congr happlication hgetter id reader
    · rfl
    · rfl
  simp only [get, hslot]

theorem readPath_congr (root : Value) (path : Path) (reader : Option TrackerId) :
    readPath d root path reader = readPath c root path reader := by
  have hwalk : ∀ (segments : List String) (owner : Option String) (value : Value),
      walk d path reader owner value segments = walk c path reader owner value segments := by
    intro segments
    induction segments with
    | nil => exact fun _ _ => rfl
    | cons segment rest inductionHypothesis =>
      intro owner value
      cases value with
      | object object =>
        simp only [walk, get_congr happlication hgetter, inductionHypothesis]
      | array id items => exact inductionHypothesis (some segment) (itemAt items segment)
      | _ => rfl
  exact hwalk path.segments none root

theorem renderTemplate_congr (template : Template) (root : Value) (reader : Option TrackerId) :
    renderTemplate d template root reader = renderTemplate c template root reader := by
  unfold renderTemplate
  induction template.segments with
  | nil => rfl
  | cons segment rest inductionHypothesis =>
    cases segment with
    | literal text => simp only [renderSegments, inductionHypothesis]
    | placeholder path =>
      simp only [renderSegments, readPath_congr happlication hgetter, inductionHypothesis]

theorem evaluateWatcher_congr (id : WatcherId) : evaluateWatcher d id = evaluateWatcher c id := by
  simp only [evaluateWatcher, evaluate, note, happlication, readPath_congr happlication hgetter]

theorem fulfil_congr {request : Request Code Memory} (hreads : request.ReadsOnly) :
    fulfil d request = fulfil c request := by
  have hget := get_congr happlication hgetter
  have hpath := readPath_congr happlication hgetter
  have htemplate := renderTemplate_congr happlication hgetter
  cases hreads with
  | get => exact hget _ _ _
  | readPath => simp only [fulfil, hpath]
  | renderTemplate => simp only [fulfil, htemplate]
  | readComputed => exact readComputed_congr happlication hgetter _ _
  | read => simp only [fulfil, withPath, readOn, hpath]
  | render => simp only [fulfil, renderOn, htemplate]

end Congruence

section Supervision

variable {application : Application Code Memory} {P : Proviso Code Memory} {α : Type}

/-- No request that reads has moments inside it. -/
theorem fulfilUnder_of_reads {Q : Moment Code Memory → World Code Memory → Prop}
    {c : Reentry Code Memory} {request : Request Code Memory} (hreads : request.ReadsOnly) :
    fulfilUnder Q c request = fulfil c request := by
  cases hreads <;> rfl

theorem followUnder_of_reads {c d : Reentry Code Memory} (hP : P.Lenient) (waiting : List Subscriber)
    (happlication : d.application = c.application) (hgetter : ∀ id, runGetter d id = runGetter c id)
    {program : Program Code Memory α} (hreads : program.ReadsOnly) :
    followUnder (P waiting) d program = follow c program := by
  induction hreads with
  | done result => exact under_of_holds (hP.acting waiting)
  | fail error => exact under_of_holds (hP.acting waiting)
  | look _ _ _ inductionHypothesis =>
    rw [followUnder, under_of_holds (hP.acting waiting), follow]
    funext w
    rw [inductionHypothesis]
  | ask hrequest _ inductionHypothesis =>
    rw [followUnder, under_of_holds fun w => hP.asking waiting w hrequest, follow,
      fulfilUnder_of_reads hrequest, fulfil_congr happlication hgetter hrequest]
    simp only [inductionHypothesis]

/-- A getter is run in the same way by engines that run reading programs in the same way. -/
theorem runGetter_congr {c d : Reentry Code Memory} (hgetters : application.GettersRead)
    (hc : c.application = application) (hd : d.application = application)
    (hrun : ∀ {program : Program Code Memory Value}, program.ReadsOnly → d.run program = c.run program)
    (id : ComputedId) : runGetter d id = runGetter c id := by
  have hcode : ∀ code owner?, d.run (application.getter code owner?)
      = c.run (application.getter code owner?) := fun code owner? => hrun (hgetters code owner?)
  simp only [runGetter, note, hc, hd, hcode]

variable (hP : P.Lenient) (hgetters : application.GettersRead)

include hP hgetters

/-- However deep the engine is entered again, programs that only read are run as without supervision. -/
theorem run_reentryUnder {program : Program Code Memory α} (hreads : program.ReadsOnly) (depth : Nat)
    (waiting : List Subscriber) : (reentryUnder P application depth waiting).run program
      = (reentry application depth).run program := by
  induction depth generalizing α waiting with
  | zero => rfl
  | succ depth inductionHypothesis =>
    have hd : (reentryUnder P application depth waiting).application = application :=
      application_reentryUnder P depth waiting
    have hc := application_reentry application depth
    exact followUnder_of_reads hP waiting (hd.trans hc.symm)
      (runGetter_congr hgetters hc hd fun h => inductionHypothesis h waiting) hreads

theorem runGetter_reentryUnder (depth : Nat) (waiting : List Subscriber) (id : ComputedId) :
    runGetter (reentryUnder P application depth waiting) id = runGetter (reentry application depth) id :=
  runGetter_congr hgetters (application_reentry application depth) (application_reentryUnder P depth waiting)
    (fun h => run_reentryUnder hP hgetters h depth waiting) id

end Supervision

end Engine

end ViewBinding
