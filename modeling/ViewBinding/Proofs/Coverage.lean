import ViewBinding.Proofs.Alike
import ViewBinding.Proofs.Bookkeeping
import ViewBinding.Proofs.Observed
import ViewBinding.Proofs.Phase

/-!
# What is listened to

A computed property is told of a change if the sources on its list cover what its getter asks for: the
source of every field and of every absent key that is read, and the sources of the memoized properties
that are read, which cover in turn what their getters ask for. Coverage is about answers from scratch,
in which nothing kept plays a part. A memoized property that waits to be told of a change has no such
answer: whatever rests on it will be told when it is.
-/

namespace ViewBinding

variable {Code Memory : Type} [Inhabited Code]

namespace World

/-- The computed property that a question is about. -/
def Names (w : World Code Memory) : Ask → ComputedId → Prop
  | .property object key, id => w.slotAt object key = some (.computed id)
  | .computed other, id => other = id

/-- The source that hears of a field of an object, or of a key that an observed object lacks. -/
def hearer (w : World Code Memory) (object : ObjectId) (key : String) : Option SourceId :=
  match (w.object object).slot? key with
  | some (.field _ source) => source
  | none => if (w.object object).observed then (w.object object).awaited.find? key else none
  | _ => none

/-- The source that hears of the field or the absent key that a key stands for. -/
def hears (w : World Code Memory) (object : ObjectId) (key : String) : Option SourceId :=
  w.hearer (w.resolve object key).1 (w.resolve object key).2

/-- A question about a field of an observed object or an absent key of one, or about something that
nobody writes. -/
def Heard (w : World Code Memory) : Ask → Prop
  | .property object key =>
    match w.slotAt object key with
    | some (.field _ source) => source.isSome = true
    | none => (w.object (w.resolve object key).1).observed = true
    | _ => True
  | .computed _ => True

/-- A key that stands for a field or for nothing. -/
def Writable (w : World Code Memory) (object : ObjectId) (key : String) : Prop :=
  match w.slotAt object key with
  | some (.field _ _) => True
  | none => True
  | _ => False

/-- A source on the list hears of what the question is about, unless nobody writes it. -/
def Sounds (w : World Code Memory) (l : List SourceId) : Ask → Prop
  | .property object key => w.Writable object key → ∃ s ∈ l, w.hears object key = some s
  | .computed _ => True

omit [Inhabited Code] in
theorem Sounds.mono {w : World Code Memory} {l l' : List SourceId} {what : Ask}
    (h : w.Sounds l what) (hl : ∀ s ∈ l, s ∈ l') : w.Sounds l' what := by
  cases what with
  | computed id => trivial
  | property object key =>
    intro hwritable
    obtain ⟨s, hs, hsource⟩ := h hwritable
    exact ⟨s, hl s hs, hsource⟩

end World

omit [Inhabited Code] in
/-- What programs that only read ask for changes with the roots of their view models alone, if they
read for somebody. -/
theorem Program.Reads.query_congr {α : Type} {m : Manner} {w w' : World Code Memory}
    {program : Program Code Memory α} (h : program.Reads m) (hreader : ¬ m.reader none)
    (hroots : ∀ owner, m.owner owner → (w'.viewModel owner).root = (w.viewModel owner).root) :
    program.query w' = program.query w := by
  induction h with
  | done result => rfl
  | fail error => rfl
  | look hpaused => exact absurd hpaused hreader
  | @ask request next hrequest hnext inductionHypothesis =>
    have hquery : request.query w' = request.query w := by
      cases hrequest with
      | get => rfl
      | readPath => rfl
      | renderTemplate => rfl
      | readComputed => rfl
      | @read owner expression howner =>
        change w'.expressionQuery owner expression = w.expressionQuery owner expression
        rw [World.expressionQuery, hroots owner howner, World.expressionQuery]
      | render howner hpaused => exact absurd hpaused hreader
    rw [Program.query, Program.query, hquery]
    congr 1
    funext answer
    exact inductionHypothesis answer

/--
What freshness is about: computed properties whose getters only read, each on one tracker, and perhaps the
watchers at home on a tracker, which read computed properties of the realm only. The embedder keeps a record
of what happens.
-/
structure Realm (Code Memory : Type) where
  application : Application Code Memory
  record : Memory → List Occurrence
  computed : ComputedId → Prop
  tracker : ComputedId → TrackerId
  watchers : Prop
  home : TrackerId

namespace Realm

variable (k : Realm Code Memory)

def Has : Subscriber → Prop
  | .watcher _ => k.watchers
  | .computed id => k.computed id
  | .probe _ => False

/-- A computed property of the realm that has been made. -/
def Scope (w : World Code Memory) (id : ComputedId) : Prop :=
  k.computed id ∧ Key.index id < w.computeds.size

/-- Getters of the realm read on their tracker, and paths of their own view model. -/
def setting (w : World Code Memory) : Setting Code Memory where
  application := k.application
  scope := k.Scope w
  manner id := ⟨(· = some (k.tracker id)), fun owner => (w.computed id).getter.owner? = some owner⟩
  lives _ := True

/-- A getter of the realm does as it should. -/
def Reading (w : World Code Memory) (id : ComputedId) : Prop :=
  ((k.setting w).program w id).Reads ((k.setting w).manner id)

open Classical in
/-- What a getter asks for. -/
noncomputable def query (w : World Code Memory) (id : ComputedId) : Query Value :=
  if k.Reading w id then ((k.setting w).program w id).query w else .ask (.computed id) .done

/-- A memoized property that waits to be told of a change. -/
def Waits (late : ComputedId → Prop) (w : World Code Memory) (id : ComputedId) : Prop :=
  (w.computed id).memoize = true ∧ late id

open Classical in
/-- What there is to be read from scratch, but for what rests on a property that waits. -/
noncomputable def scratch (late : ComputedId → Prop) (w : World Code Memory) : View where
  slot := w.slotAt
  known _ := none
  query id :=
    if k.Scope w id ∧ ¬ Waits late w id then k.query w id else .ask (.computed id) .done

theorem scratch_slot (late : ComputedId → Prop) (w : World Code Memory) :
    (k.scratch late w).slot = w.slotAt := rfl

/-- What there is to be read when nothing is kept. -/
noncomputable def afresh (w : World Code Memory) : View :=
  k.scratch (fun _ => False) w

/-- The sources on a list cover what a query asks for. -/
inductive Covers (late : ComputedId → Prop) (w : World Code Memory) :
    List SourceId → Query Value → Prop
  | done (l : List SourceId) (result : Except Error Value) : Covers late w l (.done result)
  | ask {l : List SourceId} {what : Ask} {next : Except Error Value → Query Value}
      (sounds : w.Sounds l what)
      (scope : ∀ id, w.Names what id → k.Scope w id)
      (source : ∀ id, w.Names what id → (w.computed id).memoize = true → (w.computed id).source ∈ l)
      (memoized : ∀ id, w.Names what id → (w.computed id).memoize = true → ¬ late id →
        Covers late w (w.dependencies (.computed id)).current (k.query w id))
      (plain : ∀ id, w.Names what id → (w.computed id).memoize = false →
        Covers late w l (k.query w id))
      (answers : ∀ a, (k.scratch late w).Tells what a → Covers late w l (next a)) :
      Covers late w l (.ask what next)

/-- What is to be noted of a question, so that the list covers it. -/
structure Noted (late : ComputedId → Prop) (w : World Code Memory) (l : List SourceId) (what : Ask) :
    Prop where
  sounds : w.Heard what → w.Sounds l what
  scope : ∀ id, w.Names what id → k.Scope w id
  source : ∀ id, w.Names what id → (w.computed id).memoize = true → (w.computed id).source ∈ l
  memoized : ∀ id, w.Names what id → (w.computed id).memoize = true → ¬ late id →
    k.Covers late w (w.dependencies (.computed id)).current (k.query w id)
  plain : ∀ id, w.Names what id → (w.computed id).memoize = false → k.Covers late w l (k.query w id)

end Realm

namespace View

/-- A way to answer whose answers are alike to what a view tells leads to outcomes alike to what the view
gives. -/
theorem gives_of_eval {v : View} {answer : Ask → Option (Except Error Value)}
    (h : ∀ what a, answer what = some a → ∃ a', v.Tells what a' ∧ AlikeAnswers a a')
    {q q' : Query Value} (hq : q.Alike q') {r : Except Error Value} (hr : q.eval answer = some r) :
    ∃ r', v.Gives q' r' ∧ AlikeAnswers r r' := by
  induction q generalizing q' with
  | done result =>
    cases hr
    cases q' with
    | done result' => exact ⟨result', gives_done.mpr rfl, hq⟩
    | ask what' next' => exact False.elim hq
  | ask what next inductionHypothesis =>
    cases q' with
    | done result' => exact False.elim hq
    | ask what' next' =>
      obtain ⟨rfl, hnext⟩ := hq
      rw [Query.eval, Option.bind_eq_some_iff] at hr
      obtain ⟨a, ha, hr⟩ := hr
      obtain ⟨a', ha', hlike⟩ := h what a ha
      obtain ⟨r', hr', hlike'⟩ := inductionHypothesis a (hnext a a' hlike) hr
      exact ⟨r', gives_ask.mpr ⟨a', ha', hr'⟩, hlike'⟩

end View

namespace Realm

variable {k : Realm Code Memory} {late late' : ComputedId → Prop} {w w' : World Code Memory}
  {id : ComputedId} {l l' : List SourceId} {q q' : Query Value} {what : Ask}

/-- What a getter asks for changes with the root of its view model alone. -/
theorem query_congr (hgetter : (w'.computed id).getter = (w.computed id).getter)
    (hroots : ∀ owner, (w.computed id).getter.owner? = some owner →
      (w'.viewModel owner).root = (w.viewModel owner).root) : k.query w' id = k.query w id := by
  have hreading : k.Reading w' id ↔ k.Reading w id := by
    simp only [Reading, setting, Setting.program, hgetter]
  by_cases h : k.Reading w id
  · rw [query, if_pos (hreading.mpr h), query, if_pos h]
    have hprogram : (k.setting w').program w' id = (k.setting w).program w id := by
      simp only [setting, Setting.program, hgetter]
    rw [hprogram]
    exact Program.Reads.query_congr h (by simp [setting]) hroots
  · rw [query, if_neg (mt hreading.mp h), query, if_neg h]

/-- From scratch, a computed property is answered as its getter asks, unless it waits. -/
theorem tells_scratch {a : Except Error Value} :
    (k.scratch late w).Tells (.computed id) a ↔
      (k.Scope w id ∧ ¬ Waits late w id) ∧ (k.scratch late w).Gives (k.query w id) a := by
  by_cases h : k.Scope w id ∧ ¬ Waits late w id
  · have hquery : (k.scratch late w).query id = k.query w id := if_pos h
    rw [View.tells_computed_of_unknown rfl, hquery]
    exact (and_iff_right h).symm
  · have hquery : (k.scratch late w).query id = .ask (.computed id) .done := if_neg h
    exact iff_of_false (View.not_tells_self rfl hquery) fun h' => h h'.1

/-- The fewer properties wait, the more there is to be read. -/
theorem tells_scratch_mono (hlate : ∀ id, late' id → late id) {a : Except Error Value}
    (h : (k.scratch late w).Tells what a) : (k.scratch late' w).Tells what a := by
  obtain ⟨n, hn⟩ := h
  induction n generalizing what a with
  | zero => cases hn
  | succ n inductionHypothesis =>
    have hgives : ∀ {q : Query Value} {r}, q.eval ((k.scratch late w).tells n) = some r →
        (k.scratch late' w).Gives q r :=
      View.gives_of_answers fun _ _ => inductionHypothesis
    rw [View.tells] at hn
    cases what with
    | property object key => exact View.tells_iff_gives.mpr (hgives hn)
    | computed id =>
      have htells := (tells_scratch (k := k)).mp ⟨n + 1, hn⟩
      refine tells_scratch.mpr ⟨⟨htells.1.1, fun hwaits => htells.1.2 ⟨hwaits.1, hlate _ hwaits.2⟩⟩, ?_⟩
      rw [View.meaning] at hn
      have hquery : (k.scratch late w).query id = k.query w id := if_pos htells.1
      exact hgives (hquery ▸ hn)

namespace Covers

theorem mono (h : k.Covers late w l q) (hl : ∀ s ∈ l, s ∈ l') : k.Covers late w l' q := by
  induction h generalizing l' with
  | done l result => exact .done l' result
  | @ask l what next sounds scope source memoized plain _ _ inductionPlain inductionNext =>
    refine .ask (sounds.mono hl) scope (fun id hid hmemo => hl _ (source id hid hmemo)) memoized ?_ ?_
    · exact fun id hid hmemo => inductionPlain id hid hmemo hl
    · exact fun a ha => inductionNext a ha hl

/-- If nothing waits, what is covered has an outcome from scratch. -/
theorem gives (hlate : ∀ id, ¬ late id) (h : k.Covers late w l q) :
    ∃ r, (k.scratch late w).Gives q r := by
  induction h with
  | done l result => exact ⟨result, View.gives_done.mpr rfl⟩
  | @ask l what next sounds scope source memoized plain _ inductionMemoized inductionPlain inductionNext =>
    have hcomputed : ∀ id, w.Names what id → ∃ a, (k.scratch late w).Tells (.computed id) a := by
      intro id hid
      have hopen : k.Scope w id ∧ ¬ Waits late w id := ⟨scope id hid, fun h => hlate _ h.2⟩
      cases hmemo : (w.computed id).memoize with
      | true =>
        obtain ⟨a, ha⟩ := inductionMemoized id hid hmemo (hlate _)
        exact ⟨a, tells_scratch.mpr ⟨hopen, ha⟩⟩
      | false =>
        obtain ⟨a, ha⟩ := inductionPlain id hid hmemo
        exact ⟨a, tells_scratch.mpr ⟨hopen, ha⟩⟩
    have hanswer : ∃ a, (k.scratch late w).Tells what a := by
      cases what with
      | computed id => exact hcomputed id rfl
      | property object key =>
        simp only [View.tells_property, scratch_slot]
        cases hslot : w.slotAt object key with
        | none => exact ⟨_, rfl⟩
        | some slot =>
          cases slot with
          | computed id => exact hcomputed id hslot
          | _ => exact ⟨_, rfl⟩
    obtain ⟨a, ha⟩ := hanswer
    obtain ⟨r, hr⟩ := inductionNext a ha
    exact ⟨r, View.gives_ask.mpr ⟨a, ha, hr⟩⟩

/-- Where a list covers a query, so does another one that hears of the same things. -/
theorem combine (h : k.Covers late w l q)
    (h' : k.Covers late w' l' q) (hscratch : k.scratch late w' = k.scratch late w)
    (hnames : ∀ what id, w'.Names what id ↔ w.Names what id)
    (hrows : ∀ id, (w'.computed id).memoize = (w.computed id).memoize
      ∧ (w'.computed id).source = (w.computed id).source ∧ k.query w' id = k.query w id)
    (hsounds : ∀ what, w'.Sounds l' what → w.Sounds l' what) : k.Covers late w l' q := by
  induction h with
  | done l result => exact .done l' result
  | @ask l what next sounds scope source memoized plain _ _ inductionPlain inductionNext =>
    cases h' with
    | ask sounds' scope' source' memoized' plain' answers' =>
      refine .ask (hsounds _ sounds') scope ?_ memoized ?_ ?_
      · intro id hid hmemo
        rw [← (hrows id).2.1]
        exact source' id ((hnames _ id).mpr hid) ((hrows id).1.trans hmemo)
      · intro id hid hmemo
        have hplain := plain' id ((hnames _ id).mpr hid) ((hrows id).1.trans hmemo)
        rw [(hrows id).2.2] at hplain
        exact inductionPlain id hid hmemo hplain
      · intro a ha
        exact inductionNext a ha (answers' a (hscratch.symm ▸ ha))

/-- What was noted along the answers of a view covers a query, if answers from scratch are alike to those
of the view, and if all that is read from scratch is heard of. -/
theorem of_along {v : View}
    (hfollows : ∀ what a, (k.scratch late w).Tells what a → ∃ a', v.Tells what a' ∧ AlikeAnswers a a')
    (halong : v.Along (k.Noted late w l) q) (hlike : q.Alike q')
    (hheard : (k.afresh w).Along w.Heard q') : k.Covers late w l q' := by
  induction q generalizing q' with
  | done result =>
    cases q' with
    | done result' => exact .done l result'
    | ask what' next' => exact False.elim hlike
  | ask what next inductionHypothesis =>
    cases q' with
    | done result' => exact False.elim hlike
    | ask what' next' =>
      obtain ⟨rfl, hnext⟩ := hlike
      obtain ⟨hnoted, halong⟩ := halong
      refine .ask (hnoted.sounds hheard.1) hnoted.scope hnoted.source hnoted.memoized hnoted.plain ?_
      intro a ha
      obtain ⟨a', ha', haa'⟩ := hfollows what a ha
      refine inductionHypothesis a' (halong a' ha') (hnext a' a haa'.symm) (hheard.2 a ?_)
      exact tells_scratch_mono (fun _ h => h.elim) ha

end Covers

/-! ### Answers from scratch and answers that are kept -/

/-- What is kept is alike to what there is from scratch, unless it waits. -/
def KeptAlike (k : Realm Code Memory) (late : ComputedId → Prop) (w : World Code Memory) : Prop :=
  ∀ id value, k.Scope w id → (w.computed id).known? = some value → ¬ late id →
    ∀ r, (k.scratch late w).Gives (k.query w id) r → AlikeAnswers r (.ok value)

/-- In the realm, what a getter asks for is what its program asks for. -/
theorem view_query (hid : k.Scope w id) (hreads : k.Reading w id) :
    ((k.setting w).view w).query id = k.query w id := by
  rw [Setting.view_query hid fun _ _ => trivial, query, if_pos hreads]

/-- Answers from scratch are alike to those in which what is kept plays a part. -/
theorem follows (hkept : k.KeptAlike late w) (hreads : ∀ id, k.Scope w id → k.Reading w id)
    (hself : ∀ id, k.Scope w id → (k.query w id).Alike (k.query w id)) {a : Except Error Value}
    (h : (k.scratch late w).Tells what a) :
    ∃ a', ((k.setting w).view w).Tells what a' ∧ AlikeAnswers a a' := by
  obtain ⟨n, hn⟩ := h
  induction n generalizing what a with
  | zero => cases hn
  | succ n inductionHypothesis =>
    have hcomputed : ∀ {id a}, (k.scratch late w).tells (n + 1) (.computed id) = some a →
        ∃ a', ((k.setting w).view w).Tells (.computed id) a' ∧ AlikeAnswers a a' := by
      intro id a ha
      obtain ⟨⟨hid, hwaits⟩, hgives⟩ := tells_scratch.mp ⟨n + 1, ha⟩
      cases hknown : (w.computed id).known? with
      | some value =>
        have hmemo : (w.computed id).memoize = true := by
          cases hmemo : (w.computed id).memoize with
          | true => rfl
          | false => simp [Computed.known?, hmemo] at hknown
        refine ⟨.ok value, (View.tells_computed_of_known ?_).mpr rfl, ?_⟩
        · exact (Setting.view_known hid).trans hknown
        · exact hkept id value hid hknown (fun hlate => hwaits ⟨hmemo, hlate⟩) a hgives
      | none =>
        have hquery : (k.scratch late w).query id = k.query w id := if_pos ⟨hid, hwaits⟩
        rw [View.tells, View.meaning] at ha
        simp only [scratch] at ha hquery
        obtain ⟨a', ha', hlike⟩ := View.gives_of_eval (fun _ _ h => inductionHypothesis h) (hself id hid)
          (hquery ▸ ha)
        refine ⟨a', (View.tells_computed_of_unknown (Setting.view_unknown hknown)).mpr ?_, hlike⟩
        rw [view_query hid (hreads id hid)]
        exact ha'
    cases what with
    | computed id => exact hcomputed hn
    | property object key =>
      have htells := View.tells_property.mp (⟨n + 1, hn⟩ : (k.scratch late w).Tells _ a)
      have hview : ((k.setting w).view w).slot = w.slotAt := rfl
      simp only [View.tells_property, hview]
      have hslot? := hn
      rw [View.tells, View.meaning] at hslot?
      rw [scratch_slot] at htells hslot?
      cases hslot : w.slotAt object key with
      | none =>
        rw [hslot] at htells
        exact ⟨a, htells, .refl a⟩
      | some slot =>
        rw [hslot] at htells hslot?
        cases slot with
        | computed id =>
          simp only [Query.ofSlot, Query.eval, Option.bind_eq_some_iff] at hslot?
          obtain ⟨b, hb, hab⟩ := hslot?
          cases hab
          exact inductionHypothesis hb
        | _ => exact ⟨a, htells, .refl a⟩

end Realm

end ViewBinding
