import ViewBinding.Proofs.Query

/-!
# What is there to be read

A view says what each key stands for, which values of computed properties are known, and what the
others ask for. `tells` looks up one question, `Gives` follows a query to its outcome. Both are
functions of the view: who listens and who is evaluating plays no part.
-/

namespace ViewBinding

/-- What there is to be read. -/
@[ext]
structure View where
  /-- What a key of an object stands for, proxies followed. -/
  slot : ObjectId → String → Option Slot
  /-- The value of a computed property, if it is known. -/
  known : ComputedId → Option Value
  /-- What a computed property asks for if its value is not known. -/
  query : ComputedId → Query Value

/-- Follows a query with a way to answer questions, as far as that has answers. -/
def Query.eval {α : Type} (answer : Ask → Option (Except Error Value)) :
    Query α → Option (Except Error α)
  | done result => some result
  | ask what next => (answer what).bind fun a => (next a).eval answer

/-- The query that reading a slot stands for. -/
def Query.ofSlot : Option Slot → Query Value
  | some (.field value _) => .done (.ok value)
  | some (.constant value) => .done (.ok value)
  | some (.computed id) => .ask (.computed id) .done
  | _ => .done (.ok .undefined)

namespace View

/-- The query that a question stands for. -/
def meaning (v : View) : Ask → Query Value
  | .property object key => .ofSlot (v.slot object key)
  | .computed id =>
    match v.known id with
    | some value => .done (.ok value)
    | none => v.query id

/-- The answer to a question, if it is found in so many steps. -/
def tells (v : View) : Nat → Ask → Option (Except Error Value)
  | 0, _ => none
  | n + 1, what => (v.meaning what).eval (v.tells n)

/-- The answer to a question. -/
def Tells (v : View) (what : Ask) (answer : Except Error Value) : Prop :=
  ∃ n, v.tells n what = some answer

/-- The outcome of a query. -/
def Gives {α : Type} (v : View) (q : Query α) (result : Except Error α) : Prop :=
  ∃ n, q.eval (v.tells n) = some result

end View

namespace Query

variable {α β : Type}

/-- A way to answer that knows more finds the same outcome. -/
theorem eval_mono {answer answer' : Ask → Option (Except Error Value)}
    (h : ∀ what a, answer what = some a → answer' what = some a) (q : Query α)
    {result : Except Error α} (hq : q.eval answer = some result) :
    q.eval answer' = some result := by
  induction q with
  | done r => exact hq
  | ask what next inductionHypothesis =>
    simp only [eval, Option.bind_eq_some_iff] at hq ⊢
    obtain ⟨a, ha, hnext⟩ := hq
    exact ⟨a, h what a ha, inductionHypothesis a hnext⟩

theorem eval_andThen (answer : Ask → Option (Except Error Value)) (q : Query α)
    (next : Except Error α → Query β) :
    (q.andThen next).eval answer = (q.eval answer).bind fun r => (next r).eval answer := by
  induction q with
  | done r => rfl
  | ask what rest inductionHypothesis =>
    simp only [andThen, eval, Option.bind_assoc, inductionHypothesis]

end Query

namespace View

variable {α β : Type} {v : View}

theorem tells_succ {n : Nat} {what : Ask} {a : Except Error Value}
    (h : v.tells n what = some a) : v.tells (n + 1) what = some a := by
  induction n generalizing what a with
  | zero => cases h
  | succ n inductionHypothesis =>
    exact Query.eval_mono (fun _ _ => inductionHypothesis) _ h

theorem tells_mono {m n : Nat} (hle : m ≤ n) {what : Ask} {a : Except Error Value}
    (h : v.tells m what = some a) : v.tells n what = some a := by
  induction hle with
  | refl => exact h
  | step _ inductionHypothesis => exact tells_succ inductionHypothesis

theorem eval_tells_mono {m n : Nat} (hle : m ≤ n) {q : Query α} {r : Except Error α}
    (h : q.eval (v.tells m) = some r) : q.eval (v.tells n) = some r :=
  q.eval_mono (fun _ _ => tells_mono hle) h

/-- A query has one outcome. -/
theorem Gives.unique {q : Query α} {r s : Except Error α} (hr : v.Gives q r) (hs : v.Gives q s) :
    r = s := by
  obtain ⟨m, hm⟩ := hr
  obtain ⟨n, hn⟩ := hs
  have h₁ := eval_tells_mono (Nat.le_max_left m n) hm
  have h₂ := eval_tells_mono (Nat.le_max_right m n) hn
  exact Option.some.inj (h₁.symm.trans h₂)

@[simp] theorem gives_done {r s : Except Error α} : v.Gives (.done r) s ↔ s = r := by
  constructor
  · rintro ⟨n, h⟩
    exact (Option.some.inj h).symm
  · rintro rfl
    exact ⟨0, rfl⟩

theorem gives_ask {what : Ask} {next : Except Error Value → Query α} {r : Except Error α} :
    v.Gives (.ask what next) r ↔ ∃ a, v.Tells what a ∧ v.Gives (next a) r := by
  constructor
  · rintro ⟨n, h⟩
    simp only [Query.eval, Option.bind_eq_some_iff] at h
    obtain ⟨a, ha, hnext⟩ := h
    exact ⟨a, ⟨n, ha⟩, ⟨n, hnext⟩⟩
  · rintro ⟨a, ⟨m, hm⟩, ⟨n, hn⟩⟩
    refine ⟨max m n, ?_⟩
    simp only [Query.eval, Option.bind_eq_some_iff]
    exact ⟨a, tells_mono (Nat.le_max_left m n) hm, eval_tells_mono (Nat.le_max_right m n) hn⟩

theorem gives_andThen {q : Query α} {next : Except Error α → Query β} {r : Except Error β} :
    v.Gives (q.andThen next) r ↔ ∃ a, v.Gives q a ∧ v.Gives (next a) r := by
  induction q with
  | done result => simp [Query.andThen]
  | ask what rest inductionHypothesis =>
    simp only [Query.andThen, gives_ask, inductionHypothesis]
    constructor
    · rintro ⟨a, ha, b, hb, hr⟩
      exact ⟨b, ⟨a, ha, hb⟩, hr⟩
    · rintro ⟨b, ⟨a, ha, hb⟩, hr⟩
      exact ⟨a, ha, b, hb, hr⟩

/-- What a way to answer leads to is given if all its answers are told. -/
theorem gives_of_answers {answer : Ask → Option (Except Error Value)}
    (h : ∀ what a, answer what = some a → v.Tells what a) {q : Query α} {r : Except Error α}
    (hr : q.eval answer = some r) : v.Gives q r := by
  induction q with
  | done result =>
    cases hr
    exact gives_done.mpr rfl
  | ask what next inductionHypothesis =>
    rw [Query.eval, Option.bind_eq_some_iff] at hr
    obtain ⟨a, ha, hr⟩ := hr
    exact gives_ask.mpr ⟨a, h what a ha, inductionHypothesis a hr⟩

/-- A question is answered as the query that it stands for. -/
theorem tells_iff_gives {what : Ask} {a : Except Error Value} :
    v.Tells what a ↔ v.Gives (v.meaning what) a := by
  constructor
  · rintro ⟨n, h⟩
    cases n with
    | zero => cases h
    | succ n => exact ⟨n, h⟩
  · rintro ⟨n, h⟩
    exact ⟨n + 1, h⟩

/-- What reading a slot answers. -/
def Shows (v : View) (a : Except Error Value) : Option Slot → Prop
  | some (.field value _) => a = .ok value
  | some (.constant value) => a = .ok value
  | some (.computed id) => v.Tells (.computed id) a
  | _ => a = .ok .undefined

theorem tells_property {object : ObjectId} {key : String} {a : Except Error Value} :
    v.Tells (.property object key) a ↔ v.Shows a (v.slot object key) := by
  rw [tells_iff_gives, meaning]
  unfold Query.ofSlot Shows
  split
  · exact gives_done
  · exact gives_done
  · simp [gives_ask]
  · exact gives_done

theorem tells_computed_of_known {id : ComputedId} {value : Value} (h : v.known id = some value)
    {a : Except Error Value} : v.Tells (.computed id) a ↔ a = .ok value := by
  rw [tells_iff_gives, meaning, h]
  exact gives_done

theorem tells_computed_of_unknown {id : ComputedId} (h : v.known id = none)
    {a : Except Error Value} : v.Tells (.computed id) a ↔ v.Gives (v.query id) a := by
  rw [tells_iff_gives, meaning, h]

/-- What asks for itself has no answer. -/
theorem not_tells_self {v : View} {id : ComputedId} (hknown : v.known id = none)
    (hquery : v.query id = .ask (.computed id) .done) {a : Except Error Value} :
    ¬ v.Tells (.computed id) a := by
  rintro ⟨n, hn⟩
  induction n with
  | zero => cases hn
  | succ n inductionHypothesis =>
    rw [tells, meaning, hknown] at hn
    simp only [hquery, Query.eval, Option.bind_eq_some_iff] at hn
    obtain ⟨b, hb, hab⟩ := hn
    cases hab
    exact inductionHypothesis hb

/-! ### What is under evaluation comes before what it asks for -/

/-- A query is found in fewer steps than any of the computed properties under evaluation. -/
def Above (v : View) (evaluating : ComputedId → Prop) (q : Query α) : Prop :=
  ∀ id, evaluating id → ∀ n, v.tells n (.computed id) ≠ none → ∃ m < n, q.eval (v.tells m) ≠ none

variable {evaluating : ComputedId → Prop}

theorem Above.first {q : Query α} {next : Except Error α → Query β}
    (h : v.Above evaluating (q.andThen next)) : v.Above evaluating q := by
  intro id hid n hn
  obtain ⟨m, hlt, hm⟩ := h id hid n hn
  refine ⟨m, hlt, ?_⟩
  intro hnone
  rw [Query.eval_andThen, hnone] at hm
  exact hm rfl

theorem Above.rest {q : Query α} {next : Except Error α → Query β} {r : Except Error α}
    (h : v.Above evaluating (q.andThen next)) (hr : v.Gives q r) : v.Above evaluating (next r) := by
  intro id hid n hn
  obtain ⟨m, hlt, hm⟩ := h id hid n hn
  refine ⟨m, hlt, ?_⟩
  rw [Query.eval_andThen] at hm
  cases hq : q.eval (v.tells m) with
  | none => simp [hq] at hm
  | some s =>
    rw [Gives.unique hr ⟨m, hq⟩]
    simpa [hq] using hm

theorem Above.property {object : ObjectId} {key : String} {id : ComputedId}
    (h : v.Above evaluating (.property object key)) (hslot : v.slot object key = some (.computed id)) :
    v.Above evaluating (.ask (.computed id) .done : Query Value) := by
  intro other hother n hn
  obtain ⟨m, hlt, hm⟩ := h other hother n hn
  cases m with
  | zero => exact absurd rfl hm
  | succ m =>
    refine ⟨m, by omega, ?_⟩
    simpa [Query.property, Query.eval, Query.ofSlot, tells, meaning, hslot] using hm

/-- What is under evaluation is not asked for. -/
theorem Above.not_evaluating {id : ComputedId}
    (h : v.Above evaluating (.ask (.computed id) .done)) {a : Except Error Value}
    (ha : v.Tells (.computed id) a) : ¬ evaluating id := by
  intro hid
  have hnone : ∀ n, v.tells n (.computed id) = none := by
    intro n
    induction n using Nat.strongRecOn with
    | ind n inductionHypothesis =>
      refine Classical.byContradiction fun hn => ?_
      obtain ⟨m, hlt, hm⟩ := h id hid n hn
      rw [Query.eval, inductionHypothesis m hlt] at hm
      exact hm rfl
  obtain ⟨n, hn⟩ := ha
  rw [hnone n] at hn
  cases hn

/-- The evaluation of a computed property comes below those under evaluation and below itself. -/
theorem Above.enter {id : ComputedId} (h : v.Above evaluating (.ask (.computed id) .done))
    (hunknown : v.known id = none) :
    v.Above (fun other => other = id ∨ evaluating other) (v.query id) := by
  have hself : ∀ n, v.tells n (.computed id) ≠ none → ∃ m < n, (v.query id).eval (v.tells m) ≠ none := by
    intro n hn
    cases n with
    | zero => exact absurd rfl hn
    | succ n =>
      refine ⟨n, by omega, ?_⟩
      simpa [tells, meaning, hunknown] using hn
  rintro other (rfl | hother) n hn
  · exact hself n hn
  · obtain ⟨m, hlt, hm⟩ := h other hother n hn
    have hm' : v.tells m (.computed id) ≠ none := by
      intro hnone
      rw [Query.eval, hnone] at hm
      exact hm rfl
    obtain ⟨k, hk, hquery⟩ := hself m hm'
    exact ⟨k, by omega, hquery⟩

theorem above_nothing (q : Query α) (h : ∀ id, ¬ evaluating id) : v.Above evaluating q :=
  fun id hid => absurd hid (h id)

end View

end ViewBinding
