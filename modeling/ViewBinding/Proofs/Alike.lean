import ViewBinding.Proofs.View

/-!
# Values that count as the same

Two values agree when they are strictly equal or both NaN. Readers can tell apart no more
than that about numbers, but may look into arrays and ask for names; alike values are those that no
reader tells apart. A query that cannot tell alike answers apart goes on to ask for the same things and
ends alike.
-/

namespace ViewBinding

namespace Decimal.Binary

theorem same_refl {a : Binary} (h : a ≠ .nan) : a.same a = true := by
  cases a <;> simp_all [same]

theorem same_symm {a b : Binary} (h : a.same b = true) : b.same a = true := by
  cases a <;> cases b <;> simp only [same, Bool.or_eq_true, Bool.and_eq_true, beq_iff_eq] at h ⊢
  all_goals grind

theorem same_trans {a b c : Binary} (h : a.same b = true) (h' : b.same c = true) :
    a.same c = true := by
  cases a <;> cases b <;> cases c <;>
    simp only [same, Bool.or_eq_true, Bool.and_eq_true, beq_iff_eq] at h h' ⊢
  all_goals grind

theorem not_nan_of_same {a b : Binary} (h : a.same b = true) : a ≠ .nan ∧ b ≠ .nan := by
  cases a <;> cases b <;> simp_all [same]

end Decimal.Binary

namespace Value

theorem eq_object_of_object? {value : Value} {id : ObjectId} (h : value.object? = some id) : value = .object id := by
  cases value <;> cases h
  rfl

def isNaN : Value → Bool
  | number x => Decimal.Binary.ofFloat x = .nan
  | _ => false

/-- The values are strictly equal, or both NaN. -/
def Agrees (a b : Value) : Prop :=
  a.same b = true ∨ a.isNaN = true ∧ b.isNaN = true

theorem same_refl {a : Value} (h : a.isNaN = false) : a.same a = true := by
  cases a <;> simp_all [same, isNaN, Decimal.Binary.same_refl]

theorem same_symm {a b : Value} (h : a.same b = true) : b.same a = true := by
  cases a <;> cases b <;> simp_all [same, Decimal.Binary.same_symm]

theorem same_trans {a b c : Value} (h : a.same b = true) (h' : b.same c = true) :
    a.same c = true := by
  cases a <;> cases b <;> simp only [same] at h <;> cases c <;> simp only [same] at h' ⊢
  case number.number.number => exact Decimal.Binary.same_trans h h'
  all_goals simp_all

theorem not_nan_of_same {a b : Value} (h : a.same b = true) : a.isNaN = false ∧ b.isNaN = false := by
  cases a <;> cases b <;> simp only [same] at h <;> simp only [isNaN, and_self, decide_eq_false_iff_not]
  case number.number => exact Decimal.Binary.not_nan_of_same h
  all_goals cases h

theorem Agrees.refl (a : Value) : a.Agrees a := by
  cases h : a.isNaN with
  | true => exact Or.inr ⟨h, h⟩
  | false => exact Or.inl (same_refl h)

theorem Agrees.symm {a b : Value} (h : a.Agrees b) : b.Agrees a :=
  h.imp same_symm And.symm

theorem Agrees.trans {a b c : Value} (h : a.Agrees b) (h' : b.Agrees c) : a.Agrees c := by
  rcases h with h | ⟨ha, hb⟩
  · rcases h' with h' | ⟨hb, hc⟩
    · exact Or.inl (same_trans h h')
    · rw [(not_nan_of_same h).2] at hb
      cases hb
  · rcases h' with h' | ⟨-, hc⟩
    · rw [(not_nan_of_same h').1] at hb
      cases hb
    · exact Or.inr ⟨ha, hc⟩

/-- No reader tells the values apart: they are one and the same, or numbers that agree. -/
def Alike : Value → Value → Prop
  | number x, number y => (number x).Agrees (number y)
  | a, b => a = b

theorem Alike.refl (a : Value) : a.Alike a := by
  cases a with
  | number x => exact Agrees.refl _
  | _ => rfl

theorem Alike.agrees {a b : Value} (h : a.Alike b) : a.Agrees b := by
  cases a with
  | number x =>
    cases b with
    | number y => exact h
    | _ => cases h
  | _ =>
    cases b <;> cases h
    all_goals exact Agrees.refl _

theorem Alike.symm {a b : Value} (h : a.Alike b) : b.Alike a := by
  cases a with
  | number x =>
    cases b with
    | number y => exact Agrees.symm h
    | _ => cases h
  | _ =>
    cases b <;> cases h
    all_goals rfl

theorem Alike.trans {a b c : Value} (h : a.Alike b) (h' : b.Alike c) : a.Alike c := by
  cases a with
  | number x =>
    cases b with
    | number y =>
      cases c with
      | number z => exact Agrees.trans h h'
      | _ => cases h'
    | _ => cases h
  | _ =>
    cases b <;> cases h
    all_goals exact h'

end Value

/-- The answers are alike values or the same error. -/
def AlikeAnswers : Except Error Value → Except Error Value → Prop
  | .ok a, .ok b => a.Alike b
  | .error e, .error f => e = f
  | _, _ => False

namespace AlikeAnswers

theorem refl (a : Except Error Value) : AlikeAnswers a a := by
  cases a with
  | ok value => exact Value.Alike.refl value
  | error error => rfl

theorem symm {a b : Except Error Value} (h : AlikeAnswers a b) : AlikeAnswers b a := by
  cases a <;> cases b
  case ok.ok => exact Value.Alike.symm h
  case error.error => exact Eq.symm h
  all_goals cases h

theorem trans {a b c : Except Error Value} (h : AlikeAnswers a b) (h' : AlikeAnswers b c) :
    AlikeAnswers a c := by
  cases a <;> cases b <;> cases c
  case ok.ok.ok => exact Value.Alike.trans h h'
  case error.error.error => exact Eq.trans h h'
  all_goals first | exact False.elim h | exact False.elim h'

/-- What is alike to a value is a value. -/
theorem exists_ok {a : Except Error Value} {value : Value} (h : AlikeAnswers a (.ok value)) :
    ∃ other, a = .ok other ∧ other.Alike value := by
  cases a with
  | ok other => exact ⟨other, rfl, h⟩
  | error error => cases h

end AlikeAnswers

namespace Query

/-- The queries ask for the same things as long as they are answered alike, and end alike. -/
def Alike : Query Value → Query Value → Prop
  | done result, done result' => AlikeAnswers result result'
  | ask what next, ask what' next' =>
    what = what' ∧ ∀ a a', AlikeAnswers a a' → (next a).Alike (next' a')
  | _, _ => False

/-- A path is followed alike from alike values. -/
theorem alike_walk (path : Path) (segments : List String) {owner : Option String}
    {value value' : Value} (h : value.Alike value') :
    (walk path owner value segments).Alike (walk path owner value' segments) := by
  induction segments generalizing owner value value' with
  | nil => exact h
  | cons segment rest inductionHypothesis =>
    cases value with
    | number x =>
      cases value' with
      | number y => exact (rfl : path.faultAt _ (.number x) = path.faultAt _ (.number y))
      | _ => cases h
    | object object =>
      cases value' <;> cases h
      refine ⟨rfl, fun a a' ha => ?_⟩
      cases a <;> cases a'
      case ok.ok => exact inductionHypothesis ha
      case error.error => exact ha
      all_goals cases ha
    | array id items =>
      cases value' <;> cases h
      exact inductionHypothesis (.refl _)
    | _ =>
      cases value' <;> cases h
      all_goals exact AlikeAnswers.refl _

/-- Paths cannot tell alike values apart. -/
theorem alike_path (root : Value) (path : Path) : (Query.path root path).Alike (Query.path root path) :=
  alike_walk path path.segments (.refl root)

end Query

end ViewBinding
