import ViewBinding.Proofs.Building
import ViewBinding.Proofs.Perusing
import ViewBinding.Proofs.Unsupervised

/-!
# What is remembered while getters read

A program that only reads does not change the memory of the embedder by itself. The memory may be
another one afterwards, but only because the embedder took note of what happened.
-/

namespace ViewBinding

variable {Code Memory : Type}

namespace World

/-- The memory is the same, but for what was noted since. -/
def Recalls (application : Application Code Memory) (w w' : World Code Memory) : Prop :=
  ∀ Q : Memory → Prop, (∀ o v, Q v.memory → Q (application.notes o v)) → Q w.memory → Q w'.memory

variable {application : Application Code Memory} {w w₁ w₂ : World Code Memory}

theorem recalls_of_eq (h : w₁.memory = w.memory) : w.Recalls application w₁ :=
  fun _ _ hw => h ▸ hw

theorem recalls_note (w : World Code Memory) (occurrence : Occurrence) :
    w.Recalls application (w.note application occurrence) :=
  fun _ hnotes hw => hnotes occurrence w hw

theorem Recalls.trans (h : w.Recalls application w₁) (h' : w₁.Recalls application w₂) :
    w.Recalls application w₂ :=
  fun Q hnotes hw => h' Q hnotes (h Q hnotes hw)

/-- What notes leave alone is the same. -/
theorem Recalls.same {α : Type} {view : Memory → α} (h : w.Recalls application w₁)
    (hview : ∀ o v, view (application.notes o v) = view v.memory) : view w₁.memory = view w.memory :=
  h (fun memory => view memory = view w.memory) (fun o v hv => (hview o v).trans hv) rfl

end World

variable [Inhabited Code]

namespace Engine

variable {application : Application Code Memory} {I : World Code Memory → Prop}

theorem peruses_recalls (application : Application Code Memory) (start : World Code Memory) :
    Peruses application (start.Recalls application) where
  note w occurrence h := h.trans (World.recalls_note w occurrence)
  held _ h := h.trans (World.recalls_of_eq rfl)
  mapTracker _ _ h := h.trans (World.recalls_of_eq rfl)
  mapSource _ _ h := h.trans (World.recalls_of_eq rfl)
  mapDependencies subscriber _ h := h.trans (World.recalls_of_eq (by cases subscriber <;> rfl))
  settle subscriber h := by
    refine h.trans (World.recalls_of_eq ?_)
    rw [World.settle_eq]
    cases subscriber <;> rfl
  mapComputed _ _ _ h := h.trans (World.recalls_of_eq rfl)
  await _ _ h := h.trans (World.recalls_of_eq (World.raises_await _ _ _).memory)

section Reading

variable {ι : Type} {J : ι → World Code Memory → Prop} {i : ι} {c : Reentry Code Memory} {α : Type}
  (hJ : Recurs application J) (h : Recurring application J c c)

include hJ h

theorem Recurring.fulfil {request : Request Code Memory} (hreads : request.ReadsOnly) :
    Keeps (J i) (fulfil c request) (fulfil c request) := by
  have hperusal : Perusal (J i) c c := h.perusal hJ
  cases hreads with
  | get => exact h.get hJ _ _ _
  | readPath => exact hperusal.keeping _ (hperusal.readPath _ _ _)
  | renderTemplate => exact hperusal.keeping _ (hperusal.renderTemplate _ _ _)
  | readComputed => exact h.readComputed hJ _ _
  | read => exact hperusal.keeping _ (Perusal.withPath _ fun path => hperusal.readOn _ path)
  | render => exact hperusal.keeping _ (hperusal.renderOn _ _)

/-- Following a program that only reads. -/
theorem Recurring.follow {program : Program Code Memory α} (hreads : program.ReadsOnly) :
    Keeps (J i) (follow c program) (follow c program) := by
  induction hreads with
  | done result => exact Keeps.pure result
  | fail error => exact Keeps.throw error
  | look _ _ _ inductionHypothesis => exact fun w hw => inductionHypothesis w w hw
  | ask hrequest _ inductionHypothesis => exact (h.fulfil hJ hrequest).attempt.bind inductionHypothesis

omit h in
/-- However deep the engine is entered again, getters that only read lead back to where reading leads
back. -/
theorem recurring_reentry (hgetters : application.GettersRead) (depth : Nat) :
    Recurring application J (reentry application depth) (reentry application depth) := by
  induction depth with
  | zero => exact ⟨rfl, rfl, fun _ _ _ => Keeps.exhausted _⟩
  | succ depth inductionHypothesis =>
    exact ⟨rfl, rfl, fun _ code owner? => inductionHypothesis.follow hJ (hgetters code owner?)⟩

end Reading

variable (hI : Peruses application I)

include hI

theorem Rereads.fulfil {c : Reentry Code Memory} (h : Rereads application I c c)
    {request : Request Code Memory} (hreads : request.ReadsOnly) :
    Keeps I (fulfil c request) (fulfil c request) :=
  h.recurring.fulfil hI.recurs (i := ()) hreads

/-- However deep the engine is entered again, getters that only read keep what reading keeps. -/
theorem rereads_reentry (hgetters : application.GettersRead) (depth : Nat) :
    Rereads application I (reentry application depth) (reentry application depth) where
  left := (recurring_reentry hI.recurs hgetters depth).left
  right := (recurring_reentry hI.recurs hgetters depth).right
  getter := (recurring_reentry hI.recurs hgetters depth).getter ()

end Engine

end ViewBinding
