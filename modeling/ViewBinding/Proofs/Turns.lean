import ViewBinding.Proofs.Outcome

/-!
# Whose turn it is

Telling subscribers and running listeners goes through a list that was made up before the first turn. So
what happens at one turn may concern members of the list whose turn is still to come.
-/

namespace ViewBinding

variable {Code Memory β : Type}

namespace Engine

/-- It is the turn of a member in the world `v`, when a step is run for the members of a list in order and
the world is `w` to begin with. -/
inductive Turn (ref? : β → Option Ref) (step : β → Engine Code Memory Unit) :
    List β → World Code Memory → β → World Code Memory → Prop
  | now {b : β} {rest : List β} {w : World Code Memory} : Turn ref? step (b :: rest) w b w
  | later {b member : β} {rest : List β} {w w₁ v : World Code Memory}
      {result : Except Error (Except Error Unit)}
      (hstep : attempt (keeping ((b :: rest).filterMap ref?) (step b)) w = some (result, w₁))
      (hrest : Turn ref? step rest w₁ member v) : Turn ref? step (b :: rest) w member v

variable {ref? : β → Option Ref} {step : β → Engine Code Memory Unit} {I : World Code Memory → Prop}
  {l : List β} {member : β} {w v : World Code Memory}

/-- What every turn keeps holds when a turn comes. -/
theorem Turn.of_keeps (hheld : ∀ w held, I w → I { w with held }) (hstep : ∀ b, Keeps I (step b) (step b))
    (h : Turn ref? step l w member v) (hw : I w) : I v := by
  induction h with
  | now => exact hw
  | later hrun _ inductionHypothesis =>
    exact inductionHypothesis (((hstep _).keeping hheld _).attempt _ hw _ _ hrun).2

theorem Turn.mem (h : Turn ref? step l w member v) : member ∈ l := by
  induction h with
  | now => exact List.mem_cons_self
  | later _ _ inductionHypothesis => exact List.mem_cons_of_mem _ inductionHypothesis

/-! ### Every member has its turn -/

/-- A member that is listed once has one turn. -/
theorem Turn.unique {p : β → Bool} {v' : World Code Memory} (h : Turn ref? step l w member v)
    (h' : Turn ref? step l w member v') (hp : p member = true) (hnodup : (l.filter p).Nodup) : v' = v := by
  induction h with
  | now =>
    cases h' with
    | now => rfl
    | later _ hrest =>
      rw [List.filter_cons_of_pos hp] at hnodup
      exact absurd (List.mem_filter.mpr ⟨hrest.mem, hp⟩) (List.nodup_cons.mp hnodup).1
  | later hstep hrest inductionHypothesis =>
    cases h' with
    | now =>
      rw [List.filter_cons_of_pos hp] at hnodup
      exact absurd (List.mem_filter.mpr ⟨hrest.mem, hp⟩) (List.nodup_cons.mp hnodup).1
    | later hstep' hrest' =>
      rw [hstep] at hstep'
      cases hstep'
      exact inductionHypothesis hrest' hp (hnodup.sublist ((List.sublist_cons_self _ _).filter p))

theorem run_of_bind {α γ : Type} {x : Engine Code Memory α} {f : α → Engine Code Memory γ} {w : World Code Memory}
    {out : Except Error γ × World Code Memory} (h : (x >>= f) w = some out) :
    ∃ r w', x w = some (r, w') ∧ ∀ a, r = .ok a → f a w' = some out := by
  change (x w).bind (fun out => ExceptT.bindCont f out.1 out.2) = some out at h
  obtain ⟨⟨r, w'⟩, hrun, hrest⟩ := Option.bind_eq_some_iff.mp h
  refine ⟨r, w', hrun, ?_⟩
  rintro a rfl
  exact hrest

theorem run_of_keeping {α : Type} {refs : List Ref} {x : Engine Code Memory α} {r : Except Error α}
    {w w' : World Code Memory} (h : keeping refs x w = some (r, w')) :
    ∃ v, x { w with held := refs ++ w.held } = some (r, v) ∧ w' = { v with held := w.held } := by
  obtain ⟨⟨result, v⟩, hrun, heq⟩ := Option.map_eq_some_iff.mp h
  cases heq
  exact ⟨v, hrun, rfl⟩

theorem keeping_of_run {α : Type} {refs : List Ref} {x : Engine Code Memory α} {r : Except Error α}
    {w v : World Code Memory} (h : x { w with held := refs ++ w.held } = some (r, v)) :
    keeping refs x w = some (r, { v with held := w.held }) := by
  rw [keeping, h]
  rfl

/-- If the steps come to an end, then it has been the turn of every member. -/
theorem exists_turn {out : Except Error (List Error) × World Code Memory} (h : failures ref? step l w = some out)
    (hmem : member ∈ l) : ∃ v, Turn ref? step l w member v := by
  induction l generalizing w out with
  | nil => cases hmem
  | cons b rest inductionHypothesis =>
    rcases List.mem_cons.mp hmem with rfl | hmem
    · exact ⟨w, .now⟩
    · obtain ⟨r, w', hstep, hrest⟩ := run_of_bind h
      obtain ⟨⟨result, _⟩, -, hattempt⟩ := Option.map_eq_some_iff.mp hstep
      cases hattempt
      obtain ⟨r, w₂, hrun, -⟩ := run_of_bind (hrest result rfl)
      obtain ⟨v, hturn⟩ := inductionHypothesis hrun hmem
      exact ⟨v, .later hstep hturn⟩

/-! ### Members that do nothing -/

theorem bind_of_run {α γ : Type} {x : Engine Code Memory α} {f : α → Engine Code Memory γ} {a : α}
    {w w' : World Code Memory} (h : x w = some (.ok a, w')) : (x >>= f) w = f a w' := by
  change (x w).bind (fun out => ExceptT.bindCont f out.1 out.2) = _
  rw [h]
  rfl

theorem bind_of_error {α γ : Type} {x : Engine Code Memory α} {f : α → Engine Code Memory γ} {error : Error}
    {w w' : World Code Memory} (h : x w = some (.error error, w')) :
    (x >>= f) w = some (.error error, w') := by
  change (x w).bind (fun out => ExceptT.bindCont f out.1 out.2) = _
  rw [h]
  rfl

theorem bind_congr_run {α γ : Type} {x : Engine Code Memory α} {f g : α → Engine Code Memory γ}
    {w : World Code Memory} (h : ∀ a w', x w = some (.ok a, w') → f a w' = g a w') : (x >>= f) w = (x >>= g) w := by
  change (x w).bind (fun out => ExceptT.bindCont f out.1 out.2)
    = (x w).bind fun out => ExceptT.bindCont g out.1 out.2
  refine Option.bind_congr fun out hrun => ?_
  obtain ⟨r, w'⟩ := out
  cases r with
  | ok a => exact h a w' hrun
  | error e => rfl

/-- Members of a list that do nothing when it is their turn may be left out. -/
theorem failures_filter {p : β → Bool} (hheld : ∀ w held, I w → I { w with held })
    (hstep : ∀ b, Keeps I (step b) (step b))
    (hidle : ∀ b ∈ l, p b = false → ∀ w, I w → step b w = some (.ok (), w)) (w : World Code Memory) (hw : I w) :
    failures (fun _ => none) step (l.filter p) w = failures (fun _ => none) step l w := by
  induction l generalizing w with
  | nil => rfl
  | cons b rest inductionHypothesis =>
    have hrest := inductionHypothesis fun b' hb' => hidle b' (List.mem_cons_of_mem _ hb')
    have hnone : ∀ l : List β, l.filterMap (fun _ => (none : Option Ref)) = [] := fun l =>
      List.filterMap_eq_nil_iff.mpr fun _ _ => rfl
    simp only [failures, List.filter_cons]
    cases hb : p b with
    | false =>
      have hrun : attempt (keeping [] (step b)) w = some (.ok (.ok ()), w) := by
        rw [attempt, keeping, hidle b List.mem_cons_self hb _ (hheld w _ hw)]
        rfl
      rw [hnone, bind_of_run hrun, if_neg Bool.false_ne_true, hrest w hw]
      exact (congrFun (bind_pure (failures (fun _ => none) step rest)) w).symm
    | true =>
      simp only [if_true, failures, hnone]
      refine bind_congr_run fun result w' hrun => ?_
      have hkept : I w' := (((hstep b).keeping hheld []).attempt w hw _ w' hrun).2
      change (failures (fun _ => none) step (rest.filter p) w').bind _
        = (failures (fun _ => none) step rest w').bind _
      rw [hrest w' hkept]

end Engine

variable [Inhabited Code]

/-! ### Listeners of bindings -/

namespace Engine

theorem handle_invoke (c : Reentry Code Memory) (event : Event) (owner : ViewModelId) (b : BindingId) (method : String)
    (w : World Code Memory) : handle c event (.invoke owner b method) w
      = if (w.binding b).active = true then onLiving c owner (callMethod c owner method event) w
        else some (.ok (), w) := by
  change (if (w.binding b).active = true then _ else _ : Engine Code Memory Unit) w = _
  split <;> rfl

theorem handle_writeBack (c : Reentry Code Memory) (event : Event) (owner : ViewModelId) (b : BindingId) (path : Path)
    (w : World Code Memory) : handle c event (.writeBack owner b path) w
      = if (w.binding b).active = true then onLiving c owner (writeBack c owner path event) w
        else some (.ok (), w) := by
  change (if (w.binding b).active = true then _ else _ : Engine Code Memory Unit) w = _
  split <;> rfl

end Engine

namespace World

open Engine

/-- It is the turn of a subscriber in the world `v` when a source tells its subscribers in the world `w`. -/
def TellsAt (w : World Code Memory) (application : Application Code Memory) (depth : Nat)
    (source : SourceId) (subscriber : Subscriber) (v : World Code Memory) : Prop :=
  let live := w.liveSubscribers (application.holds w.memory) source
  Turn (fun s => some s.ref) (updateSubscriber (reentry application depth)) live
    ((w.mapSource source fun _ => ⟨live⟩).note application (.telling source live)) subscriber v

/-- It is the turn of a listener in the world `v` when an event is dispatched on a node in the world `w`. -/
def HandsAt (w : World Code Memory) (application : Application Code Memory) (depth : Nat)
    (event : Event) (listener : Listener Code) (v : World Code Memory) : Prop :=
  Turn (fun _ => none) (handle (reentry application depth) event)
    ((w.node event.target).listeners event.name) { w with held := .node event.target :: w.held } listener v

end World

end ViewBinding
