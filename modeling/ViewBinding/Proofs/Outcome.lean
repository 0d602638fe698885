import ViewBinding.Engine.Run

/-!
# How steps end

`Ends w x y Q` says of two steps that whenever the first has an outcome from the world `w`, the second
has the same outcome and `Q` holds of it. With one step for both this is what the step achieves from
`w`; with two it compares an engine with the same engine under closer supervision.
-/

namespace ViewBinding.Engine

variable {Code Memory : Type} {α β : Type}

/-- However `x` ends from `w`, `y` ends in the same way, and `Q` holds then. -/
def Ends (w : World Code Memory) (x y : Engine Code Memory α)
    (Q : Except Error α → World Code Memory → Prop) : Prop :=
  ∀ r w', x w = some (r, w') → y w = some (r, w') ∧ Q r w'

/-- From every world with `I`, however `x` ends, `y` ends in the same way and `I` holds again. -/
def Keeps (I : World Code Memory → Prop) (x y : Engine Code Memory α) : Prop :=
  ∀ w, I w → Ends w x y fun _ => I

/-- From every world with `I`, however `x` ends, `y` ends in the same way and `J` holds then. -/
def Leads (I J : World Code Memory → Prop) (x y : Engine Code Memory α) : Prop :=
  ∀ w, I w → Ends w x y fun _ => J

section Rules

variable {w : World Code Memory} {x y : Engine Code Memory α}
  {Q R : Except Error α → World Code Memory → Prop}

theorem Ends.mono (h : Ends w x y R) (hQ : ∀ r w', R r w' → Q r w') : Ends w x y Q := by
  intro r w' hx
  obtain ⟨hy, hR⟩ := h r w' hx
  exact ⟨hy, hQ r w' hR⟩

/-- What is known of the outcomes of `x` alone may be used. -/
theorem Ends.and (h : Ends w x y R) (hx : Ends w x x Q) : Ends w x y fun r w' => R r w' ∧ Q r w' := by
  intro r w' hr
  obtain ⟨hy, hR⟩ := h r w' hr
  exact ⟨hy, hR, (hx r w' hr).2⟩

/-- What is known of the outcomes of `x` alone may be used from the start, as `x` has one. -/
theorem Ends.given (hx : Ends w x x Q) (h : ∀ r w', Q r w' → Ends w x y R) :
    Ends w x y fun r w' => Q r w' ∧ R r w' := by
  intro r w' hr
  have hQ := (hx r w' hr).2
  obtain ⟨hy, hR⟩ := h r w' hQ r w' hr
  exact ⟨hy, hQ, hR⟩

@[simp] theorem ends_pure (a : α) :
    Ends w (pure a) (pure a) Q ↔ Q (.ok a) w := by
  constructor
  · intro h
    exact (h _ _ rfl).2
  · intro h r w' hx
    cases hx
    exact ⟨rfl, h⟩

@[simp] theorem ends_throw (e : Error) :
    Ends w (throw e : Engine Code Memory α) (throw e) Q ↔ Q (.error e) w := by
  constructor
  · intro h
    exact (h _ _ rfl).2
  · intro h r w' hx
    cases hx
    exact ⟨rfl, h⟩

@[simp] theorem ends_ofExcept (r : Except Error α) :
    Ends w (ofExcept r) (ofExcept r) Q ↔ Q r w := by
  constructor
  · intro h
    exact (h _ _ rfl).2
  · intro h r w' hx
    cases hx
    exact ⟨rfl, h⟩

@[simp] theorem ends_inspect (f : World Code Memory → α) :
    Ends w (inspect f) (inspect f) Q ↔ Q (.ok (f w)) w := by
  constructor
  · intro h
    exact (h _ _ rfl).2
  · intro h r w' hx
    cases hx
    exact ⟨rfl, h⟩

@[simp] theorem ends_update (f : World Code Memory → World Code Memory)
    {Q : Except Error Unit → World Code Memory → Prop} :
    Ends w (update f) (update f) Q ↔ Q (.ok ()) (f w) := by
  constructor
  · intro h
    exact (h _ _ rfl).2
  · intro h r w' hx
    cases hx
    exact ⟨rfl, h⟩

@[simp] theorem ends_create (f : World Code Memory → α × World Code Memory) :
    Ends w (create f) (create f) Q ↔ Q (.ok (f w).1) (f w).2 := by
  constructor
  · intro h
    exact (h _ _ rfl).2
  · intro h r w' hx
    cases hx
    exact ⟨rfl, h⟩

@[simp] theorem ends_exhausted (y : Engine Code Memory α) : Ends w exhausted y Q := by
  intro r w' hx
  cases hx

/-! ### One step after the other -/

variable {f g : α → Engine Code Memory β} {P : Except Error β → World Code Memory → Prop}

theorem Ends.bind (hx : Ends w x y R)
    (hok : ∀ a w', R (.ok a) w' → Ends w' (f a) (g a) P)
    (herror : ∀ e w', R (.error e) w' → P (.error e) w') :
    Ends w (x >>= f) (y >>= g) P := by
  intro r w' h
  change (x w).bind (fun p => ExceptT.bindCont f p.1 p.2) = some (r, w') at h
  change (y w).bind (fun p => ExceptT.bindCont g p.1 p.2) = some (r, w') ∧ _
  cases hxw : x w with
  | none => simp [hxw] at h
  | some outcome =>
    obtain ⟨r₁, w₁⟩ := outcome
    obtain ⟨hy, hR⟩ := hx r₁ w₁ hxw
    rw [hxw, Option.bind_some] at h
    rw [hy, Option.bind_some]
    cases r₁ with
    | ok a => exact hok a w₁ hR r w' h
    | error e =>
      cases h
      exact ⟨rfl, herror e _ hR⟩

@[simp] theorem ends_inspect_bind (h : World Code Memory → α) :
    Ends w (inspect h >>= f) (inspect h >>= g) P ↔ Ends w (f (h w)) (g (h w)) P :=
  Iff.rfl

@[simp] theorem ends_create_bind (h : World Code Memory → α × World Code Memory) :
    Ends w (create h >>= f) (create h >>= g) P ↔ Ends (h w).2 (f (h w).1) (g (h w).1) P :=
  Iff.rfl

@[simp] theorem ends_update_bind (h : World Code Memory → World Code Memory)
    {f g : Unit → Engine Code Memory β} :
    Ends w (update h >>= f) (update h >>= g) P ↔ Ends (h w) (f ()) (g ()) P :=
  Iff.rfl

@[simp] theorem ends_pure_bind (a : α) :
    Ends w (pure a >>= f) (pure a >>= g) P ↔ Ends w (f a) (g a) P :=
  Iff.rfl

@[simp] theorem ends_throw_bind (e : Error) :
    Ends w ((throw e : Engine Code Memory α) >>= f) (throw e >>= g) P ↔ P (.error e) w :=
  ends_throw e

theorem ends_ofExcept_bind (r : Except Error α) :
    Ends w (ofExcept r >>= f) (ofExcept r >>= g) P ↔
      match r with
      | .ok a => Ends w (f a) (g a) P
      | .error e => P (.error e) w := by
  cases r with
  | ok a => exact Iff.rfl
  | error e => exact ends_throw e

theorem Ends.attempt {P : Except Error (Except Error α) → World Code Memory → Prop}
    (hx : Ends w x y R) (hP : ∀ r w', R r w' → P (.ok r) w') :
    Ends w (attempt x) (attempt y) P := by
  intro r w' h
  simp only [Engine.attempt, Option.map_eq_some_iff, Prod.mk.injEq, Prod.exists] at h ⊢
  obtain ⟨r₁, w₁, hxw, rfl, rfl⟩ := h
  obtain ⟨hy, hR⟩ := hx r₁ w₁ hxw
  exact ⟨⟨r₁, w₁, hy, rfl, rfl⟩, hP r₁ w₁ hR⟩

/-- However the first step ends, the second one goes on. -/
theorem Ends.attempt_bind {f g : Except Error α → Engine Code Memory β}
    (hx : Ends w x y R) (hf : ∀ r w', R r w' → Ends w' (f r) (g r) P) :
    Ends w (Engine.attempt x >>= f) (Engine.attempt y >>= g) P := by
  refine (hx.attempt (P := fun r w' => ∃ r', r = .ok r' ∧ R r' w') ?_).bind ?_ ?_
  · intro r w' hR
    exact ⟨r, rfl, hR⟩
  · rintro r w' ⟨r', hr, hR⟩
    cases hr
    exact hf r w' hR
  · rintro e w' ⟨r', hr, -⟩
    cases hr

theorem Ends.keeping (refs : List Ref) (hx : Ends { w with held := refs ++ w.held } x y R)
    (hQ : ∀ r w', R r w' → Q r { w' with held := w.held }) :
    Ends w (keeping refs x) (keeping refs y) Q := by
  intro r w' h
  simp only [Engine.keeping, Option.map_eq_some_iff, Prod.mk.injEq, Prod.exists] at h ⊢
  obtain ⟨r₁, w₁, hxw, rfl, rfl⟩ := h
  obtain ⟨hy, hR⟩ := hx r₁ w₁ hxw
  exact ⟨⟨r₁, w₁, hy, rfl, rfl⟩, hQ r₁ w₁ hR⟩

theorem Ends.framed (tracker : TrackerId) (frame : Frame) [Inhabited Code]
    (hx : Ends (w.mapTracker tracker (·.push frame)) x y R)
    (hQ : ∀ r w', R r w' → Q r (w'.mapTracker tracker (·.pop))) :
    Ends w (framed (some tracker) frame x) (framed (some tracker) frame y) Q := by
  intro r w' h
  simp only [Engine.framed, Option.map_eq_some_iff, Prod.mk.injEq, Prod.exists] at h ⊢
  obtain ⟨r₁, w₁, hxw, rfl, rfl⟩ := h
  obtain ⟨hy, hR⟩ := hx r₁ w₁ hxw
  exact ⟨⟨r₁, w₁, hy, rfl, rfl⟩, hQ r₁ w₁ hR⟩

end Rules

section Keeping

variable {I : World Code Memory → Prop} {x y : Engine Code Memory α}

theorem Keeps.pure (a : α) : Keeps I (pure a : Engine Code Memory α) (Pure.pure a) :=
  fun _ hI => (ends_pure a).mpr hI

theorem Keeps.throw (e : Error) : Keeps I (throw e : Engine Code Memory α) (MonadExcept.throw e) :=
  fun _ hI => (ends_throw e).mpr hI

theorem Keeps.ofExcept (r : Except Error α) : Keeps I (ofExcept r) (ofExcept r) :=
  fun _ hI => (ends_ofExcept r).mpr hI

theorem Keeps.inspect (f : World Code Memory → α) : Keeps I (inspect f) (inspect f) :=
  fun _ hI => (ends_inspect f).mpr hI

theorem Keeps.update {f : World Code Memory → World Code Memory} (h : ∀ w, I w → I (f w)) :
    Keeps I (update f) (update f) :=
  fun w hI => (ends_update f).mpr (h w hI)

theorem Keeps.create {f : World Code Memory → α × World Code Memory} (h : ∀ w, I w → I (f w).2) :
    Keeps I (create f) (create f) :=
  fun w hI => (ends_create f).mpr (h w hI)

theorem Keeps.exhausted (y : Engine Code Memory α) : Keeps I exhausted y :=
  fun _ _ => ends_exhausted y

theorem Keeps.bind {f g : α → Engine Code Memory β} (hx : Keeps I x y)
    (hf : ∀ a, Keeps I (f a) (g a)) : Keeps I (x >>= f) (y >>= g) :=
  fun w hI => (hx w hI).bind (fun a w' hI' => hf a w' hI') fun _ _ hI' => hI'

theorem Keeps.attempt (hx : Keeps I x y) : Keeps I (attempt x) (attempt y) :=
  fun w hI => (hx w hI).attempt fun _ _ hI' => hI'

theorem Keeps.keeping (hheld : ∀ w held, I w → I { w with held }) (refs : List Ref)
    (hx : Keeps I x y) : Keeps I (keeping refs x) (keeping refs y) :=
  fun w hI => (hx _ (hheld w _ hI)).keeping refs fun _ w' hI' => hheld w' _ hI'

theorem Keeps.failures {γ : Type} (hheld : ∀ w held, I w → I { w with held })
    (ref? : γ → Option Ref) {f g : γ → Engine Code Memory Unit} (l : List γ)
    (hf : ∀ b ∈ l, Keeps I (f b) (g b)) : Keeps I (failures ref? f l) (failures ref? g l) := by
  induction l with
  | nil => exact Keeps.pure []
  | cons b rest inductionHypothesis =>
    refine ((hf b List.mem_cons_self).keeping hheld _).attempt.bind fun result => ?_
    refine (inductionHypothesis fun b hb => hf b (List.mem_cons_of_mem _ hb)).bind fun errors => ?_
    cases result with
    | ok _ => exact Keeps.pure errors
    | error error => exact Keeps.pure (error :: errors)

end Keeping

section Leading

variable {I I' J J' : World Code Memory → Prop} {x y : Engine Code Memory α}

theorem Leads.mono (h : Leads I J x y) (hI : ∀ w, I' w → I w) (hJ : ∀ w, J w → J' w) :
    Leads I' J' x y :=
  fun w hw => (h w (hI w hw)).mono fun _ w' => hJ w'

/-- What is kept leads to less from more. -/
theorem Keeps.leads (h : Keeps J x y) (hI : ∀ w, I w → J w) (hJ : ∀ w, J w → J' w) : Leads I J' x y :=
  Leads.mono h hI hJ

/-- The first step keeps a property, and the second one leads on from it. -/
theorem Keeps.bind_leads {f g : α → Engine Code Memory β} (hx : Keeps I x y)
    (hf : ∀ a, Leads I J (f a) (g a)) (hI : ∀ w, I w → J w) : Leads I J (x >>= f) (y >>= g) :=
  fun w hw => (hx w hw).bind (fun a w' hw' => hf a w' hw') fun _ w' => hI w'

theorem Leads.keeping (hI : ∀ w held, I w → I { w with held }) (hJ : ∀ w held, J w → J { w with held })
    (refs : List Ref) (hx : Leads I J x y) : Leads I J (keeping refs x) (keeping refs y) :=
  fun w hw => (hx _ (hI w _ hw)).keeping refs fun _ w' => hJ w' _

end Leading

end ViewBinding.Engine
