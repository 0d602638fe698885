import ViewBinding.Proofs.Achieving

/-!
# Two runs side by side

Two steps go parallel from two related worlds if the second one ends as the first one does, in a world
that is related to the one where the first ended. What the runs have in common is the relation's affair:
it may pass over bookkeeping, or over what is kept alive.
-/

namespace ViewBinding.Engine

variable {Code Memory : Type} {α β : Type}

/-- However `x` ends from `w`, `y` ends in the same result or error from `v`, in related worlds. -/
def Parallels (R : World Code Memory → World Code Memory → Prop) (w v : World Code Memory)
    (x y : Engine Code Memory α) : Prop :=
  ∀ r w', x w = some (r, w') → ∃ v', y v = some (r, v') ∧ R w' v'

/-- From all related worlds, `y` goes parallel to `x`. -/
def Parallel (R : World Code Memory → World Code Memory → Prop) (x y : Engine Code Memory α) : Prop :=
  ∀ w v, R w v → Parallels R w v x y

section Rules

variable {R : World Code Memory → World Code Memory → Prop} {w v : World Code Memory}
  {x y : Engine Code Memory α} {f g : α → Engine Code Memory β}

theorem Parallels.of_some {r : Except Error α} {w' v' : World Code Memory} (hx : x w = some (r, w'))
    (hy : y v = some (r, v')) (h : R w' v') : Parallels R w v x y := by
  intro s w'' hs
  obtain ⟨rfl, rfl⟩ := Prod.mk.inj (Option.some.inj (hx.symm.trans hs))
  exact ⟨v', hy, h⟩

/-- Two steps that surely end are parallel if they end alike. -/
theorem Parallels.of_achieves {P Q : Except Error α → World Code Memory → Prop} (hx : Achieves True w x P)
    (hy : Achieves True v y Q) (h : ∀ r w' s v', P r w' → Q s v' → s = r ∧ R w' v') : Parallels R w v x y := by
  intro r w' hr
  obtain ⟨⟨s, v'⟩, hs⟩ := hy.halts trivial
  obtain ⟨rfl, hR⟩ := h r w' s v' (hx.ends r w' hr).2 (hy.ends s v' hs).2
  exact ⟨v', hs, hR⟩

theorem Parallels.bind (hx : Parallels R w v x y) (hf : ∀ a, Parallel R (f a) (g a)) :
    Parallels R w v (x >>= f) (y >>= g) := by
  intro r w' h
  change (x w).bind (fun p => ExceptT.bindCont f p.1 p.2) = some (r, w') at h
  obtain ⟨⟨s, w₁⟩, hxw, hfw⟩ := Option.bind_eq_some_iff.mp h
  obtain ⟨v₁, hyv, hR⟩ := hx s w₁ hxw
  change ∃ v', (y v).bind (fun p => ExceptT.bindCont g p.1 p.2) = some (r, v') ∧ R w' v'
  rw [hyv, Option.bind_some]
  cases s with
  | ok a => exact hf a w₁ v₁ hR r w' hfw
  | error e =>
    cases hfw
    exact ⟨v₁, rfl, hR⟩

theorem Parallels.attempt (hx : Parallels R w v x y) : Parallels R w v (attempt x) (attempt y) := by
  intro r w' h
  obtain ⟨⟨s, w₁⟩, hxw, hr⟩ := Option.map_eq_some_iff.mp h
  cases hr
  obtain ⟨v₁, hyv, hR⟩ := hx _ _ hxw
  exact ⟨v₁, congrArg (Option.map _) hyv, hR⟩

/-- What is kept alive meanwhile is given back in both runs. -/
theorem Parallels.keeping (refs : List Ref)
    (hx : Parallels R { w with held := refs ++ w.held } { v with held := refs ++ v.held } x y)
    (hback : ∀ w' v', R w' v' → R { w' with held := w.held } { v' with held := v.held }) :
    Parallels R w v (keeping refs x) (keeping refs y) := by
  intro r w' h
  obtain ⟨⟨s, w₁⟩, hxw, hr⟩ := Option.map_eq_some_iff.mp h
  cases hr
  obtain ⟨v₁, hyv, hR⟩ := hx _ _ hxw
  exact ⟨{ v₁ with held := v.held }, congrArg (Option.map _) hyv, hback _ v₁ hR⟩

theorem Parallels.framed [Inhabited Code] (t : TrackerId) (frame : Frame)
    (hx : Parallels R (w.mapTracker t (·.push frame)) (v.mapTracker t (·.push frame)) x y)
    (hpop : ∀ w' v', R w' v' → R (w'.mapTracker t (·.pop)) (v'.mapTracker t (·.pop))) :
    Parallels R w v (framed (some t) frame x) (framed (some t) frame y) := by
  intro r w' h
  obtain ⟨⟨s, w₁⟩, hxw, hr⟩ := Option.map_eq_some_iff.mp h
  cases hr
  obtain ⟨v₁, hyv, hR⟩ := hx _ _ hxw
  exact ⟨v₁.mapTracker t (·.pop), congrArg (Option.map _) hyv, hpop _ v₁ hR⟩

/-- Both runs look at their worlds and go on with what they see. -/
theorem parallels_inspect_bind {see : World Code Memory → α}
    (h : Parallels R w v (f (see w)) (g (see v))) : Parallels R w v (inspect see >>= f) (inspect see >>= g) :=
  h

end Rules

section Parallel

variable {R : World Code Memory → World Code Memory → Prop} {x y : Engine Code Memory α}
  {f g : α → Engine Code Memory β}

theorem Parallel.ofExcept (r : Except Error α) : Parallel R (ofExcept r) (ofExcept r) :=
  fun _ _ h => .of_some rfl rfl h

theorem Parallel.pure (a : α) : Parallel R (pure a : Engine Code Memory α) (Pure.pure a) :=
  Parallel.ofExcept (.ok a)

theorem Parallel.throw (e : Error) : Parallel R (throw e : Engine Code Memory α) (MonadExcept.throw e) :=
  Parallel.ofExcept (.error e)

theorem Parallel.exhausted : Parallel R (exhausted : Engine Code Memory α) y :=
  fun _ _ _ _ _ h => nomatch h

theorem Parallel.update {u u' : World Code Memory → World Code Memory}
    (h : ∀ w v, R w v → R (u w) (u' v)) : Parallel R (update u) (update u') :=
  fun w v hR => .of_some rfl rfl (h w v hR)

theorem Parallel.bind (hx : Parallel R x y) (hf : ∀ a, Parallel R (f a) (g a)) :
    Parallel R (x >>= f) (y >>= g) :=
  fun w v h => (hx w v h).bind hf

theorem Parallel.attempt (hx : Parallel R x y) : Parallel R (attempt x) (attempt y) :=
  fun w v h => (hx w v h).attempt

end Parallel

end ViewBinding.Engine
