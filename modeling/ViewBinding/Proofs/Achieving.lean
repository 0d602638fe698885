import ViewBinding.Proofs.Outcome

/-!
# What steps achieve

`Ends` says what holds if a step ends. `Achieves` says besides that it does end, as far as that is
sure: what the assurance is about, that getters come to an end say, is chosen by the reader of the rules,
and nothing is sure of a step that may run out of depth.
-/

namespace ViewBinding.Engine

variable {Code Memory : Type} {α β : Type}

/-- However `x` ends from `w`, `Q` holds then, and `x` does end if that is `sure`. -/
structure Achieves (sure : Prop) (w : World Code Memory) (x : Engine Code Memory α)
    (Q : Except Error α → World Code Memory → Prop) : Prop where
  ends : Ends w x x Q
  halts : sure → ∃ outcome, x w = some outcome

section Rules

variable {sure : Prop} {w : World Code Memory} {x : Engine Code Memory α}
  {Q R : Except Error α → World Code Memory → Prop}

theorem Ends.achieves (h : Ends w x x Q) (hsure : ¬ sure) : Achieves sure w x Q :=
  ⟨h, fun hs => absurd hs hsure⟩

theorem Achieves.mono (h : Achieves sure w x R) (hQ : ∀ r w', R r w' → Q r w') :
    Achieves sure w x Q :=
  ⟨h.ends.mono hQ, h.halts⟩

theorem Achieves.weaken {less : Prop} (h : Achieves sure w x Q) (hsure : less → sure) :
    Achieves less w x Q :=
  ⟨h.ends, fun hs => h.halts (hsure hs)⟩

theorem Achieves.congr {y : Engine Code Memory α} (h : Achieves sure w x Q) (hxy : y w = x w) :
    Achieves sure w y Q where
  ends r w' hr := ⟨hr, (h.ends r w' (hxy ▸ hr)).2⟩
  halts hs := hxy ▸ h.halts hs

/-- What holds of an outcome may be used together with the run that had it. -/
theorem Achieves.traced (h : Achieves sure w x R)
    (hQ : ∀ r w', x w = some (r, w') → R r w' → Q r w') : Achieves sure w x Q :=
  ⟨fun r w' hr => ⟨hr, hQ r w' hr (h.ends r w' hr).2⟩, h.halts⟩

/-- What is known of the outcomes besides may be used. -/
theorem Achieves.and (h : Achieves sure w x R) (hx : Ends w x x Q) :
    Achieves sure w x fun r w' => R r w' ∧ Q r w' :=
  ⟨h.ends.and hx, h.halts⟩

theorem achieves_pure (a : α) : Achieves sure w (pure a) Q ↔ Q (.ok a) w :=
  ⟨fun h => (ends_pure a).mp h.ends, fun h => ⟨(ends_pure a).mpr h, fun _ => ⟨_, rfl⟩⟩⟩

theorem achieves_throw (e : Error) :
    Achieves sure w (throw e : Engine Code Memory α) Q ↔ Q (.error e) w :=
  ⟨fun h => (ends_throw e).mp h.ends, fun h => ⟨(ends_throw e).mpr h, fun _ => ⟨_, rfl⟩⟩⟩

theorem achieves_ofExcept (r : Except Error α) : Achieves sure w (ofExcept r) Q ↔ Q r w :=
  ⟨fun h => (ends_ofExcept r).mp h.ends, fun h => ⟨(ends_ofExcept r).mpr h, fun _ => ⟨_, rfl⟩⟩⟩

theorem achieves_update (f : World Code Memory → World Code Memory)
    {Q : Except Error Unit → World Code Memory → Prop} :
    Achieves sure w (update f) Q ↔ Q (.ok ()) (f w) :=
  ⟨fun h => (ends_update f).mp h.ends, fun h => ⟨(ends_update f).mpr h, fun _ => ⟨_, rfl⟩⟩⟩

/-! ### One step after the other -/

variable {f : α → Engine Code Memory β} {P : Except Error β → World Code Memory → Prop}

theorem Achieves.bind (hx : Achieves sure w x R)
    (hok : ∀ a w', R (.ok a) w' → Achieves sure w' (f a) P)
    (herror : ∀ e w', R (.error e) w' → P (.error e) w') : Achieves sure w (x >>= f) P where
  ends := hx.ends.bind (fun a w' h => (hok a w' h).ends) herror
  halts hs := by
    obtain ⟨⟨r, w'⟩, hr⟩ := hx.halts hs
    change ∃ outcome, (x w).bind (fun p => ExceptT.bindCont f p.1 p.2) = some outcome
    rw [hr, Option.bind_some]
    cases r with
    | ok a => exact (hok a w' (hx.ends _ _ hr).2).halts hs
    | error e => exact ⟨_, rfl⟩

theorem achieves_inspect_bind (h : World Code Memory → α) :
    Achieves sure w (inspect h >>= f) P ↔ Achieves sure w (f (h w)) P :=
  ⟨fun hx => ⟨hx.ends, hx.halts⟩, fun hx => ⟨hx.ends, hx.halts⟩⟩

theorem achieves_create_bind (h : World Code Memory → α × World Code Memory) :
    Achieves sure w (create h >>= f) P ↔ Achieves sure (h w).2 (f (h w).1) P :=
  ⟨fun hx => ⟨hx.ends, hx.halts⟩, fun hx => ⟨hx.ends, hx.halts⟩⟩

theorem achieves_update_bind (h : World Code Memory → World Code Memory)
    {f : Unit → Engine Code Memory β} :
    Achieves sure w (update h >>= f) P ↔ Achieves sure (h w) (f ()) P :=
  ⟨fun hx => ⟨hx.ends, hx.halts⟩, fun hx => ⟨hx.ends, hx.halts⟩⟩

theorem achieves_ofExcept_bind (r : Except Error α) (hok : ∀ a, r = .ok a → Achieves sure w (f a) P)
    (herror : ∀ e, r = .error e → P (.error e) w) : Achieves sure w (ofExcept r >>= f) P := by
  cases r with
  | ok a => exact ⟨(hok a rfl).ends, (hok a rfl).halts⟩
  | error e => exact (achieves_throw e).mpr (herror e rfl)

/-- However the first step ends, the second one goes on. -/
theorem Achieves.attempt_bind {f : Except Error α → Engine Code Memory β}
    (hx : Achieves sure w x R) (hf : ∀ r w', R r w' → Achieves sure w' (f r) P) :
    Achieves sure w (attempt x >>= f) P where
  ends := hx.ends.attempt_bind fun r w' h => (hf r w' h).ends
  halts hs := by
    obtain ⟨⟨r, w'⟩, hr⟩ := hx.halts hs
    change ∃ outcome, ((x w).map fun p => (Except.ok p.1, p.2)).bind
      (fun p => ExceptT.bindCont f p.1 p.2) = some outcome
    rw [hr, Option.map_some, Option.bind_some]
    exact (hf r w' (hx.ends _ _ hr).2).halts hs

theorem Achieves.keeping (refs : List Ref)
    (hx : Achieves sure { w with held := refs ++ w.held } x R)
    (hQ : ∀ r w', R r w' → Q r { w' with held := w.held }) :
    Achieves sure w (keeping refs x) Q where
  ends := hx.ends.keeping refs hQ
  halts hs := by
    obtain ⟨outcome, hr⟩ := hx.halts hs
    exact ⟨_, congrArg (Option.map _) hr⟩

theorem Achieves.framed (tracker : TrackerId) (frame : Frame) [Inhabited Code]
    (hx : Achieves sure (w.mapTracker tracker (·.push frame)) x R)
    (hQ : ∀ r w', R r w' → Q r (w'.mapTracker tracker (·.pop))) :
    Achieves sure w (framed (some tracker) frame x) Q where
  ends := hx.ends.framed tracker frame hQ
  halts hs := by
    obtain ⟨outcome, hr⟩ := hx.halts hs
    exact ⟨_, congrArg (Option.map _) hr⟩

end Rules

end ViewBinding.Engine
