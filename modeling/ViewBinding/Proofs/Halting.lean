import ViewBinding.Proofs.Achieving
import ViewBinding.Proofs.Soundness

/-!
# Reading comes to an end

What a view finds in `n` steps an engine finds whose programs nest more than `n` levels deep. So whatever
has an outcome in the view has one in every engine that is deep enough.
-/

namespace ViewBinding

namespace Engine

variable {Code Memory : Type} {w : World Code Memory} {α β : Type} {x : Engine Code Memory α}

/-- A step comes to an end from a world. -/
def Halts (w : World Code Memory) (x : Engine Code Memory α) : Prop :=
  ∃ outcome, x w = some outcome

theorem halts_pure (a : α) : Halts w (pure a) :=
  ⟨_, rfl⟩

theorem halts_throw (e : Error) : Halts w (throw e : Engine Code Memory α) :=
  ⟨_, rfl⟩

theorem halts_inspect_bind (h : World Code Memory → α) {f : α → Engine Code Memory β} :
    Halts w (inspect h >>= f) ↔ Halts w (f (h w)) :=
  Iff.rfl

theorem halts_update_bind (h : World Code Memory → World Code Memory)
    {f : Unit → Engine Code Memory β} : Halts w (update h >>= f) ↔ Halts (h w) (f ()) :=
  Iff.rfl

/-- A step comes to an end, and it is known how. -/
theorem Halts.achieves (h : Halts w x) {Q : Except Error α → World Code Memory → Prop}
    (hx : Ends w x x Q) : Achieves True w x Q :=
  ⟨hx, fun _ => h⟩

theorem ends_anyhow : Ends w x x fun _ _ => True :=
  fun _ _ hr => ⟨hr, trivial⟩

theorem Halts.bind (h : Halts w x) {Q : Except Error α → World Code Memory → Prop} (hx : Ends w x x Q)
    {f : α → Engine Code Memory β} (hf : ∀ a w', Q (.ok a) w' → Halts w' (f a)) : Halts w (x >>= f) :=
  ((h.achieves hx).bind (P := fun _ _ => True) (fun a w' hQ => (hf a w' hQ).achieves ends_anyhow)
    fun _ _ _ => trivial).halts trivial

theorem Halts.attempt_bind (h : Halts w x) {Q : Except Error α → World Code Memory → Prop}
    (hx : Ends w x x Q) {f : Except Error α → Engine Code Memory β}
    (hf : ∀ r w', Q r w' → Halts w' (f r)) : Halts w (attempt x >>= f) :=
  ((h.achieves hx).attempt_bind (P := fun _ _ => True)
    fun r w' hQ => (hf r w' hQ).achieves ends_anyhow).halts trivial

theorem Halts.keeping (refs : List Ref) (h : Halts { w with held := refs ++ w.held } x) :
    Halts w (keeping refs x) :=
  ((h.achieves ends_anyhow).keeping (Q := fun _ _ => True) refs fun _ _ h => h).halts trivial

theorem Halts.framed [Inhabited Code] (t : TrackerId) (frame : Frame)
    (h : Halts (w.mapTracker t (·.push frame)) x) : Halts w (framed (some t) frame x) :=
  ((h.achieves ends_anyhow).framed (Q := fun _ _ => True) t frame fun _ _ h => h).halts trivial

end Engine

namespace Setting

open Engine

variable {Code Memory : Type} [Inhabited Code]
variable {s : Setting Code Memory} {start w w' : World Code Memory} {c : Reentry Code Memory} {n : Nat}
  {id : ComputedId} {α β : Type}

/-- Programs that only read come to an end if the view finds their outcome in `n` steps. -/
def HaltsRun (s : Setting Code Memory) (start : World Code Memory) (n : Nat) (c : Reentry Code Memory) :
    Prop :=
  ∀ (m : Manner) {α : Type} (program : Program Code Memory α), program.Reads m →
    (∀ owner, m.owner owner → m.reader (some (start.viewModel owner).tracker)) →
    (∀ owner, m.owner owner → s.lives owner) →
    (s.view start).Along (s.Asks start) (program.query start) →
    (program.query start).eval ((s.view start).tells n) ≠ none →
    ∀ w, s.Phase start w → Halts w (c.run program)

/-! ### Computed properties -/

section Computed

variable (hfits : s.Fits start) (hc : c.application = s.application)

include hfits hc

theorem halts_runGetter (hrun : s.HaltsRun start n c) (hid : s.scope id) (hw : s.Phase start w)
    (hquery : ((s.view start).query id).eval ((s.view start).tells n) ≠ none) :
    Halts w (runGetter c id) := by
  have hreads := hfits.reads id hid
  have howner := hfits.owner id hid
  have hclosed := hfits.closed id hid
  have hhome := hfits.home id hid
  rw [runGetter, halts_update_bind, note, halts_update_bind, halts_inspect_bind, hc]
  have hcount : World.Aside s.application.holds w _ := World.aside_count w id
  have hphase := hw.aside (hcount.trans (World.aside_note hfits.quiet _ (.computing id)))
  rw [hphase.getter id]
  cases hgetter : (start.computed id).getter with
  | free code =>
    have hsame : (s.view start).query id = (s.application.getter code none).query start := by
      rw [view_query hid (by simp [hgetter, Getter.owner?]), program, hgetter]
      rfl
    rw [program, hgetter] at hreads
    rw [hsame] at hclosed hquery
    refine hrun _ _ hreads hhome ?_ hclosed hquery _ hphase
    intro owner h
    rcases howner owner h with howner | hlives
    · rw [hgetter] at howner
      cases howner
    · exact hlives
  | ofViewModel owner code =>
    have howner? : (start.computed id).getter.owner? = some owner := by rw [hgetter]; rfl
    simp only [halts_inspect_bind]
    have hlives := hphase.lives id owner hid howner?
    by_cases halive : s.lives owner
    · rw [if_pos (hlives.mpr halive)]
      have hsame : (s.view start).query id
          = (s.application.getter code (some owner)).query start := by
        rw [view_query hid, program, hgetter]
        · rfl
        · intro other hother
          rw [howner?] at hother
          cases hother
          exact halive
      rw [program, hgetter] at hreads
      rw [hsame] at hclosed hquery
      have hheld : ∀ other, Ref.viewModel other ∈ [Ref.viewModel owner] → s.lives other := by
        intro other hother
        simp only [List.mem_singleton, Ref.viewModel.injEq] at hother
        exact hother ▸ halive
      refine Halts.keeping _ (hrun _ _ hreads hhome ?_ hclosed hquery _ (hphase.hold _ hheld))
      intro other hother
      rcases howner other hother with h | hlives
      · rw [howner?] at h
        cases h
        exact halive
      · exact hlives
    · rw [if_neg (fun h => halive (hlives.mp h))]
      exact halts_throw _

omit hc in
theorem halts_evaluate {x : Engine Code Memory Value} (t : TrackerId) (subscriber : Subscriber)
    (hc : c.application = s.application) (hx : ∀ w, s.Phase start w → Halts w x)
    (hw : s.Phase start w) : Halts w (evaluate c t subscriber x) := by
  rw [evaluate, halts_update_bind, note, halts_update_bind, hc]
  have hbegin : World.Aside s.application.holds w
      ((w.mapDependencies subscriber (·.begin)).note s.application (.evaluating subscriber)) :=
    (World.aside_mapDependencies w subscriber _).trans (World.aside_note hfits.quiet _ _)
  have hframed := (hx _ ((hw.aside hbegin).mapTracker t (·.push (some subscriber)))).framed t
  refine hframed.attempt_bind ends_anyhow fun r w' _ => ?_
  cases r with
  | ok value => exact halts_pure value
  | error error => exact halts_throw error

theorem halts_readComputed (hrun : ∀ m < n, s.HaltsRun start m c) (hid : s.scope id)
    (reader : Option TrackerId) (hw : s.Phase start w)
    (htells : (s.view start).tells n (.computed id) ≠ none) : Halts w (readComputed c id reader) := by
  obtain ⟨m, rfl⟩ : ∃ m, n = m + 1 := Nat.exists_eq_succ_of_ne_zero fun hzero => htells (by rw [hzero]; rfl)
  have hgetter : (s.view start).known id = none → ∀ w, s.Phase start w → Halts w (runGetter c id) := by
    intro hunknown w hw
    refine halts_runGetter hfits hc (hrun m (Nat.lt_succ_self m)) hid hw ?_
    rw [View.tells, View.meaning, hunknown] at htells
    exact htells
  refine Halts.keeping _ ?_
  have hheld := hw.hold [.computed id] (by simp)
  generalize { w with held := [Ref.computed id] ++ w.held } = w at hheld ⊢
  rw [halts_inspect_bind]
  cases hmemoize : (w.computed id).memoize with
  | false =>
    exact hgetter (hheld.unseen (by rw [Computed.known?, hmemoize]; rfl)) w hheld
  | true =>
    refine Halts.bind ⟨_, rfl⟩ (aside_depend hfits hc reader (w.computed id).source w) ?_
    rintro - w' ⟨-, haside⟩
    have hw' := hheld.aside haside
    have hmemoize' : (w'.computed id).memoize = true :=
      (Computed.memoize_eq_of_base_eq (Computed.base_eq_of_face_eq (haside.computeds id))).trans hmemoize
    rw [memoizedValue, halts_inspect_bind]
    cases hcache : (w'.computed id).cache with
    | some value => exact halts_pure value
    | none =>
      have hunknown : (w'.computed id).known? = none := by rw [Computed.known?, if_pos hmemoize', hcache]
      exact (halts_evaluate hfits (w'.computed id).tracker (.computed id) hc
        (hgetter (hw'.unseen hunknown)) hw').bind ends_anyhow fun value w _ => halts_pure value

theorem halts_get (hrun : ∀ m < n, s.HaltsRun start m c) {object : ObjectId} {key : String}
    (hasks : s.Asks start (.property object key)) (reader : Option TrackerId) (hw : s.Phase start w)
    (htells : (s.view start).tells n (.property object key) ≠ none) :
    Halts w (Engine.get c object key reader) := by
  rw [Engine.get, halts_inspect_bind]
  refine Halts.keeping _ ?_
  rw [halts_inspect_bind]
  have hslot := hw.slotAt object key
  change Halts _ (readSlot c _ _ reader (w.slotAt object key))
  cases hat : w.slotAt object key with
  | none =>
    rw [readSlot, halts_inspect_bind]
    split <;> exact halts_pure _
  | some slot =>
    rw [hat] at hslot
    cases slot with
    | field value source => cases source <;> exact halts_pure value
    | constant value => exact halts_pure value
    | proxy target other => exact halts_pure _
    | computed id =>
      cases n with
      | zero => exact absurd rfl htells
      | succ n =>
        refine halts_readComputed hfits hc (fun m hm => hrun m (Nat.lt_succ_of_lt hm)) (hasks id hslot) reader
          (hw.hold [.object object, .object (w.resolve object key).1] (by simp)) fun hnone => htells ?_
        rw [View.tells, View.meaning, hslot]
        simp only [Query.ofSlot, Query.eval, hnone, Option.bind_none]

end Computed

/-! ### Everything that only reads -/

/-- A step that reads is sound, and it comes to an end if the view finds the outcome in `n` steps. -/
def Surely (s : Setting Code Memory) (start : World Code Memory) (n : Nat) (m : Manner) {α : Type}
    (q : Query α) (x y : Engine Code Memory α) : Prop :=
  s.Sound start m q x y ∧
    ((∀ owner, m.owner owner → s.lives owner) → (s.view start).Along (s.Asks start) q →
      q.eval ((s.view start).tells n) ≠ none → ∀ w, s.Phase start w → Halts w x)

theorem surely_rules (hfits : s.Fits start) (hc : c.application = s.application)
    (hsound : s.SoundRun start c) (hrun : ∀ m < n, s.HaltsRun start m c) :
    ReadingRules c c (fun _ _ => True) (fun _ _ => True) start (s.Surely start n) := by
  have hrules := sound_rules hfits hc hsound fun _ _ => True
  have hask : ∀ {what : Ask}, (Query.ask what .done : Query Value).eval ((s.view start).tells n) ≠ none →
      (s.view start).tells n what ≠ none := by
    intro what heval hnone
    rw [Query.eval, hnone] at heval
    exact heval rfl
  refine ⟨fun result => ⟨hrules.done result, fun _ _ _ w _ => ⟨_, rfl⟩⟩,
    fun hx hf => ⟨hrules.andThen hx.1 fun r => (hf r).1, ?_⟩,
    fun refs hrefs hx => ⟨hrules.keeping refs hrefs hx.1, ?_⟩,
    fun t hpaused hx => ⟨hrules.paused t hpaused hx.1, ?_⟩,
    fun moment hx => ⟨hrules.moment moment hx.1, ?_⟩,
    fun hcongr hx => ⟨hrules.congr hcongr hx.1, ?_⟩,
    fun object key _ hreader => ⟨hrules.property object key hreader, ?_⟩,
    fun id _ hreader => ⟨hrules.computed id hreader, ?_⟩⟩
  · intro howner halong heval w hw
    obtain ⟨hq, hnext⟩ := View.along_andThen.mp halong
    rw [Query.eval_andThen] at heval
    obtain ⟨_, hsome⟩ := Option.ne_none_iff_exists'.mp heval
    obtain ⟨r, hr, -⟩ := Option.bind_eq_some_iff.mp hsome
    refine (hx.2 howner hq (by simp [hr]) w hw).attempt_bind (hx.1 howner hq w hw) ?_
    intro r' w' hreads
    obtain rfl := View.Gives.unique ⟨n, hr⟩ hreads.gives
    rw [hr] at heval
    exact (hf r).2 howner (hnext r hreads.gives) heval w' hreads.phase
  · intro howner halong heval w hw
    exact Halts.keeping refs (hx.2 howner halong heval _
      (hw.hold refs fun owner howned => howner owner (hrefs owner howned)))
  · intro howner halong heval w hw
    exact Halts.framed t none (hx.2 howner halong heval _ (hw.mapTracker t _))
  · intro howner halong heval w hw
    rw [under_of_holds fun _ => trivial]
    exact hx.2 howner halong heval w hw
  · intro howner halong heval w hw
    obtain ⟨outcome, houtcome⟩ := hx.2 howner halong heval w hw
    exact ⟨outcome, (hcongr w hw.data).1.trans houtcome⟩
  · intro _ halong heval w hw
    exact halts_get hfits hc hrun halong.1 _ hw (hask heval)
  · intro _ halong heval w hw
    exact halts_readComputed hfits hc hrun (halong.1 id rfl) _ hw (hask heval)

theorem soundRun_reentry (hfits : s.Fits start) (depth : Nat) :
    s.SoundRun start (reentry s.application depth) := by
  have hsound := soundRun_reentryUnder hfits (fun _ _ _ => True) depth []
  rw [reentryUnder_of_holds fun _ _ _ => trivial] at hsound
  exact hsound

/-- Programs that only read come to an end in every engine that is deep enough. -/
theorem haltsRun_reentry (hfits : s.Fits start) (hlt : n < depth) :
    s.HaltsRun start n (reentry s.application depth) := by
  induction depth generalizing n with
  | zero => exact absurd hlt (Nat.not_lt_zero n)
  | succ depth inductionHypothesis =>
    intro m α program hreads hhome howner halong heval w hw
    have hc : (reentry s.application depth).application = s.application := by
      cases depth <;> rfl
    have hrules := surely_rules hfits hc (soundRun_reentry hfits depth) fun m hm =>
      inductionHypothesis (Nat.lt_of_lt_of_le hm (Nat.le_of_lt_succ hlt))
    have hhalts := (hrules.follow hhome hreads).2 howner halong heval w hw
    have hfollow := followUnder_of_holds (P := fun _ _ _ => True) (fun _ _ _ => trivial) []
      (reentry s.application depth) program
    rw [hfollow] at hhalts
    exact hhalts

end Setting

end ViewBinding
