import ViewBinding.Proofs.Balance
import ViewBinding.Proofs.Service

/-!
# Watchers that are torn down for good

A watcher asks whether it was torn down before it evaluates, and not again until it has reacted. So one that is torn
down while it does not evaluate never evaluates again: whatever is done from then on, no source comes to list it, it
depends on nothing, and it does not react. Only its own evaluation, if that tears it down, goes on to its end.
-/

namespace ViewBinding

open Engine

variable {Code Memory : Type}

/-- A request that neither registers a watcher by hand nor puts it on a stack, and does not spoil a property of
memories by changing the memory itself. -/
def Request.Forgoes (Q : Memory → Prop) (id : WatcherId) : Request Code Memory → Prop
  | .register _ y => y ≠ .watcher id
  | .enter _ frame => frame ≠ some (.watcher id)
  | .remember f => ∀ memory, Q memory → Q (f memory)
  | _ => True

/-- What is left of a watcher that is torn down. -/
def Watcher.tornDown (x : Watcher Code) : Watcher Code :=
  { x with disposed := true, dependencies := {} }

namespace World

/-- A watcher was torn down with this row. No source lists it, and it is on no stack. -/
structure Withdrawn (id : WatcherId) (x : Watcher Code) (w : World Code Memory) : Prop where
  row : w.watcher id = x
  disposed : x.disposed = true
  unlisted : ∀ s, .watcher id ∉ (w.source s).subscribers
  idle : ¬ w.Evaluates (.watcher id)

/-- A step that leaves a withdrawn watcher as it is, and what `Q` says of the memory has not become wrong by it. -/
structure Withholds (Q : Memory → Prop) (id : WatcherId) (x : Watcher Code) (w w' : World Code Memory) : Prop where
  withdrawn : w.Withdrawn id x → w'.Withdrawn id x
  memory : w.Withdrawn id x → Q w.memory → Q w'.memory

variable {Q : Memory → Prop} {id : WatcherId} {x : Watcher Code} {y : Subscriber} {w w₁ w₂ : World Code Memory}

theorem Withholds.trans (h : w.Withholds Q id x w₁) (h' : w₁.Withholds Q id x w₂) : w.Withholds Q id x w₂ :=
  ⟨fun hw => h'.withdrawn (h.withdrawn hw), fun hw hQ => h'.memory (h.withdrawn hw) (h.memory hw hQ)⟩

theorem Withdrawn.isOver (h : w.Withdrawn id x) : w.IsOver (.watcher id) :=
  ⟨id, rfl, h.row ▸ h.disposed⟩

/-- Nothing is done to the watcher. -/
theorem withholds_of (hrow : w₁.watcher id = w.watcher id)
    (hlisted : ∀ s, .watcher id ∈ (w₁.source s).subscribers → .watcher id ∈ (w.source s).subscribers)
    (hevaluates : w₁.Evaluates (.watcher id) → w.Evaluates (.watcher id)) (hmemory : w₁.memory = w.memory) :
    w.Withholds Q id x w₁ where
  withdrawn hw :=
    ⟨hrow.trans hw.row, hw.disposed, fun s hs => hw.unlisted s (hlisted s hs), fun h => hw.idle (hevaluates h)⟩
  memory _ hQ := hmemory ▸ hQ

theorem withholds_mapSource (w : World Code Memory) (s : SourceId) {f : Source → Source}
    (hf : .watcher id ∈ (f (w.source s)).subscribers → .watcher id ∈ (w.source s).subscribers) :
    w.Withholds Q id x (w.mapSource s f) := by
  refine withholds_of rfl (fun j hj => ?_) (fun h => h) rfl
  rw [source_mapSource] at hj
  split at hj
  · next heq => exact heq ▸ hf hj
  · exact hj

theorem withholds_register (w : World Code Memory) (s : SourceId) (hy : y ≠ .watcher id) :
    w.Withholds Q id x (w.mapSource s (·.register y)) := by
  refine withholds_mapSource w s fun h => ?_
  exact (Source.mem_register.mp h).resolve_right hy.symm

theorem withholds_push (w : World Code Memory) (t : TrackerId) {frame : Frame} (hframe : frame ≠ some (.watcher id)) :
    w.Withholds Q id x (w.mapTracker t (·.push frame)) :=
  withholds_of rfl (fun _ h => h) (fun h => ((evaluates_push w t frame).mp h).resolve_left hframe) rfl

theorem withholds_pop (w : World Code Memory) (t : TrackerId) : w.Withholds Q id x (w.mapTracker t (·.pop)) :=
  withholds_of rfl (fun _ h => h) (evaluates_of_pop w t) rfl

theorem withholds_lowered (w : World Code Memory) (n : TrackerId → Nat) : w.Withholds Q id x (w.lowered n) := by
  refine withholds_of rfl (fun _ h => h) (fun h => ?_) rfl
  obtain ⟨t, ht⟩ := h
  rw [tracker_lowered] at ht
  exact ⟨t, List.mem_of_mem_drop ht⟩

theorem withholds_mapWatcher (w : World Code Memory) {j : WatcherId} (hj : id ≠ j) (f : Watcher Code → Watcher Code) :
    w.Withholds Q id x (w.mapWatcher j f) := by
  refine withholds_of ?_ (fun _ h => h) (fun h => h) rfl
  rw [watcher_mapWatcher, if_neg hj]

/-- A watcher that was torn down was made, so it is not the next one to be made. -/
theorem Withdrawn.addWatcher (h : w.Withdrawn id x) (y : Watcher Code) : w.Withholds Q id x (w.addWatcher y).2 := by
  have hmade : id ≠ w.watchers.fresh := by
    rintro rfl
    have hdisposed : (w.watcher w.watchers.fresh).disposed = true := h.row ▸ h.disposed
    rw [watcher_fresh] at hdisposed
    cases hdisposed
  refine withholds_of ?_ (fun _ h => h) (fun h => h) rfl
  rw [watcher_addWatcher, if_neg hmade]

variable [Inhabited Code]

theorem Builds.withholds (h : w.Builds w₁) : w.Withholds Q id x w₁ := by
  refine withholds_of (by rw [watcher, h.watchers, watcher]) (fun s hs => ?_) (evaluates_congr h.trackers).mp h.memory
  rwa [h.sources] at hs

theorem withholds_mapDependencies (w : World Code Memory) (hy : y ≠ .watcher id) (f : Dependencies → Dependencies) :
    w.Withholds Q id x (w.mapDependencies y f) := by
  refine withholds_of ?_ (fun s hs => ?_) (evaluates_congr (tracker_mapDependencies w y f)).mp
    (memory_mapDependencies w y f)
  · cases y with
    | watcher j => rw [mapDependencies, watcher_mapWatcher, if_neg fun heq => hy (congrArg Subscriber.watcher heq.symm)]
    | computed j => rfl
    | probe j => rfl
  · rwa [source_mapDependencies] at hs

theorem withholds_settle (w : World Code Memory) (hy : y ≠ .watcher id) : w.Withholds Q id x (w.settle y) := by
  refine (withholds_mapDependencies w hy (·.settle)).trans ?_
  rw [settle_eq]
  refine withholds_of rfl (fun s hs => ?_) (fun h => h) rfl
  exact ((mem_source_unregisterAll _ _ _ _ _).mp hs).1

theorem withholds_teardownWatcher (w : World Code Memory) (j : WatcherId) :
    w.Withholds Q id x (w.teardownWatcher j) := by
  by_cases hj : j = id
  · subst hj
    refine ⟨fun hw => ?_, fun hw hQ => ?_⟩ <;> rwa [teardownWatcher_of_disposed (hw.row ▸ hw.disposed)]
  · refine withholds_of (watcher_teardownWatcher_of_ne (Ne.symm hj)) (fun s hs => ?_)
      (evaluates_congr (tracker_teardownWatcher w j)).mp (memory_teardownWatcher w j)
    exact (listed_teardownWatcher_of_ne (Ne.symm hj) s).mp hs

/-- A watcher that is torn down while it serves and does not evaluate is withdrawn. -/
theorem Serves.withdrawn (h : w.Serves id) (hidle : ¬ w.Evaluates (.watcher id)) :
    (w.teardownWatcher id).Withdrawn id (w.watcher id).tornDown where
  row := by rw [(teardownWatcher_of_serves h.1).1, if_pos rfl, Watcher.tornDown]
  disposed := rfl
  unlisted := (retired_teardownWatcher (.inl h)).2
  idle := fun hevaluates => hidle ((evaluates_congr (tracker_teardownWatcher w id)).mp hevaluates)

section Noting

variable {application : Application Code Memory}
  (hnotes : ∀ occurrence (w : World Code Memory), w.Withdrawn id x → Q w.memory → Q (application.notes occurrence w))

include hnotes

omit [Inhabited Code] in
theorem withholds_note (w : World Code Memory) (occurrence : Occurrence) :
    w.Withholds Q id x (w.note application occurrence) :=
  ⟨fun hw => ⟨hw.row, hw.disposed, hw.unlisted, hw.idle⟩, hnotes occurrence w⟩

theorem withholds_opening (w : World Code Memory) (t : TrackerId) (hy : y ≠ .watcher id) :
    w.Withholds Q id x (w.opening application t y) := by
  have hbegin : w.Withholds Q id x ((w.mapDependencies y (·.begin)).note application (.evaluating y)) :=
    (withholds_mapDependencies w hy _).trans (withholds_note hnotes _ _)
  exact hbegin.trans (withholds_push _ t fun heq => hy (Option.some.inj heq))

theorem withholds_closing (w : World Code Memory) (t : TrackerId) (hy : y ≠ .watcher id) (r : Except Error Value) :
    w.Withholds Q id x (w.closing application t y r) := by
  have hpop : w.Withholds Q id x (w.mapTracker t (·.pop)) := withholds_pop w t
  cases r with
  | ok value => exact (hpop.trans (withholds_settle _ hy)).trans (withholds_note hnotes _ _)
  | error error => exact (hpop.trans (withholds_mapDependencies _ hy _)).trans (withholds_note hnotes _ _)

end Noting

end World

namespace Engine

open World

variable {Q : Memory → Prop} {id : WatcherId} {x : Watcher Code} {application : Application Code Memory}
  [Inhabited Code]

/-- Whatever the engine does leaves a watcher that is withdrawn alone. -/
theorem conduct_withholds
    (hnotes : ∀ occurrence (w : World Code Memory), w.Withdrawn id x → Q w.memory →
      Q (application.notes occurrence w)) :
    Conduct application (Request.Forgoes Q id) (fun _ => True) (fun _ => True) (Withdrawn id x) (Withdrawn id x)
      (Withholds Q id x) where
  refl w := (Builds.refl w).withholds
  trans := Withholds.trans
  calm_lasts h hw := h.withdrawn hw
  secret_lasts h hw := h.withdrawn hw
  calm_of_secret hw := hw
  builds h _ := h.withholds
  note _ _ := withholds_note hnotes _ _
  meets {w _ y} source hcurrent hw := by
    have hy : y ≠ .watcher id := fun heq => hw.idle (heq ▸ evaluates_of_current? hcurrent)
    exact (withholds_register w source hy).trans (withholds_mapDependencies _ hy _)
  opens {w t y} _ hlives h := by
    have hw : w.Withdrawn id x := h.elim And.right fun hw => hw
    have hy : y ≠ .watcher id := fun heq => hlives (heq ▸ hw.isOver)
    exact (withholds_opening hnotes w t hy).withdrawn hw
  closes {w w₁ t y} r _ hlives hw h := by
    have hy : y ≠ .watcher id := fun heq => hlives (heq ▸ hw.isOver)
    exact ((withholds_opening hnotes w t hy).trans h).trans (withholds_closing hnotes w₁ t hy r)
  pauses {w t} h := by
    have hw : w.Withdrawn id x := h.elim And.right fun hw => hw
    have hnobody : (none : Frame) ≠ some (.watcher id) := nofun
    exact (withholds_push (Q := Q) w t hnobody).withdrawn hw
  resumes {w w₁ t} _ h := by
    have hnobody : (none : Frame) ≠ some (.watcher id) := nofun
    exact ((withholds_push w t hnobody).trans h).trans (withholds_pop w₁ t)
  tells {w} source _ := withholds_mapSource w source fun h => (List.mem_filter.mp h).1
  probes hw _ := hw
  watchers _ _ := .inl trivial
  lasting _ _ _ := trivial
  learns {w₀ w j f} _ hlives hw₀ _ _ := by
    refine withholds_mapWatcher w (fun heq => hlives ?_) f
    exact heq ▸ hw₀.isOver
  watches _ _ _ hw := hw.addWatcher _
  teardown j _ := withholds_teardownWatcher _ j
  viewModels _ _ := trivial
  watch _ := trivial
  serves _ _ := trivial
  assemble data _ _ := (builds_assemble _ _ data).withholds
  register hok _ := withholds_register _ _ hok
  unregister {w source y} _ _ := withholds_mapSource w source fun h => (Source.mem_unregister.mp h).1
  remember hok _ := ⟨fun hw => ⟨hw.row, hw.disposed, hw.unlisted, hw.idle⟩, fun _ => hok _⟩
  enters {w t frame} hok hw := (withholds_push (Q := Q) w t hok).withdrawn hw
  lowers {w w₁} n hw h :=
    ⟨fun _ => (withholds_lowered (Q := Q) w₁ n).withdrawn (h.withdrawn hw), fun _ => h.memory hw⟩

/-- A watcher that is withdrawn stays so in every program that leaves no frame behind. -/
theorem withholds_run {α : Type} {w w' : World Code Memory}
    (hnotes : ∀ occurrence (w : World Code Memory), w.Withdrawn id x → Q w.memory →
      Q (application.notes occurrence w))
    (happ : application.Closes (Request.Forgoes Q id)) (depth : Nat) {program : Program Code Memory α}
    (hprogram : program.Closes (Request.Forgoes Q id) []) {r : Except Error α} (hw : w.Withdrawn id x)
    (hrun : run application depth program w = some (r, w')) : w.Withholds Q id x w' := by
  have hρ := conduct_withholds hnotes
  exact ((hρ.conducts happ depth).follow hρ hprogram w hw r w' hrun).2

/--
A watcher that is torn down while it does not evaluate is torn down for good. If it serves then, and programs neither
register it nor put it on a stack by hand, then whatever program is run from then on, at any depth and however it
ends: its row is what was left of it, so that it has not reacted once more; no source lists it, and it is on no stack.
It is the same whenever the embedder takes note meanwhile, so a property of memories stays true that stays true when
notes are taken like that.
-/
theorem torn_down_for_good {α : Type} {w w' : World Code Memory}
    (hnotes : ∀ occurrence (v : World Code Memory), v.Withdrawn id (w.watcher id).tornDown → Q v.memory →
      Q (application.notes occurrence v))
    (happ : application.Closes (Request.Forgoes Q id)) (depth : Nat) {program : Program Code Memory α}
    (hprogram : program.Closes (Request.Forgoes Q id) []) {r : Except Error α} (hserves : w.Serves id)
    (hidle : ¬ w.Evaluates (.watcher id)) (hmemory : Q w.memory)
    (hrun : run application depth program (w.teardownWatcher id) = some (r, w')) :
    w'.watcher id = (w.watcher id).tornDown ∧ (∀ s, .watcher id ∉ (w'.source s).subscribers) ∧
      ¬ w'.Evaluates (.watcher id) ∧ Q w'.memory := by
  have hwithdrawn := hserves.withdrawn hidle
  have hwithholds := withholds_run hnotes happ depth hprogram hwithdrawn hrun
  obtain ⟨hrow, -, hunlisted, hidle'⟩ := hwithholds.withdrawn hwithdrawn
  refine ⟨hrow, hunlisted, hidle', hwithholds.memory hwithdrawn ?_⟩
  rwa [memory_teardownWatcher]

end Engine

/-! ### An embedder that counts reactions -/

/-- An embedder that notes with everything that happens how often the first watcher has reacted. -/
def Application.counter : Application Unit (List Nat) where
  holds _ := [.object ⟨0⟩, .watcher ⟨0⟩, .watcher ⟨1⟩]
  notes _ w := (w.watcher ⟨0⟩).fires :: w.memory
  callback _ _ := .done ()
  method _ _ _ := .done ()
  listener _ _ := .done ()
  getter _ _ := .done .undefined
  update _ := .done ()
  install _ _ _ _ := .fail .detached

/-- Two watchers react to the same change. -/
def Program.duet : Program Unit (List Nat) Unit := do
  let tracker ← request .newTracker
  let object ← request .newObject
  request (.insert object "_" (.string "x"))
  request (.observe (.object object))
  let _ ← request (.watch tracker (.object object) default ())
  let _ ← request (.watch tracker (.object object) default ())
  request (.set object "_" (.string "y"))

/-- Another change. -/
def Program.encore : Program Unit (List Nat) Unit :=
  request (.set ⟨0⟩ "_" (.string "z"))

theorem Application.closes_counter : counter.Closes (Request.Forgoes (fun counts => ∀ n ∈ counts, n = 1) ⟨0⟩) where
  callback _ _ := .done ()
  method _ _ _ := .done ()
  listener _ _ := .done ()
  getter _ _ := .done _
  update _ := .done ()
  install _ _ _ _ := .fail _

namespace World

/-- Nobody evaluates. The first watcher has reacted once, and depends on the only source that there is. -/
def isReady (w : World Unit (List Nat)) : Bool :=
  w.trackers.rows.all (·.frames = []) && !(w.watcher ⟨0⟩).disposed && (w.watcher ⟨0⟩).fires = 1 &&
    (w.watcher ⟨0⟩).dependencies.current = [⟨0⟩] && w.sources.size = 1

theorem serves_of_isReady {w : World Unit (List Nat)} (h : w.isReady = true) :
    w.Serves ⟨0⟩ ∧ ¬ w.Evaluates (.watcher ⟨0⟩) ∧ (w.watcher ⟨0⟩).fires = 1 := by
  simp only [isReady, Bool.and_eq_true, Bool.not_eq_true', decide_eq_true_eq] at h
  obtain ⟨⟨⟨⟨htrackers, hlives⟩, hfires⟩, hcurrent⟩, hsize⟩ := h
  refine ⟨⟨hlives, fun s hs => ?_⟩, ?_, hfires⟩
  · by_cases hmade : s.index < w.sources.size
    · obtain ⟨index⟩ := s
      obtain rfl : index = 0 := Nat.lt_one_iff.mp (hsize ▸ hmade)
      rw [hcurrent]
      exact List.mem_cons_self
    · rw [World.source, w.sources.get_of_size_le (Nat.le_of_not_lt hmade)] at hs
      cases hs
  · rintro ⟨t, ht⟩
    have hframes : (w.tracker t).frames = [] := of_decide_eq_true (w.trackers.all_get rfl htrackers t)
    rw [hframes] at ht
    cases ht

end World

/-- After the first watcher was torn down the second one reacts to another change, and the first one does not. -/
theorem Engine.torn_down_for_good_encore :
    (∀ occurrence (v : World Unit (List Nat)) x, x.fires = 1 → v.Withdrawn ⟨0⟩ x → (∀ n ∈ v.memory, n = 1) →
        ∀ n ∈ Application.counter.notes occurrence v, n = 1) ∧
      Application.counter.Closes (Request.Forgoes (fun counts => ∀ n ∈ counts, n = 1) ⟨0⟩) ∧
      Program.encore.Closes (Request.Forgoes (fun counts => ∀ n ∈ counts, n = 1) ⟨0⟩) [] ∧
      ∃ (w : World Unit (List Nat)) (r : Except Error Unit) (w' : World Unit (List Nat)), w.Serves ⟨0⟩ ∧
        ¬ w.Evaluates (.watcher ⟨0⟩) ∧
        run Application.counter 6 Program.encore (w.teardownWatcher ⟨0⟩) = some (r, w') ∧
        (w'.watcher ⟨1⟩).fires = 2 ∧ w'.memory.length = 6 ∧ (∀ n ∈ w'.memory, n = 1) ∧
        w'.watcher ⟨0⟩ = (w.watcher ⟨0⟩).tornDown ∧ (∀ s, .watcher ⟨0⟩ ∉ (w'.source s).subscribers) ∧
        ¬ w'.Evaluates (.watcher ⟨0⟩) := by
  have hnotes : ∀ occurrence (v : World Unit (List Nat)) x, x.fires = 1 → v.Withdrawn ⟨0⟩ x →
      (∀ n ∈ v.memory, n = 1) → ∀ n ∈ Application.counter.notes occurrence v, n = 1 := by
    intro occurrence v x hfires hv hmemory
    exact List.forall_mem_cons.mpr ⟨hv.row ▸ hfires, hmemory⟩
  have hencore : Program.encore.Closes (Request.Forgoes (fun counts => ∀ n ∈ counts, n = 1) ⟨0⟩) [] :=
    Program.closes_request id trivial
  refine ⟨hnotes, Application.closes_counter, hencore, ?_⟩
  have hends : (run Application.counter 6 Program.duet { memory := [] }).bind (fun before =>
      (run Application.counter 6 Program.encore
          (World.teardownWatcher { before.2 with memory := [] } ⟨0⟩)).map fun after =>
        (World.isReady { before.2 with memory := [] }, (after.2.watcher ⟨1⟩).fires, after.2.memory.length))
      = some (true, 2, 6) := by decide +kernel
  obtain ⟨⟨_, w⟩, -, hends⟩ := Option.bind_eq_some_iff.mp hends
  obtain ⟨⟨r, w'⟩, hrun, hends⟩ := Option.map_eq_some_iff.mp hends
  simp only [Prod.mk.injEq] at hends
  obtain ⟨hready, hfires, hlength⟩ := hends
  obtain ⟨hserves, hidle, honce⟩ := World.serves_of_isReady hready
  obtain ⟨hrow, hunlisted, hidle', hmemory⟩ := torn_down_for_good
    (fun occurrence v => hnotes occurrence v (.tornDown _) honce) Application.closes_counter 6 hencore hserves hidle
    (List.forall_mem_nil _) hrun
  exact ⟨_, r, w', hserves, hidle, hrun, hfires, hlength, hmemory, hrow, hunlisted, hidle'⟩

end ViewBinding
