import ViewBinding.Proofs.Reactions
import ViewBinding.Proofs.Recalling
import ViewBinding.Proofs.Rounds

/-!
# One change, one reaction

A change that is written is told to those that listen to the field, and what they do may lead to more
telling: a computed property that is told passes the news on. Where getters only read and callbacks only
look on, nothing else is told. So a watcher that is told by nobody but the field has one turn, and what it
reacts to is what its path evaluates to then. All these reactions come in the order of registration.
-/

namespace ViewBinding

open Engine

variable {Code Memory : Type}

/-! ### Who reacted, and who was told -/

/-- The watcher that a subscriber is. -/
def Subscriber.watcher? : Subscriber → Option WatcherId
  | .watcher id => some id
  | _ => none

namespace Occurrence

/-- The watcher that begins to react. -/
def reactor? : Occurrence → Option WatcherId
  | .reacting id _ => some id
  | _ => none

/-- The watchers that began to react, in order, in a history that has the last occurrence first. -/
def reactors (history : List Occurrence) : List WatcherId :=
  (history.filterMap reactor?).reverse

/-- A subscriber was told of a change. -/
def Summoned (x : Subscriber) (history : List Occurrence) : Prop :=
  ∃ s live, .telling s live ∈ history ∧ x ∈ live

/-- Nobody reacted and nobody was told. -/
structure Still (history : List Occurrence) : Prop where
  reactors : reactors history = []
  telling : ∀ s live, .telling s live ∉ history

/-- Those that nobody told react in the order of a list, if they do. -/
def KeepsTo (l : List Subscriber) (history : List Occurrence) : Prop :=
  ∀ p : WatcherId → Bool, (∀ id, p id = true → ¬ Summoned (.watcher id) history) →
    ((reactors history).filter p).Sublist (l.filterMap Subscriber.watcher?)

variable {x : Subscriber} {id : WatcherId} {l l' : List Subscriber} {earlier later : List Occurrence}

theorem reactors_append (later earlier : List Occurrence) :
    reactors (later ++ earlier) = reactors earlier ++ reactors later := by
  simp [reactors]

theorem summoned_append : Summoned x (later ++ earlier) ↔ Summoned x later ∨ Summoned x earlier := by
  simp only [Summoned, List.mem_append, or_and_right, exists_or]

theorem reactions_eq_nil (h : id ∉ reactors earlier) : reactions id earlier = [] := by
  rw [reactions, List.reverse_eq_nil_iff, List.filterMap_eq_nil_iff]
  intro occurrence hmem
  cases occurrence with
  | reacting j value =>
    refine if_neg fun hj => h ?_
    rw [reactors, List.mem_reverse, List.mem_filterMap]
    exact ⟨_, hmem, congrArg some hj⟩
  | _ => rfl

theorem Still.nil : Still [] :=
  ⟨rfl, fun _ _ => List.not_mem_nil⟩

theorem Still.append (h : Still earlier) (h' : Still later) : Still (later ++ earlier) where
  reactors := by rw [reactors_append, h.reactors, h'.reactors, List.append_nil]
  telling s live hmem := (List.mem_append.mp hmem).elim (h'.telling s live) (h.telling s live)

theorem Still.reactions (h : Still earlier) : reactions id earlier = [] :=
  reactions_eq_nil (by simp [h.reactors])

theorem Still.keepsTo (h : Still earlier) : KeepsTo l earlier := by
  intro p _
  rw [h.reactors]
  exact List.nil_sublist _

/-- One round after another. -/
theorem KeepsTo.append (h : KeepsTo l earlier) (h' : KeepsTo l' later) : KeepsTo (l ++ l') (later ++ earlier) := by
  intro p hp
  rw [reactors_append, List.filter_append, List.filterMap_append]
  refine (h p fun id hid => ?_).append (h' p fun id hid => ?_)
  · exact fun hearlier => hp id hid (summoned_append.mpr (.inr hearlier))
  · exact fun hlater => hp id hid (summoned_append.mpr (.inl hlater))

/-- Whoever reacts in a round that a source has begun was told. -/
theorem KeepsTo.told {s : SourceId} (h : KeepsTo l later) : KeepsTo [] (later ++ [.telling s l]) := by
  intro p hp
  have hreactors : reactors (later ++ [.telling s l]) = reactors later := by
    simp [reactors, reactor?]
  have hlater : ((reactors later).filter p).Sublist (l.filterMap Subscriber.watcher?) :=
    h p fun id hid hsummoned => hp id hid (summoned_append.mpr (.inl hsummoned))
  rw [hreactors, List.filterMap_nil, List.sublist_nil, List.eq_nil_iff_forall_not_mem]
  intro id hid
  obtain ⟨x, hx, hxid⟩ := List.mem_filterMap.mp (hlater.subset hid)
  have hwatcher : x = .watcher id := by
    cases x with
    | watcher j => simpa [Subscriber.watcher?] using hxid
    | _ => simp [Subscriber.watcher?] at hxid
  refine hp id (List.mem_filter.mp hid).2 (summoned_append.mpr (.inr ⟨s, l, List.mem_cons_self, ?_⟩))
  rw [← hwatcher]
  exact hx

/-- Who is not on the list and was not told did not react. -/
theorem KeepsTo.not_mem (h : KeepsTo l earlier) (hid : ¬ Summoned (.watcher id) earlier)
    (hl : .watcher id ∉ l) : id ∉ reactors earlier := by
  intro hmem
  have hsublist := h (fun j => decide (j = id)) (by simpa using hid)
  have hfilter : id ∈ (reactors earlier).filter fun j => decide (j = id) := by simpa using hmem
  obtain ⟨x, hx, hxid⟩ := List.mem_filterMap.mp (hsublist.subset hfilter)
  cases x with
  | watcher j =>
    obtain rfl : j = id := Option.some.inj hxid
    exact hl hx
  | _ => simp [Subscriber.watcher?] at hxid

end Occurrence

open Occurrence

/-! ### What a cascade leaves alone -/

namespace World

variable [Inhabited Code]

/-- While `news` happened, all that changed of watchers that did not react is what they depend on, and no
computed property got another source. -/
structure Unrolls (record : Memory → List Occurrence) (news : List Occurrence)
    (w w' : World Code Memory) : Prop where
  record : record w'.memory = news ++ record w.memory
  faces : ∀ id, id ∉ reactors news → (w'.watcher id).face = (w.watcher id).face
  sources : ∀ id, (w'.computed id).source = (w.computed id).source

/-- Nobody reacted and nobody was told. -/
def Lulls (record : Memory → List Occurrence) (w w' : World Code Memory) : Prop :=
  ∃ news, Still news ∧ w.Unrolls record news w'

variable {record : Memory → List Occurrence} {application : Application Code Memory}
  {w w' w₁ w₂ : World Code Memory} {news news' : List Occurrence}

theorem Unrolls.trans (h : w.Unrolls record news w₁) (h' : w₁.Unrolls record news' w₂) :
    w.Unrolls record (news' ++ news) w₂ where
  record := by rw [h'.record, h.record, List.append_assoc]
  faces id hid := by
    rw [reactors_append, List.mem_append, not_or] at hid
    exact (h'.faces id hid.2).trans (h.faces id hid.1)
  sources id := (h'.sources id).trans (h.sources id)

/-- There is one story of what happened. -/
theorem Unrolls.unique (h : w.Unrolls record news w') (h' : w.Unrolls record news' w') : news' = news :=
  List.append_cancel_right (h'.record.symm.trans h.record)

theorem Lulls.refl (w : World Code Memory) : w.Lulls record w :=
  ⟨[], .nil, rfl, fun _ _ => rfl, fun _ => rfl⟩

theorem Lulls.trans (h : w.Lulls record w₁) (h' : w₁.Lulls record w₂) : w.Lulls record w₂ := by
  obtain ⟨news, hstill, hunrolls⟩ := h
  obtain ⟨news', hstill', hunrolls'⟩ := h'
  exact ⟨news' ++ news, hstill.append hstill', hunrolls.trans hunrolls'⟩

theorem lulls_of_eq (hrecord : record w'.memory = record w.memory) (hwatchers : w'.watchers = w.watchers)
    (hcomputeds : w'.computeds = w.computeds) : w.Lulls record w' := by
  refine ⟨[], .nil, hrecord, fun id _ => ?_, fun id => ?_⟩
  · rw [watcher, hwatchers, watcher]
  · rw [computed, hcomputeds, computed]

/-- Something is recorded while no watcher and no computed property changes for others to see. -/
theorem lulls_of_aside (haside : Aside (fun _ : Memory => []) w w') (hstill : Still news)
    (hrecord : record w'.memory = news ++ record w.memory) : w.Lulls record w' := by
  refine ⟨news, hstill, hrecord, fun id _ => haside.watchers id, fun id => ?_⟩
  exact Computed.source_eq_of_base_eq (Computed.base_eq_of_face_eq (haside.computeds id))

section Noting

variable (hrecord : application.Records record)

include hrecord

/-- Something that is no reaction and no telling is recorded. -/
theorem lulls_note (haside : Aside (fun _ : Memory => []) w w') (hmemory : w'.memory = w.memory)
    {o : Occurrence} (ho : Still [o]) : w.Lulls record (w'.note application o) := by
  refine lulls_of_aside (haside.trans (aside_note (fun _ _ => rfl) w' o)) ho ?_
  exact record_note hrecord hmemory o

theorem lulls_opening (w : World Code Memory) (t : TrackerId) (y : Subscriber) :
    w.Lulls record (w.opening application t y) := by
  have hnoted := lulls_note hrecord (aside_mapDependencies w y (·.begin)) (memory_mapDependencies w y _)
    (o := .evaluating y) ⟨rfl, by simp⟩
  exact hnoted.trans (lulls_of_eq rfl rfl rfl)

theorem lulls_closing (w : World Code Memory) (t : TrackerId) (y : Subscriber) (r : Except Error Value) :
    w.Lulls record (w.closing application t y r) := by
  have hpopped : w.Lulls record (w.mapTracker t (·.pop)) := lulls_of_eq rfl rfl rfl
  refine hpopped.trans ?_
  cases r with
  | ok value => exact lulls_note hrecord (aside_settle _ y) (memory_settle _ y) ⟨rfl, by simp⟩
  | error error =>
    exact lulls_note hrecord (aside_mapDependencies _ y _) (memory_mapDependencies _ y _) ⟨rfl, by simp⟩

end Noting

end World

namespace Engine

variable [Inhabited Code] {record : Memory → List Occurrence} {application : Application Code Memory}
  {w : World Code Memory}

/-- While something is read, nobody reacts and nobody is told. -/
theorem recurs_lulls (hrecord : application.Records record) (start : World Code Memory) :
    Recurs application fun _ : Unit => start.Lulls record where
  held _ hw := hw.trans (World.lulls_of_eq rfl rfl rfl)
  mapTracker _ _ hw := hw.trans (World.lulls_of_eq rfl rfl rfl)
  mapComputed {_ w} id f hf _ hw := by
    refine hw.trans ⟨[], .nil, rfl, fun _ _ => rfl, fun j => ?_⟩
    rw [World.computed_mapComputed]
    split
    · next h => rw [h, (hf _).2.2]
    · rfl
  computing _ hw := hw.trans (World.lulls_note hrecord (.refl _) rfl ⟨rfl, by simp⟩)
  meeting {_ w} y s hw := by
    refine hw.trans (World.lulls_note hrecord ((World.aside_sources w _).trans
      (World.aside_mapDependencies _ y _)) ?_ ⟨rfl, by simp⟩)
    exact World.memory_mapDependencies _ y _
  evaluating _ y := ⟨(), fun t => ⟨fun _ hw => hw.trans (World.lulls_opening hrecord _ t y),
    fun _ r hw => hw.trans (World.lulls_closing hrecord _ t y r)⟩⟩
  await {_ w _ key} hobserved _ hw := by
    refine hw.trans (World.lulls_of_aside (World.aside_await w key hobserved) .nil ?_)
    exact congrArg record (World.raises_await w _ key).memory

end Engine

/-! ### Programs that look on -/

section LookingOn

variable [Inhabited Code]

/-- A request that touches nothing but the tree of nodes and what the embedder remembers. -/
def Request.LooksOn (record : Memory → List Occurrence) :
    Request Code Memory → World Code Memory → Prop
  | .newElement .., _ | .newText .., _ | .display .., _ | .takeChildren .., _ => True
  | .appendChildren .., _ | .listen .., _ | .hold .., _ | .release .., _ => True
  | .remember f, w => record (f w.memory) = record w.memory
  | _, _ => False

/-- An embedder whose getters only read, and whose callbacks and probes look on. -/
structure Application.LooksOn (application : Application Code Memory)
    (record : Memory → List Occurrence) : Prop where
  records : application.Records record
  getters : application.GettersRead
  callback (code : Code) (value : Value) : (application.callback code value).Makes (Request.LooksOn record)
  update (code : Code) : (application.update code).Makes (Request.LooksOn record)

namespace Engine

variable {record : Memory → List Occurrence} {application : Application Code Memory}
  {start w : World Code Memory} {c : Reentry Code Memory} {α : Type}

theorem lulls_fulfil {request : Request Code Memory} (hrequest : request.LooksOn record w)
    (hw : start.Lulls record w) :
    Ends w (fulfil c request) (fulfil c request) fun _ => start.Lulls record := by
  have hmargin : ∀ {w' : World Code Memory}, w.Margin w' → start.Lulls record w' := fun h =>
    hw.trans (World.lulls_of_eq (congrArg record h.fringe.memory) h.fringe.watchers h.fringe.computeds)
  cases request with
  | newElement tag attributes children =>
    exact (ends_create _).mpr (hmargin (World.margin_newElement w tag attributes children))
  | newText content => exact (ends_create _).mpr (hmargin (World.margin_newText w content))
  | display updater node value =>
    exact (ends_update _).mpr (hmargin (World.margin_display w updater node value))
  | takeChildren node => exact (ends_create _).mpr (hmargin (World.margin_setChildren w node []))
  | appendChildren node children =>
    exact (ends_update _).mpr (hmargin (World.margin_appendChildren w node children))
  | listen node event code =>
    exact (ends_update _).mpr (hmargin (World.margin_listen w node event code))
  | hold refs => exact (ends_update _).mpr (hmargin (World.margin_held w _))
  | release refs => exact (ends_update _).mpr (hmargin (World.margin_held w _))
  | remember f => exact (ends_update _).mpr (hw.trans (World.lulls_of_eq hrequest rfl rfl))
  | _ => exact hrequest.elim

theorem lulls_follow {program : Program Code Memory α} {seen : Option (World Code Memory)}
    (hprogram : program.Makes (Request.LooksOn record) seen) (hseen : ∀ v ∈ seen, w = v)
    (hw : start.Lulls record w) :
    Ends w (follow c program) (follow c program) fun _ => start.Lulls record := by
  induction program generalizing seen w with
  | done result => exact (ends_pure result).mpr hw
  | fail error => exact (ends_throw error).mpr hw
  | look next inductionHypothesis =>
    exact inductionHypothesis w (hprogram w) (fun v hv => Option.some.inj hv) hw
  | ask request next inductionHypothesis =>
    refine (lulls_fulfil (hprogram.1 w hseen) hw).attempt_bind fun answer w' hw' => ?_
    exact inductionHypothesis answer (hprogram.2 answer) (fun v hv => absurd hv (Option.not_mem_none _)) hw'

/-- While a program looks on, nobody reacts and nobody is told. -/
theorem lulls_run (depth : Nat) {program : Program Code Memory α}
    (hprogram : program.Makes (Request.LooksOn record)) :
    Keeps (start.Lulls record) ((reentry application depth).run program)
      ((reentry application depth).run program) := by
  cases depth with
  | zero => exact Keeps.exhausted _
  | succ depth => exact fun w hw => lulls_follow hprogram (fun v hv => absurd hv (Option.not_mem_none _)) hw

/-- Neither are they while a watcher reacts. -/
theorem lulls_react (happ : application.LooksOn record) (depth : Nat) (reaction : Reaction Code)
    (value : Value) :
    Keeps (start.Lulls record) (react (reentry application depth) reaction value)
      (react (reentry application depth) reaction value) := by
  have hfringe : ∀ {f : World Code Memory → World Code Memory}, (∀ w : World Code Memory, w.Fringe (f w)) →
      Keeps (start.Lulls record) (update f) (update f) := fun hf => Keeps.update fun w hw =>
    hw.trans (World.lulls_of_eq (congrArg record (hf w).memory) (hf w).watchers (hf w).computeds)
  cases reaction with
  | render updater node => exact hfringe fun w => World.fringe_display w updater node value
  | interpolate template root tracker node =>
    have hreading := (recurring_reentry (recurs_lulls happ.records start) happ.getters depth).perusal
      (recurs_lulls happ.records start) (i := ())
    refine (hreading.renderTemplate template root (some tracker)).bind fun text => ?_
    exact hfringe fun w => World.fringe_setText w node text
  | run code =>
    unfold Engine.react
    rw [application_reentry]
    exact lulls_run depth (happ.callback code value)

/-! ### One turn -/

/-- What is new to one who knows a value. -/
def surprise (known : Value) : Except Error Value → List Value
  | .ok value => if known.same value then [] else [value]
  | .error _ => []

/-- A watcher had its turn. If it was in service it evaluated, and if it found something new it reacted to
that; nobody else reacted, and nobody was told. -/
structure Turned (application : Application Code Memory) (record : Memory → List Occurrence) (depth : Nat)
    (id : WatcherId) (u : World Code Memory) (news : List Occurrence) (u' : World Code Memory) : Prop where
  unrolls : u.Unrolls record news u'
  telling : ∀ s live, .telling s live ∉ news
  reactors : (reactors news).Sublist [id]
  ended : (u.watcher id).disposed = true → reactions id news = []
  serves : (u.watcher id).disposed = false → ∃ result v,
    evaluateWatcher (reentry application depth) id { u with held := .watcher id :: u.held }
      = some (result, v) ∧ reactions id news = surprise (u.watcher id).cached result

theorem lulls_evaluateWatcher (happ : application.LooksOn record) {depth : Nat} {id : WatcherId}
    {result : Except Error Value} {held : List Ref} {v : World Code Memory}
    (hrun : evaluateWatcher (reentry application depth) id { w with held } = some (result, v)) :
    w.Lulls record v := by
  have hrecurs := recurs_lulls happ.records w
  have hevaluates := (recurring_reentry hrecurs happ.getters depth).evaluateWatcher hrecurs (i := ()) id
  exact (hevaluates { w with held } (World.lulls_of_eq rfl rfl rfl) result v hrun).2

/-- A watcher that reacts knows the value from then on, and all others know what they knew. -/
theorem unrolls_reacting (hrecord : application.Records record) (w : World Code Memory) (id : WatcherId)
    (value : Value) (refs : List Ref) :
    w.Unrolls record [.reacting id value] (w.reacting application id value refs) where
  record := World.record_reacting hrecord w id value refs
  faces j hj := by
    have hne : j ≠ id := by simpa [reactors, reactor?] using hj
    change ((w.learning id value).watcher j).face = _
    rw [World.learning, World.watcher_mapWatcher, if_neg hne]
  sources _ := rfl

/-- What a watcher makes of an evaluation in which it finds nothing new. -/
theorem turned_idle (happ : application.LooksOn record) {depth : Nat} {id : WatcherId}
    {result : Except Error Value} {u v : World Code Memory}
    (hrun : evaluateWatcher (reentry application depth) id { u with held := .watcher id :: u.held }
      = some (result, v)) (hknown : surprise (u.watcher id).cached result = []) :
    ∃ news, Turned application record depth id u news v := by
  obtain ⟨news, hstill, hunrolls⟩ := lulls_evaluateWatcher happ hrun
  have hnone : reactions id news = [] := hstill.reactions
  refine ⟨news, hunrolls, hstill.telling, ?_, fun _ => hnone, fun _ => ⟨result, v, hrun, ?_⟩⟩
  · rw [hstill.reactors]
    exact List.nil_sublist _
  · rw [hnone, hknown]

/-- What a watcher does with a value that it does not know. -/
theorem turned_reacting (happ : application.LooksOn record) {depth : Nat} {id : WatcherId}
    {value : Value} {u v v' : World Code Memory} {news : List Occurrence}
    (hserves : (u.watcher id).disposed = false)
    (hrun : evaluateWatcher (reentry application depth) id { u with held := .watcher id :: u.held }
      = some (.ok value, v)) (hnew : (u.watcher id).cached.same value = false) (hstill : Still news)
    (hunrolls : u.Unrolls record news v)
    (hreacting : (v.reacting application id value value.refs).Lulls record v') :
    ∃ news, Turned application record depth id u news v' := by
  obtain ⟨later, hlater, hrest⟩ := hreacting
  have hreactors : reactors (later ++ ([.reacting id value] ++ news)) = [id] := by
    rw [reactors_append, reactors_append, hlater.reactors, hstill.reactors]
    rfl
  have hreactions : reactions id (later ++ ([.reacting id value] ++ news)) = [value] := by
    rw [reactions_append, reactions_append, hlater.reactions, hstill.reactions]
    simp
  refine ⟨_, (hunrolls.trans (unrolls_reacting happ.records v id value value.refs)).trans hrest, ?_, ?_,
    fun h => Bool.noConfusion (hserves.symm.trans h), fun _ => ⟨.ok value, v, hrun, ?_⟩⟩
  · intro s live hmem
    simp [hstill.telling, hlater.telling] at hmem
  · rw [hreactors]
  · rw [hreactions, surprise, if_neg (Bool.eq_false_iff.mp hnew)]

/-- What a watcher does with a value. -/
theorem ends_reacting (happ : application.LooksOn record) (depth : Nat) (id : WatcherId)
    {value : Value} {w start : World Code Memory} {refs : List Ref}
    (hstart : start.Lulls record (w.reacting application id value refs)) :
    Ends (w.learning id value)
      (keeping refs (framed (some (w.watcher id).tracker) none do
        note (reentry application depth) (.reacting id value)
        react (reentry application depth) (w.watcher id).reaction value))
      (keeping refs (framed (some (w.watcher id).tracker) none do
        note (reentry application depth) (.reacting id value)
        react (reentry application depth) (w.watcher id).reaction value))
      fun _ => start.Lulls record := by
  refine Ends.keeping _ (R := fun _ => start.Lulls record) ?_ fun _ _ h =>
    h.trans (World.lulls_of_eq rfl rfl rfl)
  refine Ends.framed _ _ (R := fun _ => start.Lulls record) ?_ fun _ _ h =>
    h.trans (World.lulls_of_eq rfl rfl rfl)
  unfold Engine.note
  rw [application_reentry, ends_update_bind]
  exact lulls_react happ depth _ value _ hstart

/-- Whatever comes of it, an update of a watcher is one turn. -/
theorem updateWatcher_turned (happ : application.LooksOn record) (depth : Nat) (id : WatcherId)
    (u : World Code Memory) :
    Ends u (updateWatcher (reentry application depth) id) (updateWatcher (reentry application depth) id)
      fun _ u' => ∃ news, Turned application record depth id u news u' := by
  refine Ends.keeping _ (R := fun _ v => ∃ news, Turned application record depth id u news v) ?_ ?_
  · rw [ends_inspect_bind]
    split
    · next hdisposed =>
      have hunrolls : u.Unrolls record [] { u with held := [.watcher id] ++ u.held } :=
        ⟨rfl, fun _ _ => rfl, fun _ => rfl⟩
      refine (ends_pure ()).mpr ⟨[], hunrolls, Still.nil.telling, List.nil_sublist _, fun _ => rfl, ?_⟩
      exact fun h => Bool.noConfusion (h.symm.trans hdisposed)
    · next hserves =>
      have hserves : (u.watcher id).disposed = false := Bool.eq_false_iff.mpr hserves
      refine Ends.bind (R := fun result v => evaluateWatcher (reentry application depth) id
        { u with held := [.watcher id] ++ u.held } = some (result, v)) ?_ ?_ ?_
      · exact fun result v hrun => ⟨hrun, hrun⟩
      · intro value v hrun
        obtain ⟨news, hstill, hunrolls⟩ := lulls_evaluateWatcher happ hrun
        have hcached : (v.watcher id).cached = (u.watcher id).cached :=
          (Watcher.fields_eq_of_face_eq (hunrolls.faces id (by simp [hstill.reactors]))).2.2.2.1
        rw [ends_inspect_bind, hcached]
        split
        · next hknown =>
          exact (ends_pure ()).mpr (turned_idle happ hrun (if_pos hknown))
        · next hnew =>
          rw [ends_update_bind]
          refine (ends_reacting happ depth id (.refl _)).mono fun _ v' hreacting => ?_
          exact turned_reacting happ hserves hrun (Bool.eq_false_iff.mpr hnew) hstill hunrolls hreacting
      · exact fun error v hrun => turned_idle happ hrun rfl
  · rintro _ v ⟨news, hturned⟩
    obtain ⟨hrecord, hfaces, hsources⟩ := hturned.unrolls
    exact ⟨news, { hturned with unrolls := ⟨hrecord, hfaces, hsources⟩ }⟩

end Engine

/-! ### One cascade -/

/-- The world in which a subscriber that is told goes to work, while `held` is held. -/
def World.turning (w : World Code Memory) (application : Application Code Memory)
    (x : Subscriber) (held : List Ref) : World Code Memory :=
  { World.note { w with held } application (.updating x) with held := x.ref :: held }

/-- All that were told were told by computed properties. -/
def World.PassesOn (w : World Code Memory) (news : List Occurrence) : Prop :=
  ∀ s live, .telling s live ∈ news → ∃ id, s = (w.computed id).source

/-- What happened is a cascade: those on a list react in order, and so do those that a computed property
tells; nobody else does. -/
def World.Cascades (record : Memory → List Occurrence) (l : List Subscriber)
    (w w' : World Code Memory) : Prop :=
  ∃ news, KeepsTo l news ∧ w.PassesOn news ∧ w.Unrolls record news w'

section Cascades

variable {record : Memory → List Occurrence} {application : Application Code Memory}
  {w w' w₁ w₂ : World Code Memory} {l l' : List Subscriber} {news news' : List Occurrence}

namespace World

theorem PassesOn.append (h : w.PassesOn news) (h' : w.PassesOn news') : w.PassesOn (news' ++ news) :=
  fun s live hmem => (List.mem_append.mp hmem).elim (h' s live) (h s live)

/-- Computed properties have the sources that they had. -/
theorem Unrolls.passesOn (h : w.Unrolls record news w₁) (h' : w₁.PassesOn news') : w.PassesOn news' := by
  intro s live hmem
  obtain ⟨id, hid⟩ := h' s live hmem
  exact ⟨id, hid.trans (h.sources id)⟩

theorem Cascades.trans (h : w.Cascades record l w₁) (h' : w₁.Cascades record l' w₂) :
    w.Cascades record (l ++ l') w₂ := by
  obtain ⟨news, hkeeps, hpasses, hunrolls⟩ := h
  obtain ⟨news', hkeeps', hpasses', hunrolls'⟩ := h'
  exact ⟨news' ++ news, hkeeps.append hkeeps', hpasses.append (hunrolls.passesOn hpasses'),
    hunrolls.trans hunrolls'⟩

theorem Lulls.cascades (h : w.Lulls record w') : w.Cascades record l w' := by
  obtain ⟨news, hstill, hunrolls⟩ := h
  exact ⟨news, hstill.keepsTo, fun s live hmem => absurd hmem (hstill.telling s live), hunrolls⟩

/-- What is held does not matter. -/
theorem Cascades.held {held held' : List Ref} (h : Cascades record l { w with held } w') :
    w.Cascades record l { w' with held := held' } := by
  obtain ⟨news, hkeeps, hpasses, hunrolls⟩ := h
  exact ⟨news, hkeeps, hpasses, hunrolls.record, hunrolls.faces, hunrolls.sources⟩

end World

namespace Engine

theorem Turned.cascades {depth : Nat} {id : WatcherId} (h : Turned application record depth id w news w') :
    w.Cascades record [.watcher id] w' := by
  refine ⟨news, fun p _ => ?_, fun s live hmem => absurd hmem (h.telling s live), h.unrolls⟩
  exact List.Sublist.trans List.filter_sublist h.reactors

/-- The turn of a subscriber, whose reaction may be the first on the list. -/
theorem cascades_updateSubscriber (happ : application.LooksOn record) {depth : Nat}
    (hnotify : ∀ (id : ComputedId) (w : World Code Memory),
      Ends w ((reentry application depth).notify (w.computed id).source)
        ((reentry application depth).notify (w.computed id).source) fun _ => w.Cascades record [])
    (x : Subscriber) (w : World Code Memory) :
    Ends w (updateSubscriber (reentry application depth) x) (updateSubscriber (reentry application depth) x)
      fun _ => w.Cascades record [x] := by
  have hupdating : w.Lulls record (w.note application (.updating x)) :=
    World.lulls_note happ.records (.refl _) rfl ⟨rfl, by simp⟩
  unfold Engine.updateSubscriber Engine.note
  rw [application_reentry, ends_update_bind]
  cases x with
  | watcher id =>
    refine (updateWatcher_turned happ depth id _).mono fun _ w' => ?_
    rintro ⟨news, hturned⟩
    exact hupdating.cascades.trans (l := []) hturned.cascades
  | computed id =>
    rw [ends_update_bind, ends_inspect_bind]
    refine (hnotify _ _).mono fun _ w' hcascades => ?_
    have hforgetting : (w.note application (.updating (.computed id))).Lulls record _ :=
      (recurs_lulls happ.records _).mapComputed id (f := fun x => { x with cache := none })
        (fun _ => ⟨rfl, rfl, rfl⟩) (fun _ => rfl) (.refl _) (i := ())
    exact (hupdating.trans hforgetting).cascades.trans (l := [.computed id]) hcascades
  | probe id =>
    rw [ends_inspect_bind]
    refine (lulls_run depth (happ.update _) _ hupdating).mono fun _ w' hlulls => hlulls.cascades

section Rounds

variable {c : Reentry Code Memory} {results : List (Except Error Unit)}
  (hupdate : ∀ (x : Subscriber) (w : World Code Memory),
    Ends w (updateSubscriber c x) (updateSubscriber c x) fun _ => w.Cascades record [x])

include hupdate

/-- One turn of a round. -/
theorem cascades_keeping {x : Subscriber} {refs : List Ref} {result : Except Error Unit}
    (hrun : keeping refs (updateSubscriber c x) w = some (result, w')) : w.Cascades record [x] w' :=
  (Ends.keeping refs (hupdate x _) (Q := fun _ => w.Cascades record [x]) (fun _ _ h => h.held) _ _ hrun).2

/-- Those whose turn comes in a round react in order. -/
theorem Round.cascades (h : Round (fun x => some x.ref) (updateSubscriber c) l w results w') :
    w.Cascades record l w' := by
  induction h with
  | done => exact (World.Lulls.refl _).cascades
  | turn hstep hrest inductionHypothesis =>
    exact (cascades_keeping hupdate hstep).trans inductionHypothesis

end Rounds

/-- A source has begun to tell its subscribers. -/
theorem unrolls_telling (hrecord : application.Records record) (w : World Code Memory) (s : SourceId) :
    w.Unrolls record [.telling s (w.audience application s)] (w.telling application s) where
  record := World.record_telling hrecord w s
  faces _ _ := rfl
  sources _ := rfl

/-- Whoever reacts in the course of a notification was told. -/
theorem cascades_notify (happ : application.LooksOn record) (depth : Nat) (id : ComputedId)
    (w : World Code Memory) :
    Ends w ((reentry application depth).notify (w.computed id).source)
      ((reentry application depth).notify (w.computed id).source) fun _ => w.Cascades record [] := by
  induction depth generalizing id w with
  | zero => exact ends_exhausted _
  | succ depth inductionHypothesis =>
    intro r w' hrun
    refine ⟨hrun, ?_⟩
    obtain ⟨results, hround, -⟩ := notify_eq_some_iff.mp hrun
    obtain ⟨news, hkeeps, hpasses, hunrolls⟩ :=
      hround.cascades (cascades_updateSubscriber happ inductionHypothesis)
    refine ⟨_, hkeeps.told, ?_, (unrolls_telling happ.records w _).trans hunrolls⟩
    refine World.PassesOn.append (fun s live hmem => ⟨id, ?_⟩) hpasses
    exact (Occurrence.telling.inj (List.mem_singleton.mp hmem)).1

/-! ### The turn of a watcher -/

/-- In its turn a watcher evaluates, and if it finds something new it reacts to that. One that is torn
down does nothing. -/
structure HasTurn (application : Application Code Memory) (depth : Nat) (id : WatcherId)
    (u : World Code Memory) (news : List Occurrence) : Prop where
  ended : (u.watcher id).disposed = true → reactions id news = []
  serves : (u.watcher id).disposed = false → ∃ held result v,
    evaluateWatcher (reentry application depth) id (u.turning application (.watcher id) held)
      = some (result, v) ∧ reactions id news = surprise (u.watcher id).cached result

/-- Nothing counts but what the watcher reacts to. -/
theorem HasTurn.congr {depth : Nat} {id : WatcherId} (h : HasTurn application depth id w news)
    (hreactions : reactions id news' = reactions id news) : HasTurn application depth id w news' := by
  obtain ⟨hended, hserves⟩ := h
  rw [← hreactions] at hended hserves
  exact ⟨hended, hserves⟩

/-- The turn of a watcher in a round. -/
theorem hasTurn_keeping (happ : application.LooksOn record) {depth : Nat} {id : WatcherId}
    {refs : List Ref} {result : Except Error Unit}
    (hrun : keeping refs (updateSubscriber (reentry application depth) (.watcher id)) w
      = some (result, w')) :
    ∃ news, w.Unrolls record news w' ∧ HasTurn application depth id w news := by
  have hends : Ends w (keeping refs (updateSubscriber (reentry application depth) (.watcher id)))
      (keeping refs (updateSubscriber (reentry application depth) (.watcher id)))
      fun _ v => ∃ news, w.Unrolls record news v ∧ HasTurn application depth id w news := by
    refine Ends.keeping refs (R := fun _ v => ∃ news, w.Unrolls record news v ∧
      HasTurn application depth id w news) ?_ ?_
    · unfold Engine.updateSubscriber Engine.note
      rw [application_reentry, ends_update_bind]
      refine (updateWatcher_turned happ depth id _).mono fun _ v => ?_
      rintro ⟨news, hturned⟩
      have hheld : w.Lulls record { w with held := refs ++ w.held } := World.lulls_of_eq rfl rfl rfl
      obtain ⟨noted, hstill, hnoted⟩ := hheld.trans (World.lulls_note happ.records (.refl _) rfl
        (o := .updating (.watcher id)) ⟨rfl, by simp⟩)
      have hreactions : reactions id (news ++ noted) = reactions id news := by
        rw [reactions_append, hstill.reactions, List.nil_append]
      refine ⟨news ++ noted, hnoted.trans hturned.unrolls, ?_⟩
      exact HasTurn.congr ⟨hturned.ended, fun h => ⟨_, hturned.serves h⟩⟩ hreactions
    · rintro _ v ⟨news, ⟨hrecord, hfaces, hsources⟩, hturn⟩
      exact ⟨news, ⟨hrecord, hfaces, hsources⟩, hturn⟩
  exact (hends result w' hrun).2

/-- A watcher that is told by nobody but the source that goes the round has one turn, and comes to it as
it was at the start. -/
theorem Round.hasTurn (happ : application.LooksOn record) {depth : Nat} {id : WatcherId}
    {results : List (Except Error Unit)}
    (h : Round (fun x => some x.ref) (updateSubscriber (reentry application depth)) l w results w')
    (hnodup : l.Nodup) (hunrolls : w.Unrolls record news w') (hmem : .watcher id ∈ l)
    (hsummoned : ¬ Summoned (.watcher id) news) :
    ∃ u, Turn (fun x => some x.ref) (updateSubscriber (reentry application depth)) l w (.watcher id) u ∧
      (u.watcher id).face = (w.watcher id).face ∧ HasTurn application depth id u news := by
  have hupdate := cascades_updateSubscriber happ (cascades_notify happ depth)
  induction h generalizing news with
  | done => cases hmem
  | @turn x rest w v w' result results hstep hrest inductionHypothesis =>
    obtain ⟨later, hkeeps, -, hlater⟩ := hrest.cascades hupdate
    obtain ⟨hx, hnodup⟩ := List.nodup_cons.mp hnodup
    by_cases hid : x = .watcher id
    · -- it is its turn, and nothing that follows makes it react again
      subst hid
      obtain ⟨now, hnow, hturn⟩ := hasTurn_keeping happ hstep
      obtain rfl := hunrolls.unique (hnow.trans hlater)
      have hnone : reactions id later = [] :=
        reactions_eq_nil (hkeeps.not_mem (fun h => hsummoned (summoned_append.mpr (.inl h))) hx)
      refine ⟨w, .now, rfl, hturn.congr ?_⟩
      rw [reactions_append, hnone, List.append_nil]
    · obtain ⟨now, hkeeps', -, hnow⟩ := cascades_keeping hupdate hstep
      obtain rfl := hunrolls.unique (hnow.trans hlater)
      have hne : id ∉ reactors now :=
        hkeeps'.not_mem (fun h => hsummoned (summoned_append.mpr (.inr h)))
          fun h => hid (List.mem_singleton.mp h).symm
      obtain ⟨u, hu, hface, hturn⟩ := inductionHypothesis hnodup hlater
        ((List.mem_cons.mp hmem).resolve_left fun h => hid h.symm)
        fun h => hsummoned (summoned_append.mpr (.inl h))
      refine ⟨u, .later (attempt_of_run hstep) hu, hface.trans (hnow.faces id hne), hturn.congr ?_⟩
      rw [reactions_append, reactions_eq_nil hne, List.nil_append]

end Engine

end Cascades

/-! ### One change -/

/-- A notification told those that listened to a source. Besides them, only computed properties told
anybody. -/
structure World.OneRound (application : Application Code Memory) (record : Memory → List Occurrence)
    (depth : Nat) (s : SourceId) (w : World Code Memory) (news : List Occurrence)
    (w' : World Code Memory) : Prop where
  record : record w'.memory = news ++ .telling s (w.audience application s) :: record w.memory
  passesOn : w.PassesOn news
  /-- Those that nobody else told reacted in the order of registration. -/
  order : KeepsTo (w.audience application s) news
  /-- Each of them had one turn, came to it as it was at the start, and reacted to what it found then. -/
  turn (id : WatcherId) : ¬ Summoned (.watcher id) news → .watcher id ∈ w.audience application s →
    ∃ u, w.TellsAt application depth s (.watcher id) u ∧ (u.watcher id).face = (w.watcher id).face ∧
      HasTurn application depth id u news
  /-- Those that nobody told did not react. -/
  untold (id : WatcherId) : ¬ Summoned (.watcher id) news → .watcher id ∉ w.audience application s →
    reactions id news = []

section Changes

variable {record : Memory → List Occurrence} {application : Application Code Memory}
  {w w' : World Code Memory}

theorem World.ListsOnce.oneRound (hlists : w.ListsOnce) (happ : application.LooksOn record) {depth : Nat}
    {s : SourceId} {r : Except Error Unit}
    (hrun : notify (reentry application depth) s w = some (r, w')) :
    ∃ news, w.OneRound application record depth s news w' := by
  obtain ⟨results, hround, -⟩ := notify_eq_some_iff.mp hrun
  obtain ⟨news, hkeeps, hpasses, hunrolls⟩ :=
    hround.cascades (cascades_updateSubscriber happ (cascades_notify happ depth))
  have hnodup : (w.audience application s).Nodup := (hlists s).filter _
  refine ⟨news, ?_, hpasses, hkeeps, fun id hsummoned hmem => ?_, fun id hsummoned hmem => ?_⟩
  · rw [hunrolls.record, (unrolls_telling happ.records w s).record]
    rfl
  · obtain ⟨u, hturn, hface, hturns⟩ := hround.hasTurn happ hnodup hunrolls hmem hsummoned
    rw [World.audience, ← World.liveSubscribers_eq_filter] at hturn
    exact ⟨u, hturn, hface, hturns⟩
  · exact reactions_eq_nil (hkeeps.not_mem hsummoned hmem)

/-! ### Writing a field -/

/-- An observed field was written and is about to tell its subscribers, while something is held. -/
def World.Written (w : World Code Memory) (object : ObjectId) (key : String) (value : Value)
    (s : SourceId) (u : World Code Memory) : Prop :=
  ∃ held held' : List Ref, u = { (({ w with held } : World Code Memory).putSlot object key
    (.field value (some s))).observe value with held := held' }

variable {object : ObjectId} {key : String} {old value : Value} {s : SourceId}

omit [Inhabited Code] in
/-- A field that is observed keeps its source when it is stored again. -/
theorem World.store_of_observed (hobserved : (w.object object).observed = true)
    (hslot : (w.object object).slot? key = some (.field old (some s))) (hnew : old.same value = false) :
    w.store object key value
      = (some s, (w.putSlot object key (.field value (some s))).observe value) := by
  simp [store, handover, arrive, sourceOrNew, hobserved, hslot, hnew]

namespace Engine

variable {r : Except Error Unit} {c : Reentry Code Memory}

omit [Inhabited Code] in
/-- Setting a field to another value is telling those that listen to it. -/
theorem set_tells {holder : ObjectId} {name : String}
    (hresolve : w.resolve object key = (holder, name))
    (hslot : (w.object holder).slot? name = some (.field old (some s))) (hnew : old.same value = false)
    (hrun : set c object key value w = some (r, w')) :
    ∃ u v, w.Written holder name value s u ∧ c.notify s u = some (r, v) ∧ w'.memory = v.memory := by
  unfold Engine.set at hrun
  rw [bind_of_run (a := w.resolve object key) rfl, hresolve] at hrun
  obtain ⟨v, hbody, rfl⟩ := run_of_keeping hrun
  rw [bind_of_run (a := (w.object holder).slot? name) rfl, hslot] at hbody
  simp only [writeSlot, hnew, Bool.false_eq_true, if_false] at hbody
  obtain ⟨v', hnotify, rfl⟩ := run_of_keeping (hbody : keeping (.object holder :: value.refs) (c.notify s) _ = _)
  exact ⟨_, v', ⟨_, _, rfl⟩, hnotify, rfl⟩

omit [Inhabited Code] in
/-- So is inserting it. -/
theorem insert_tells (hobserved : (w.object object).observed = true)
    (hslot : (w.object object).slot? key = some (.field old (some s))) (hnew : old.same value = false)
    (hrun : insert c object key value w = some (r, w')) :
    ∃ u v, w.Written object key value s u ∧ c.notify s u = some (r, v) ∧ w'.memory = v.memory := by
  obtain ⟨v, hbody, rfl⟩ := run_of_keeping hrun
  have hstore := World.store_of_observed (w := { w with held := [.object object] ++ w.held }) hobserved hslot
    hnew
  change tell c (World.store _ object key value).1 (World.store _ object key value).2 = _ at hbody
  rw [hstore] at hbody
  exact ⟨_, v, ⟨_, _, rfl⟩, hbody, rfl⟩

end Engine

/-! ### One change, one reaction -/

/-- Whatever is notified, and whatever is written to a field that is observed, leads to one round. -/
structure World.ReactsOnce (application : Application Code Memory) (record : Memory → List Occurrence)
    (depth : Nat) (w : World Code Memory) : Prop where
  notify (s : SourceId) (r : Except Error Unit) (w' : World Code Memory) :
    Engine.notify (reentry application depth) s w = some (r, w') →
      ∃ news, w.OneRound application record depth s news w'
  set (object holder : ObjectId) (key name : String) (old value : Value) (s : SourceId)
    (r : Except Error Unit) (w' : World Code Memory) : w.resolve object key = (holder, name) →
      (w.object holder).slot? name = some (.field old (some s)) → old.same value = false →
        Engine.set (reentry application (depth + 1)) object key value w = some (r, w') →
          ∃ u news, w.Written holder name value s u ∧ u.OneRound application record depth s news w'
  insert (object : ObjectId) (key : String) (old value : Value) (s : SourceId)
    (r : Except Error Unit) (w' : World Code Memory) : (w.object object).observed = true →
      (w.object object).slot? key = some (.field old (some s)) → old.same value = false →
        Engine.insert (reentry application (depth + 1)) object key value w = some (r, w') →
          ∃ u news, w.Written object key value s u ∧ u.OneRound application record depth s news w'

/-- Writing a field puts nobody on a list and takes nobody off. -/
theorem World.Written.builds {u : World Code Memory} (h : w.Written object key value s u) : w.Builds u := by
  obtain ⟨held, held', rfl⟩ := h
  have hput := (World.raises_putSlot { w with held } object key (.field value (some s))).toBuilds
  obtain ⟨hsources, htrackers, hwatchers, hdependencies, hmemory⟩ :=
    hput.trans (World.raises_observe _ value).toBuilds
  exact ⟨hsources, htrackers, hwatchers, hdependencies, hmemory⟩

/-- A field that was written leads to one round, wherever what is held by then is let go. -/
theorem World.ListsOnce.written {u v : World Code Memory} {depth : Nat} {r : Except Error Unit}
    (hlists : w.ListsOnce) (happ : application.LooksOn record) (hwritten : w.Written object key value s u)
    (hrun : notify (reentry application depth) s u = some (r, v)) (hmemory : w'.memory = v.memory) :
    ∃ u news, w.Written object key value s u ∧ u.OneRound application record depth s news w' := by
  have hu : u.ListsOnce := by
    intro t
    rw [hwritten.builds.sources]
    exact hlists t
  obtain ⟨news, hone⟩ := hu.oneRound happ hrun
  exact ⟨u, news, hwritten, { hone with record := (congrArg record hmemory).trans hone.record }⟩

theorem World.ListsOnce.reactsOnce (hlists : w.ListsOnce) (happ : application.LooksOn record)
    (depth : Nat) : w.ReactsOnce application record depth where
  notify s r w' := hlists.oneRound happ
  set object holder key name old value s r w' hresolve hslot hnew hrun := by
    obtain ⟨u, v, hwritten, hnotify, hmemory⟩ := set_tells hresolve hslot hnew hrun
    exact hlists.written happ hwritten hnotify hmemory
  insert object key old value s r w' hobserved hslot hnew hrun := by
    obtain ⟨u, v, hwritten, hnotify, hmemory⟩ := insert_tells hobserved hslot hnew hrun
    exact hlists.written happ hwritten hnotify hmemory

/--
One change, one reaction. Where getters only read and callbacks look on, at every moment of a run: a
value that is written to an observed field is told to those that listen to it. Each watcher that is told
by nobody else has one turn, and reacts once if what it finds in its turn is new to it; those that are
not told do not react. All this happens in the order of registration.
-/
theorem Engine.one_change_one_reaction {α : Type} (happ : application.LooksOn record)
    (program : Program Code Memory α) (memory : Memory) (depth : Nat) :
    Throughout (fun _ _ w => ∀ levels, w.ReactsOnce application record levels) application depth program
      { memory } := by
  refine (abides_listsOnce application _).throughout (i := ()) application.makes_true
    program.makes_true ?_ ?_
  · exact fun _ _ _ w hw levels => hw.reactsOnce happ levels
  · exact fun s => List.nodup_nil

theorem Application.looksOn_recorder : recorder.LooksOn id where
  records _ _ := rfl
  getters _ _ := .done _
  callback _ _ := trivial
  update _ := trivial

theorem Engine.one_change_one_reaction_lookout : Application.recorder.LooksOn id ∧
    Throughout (fun _ _ w => ∀ levels, w.ReactsOnce Application.recorder id levels) Application.recorder 3
      Program.lookout { memory := [] } :=
  ⟨Application.looksOn_recorder, one_change_one_reaction Application.looksOn_recorder Program.lookout [] 3⟩

end Changes

end LookingOn

end ViewBinding
