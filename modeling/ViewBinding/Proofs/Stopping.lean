import ViewBinding.Proofs.Mirroring
import ViewBinding.Proofs.Turns

/-!
# Where a path stops

A walk stops where a value has no properties, which is no fault of any getter on the way. So the value of a
walk is taken apart here: a step that fails where a getter fails, and that answers where the walk arrives or
the fault with which it stops. A read and a write walk the same parents, and each finds the segment that a fault
names in its own way.
-/

namespace ViewBinding

variable {Code Memory : Type}

/-- Nobody may be told of anything. -/
def Proviso.silent : Proviso Code Memory :=
  fun _ moment _ => ∀ source, moment ≠ .telling source

theorem Proviso.silent_lenient : (Proviso.silent : Proviso Code Memory).Lenient where
  acting _ _ := nofun
  asking _ _ _ := nofun

/-- The parents of a path lead to its last segment. -/
theorem Path.parents_concat (path : Path) : path.parents ++ [path.last] = path.segments :=
  List.dropLast_concat_getLast path.nonempty

variable [Inhabited Code]

namespace World

/-- The world with nobody evaluating on a tracker. -/
def paused (w : World Code Memory) : Option TrackerId → World Code Memory
  | none => w
  | some t => w.mapTracker t (·.push none)

/-- The world with the uppermost frame of a tracker taken off. -/
def resumed (w : World Code Memory) : Option TrackerId → World Code Memory
  | none => w
  | some t => w.mapTracker t (·.pop)

/-- Each of two worlds with the same face may be the one to start from. -/
theorem SameFace.symm {holds : Memory → List Ref} {start w v : World Code Memory} (h : SameFace holds start w v) :
    SameFace holds v v w where
  origin := .refl v
  data := h.data.symm
  computeds id := (h.computeds id).symm
  held id := (h.held id).symm
  holds id := (h.holds id).symm

/-- A write sees what a read sees, though nobody is evaluating and its value is kept alive. -/
theorem sameFace_paused (holds : Memory → List Ref) (w : World Code Memory) (reader : Option TrackerId)
    (value : Value) :
    SameFace holds w w { w.paused reader with held := value.refs ++ (w.paused reader).held } := by
  have hheld : ∀ id, Ref.viewModel id ∈ value.refs ++ w.held ↔ .viewModel id ∈ w.held := fun id => by
    simp [Engine.ReadingRules.refs_no_viewModel]
  cases reader with
  | none => exact ⟨.refl w, SameFace.data_congr (.refl w), fun _ => rfl, hheld, fun _ => .rfl⟩
  | some t => exact ⟨.refl w, SameFace.data_congr (.refl w), fun _ => rfl, hheld, fun _ => .rfl⟩

omit [Inhabited Code] in
theorem SameData.resumed {w v : World Code Memory} (h : w.SameData v) (held : List Ref) (reader : Option TrackerId) :
    w.SameData (({ v with held } : World Code Memory).resumed reader) := by
  cases reader <;> exact SameFace.data_congr h

end World

namespace Engine

omit [Inhabited Code] in
theorem framed_none {α : Type} (reader : Option TrackerId) (x : Engine Code Memory α) (w : World Code Memory) :
    framed reader none x w = (x (w.paused reader)).map fun p => (p.1, p.2.resumed reader) := by
  cases reader with
  | none => exact Option.map_id.symm ▸ rfl
  | some t => rfl

/-! ### Walks that fail where a getter fails -/

/-- Walks along segments as reading does. That the walk stops is an answer: the step fails where a getter fails. -/
def tread (c : Reentry Code Memory) (path : Path) (reader : Option TrackerId) :
    Option String → Value → List String → Engine Code Memory (Except Error Value)
  | _, value, [] => return .ok value
  | owner, value, segment :: rest =>
    match value with
    | .object object => do
      let next ← get c object segment reader
      tread c path reader (some segment) next rest
    | .array _ items => tread c path reader (some segment) (itemAt items segment) rest
    | other => return .error (path.faultAt (owner.getD segment) other)

section Treading

variable {c d : Reentry Code Memory} {path : Path} {reader : Option TrackerId}

theorem walk_eq_tread (owner : Option String) (value : Value) (segments : List String) :
    walk c path reader owner value segments = tread c path reader owner value segments >>= ofExcept := by
  induction segments generalizing owner value with
  | nil => rfl
  | cons segment rest inductionHypothesis =>
    cases value with
    | object object => simp only [walk, tread, bind_assoc, inductionHypothesis]
    | array id items => exact inductionHypothesis (some segment) (itemAt items segment)
    | _ => rfl

theorem tread_congr (happlication : d.application = c.application)
    (hgetter : ∀ id, runGetter d id = runGetter c id) (owner : Option String) (value : Value)
    (segments : List String) : tread d path reader owner value segments = tread c path reader owner value segments := by
  induction segments generalizing owner value with
  | nil => rfl
  | cons segment rest inductionHypothesis =>
    cases value with
    | object object => simp only [tread, get_congr happlication hgetter, inductionHypothesis]
    | array id items => exact inductionHypothesis (some segment) (itemAt items segment)
    | _ => rfl

/-- A walk along more segments goes on from where the first ones lead. -/
theorem tread_append (owner : Option String) (value : Value) (first rest : List String) :
    tread c path reader owner value (first ++ rest) = tread c path reader owner value first >>= fun
      | .ok next => tread c path reader (first.getLast?.or owner) next rest
      | .error fault => return .error fault := by
  induction first generalizing owner value with
  | nil => simp [tread]
  | cons segment first inductionHypothesis =>
    have howner : (segment :: first).getLast?.or owner = first.getLast?.or (some segment) := by
      rw [List.getLast?_cons]
      cases first.getLast? <;> rfl
    rw [howner]
    cases value with
    | object object => simp only [List.cons_append, tread, bind_assoc, inductionHypothesis]
    | array id items => exact inductionHypothesis (some segment) (itemAt items segment)
    | _ => simp [tread]

/-- What a read makes of the value that the parents lead to. -/
def arrive (c : Reentry Code Memory) (path : Path) (reader : Option TrackerId) :
    Except Error Value → Engine Code Memory (Except Error Value)
  | .ok (.object object) => do return .ok (← get c object path.last reader)
  | .ok (.array _ items) => return .ok (itemAt items path.last)
  | .ok other => return .error (path.faultAt (path.parents.getLastD path.last) other)
  | .error fault => return .error fault

/-- What a write makes of it. -/
def deposit (c : Reentry Code Memory) (path : Path) (value : Value) : Except Error Value → Engine Code Memory Unit
  | .ok (.object object) => set c object path.last value
  | .ok other => throw (path.faultAt (path.parents.getLastD path.last) other)
  | .error fault => throw fault

/-- The error with which a write stops where the parents have led to no object. -/
def stop? (path : Path) : Except Error (Except Error Value) → Option Error
  | .error error => some error
  | .ok (.error fault) => some fault
  | .ok (.ok (.object _)) => none
  | .ok (.ok other) => some (path.faultAt (path.parents.getLastD path.last) other)

omit [Inhabited Code] in
/-- What follows a step goes on with how it ended. -/
theorem bind_of_outcome {α β : Type} {x : Engine Code Memory α} {f : α → Engine Code Memory β} {r : Except Error α}
    {w w' : World Code Memory} (h : x w = some (r, w')) : (x >>= f) w = (ofExcept r >>= f) w' := by
  change (x w).bind (fun p => ExceptT.bindCont f p.1 p.2) = _
  rw [h]
  rfl

omit [Inhabited Code] in
theorem deposit_of_stop? {r : Except Error (Except Error Value)} {error : Error} (h : stop? path r = some error)
    (value : Value) (w : World Code Memory) :
    (ofExcept r >>= deposit c path value) w = some (.error error, w) := by
  match r with
  | .error _ | .ok (.error _) => cases h; rfl
  | .ok (.ok next) => cases next <;> cases h <;> rfl

/-- A read stops where a write does, save at an array. -/
theorem arrive_of_stop? {r : Except Error (Except Error Value)} {error : Error} (h : stop? path r = some error)
    (w : World Code Memory) :
    (ofExcept r >>= fun next => arrive c path reader next >>= ofExcept) w = some (.error error, w) ∨
      ∃ id items, r = .ok (.ok (.array id items)) := by
  match r with
  | .error _ | .ok (.error _) => cases h; exact .inl rfl
  | .ok (.ok (.array id items)) => exact .inr ⟨id, items, rfl⟩
  | .ok (.ok .undefined) | .ok (.ok .null) | .ok (.ok (.bool _)) | .ok (.ok (.number _)) | .ok (.ok (.string _))
  | .ok (.ok (.function _ _)) => cases h; exact .inl rfl

/-- Where a read stops, a write does. -/
theorem stop?_of_arrive {next : Except Error Value} {fault : Error} {w w' : World Code Memory}
    (h : arrive c path reader next w = some (.ok (.error fault), w')) : stop? path (.ok next) = some fault := by
  match next with
  | .error _ => cases h; rfl
  | .ok (.object object) =>
    obtain ⟨r, v, hget, hreturn⟩ := run_of_bind h
    cases r with
    | ok value => cases hreturn value rfl
    | error e =>
      rw [arrive, bind_of_error hget] at h
      cases h
  | .ok (.array _ _) => cases h
  | .ok .undefined | .ok .null | .ok (.bool _) | .ok (.number _) | .ok (.string _) | .ok (.function _ _) =>
    cases h
    rfl

theorem tread_segments (root : Value) : tread c path reader none root path.segments
    = tread c path reader none root path.parents >>= arrive c path reader := by
  rw [← path.parents_concat, tread_append]
  congr 1
  funext r
  cases r with
  | error fault => rfl
  | ok value =>
    have howner : (path.parents.getLast?.or none).getD path.last = path.parents.getLastD path.last := by
      rw [Option.or_none, List.getLastD_eq_getLast?]
    cases value <;> simp only [tread, arrive, howner]

theorem readPath_eq_tread (root : Value) : readPath c root path reader
    = tread c path reader none root path.segments >>= ofExcept :=
  walk_eq_tread none root path.segments

variable (happlication : d.application = c.application) (hgetter : ∀ id, runGetter d id = runGetter c id)

include happlication hgetter

/-- A write of an engine that reads as another one does. -/
theorem writePath_eq_tread (root value : Value) (w : World Code Memory) :
    writePath d root path value reader w
      = ((tread c path reader none root path.parents
            { w.paused reader with held := value.refs ++ (w.paused reader).held }).bind fun p =>
          (ofExcept p.1 >>= deposit d path value) { p.2 with held := w.held }).map
        fun p => (p.1, p.2.resumed reader) := by
  have hheld : (w.paused reader).held = w.held := by cases reader <;> rfl
  rw [writePath, framed_none, walk_eq_tread, tread_congr happlication hgetter]
  congr 1
  change (((tread c path reader none root path.parents _).bind fun p => ExceptT.bindCont ofExcept p.1 p.2).map
    fun p => (p.1, ({ p.2 with held := (w.paused reader).held } : World Code Memory))).bind _ = _
  rw [hheld]
  cases tread c path reader none root path.parents
      { w.paused reader with held := value.refs ++ w.held } with
  | none => rfl
  | some p =>
    obtain ⟨r, v⟩ := p
    match r with
    | .error error => rfl
    | .ok (.error fault) => rfl
    | .ok (.ok next) => cases next <;> rfl

end Treading

/-! ### A read and a write walk alike -/

section Alike

variable {application : Application Code Memory} {c d : Reentry Code Memory} {start : World Code Memory} {path : Path}

theorem parallel_tread
    (hget : ∀ object key reader other, Parallel (World.SameFace application.holds start) (get c object key reader)
      (get c object key other)) (reader other : Option TrackerId) (owner : Option String) (value : Value)
    (segments : List String) : Parallel (World.SameFace application.holds start)
      (tread c path reader owner value segments) (tread c path other owner value segments) := by
  induction segments generalizing owner value with
  | nil => exact Parallel.pure _
  | cons segment rest inductionHypothesis =>
    cases value with
    | object object =>
      exact (hget object segment reader other).bind fun next => inductionHypothesis (some segment) next
    | array id items => exact inductionHypothesis (some segment) (itemAt items segment)
    | _ => exact Parallel.pure _

end Alike

section Silence

variable {path : Path} {d : Reentry Code Memory}

omit [Inhabited Code] in
/-- Where nobody may be told, a write to an object fails only at what cannot be written. -/
theorem set_readOnly (hnotify : ∀ source w, d.notify source w = none) (object : ObjectId) (key : String) (value : Value)
    (w : World Code Memory) : Ends w (set d object key value) (set d object key value)
      fun r _ => ∀ e, r = .error e → ∃ name, e = .readOnly name := by
  have hdone : ∀ w : World Code Memory, Ends w (pure () : Engine Code Memory Unit) (pure ())
      fun r _ => ∀ e, r = .error e → ∃ name, e = .readOnly name := fun w => (ends_pure ()).mpr nofun
  have htell : ∀ source w, Ends w (d.notify source) (d.notify source)
      fun r _ => ∀ e, r = .error e → ∃ name, e = .readOnly name := by
    intro source w r w' h
    rw [hnotify] at h
    cases h
  rw [set, ends_inspect_bind]
  refine Ends.keeping (R := fun r _ => ∀ e, r = .error e → ∃ name, e = .readOnly name) _ ?_ fun _ _ h => h
  rw [ends_inspect_bind]
  generalize ((_ : World Code Memory).object _).slot? _ = slot
  rcases slot with _ | (⟨old, source⟩ | id | stored | ⟨target, name⟩)
  · rw [writeSlot, insert]
    refine Ends.keeping (R := fun r _ => ∀ e, r = .error e → ∃ name, e = .readOnly name) _ ?_ fun _ _ h => h
    rw [ends_create_bind]
    cases World.store _ _ _ _ with
    | mk source v =>
      cases source with
      | none => exact hdone v
      | some source => exact htell source v
  · simp only [writeSlot]
    cases old.same value with
    | true => exact hdone _
    | false =>
      refine (ends_update_bind _).mpr ?_
      cases source with
      | none => exact hdone _
      | some source => exact (ends_update_bind _).mpr (Ends.keeping _ (htell source _) fun _ _ h => h)
  all_goals exact (ends_throw _).mpr fun e he => by cases he; exact ⟨_, rfl⟩

omit [Inhabited Code] in
/-- A write that has told nobody and fails, not at what cannot be written, was stopped by its parents. -/
theorem stop?_of_deposit (hnotify : ∀ source w, d.notify source w = none) {r : Except Error (Except Error Value)}
    {value : Value} {error : Error} {w w' : World Code Memory} (herror : ∀ name, error ≠ .readOnly name)
    (h : (ofExcept r >>= deposit d path value) w = some (.error error, w')) : stop? path r = some error := by
  match r with
  | .error _ | .ok (.error _) => cases h; rfl
  | .ok (.ok (.object object)) =>
    obtain ⟨name, rfl⟩ := (set_readOnly hnotify object path.last value w _ _ h).2 error rfl
    exact absurd rfl (herror name)
  | .ok (.ok .undefined) | .ok (.ok .null) | .ok (.ok (.bool _)) | .ok (.ok (.number _)) | .ok (.ok (.string _))
  | .ok (.ok (.function _ _)) | .ok (.ok (.array _ _)) => cases h; rfl

end Silence

/-! ### Reads and writes fault alike -/

section Faults

variable {application : Application Code Memory}

theorem notify_silent (depth : Nat) (waiting : List Subscriber) (source : SourceId) (w : World Code Memory) :
    (reentryUnder .silent application depth waiting).notify source w = none := by
  cases depth with
  | zero => rfl
  | succ depth => exact if_neg fun h => h source rfl

/-- The write of a value, as it walks the parents of the path. -/
def approach (application : Application Code Memory) (depth : Nat) (root : Value) (path : Path) (value : Value)
    (reader : Option TrackerId) (w : World Code Memory) :
    Option (Except Error (Except Error Value) × World Code Memory) :=
  tread (reentry application depth) path reader none root path.parents
    { w.paused reader with held := value.refs ++ (w.paused reader).held }

variable (hquiet : ∀ o w, application.holds (application.notes o w) = application.holds w.memory)
  (hgetters : application.GettersRead) (depth : Nat) {w : World Code Memory} {root : Value} {path : Path}
  {value : Value} {reader writer : Option TrackerId} {r : Except Error (Except Error Value)}

include hgetters

/-- An engine that may tell nobody runs the same getters. -/
theorem silent_reentry :
    (reentryUnder .silent application depth []).application = (reentry application depth).application ∧
      ∀ id, runGetter (reentryUnder .silent application depth []) id = runGetter (reentry application depth) id :=
  ⟨(application_reentryUnder .silent depth []).trans (application_reentry application depth).symm,
    runGetter_reentryUnder Proviso.silent_lenient hgetters depth []⟩

/-- What a write comes to when its parents stop it, whether it may tell anybody or not. -/
theorem writePath_of_stop? {v : World Code Memory} {error : Error}
    (hrun : approach application depth root path value writer w = some (r, v)) (hstop : stop? path r = some error) :
    writePath (reentry application depth) root path value writer w
        = some (.error error, ({ v with held := w.held } : World Code Memory).resumed writer) ∧
      writePath (reentryUnder .silent application depth []) root path value writer w
        = some (.error error, ({ v with held := w.held } : World Code Memory).resumed writer) := by
  obtain ⟨happlication, hgetter⟩ := silent_reentry hgetters depth
  rw [writePath_eq_tread rfl (fun _ => rfl) root value w, writePath_eq_tread happlication hgetter root value w]
  change ((approach application depth root path value writer w).bind _).map _ = _
    ∧ ((approach application depth root path value writer w).bind _).map _ = _
  rw [hrun, Option.bind_some, Option.bind_some, deposit_of_stop? hstop, deposit_of_stop? hstop]
  exact ⟨rfl, rfl⟩

/-- A write that fails and has told nobody was stopped by its parents. -/
theorem approach_of_writePath {error : Error} {v' : World Code Memory} (herror : ∀ name, error ≠ .readOnly name)
    (h : writePath (reentryUnder .silent application depth []) root path value writer w = some (.error error, v')) :
    ∃ r v, approach application depth root path value writer w = some (r, v) ∧ stop? path r = some error := by
  obtain ⟨happlication, hgetter⟩ := silent_reentry hgetters depth
  rw [writePath_eq_tread happlication hgetter root value w] at h
  obtain ⟨⟨_, v₁⟩, hrun, heq⟩ := Option.map_eq_some_iff.mp h
  cases heq
  obtain ⟨⟨r, v⟩, htread, hdeposit⟩ := Option.bind_eq_some_iff.mp hrun
  exact ⟨r, v, htread, stop?_of_deposit (notify_silent depth []) herror hdeposit⟩

include hquiet

/-- A read walks the parents as a write does. -/
theorem parallel_parents (start : World Code Memory) :
    Parallel (World.SameFace application.holds start)
      (tread (reentry application depth) path reader none root path.parents)
      (tread (reentry application depth) path writer none root path.parents) :=
  parallel_tread
    (fun object key reader other => parallel_get_reentry hquiet hgetters start depth object key reader other) reader
    writer none root path.parents

/--
Reads and writes fault alike. If a read stops because a value on its path has no properties, then a write to the
path stops with the same fault; it changes no data, and nobody is told of anything. If a write stops with the fault of
a path although nobody has been told of anything, then it has changed no data, and a read stops with the same
fault, or else the parents lead to an array, and the fault says that the segment that gave the array, or the
only segment if the root is the array, is no object.
-/
theorem reads_and_writes_fault_alike (w : World Code Memory) (root : Value) (path : Path) (value : Value)
    (reader writer : Option TrackerId) :
    (∀ fault w', tread (reentry application depth) path reader none root path.segments w
          = some (.ok (.error fault), w') →
      readPath (reentry application depth) root path reader w = some (.error fault, w') ∧
      ∃ v, w.SameData v ∧
        writePath (reentry application depth) root path value writer w = some (.error fault, v) ∧
        writePath (reentryUnder .silent application depth []) root path value writer w = some (.error fault, v)) ∧
    (∀ expression segment fault v,
      writePath (reentryUnder .silent application depth []) root path value writer w
          = some (.error (.path expression segment fault), v) →
      w.SameData v ∧
      writePath (reentry application depth) root path value writer w
          = some (.error (.path expression segment fault), v) ∧
      ((∃ w', readPath (reentry application depth) root path reader w
            = some (.error (.path expression segment fault), w')) ∨
        (∃ id items w', walk (reentry application depth) path reader none root path.parents w
            = some (.ok (.array id items), w')) ∧
        expression = path.text ∧ segment = path.parents.getLastD path.last ∧ fault = .notAnObject)) := by
  have hsame := World.sameFace_paused application.holds w writer value
  constructor
  · intro fault w' hread
    have hends : readPath (reentry application depth) root path reader w = some (.error fault, w') := by
      rw [readPath_eq_tread, bind_of_run hread]
      rfl
    rw [tread_segments] at hread
    obtain ⟨r, w₁, htread, harrive⟩ := run_of_bind hread
    have hstop : stop? path r = some fault := by
      cases r with
      | ok next => exact stop?_of_arrive (harrive next rfl)
      | error error =>
        rw [bind_of_error htread] at hread
        cases hread
    obtain ⟨v₁, hrun, hsame'⟩ := parallel_parents hquiet hgetters depth w w _ hsame r w₁ htread
    exact ⟨hends, _, (hsame'.origin.trans hsame'.data).resumed w.held writer,
      writePath_of_stop? hgetters depth hrun hstop⟩
  · intro expression segment fault v hwrite
    have herror : ∀ name, Error.path expression segment fault ≠ .readOnly name := nofun
    obtain ⟨r, v₁, hrun, hstop⟩ := approach_of_writePath hgetters depth herror hwrite
    obtain ⟨hplain, hsilent⟩ := writePath_of_stop? hgetters depth hrun hstop
    obtain ⟨w₁, htread, hsame'⟩ := parallel_parents hquiet hgetters depth _ _ w hsame.symm r v₁ hrun
    obtain rfl := (Prod.mk.inj (Option.some.inj (hwrite.symm.trans hsilent))).2
    refine ⟨(hsame.data.trans hsame'.origin).resumed w.held writer, hplain, ?_⟩
    rcases arrive_of_stop? (c := reentry application depth) (r := r) hstop w₁ with harrive | ⟨id, items, rfl⟩
    · refine .inl ⟨w₁, ?_⟩
      rw [readPath_eq_tread, tread_segments, bind_assoc, bind_of_outcome htread]
      exact harrive
    · cases hstop
      refine .inr ⟨⟨id, items, w₁, ?_⟩, rfl, rfl, rfl⟩
      rw [walk_eq_tread, bind_of_outcome htread]
      rfl

end Faults

end Engine

/-! ### A getter that reads a list -/

/-- An object with a list of one text, and a computed property that a getter reads from it. -/
def World.pantry : World Unit Unit where
  objects := ⟨#[{ slots := .ofList [("shelf", .field (.array ⟨0⟩ [.string "jam"]) none), ("list", .computed ⟨0⟩)] }]⟩
  arrays := ⟨#[[.string "jam"]]⟩
  trackers := ⟨#[{}]⟩
  sources := ⟨#[{}]⟩
  computeds := ⟨#[{ name := "list", tracker := ⟨0⟩, memoize := true, getter := .free (), source := ⟨0⟩ }]⟩
  memory := ()

/-- An embedder whose getters read the list, and which does nothing else. -/
def Application.lister : Application Unit Unit where
  holds _ := []
  callback _ _ := .done ()
  method _ _ _ := .done ()
  listener _ _ := .done ()
  getter _ _ := Program.request (.get ⟨0⟩ "shelf" (some ⟨0⟩))
  update _ := .done ()
  install _ _ _ _ := .fail .detached

theorem Application.gettersRead_lister : lister.GettersRead :=
  fun _ _ => .ask (.get trivial) fun
    | .ok value => .done value
    | .error error => .fail error

/-- The fault with which a walk stopped. -/
def Engine.fault? : Option (Except Error (Except Error Value) × World Unit Unit) → Option (String × String × PathFault)
  | some (.ok (.error (.path expression segment fault)), _) => some (expression, segment, fault)
  | _ => none

theorem Engine.stopped_of_fault? {x : Option (Except Error (Except Error Value) × World Unit Unit)}
    {expression segment : String} {fault : PathFault} (h : fault? x = some (expression, segment, fault)) :
    ∃ w', x = some (.ok (.error (.path expression segment fault)), w') := by
  unfold fault? at h
  split at h
  · next w' =>
    cases h
    exact ⟨w', rfl⟩
  · cases h

/-- Reading and writing below an item that is not there stop at the index, after the list has been made. -/
theorem Engine.reads_and_writes_fault_alike_pantry :
    let path : Path := ⟨["list", "7", "x"], by decide, by decide⟩
    let fault := Error.path "list.7.x" "7" .missing
    Application.lister.GettersRead ∧
      ∃ w' v, readPath (reentry Application.lister 2) (.object ⟨0⟩) path none World.pantry = some (.error fault, w') ∧
        writePath (reentryUnder .silent Application.lister 2 []) (.object ⟨0⟩) path .null (some ⟨0⟩) World.pantry
          = some (.error fault, v) ∧
        writePath (reentry Application.lister 2) (.object ⟨0⟩) path .null (some ⟨0⟩) World.pantry
          = some (.error fault, v) ∧ World.pantry.SameData v := by
  intro path fault
  obtain ⟨hreads, hwrites⟩ := reads_and_writes_fault_alike (fun _ _ => rfl) Application.gettersRead_lister 2
    World.pantry (.object ⟨0⟩) path .null none (some ⟨0⟩)
  obtain ⟨w', hstopped⟩ := stopped_of_fault? (x := tread (reentry Application.lister 2) path none none (.object ⟨0⟩)
    path.segments World.pantry) (show _ = some ("list.7.x", "7", .missing) by decide +kernel)
  obtain ⟨hread, v, -, -, hsilent⟩ := hreads _ w' hstopped
  obtain ⟨hsame, hplain, -⟩ := hwrites _ _ _ v hsilent
  exact ⟨Application.gettersRead_lister, w', v, hread, hsilent, hplain, hsame⟩

end ViewBinding
