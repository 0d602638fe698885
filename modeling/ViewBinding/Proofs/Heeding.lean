import ViewBinding.Proofs.Listing
import ViewBinding.Proofs.Shifting
import ViewBinding.Proofs.Upkeep

/-!
# Heeding changes

The invariant of freshness: the books of everybody in the realm agree, what is kept is covered by its
list and alike to what there is from scratch, and so is what a watcher knows. Those that wait to be told
of a change are left out.
-/

namespace ViewBinding

open Engine World

variable {Code Memory : Type} [Inhabited Code]

/-- How often a subscriber has evaluated with success since it was last told of a change. The last
occurrence comes first. -/
def successes (x : Subscriber) : List Occurrence → Nat
  | [] => 0
  | .updating y :: earlier => if y = x then 0 else successes x earlier
  | .evaluated y true :: earlier => if y = x then successes x earlier + 1 else successes x earlier
  | _ :: earlier => successes x earlier

/-- Ever since it was told of a change, a subscriber has succeeded at most once before it was told again,
and not since it was told last if its value is not known. -/
structure Once (x : Subscriber) (unknown : Prop) (l : List Occurrence) : Prop where
  frugal : ∀ l', l' <:+ l → successes x l' ≤ 1
  none : unknown → successes x l = 0

section Once

variable {x : Subscriber} {unknown unknown' : Prop} {occurrence : Occurrence} {l : List Occurrence}

theorem successes_cons (h : occurrence ≠ .updating x ∧ occurrence ≠ .evaluated x true) :
    successes x (occurrence :: l) = successes x l := by
  cases occurrence with
  | updating y => exact if_neg fun hy => h.1 (by rw [hy])
  | evaluated y succeeded =>
    cases succeeded with
    | true => exact if_neg fun hy => h.2 (by rw [hy])
    | false => rfl
  | _ => rfl

theorem once_nil : Once x unknown [] :=
  ⟨fun _ hl => by simp [List.suffix_nil.mp hl, successes], fun _ => rfl⟩

theorem Once.mono (h : Once x unknown l) (hunknown : unknown' → unknown) : Once x unknown' l :=
  ⟨h.frugal, fun hyes => h.none (hunknown hyes)⟩

theorem Once.step (h : Once x unknown l) (hle : successes x (occurrence :: l) ≤ 1)
    (hnone : unknown' → successes x (occurrence :: l) = 0) : Once x unknown' (occurrence :: l) := by
  refine ⟨fun l' hl' => ?_, hnone⟩
  rcases List.suffix_cons_iff.mp hl' with rfl | hl'
  · exact hle
  · exact h.frugal l' hl'

/-- What is neither a success nor a change it is told of does not count. -/
theorem Once.cons (h : Once x unknown l)
    (hminor : occurrence ≠ .updating x ∧ occurrence ≠ .evaluated x true) :
    Once x unknown (occurrence :: l) := by
  have hcount := successes_cons (l := l) hminor
  refine h.step ?_ fun hyes => ?_
  · rw [hcount]
    exact h.frugal l (List.suffix_refl l)
  · rw [hcount]
    exact h.none hyes

theorem Once.updating (h : Once x unknown l) : Once x unknown' (.updating x :: l) :=
  h.step (by simp [successes]) fun _ => by simp [successes]

/-- A subscriber whose value is not known may succeed. -/
theorem Once.succeed (h : Once x True l) : Once x False (.evaluated x true :: l) :=
  h.step (by simp [successes, h.none trivial]) False.elim

end Once

/-- Proxies stand for properties of older objects, and computed properties have been made. -/
structure World.Wired (w : World Code Memory) : Prop where
  proxy : ∀ object key target name,
    (w.object object).slot? key = some (.proxy target name) → Key.index target < Key.index object
  computed : ∀ object key id,
    (w.object object).slot? key = some (.computed id) → Key.index id < w.computeds.size

omit [Inhabited Code] in
theorem World.resolve_congr {w w' : World Code Memory} (hsize : w'.objects.size = w.objects.size)
    (hslots : ∀ id, (w'.object id).slots = (w.object id).slots) (object : ObjectId) (key : String) :
    w'.resolve object key = w.resolve object key := by
  rw [resolve, resolve, hsize, follow_congr hslots]

omit [Inhabited Code] in
theorem World.hears_congr {w w' : World Code Memory} (h : w'.objects = w.objects) (object : ObjectId)
    (key : String) : w'.hears object key = w.hears object key := by
  have hobject : ∀ id, w'.object id = w.object id := fun id => by rw [World.object, h, World.object]
  have hresolve : w'.resolve object key = w.resolve object key :=
    resolve_congr (by rw [h]) (fun id => by rw [hobject]) object key
  rw [hears, hresolve, hearer, hobject]
  rfl

namespace Realm

/-- What a watcher asks for. -/
def path (w : World Code Memory) (id : WatcherId) : Query Value :=
  Query.path (w.watcher id).root (w.watcher id).path

/-- A watcher on the tracker of the realm that is told of changes. -/
structure Tuned (k : Realm Code Memory) (w : World Code Memory) (id : WatcherId) : Prop where
  home : (w.watcher id).tracker = k.home
  lives : (w.watcher id).disposed = false
  kept : (Trail.ofHistory (.watcher id) (k.record w.memory)).dropped = false

/-- One that is neither waiting nor evaluating, and whose path can be heard of. -/
structure Awake (k : Realm Code Memory) (late : Subscriber → Prop) (w : World Code Memory)
    (id : WatcherId) : Prop extends k.Tuned w id where
  prompt : ¬ late (.watcher id)
  idle : ¬ w.Evaluates (.watcher id)
  heard : (k.afresh w).Along w.Heard (path w id)

/-- The list of a watcher covers its path, and it knows the value. -/
structure Knows (k : Realm Code Memory) (late : ComputedId → Prop) (w : World Code Memory)
    (id : WatcherId) : Prop where
  covers : k.Covers late w (w.dependencies (.watcher id)).current (path w id)
  fresh : ∀ value, (k.scratch late w).Gives (path w id) (.ok value) → (w.watcher id).cached.Agrees value

/-- The list of a memoized property covers what its getter asks for, and the value is the one there is
from scratch. -/
structure Settled (k : Realm Code Memory) (late : ComputedId → Prop) (w : World Code Memory)
    (id : ComputedId) (value : Value) : Prop where
  covers : k.Covers late w (w.dependencies (.computed id)).current (k.query w id)
  fresh : ∀ r, (k.scratch late w).Gives (k.query w id) r → AlikeAnswers r (.ok value)

/-- The computed properties among the subscribers that wait. -/
abbrev properties (late : Subscriber → Prop) (id : ComputedId) : Prop :=
  late (.computed id)

/-- Everybody in the realm who does not wait has heard of every change. -/
structure Heeds (k : Realm Code Memory) (late : Subscriber → Prop) (w : World Code Memory) : Prop where
  books : ∀ x, k.Has x → (w.page k.record x).Agrees (w.Evaluates x)
  undropped : ∀ id, k.computed id →
    (Trail.ofHistory (.computed id) (k.record w.memory)).dropped = false
  kept : ∀ id value, k.Scope w id → (w.computed id).known? = some value → ¬ late (.computed id) →
    k.Settled (properties late) w id value
  knows : k.watchers → ∀ id, k.Awake late w id → k.Knows (properties late) w id
  once : ∀ id, k.computed id → Once (.computed id) ((w.computed id).cache = none) (k.record w.memory)
  wired : w.Wired
  made : ∀ id, w.Evaluates (.computed id) → Key.index id < w.computeds.size

theorem Heeds.keptAlike {k : Realm Code Memory} {late : Subscriber → Prop} {w : World Code Memory}
    (h : k.Heeds late w) : k.KeptAlike (properties late) w :=
  fun id value hid hknown hlate => (h.kept id value hid hknown hlate).fresh

/-! ### Steps that take nothing away -/

/-- Readers find the same as before, and what was covered still is. -/
structure Onward (k : Realm Code Memory) (late : ComputedId → Prop) (w w' : World Code Memory) :
    Prop where
  quiet : k.Quiet w w'
  heard : w'.Heard = w.Heard
  covers : ∀ l q, k.Covers late w l q → k.Covers late w' l q
  lists : ∀ id, k.Scope w id →
    k.Covers late w (w.dependencies (.computed id)).current (k.query w id) →
      k.Covers late w' (w'.dependencies (.computed id)).current (k.query w id)

section Onward

variable {k : Realm Code Memory} {late : Subscriber → Prop} {waits : ComputedId → Prop}
  {w w₁ w' : World Code Memory} {id : ComputedId}

theorem Onward.refl (w : World Code Memory) : k.Onward waits w w :=
  ⟨.refl w, rfl, fun _ _ h => h, fun _ _ h => h⟩

theorem Onward.trans (h : k.Onward waits w w₁) (h' : k.Onward waits w₁ w') :
    k.Onward waits w w' where
  quiet := h.quiet.trans h'.quiet
  heard := h'.heard.trans h.heard
  covers l q hl := h'.covers l q (h.covers l q hl)
  lists id hid hl := by
    have hlists := h'.lists id ((h.quiet.scope id).mpr hid)
    rw [h.quiet.query] at hlists
    exact hlists (h.lists id hid hl)

/-- A step that replaces lists by others that cover the same. -/
theorem Quiet.onward (h : k.Quiet w w') (hheard : w'.Heard = w.Heard)
    (hlists : ∀ id, k.Scope w id →
      (w'.dependencies (.computed id)).current = (w.dependencies (.computed id)).current ∨
        k.Covers waits w (w'.dependencies (.computed id)).current (k.query w id)) :
    k.Onward waits w w' where
  quiet := h
  heard := hheard
  covers _ _ hcovers := hcovers.relist h hlists
  lists id hid hcovers := by
    rcases hlists id hid with hsame | hnew
    · rw [hsame]
      exact hcovers.relist h hlists
    · exact hnew.relist h hlists

theorem Onward.noted (h : k.Onward waits w w') {l l' : List SourceId} (hl : ∀ s ∈ l, s ∈ l')
    {what : Ask} (hnoted : k.Noted waits w l what) : k.Noted waits w' l' what :=
  h.quiet.noted (fun _ hw => h.heard ▸ hw) h.covers h.lists hl hnoted

theorem Onward.settled (h : k.Onward waits w w') (hid : k.Scope w id) {value : Value}
    (hsettled : k.Settled waits w id value) : k.Settled waits w' id value where
  covers := by
    rw [h.quiet.query]
    exact h.lists id hid hsettled.covers
  fresh r hr := by
    rw [h.quiet.scratch, h.quiet.query] at hr
    exact hsettled.fresh r hr

omit [Inhabited Code] in
theorem path_congr {id : WatcherId} (h : (w'.watcher id).face = (w.watcher id).face) :
    path w' id = path w id := by
  obtain ⟨-, hroot, hpath, -⟩ := Watcher.fields_eq_of_face_eq h
  rw [path, hroot, hpath, path]

theorem Onward.knows (h : k.Onward waits w w') {id : WatcherId}
    (hface : (w'.watcher id).face = (w.watcher id).face)
    (hlist : (w'.dependencies (.watcher id)).current = (w.dependencies (.watcher id)).current)
    (hknows : k.Knows waits w id) : k.Knows waits w' id where
  covers := by
    rw [hlist, path_congr hface]
    exact h.covers _ _ hknows.covers
  fresh value hvalue := by
    rw [h.quiet.scratch, path_congr hface] at hvalue
    rw [(Watcher.fields_eq_of_face_eq hface).2.2.2.1]
    exact hknows.fresh value hvalue

omit [Inhabited Code] in
theorem tuned_congr {id : WatcherId} (hface : (w'.watcher id).face = (w.watcher id).face)
    (hdropped : (Trail.ofHistory (.watcher id) (k.record w'.memory)).dropped
      = (Trail.ofHistory (.watcher id) (k.record w.memory)).dropped) (h : k.Tuned w' id) :
    k.Tuned w id := by
  obtain ⟨htracker, -, -, -, hdisposed⟩ := Watcher.fields_eq_of_face_eq hface
  exact ⟨htracker.symm.trans h.home, hdisposed.symm.trans h.lives, hdropped.symm.trans h.kept⟩

theorem Onward.heard_path (h : k.Onward waits w w') {id : WatcherId}
    (hface : (w'.watcher id).face = (w.watcher id).face) :
    (k.afresh w').Along w'.Heard (path w' id) ↔ (k.afresh w).Along w.Heard (path w id) := by
  rw [h.quiet.afresh, h.heard, path_congr hface]

/-- Whoever was awake after such a step was so before. -/
theorem Onward.awake (h : k.Onward waits w w') {id : WatcherId}
    (hface : (w'.watcher id).face = (w.watcher id).face)
    (hdropped : (Trail.ofHistory (.watcher id) (k.record w'.memory)).dropped
      = (Trail.ofHistory (.watcher id) (k.record w.memory)).dropped)
    (hidle : w.Evaluates (.watcher id) → w'.Evaluates (.watcher id))
    (hawake : k.Awake late w' id) : k.Awake late w id :=
  ⟨tuned_congr hface hdropped hawake.toTuned, hawake.prompt, fun hw => hawake.idle (hidle hw),
    (h.heard_path hface).mp hawake.heard⟩

/-- Everybody heeds as before if the books agree, and if what has come to be kept is settled. Watchers that
wait may be anything. -/
theorem Heeds.onward (h : k.Heeds late w) (ho : k.Onward (properties late) w w')
    (hbooks : ∀ x, k.Has x → (w'.page k.record x).Agrees (w'.Evaluates x))
    (hdropped : ∀ x, k.Has x → (Trail.ofHistory x (k.record w'.memory)).dropped
      = (Trail.ofHistory x (k.record w.memory)).dropped)
    (hkept : ∀ id value, k.Scope w id → (w'.computed id).known? = some value →
      (w.computed id).known? = some value ∨ k.Settled (properties late) w' id value)
    (hwatchers : k.watchers → ∀ id, ¬ late (.watcher id) → (w'.watcher id).face = (w.watcher id).face ∧
      (w'.dependencies (.watcher id)).current = (w.dependencies (.watcher id)).current)
    (hidle : k.watchers → ∀ id, ¬ late (.watcher id) →
      w.Evaluates (.watcher id) → w'.Evaluates (.watcher id))
    (honce : ∀ id, k.computed id →
      Once (.computed id) ((w'.computed id).cache = none) (k.record w'.memory))
    (hwired : w'.Wired)
    (hmade : ∀ id, w'.Evaluates (.computed id) →
      w.Evaluates (.computed id) ∨ Key.index id < w.computeds.size) : k.Heeds late w' where
  books := hbooks
  undropped id hid := (hdropped (.computed id) hid).trans (h.undropped id hid)
  kept id value hid hknown hlate := by
    have hid' := (ho.quiet.scope id).mp hid
    rcases hkept id value hid' hknown with hold | hnew
    · exact ho.settled hid' (h.kept id value hid' hold hlate)
    · exact hnew
  knows hw id hawake := by
    obtain ⟨hface, hlist⟩ := hwatchers hw id hawake.prompt
    exact ho.knows hface hlist
      (h.knows hw id (ho.awake hface (hdropped (.watcher id) hw) (hidle hw id hawake.prompt) hawake))
  once := honce
  wired := hwired
  made id hid := by
    rw [ho.quiet.size]
    exact (hmade id hid).elim (h.made id) fun hlt => hlt

end Onward

/-! ### Steps that readers do not notice -/

/-- Nothing has changed that readers find, nor what anybody in the realm keeps and listens to. -/
structure Passes (k : Realm Code Memory) (w w' : World Code Memory) : Prop where
  objects : w'.objects.size = w.objects.size
  slots : ∀ id, (w'.object id).slots = (w.object id).slots
  observed : ∀ id, (w'.object id).observed = (w.object id).observed
  viewModels : ∀ owner, (w'.viewModel owner).face = (w.viewModel owner).face
  owners : w.viewModels.size ≤ w'.viewModels.size
  hears : ∀ object key s, w.hears object key = some s → w'.hears object key = some s
  size : w'.computeds.size = w.computeds.size
  bases : ∀ id, (w'.computed id).base = (w.computed id).base
  caches : ∀ id, k.computed id → (w'.computed id).cache = (w.computed id).cache
  lists : ∀ x, k.Has x → (w'.dependencies x).current = (w.dependencies x).current
  faces : k.watchers → ∀ id, (w'.watcher id).face = (w.watcher id).face
  dropped : ∀ x, k.Has x → (Trail.ofHistory x (k.record w'.memory)).dropped
    = (Trail.ofHistory x (k.record w.memory)).dropped
  once : ∀ id, k.computed id → ∀ unknown, Once (.computed id) unknown (k.record w.memory) →
    Once (.computed id) unknown (k.record w'.memory)

variable {k : Realm Code Memory} {late : Subscriber → Prop} {waits : ComputedId → Prop}
  {w w₁ w' : World Code Memory} {x y : Subscriber} {id : ComputedId}

theorem Passes.refl (w : World Code Memory) : k.Passes w w :=
  ⟨rfl, fun _ => rfl, fun _ => rfl, fun _ => rfl, Nat.le_refl _, fun _ _ _ h => h, rfl, fun _ => rfl,
    fun _ _ => rfl, fun _ _ => rfl, fun _ _ => rfl, fun _ _ => rfl, fun _ _ _ h => h⟩

theorem Passes.trans (h : k.Passes w w₁) (h' : k.Passes w₁ w') : k.Passes w w' where
  objects := h'.objects.trans h.objects
  slots id := (h'.slots id).trans (h.slots id)
  observed id := (h'.observed id).trans (h.observed id)
  viewModels owner := (h'.viewModels owner).trans (h.viewModels owner)
  owners := Nat.le_trans h.owners h'.owners
  hears object key s hs := h'.hears object key s (h.hears object key s hs)
  size := h'.size.trans h.size
  bases id := (h'.bases id).trans (h.bases id)
  caches id hid := (h'.caches id hid).trans (h.caches id hid)
  lists x hx := (h'.lists x hx).trans (h.lists x hx)
  faces hw id := (h'.faces hw id).trans (h.faces hw id)
  dropped x hx := (h'.dropped x hx).trans (h.dropped x hx)
  once id hid unknown hw := h'.once id hid unknown (h.once id hid unknown hw)

theorem Passes.slotAt (h : k.Passes w w') (object : ObjectId) (key : String) :
    w'.slotAt object key = w.slotAt object key := by
  rw [World.slotAt, World.resolve_congr h.objects h.slots, Object.slot?, h.slots, World.slotAt,
    Object.slot?]

theorem Passes.quiet (h : k.Passes w w') : k.Quiet w w' where
  slots := h.slotAt
  hears := h.hears
  size := h.size
  memoize id := Computed.memoize_eq_of_base_eq (h.bases id)
  source id := Computed.source_eq_of_base_eq (h.bases id)
  query id := query_congr (Computed.getter_eq_of_base_eq (h.bases id)) fun owner _ =>
    (congrArg ViewModel.root (h.viewModels owner) :)

theorem Passes.heard (h : k.Passes w w') : w'.Heard = w.Heard := by
  funext what
  cases what with
  | computed id => rfl
  | property object key =>
    simp only [World.Heard, h.slotAt, h.observed, World.resolve_congr h.objects h.slots]

theorem Passes.onward (h : k.Passes w w') : k.Onward waits w w' :=
  h.quiet.onward h.heard fun id hid => Or.inl (h.lists (.computed id) hid.1)

theorem Passes.wired (h : k.Passes w w') (hw : w.Wired) : w'.Wired := by
  constructor
  · intro object key target name hslot
    rw [Object.slot?, h.slots] at hslot
    exact hw.proxy object key target name hslot
  · intro object key id hslot
    rw [Object.slot?, h.slots] at hslot
    rw [h.size]
    exact hw.computed object key id hslot

/-- A step that readers do not notice keeps everybody heeding if the books agree after it. -/
theorem Heeds.pass (h : k.Heeds late w) (hp : k.Passes w w')
    (hbooks : ∀ x, k.Has x → (w'.page k.record x).Agrees (w'.Evaluates x))
    (hidle : k.watchers → ∀ id, w.Evaluates (.watcher id) → w'.Evaluates (.watcher id))
    (hmade : ∀ id, w'.Evaluates (.computed id) →
      w.Evaluates (.computed id) ∨ Key.index id < w.computeds.size) : k.Heeds late w' := by
  refine h.onward hp.onward hbooks hp.dropped ?_ ?_ (fun hw id _ => hidle hw id) ?_ (hp.wired h.wired) hmade
  · intro id value hid hknown
    rw [Computed.known?, hp.caches id hid.1, hp.quiet.memoize] at hknown
    exact Or.inl hknown
  · exact fun hw id _ => ⟨hp.faces hw id, hp.lists (.watcher id) hw⟩
  · intro id hid
    rw [hp.caches id hid]
    exact hp.once id hid _ (h.once id hid)

/-- A step that nobody in the realm has to do with. -/
theorem Heeds.unmoved (h : k.Heeds late w) (hp : k.Passes w w')
    (hu : ∀ x, k.Has x → Unmoved k.record x w w')
    (hmade : ∀ id, w'.Evaluates (.computed id) →
      w.Evaluates (.computed id) ∨ Key.index id < w.computeds.size) : k.Heeds late w' := by
  refine h.pass hp (fun x hx => ?_) (fun hw id => ((hu (.watcher id) hw).evaluates).mpr) hmade
  rw [(hu x hx).page, (hu x hx).evaluates]
  exact h.books x hx

/-! ### Which steps these are -/

/-- Only tables that readers have nothing to do with were written. -/
theorem passes_of_eq (hobjects : w'.objects = w.objects) (hviewModels : w'.viewModels = w.viewModels)
    (hcomputeds : w'.computeds = w.computeds) (hwatchers : w'.watchers = w.watchers)
    (hrecord : k.record w'.memory = k.record w.memory) : k.Passes w w' := by
  have hobject : ∀ id, w'.object id = w.object id := fun id => by rw [object, hobjects, object]
  have hcomputed : ∀ id, w'.computed id = w.computed id := fun id => by
    rw [World.computed, hcomputeds, World.computed]
  refine ⟨by rw [hobjects], fun id => by rw [hobject], fun id => by rw [hobject], ?_,
    Nat.le_of_eq (by rw [hviewModels]), ?_, by rw [hcomputeds], fun id => by rw [hcomputed],
    fun id _ => by rw [hcomputed], ?_, ?_, ?_, ?_⟩
  · intro owner
    rw [viewModel, hviewModels, viewModel]
  · intro object key s hs
    rw [hears_congr hobjects]
    exact hs
  · intro x _
    rw [dependencies_congr hwatchers hcomputeds]
  · intro _ id
    rw [watcher, hwatchers, watcher]
  · intro x _
    rw [hrecord]
  · intro id _ unknown h
    rw [hrecord]
    exact h

theorem passes_fringe (h : w.Fringe w') : k.Passes w w' := by
  have hsame : k.Passes w { w' with viewModels := w.viewModels } :=
    passes_of_eq h.objects rfl h.computeds h.watchers (congrArg k.record h.memory)
  refine ⟨hsame.objects, hsame.slots, hsame.observed, h.viewModels, h.size, fun object key s hs => ?_,
    hsame.size, hsame.bases, hsame.caches, hsame.lists, hsame.faces, hsame.dropped, hsame.once⟩
  rw [hears_congr h.objects]
  exact hs

/-- What a subscriber keeps of an evaluation under way. -/
theorem passes_mapDependencies (w : World Code Memory) (y : Subscriber)
    {f : Dependencies → Dependencies}
    (hf : k.Has y → (f (w.dependencies y)).current = (w.dependencies y).current)
    (hmade : ∀ id, y = .computed id → Key.index id < w.computeds.size) :
    k.Passes w (w.mapDependencies y f) := by
  have hlists : (∀ id, y ≠ .probe id) → ∀ x, k.Has x →
      ((w.mapDependencies y f).dependencies x).current = (w.dependencies x).current := by
    intro hy x hx
    rw [dependencies_mapDependencies _ _ _ _ (Or.inr hy)]
    split
    · next hxy =>
      subst hxy
      exact hf hx
    · rfl
  have hhears : ∀ object key s, w.hears object key = some s →
      (w.mapDependencies y f).hears object key = some s := by
    intro object key s hs
    rw [hears_congr (by cases y <;> rfl)]
    exact hs
  cases y with
  | probe id => exact .refl w
  | watcher id =>
    refine ⟨rfl, fun _ => rfl, fun _ => rfl, fun _ => rfl, Nat.le_refl _, hhears, rfl, fun _ => rfl,
      fun _ _ => rfl, hlists (fun _ => Subscriber.noConfusion), fun _ j => ?_, fun _ _ => rfl,
      fun _ _ _ h => h⟩
    exact (aside_mapDependencies w (.watcher id) f :
      Aside (fun _ : Memory => []) w (w.mapDependencies (.watcher id) f)).watchers j
  | computed id =>
    have hface := (aside_mapDependencies w (.computed id) f :
      Aside (fun _ : Memory => []) w (w.mapDependencies (.computed id) f)).computeds
    refine ⟨rfl, fun _ => rfl, fun _ => rfl, fun _ => rfl, Nat.le_refl _, hhears, ?_, fun j => ?_, ?_,
      hlists (fun _ => Subscriber.noConfusion), fun _ _ => rfl, fun _ _ => rfl, fun _ _ _ h => h⟩
    · exact Table.size_modify_of_lt _ (hmade id rfl) _
    · exact Computed.base_eq_of_face_eq (hface j)
    · exact fun j _ => Computed.cache_eq_of_face_eq (hface j)

end Realm

/-- Only a source that tells its subscribers drops one. -/
theorem Trail.dropped_step (x : Subscriber) (t : Trail) {occurrence : Occurrence}
    (h : ∀ source live, occurrence ≠ .telling source live) :
    (t.step x occurrence).dropped = t.dropped := by
  cases occurrence with
  | telling source live => exact absurd rfl (h source live)
  | evaluated y succeeded => cases succeeded <;> simp only [Trail.step] <;> split <;> rfl
  | evaluating y => simp only [Trail.step]; split <;> rfl
  | tracked y source => simp only [Trail.step]; split <;> rfl
  | _ => rfl

namespace Realm

variable {k : Realm Code Memory} {late late' : Subscriber → Prop} {w w₁ w' : World Code Memory}
  {x y : Subscriber} {id : ComputedId}

/-- An embedder that keeps the record, and holds what it holds whatever it takes note of. -/
structure Lawful (k : Realm Code Memory) : Prop where
  records : k.application.Records k.record
  quiet : ∀ o w, k.application.holds (k.application.notes o w) = k.application.holds w.memory

/-- An occurrence that neither drops anybody nor counts in the realm. -/
structure Minor (k : Realm Code Memory) (occurrence : Occurrence) : Prop where
  telling : ∀ source live, occurrence ≠ .telling source live
  counting : ∀ id, k.computed id →
    occurrence ≠ .updating (.computed id) ∧ occurrence ≠ .evaluated (.computed id) true

theorem passes_note (hk : k.Lawful) (w : World Code Memory) {occurrence : Occurrence}
    (hminor : k.Minor occurrence) : k.Passes w (w.note k.application occurrence) where
  objects := rfl
  slots _ := rfl
  observed _ := rfl
  viewModels _ := rfl
  owners := Nat.le_refl _
  hears object key s hs := by
    have hobjects : (w.note k.application occurrence).objects = w.objects := rfl
    rw [hears_congr hobjects]
    exact hs
  size := rfl
  bases _ := rfl
  caches _ _ := rfl
  lists x _ := by rw [dependencies_note]
  faces _ _ := rfl
  dropped x _ := by
    rw [World.note, hk.records, Trail.ofHistory]
    exact Trail.dropped_step x _ hminor.telling
  once id hid unknown h := by
    rw [World.note, hk.records]
    exact h.cons (hminor.counting id hid)

end Realm

end ViewBinding
