import Mathlib.Data.List.Chain
import ViewBinding.Proofs.Abiding
import ViewBinding.Proofs.Attending
import ViewBinding.Proofs.Registration
import ViewBinding.Proofs.Service
import ViewBinding.Proofs.Turns

/-!
# What a watcher has reacted to

A watcher learns a value, counts it and begins to react to it in one step, with nothing of the embedder
in between. So wherever its updates nest, in its own evaluation or in its own callback, the values that
its reactions were begun with follow one another as its value does, and no two in a row are the same.
-/

namespace ViewBinding

open Engine

variable {Code Memory : Type}

/-! ### Reactions in the record -/

namespace Occurrence

/-- The value with which a watcher begins to react. -/
def reaction? (id : WatcherId) : Occurrence → Option Value
  | .reacting j value => if j = id then some value else none
  | _ => none

theorem Plain.reaction? {occurrence : Occurrence} (h : occurrence.Plain) (id : WatcherId) :
    occurrence.reaction? id = none := by
  cases h <;> rfl

/-- The values with which a watcher began to react, in order, in a history that has the last occurrence
first. -/
def reactions (id : WatcherId) (history : List Occurrence) : List Value :=
  (history.filterMap (reaction? id)).reverse

theorem reactions_append (id : WatcherId) (more history : List Occurrence) :
    reactions id (more ++ history) = reactions id history ++ reactions id more := by
  simp [reactions]

@[simp] theorem reactions_nil (id : WatcherId) : reactions id [] = [] := rfl

theorem reactions_singleton {id : WatcherId} {occurrence : Occurrence}
    (h : occurrence.reaction? id = none) : reactions id [occurrence] = [] := by
  simp [reactions, h]

@[simp] theorem reactions_reacting (id : WatcherId) (value : Value) (history : List Occurrence) :
    reactions id (.reacting id value :: history) = reactions id history ++ [value] := by
  simp [reactions, reaction?]

/-- How many evaluations of a subscriber are under way after a history. -/
def underway (x : Subscriber) : List Occurrence → Nat
  | [] => 0
  | .evaluating y :: earlier => underway x earlier + if y = x then 1 else 0
  | .evaluated y _ :: earlier => underway x earlier - if y = x then 1 else 0
  | _ :: earlier => underway x earlier

end Occurrence

open Occurrence

/-! ### What a watcher knew and what it knows -/

/-- What a watcher knew at a moment, how often it had reacted, and what had happened. -/
structure Bookmark where
  cached : Value
  fires : Nat
  history : List Occurrence

/-- What a watcher knows came about by its reactions since a bookmark, in which `news` happened: no two
values in a row are the same, each was counted, and the last one is what it knows. -/
structure Watcher.Traces (x : Watcher Code) (id : WatcherId) (m : Bookmark) (news : List Occurrence) :
    Prop where
  distinct : (m.cached :: reactions id news).IsChain fun earlier later => earlier.same later = false
  counted : x.fires = m.fires + (reactions id news).length
  last : x.cached = (reactions id news).getLastD m.cached

namespace Watcher

variable {x y : Watcher Code} {id : WatcherId} {m : Bookmark} {news : List Occurrence}

theorem Traces.start (x : Watcher Code) (id : WatcherId) (history : List Occurrence) :
    x.Traces id ⟨x.cached, x.fires, history⟩ [] where
  distinct := List.isChain_singleton _
  counted := rfl
  last := rfl

/-- Without a reaction nothing new is known. -/
theorem Traces.later (h : x.Traces id m news) (hcached : y.cached = x.cached) (hfires : y.fires = x.fires)
    {more : List Occurrence} (hmore : reactions id more = []) : y.Traces id m (more ++ news) := by
  have hreactions : reactions id (more ++ news) = reactions id news := by
    rw [reactions_append, hmore, List.append_nil]
  refine ⟨?_, ?_, ?_⟩
  · rw [hreactions]
    exact h.distinct
  · rw [hreactions, hfires, h.counted]
  · rw [hreactions, hcached, h.last]

/-- A watcher that reacts knows a value that it did not know. -/
theorem Traces.react (h : x.Traces id m news) {value : Value} (hnew : x.cached.same value = false)
    (hcached : y.cached = value) (hfires : y.fires = x.fires + 1) :
    y.Traces id m (.reacting id value :: news) := by
  refine ⟨?_, ?_, ?_⟩
  · rw [reactions_reacting, ← List.cons_append]
    refine h.distinct.append (List.isChain_singleton value) fun a ha b hb => ?_
    have hlast : (m.cached :: reactions id news).getLast? = some x.cached := by
      rw [List.getLast?_cons, h.last, List.getLastD_eq_getLast?]
    rw [hlast, Option.mem_some_iff] at ha
    rw [List.head?_cons, Option.mem_some_iff] at hb
    rw [← ha, ← hb]
    exact hnew
  · simp [hfires, h.counted, Nat.add_assoc]
  · simp [hcached]

end Watcher

namespace World

/-- What a watcher knows now. -/
def bookmark (record : Memory → List Occurrence) (id : WatcherId) (w : World Code Memory) : Bookmark :=
  ⟨(w.watcher id).cached, (w.watcher id).fires, record w.memory⟩

/-- A watcher has been made, and what it knows came about by its reactions since a bookmark. -/
structure Follows (record : Memory → List Occurrence) (id : WatcherId) (m : Bookmark)
    (w : World Code Memory) : Prop where
  made : id.index < w.watchers.size
  traced : ∃ news, record w.memory = news ++ m.history ∧ (w.watcher id).Traces id m news

/-- Watchers are not lost, and one of them knows what it knew. -/
structure Unaltered (id : WatcherId) (w w' : World Code Memory) : Prop where
  size : w.watchers.size ≤ w'.watchers.size
  cached : (w'.watcher id).cached = (w.watcher id).cached
  fires : (w'.watcher id).fires = (w.watcher id).fires

variable {record : Memory → List Occurrence} {application : Application Code Memory} {id : WatcherId}
  {m : Bookmark} {w w' w₁ w₂ : World Code Memory}

theorem Follows.start (record : Memory → List Occurrence) (hid : id.index < w.watchers.size) :
    w.Follows record id (w.bookmark record id) :=
  ⟨hid, [], rfl, .start _ _ _⟩

theorem Follows.later (h : w.Follows record id m) (hw : Unaltered id w w') {l : List Occurrence}
    (hrecord : record w'.memory = l ++ record w.memory) (hl : reactions id l = []) :
    w'.Follows record id m := by
  obtain ⟨news, hnews, htraces⟩ := h.traced
  refine ⟨Nat.lt_of_lt_of_le h.made hw.size, l ++ news, ?_, htraces.later hw.cached hw.fires hl⟩
  rw [hrecord, hnews, List.append_assoc]

/-! ### What leaves a watcher its value -/

theorem Unaltered.refl (w : World Code Memory) : Unaltered id w w :=
  ⟨Nat.le_refl _, rfl, rfl⟩

theorem Unaltered.trans (h : Unaltered id w w₁) (h' : Unaltered id w₁ w₂) : Unaltered id w w₂ :=
  ⟨Nat.le_trans h.size h'.size, h'.cached.trans h.cached, h'.fires.trans h.fires⟩

theorem unaltered_of_eq (h : w'.watchers = w.watchers) : Unaltered id w w' := by
  refine ⟨Nat.le_of_eq (congrArg _ h.symm), ?_, ?_⟩ <;> rw [watcher, h, watcher]

theorem unaltered_mapWatcher (w : World Code Memory) (j : WatcherId) {f : Watcher Code → Watcher Code}
    (hf : j = id → ∀ x, (f x).cached = x.cached ∧ (f x).fires = x.fires) :
    Unaltered id w (w.mapWatcher j f) := by
  have hrow : ((w.mapWatcher j f).watcher id).cached = (w.watcher id).cached ∧
      ((w.mapWatcher j f).watcher id).fires = (w.watcher id).fires := by
    rw [watcher_mapWatcher]
    split
    · next h =>
      rw [h]
      exact hf h.symm _
    · exact ⟨rfl, rfl⟩
  exact ⟨Table.size_le_modify _ _ _, hrow.1, hrow.2⟩

theorem unaltered_addWatcher (w : World Code Memory) {x : Watcher Code} (hx : x.New) :
    Unaltered id w (w.addWatcher x).2 := by
  have hrow : ((w.addWatcher x).2.watcher id).cached = (w.watcher id).cached ∧
      ((w.addWatcher x).2.watcher id).fires = (w.watcher id).fires := by
    rw [watcher_addWatcher]
    split
    · next h =>
      rw [h, watcher_fresh]
      exact ⟨hx.cached, hx.fires⟩
    · exact ⟨rfl, rfl⟩
  exact ⟨by simp [addWatcher], hrow.1, hrow.2⟩

variable [Inhabited Code]

theorem unaltered_mapDependencies (w : World Code Memory) (y : Subscriber) (f : Dependencies → Dependencies) :
    Unaltered id w (w.mapDependencies y f) := by
  cases y with
  | watcher j => exact unaltered_mapWatcher w j fun _ _ => ⟨rfl, rfl⟩
  | computed j => exact unaltered_of_eq rfl
  | probe j => exact unaltered_of_eq rfl

theorem unaltered_meeting (w : World Code Memory) (y : Subscriber) (s : SourceId) :
    Unaltered id w (w.meeting application y s) := by
  have hsource : Unaltered id w (w.mapSource s (·.register y)) := unaltered_of_eq rfl
  exact (hsource.trans (unaltered_mapDependencies _ y (·.record s))).trans (unaltered_of_eq rfl)

theorem unaltered_opening (w : World Code Memory) (t : TrackerId) (y : Subscriber) :
    Unaltered id w (w.opening application t y) :=
  (unaltered_mapDependencies w y (·.begin)).trans (unaltered_of_eq rfl)

theorem unaltered_closing (w : World Code Memory) (t : TrackerId) (y : Subscriber)
    (r : Except Error Value) : Unaltered id w (w.closing application t y r) := by
  have hpop : Unaltered id w (w.mapTracker t (·.pop)) := unaltered_of_eq rfl
  cases r with
  | ok value =>
    refine (hpop.trans (unaltered_mapDependencies _ y (·.settle))).trans (unaltered_of_eq ?_)
    rw [closing, settle_eq]
    rfl
  | error error =>
    exact (hpop.trans (unaltered_mapDependencies _ y (·.merge))).trans (unaltered_of_eq rfl)

theorem unaltered_teardownWatcher (w : World Code Memory) (j : WatcherId) :
    Unaltered id w (w.teardownWatcher j) := by
  unfold teardownWatcher
  split
  · exact .refl w
  · refine (unaltered_mapWatcher w j (f := fun x => { x with disposed := true }) fun _ _ => ⟨rfl, rfl⟩).trans ?_
    refine (unaltered_mapDependencies _ (.watcher j) fun _ => {}).trans (unaltered_of_eq ?_)
    rw [clear, unregisterAll_eq]

omit [Inhabited Code] in
theorem record_reacting (hrecord : application.Records record) (w : World Code Memory) (j : WatcherId)
    (value : Value) (refs : List Ref) :
    record (w.reacting application j value refs).memory = .reacting j value :: record w.memory :=
  hrecord _ _

omit [Inhabited Code] in
/-- The step in which a watcher learns a value, counts it and begins to react to it. -/
theorem Follows.reacting (h : w.Follows record id m) (hrecord : application.Records record)
    {j : WatcherId} {value : Value} {refs : List Ref} (hnew : (w.watcher j).cached.same value = false) :
    (w.reacting application j value refs).Follows record id m := by
  have hhistory := record_reacting hrecord w j value refs
  by_cases hj : j = id
  · subst hj
    obtain ⟨news, hnews, htraces⟩ := h.traced
    have hrow : (w.reacting application j value refs).watcher j
        = { w.watcher j with cached := value, fires := (w.watcher j).fires + 1 } := by
      change (w.learning j value).watcher j = _
      rw [learning, watcher_mapWatcher, if_pos rfl]
    refine ⟨Nat.lt_of_lt_of_le h.made (Table.size_le_modify _ _ _), .reacting j value :: news, ?_, ?_⟩
    · rw [hhistory, hnews, List.cons_append]
    · rw [hrow]
      exact htraces.react hnew rfl rfl
  · have hunaltered : Unaltered id w (w.learning j value) :=
      unaltered_mapWatcher w j fun heq => absurd heq hj
    refine h.later (hunaltered.trans (unaltered_of_eq rfl)) (l := [.reacting j value]) hhistory ?_
    exact reactions_singleton (if_neg hj)

end World

/-! ### Bookmarks that the embedder keeps -/

section Bookmarks

/-- A request after which the embedder has the bookmark of a watcher that it had, or one that it has put
where the watcher stands. It may do so when the watcher has been made and does not evaluate. -/
def Request.Bookmarks (record : Memory → List Occurrence) (mark : Memory → Option Bookmark)
    (id : WatcherId) : Request Code Memory → World Code Memory → Prop
  | .remember f, w => record (f w.memory) = record w.memory ∧ (mark (f w.memory) = mark w.memory ∨
      id.index < w.watchers.size ∧ underway (.watcher id) (record w.memory) = 0 ∧
        mark (f w.memory) = some (w.bookmark record id))
  | _, _ => True

/-- A bookmark that stays where it is takes nothing that the embedder does amiss. -/
theorem Request.Bookmarks.fixed {record : Memory → List Occurrence} {mark : Memory → Option Bookmark}
    {id : WatcherId} {request : Request Code Memory} {w : World Code Memory}
    (h : request.Bookmarks record mark id w) (m : Bookmark) :
    request.Bookmarks record (fun _ => some m) id w := by
  cases request with
  | remember f => exact ⟨h.1, .inl rfl⟩
  | _ => trivial

/-- The embedder keeps a record, and leaves the bookmark where it is when something is recorded. -/
structure Application.Keeps (application : Application Code Memory) (record : Memory → List Occurrence)
    (mark : Memory → Option Bookmark) : Prop where
  records : application.Records record
  mark : ∀ occurrence w, mark (application.notes occurrence w) = mark w.memory

namespace World

/-- The watcher has come from where its bookmark is by its reactions. `k` evaluations of it are under way
besides the one in which it is made, if it is being made. -/
structure Marked (record : Memory → List Occurrence) (mark : Memory → Option Bookmark) (id : WatcherId)
    (i : Nat × Bool) (w : World Code Memory) : Prop where
  follows : ∀ m, mark w.memory = some m → w.Follows record id m
  underway : i.1 + i.2.toNat ≤ underway (.watcher id) (record w.memory)
  unmarked : i.2 = true → mark w.memory = none

variable {record : Memory → List Occurrence} {mark : Memory → Option Bookmark}
  {application : Application Code Memory} {id : WatcherId} {i j : Nat × Bool} {w w' : World Code Memory}

/-- Where nothing is recorded. -/
theorem Marked.unaltered (h : w.Marked record mark id i) (hw : Unaltered id w w')
    (hrecord : record w'.memory = record w.memory) (hmark : mark w'.memory = mark w.memory) :
    w'.Marked record mark id i where
  follows m hm := (h.follows m (hmark ▸ hm)).later hw (l := []) hrecord rfl
  underway := by
    rw [hrecord]
    exact h.underway
  unmarked hi := hmark.trans (h.unmarked hi)

/-- Where something is recorded that is no reaction. -/
theorem Marked.noted (h : w.Marked record mark id i) (hw : Unaltered id w w') {o : Occurrence}
    (hrecord : record w'.memory = o :: record w.memory) (hmark : mark w'.memory = mark w.memory)
    (hreaction : o.reaction? id = none)
    (hunderway : i.1 + i.2.toNat ≤ Occurrence.underway (.watcher id) (record w.memory) →
      j.1 + j.2.toNat ≤ Occurrence.underway (.watcher id) (o :: record w.memory))
    (hunmarked : j.2 = true → mark w.memory = none) : w'.Marked record mark id j where
  follows m hm := (h.follows m (hmark ▸ hm)).later hw (l := [o]) hrecord
    (reactions_singleton hreaction)
  underway := by
    rw [hrecord]
    exact hunderway h.underway
  unmarked hj := hmark.trans (hunmarked hj)

theorem Marked.teardown [Inhabited Code] (h : w.Marked record mark id i) (j : WatcherId) :
    (w.teardownWatcher j).Marked record mark id i := by
  have hmemory := memory_teardownWatcher w j
  exact h.unaltered (unaltered_teardownWatcher w j) (congrArg record hmemory) (congrArg mark hmemory)

/-- The embedder puts the bookmark where the watcher stands. -/
theorem Marked.put (h : w.Marked record mark id i) {f : Memory → Memory}
    (hmade : id.index < w.watchers.size) (hidle : Occurrence.underway (.watcher id) (record w.memory) = 0)
    (hrecord : record (f w.memory) = record w.memory)
    (hmark : mark (f w.memory) = some (w.bookmark record id)) :
    World.Marked record mark id i { w with memory := f w.memory } where
  follows m hm := by
    obtain rfl : w.bookmark record id = m := Option.some.inj (hmark.symm.trans hm)
    exact (Follows.start record hmade).later (unaltered_of_eq rfl) (l := []) hrecord rfl
  underway := by
    rw [hrecord]
    exact h.underway
  unmarked hi := by
    have hle := h.underway
    simp [hidle, hi] at hle

theorem marked_of_none (hmark : mark w.memory = none)
    (hunderway : i.1 + i.2.toNat ≤ Occurrence.underway (.watcher id) (record w.memory)) :
    w.Marked record mark id i where
  follows m hm := by simp [hmark] at hm
  underway := hunderway
  unmarked _ := hmark

/-- Nobody has the bookmark of a watcher that is yet to be made. -/
theorem Marked.unmarked_of_fresh (h : w.Marked record mark id i) (hid : w.watchers.fresh = id) :
    mark w.memory = none := by
  rw [Option.eq_none_iff_forall_not_mem]
  intro m hm
  have hlt := (h.follows m hm).made
  rw [← hid] at hlt
  exact absurd hlt (Nat.not_lt_of_le (Nat.le_of_eq w.watchers.index_fresh.symm))

variable [Inhabited Code] (happ : application.Keeps record mark)

include happ

theorem mark_closing (w : World Code Memory) (t : TrackerId) (y : Subscriber) (r : Except Error Value) :
    mark (w.closing application t y r).memory = mark w.memory := by
  cases r with
  | ok value => exact (happ.mark _ _).trans (congrArg mark (memory_settle _ y))
  | error error => exact (happ.mark _ _).trans (congrArg mark (memory_mapDependencies _ y _))

/-- A subscriber begins to evaluate. -/
theorem Marked.opening (h : w.Marked record mark id i) (t : TrackerId) {y : Subscriber}
    (hunderway : i.1 + i.2.toNat ≤ Occurrence.underway (.watcher id) (record w.memory) →
      j.1 + j.2.toNat ≤ Occurrence.underway (.watcher id) (.evaluating y :: record w.memory))
    (hunmarked : j.2 = true → mark w.memory = none) :
    (w.opening application t y).Marked record mark id j := by
  have hmemory := memory_mapDependencies w y (·.begin)
  refine h.noted (unaltered_opening w t y) ?_ ?_ rfl hunderway hunmarked
  · exact record_note happ.records hmemory _
  · exact (happ.mark _ _).trans (by rw [hmemory])

/-- A subscriber has evaluated. -/
theorem Marked.closing (h : w.Marked record mark id i) (t : TrackerId) {y : Subscriber}
    (r : Except Error Value)
    (hunderway : i.1 + i.2.toNat ≤ Occurrence.underway (.watcher id) (record w.memory) →
      j.1 + j.2.toNat ≤ Occurrence.underway (.watcher id) (.evaluated y r.toBool :: record w.memory))
    (hunmarked : j.2 = true → mark w.memory = none) :
    (w.closing application t y r).Marked record mark id j := by
  exact h.noted (unaltered_closing w t y r) (record_closing happ.records w t y r)
    (mark_closing happ w t y r) rfl hunderway hunmarked

/-- The watcher has evaluated while it was made. -/
theorem Marked.made (h : w.Marked record mark id (i.1 + i.2.toNat, true)) (t : TrackerId)
    (r : Except Error Value) :
    (w.closing application t (.watcher id) r).Marked record mark id i ∧
      mark (w.closing application t (.watcher id) r).memory = none := by
  refine ⟨h.closing happ t r (fun hle => ?_) fun _ => h.unmarked rfl, ?_⟩
  · simp only [Occurrence.underway, Bool.toNat_true] at hle ⊢
    exact Nat.le_sub_of_add_le hle
  · exact (mark_closing happ w t _ r).trans (h.unmarked rfl)

/-- Other subscribers may evaluate meanwhile, and the watcher itself. -/
theorem Marked.evaluating (id : WatcherId) (i : Nat × Bool) (y : Subscriber) :
    ∃ j, ∀ t : TrackerId,
      (∀ w : World Code Memory, w.Marked record mark id i →
        (w.opening application t y).Marked record mark id j) ∧
      ∀ (w : World Code Memory) r, w.Marked record mark id j →
        (w.closing application t y r).Marked record mark id i := by
  refine ⟨(i.1 + if y = .watcher id then 1 else 0, i.2), fun t => ⟨fun w hw => ?_, fun w r hw => ?_⟩⟩
  · refine hw.opening happ t (fun hle => ?_) hw.unmarked
    simp only [Occurrence.underway]
    omega
  · refine hw.closing happ t r (fun hle => ?_) hw.unmarked
    simp only [Occurrence.underway] at hle ⊢
    omega

end World

namespace Engine

variable [Inhabited Code] {record : Memory → List Occurrence} {mark : Memory → Option Bookmark}
  {application : Application Code Memory} {id : WatcherId}

theorem withstands_marked (happ : application.Keeps record mark) :
    Withstands application (Request.Bookmarks record mark id) (World.Marked record mark id) where
  mapTracker t f hw := hw.unaltered (World.unaltered_of_eq rfl) rfl rfl
  note {_ w o} ho hw := by
    refine hw.noted (World.unaltered_of_eq rfl) (happ.records o w) (happ.mark o w) (ho.reaction? id)
      (fun hle => ?_) hw.unmarked
    cases ho <;> exact hle
  meeting {_ w} y s hw := by
    have hmemory := World.memory_mapDependencies (w.mapSource s (·.register y)) y (·.record s)
    refine hw.noted (World.unaltered_meeting w y s) (o := .tracked y s) ?_ ?_ rfl (fun hle => hle)
      hw.unmarked
    · exact World.record_note happ.records hmemory _
    · exact (happ.mark _ _).trans (by rw [hmemory]; rfl)
  evaluating i y := World.Marked.evaluating happ id i y
  making {i w x} held hx hw := by
    have hmade : World.Marked record mark id i { (w.addWatcher x).2 with held } :=
      hw.unaltered ((World.unaltered_addWatcher w hx).trans (World.unaltered_of_eq rfl)) rfl rfl
    by_cases hid : w.watchers.fresh = id
    · have hunmarked : mark w.memory = none := hw.unmarked_of_fresh hid
      subst hid
      refine ⟨(i.1 + i.2.toNat, true), ?_, fun v value hv => ?_, fun v error hv => ?_⟩
      · refine hmade.opening happ x.tracker (fun hle => ?_) fun _ => hunmarked
        simpa [Occurrence.underway] using hle
      · obtain ⟨hclosed, hnone⟩ := hv.made happ x.tracker (.ok value)
        exact World.marked_of_none hnone hclosed.underway
      · exact (hv.made happ x.tracker (.error error)).1.teardown _
    · obtain ⟨j, hj⟩ := World.Marked.evaluating happ id i (.watcher w.watchers.fresh)
      refine ⟨j, (hj x.tracker).1 _ hmade, fun v value hv => ?_, fun v error hv => ?_⟩
      · refine World.Marked.unaltered ((hj x.tracker).2 v (.ok value) hv) ?_ rfl rfl
        exact World.unaltered_mapWatcher _ _ fun h => absurd h hid
      · exact World.Marked.teardown ((hj x.tracker).2 v (.error error) hv) _
  reacting {_ w j value} refs hnew hw := by
    have hmark : mark (w.reacting application j value refs).memory = mark w.memory := happ.mark _ _
    refine ⟨fun m hm => (hw.follows m (hmark ▸ hm)).reacting happ.records hnew, ?_, fun hi => ?_⟩
    · rw [World.record_reacting happ.records]
      exact hw.underway
    · exact hmark.trans (hw.unmarked hi)
  telling {_ w} s hw := by
    refine hw.noted (World.unaltered_of_eq rfl) (happ.records _ _) (happ.mark _ _) rfl (fun hle => hle)
      hw.unmarked
  teardown j hw := hw.teardown j
  register _ hw := hw.unaltered (World.unaltered_of_eq rfl) rfl rfl
  unregister _ hw := hw.unaltered (World.unaltered_of_eq rfl) rfl rfl
  remember {i w f} hok hw := by
    obtain ⟨hrecord, hkept | ⟨hmade, hidle, hmark⟩⟩ := hok
    · exact hw.unaltered (World.unaltered_of_eq rfl) hrecord hkept
    · exact hw.put hmade hidle hrecord hmark

theorem abides_marked (happ : application.Keeps record mark) :
    Abides application (Request.Bookmarks record mark id) (World.Marked record mark id) :=
  (withstands_marked happ).abides fun _ {_ _} hbuilds hw =>
    hw.unaltered (World.unaltered_of_eq hbuilds.watchers) (congrArg record hbuilds.memory)
      (congrArg mark hbuilds.memory)

/-- What an update makes a watcher know came about by the reactions that were begun in it. -/
theorem updateWatcher_follows (happ : application.Keeps record mark)
    (hprograms : application.Makes (Request.Bookmarks record mark id)) (depth : Nat)
    {w w' : World Code Memory} {r : Except Error Unit} (hmade : id.index < w.watchers.size)
    (hrun : updateWatcher (reentry application depth) id w = some (r, w')) :
    w'.Follows record id (w.bookmark record id) := by
  have hfixed : Abides application (Request.Bookmarks record (fun _ => some (w.bookmark record id)) id)
      (World.Marked record (fun _ => some (w.bookmark record id)) id) :=
    abides_marked ⟨happ.records, fun _ _ => rfl⟩
  have hrevisits := hfixed.reentry (hprograms.imp fun _ _ h => h.fixed _) depth
  have hw : w.Marked record (fun _ => some (w.bookmark record id)) id (0, false) :=
    ⟨fun m hm => Option.some.inj hm ▸ .start record hmade, Nat.zero_le _, Bool.noConfusion⟩
  exact (hrevisits.updateWatcher hfixed.toEndures id w hw r w' hrun).2.follows _ rfl

/-- An update that fails to evaluate, or that finds the value that the watcher knows, ends with that. -/
theorem updateWatcher_idle {c : Reentry Code Memory} {w v : World Code Memory} {r : Except Error Value}
    (hserves : (w.watcher id).disposed = false)
    (hrun : evaluateWatcher c id { w with held := .watcher id :: w.held } = some (r, v))
    (hknown : ∀ value, r = .ok value → (v.watcher id).cached.same value = true) :
    updateWatcher c id w = some (r.map fun _ => (), { v with held := w.held }) := by
  refine Option.map_eq_some_iff.mpr ⟨(r.map fun _ => (), v), ?_, rfl⟩
  rw [bind_of_run (a := (w.watcher id).disposed) rfl, hserves]
  cases r with
  | ok value =>
    refine (bind_of_run hrun).trans ?_
    rw [bind_of_run (a := v.watcher id) rfl, if_pos (hknown value rfl)]
    rfl
  | error error => exact bind_of_error hrun

end Engine

/-! ### Runs from the beginning -/

/-- What a watcher knows comes about by its reactions and in no other way. -/
structure World.Chronicles [Inhabited Code] (application : Application Code Memory)
    (record : Memory → List Occurrence) (mark : Memory → Option Bookmark) (id : WatcherId)
    (w : World Code Memory) : Prop where
  /-- It has come about by the reactions that were begun since the bookmark. -/
  trace (m : Bookmark) : mark w.memory = some m → w.Follows record id m
  /-- What an update makes known comes about by the reactions that are begun in it. -/
  update (levels : Nat) (r : Except Error Unit) (w' : World Code Memory) :
    id.index < w.watchers.size → updateWatcher (reentry application levels) id w = some (r, w') →
      w'.Follows record id (w.bookmark record id)
  /-- An update that fails to evaluate, or that finds the value that is known, ends with that. -/
  idle (levels : Nat) (r : Except Error Value) (v : World Code Memory) : (w.watcher id).disposed = false →
    evaluateWatcher (reentry application levels) id { w with held := .watcher id :: w.held } = some (r, v) →
      (∀ value, r = .ok value → (v.watcher id).cached.same value = true) →
        updateWatcher (reentry application levels) id w
          = some (r.map fun _ => (), { v with held := w.held })

/--
Whatever programs do, a watcher knows what it has reacted to last. Since any moment after it was made, no
two values in a row that it knew are the same, it has counted each reaction, and it knows the value that
the last one was begun with. An update that fails to evaluate or finds nothing new is none of them.
-/
theorem Engine.watchers_know_their_last_reaction [Inhabited Code] {α : Type}
    {application : Application Code Memory} {record : Memory → List Occurrence}
    {mark : Memory → Option Bookmark} {id : WatcherId} (happ : application.Keeps record mark)
    (hprograms : application.Makes (Request.Bookmarks record mark id)) {program : Program Code Memory α}
    (hprogram : program.Makes (Request.Bookmarks record mark id)) {memory : Memory}
    (hmark : mark memory = none) (depth : Nat) :
    Throughout (fun _ _ w => w.Chronicles application record mark id) application depth program
      { memory } := by
  refine (abides_marked happ).throughout (i := (0, false)) hprograms hprogram ?_ ?_
  · intro i _ _ w hw
    exact ⟨hw.follows, fun levels r w' => updateWatcher_follows happ hprograms levels,
      fun levels r v => updateWatcher_idle⟩
  · exact World.marked_of_none hmark (Nat.zero_le _)

end Bookmarks

/-! ### A watcher whose callback changes what it watches -/

/-- An embedder that keeps a watcher, a record and a bookmark, and whose callbacks write to a field. -/
def Application.unsettled : Application Unit (List Occurrence × Option Bookmark) where
  holds _ := [.watcher ⟨0⟩]
  notes occurrence w := (occurrence :: w.memory.1, w.memory.2)
  callback _ _ := Program.request (.set ⟨0⟩ "_" (.string "z"))
  method _ _ _ := .done ()
  listener _ _ := .done ()
  getter _ _ := .done .undefined
  update _ := .done ()
  install _ _ _ _ := .fail .detached

/-- Puts the bookmark where a watcher stands, if it has been made and does not evaluate. -/
def Program.bookmark (id : WatcherId) : Program Unit (List Occurrence × Option Bookmark) Unit :=
  .look fun w =>
    if id.index < w.watchers.size ∧ underway (.watcher id) w.memory.1 = 0 then
      request (.remember fun memory => (memory.1, some (w.bookmark Prod.fst id))) >>= fun _ => .done ()
    else .done ()

/-- Watches a field, bookmarks the watcher and changes the field. -/
def Program.unsettle : Program Unit (List Occurrence × Option Bookmark) Unit := do
  let object ← request .newObject
  request (.insert object "_" (.string "x"))
  request (.observe (.object object))
  let tracker ← request .newTracker
  let _ ← request (.watch tracker (.object object) default ())
  bookmark ⟨0⟩
  request (.set object "_" (.string "y"))

theorem Application.keeps_unsettled : unsettled.Keeps Prod.fst Prod.snd :=
  ⟨fun _ _ => rfl, fun _ _ => rfl⟩

theorem Application.makes_unsettled (id : WatcherId) :
    unsettled.Makes (Request.Bookmarks Prod.fst Prod.snd id) where
  callback _ _ := Program.makes_request fun _ _ => trivial
  method _ _ _ := trivial
  listener _ _ := trivial
  getter _ _ := trivial
  update _ := trivial
  install _ _ _ _ := trivial

theorem Program.makes_bookmark (id : WatcherId)
    {seen : Option (World Unit (List Occurrence × Option Bookmark))} :
    (bookmark id).Makes (Request.Bookmarks Prod.fst Prod.snd id) seen := by
  intro w
  dsimp only
  split
  · next h =>
    refine (makes_request fun w' hw' => ?_).bind fun _ => trivial
    rw [hw' w rfl]
    exact ⟨rfl, .inr ⟨h.1, h.2, rfl⟩⟩
  · trivial

theorem Program.makes_unsettle : unsettle.Makes (Request.Bookmarks Prod.fst Prod.snd ⟨0⟩) := by
  refine (makes_request fun _ _ => trivial).bind fun object => ?_
  refine (makes_request fun _ _ => trivial).bind fun _ => ?_
  refine (makes_request fun _ _ => trivial).bind fun _ => ?_
  refine (makes_request fun _ _ => trivial).bind fun tracker => ?_
  refine (makes_request fun _ _ => trivial).bind fun _ => ?_
  refine (makes_bookmark ⟨0⟩).bind fun _ => ?_
  exact makes_request fun _ _ => trivial

theorem Engine.watchers_know_their_last_reaction_unsettle :
    Application.unsettled.Keeps Prod.fst Prod.snd ∧
      Application.unsettled.Makes (Request.Bookmarks Prod.fst Prod.snd ⟨0⟩) ∧
        Program.unsettle.Makes (Request.Bookmarks Prod.fst Prod.snd ⟨0⟩) ∧
          Throughout (fun _ _ w => w.Chronicles Application.unsettled Prod.fst Prod.snd ⟨0⟩)
            Application.unsettled 4 Program.unsettle { memory := ([], none) } :=
  ⟨Application.keeps_unsettled, Application.makes_unsettled ⟨0⟩, Program.makes_unsettle,
    watchers_know_their_last_reaction Application.keeps_unsettled (Application.makes_unsettled ⟨0⟩)
      Program.makes_unsettle rfl 4⟩

end ViewBinding
