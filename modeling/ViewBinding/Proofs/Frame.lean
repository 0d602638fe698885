import ViewBinding.Engine.Run

/-!
# What a change leaves alone

Rows of a world after one row was written. What is not named in a lemma here is unchanged by definition.
-/

namespace ViewBinding

namespace Table

variable {κ α : Type} [Key κ] [Inhabited α]

theorem get_modify [DecidableEq κ] (t : Table κ α) (j k : κ) (f : α → α) :
    (t.modify k f).get j = if j = k then f (t.get k) else t.get j := by
  by_cases h : j = k
  · rw [if_pos h, h, modify, get_put_self]
  · rw [if_neg h, modify, get_put_of_ne _ _ h]

theorem get_of_size_le (t : Table κ α) {k : κ} (h : t.size ≤ Key.index k) : t.get k = default := by
  rw [get, Array.getD_eq_getD_getElem?, Array.getElem?_eq_none h]
  rfl

/-- What a table has for a key that was given out is one of its rows. -/
theorem get_mem (t : Table κ α) {k : κ} (h : Key.index k < t.size) : t.get k ∈ t.rows.toList := by
  have hrow : t.rows[Key.index k]? = some (t.get k) := by
    rw [get, Array.getD_eq_getD_getElem?, Array.getElem?_eq_getElem h, Option.getD_some]
  exact Array.mem_toList_iff.mpr (Array.mem_of_getElem? hrow)

omit [Inhabited α] in
@[simp] theorem index_fresh (t : Table κ α) : Key.index t.fresh = t.size :=
  Key.index_ofIndex _

/-- What every row and the default pass, whatever is read passes. -/
theorem all_get {p : α → Bool} (t : Table κ α) (hdefault : p default = true) (hrows : t.rows.all p = true) (k : κ) :
    p (t.get k) = true := by
  by_cases h : Key.index k < t.size
  · rw [← Array.all_toList, List.all_eq_true] at hrows
    exact hrows _ (t.get_mem h)
  · rw [t.get_of_size_le (Nat.le_of_not_lt h)]
    exact hdefault

theorem get_fresh (t : Table κ α) : t.get t.fresh = default :=
  t.get_of_size_le (Nat.le_of_eq t.index_fresh.symm)

theorem size_modify_of_lt (t : Table κ α) {k : κ} (h : Key.index k < t.size) (f : α → α) :
    (t.modify k f).size = t.size := by
  unfold size at h
  simp [modify, put, size, h]

theorem size_le_modify (t : Table κ α) (k : κ) (f : α → α) : t.size ≤ (t.modify k f).size := by
  simp only [modify, put, size]
  split
  · simp
  · simp only [Array.size_push, Array.size_append]
    omega

theorem index_lt_modify (t : Table κ α) (k : κ) (f : α → α) : Key.index k < (t.modify k f).size := by
  simp only [modify, put, size]
  split
  · simpa using ‹_›
  · simp only [Array.size_push, Array.size_append, Array.size_replicate]
    omega

omit [Key κ] [Inhabited α] in
@[simp] theorem size_add (t : Table κ α) (row : α) : (t.add row).size = t.size + 1 := by
  simp [add, size]

/-- A new default row changes nothing that is read. -/
theorem get_add_default [DecidableEq κ] (t : Table κ α) (k : κ) : (t.add default).get k = t.get k := by
  by_cases h : k = t.fresh
  · rw [h, get_add_fresh, get_fresh]
  · exact get_add_of_ne t default h

end Table

namespace World

variable {Code Memory : Type}

theorem object_mapObject (w : World Code Memory) (i j : ObjectId) (f : Object → Object) :
    (w.mapObject i f).object j = if j = i then f (w.object i) else w.object j :=
  Table.get_modify w.objects j i f

theorem source_mapSource (w : World Code Memory) (i j : SourceId) (f : Source → Source) :
    (w.mapSource i f).source j = if j = i then f (w.source i) else w.source j :=
  Table.get_modify w.sources j i f

theorem tracker_mapTracker (w : World Code Memory) (i j : TrackerId) (f : Tracker → Tracker) :
    (w.mapTracker i f).tracker j = if j = i then f (w.tracker i) else w.tracker j :=
  Table.get_modify w.trackers j i f

theorem watcher_mapWatcher (w : World Code Memory) (i j : WatcherId)
    (f : Watcher Code → Watcher Code) :
    (w.mapWatcher i f).watcher j = if j = i then f (w.watcher i) else w.watcher j :=
  Table.get_modify w.watchers j i f

/-- A new source lists nobody, which is how it read before. -/
theorem source_addSource (w : World Code Memory) (j : SourceId) :
    w.addSource.2.source j = w.source j :=
  Table.get_add_default w.sources j

/-- Pushing a frame and popping it again leaves the trackers as they were. -/
theorem tracker_pop_push (w : World Code Memory) (t : TrackerId) (frame : Frame)
    (w' : World Code Memory) (h : ∀ j, w'.tracker j = (w.mapTracker t (·.push frame)).tracker j)
    (j : TrackerId) : (w'.mapTracker t (·.pop)).tracker j = w.tracker j := by
  rw [tracker_mapTracker]
  split
  · next hj =>
    rw [h, tracker_mapTracker, if_pos rfl, hj]
    rfl
  · next hj => rw [h, tracker_mapTracker, if_neg hj]

/-! ### Leaving sources -/

theorem unregisterAll_cons (w : World Code Memory) (subscriber : Subscriber) (source : SourceId)
    (rest : List SourceId) :
    w.unregisterAll subscriber (source :: rest)
      = (w.mapSource source (·.unregister subscriber)).unregisterAll subscriber rest :=
  rfl

/-- Only the sources are changed by leaving some of them. -/
theorem unregisterAll_eq (w : World Code Memory) (subscriber : Subscriber) (l : List SourceId) :
    w.unregisterAll subscriber l = { w with sources := (w.unregisterAll subscriber l).sources } := by
  induction l generalizing w with
  | nil => rfl
  | cons source rest inductionHypothesis =>
    rw [unregisterAll_cons, inductionHypothesis]
    rfl

theorem mem_source_unregisterAll (w : World Code Memory) (subscriber other : Subscriber)
    (l : List SourceId) (source : SourceId) :
    other ∈ ((w.unregisterAll subscriber l).source source).subscribers ↔
      other ∈ (w.source source).subscribers ∧ ¬ (other = subscriber ∧ source ∈ l) := by
  induction l generalizing w with
  | nil => simp [unregisterAll]
  | cons first rest inductionHypothesis =>
    rw [unregisterAll_cons, inductionHypothesis, source_mapSource]
    by_cases h : source = first
    · subst h
      simp only [if_true, Source.mem_unregister, List.mem_cons, true_or, and_true]
      grind
    · simp [h]

variable [Inhabited Code]

theorem computed_mapComputed (w : World Code Memory) (i j : ComputedId)
    (f : Computed Code → Computed Code) :
    (w.mapComputed i f).computed j = if j = i then f (w.computed i) else w.computed j :=
  Table.get_modify w.computeds j i f

theorem dependencies_mapDependencies (w : World Code Memory) (subscriber other : Subscriber)
    (f : Dependencies → Dependencies) (hprobe : f {} = {} ∨ ∀ id, subscriber ≠ .probe id) :
    (w.mapDependencies subscriber f).dependencies other
      = if other = subscriber then f (w.dependencies subscriber) else w.dependencies other := by
  cases subscriber with
  | watcher id =>
    cases other with
    | watcher j =>
      simp only [mapDependencies, dependencies, watcher_mapWatcher, Subscriber.watcher.injEq]
      split <;> rfl
    | computed j => simp [mapDependencies, dependencies, mapWatcher, computed]
    | probe j => simp [dependencies]
  | computed id =>
    cases other with
    | watcher j => simp [mapDependencies, dependencies, mapComputed, watcher]
    | computed j =>
      simp only [mapDependencies, dependencies, computed_mapComputed, Subscriber.computed.injEq]
      split <;> rfl
    | probe j => simp [dependencies]
  | probe id =>
    cases other with
    | watcher j => simp [mapDependencies]
    | computed j => simp [mapDependencies]
    | probe j =>
      rcases hprobe with h | h
      · simp [dependencies, h]
      · exact absurd rfl (h id)

theorem settle_eq (w : World Code Memory) (subscriber : Subscriber) :
    w.settle subscriber
      = { w.mapDependencies subscriber (·.settle) with
          sources := (w.settle subscriber).sources } :=
  unregisterAll_eq _ _ _

theorem teardownWatcher_eq (w : World Code Memory) (x : WatcherId) :
    w.teardownWatcher x = { w with watchers := (w.teardownWatcher x).watchers,
                                   sources := (w.teardownWatcher x).sources } := by
  unfold teardownWatcher
  split
  · rfl
  · rw [clear, unregisterAll_eq]
    rfl

theorem memory_teardownWatcher (w : World Code Memory) (x : WatcherId) :
    (w.teardownWatcher x).memory = w.memory := by
  rw [teardownWatcher_eq]

end World

end ViewBinding
