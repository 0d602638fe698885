import Mathlib.Data.List.Basic
import ViewBinding.Proofs.Registration
import ViewBinding.Proofs.Rounds

/-!
# Standing in line

Those that a source lists stand in line. Who meets the source without standing there goes to the end of
the line. Who evaluates well and does not meet it again leaves the line, who fails stays, and when the
source tells its subscribers those leave that are gone. So the record of what happened says how the line
stands, and nobody who stays is ever overtaken.
-/

namespace ViewBinding

open Engine World

variable {Code Memory : Type}

/-! ### The line as the record tells it -/

namespace Line

/-- What one more occurrence makes of the line of a source. -/
def step (s : SourceId) (earlier : List Occurrence) (line : List Subscriber) :
    Occurrence → List Subscriber
  | .tracked x source => if source = s ∧ x ∉ line then line ++ [x] else line
  | .evaluated x true =>
    let trail := Trail.ofHistory x earlier
    if s ∈ trail.kept ∧ s ∉ trail.met then line.filter (· ≠ x) else line
  | .telling source live => if source = s then line.filter (· ∈ live) else line
  | _ => line

/-- The line of a source after a history, the last occurrence first. -/
def ofHistory (s : SourceId) : List Occurrence → List Subscriber
  | [] => []
  | occurrence :: earlier => step s earlier (ofHistory s earlier) occurrence

/-- A subscriber goes on depending on a source while `news` happen: each of its evaluations meets the
source again or fails, and it is there when the source tells its subscribers. -/
def Stays (x : Subscriber) (s : SourceId) (earlier : List Occurrence) : (news : List Occurrence) → Prop
  | [] => True
  | .evaluated y true :: news =>
    (y = x → s ∈ (Trail.ofHistory x (news ++ earlier)).met) ∧ Stays x s earlier news
  | .telling source live :: news => (source = s → x ∈ live) ∧ Stays x s earlier news
  | _ :: news => Stays x s earlier news

variable {s : SourceId} {x y : Subscriber} {earlier news : List Occurrence}

/-- Who stays is not taken off the line by one more occurrence. -/
theorem Stays.step {occurrence : Occurrence} (h : Stays x s earlier (occurrence :: news))
    (hy : Stays y s earlier (occurrence :: news)) {line : List Subscriber} (hline : [x, y].Sublist line) :
    [x, y].Sublist (Line.step s (news ++ earlier) line occurrence) := by
  -- a filter that lets both pass keeps them in order
  have hfilter : ∀ p : Subscriber → Bool, p x = true → p y = true → [x, y].Sublist (line.filter p) := by
    intro p hpx hpy
    have hsublist := hline.filter p
    rwa [List.filter_eq_self.mpr (by simp [hpx, hpy])] at hsublist
  cases occurrence with
  | tracked z source =>
    simp only [Line.step]
    split
    · exact hline.trans (List.sublist_append_left line [z])
    · exact hline
  | evaluated z succeeded =>
    cases succeeded with
    | false => exact hline
    | true =>
      simp only [Line.step]
      split
      · next hleft =>
        have hne : ∀ {x : Subscriber}, Stays x s earlier (.evaluated z true :: news) → x ≠ z := by
          rintro _ hstays rfl
          exact hleft.2 (hstays.1 rfl)
        exact hfilter _ (decide_eq_true (hne h)) (decide_eq_true (hne hy))
      · exact hline
  | telling source live =>
    simp only [Line.step]
    split
    · next hs => exact hfilter _ (decide_eq_true (h.1 hs)) (decide_eq_true (hy.1 hs))
    · exact hline
  | evaluating _ => exact hline
  | updating _ => exact hline
  | reacting _ _ => exact hline
  | computing _ => exact hline
  | calling _ _ _ => exact hline
  | writing _ _ _ => exact hline

theorem Stays.tail {occurrence : Occurrence} (h : Stays x s earlier (occurrence :: news)) :
    Stays x s earlier news := by
  cases occurrence with
  | evaluated z succeeded =>
    cases succeeded with
    | true => exact h.2
    | false => exact h
  | telling source live => exact h.2
  | _ => exact h

/-- Two that stay keep their order. -/
theorem Stays.sublist (hx : Stays x s earlier news) (hy : Stays y s earlier news)
    (hline : [x, y].Sublist (ofHistory s earlier)) : [x, y].Sublist (ofHistory s (news ++ earlier)) := by
  induction news with
  | nil => exact hline
  | cons occurrence news inductionHypothesis =>
    exact hx.step hy (inductionHypothesis hx.tail hy.tail)

/-- Who has left and meets the source again goes to the end. -/
theorem ofHistory_tracked (hx : x ∉ ofHistory s earlier) :
    ofHistory s (.tracked x s :: earlier) = ofHistory s earlier ++ [x] := by
  simp [ofHistory, step, hx]

end Line

/-! ### The books as the record tells them -/

namespace Page

/-- A list of sources is what the record says, also while it is collected. -/
structure Tallies (p : Page) : Prop where
  kept : ∀ s, s ∈ p.dependencies.current ↔ s ∈ p.trail.kept
  met : ∀ s, s ∈ p.dependencies.pending ↔ s ∈ p.trail.met

variable {p : Page}

theorem Tallies.begin (h : p.Tallies) : p.begin.Tallies where
  kept := h.kept
  met s := by simp [Page.begin, Dependencies.begin]

theorem Tallies.meet (h : p.Tallies) (s : SourceId) : (p.meet s).Tallies where
  kept t := by simpa [Page.meet] using h.kept t
  met t := by simp [Page.meet, h.met t, or_comm]

theorem Tallies.settle (h : p.Tallies) : p.settle.Tallies where
  kept := h.met
  met s := by simp [Page.settle, Dependencies.settle]

theorem Tallies.merge (h : p.Tallies) : p.merge.Tallies where
  kept s := by simp [Page.merge, h.kept s, h.met s, or_comm]
  met s := by simp [Page.merge, Dependencies.merge]

theorem Tallies.tell (h : p.Tallies) (s : SourceId) (told : Bool) : (p.tell s told).Tallies := by
  obtain ⟨hkept, hmet⟩ := h
  unfold Page.tell
  split <;> exact ⟨hkept, hmet⟩

end Page

/-! ### The line as it is -/

namespace World

variable [Inhabited Code]

/-- Whether a subscriber stands in line by what it reads. A probe does not read, and a watcher that is
torn down has left for good. -/
def inLine (w : World Code Memory) : Subscriber → Bool
  | .watcher id => !(w.watcher id).disposed
  | .computed _ => true
  | .probe _ => false

/-- Every line stands as the record says. -/
structure Lined (record : Memory → List Occurrence) (w : World Code Memory) : Prop where
  line : ∀ s, (w.source s).subscribers.filter w.inLine
    = (Line.ofHistory s (record w.memory)).filter w.inLine
  tallies : ∀ x, w.inLine x = true → (w.page record x).Tallies

variable {record : Memory → List Occurrence} {application : Application Code Memory}
  {w w' : World Code Memory} {x y : Subscriber}

omit [Inhabited Code] in
theorem inLine_congr (h : ∀ id, (w'.watcher id).disposed = (w.watcher id).disposed) :
    w'.inLine = w.inLine := by
  funext x
  cases x with
  | watcher id => simp [inLine, h id]
  | computed id => rfl
  | probe id => rfl

omit [Inhabited Code] in
theorem not_probe_of_inLine (h : w.inLine x = true) : ∀ id, x ≠ .probe id := by
  rintro id rfl
  simp [inLine] at h

omit [Inhabited Code] in
/-- Leaving some sources, as it shows in their lists. -/
theorem subscribers_unregisterAll (w : World Code Memory) (x : Subscriber) (l : List SourceId)
    (s : SourceId) : ((w.unregisterAll x l).source s).subscribers
      = if s ∈ l then (w.source s).subscribers.filter (· ≠ x) else (w.source s).subscribers := by
  induction l generalizing w with
  | nil => rfl
  | cons first rest inductionHypothesis =>
    rw [unregisterAll_cons, inductionHypothesis, source_mapSource]
    by_cases hs : s = first
    · subst hs
      by_cases hrest : s ∈ rest <;> simp [hrest, Source.unregister]
    · simp [hs]

/-- Whoever is passed over may as well have left before. -/
theorem filter_ne_filter {p : Subscriber → Bool} (hx : p x = false) (l : List Subscriber) :
    (l.filter (· ≠ x)).filter p = l.filter p := by
  rw [List.filter_filter]
  refine List.filter_congr fun y _ => ?_
  by_cases hy : y = x
  · simp [hy, hx]
  · simp [hy]

/-- Who registers goes to the end of the line, or stays where it is. -/
theorem filter_register {p : Subscriber → Bool} {source : Source} {line : List Subscriber}
    (h : source.subscribers.filter p = line.filter p) (x : Subscriber) :
    (source.register x).subscribers.filter p = (if x ∉ line then line ++ [x] else line).filter p := by
  cases hx : p x with
  | true =>
    have hmem : x ∈ source.subscribers ↔ x ∈ line := by
      have hfilter := congrArg (x ∈ ·) h
      simpa [hx] using hfilter
    by_cases hline : x ∈ line
    · simp [Source.register, hmem, hline, h]
    · simp [Source.register, hmem, hline, h]
  | false =>
    have happend : ∀ l : List Subscriber, (l ++ [x]).filter p = l.filter p := by simp [hx]
    have hregister : (source.register x).subscribers.filter p = source.subscribers.filter p := by
      unfold Source.register
      split
      · rfl
      · exact happend _
    rw [hregister, h]
    split
    · exact (happend line).symm
    · rfl

/-- A change that shows neither in the lists nor in the record. -/
theorem Lined.congr (h : w.Lined record) (hsources : ∀ s, w'.source s = w.source s)
    (hdisposed : ∀ id, (w'.watcher id).disposed = (w.watcher id).disposed)
    (hpages : ∀ x, w'.page record x = w.page record x)
    (hrecord : record w'.memory = record w.memory) : w'.Lined record where
  line s := by
    rw [hsources, inLine_congr hdisposed, hrecord]
    exact h.line s
  tallies x hx := by
    rw [hpages]
    exact h.tallies x (inLine_congr hdisposed ▸ hx)

/-- A change that is recorded. -/
theorem Lined.noted (h : w.Lined record) (occurrence : Occurrence)
    (hrecord : record w'.memory = occurrence :: record w.memory)
    (hdisposed : ∀ id, (w'.watcher id).disposed = (w.watcher id).disposed)
    (hline : ∀ s line, (w.source s).subscribers.filter w.inLine = line.filter w.inLine →
      (w'.source s).subscribers.filter w.inLine
        = (Line.step s (record w.memory) line occurrence).filter w.inLine)
    (htallies : ∀ x, w.inLine x = true → (w'.page record x).Tallies) : w'.Lined record where
  line s := by
    rw [inLine_congr hdisposed, hrecord]
    exact hline s _ (h.line s)
  tallies x hx := htallies x (inLine_congr hdisposed ▸ hx)

theorem Lined.builds (h : w.Lined record) (hw : w.Builds w') : w'.Lined record := by
  refine h.congr hw.sources (fun id => ?_) (fun x => hw.unmoved.page) (congrArg record hw.memory)
  rw [watcher, hw.watchers, watcher]

theorem Lined.mapTracker (h : w.Lined record) (t : TrackerId) (f : Tracker → Tracker) :
    (w.mapTracker t f).Lined record :=
  h.congr (fun _ => rfl) (fun _ => rfl) (fun x => by cases x <;> rfl) rfl

theorem Lined.mapWatcher (h : w.Lined record) (id : WatcherId) {f : Watcher Code → Watcher Code}
    (hf : ∀ x, (f x).dependencies = x.dependencies ∧ (f x).disposed = x.disposed ∧ (f x).root = x.root) :
    (w.mapWatcher id f).Lined record := by
  refine h.congr (fun _ => rfl) (fun j => ?_) (fun x => (unmoved_mapWatcher w id hf).page) rfl
  rw [watcher_mapWatcher]
  split
  · next hj => rw [(hf _).2.1, hj]
  · rfl

section Noting

variable (hrecord : application.Records record)

include hrecord

/-- An occurrence that concerns no line. -/
theorem Lined.note (h : w.Lined record) {occurrence : Occurrence}
    (hline : ∀ s earlier line, Line.step s earlier line occurrence = line)
    (htrail : ∀ x t, Trail.step x t occurrence = t) : (w.note application occurrence).Lined record := by
  refine h.noted occurrence (hrecord _ _) (fun _ => rfl) (fun s line hs => ?_) fun x hx => ?_
  · rw [hline]
    exact hs
  · rw [(unmoved_note hrecord w (htrail x)).page]
    exact h.tallies x hx

theorem Lined.meeting (h : w.Lined record) (y : Subscriber) (s : SourceId) :
    (w.meeting application y s).Lined record := by
  refine h.noted (.tracked y s) (record_note hrecord (memory_mapDependencies _ y _) _)
    (fun id => (disposed_mapDependencies _ y _ id).1) (fun t line ht => ?_) fun x hx => ?_
  · change (((w.mapSource s (·.register y)).mapDependencies y (·.record s)).source t).subscribers.filter _
      = _
    rw [source_mapDependencies, source_mapSource, Line.step]
    by_cases hts : t = s
    · subst hts
      simpa using filter_register ht y
    · simpa [hts, Ne.symm hts] using ht
  · by_cases hyx : y = x
    · subst hyx
      rw [World.meeting, page_meet (not_probe_of_inLine hx) hrecord]
      exact (h.tallies y hx).meet s
    · rw [World.meeting, (unmoved_meet hrecord w hyx s).page]
      exact h.tallies x hx

theorem Lined.opening (h : w.Lined record) (t : TrackerId) (y : Subscriber) :
    (w.opening application t y).Lined record := by
  refine Lined.mapTracker (h.noted (.evaluating y) (record_note hrecord (memory_mapDependencies w y _) _)
    (fun id => (disposed_mapDependencies w y _ id).1) (fun s line hs => ?_) fun x hx => ?_) t _
  · change ((w.mapDependencies y _).source s).subscribers.filter _ = _
    rw [source_mapDependencies]
    exact hs
  · by_cases hyx : y = x
    · subst hyx
      rw [page_begin (not_probe_of_inLine hx) hrecord]
      exact (h.tallies y hx).begin
    · have hnote : Unmoved record x (w.mapDependencies y (·.begin))
          ((w.mapDependencies y (·.begin)).note application (.evaluating y)) :=
        unmoved_note hrecord _ fun t => if_neg hyx
      rw [((unmoved_mapDependencies w hyx _).trans hnote).page]
      exact h.tallies x hx

/-- Who has evaluated well leaves the lines of the sources that it did not meet again. -/
theorem Lined.settle (h : w.Lined record) (y : Subscriber) :
    ((w.settle y).note application (.evaluated y true)).Lined record := by
  have hdisposed : ∀ id, ((w.settle y).watcher id).disposed = (w.watcher id).disposed := by
    intro id
    rw [settle_eq]
    exact (disposed_mapDependencies w y _ id).1
  refine h.noted (.evaluated y true) (record_note hrecord (memory_settle w y) _) hdisposed (fun s line hs => ?_)
    fun x hx => ?_
  · change ((w.settle y).source s).subscribers.filter _ = _
    rw [World.settle, subscribers_unregisterAll, source_mapDependencies, Line.step]
    cases hy : w.inLine y with
    | true =>
      have hstale : s ∈ (w.dependencies y).stale ↔ s ∈ (Trail.ofHistory y (record w.memory)).kept ∧
          s ∉ (Trail.ofHistory y (record w.memory)).met := by
        rw [Dependencies.mem_stale]
        exact and_congr ((h.tallies y hy).kept s) (not_congr ((h.tallies y hy).met s))
      simp only [hstale]
      split
      · rw [List.filter_comm, hs, List.filter_comm]
      · exact hs
    | false =>
      split <;> split <;> simp only [filter_ne_filter hy, hs]
  · by_cases hyx : y = x
    · subst hyx
      rw [page_settle (not_probe_of_inLine hx) hrecord]
      exact (h.tallies y hx).settle
    · have hnote : Unmoved record x (w.settle y) ((w.settle y).note application (.evaluated y true)) :=
        unmoved_note hrecord _ fun t => if_neg hyx
      rw [((unmoved_settle w hyx).trans hnote).page]
      exact h.tallies x hx

/-- Who has failed stays in line. -/
theorem Lined.merge (h : w.Lined record) (y : Subscriber) :
    ((w.mapDependencies y (·.merge)).note application (.evaluated y false)).Lined record := by
  refine h.noted (.evaluated y false) (record_note hrecord (memory_mapDependencies w y _) _)
    (fun id => (disposed_mapDependencies w y _ id).1) (fun s line hs => ?_) fun x hx => ?_
  · change ((w.mapDependencies y _).source s).subscribers.filter _ = _
    rw [source_mapDependencies]
    exact hs
  · by_cases hyx : y = x
    · subst hyx
      rw [page_merge (not_probe_of_inLine hx) hrecord]
      exact (h.tallies y hx).merge
    · have hnote : Unmoved record x (w.mapDependencies y (·.merge))
          ((w.mapDependencies y (·.merge)).note application (.evaluated y false)) :=
        unmoved_note hrecord _ fun t => if_neg hyx
      rw [((unmoved_mapDependencies w hyx _).trans hnote).page]
      exact h.tallies x hx

theorem Lined.closing (h : w.Lined record) (t : TrackerId) (y : Subscriber) (r : Except Error Value) :
    (w.closing application t y r).Lined record := by
  cases r with
  | ok value => exact (h.mapTracker t _).settle hrecord y
  | error error => exact (h.mapTracker t _).merge hrecord y

/-- Those that are gone leave the line when the source tells its subscribers. -/
theorem Lined.telling (h : w.Lined record) (s : SourceId) : (w.telling application s).Lined record := by
  refine h.noted (.telling s (w.audience application s)) (record_telling hrecord w s) (fun _ => rfl)
    (fun t line ht => ?_) fun x hx => ?_
  · change ((w.mapSource s _).source t).subscribers.filter _ = _
    rw [source_mapSource, Line.step, liveSubscribers_eq_filter]
    by_cases hts : t = s
    · subst hts
      simp only [if_true]
      calc (w.audience application t).filter w.inLine
        _ = ((w.source t).subscribers.filter w.inLine).filter
              fun x => w.alive (application.holds w.memory) x.ref := List.filter_comm _ _ _
        _ = ((w.source t).subscribers.filter w.inLine).filter (· ∈ w.audience application t) := by
          refine List.filter_congr fun x hx => ?_
          simp [audience, (List.mem_filter.mp hx).1]
        _ = (line.filter (· ∈ w.audience application t)).filter w.inLine := by
          rw [ht]
          exact List.filter_comm _ _ _
    · simpa [hts, Ne.symm hts] using ht
  · have hlive : x ∈ w.liveSubscribers (application.holds w.memory) s → x ∈ (w.source s).subscribers := by
      rw [liveSubscribers_eq_filter]
      exact fun hmem => (List.mem_filter.mp hmem).1
    rw [World.telling, page_tell hrecord w s hlive]
    exact (h.tallies x hx).tell s _

end Noting

/-- Nobody else leaves the line when a watcher is torn down. -/
theorem inLine_teardownWatcher {id : WatcherId} (hdisposed : ¬ (w.watcher id).disposed = true) :
    (w.teardownWatcher id).inLine = fun x => decide (x ≠ .watcher id) && w.inLine x := by
  have hdown : ∀ j, ((w.teardownWatcher id).watcher j).disposed
      = if j = id then true else (w.watcher j).disposed := by
    intro j
    rw [teardownWatcher, if_neg hdisposed, clear, unregisterAll_eq]
    refine (disposed_mapDependencies _ _ _ j).1.trans ?_
    rw [watcher_mapWatcher]
    split <;> rfl
  funext x
  cases x with
  | watcher j => by_cases hj : j = id <;> simp [inLine, hdown, hj]
  | computed j => simp [inLine]
  | probe j => simp [inLine]

/-- A watcher that is torn down no longer stands in any line, and nobody else moves. -/
theorem Lined.teardown (h : w.Lined record) (id : WatcherId) : (w.teardownWatcher id).Lined record := by
  by_cases hdisposed : (w.watcher id).disposed = true
  · rw [teardownWatcher, if_pos hdisposed]
    exact h
  have hinLine := inLine_teardownWatcher hdisposed
  constructor
  · intro s
    have hline : ((w.teardownWatcher id).source s).subscribers.filter (w.teardownWatcher id).inLine
        = (w.source s).subscribers.filter (w.teardownWatcher id).inLine := by
      have hself : (w.teardownWatcher id).inLine (.watcher id) = false := by simp [hinLine]
      have hsources : ((w.teardownWatcher id).source s).subscribers = (w.source s).subscribers ∨
          ((w.teardownWatcher id).source s).subscribers
            = (w.source s).subscribers.filter (· ≠ .watcher id) := by
        rw [teardownWatcher, if_neg hdisposed, clear, subscribers_unregisterAll, source_mapDependencies]
        split
        · exact Or.inr rfl
        · exact Or.inl rfl
      rcases hsources with hsame | hleft
      · rw [hsame]
      · rw [hleft, filter_ne_filter hself]
    rw [hline, hinLine, memory_teardownWatcher, ← List.filter_filter, ← List.filter_filter, h.line s]
  · intro x hx
    rw [hinLine, Bool.and_eq_true, decide_eq_true_eq] at hx
    rw [(unmoved_teardownWatcher w fun heq => hx.1 heq.symm).page]
    exact h.tallies x hx.2

/-- A change of a list that concerns nobody who stands in line. -/
theorem Lined.mapSource (h : w.Lined record) (s : SourceId) {f : Source → Source}
    (hf : (f (w.source s)).subscribers.filter w.inLine = (w.source s).subscribers.filter w.inLine) :
    (w.mapSource s f).Lined record where
  line t := by
    change ((w.mapSource s f).source t).subscribers.filter w.inLine = _
    rw [source_mapSource]
    split
    · next hts =>
      subst hts
      exact hf.trans (h.line t)
    · exact h.line t
  tallies x hx := by
    have hpage : (w.mapSource s f).page record x = { w.page record x with
        listed := fun t => x ∈ ((w.mapSource s f).source t).subscribers } :=
      page_eq (fun _ => Iff.rfl) (dependencies_congr rfl rfl) Iff.rfl rfl
    rw [hpage]
    exact ⟨(h.tallies x hx).kept, (h.tallies x hx).met⟩

theorem Lined.addWatcher (h : w.Lined record) {y : Watcher Code} (hy : y.New) :
    (w.addWatcher y).2.Lined record := by
  refine h.congr (fun _ => rfl) (fun id => ?_)
    (fun x => page_addWatcher w hy.dependencies hy.disposed) rfl
  rw [watcher_addWatcher]
  split
  · next hid =>
    rw [hy.disposed, hid, watcher_fresh]
    rfl
  · rfl

end World

variable [Inhabited Code]

/-- A request that registers by hand nobody but probes, and that leaves the record alone. -/
def Request.KeepsLines (record : Memory → List Occurrence) :
    Request Code Memory → World Code Memory → Prop
  | .register _ subscriber, _ => ∃ id, subscriber = .probe id
  | .unregister _ subscriber, _ => ∃ id, subscriber = .probe id
  | .remember f, w => record (f w.memory) = record w.memory
  | _, _ => True

omit [Inhabited Code] in
theorem Request.HandsOff.keepsLines {record : Memory → List Occurrence} {request : Request Code Memory}
    {w : World Code Memory} (h : request.HandsOff record w) : request.KeepsLines record w := by
  cases request with
  | register _ _ => exact h
  | unregister _ _ => exact h
  | remember _ => exact h
  | _ => trivial

namespace Engine

variable {application : Application Code Memory} {record : Memory → List Occurrence}

theorem withstands_lined (hrecord : application.Records record) :
    Withstands application (Request.KeepsLines record) fun _ : Unit => World.Lined record where
  mapTracker t f hw := hw.mapTracker t f
  note {_ w o} ho hw := by
    refine hw.note hrecord (fun s earlier line => ?_) fun x t => ?_
    · cases ho <;> rfl
    · cases ho <;> rfl
  meeting y s hw := hw.meeting hrecord y s
  evaluating _ y := ⟨(), fun t => ⟨fun _ hw => hw.opening hrecord t y, fun _ r hw => hw.closing hrecord t y r⟩⟩
  making {_ w x} held hx hw := by
    refine ⟨(), World.Lined.opening hrecord ?_ _ _, fun v value hv => ?_, fun v error hv => ?_⟩
    · exact (hw.addWatcher hx).builds (World.builds_of_eq rfl rfl rfl rfl rfl)
    · exact World.Lined.mapWatcher (hv.closing hrecord _ _ (.ok value)) _ fun _ => ⟨rfl, rfl, rfl⟩
    · exact World.Lined.teardown (hv.closing hrecord _ _ (.error error)) _
  reacting {_ w id value} refs _ hw := by
    have hlearning : (w.learning id value).Lined record := hw.mapWatcher id fun _ => ⟨rfl, rfl, rfl⟩
    have hheld : World.Lined record { w.learning id value with held := refs ++ w.held } :=
      hlearning.builds (World.builds_of_eq rfl rfl rfl rfl rfl)
    exact (hheld.mapTracker _ _).note hrecord (fun _ _ _ => rfl) fun _ _ => rfl
  telling s hw := hw.telling hrecord s
  teardown id hw := hw.teardown id
  register {_ w s y} hok hw := by
    obtain ⟨id, rfl⟩ := hok
    refine hw.mapSource s ?_
    unfold Source.register
    split
    · rfl
    · simp [List.filter_append, World.inLine]
  unregister {_ w s y} hok hw := by
    obtain ⟨id, rfl⟩ := hok
    exact hw.mapSource s (World.filter_ne_filter rfl _)
  remember {_ w f} hok hw := by
    refine hw.congr (fun _ => rfl) (fun _ => rfl) (fun x => ?_) hok
    have hunmoved : World.Unmoved record x w { w with memory := f w.memory } :=
      World.unmoved_of_eq rfl rfl rfl rfl hok
    exact hunmoved.page

theorem abides_lined (hrecord : application.Records record) :
    Abides application (Request.KeepsLines record) fun _ : Unit => World.Lined record :=
  (withstands_lined hrecord).abides fun _ _ _ hbuilds hw => hw.builds hbuilds

end Engine

/-! ### Runs from the beginning -/

/-- The lines stand as the record says, and nobody is overtaken who stays. -/
structure World.KeepsOrder (record : Memory → List Occurrence) (w : World Code Memory) : Prop where
  /-- Nobody is listed twice. -/
  nodup (s : SourceId) : (w.source s).subscribers.Nodup
  /-- Those that a source lists stand in the order that the record says. -/
  line (s : SourceId) : (w.source s).subscribers.filter w.inLine
    = (Line.ofHistory s (record w.memory)).filter w.inLine
  /-- Two that stay are listed in the order in which they were. -/
  stable (s : SourceId) {news earlier : List Occurrence} {x y : Subscriber} :
    record w.memory = news ++ earlier → [x, y].Sublist (Line.ofHistory s earlier) →
      Line.Stays x s earlier news → Line.Stays y s earlier news →
        w.inLine x = true → w.inLine y = true → [x, y].Sublist (w.source s).subscribers
  /-- One that was not listed when it met the source stands behind all that were and have stayed. -/
  last (s : SourceId) {news earlier : List Occurrence} {x y : Subscriber} :
    record w.memory = news ++ .tracked x s :: earlier → x ∉ Line.ofHistory s earlier →
      y ∈ Line.ofHistory s earlier → Line.Stays x s (.tracked x s :: earlier) news →
        Line.Stays y s (.tracked x s :: earlier) news →
          w.inLine x = true → w.inLine y = true → [y, x].Sublist (w.source s).subscribers

theorem World.Lined.keepsOrder {record : Memory → List Occurrence} {w : World Code Memory}
    (h : w.Lined record) (honce : w.ListsOnce) : w.KeepsOrder record := by
  have hstable : ∀ (s : SourceId) {news earlier : List Occurrence} {x y : Subscriber},
      record w.memory = news ++ earlier → [x, y].Sublist (Line.ofHistory s earlier) →
        Line.Stays x s earlier news → Line.Stays y s earlier news →
          w.inLine x = true → w.inLine y = true → [x, y].Sublist (w.source s).subscribers := by
    intro s news earlier x y hrecord hline hstays hstays' hx hy
    have hsublist := (hstays.sublist hstays' hline).filter w.inLine
    rw [← hrecord, ← h.line s, List.filter_eq_self.mpr (by simp [hx, hy])] at hsublist
    exact hsublist.trans List.filter_sublist
  refine ⟨honce, h.line, hstable, fun s {news earlier x y} hrecord hnew hmem hstays hstays' hx hy => ?_⟩
  refine hstable s hrecord ?_ hstays' hstays hy hx
  rw [Line.ofHistory_tracked hnew]
  exact (List.singleton_sublist.mpr hmem).append (List.Sublist.refl [x])

/--
Registration order is stable. Whatever programs do, if they leave registration to the engine, then at
every moment of every run no source lists anybody twice, those that go on depending on a source keep
their order, and whoever meets it without being listed goes to the end.
-/
theorem Engine.registration_order_is_stable {α : Type} {application : Application Code Memory}
    {record : Memory → List Occurrence} (hrecord : application.Records record)
    (hprograms : application.Makes (Request.KeepsLines record)) {program : Program Code Memory α}
    (hprogram : program.Makes (Request.KeepsLines record)) {memory : Memory} (hmemory : record memory = [])
    (depth : Nat) : Throughout (fun _ _ w => w.KeepsOrder record) application depth program { memory } := by
  have habides := (abides_lined hrecord).and (abides_listsOnce application (Request.KeepsLines record))
  refine habides.throughout (i := ((), ())) hprograms hprogram ?_ ?_
  · exact fun _ _ _ w hw => hw.1.keepsOrder hw.2
  · refine ⟨⟨fun s => ?_, fun x _ => ?_⟩, fun s => List.nodup_nil⟩
    · change List.filter _ [] = (Line.ofHistory s (record memory)).filter _
      rw [hmemory]
      rfl
    · rw [World.page_empty x hmemory]
      exact ⟨fun _ => Iff.rfl, fun _ => Iff.rfl⟩

theorem Application.makes_recorder : recorder.Makes (Request.KeepsLines id) where
  callback _ _ := trivial
  method _ _ _ := trivial
  listener _ _ := trivial
  getter _ _ := trivial
  update _ := trivial
  install _ _ _ _ := trivial

theorem Program.makes_lookout : lookout.Makes (Request.KeepsLines id) :=
  handsOff_lookout.imp fun _ _ => Request.HandsOff.keepsLines

theorem Engine.registration_order_is_stable_lookout :
    Application.recorder.Records id ∧ Application.recorder.Makes (Request.KeepsLines id) ∧
      Program.lookout.Makes (Request.KeepsLines id) ∧
        Throughout (fun _ _ w => w.KeepsOrder id) Application.recorder 3 Program.lookout
          { memory := [] } :=
  ⟨fun _ _ => rfl, Application.makes_recorder, Program.makes_lookout,
    registration_order_is_stable (fun _ _ => rfl) Application.makes_recorder Program.makes_lookout rfl 3⟩

end ViewBinding
