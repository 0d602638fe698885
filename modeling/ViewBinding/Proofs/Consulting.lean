import ViewBinding.Proofs.Freshness

/-!
# Consulting what is kept

While a change is told from one subscriber to the next, the value that is kept of a memoized property is
outdated until the property's own turn has come. Nothing else can come between a reader and the data: a path
that rests on no property that waits leads to what there is from scratch. Once no property waits, and whatever
watchers still wait, every path leads where it leads when nothing is kept.
-/

namespace ViewBinding

variable {Code Memory : Type} [Inhabited Code]

/-- What a slot stands for cannot be told apart from itself. -/
theorem Query.alike_ofSlot (slot : Option Slot) : (Query.ofSlot slot).Alike (Query.ofSlot slot) := by
  cases slot with
  | none => exact AlikeAnswers.refl (.ok .undefined)
  | some slot =>
    cases slot with
    | field value source => exact AlikeAnswers.refl (.ok value)
    | constant value => exact AlikeAnswers.refl (.ok value)
    | computed id => exact ⟨rfl, fun _ _ hlike => hlike⟩
    | proxy target key => exact AlikeAnswers.refl (.ok .undefined)

namespace Realm

open Engine World

variable {k : Realm Code Memory} {late : Subscriber → Prop} {w w' : World Code Memory} {root : Value}
  {path : Path} {reader : Option TrackerId} {depth : Nat} {r : Except Error Value}

/-- Whoever reads a path that rests on no property that waits is given the like of what there is from
scratch, which has nothing to do with who waits. -/
def Current (k : Realm Code Memory) (late : ComputedId → Prop) (w : World Code Memory) : Prop :=
  ∀ root path found, (k.scratch late w).Gives (Query.path root path) found →
    (k.afresh w).Gives (Query.path root path) found ∧
      ∀ reader depth r w', readPath (reentry k.application depth) root path reader w = some (r, w') →
        AlikeAnswers found r

/-- Wherever a path leads, whoever reads it, it leads to the like in every engine that is deep enough when
nothing is kept. -/
def Transparent (k : Realm Code Memory) (w : World Code Memory) : Prop :=
  ∀ root path reader depth r w', readPath (reentry k.application depth) root path reader w = some (r, w') →
    ∃ found, AlikeAnswers found r ∧
      (∃ least, ∀ depth ≥ least, ∃ w',
        readPath (reentry k.application depth) root path reader w.emptied = some (found, w')) ∧
      ∀ depth r' w',
        readPath (reentry k.application depth) root path reader w.emptied = some (r', w') → r' = found

/-! ### Reading a path -/

/-- Every key that stands for a computed property stands for one of the realm. -/
theorem Fair.asks_property (hfair : k.Fair w) (hw : k.watchers) (hwired : w.Wired) (object : ObjectId)
    (key : String) : (k.setting w).Asks w (.property object key) :=
  fun id hslot => ⟨hfair.named hw _ _ id hslot, hwired.computed _ _ id hslot⟩

/-- Reading a path gives what there is to be read. -/
theorem Fair.gives_path (hk : k.Lawful) (hfair : k.Fair w) (hw : k.watchers) (hwired : w.Wired)
    (hrun : readPath (reentry k.application depth) root path reader w = some (r, w')) :
    (k.sight w).Gives (Query.path root path) r := by
  have hrules := Setting.sound_rules (hfair.fits hk) (application_reentry k.application depth)
    (Setting.soundRun_reentry (hfair.fits hk) depth) fun _ _ => True
  have hread := hrules.readPath (m := ⟨(· = reader), fun _ => False⟩) rfl root path
    (fun _ => False.elim) (View.along_path (hfair.asks_property hw hwired) _ _) w hfair.phase _ _ hrun
  exact hread.2.gives

/-- A path that leads anywhere is read in every engine that is deep enough. -/
theorem Fair.reads_path (hk : k.Lawful) (hfair : k.Fair w) (hw : k.watchers) (hwired : w.Wired)
    (hgives : (k.sight w).Gives (Query.path root path) r) (reader : Option TrackerId) :
    ∃ least, ∀ depth ≥ least, ∃ w',
      readPath (reentry k.application depth) root path reader w = some (r, w') := by
  have hgives' := hgives
  obtain ⟨least, hleast⟩ := hgives
  refine ⟨least, fun depth hdepth => ?_⟩
  have hrules := Setting.surely_rules (hfair.fits hk) (application_reentry k.application depth)
    (Setting.soundRun_reentry (hfair.fits hk) depth) fun m hm =>
      Setting.haltsRun_reentry (hfair.fits hk) (Nat.lt_of_lt_of_le hm hdepth)
  obtain ⟨⟨r', w'⟩, hrun⟩ := (hrules.readPath (m := ⟨(· = reader), fun _ => False⟩) rfl root path).2
    (fun _ => False.elim) (View.along_path (hfair.asks_property hw hwired) _ _)
    (by rw [hleast]; exact Option.some_ne_none _) w hfair.phase
  obtain rfl := View.Gives.unique (hfair.gives_path hk hw hwired hrun) hgives'
  exact ⟨w', hrun⟩

/-! ### What is kept and what there is -/

omit [Inhabited Code] in
theorem wired_emptied (h : w.Wired) : w.emptied.Wired where
  proxy := h.proxy
  computed object key id hslot := by
    have hsize : w.emptied.computeds.size = w.computeds.size := Array.size_map
    exact hsize ▸ h.computed object key id hslot

/-- If no property waits, answers in which what is kept plays a part are alike to answers from scratch. -/
theorem Heeds.recalls (h : k.Heeds late w) (hlate : ∀ id, ¬ late (.computed id)) (hfair : k.Fair w)
    {what : Ask} {a : Except Error Value} (ha : (k.sight w).Tells what a) :
    ∃ a', (k.scratch (properties late) w).Tells what a' ∧ AlikeAnswers a a' := by
  obtain ⟨n, hn⟩ := ha
  induction n generalizing what a with
  | zero => cases hn
  | succ n inductionHypothesis =>
    rw [View.tells] at hn
    cases what with
    | property object key =>
      obtain ⟨a', ha', hlike⟩ := View.gives_of_eval (fun _ _ => inductionHypothesis)
        (Query.alike_ofSlot (w.slotAt object key)) hn
      exact ⟨a', View.tells_iff_gives.mpr ha', hlike⟩
    | computed id =>
      by_cases hid : k.Scope w id
      · have hopen : k.Scope w id ∧ ¬ Waits (properties late) w id := ⟨hid, fun hwaits => hlate id hwaits.2⟩
        cases hknown : (w.computed id).known? with
        | some value =>
          have htells := (View.tells_computed_of_known ((Setting.view_known hid).trans hknown)).mp ⟨n + 1, hn⟩
          have hsettled := h.kept id value hid hknown (hlate id)
          obtain ⟨r, hr⟩ := hsettled.covers.gives hlate
          exact ⟨r, tells_scratch.mpr ⟨hopen, hr⟩, htells ▸ (hsettled.fresh r hr).symm⟩
        | none =>
          have hmeaning : (k.sight w).meaning (.computed id) = k.query w id := by
            rw [View.meaning, Setting.view_unknown hknown]
            exact view_query hid (hfair.reads id hid)
          rw [hmeaning] at hn
          obtain ⟨a', ha', hlike⟩ := View.gives_of_eval (fun _ _ => inductionHypothesis) (hfair.alike id hid) hn
          exact ⟨a', tells_scratch.mpr ⟨hopen, ha'⟩, hlike⟩
      · exact absurd ⟨n + 1, hn⟩ (View.not_tells_self (if_neg hid) (if_neg hid))

/-- Whoever waits, paths that rest on no property that waits can be relied on. -/
theorem Heeds.current (hk : k.Lawful) (h : k.Heeds late w) (hfair : k.Fair w) (hw : k.watchers) :
    k.Current (properties late) w := by
  intro root path found hfound
  refine ⟨?_, fun reader depth r w' hrun => ?_⟩
  · obtain ⟨n, hn⟩ := hfound
    exact View.gives_of_answers (fun _ _ ha => tells_scratch_mono (fun _ => False.elim) ⟨n, ha⟩) hn
  · exact (hfair.course h).fresh hfair h.keptAlike (Query.alike_path root path)
      (hfair.gives_path hk hw h.wired hrun) hfound

/-- If no property waits, it makes no difference to any path that values are kept. -/
theorem Heeds.transparent (hk : k.Lawful) (h : k.Heeds late w) (hlate : ∀ id, ¬ late (.computed id))
    (hfair : k.Fair w) (hw : k.watchers) : k.Transparent w := by
  intro root path reader depth r w' hrun
  have hnobody : properties late = fun _ => False := funext fun j => eq_false (hlate j)
  have hempty := hfair.emptied (hnobody ▸ h.keptAlike)
  obtain ⟨n, hn⟩ := hfair.gives_path hk hw h.wired hrun
  obtain ⟨found, hfound, hlike⟩ := View.gives_of_eval
    (fun _ _ ha => h.recalls hlate hfair ⟨n, ha⟩) (Query.alike_path root path) hn
  have hgives : (k.sight w.emptied).Gives (Query.path root path) found := by
    rw [sight_emptied hfair, Realm.afresh, ← hnobody]
    exact hfound
  refine ⟨found, hlike.symm, hempty.reads_path hk hw (wired_emptied h.wired) hgives reader, ?_⟩
  exact fun depth r' w' hrun' =>
    View.Gives.unique (hempty.gives_path hk hw (wired_emptied h.wired) hrun') hgives

end Realm

/--
What is kept misleads nobody but those who read what waits. In an orderly run, at every moment and while
whatever changes are being told, a path that rests on no memoized property that waits to be told leads to the
like of what there is from scratch; and whenever no memoized property waits, though watchers may, every path
leads to the like of what it leads to when nothing is kept.
-/
theorem Engine.reads_are_transparent {α : Type} {k : Realm Code Memory} (hk : k.Lawful) (hwatchers : k.watchers)
    {memory : Memory} (hmemory : k.record memory = []) (depth : Nat) {program : Program Code Memory α}
    (h : Throughout k.order k.application depth program { memory }) :
    Throughout (fun waiting moment w => (∀ s, moment ≠ .telling s) →
        k.Current (Realm.properties (· ∈ waiting)) w ∧ ((∀ id, .computed id ∉ waiting) → k.Transparent w))
      k.application depth program { memory } ∧
      ∀ r w', run k.application depth program { memory } = some (r, w') → k.Transparent w' := by
  have hreads : ∀ (waiting : List Subscriber) moment w, ((∀ s, moment ≠ .telling s) → k.Heeds (· ∈ waiting) w) →
      k.Orderly moment w → (∀ s, moment ≠ .telling s) →
        k.Current (Realm.properties (· ∈ waiting)) w ∧ ((∀ id, .computed id ∉ waiting) → k.Transparent w) := by
    intro waiting moment w hheeds horder hmoment
    have hw := hheeds hmoment
    exact ⟨hw.current hk horder.fair hwatchers, fun hnone => hw.transparent hk hnone horder.fair hwatchers⟩
  obtain ⟨hthroughout, hend⟩ := Realm.heeds_throughout hk hreads hmemory depth h
  exact ⟨hthroughout, fun r w' hrun =>
    (hend r w' hrun).heeds.transparent hk (fun _ => List.not_mem_nil) (hend r w' hrun).fair hwatchers⟩

/-- What is read while the property is copied does not depend on what is kept of it. -/
theorem Engine.reads_are_transparent_copying :
    Realm.copier.Lawful ∧ Realm.copier.watchers ∧
      Throughout Realm.copier.order Application.copier 4 Program.copying { memory := [] } ∧
      Throughout (fun waiting moment w => (∀ s, moment ≠ .telling s) →
          Realm.copier.Current (Realm.properties (· ∈ waiting)) w ∧
            ((∀ id, .computed id ∉ waiting) → Realm.copier.Transparent w))
        Application.copier 4 Program.copying { memory := [] } ∧
      ∀ r w', run Application.copier 4 Program.copying { memory := [] } = some (r, w') →
        Realm.copier.Transparent w' :=
  ⟨Realm.lawful_copier, trivial, Realm.orderly_copying,
    reads_are_transparent Realm.lawful_copier trivial rfl 4 Realm.orderly_copying⟩

end ViewBinding
