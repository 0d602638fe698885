import ViewBinding.Proofs.Relaying

/-!
# Being ready

While nothing is written, getters of the realm go on to do as they should, and paths that could be heard of
still can. So the engine is ready for the next reading after every reading: all heed who do not wait, nobody
in the realm is evaluating, and the world is fair.
-/

namespace ViewBinding

open Engine World

variable {Code Memory : Type} [Inhabited Code]

/-- In which manner getters read plays no part in what there is to be read. -/
theorem Setting.view_congr {s s' : Setting Code Memory} {w : World Code Memory}
    (happlication : s'.application = s.application) (hscope : s'.scope = s.scope)
    (hlives : s'.lives = s.lives) : s'.view w = s.view w := by
  cases s
  cases s'
  cases happlication
  cases hscope
  cases hlives
  rfl

namespace Realm

/-- All heed who do not wait, nobody in the realm is evaluating, and `n` computed properties have been
made. -/
structure Calm (k : Realm Code Memory) (n : Nat) (late : Subscriber → Prop) (w : World Code Memory) :
    Prop where
  heeds : k.Heeds late w
  quiesces : k.Quiesces w
  made : n ≤ w.computeds.size

/-- A calm world that is fair, and audible if `a` says so. -/
structure Ready (k : Realm Code Memory) (n : Nat) (a : Prop) (late : Subscriber → Prop)
    (w : World Code Memory) : Prop extends k.Calm n late w where
  fair : k.Fair w
  audible : a → k.Audible w

variable {k : Realm Code Memory} {n : Nat} {a : Prop} {late late' : Subscriber → Prop}
  {w w₁ w' start : World Code Memory} {x : Subscriber}

/-! ### What the embedder holds -/

theorem holds_opening (hk : k.Lawful) (w : World Code Memory) (t : TrackerId) (y : Subscriber) :
    k.application.holds (w.opening k.application t y).memory = k.application.holds w.memory :=
  (hk.quiet _ _).trans (congrArg k.application.holds (memory_mapDependencies w y _))

theorem holds_closing (hk : k.Lawful) (w : World Code Memory) (t : TrackerId) (y : Subscriber)
    (r : Except Error Value) :
    k.application.holds (w.closing k.application t y r).memory = k.application.holds w.memory := by
  cases r with
  | ok value => exact (hk.quiet _ _).trans (congrArg k.application.holds (memory_settle _ y))
  | error error => exact (hk.quiet _ _).trans (congrArg k.application.holds (memory_mapDependencies _ y _))

/-! ### What readers do not notice -/

theorem reading_congr {id : ComputedId} (h : (w'.computed id).getter = (w.computed id).getter) :
    k.Reading w' id ↔ k.Reading w id := by
  simp only [Reading, setting, Setting.program, h]

/-- Getters do as they should as long as readers find the same and are told no more, and the embedder
holds the same. -/
theorem Fair.recall (h : k.Fair w) (hquiet : k.Quiet w w') (hheard : w'.Heard = w.Heard)
    (hholds : k.application.holds w'.memory = k.application.holds w.memory)
    (hbases : ∀ id, (w'.computed id).base = (w.computed id).base)
    (hviewModels : ∀ owner, (w'.viewModel owner).tracker = (w.viewModel owner).tracker)
    (howners : w.viewModels.size ≤ w'.viewModels.size)
    (htells : ∀ what a, (k.sight w').Tells what a → (k.sight w).Tells what a) : k.Fair w' where
  reads id hid := (reading_congr (Computed.getter_eq_of_base_eq (hbases id))).mpr
    (h.reads id ((hquiet.scope id).mp hid))
  alike id hid := by
    rw [hquiet.query]
    exact h.alike id ((hquiet.scope id).mp hid)
  home id hid hmemo := by
    rw [hquiet.memoize] at hmemo
    exact (Computed.tracker_eq_of_base_eq (hbases id)).trans (h.home id ((hquiet.scope id).mp hid) hmemo)
  plain id other hid hother hplain := by
    rw [hquiet.memoize] at hplain
    exact h.plain id other ((hquiet.scope id).mp hid) ((hquiet.scope other).mp hother) hplain
  owner id hid owner howner := by
    rw [Computed.getter_eq_of_base_eq (hbases id)] at howner
    obtain ⟨hmem, htracker, hlt⟩ := h.owner id ((hquiet.scope id).mp hid) owner howner
    exact ⟨hholds ▸ hmem, (hviewModels owner).trans htracker, Nat.lt_of_lt_of_le hlt howners⟩
  asks id hid := by
    rw [hquiet.query]
    refine (h.asks id ((hquiet.scope id).mp hid)).of_tells htells fun what hwhat j hj => ?_
    refine (hquiet.scope j).mpr (hwhat j ?_)
    cases what with
    | computed other => exact hj
    | property object key => exact (hquiet.slots object key).symm.trans hj
  heard id hid := by
    rw [hquiet.afresh, hquiet.query, hheard]
    exact h.heard id ((hquiet.scope id).mp hid)
  named hw object key id hslot := h.named hw object key id ((hquiet.slots object key).symm.trans hslot)
  shared hw id hid hplain := by
    rw [hquiet.memoize] at hplain
    exact h.shared hw id ((hquiet.scope id).mp hid) hplain

/-- What there is to be read stays the same as long as values are kept. -/
theorem Quiet.sight (h : k.Quiet w w') (hfair : k.Fair w)
    (hbases : ∀ id, (w'.computed id).base = (w.computed id).base)
    (hcaches : ∀ id, k.computed id → (w'.computed id).cache = (w.computed id).cache) :
    k.sight w' = k.sight w := by
  ext1
  · funext object key
    exact h.slots object key
  · funext id
    by_cases hid : k.Scope w id
    · rw [Setting.view_known (s := k.setting w') ((h.scope id).mpr hid),
        Setting.view_known (s := k.setting w) hid, Computed.known?, hcaches id hid.1, h.memoize,
        Computed.known?]
    · exact (if_neg (mt (h.scope id).mp hid)).trans (if_neg hid).symm
  · funext id
    by_cases hid : k.Scope w id
    · have hreads := hfair.reads id hid
      have hreads' := (reading_congr (Computed.getter_eq_of_base_eq (hbases id))).mpr hreads
      rw [view_query hid hreads, view_query ((h.scope id).mpr hid) hreads', h.query]
    · exact (if_neg (mt (h.scope id).mp hid)).trans (if_neg hid).symm

theorem Fair.pass (h : k.Fair w) (hp : k.Passes w w')
    (hholds : k.application.holds w'.memory = k.application.holds w.memory) : k.Fair w' := by
  refine h.recall hp.quiet hp.heard hholds hp.bases (fun owner => ?_) hp.owners fun what a hwhat => ?_
  · exact (congrArg ViewModel.tracker (hp.viewModels owner) :)
  · rw [hp.quiet.sight h hp.bases hp.caches] at hwhat
    exact hwhat

/-- Watchers and books may change. -/
theorem Fair.rows (h : k.Fair w) (hobjects : w'.objects = w.objects)
    (hholds : k.application.holds w'.memory = k.application.holds w.memory)
    (hviewModels : w'.viewModels = w.viewModels) (hsize : w'.computeds.size = w.computeds.size)
    (hfaces : ∀ id, (w'.computed id).face = (w.computed id).face) : k.Fair w' := by
  have hbases : ∀ id, (w'.computed id).base = (w.computed id).base := fun id =>
    Computed.base_eq_of_face_eq (hfaces id)
  have hquiet : k.Quiet w w' := quiet_of_rows hobjects hviewModels hsize hbases
  refine h.recall hquiet (heard_congr hobjects) hholds hbases (fun owner => ?_)
    (Nat.le_of_eq (by rw [hviewModels])) fun what a hwhat => ?_
  · rw [viewModel, hviewModels, viewModel]
  · rw [hquiet.sight h hbases fun id _ => Computed.cache_eq_of_face_eq (hfaces id)] at hwhat
    exact hwhat

theorem Audible.pass (h : k.Audible w) (hp : k.Passes w w') : k.Audible w' := by
  intro hw id htuned
  have ho : k.Onward (fun _ => False) w w' := hp.onward
  exact (ho.heard_path (hp.faces hw id)).mpr
    (h hw id (tuned_congr (hp.faces hw id) (hp.dropped (.watcher id) hw) htuned))

/-- A step that nobody in the realm has to do with. -/
theorem Ready.pass (h : k.Ready n a late w) (hp : k.Passes w w')
    (hholds : k.application.holds w'.memory = k.application.holds w.memory)
    (hu : ∀ x, k.Has x → Unmoved k.record x w w')
    (hmade : ∀ id, w'.Evaluates (.computed id) →
      w.Evaluates (.computed id) ∨ Key.index id < w.computeds.size) : k.Ready n a late w' where
  heeds := h.heeds.unmoved hp hu hmade
  quiesces x hx hev := h.quiesces x hx ((hu x hx).evaluates.mp hev)
  made := hp.size ▸ h.made
  fair := h.fair.pass hp hholds
  audible ha := (h.audible ha).pass hp

/-! ### After reading -/

theorem sight_eq (hquiet : k.Quiet start w) : k.sight w = (k.setting start).view w := by
  have hscope : k.Scope w = k.Scope start := funext fun id => propext (hquiet.scope id)
  exact Setting.view_congr rfl hscope rfl

theorem Course.fair (hw : k.Course late start w) (hfair : k.Fair start)
    (hholds : k.application.holds w.memory = k.application.holds start.memory) : k.Fair w := by
  have howners : w.viewModels.size = start.viewModels.size := by rw [hw.phase.data.viewModels]
  refine hfair.recall hw.onward.quiet hw.onward.heard hholds hw.phase.bases (fun owner => ?_)
    (Nat.le_of_eq howners.symm) fun what a hwhat => ?_
  · rw [viewModel, hw.phase.data.viewModels, viewModel]
  · rw [sight_eq hw.onward.quiet] at hwhat
    exact hw.phase.tells_start (fun id hid => hfair.reads id hid) hwhat

theorem Course.audible (hw : k.Course late start w) (h : k.Audible start)
    (hfaces : ∀ id, (w.watcher id).face = (start.watcher id).face)
    (hdropped : ∀ x, k.Has x → (Trail.ofHistory x (k.record w.memory)).dropped
      = (Trail.ofHistory x (k.record start.memory)).dropped) : k.Audible w := fun hk id htuned =>
  (hw.onward.heard_path (hfaces id)).mpr
    (h hk id (tuned_congr (hfaces id) (hdropped (.watcher id) hk) htuned))

/-- After a step of reading all is ready again. -/
theorem Ready.forth (h : k.Ready n a late w) (hphase : (k.setting w).Phase w w')
    (hrests : Rests k.application.holds w w') (hforth : k.Forth late w w') : k.Ready n a late w' := by
  have hcourse : k.Course late w w' := (h.fair.course h.heeds).step hphase hforth
  exact ⟨⟨hforth.heeds, fun x hx hev => h.quiesces x hx ((evaluates_congr hrests.trackers).mp hev),
    hforth.onward.quiet.size ▸ h.made⟩,
    hcourse.fair h.fair hrests.holds, fun ha => hcourse.audible (h.audible ha) hrests.watchers hforth.dropped⟩

end Realm

end ViewBinding
