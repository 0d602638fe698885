import ViewBinding.Proofs.Shielding

/-!
# Reads for nobody

A read without a reader registers nobody with the slot that it reads. It may still have to find the value of a
computed property. The getter of a memoized one reads in a frame of the property, on top of whoever was current there;
so these reads leave everyone listed where they were, as writes do.
-/

namespace ViewBinding

open Engine World

variable {Code Memory : Type} [Inhabited Code]

/-- If the slot holds a computed property, it is memoized, and its getter is evaluated on the tracker. -/
def World.Memoizes (t : TrackerId) (w : World Code Memory) (slot? : Option Slot) : Prop :=
  ∀ id, slot? = some (.computed id) → (w.computed id).memoize = true ∧ (w.computed id).tracker = t

instance (t : TrackerId) (w : World Code Memory) (slot? : Option Slot) : Decidable (w.Memoizes t slot?) :=
  match slot? with
  | some (.computed id) =>
    decidable_of_iff ((w.computed id).memoize = true ∧ (w.computed id).tracker = t) <| by simp [World.Memoizes]
  | some (.field ..) | some (.constant _) | some (.proxy ..) | none => isTrue nofun

namespace Engine

variable {record : Memory → List Occurrence} {application : Application Code Memory}
  {ok : Request Code Memory → Prop} {mine : TrackerId → Prop} {hosts : ViewModelId → Prop}
  {calm secret : World Code Memory → Prop} {ρ : World Code Memory → World Code Memory → Prop}
  {c : Reentry Code Memory} {t : TrackerId} {owner : ViewModelId} {x : Subscriber} {w w' : World Code Memory}

namespace Conducts

variable (hρ : Conduct application ok mine hosts calm secret ρ) (hc : Conducts application ok calm secret ρ c)

include hρ hc

/-- Where nobody reads, only the getter of a memoized property does anything, in a frame of its own. -/
theorem readSlot_none (hw : calm w) (ht : mine t) (holder : ObjectId) (name : String) {slot? : Option Slot}
    (hslot : w.Memoizes t slot?) :
    Ends w (readSlot c holder name none slot?) (readSlot c holder name none slot?) fun _ => ρ w := by
  have hnothing : ∀ value : Value, Ends w (pure value : Engine Code Memory Value) (pure value) fun _ => ρ w :=
    fun value => (ends_pure value).mpr (hρ.refl w)
  rcases slot? with _ | (⟨value, _ | source⟩ | id | value | ⟨target, key⟩)
  · have hwaits : ((w.object holder).observed && (w.current? none).isSome) = false := Bool.and_false _
    unfold readSlot
    rw [ends_inspect_bind, hwaits]
    exact hnothing .undefined
  · exact hnothing value
  · exact hnothing value
  · obtain ⟨hmemoize, htracker⟩ := hslot id rfl
    have hheld : ρ w { w with held := [.computed id] ++ w.held } := hρ.calmly.held w _
    have hvalue : Ends { w with held := [.computed id] ++ w.held } (Engine.memoizedValue c id)
        (Engine.memoizedValue c id) fun _ => ρ { w with held := [.computed id] ++ w.held } :=
      hc.memoizedValue_of hρ (.inl ⟨htracker.symm ▸ ht, hρ.calm_lasts hheld hw⟩)
    refine Ends.keeping _ (R := fun _ => ρ { w with held := [.computed id] ++ w.held }) ?_ fun _ w' h =>
      hρ.trans (hρ.trans hheld h) (hρ.calmly.held w' _)
    have hmemoize' : (({ w with held := [.computed id] ++ w.held } : World Code Memory).computed id).memoize = true :=
      hmemoize
    rw [ends_inspect_bind, if_pos hmemoize', Engine.depend, ends_update_bind]
    exact hvalue
  · exact hnothing value
  · exact hnothing .undefined

/-- Reading a property for nobody. -/
theorem get_none (hw : calm w) (ht : mine t) {object : ObjectId} {key : String}
    (hslot : w.Memoizes t (w.slotAt object key)) :
    Ends w (Engine.get c object key none) (Engine.get c object key none) fun _ => ρ w := by
  unfold Engine.get
  rw [ends_inspect_bind]
  generalize hresolve : w.resolve object key = target
  obtain ⟨holder, name⟩ := target
  have hheld : ρ w { w with held := [.object object, .object holder] ++ w.held } := hρ.calmly.held w _
  refine Ends.keeping _ (R := fun _ => ρ { w with held := [.object object, .object holder] ++ w.held }) ?_
    fun _ w' h => hρ.trans (hρ.trans hheld h) (hρ.calmly.held w' _)
  rw [ends_inspect_bind]
  refine hc.readSlot_none hρ (hρ.calm_lasts hheld hw) ht holder name fun id hid => hslot id ?_
  rw [slotAt, hresolve]
  exact hid

end Conducts

/--
Reads for nobody subscribe nobody. Let one view model be at work, with all there is to watch watched on its tracker,
and let a subscriber be current on that tracker, and on no other, when a property is read for nobody: a field, a key
that is absent, a constant, a proxy of one of these, or a memoized property of the tracker. However the read ends, if
the subscriber is neither told of a change nor evaluates nor is torn down meanwhile, then the same sources list it
afterwards, and what it depends on and is about to depend on is the same.
-/
theorem untracked_reads_subscribe_nobody (hrecord : application.Records record)
    (happ : application.Closes (Request.Indoors record t owner x)) (depth : Nat) {object : ObjectId} {key : String}
    {r : Except Error Value} (hslot : w.Memoizes t (w.slotAt object key))
    (hhome : w.Homely t owner) (hprobes : ∀ j id, some (.probe id) ∉ (w.tracker j).frames)
    (hcurrent : (w.tracker t).current? = some x) (helsewhere : ∀ j, j ≠ t → (w.tracker j).current? ≠ some x)
    (hrun : fulfil (reentry application depth) (.get object key none) w = some (r, w')) :
    ∃ news, record w'.memory = news ++ record w.memory ∧
      (.updating x ∉ news → .evaluating x ∉ news → (w'.IsOver x → w.IsOver x) →
        (∀ s, x ∈ (w'.source s).subscribers ↔ x ∈ (w.source s).subscribers) ∧
          w'.dependencies x = w.dependencies x) := by
  have hcurrent' : w.current? (some t) = some x := hcurrent
  have hsheltered : w.Sheltered record t owner x (record w.memory) :=
    ⟨hhome, hprobes, ⟨[], rfl⟩, .inr ⟨evaluates_of_current? hcurrent', helsewhere⟩⟩
  have hρ : Conduct application (Request.Indoors record t owner x) (· = t) (· = owner)
      (Sheltered record t owner x (record w.memory)) (Shielded record t owner x (record w.memory))
      (Shields record t owner x (record w.memory)) := conduct_shields hrecord _
  have hshields : w.Shields record t owner x (record w.memory) w' :=
    ((hρ.conducts happ depth).get_none hρ hsheltered rfl hslot r w' hrun).2
  obtain ⟨news, hnews⟩ := hshields.news
  refine ⟨news, hnews, fun htold hevaluated hended => ?_⟩
  rcases hshields.leaf with ⟨others, hothers, hstirred⟩ | ⟨hlives, hover⟩ | hsame
  · rw [hnews, List.append_left_inj] at hothers
    exact absurd hstirred (not_or.mpr ⟨hothers ▸ htold, hothers ▸ hevaluated⟩)
  · exact absurd (hended hover) hlives
  · exact ⟨fun s => iff_of_eq (congrArg (fun p => p.listed s) hsame), congrArg Page.dependencies hsame⟩

end Engine

/-! ### A property that is found for nobody -/

/-- Watches the key `_` of an object, and one of two memoized properties with the same getter. The other property, `c`,
is not known yet. -/
def Program.foundation : Program Bool (List Entry) Unit := do
  let object ← request .newObject
  request (.insert object "a" (.string "x"))
  request (.insert object "_" (.string "x"))
  request (.observe (.object object))
  let data ← request .newObject
  let owner ← request (.newViewModel { data := .object data, computed := .ofList [("_", false), ("c", false)] })
  let _ ← request (.watch ⟨0⟩ (.object object) default false)
  let _ ← request (.watchOn owner default false)

namespace World

/-- Everything is on the first tracker, which nobody is on, and only watchers and computed properties are told of
changes. -/
def isDeserted (w : World Bool (List Entry)) : Bool :=
  w.watchers.rows.all (·.tracker = ⟨0⟩) && (w.viewModel ⟨0⟩).tracker = ⟨0⟩ &&
    w.sources.rows.all (·.subscribers.all (· ∈ [.watcher ⟨0⟩, .watcher ⟨1⟩, .computed ⟨0⟩, .computed ⟨1⟩])) &&
    w.trackers.rows.all (·.frames = [])

theorem homely_of_isDeserted {w : World Bool (List Entry)} (h : w.isDeserted = true) :
    w.stage.Homely ⟨0⟩ ⟨0⟩ ∧ ∀ j, (w.stage.tracker j).frames = if j = ⟨0⟩ then [some (.watcher ⟨1⟩)] else [] := by
  simp only [isDeserted, Bool.and_eq_true, decide_eq_true_eq] at h
  obtain ⟨⟨⟨hwatchers, hviewModel⟩, hsources⟩, htrackers⟩ := h
  have hframes : ∀ j, (w.tracker j).frames = [] := fun j => of_decide_eq_true (w.trackers.all_get rfl htrackers j)
  refine ⟨⟨fun id => .inl ?_, hviewModel, fun s id hmem => ?_⟩, fun j => ?_⟩
  · exact of_decide_eq_true (w.watchers.all_get rfl hwatchers id)
  · have hlisted := List.all_eq_true.mp (w.sources.all_get rfl hsources s) _ hmem
    simp at hlisted
  · rw [World.stage, World.tracker_mapTracker]
    split
    · exact congrArg (List.cons _) (hframes ⟨0⟩)
    · exact hframes j

end World

/-- The getter of the second property runs while the second watcher is current, and is told of the key that it reads
afterwards; the watcher is not. -/
theorem Engine.untracked_reads_subscribe_nobody_foundation :
    Application.intruder.Records Entry.record ∧
      Application.intruder.Closes (Request.Indoors Entry.record ⟨0⟩ ⟨0⟩ (.watcher ⟨1⟩)) ∧
      ∃ w r w', w.Homely ⟨0⟩ ⟨0⟩ ∧ (∀ j id, some (.probe id) ∉ (w.tracker j).frames) ∧
        (w.tracker ⟨0⟩).current? = some (.watcher ⟨1⟩) ∧ (∀ j, j ≠ ⟨0⟩ → (w.tracker j).current? ≠ some (.watcher ⟨1⟩)) ∧
        w.Memoizes ⟨0⟩ (w.slotAt ⟨2⟩ "c") ∧
        fulfil (reentry Application.intruder 6) (.get ⟨2⟩ "c" none) w = some (r, w') ∧
        w'.minutes = [.evaluates (.computed ⟨1⟩), .seen (some (.computed ⟨1⟩)) [], .seen (some (.computed ⟨1⟩)) []] ∧
        .computed ⟨1⟩ ∈ (w'.source ⟨0⟩).subscribers ∧
        (∀ s, .watcher ⟨1⟩ ∈ (w'.source s).subscribers ↔ .watcher ⟨1⟩ ∈ (w.source s).subscribers) ∧
        w'.dependencies (.watcher ⟨1⟩) = w.dependencies (.watcher ⟨1⟩) := by
  refine ⟨fun _ _ => rfl, Application.closes_intruder, ?_⟩
  have hends : (run Application.intruder 6 Program.foundation { memory := [] }).bind (fun before =>
      (fulfil (reentry Application.intruder 6) (.get ⟨2⟩ "c" none) before.2.stage).map fun after =>
        (before.2.isDeserted, decide (before.2.stage.Memoizes ⟨0⟩ (before.2.stage.slotAt ⟨2⟩ "c")),
          after.2.minutes, decide (.computed ⟨1⟩ ∈ (after.2.source ⟨0⟩).subscribers), (after.2.watcher ⟨1⟩).disposed))
      = some (true, true, [.evaluates (.computed ⟨1⟩), .seen (some (.computed ⟨1⟩)) [],
        .seen (some (.computed ⟨1⟩)) []], true, false) := by decide +kernel
  obtain ⟨⟨_, w⟩, hrun, hends⟩ := Option.bind_eq_some_iff.mp hends
  obtain ⟨⟨r, w'⟩, hget, hends⟩ := Option.map_eq_some_iff.mp hends
  simp only [Prod.mk.injEq] at hends
  obtain ⟨hdeserted, hmemoizes, hminutes, hlisted, hlives⟩ := hends
  obtain ⟨hhome, hframes⟩ := World.homely_of_isDeserted hdeserted
  have hprobes : ∀ j id, some (.probe id) ∉ (w.stage.tracker j).frames := by
    intro j id
    rw [hframes]
    split <;> simp
  have hcurrent : (w.stage.tracker ⟨0⟩).current? = some (.watcher ⟨1⟩) := by
    rw [Tracker.current?, hframes]
    rfl
  have helsewhere : ∀ j, j ≠ ⟨0⟩ → (w.stage.tracker j).current? ≠ some (.watcher ⟨1⟩) := by
    intro j hj
    rw [Tracker.current?, hframes, if_neg hj]
    simp
  have hslot : w.stage.Memoizes ⟨0⟩ (w.stage.slotAt ⟨2⟩ "c") := of_decide_eq_true hmemoizes
  obtain ⟨news, hnews, hsame⟩ := untracked_reads_subscribe_nobody (fun _ _ => rfl) Application.closes_intruder 6 hslot
    hhome hprobes hcurrent helsewhere hget
  have hrecord : Entry.record w'.memory = news := hnews.trans (List.append_nil news)
  have htold : .told (.watcher ⟨1⟩) ∉ w'.minutes := by
    rw [hminutes]
    decide
  have hevaluated : .evaluates (.watcher ⟨1⟩) ∉ w'.minutes := by
    rw [hminutes]
    decide
  have hlasts : ¬ w'.IsOver (.watcher ⟨1⟩) := by
    rintro ⟨id, hid, hdisposed⟩
    cases hid
    simp [hlives] at hdisposed
  obtain ⟨hstays, hdependencies⟩ := hsame (fun h => htold (Entry.mem_minutes rfl (hrecord ▸ h)))
    (fun h => hevaluated (Entry.mem_minutes rfl (hrecord ▸ h))) (fun h => absurd h hlasts)
  exact ⟨w.stage, r, w', hhome, hprobes, hcurrent, helsewhere, hslot, hget, hminutes, of_decide_eq_true hlisted, hstays,
    hdependencies⟩

end ViewBinding
