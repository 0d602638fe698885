import ViewBinding.Proofs.Checking
import ViewBinding.Proofs.Halting

/-!
# Freshness

Whatever programs do, in an orderly run no update is missed. Whenever nobody waits to be told of a change,
a watcher knows the value of its path if there is one, and the value that is kept of a memoized property is
the one that its getter comes to when nothing is kept at all.
-/

namespace ViewBinding

variable {Code Memory : Type} [Inhabited Code]

/-! ### When nothing is kept -/

/-- The world in which no value of a computed property is kept. -/
def World.emptied (w : World Code Memory) : World Code Memory :=
  { w with computeds := ⟨w.computeds.rows.map fun x => { x with cache := none }⟩ }

theorem World.computed_emptied (w : World Code Memory) (id : ComputedId) :
    w.emptied.computed id = { w.computed id with cache := none } := by
  simp only [emptied, computed, Table.get, Array.getD_eq_getD_getElem?, Array.getElem?_map]
  cases w.computeds.rows[Key.index id]? <;> rfl

/-- Along answers that are alike to what a view tells, the same things are asked. -/
theorem View.Along.alike {v v' : View} {ok : Ask → Prop} {q q' : Query Value} (h : v.Along ok q)
    (htells : ∀ what a, v'.Tells what a → ∃ a', v.Tells what a' ∧ AlikeAnswers a a') (hq : q'.Alike q) :
    v'.Along ok q' := by
  induction q generalizing q' with
  | done result =>
    cases q' with
    | done result' => trivial
    | ask what' next' => exact False.elim hq
  | ask what next inductionHypothesis =>
    cases q' with
    | done result' => exact False.elim hq
    | ask what' next' =>
      obtain ⟨rfl, hnext⟩ := hq
      refine ⟨h.1, fun a ha => ?_⟩
      obtain ⟨a', ha', hlike⟩ := htells _ a ha
      exact inductionHypothesis a' (h.2 a' ha') (hnext a a' hlike)

namespace Realm

open Engine World

variable {k : Realm Code Memory} {late : Subscriber → Prop} {w w' : World Code Memory}

theorem base_emptied (w : World Code Memory) (id : ComputedId) :
    (w.emptied.computed id).base = (w.computed id).base := by
  rw [computed_emptied]
  rfl

theorem quiet_emptied (w : World Code Memory) : k.Quiet w w.emptied :=
  quiet_of_rows rfl rfl Array.size_map (base_emptied w)

/-- What there is to be read when nothing is kept is what there is from scratch. -/
theorem sight_emptied (hfair : k.Fair w) : k.sight w.emptied = k.afresh w := by
  have hquiet : k.Quiet w w.emptied := quiet_emptied w
  ext1
  · funext object key
    exact hquiet.slots object key
  · funext id
    refine Setting.view_unknown ?_
    rw [computed_emptied, Computed.known?, ite_self]
  · funext id
    by_cases hid : k.Scope w id
    · have hreads : k.Reading w.emptied id :=
        (reading_congr (Computed.getter_eq_of_base_eq (base_emptied w id))).mpr (hfair.reads id hid)
      rw [view_query ((hquiet.scope id).mpr hid) hreads, hquiet.query]
      exact (if_pos ⟨hid, fun h => h.2⟩).symm
    · exact (if_neg (mt (hquiet.scope id).mp hid)).trans (if_neg fun h => hid h.1).symm

/-- Getters do as they should when nothing is kept, if what is kept is alike to what there is. -/
theorem Fair.emptied (hfair : k.Fair w) (hkept : k.KeptAlike (fun _ => False) w) : k.Fair w.emptied where
  reads id hid := (reading_congr (Computed.getter_eq_of_base_eq (base_emptied w id))).mpr
    (hfair.reads id (((quiet_emptied w).scope id).mp hid))
  alike id hid := by
    rw [(quiet_emptied w).query]
    exact hfair.alike id (((quiet_emptied w).scope id).mp hid)
  home id hid hmemo := by
    rw [computed_emptied] at hmemo ⊢
    exact hfair.home id (((quiet_emptied w).scope id).mp hid) hmemo
  plain id other hid hother hplain := by
    rw [computed_emptied] at hplain
    exact hfair.plain id other (((quiet_emptied w).scope id).mp hid)
      (((quiet_emptied w).scope other).mp hother) hplain
  owner id hid owner howner := by
    rw [computed_emptied] at howner
    exact hfair.owner id (((quiet_emptied w).scope id).mp hid) owner howner
  asks id hid := by
    rw [(quiet_emptied w).query]
    have hid' := ((quiet_emptied w).scope id).mp hid
    have hasks : (k.sight w.emptied).Along ((k.setting w).Asks w) (k.query w id) := by
      refine (hfair.asks id hid').alike (fun what a ha => ?_) (hfair.alike id hid')
      rw [sight_emptied hfair] at ha
      exact follows hkept hfair.reads hfair.alike ha
    refine hasks.mono fun what hwhat j hj => ((quiet_emptied w).scope j).mpr (hwhat j ?_)
    cases what with
    | computed other => exact hj
    | property object key => exact ((quiet_emptied (k := k) w).slots object key).symm.trans hj
  heard id hid := by
    have hobjects : w.emptied.objects = w.objects := rfl
    rw [(quiet_emptied w).afresh, (quiet_emptied w).query, heard_congr hobjects]
    exact hfair.heard id (((quiet_emptied w).scope id).mp hid)
  named hw object key id hslot := hfair.named hw object key id
    (((quiet_emptied (k := k) w).slots object key).symm.trans hslot)
  shared hw id hid hplain := by
    rw [computed_emptied] at hplain
    exact hfair.shared hw id (((quiet_emptied w).scope id).mp hid) hplain

/-! ### What is fresh -/

/-- The watchers at home on the tracker know what their paths evaluate to now. -/
def Fresh (k : Realm Code Memory) (w : World Code Memory) : Prop :=
  ∀ id, k.Tuned w id → ¬ w.Evaluates (.watcher id) → ∀ depth reader value w',
    readPath (reentry k.application depth) (w.watcher id).root (w.watcher id).path reader w
        = some (.ok value, w') → (w.watcher id).cached.Agrees value

/-- Every value that is known of a memoized property agrees with what its getter comes to, in every engine
that is deep enough, when nothing is kept. -/
def Faithful (k : Realm Code Memory) (w : World Code Memory) : Prop :=
  ∀ id value, k.Scope w id → (w.computed id).known? = some value → ∃ found : Value, found.Agrees value ∧
    (∃ least, ∀ depth ≥ least, ∃ w',
      runGetter (reentry k.application depth) id w.emptied = some (.ok found, w')) ∧
    ∀ depth r w', runGetter (reentry k.application depth) id w.emptied = some (r, w') → r = .ok found

/-- At no time had a computed property succeeded twice since it was last told of a change. -/
def Frugal (k : Realm Code Memory) (w : World Code Memory) : Prop :=
  ∀ id, k.computed id → ∀ history, history <:+ k.record w.memory →
    successes (.computed id) history ≤ 1

theorem application_reentry (application : Application Code Memory) (depth : Nat) :
    (reentry application depth).application = application := by
  cases depth <;> rfl

/-- If nobody waits, all watchers know. -/
theorem Heeds.fresh (hk : k.Lawful) (h : k.Heeds late w) (hlate : ∀ x, ¬ late x) (hfair : k.Fair w)
    (haudible : k.Audible w) (hw : k.watchers) : k.Fresh w := by
  intro id htuned hidle depth reader value w' hrun
  have hknows := h.knows hw id ⟨htuned, hlate _, hidle, haudible hw id htuned⟩
  obtain ⟨r, hr⟩ := hknows.covers.gives fun _ => hlate _
  have hrules := Setting.sound_rules (hfair.fits hk) (application_reentry k.application depth)
    (Setting.soundRun_reentry (hfair.fits hk) depth) fun _ _ => True
  have hasks : ∀ object key, (k.setting w).Asks w (.property object key) :=
    fun object key j hslot => ⟨hfair.named hw _ _ j hslot, h.wired.computed _ _ j hslot⟩
  have hread := hrules.readPath (m := ⟨(· = reader), fun _ => False⟩) rfl (w.watcher id).root
    (w.watcher id).path (fun _ => False.elim) (View.along_path hasks _ _) w hfair.phase _ _ hrun
  have hlike := (hfair.course h).fresh hfair h.keptAlike (Query.alike_path _ _) hread.2.gives hr
  obtain ⟨found, rfl, hfound⟩ := hlike.exists_ok
  exact (hknows.fresh found hr).trans hfound.agrees

/-- If nobody waits, all that is kept is what there is. -/
theorem Heeds.faithful (hk : k.Lawful) (h : k.Heeds late w) (hlate : ∀ x, ¬ late x) (hfair : k.Fair w) :
    k.Faithful w := by
  intro id value hid hvalue
  have hnobody : properties late = fun _ => False := funext fun j => eq_false (hlate _)
  have hsettled := h.kept id value hid hvalue (hlate _)
  obtain ⟨r, hr⟩ := hsettled.covers.gives fun _ => hlate _
  obtain ⟨found, rfl, hfound⟩ := (hsettled.fresh r hr).exists_ok
  have hempty := hfair.emptied (hnobody ▸ h.keptAlike)
  have hid' : k.Scope w.emptied id := ((quiet_emptied w).scope id).mpr hid
  have hquery : (k.sight w.emptied).query id = k.query w id := by
    rw [view_query hid' (hempty.reads id hid'), (quiet_emptied w).query]
  have hgives : (k.sight w.emptied).Gives ((k.sight w.emptied).query id) (.ok found) := by
    rw [hquery, sight_emptied hfair, Realm.afresh, ← hnobody]
    exact hr
  have hsound : ∀ depth r w', runGetter (reentry k.application depth) id w.emptied = some (r, w') →
      r = .ok found := by
    intro depth r w' hrun
    have hreads := Setting.sound_runGetter (hempty.fits hk) (application_reentry k.application depth)
      (Setting.soundRun_reentry (hempty.fits hk) depth) hid' hempty.phase _ _ hrun
    exact View.Gives.unique hreads.2.gives hgives
  obtain ⟨n, hn⟩ := hgives
  refine ⟨found, hfound.agrees, ⟨n + 1, fun depth hdepth => ?_⟩, hsound⟩
  obtain ⟨⟨r, w'⟩, hrun⟩ := Setting.halts_runGetter (hempty.fits hk)
    (application_reentry k.application depth) (Setting.haltsRun_reentry (hempty.fits hk) hdepth) hid'
    hempty.phase (by rw [hn]; exact Option.some_ne_none _)
  obtain rfl := hsound depth r w' hrun
  exact ⟨w', hrun⟩

theorem Heeds.frugal (h : k.Heeds late w) : k.Frugal w :=
  fun id hid => (h.once id hid).frugal

/-! ### Runs from the beginning -/

/-- In an empty world everybody heeds. -/
theorem calm_empty {memory : Memory} (hmemory : k.record memory = []) :
    k.Calm 0 (· ∈ []) ({ memory } : World Code Memory) := by
  have hidle : ∀ x, ¬ ({ memory } : World Code Memory).Evaluates x := by
    rintro x ⟨t, ht⟩
    cases ht
  have hdropped : ∀ x, (Trail.ofHistory x (k.record memory)).dropped = false := fun x => by
    rw [hmemory]
    rfl
  refine ⟨⟨fun x hx => ?_, fun id _ => hdropped (.computed id), fun id value hid => ?_, fun _ id _ => ?_,
    fun id _ => ?_, ⟨fun object key target name hslot => ?_, fun object key id hslot => ?_⟩,
    fun id hid => absurd hid (hidle _)⟩, fun x _ => hidle x, Nat.le_refl 0⟩
  · exact (atRest_empty hx.not_probe hmemory).books.agrees
  · exact absurd hid.2 (Nat.not_lt_zero _)
  · have hnothing : ∃ result, path ({ memory } : World Code Memory) id = .done result := by
      change ∃ result, Query.path .undefined default = .done result
      exact ⟨_, rfl⟩
    obtain ⟨result, hresult⟩ := hnothing
    refine ⟨hresult ▸ .done _ result, fun value hvalue => ?_⟩
    rw [hresult, View.gives_done] at hvalue
    cases hvalue
    cases hresult
  · rw [hmemory]
    exact once_nil
  · cases hslot
  · cases hslot

section Runs

variable {α : Type} {program : Program Code Memory α} {P' : Proviso Code Memory} (hk : k.Lawful)
  (hP' : ∀ waiting moment w, ((∀ s, moment ≠ .telling s) → k.Heeds (· ∈ waiting) w) → k.Orderly moment w →
    P' waiting moment w)

include hk hP'

/-- In an orderly run from a calm world, everybody heeds at every moment but those that are still to be told, and in
the end everybody does. -/
theorem heeds_from (hw : k.Calm 0 (· ∈ []) w) (depth : Nat)
    (h : Throughout k.order k.application depth program w) : Throughout P' k.application depth program w ∧
      ∀ r w', run k.application depth program w = some (r, w') → k.Ready 0 True (· ∈ []) w' := by
  have hservice := (relays_reentryUnder hk hP' depth []).service (n := 0) hk
    fun moment w hheeds => hP' [] moment w fun _ => hheeds
  have hleads := hservice.followUnder program.makes_true _ hw
  exact ⟨fun outcome hrun => (hleads _ _ (h outcome hrun)).1,
    fun r w' hrun => (hleads r w' (h _ hrun)).2⟩

/-- So it is in a run from the beginning. -/
theorem heeds_throughout {memory : Memory} (hmemory : k.record memory = []) (depth : Nat)
    (h : Throughout k.order k.application depth program { memory }) :
    Throughout P' k.application depth program { memory } ∧ ∀ r w',
      run k.application depth program { memory } = some (r, w') → k.Ready 0 True (· ∈ []) w' :=
  heeds_from hk hP' (calm_empty hmemory) depth h

end Runs

end Realm

/-! ### An embedder that copies -/

/-- An embedder that records every occurrence. Its getters read a field of the first object, and its watchers
copy what they find to another one. -/
def Application.copier : Application Unit (List Occurrence) where
  holds _ := [.viewModel ⟨0⟩, .watcher ⟨0⟩]
  notes occurrence w := occurrence :: w.memory
  callback _ value := Program.request (.set ⟨0⟩ "copy" value)
  method _ _ _ := .done ()
  listener _ _ := .done ()
  getter _ _ := Program.request (.get ⟨0⟩ "field" (some ⟨0⟩))
  update _ := .done ()
  install _ _ _ _ := .fail .detached

/-- Watches a computed property of a view model and changes the field that it reads. -/
def Program.copying : Program Unit (List Occurrence) Value := do
  let data ← request .newObject
  request (.insert data "field" (.string "x"))
  let owner ← request (.newViewModel { data := .object data, computed := .ofList [("_", ())] })
  let _ ← request (.watchOn owner default ())
  request (.set data "field" (.string "y"))
  request (.get data "copy" none)

/-- All there is, on the first tracker. -/
def Realm.copier : Realm Unit (List Occurrence) where
  application := .copier
  record := id
  computed _ := True
  tracker _ := ⟨0⟩
  watchers := True
  home := ⟨0⟩

namespace Realm

variable {w : World Unit (List Occurrence)} {moment : Moment Unit (List Occurrence)}

/-- Watchers of one key of an object can hear of it, if the key is heard of. -/
theorem audible_of_watchers {k : Realm Code Memory} {w : World Code Memory}
    (h : ∀ x ∈ w.watchers.rows.toList, x.path = default ∧
      ∀ root, x.root = .object root → w.Heard (.property root "_")) : k.Audible w := by
  intro _ id _
  by_cases hid : Key.index id < w.watchers.size
  · obtain ⟨hpath, hheard⟩ := h (w.watcher id) (w.watchers.get_mem hid)
    rw [path, hpath]
    cases hvalue : (w.watcher id).root with
    | object root => exact ⟨hheard root hvalue, fun answer _ => by cases answer <;> trivial⟩
    | _ => trivial
  · have hdefault : w.watcher id = default := Table.get_of_size_le _ (Nat.le_of_not_lt hid)
    rw [path, hdefault]
    trivial

theorem lawful_copier : copier.Lawful :=
  ⟨fun _ _ => rfl, fun _ _ => rfl⟩

/-- All computed properties belong to the first view model, whose data have the field that they read, and
all watchers watch computed properties. -/
structure Tidy (w : World Unit (List Occurrence)) : Prop where
  computeds : ∀ x ∈ w.computeds.rows.toList, x.tracker = ⟨0⟩ ∧ x.getter.owner? = some ⟨0⟩
  owner : 0 < w.computeds.size →
    0 < w.viewModels.size ∧ (w.viewModel ⟨0⟩).tracker = ⟨0⟩ ∧ w.isHeard ⟨0⟩ "field" = true
  watchers : ∀ x ∈ w.watchers.rows.toList, x.path = default ∧
    x.root.object?.any (w.isComputed · "_") = true

instance : DecidablePred Tidy := fun _ =>
  decidable_of_iff (_ ∧ _ ∧ _) ⟨fun h => ⟨h.1, h.2.1, h.2.2⟩, fun h => ⟨h.computeds, h.owner, h.watchers⟩⟩

/-- A check of the moments of runs. -/
def check (w : World Unit (List Occurrence)) : Moment Unit (List Occurrence) → Bool
  | .acting => decide (Tidy w)
  | .asking request => decide (Tidy w) && request.harmless w
  | .telling source => decide (Tidy w) && (w.source source).subscribers.all fun x =>
      w.alive (copier.application.holds w.memory) x.ref

theorem query_copier (w : World Unit (List Occurrence)) (id : ComputedId) :
    copier.Reading w id ∧ copier.query w id = Query.property ⟨0⟩ "field" := by
  have hreads : copier.Reading w id := by
    refine .ask (.get rfl) fun answer => ?_
    cases answer with
    | ok value => exact .done value
    | error error => exact .fail error
  refine ⟨hreads, (if_pos hreads).trans (congrArg (Query.ask _) (funext fun answer => ?_))⟩
  cases answer <;> rfl

theorem Tidy.computed (h : Tidy w) {id : ComputedId} (hid : Key.index id < w.computeds.size) :
    (w.computed id).tracker = ⟨0⟩ ∧ (w.computed id).getter.owner? = some ⟨0⟩ :=
  h.computeds _ (w.computeds.get_mem hid)

theorem Tidy.fair (h : Tidy w) : copier.Fair w where
  reads id _ := (query_copier w id).1
  alike id _ := by
    rw [(query_copier w id).2]
    exact ⟨rfl, fun _ _ hlike => hlike⟩
  home id hid _ := (h.computed hid.2).1
  plain _ _ _ _ _ := rfl
  owner id hid owner howner := by
    obtain ⟨hmade, htracker, -⟩ := h.owner (Nat.zero_lt_of_lt hid.2)
    obtain rfl := Option.some.inj ((h.computed hid.2).2.symm.trans howner)
    exact ⟨List.mem_cons_self, htracker, hmade⟩
  asks id hid := by
    obtain ⟨-, -, hheard⟩ := h.owner (Nat.zero_lt_of_lt hid.2)
    rw [(query_copier w id).2]
    exact ⟨fun j hj => absurd hj ((World.heard_of_isHeard hheard).2 j), fun _ _ => trivial⟩
  heard id hid := by
    obtain ⟨-, -, hheard⟩ := h.owner (Nat.zero_lt_of_lt hid.2)
    rw [(query_copier w id).2]
    exact ⟨(World.heard_of_isHeard hheard).1, fun _ _ => trivial⟩
  named _ _ _ _ _ := trivial
  shared _ _ _ _ := rfl

theorem Tidy.audible (h : Tidy w) : copier.Audible w := by
  refine audible_of_watchers fun x hx => ⟨(h.watchers x hx).1, fun root hroot => ?_⟩
  have hcomputed := (h.watchers x hx).2
  rw [hroot] at hcomputed
  exact World.heard_of_isComputed hcomputed

theorem orderly_of_check (h : check w moment = true) : copier.Orderly moment w := by
  have htidy : Tidy w := by
    cases moment with
    | acting => exact of_decide_eq_true h
    | asking request => exact of_decide_eq_true (Bool.and_eq_true_iff.mp h).1
    | telling source => exact of_decide_eq_true (Bool.and_eq_true_iff.mp h).1
  refine ⟨htidy.fair, htidy.audible, ?_, ?_⟩
  · rintro request rfl
    exact proper_of_harmless (Bool.and_eq_true_iff.mp h).2
  · rintro source rfl id _ hlisted
    exact List.all_eq_true.mp (Bool.and_eq_true_iff.mp h).2 _ hlisted

/-- The copying is orderly. -/
theorem orderly_copying :
    Engine.Throughout copier.order Application.copier 4 Program.copying { memory := [] } :=
  Engine.throughout_of_runChecked (P := fun _ moment w => check w moment = true)
    (fun _ _ _ => orderly_of_check) (by decide +kernel)

end Realm

/-! ### Freshness -/

/--
No update is missed. In an orderly run, whenever no source has subscribers left to tell, and so when the
outermost operation has returned with whatever result, a watcher that is not torn down knows the value of
its path, if the path has one.
-/
theorem Engine.watchers_fresh {α : Type} {k : Realm Code Memory} (hk : k.Lawful) (hwatchers : k.watchers)
    {memory : Memory} (hmemory : k.record memory = []) (depth : Nat) {program : Program Code Memory α}
    (h : Throughout k.order k.application depth program { memory }) :
    Throughout (fun waiting moment w => waiting = [] → (∀ s, moment ≠ .telling s) → k.Fresh w)
        k.application depth program { memory } ∧
      ∀ r w', run k.application depth program { memory } = some (r, w') → k.Fresh w' := by
  have hnobody : ∀ x : Subscriber, x ∉ ([] : List Subscriber) := fun _ => List.not_mem_nil
  have hfresh : ∀ waiting moment w, ((∀ s, moment ≠ .telling s) → k.Heeds (· ∈ waiting) w) →
      k.Orderly moment w → waiting = [] → (∀ s, moment ≠ .telling s) → k.Fresh w := by
    intro waiting moment w hheeds horder hnone hmoment
    subst hnone
    exact (hheeds hmoment).fresh hk hnobody horder.fair horder.audible hwatchers
  obtain ⟨hthroughout, hend⟩ := Realm.heeds_throughout hk hfresh hmemory depth h
  exact ⟨hthroughout, fun r w' hrun =>
    (hend r w' hrun).heeds.fresh hk hnobody (hend r w' hrun).fair ((hend r w' hrun).audible trivial)
      hwatchers⟩

/-- The watcher reacts once, and knows what has been written. -/
theorem Engine.watchers_fresh_copying :
    Realm.copier.Lawful ∧ Realm.copier.watchers ∧
      Throughout Realm.copier.order Application.copier 4 Program.copying { memory := [] } ∧
      (run Application.copier 4 Program.copying { memory := [] }).map
        (fun outcome => (outcome.2.watcher ⟨0⟩).fires) = some 1 ∧
      Throughout (fun waiting moment w =>
          waiting = [] → (∀ s, moment ≠ .telling s) → Realm.copier.Fresh w)
        Application.copier 4 Program.copying { memory := [] } ∧
      ∀ r w', run Application.copier 4 Program.copying { memory := [] } = some (r, w') →
        Realm.copier.Fresh w' :=
  ⟨Realm.lawful_copier, trivial, Realm.orderly_copying, by decide +kernel,
    watchers_fresh Realm.lawful_copier trivial rfl 4 Realm.orderly_copying⟩

/--
Memoization is sound. In an orderly run, whenever no source has subscribers left to tell, the value that is
kept of a memoized property agrees with what running its getter comes to, all nested properties computed
anew; and at no time has a property succeeded twice since it was told of a change.
-/
theorem Engine.memoization_sound {α : Type} {k : Realm Code Memory} (hk : k.Lawful) {memory : Memory}
    (hmemory : k.record memory = []) (depth : Nat) {program : Program Code Memory α}
    (h : Throughout k.order k.application depth program { memory }) :
    Throughout (fun waiting moment w => (∀ s, moment ≠ .telling s) →
        k.Frugal w ∧ (waiting = [] → k.Faithful w)) k.application depth program { memory } ∧
      ∀ r w', run k.application depth program { memory } = some (r, w') → k.Frugal w' ∧ k.Faithful w' := by
  have hnobody : ∀ x : Subscriber, x ∉ ([] : List Subscriber) := fun _ => List.not_mem_nil
  have hsound : ∀ waiting moment w, ((∀ s, moment ≠ .telling s) → k.Heeds (· ∈ waiting) w) →
      k.Orderly moment w → (∀ s, moment ≠ .telling s) → k.Frugal w ∧ (waiting = [] → k.Faithful w) := by
    intro waiting moment w hheeds horder hmoment
    refine ⟨(hheeds hmoment).frugal, fun hnone => ?_⟩
    subst hnone
    exact (hheeds hmoment).faithful hk hnobody horder.fair
  obtain ⟨hthroughout, hend⟩ := Realm.heeds_throughout hk hsound hmemory depth h
  exact ⟨hthroughout, fun r w' hrun =>
    ⟨(hend r w' hrun).heeds.frugal, (hend r w' hrun).heeds.faithful hk hnobody (hend r w' hrun).fair⟩⟩

/-- The getter runs twice, before and after the field is written. -/
theorem Engine.memoization_sound_copying :
    Realm.copier.Lawful ∧
      Throughout Realm.copier.order Application.copier 4 Program.copying { memory := [] } ∧
      (run Application.copier 4 Program.copying { memory := [] }).map
        (fun outcome => (outcome.2.computed ⟨0⟩).evaluations) = some 2 ∧
      Throughout (fun waiting moment w => (∀ s, moment ≠ .telling s) →
          Realm.copier.Frugal w ∧ (waiting = [] → Realm.copier.Faithful w))
        Application.copier 4 Program.copying { memory := [] } ∧
      ∀ r w', run Application.copier 4 Program.copying { memory := [] } = some (r, w') →
        Realm.copier.Frugal w' ∧ Realm.copier.Faithful w' :=
  ⟨Realm.lawful_copier, Realm.orderly_copying, by decide +kernel,
    memoization_sound Realm.lawful_copier rfl 4 Realm.orderly_copying⟩

end ViewBinding
