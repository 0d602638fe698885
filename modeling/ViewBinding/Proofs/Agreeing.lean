import ViewBinding.Proofs.Displaying
import ViewBinding.Proofs.Freshness

/-!
# Nodes that agree with their paths

A watcher that renders a value on a node keeps the node in step with what it knows, if nobody else sets what the node
holds. In an orderly run it knows the value of its path in the end. So the node shows this value, unless it was out of
step before and the watcher has not reacted since. User input puts a node out of step: the node holds what was typed,
and it does so afterwards if the watcher has found the value that it knew.
-/

namespace ViewBinding

open Engine

variable {Code Memory : Type}

theorem Node.isElement_of_front_inl {x : Node Code} {value : Value} (h : x.front = .inl value) :
    x.isElement = true := by
  cases x with
  | element e => rfl
  | text content => cases h

theorem Node.value_of_front_inl {x : Node Code} {value : Value} (h : x.front = .inl value) : x.value = value := by
  cases x with
  | element e => exact Sum.inl.inj h
  | text content => cases h

namespace World

variable {w : World Code Memory} {i : WatcherId} {n : NodeId}

theorem mirrors_of_value (helement : (w.node n).isElement = true) (h : (w.node n).value = (w.watcher i).cached) :
    w.Mirrors i n (Value.front (w.node n).isElement) := by
  rw [Mirrors, Value.front, if_pos helement, ← h]
  cases hnode : w.node n with
  | element e => rfl
  | text content => simp [hnode, Node.isElement] at helement

/-! ### Typing -/

/-- A world in which something was typed into a node, and nobody was told yet. -/
def typed (w : World Code Memory) (n : NodeId) (value : Value) : World Code Memory :=
  ({ w with held := .node n :: w.held } : World Code Memory).display .value n value

theorem front_typed (h : (w.node n).isElement = true) (value : Value) :
    ((w.typed n value).node n).front = .inl value := by
  rw [typed, display, front_mapNode, if_pos rfl]
  change ((w.node n).setValue value).front = _
  cases hnode : w.node n with
  | element e => rfl
  | text content => simp [hnode, Node.isElement] at h

theorem isElement_typed (h : (w.node n).isElement = true) (value : Value) :
    ((w.typed n value).node n).isElement = true :=
  Node.isElement_of_front_inl (front_typed h value)

end World

namespace Engine

variable [Inhabited Code] {application : Application Code Memory} {start w w' : World Code Memory} {i : WatcherId}
  {n : NodeId} {form : Value → Value ⊕ String} {depth : Nat}

/-- A program that makes one request does what comes of it. -/
theorem run_request (application : Application Code Memory) (depth : Nat) (request : Request Code Memory) :
    run application depth (.request request) = fulfil (reentry application depth) request := by
  funext w
  change (attempt (fulfil (reentry application depth) request) w).bind _ = _
  rw [attempt]
  cases fulfil (reentry application depth) request w with
  | none => rfl
  | some outcome =>
    obtain ⟨r, w'⟩ := outcome
    cases r <;> rfl

/-! ### Runs -/

theorem throughout_of_holds {α : Type} {P : Proviso Code Memory} (hP : ∀ waiting moment w, P waiting moment w)
    (program : Program Code Memory α) (w : World Code Memory) : Throughout P application depth program w :=
  fun outcome hrun => by rwa [runUnder_of_holds hP]

/-- A run leads from where a node shows what it should to where it does. -/
theorem Displays.run {α : Type} {P : Proviso Code Memory} (h : Displays application P start i n form)
    {program : Program Code Memory α} (hprogram : program.Makes (Request.LeavesFront n))
    (hw : start.Reflects i n form .shown w) (hP : Throughout P application depth program w) {r : Except Error α}
    (hrun : Engine.run application depth program w = some (r, w')) : start.Reflects i n form .shown w' :=
  ((h.service (h.reflecting depth []) .shown).followUnder hprogram w hw r w' (hP _ hrun)).2

/-- So does user input, from the moment when the node holds what was typed. -/
theorem Displays.input {value : Value} (h : Displays application (fun _ _ _ => True) (w.typed n value) i n form)
    (hi : i.index < w.watchers.size) (hn : n.index < w.nodes.size) {r : Except Error Unit}
    (hrun : fulfil (reentry application depth) (.input n value) w = some (r, w')) :
    (w.typed n value).Reflects i n form .shown w' := by
  change Option.map _ (dispatch (reentry application depth) n "input" (w.typed n value)) = _ at hrun
  obtain ⟨⟨r', v⟩, hdispatch, heq⟩ := Option.map_eq_some_iff.mp hrun
  cases heq
  have hmade : n.index < (w.typed n value).nodes.size := Nat.lt_of_lt_of_le hn (Table.size_le_modify _ _ _)
  have hrequest : Engine.run application depth (.request (.dispatch n "input")) (w.typed n value) = some (r, v) := by
    rw [run_request]
    exact hdispatch
  have hleaves : (Program.request (.dispatch n "input") : Program Code Memory Unit).Makes (Request.LeavesFront n) :=
    Program.makes_request (r := .dispatch n "input") fun _ _ => trivial
  have hlasts : Throughout (fun _ _ _ => True) application depth (.request (.dispatch n "input")) (w.typed n value) :=
    throughout_of_holds (fun _ _ _ => trivial) _ _
  exact (h.run hleaves (World.reflects_start hi hmade) hlasts hrequest).of_eq rfl rfl

end Engine

/-! ### Orderly runs -/

namespace Realm

variable [Inhabited Code] {k : Realm Code Memory} {w w' : World Code Memory}

/-- An orderly run of a program leads from one world to another. -/
def Performs {α : Type} (k : Realm Code Memory) (program : Program Code Memory α) (w w' : World Code Memory) : Prop :=
  ∃ depth r, Throughout k.order k.application depth program w ∧ run k.application depth program w = some (r, w')

/-- A world that orderly runs lead to, one after the other, from an empty one. -/
inductive Reached (k : Realm Code Memory) : World Code Memory → Prop
  | beginning {memory : Memory} (hmemory : k.record memory = []) : Reached k { memory }
  | next {α : Type} {program : Program Code Memory α} {w w' : World Code Memory} (hw : Reached k w)
      (hperforms : k.Performs program w w') : Reached k w'

theorem Performs.ready {α : Type} {program : Program Code Memory α} (h : k.Performs program w w') (hk : k.Lawful)
    (hw : k.Calm 0 (· ∈ []) w) : k.Ready 0 True (· ∈ []) w' := by
  obtain ⟨depth, r, horder, hrun⟩ := h
  exact (heeds_from hk (fun _ _ _ _ hmoment => hmoment) hw depth horder).2 r w' hrun

/-- Between orderly runs everybody heeds. -/
theorem Reached.calm (hw : k.Reached w) (hk : k.Lawful) : k.Calm 0 (· ∈ []) w := by
  induction hw with
  | beginning hmemory => exact calm_empty hmemory
  | next _ hperforms inductionHypothesis => exact (hperforms.ready hk inductionHypothesis).toCalm

/-- After an orderly run a watcher knows its path. -/
theorem Reached.knows (hw : k.Reached w) (hk : k.Lawful) (hwatchers : k.watchers) {α : Type}
    {program : Program Code Memory α} (hperforms : k.Performs program w w') {i : WatcherId} (htuned : k.Tuned w' i)
    {depth : Nat} {reader : Option TrackerId} {value : Value} {w'' : World Code Memory}
    (hread : readPath (reentry k.application depth) (w'.watcher i).root (w'.watcher i).path reader w'
      = some (.ok value, w'')) : (w'.watcher i).cached.Agrees value := by
  have hready := hperforms.ready hk (hw.calm hk)
  have hidle := hready.quiesces (.watcher i) hwatchers
  exact hready.heeds.fresh hk (fun _ => List.not_mem_nil) hready.fair (hready.audible trivial) hwatchers i htuned hidle
    depth reader value w'' hread

end Realm

/-! ### An embedder that insists -/

/-- An embedder that records every occurrence. Whenever its watchers react, they set one field of the first object to
the same text. -/
def Application.stubborn : Application Unit (List Occurrence) where
  holds _ := [.viewModel ⟨0⟩, .watcher ⟨0⟩]
  notes occurrence w := occurrence :: w.memory
  callback _ _ := Program.request (.set ⟨0⟩ "_" (.string "x"))
  method _ _ _ := .done ()
  listener _ _ := .done ()
  getter _ _ := .done .undefined
  update _ := .done ()
  install _ _ _ _ := .fail .detached

/-- Watches the field of a view model, and mounts an element for input that is bound to it. -/
def Program.furnishing : Program Unit (List Occurrence) Nat := do
  let data ← request .newObject
  request (.insert data "_" (.string "x"))
  let owner ← request (.newViewModel { data := .object data })
  let _ ← request (.watchOn owner default ())
  let input ← request (.newElement "input" [("v-model", "_")] [])
  let root ← request (.newElement "div" [] [input])
  request (.mount owner (.node root))

theorem Application.makes_stubborn (n : NodeId) : stubborn.Makes (Request.LeavesFront n) where
  callback _ _ := Program.makes_request (r := .set ⟨0⟩ "_" (.string "x")) fun _ _ => trivial
  method _ _ _ := trivial
  listener _ _ := trivial
  getter _ _ := trivial
  update _ := trivial
  install _ _ _ _ := trivial

/-- All there is, on the first tracker. -/
def Realm.stubborn : Realm Unit (List Occurrence) where
  application := .stubborn
  record := id
  computed _ := True
  tracker _ := ⟨0⟩
  watchers := True
  home := ⟨0⟩

namespace Realm

variable {w : World Unit (List Occurrence)} {moment : Moment Unit (List Occurrence)}

/-- Nothing is computed, and watchers wait for one observed field each. -/
structure Simple (w : World Unit (List Occurrence)) : Prop where
  computeds : w.computeds.size = 0
  watchers : ∀ x ∈ w.watchers.rows.toList, x.path = default ∧ x.root.object?.any (w.isHeard · "_") = true

instance : DecidablePred Simple := fun _ =>
  decidable_of_iff (_ ∧ _) ⟨fun h => ⟨h.1, h.2⟩, fun h => ⟨h.computeds, h.watchers⟩⟩

/-- Requests to show something or to keep it, or to go on with what was shown. -/
def presents : Request Unit (List Occurrence) → Bool
  | .newElement .. | .newText .. | .mount .. | .input .. | .hold .. => true
  | _ => false

/-- A check of the moments of runs in which nothing is computed. -/
def checkSimple (w : World Unit (List Occurrence)) : Moment Unit (List Occurrence) → Bool
  | .acting => decide (Simple w)
  | .asking request => decide (Simple w) && (presents request || request.harmless w)
  | .telling source => decide (Simple w) && (w.source source).subscribers.all fun x =>
      w.alive (stubborn.application.holds w.memory) x.ref

theorem Simple.fair (h : Simple w) : stubborn.Fair w := by
  have hnone : ∀ id, ¬ stubborn.Scope w id := fun id hid => Nat.not_lt_zero _ (h.computeds ▸ hid.2)
  exact {
    reads := fun id hid => absurd hid (hnone id)
    alike := fun id hid => absurd hid (hnone id)
    home := fun id hid => absurd hid (hnone id)
    plain := fun id _ hid => absurd hid (hnone id)
    owner := fun id hid => absurd hid (hnone id)
    asks := fun id hid => absurd hid (hnone id)
    heard := fun id hid => absurd hid (hnone id)
    named := fun _ _ _ _ _ => trivial
    shared := fun _ id hid => absurd hid (hnone id) }

theorem Simple.audible (h : Simple w) : stubborn.Audible w := by
  refine audible_of_watchers fun x hx => ⟨(h.watchers x hx).1, fun root hroot => ?_⟩
  have hheard := (h.watchers x hx).2
  rw [hroot] at hheard
  exact (World.heard_of_isHeard hheard).1

theorem proper_of_presents {request : Request Unit (List Occurrence)}
    (h : (presents request || request.harmless w) = true) : stubborn.Proper w request := by
  rcases Bool.or_eq_true_iff.mp h with hpresents | hharmless
  · cases request with
    | newElement tag attributes children => trivial
    | newText content => trivial
    | mount owner target => trivial
    | input node value => trivial
    | hold refs => trivial
    | _ => cases hpresents
  · exact proper_of_harmless hharmless

theorem orderly_of_checkSimple (h : checkSimple w moment = true) : stubborn.Orderly moment w := by
  have hsimple : Simple w := by
    cases moment with
    | acting => exact of_decide_eq_true h
    | asking request => exact of_decide_eq_true (Bool.and_eq_true_iff.mp h).1
    | telling source => exact of_decide_eq_true (Bool.and_eq_true_iff.mp h).1
  refine ⟨hsimple.fair, hsimple.audible, ?_, ?_⟩
  · rintro request rfl
    exact proper_of_presents (Bool.and_eq_true_iff.mp h).2
  · rintro source rfl id _ hlisted
    exact List.all_eq_true.mp (Bool.and_eq_true_iff.mp h).2 _ hlisted

instance (value : Value) (text : String) : Decidable (value = .string text) :=
  match value with
  | .string other => decidable_of_iff (other = text) (by simp)
  | .undefined | .null | .bool _ | .number _ | .object _ | .array .. | .function .. => .isFalse nofun

/-- The second watcher shows the field on the element, alone from the one world to the other. -/
structure Furnished (w w' : World Unit (List Occurrence)) : Prop where
  made : w.watchers.size = 2
  reaction : (w.watcher ⟨1⟩).reaction = .render .value ⟨0⟩
  element : (w.node ⟨0⟩).isElement = true
  shown : (w.node ⟨0⟩).value = .string "x"
  known : (w.watcher ⟨1⟩).cached = .string "x"
  alone : ¬ w.Crowded ⟨1⟩ ⟨0⟩ w'
  home : (w'.watcher ⟨1⟩).tracker = ⟨0⟩
  lives : (w'.watcher ⟨1⟩).disposed = false
  kept : (Trail.ofHistory (.watcher ⟨1⟩) w'.memory).dropped = false

instance (w w' : World Unit (List Occurrence)) : Decidable (Furnished w w') :=
  decidable_of_iff (_ ∧ _ ∧ _ ∧ _ ∧ _ ∧ _ ∧ _ ∧ _ ∧ _)
    ⟨fun ⟨h₁, h₂, h₃, h₄, h₅, h₆, h₇, h₈, h₉⟩ => ⟨h₁, h₂, h₃, h₄, h₅, h₆, h₇, h₈, h₉⟩,
      fun h => ⟨h.made, h.reaction, h.element, h.shown, h.known, h.alone, h.home, h.lives, h.kept⟩⟩

open Engine in
/-- What a computation says of the worlds before and after a request, the first one made by a program. -/
theorem reached_of_run {α : Type} (program : Program Unit (List Occurrence) α)
    (request : Request Unit (List Occurrence))
    {P : World Unit (List Occurrence) → World Unit (List Occurrence) → Prop} [∀ w, DecidablePred (P w)]
    (hfirst : (runChecked (fun _ moment w => checkSimple w moment = true) Application.stubborn 6 program
      { memory := [] }).isSome = true)
    (hthen : (run Application.stubborn 6 program { memory := [] }).bind (fun before =>
      (run Application.stubborn 6 (.request request) before.2).map fun after =>
        (decide (P before.2 after.2), (runChecked (fun _ moment w => checkSimple w moment = true) Application.stubborn 6
          (.request request) before.2).isSome)) = some (true, true)) :
    ∃ w w', stubborn.Reached w ∧ stubborn.Performs (.request request) w w' ∧ P w w' := by
  have horderly : ∀ {β : Type} {next : Program Unit (List Occurrence) β} {w : World Unit (List Occurrence)},
      (runChecked (fun _ moment w => checkSimple w moment = true) Application.stubborn 6 next w).isSome = true →
        Throughout stubborn.order Application.stubborn 6 next w :=
    throughout_of_runChecked fun _ _ _ => orderly_of_checkSimple
  obtain ⟨⟨r, w⟩, hbefore, hthen⟩ := Option.bind_eq_some_iff.mp hthen
  obtain ⟨⟨r', w'⟩, hafter, hthen⟩ := Option.map_eq_some_iff.mp hthen
  simp only [Prod.mk.injEq, decide_eq_true_eq] at hthen
  exact ⟨w, w', .next (.beginning rfl) ⟨6, r, horderly hfirst, hbefore⟩, ⟨6, r', horderly hthen.2, hafter⟩, hthen.1⟩

/-- The text of the value that the path of a watcher leads to. -/
def pathText (w : World Unit (List Occurrence)) (i : WatcherId) : Option String :=
  (readPath (Engine.reentry Application.stubborn 6) (w.watcher i).root (w.watcher i).path none w).bind fun found =>
    found.1.toOption.map Value.text

theorem exists_of_pathText {i : WatcherId} {text : String} (h : pathText w i = some text) : ∃ value w',
    readPath (Engine.reentry Application.stubborn 6) (w.watcher i).root (w.watcher i).path none w
      = some (.ok value, w') ∧ value.text = text := by
  obtain ⟨⟨found, w'⟩, hread, h⟩ := Option.bind_eq_some_iff.mp h
  cases found with
  | error error => cases h
  | ok value => exact ⟨value, w', hread, Option.some.inj h⟩

end Realm

/-! ### What is shown in the end -/

namespace Engine

section Shown

variable [Inhabited Code] {k : Realm Code Memory} {w w' w'' : World Code Memory} {i : WatcherId} {n : NodeId}
  {depth : Nat} {reader : Option TrackerId} {value : Value}

/--
Nodes show what their paths come to. Let a watcher render a value on a node, and let nobody else set what the node
holds: no program, and no other watcher that shows something on it. If the node showed what the watcher knew, or the
watcher has reacted since, then after an orderly run the node shows a value that agrees with the one that the path of
the watcher has, if it has one.
-/
theorem nodes_show_paths (hk : k.Lawful) (hwatchers : k.watchers)
    (hprograms : k.application.Makes (Request.LeavesFront n)) (hw : k.Reached w) {α : Type}
    {program : Program Code Memory α} (hprogram : program.Makes (Request.LeavesFront n))
    (hperforms : k.Performs program w w') (hi : i.index < w.watchers.size) {updater : Updater}
    (hreaction : (w.watcher i).reaction = .render updater n) (hn : n.index < w.nodes.size)
    (hsets : updater.Sets (w.node n).isElement) (halone : ¬ w.Crowded i n w')
    (hmirrors : w.Mirrors i n (Value.front (w.node n).isElement) ∨ (w'.watcher i).fires ≠ (w.watcher i).fires)
    (htuned : k.Tuned w' i)
    (hread : readPath (reentry k.application depth) (w'.watcher i).root (w'.watcher i).path reader w'
      = some (.ok value, w'')) :
    ∃ shown : Value, shown.Agrees value ∧ (w'.node n).front = shown.front (w.node n).isElement := by
  have hknows := hw.knows hk hwatchers hperforms htuned hread
  obtain ⟨depth', r, -, hrun⟩ := hperforms
  have hdisplays : Displays k.application (fun _ _ _ => True) w i n (Value.front (w.node n).isElement) :=
    displays_render hprograms hreaction hsets
  have hreflects :=
    hdisplays.run hprogram (World.reflects_start hi hn) (throughout_of_holds (fun _ _ _ => trivial) _ _) hrun
  have hshown : w.Shown i n (Value.front (w.node n).isElement) w' := hreflects.shown.resolve_left halone
  exact ⟨_, hknows, hshown.mirrors hmirrors⟩

/-- The element shows what the embedder insists on, though neither of the two writes was rendered. -/
theorem nodes_show_paths_stubborn :
    Realm.stubborn.Lawful ∧ Application.stubborn.Makes (Request.LeavesFront ⟨0⟩) ∧
      ∃ w w' value w'', Realm.stubborn.Reached w ∧
        Realm.stubborn.Performs (.request (.set ⟨0⟩ "_" (.string "y"))) w w' ∧ Realm.Furnished w w' ∧
        (w'.watcher ⟨0⟩).fires = 2 ∧
        readPath (reentry Application.stubborn 6) (w'.watcher ⟨1⟩).root (w'.watcher ⟨1⟩).path none w'
          = some (.ok value, w'') ∧ value.text = "x" ∧
        ∃ shown : Value, shown.Agrees value ∧ (w'.node ⟨0⟩).front = shown.front (w.node ⟨0⟩).isElement := by
  have hlawful : Realm.stubborn.Lawful := ⟨fun _ _ => rfl, fun _ _ => rfl⟩
  have hprograms := Application.makes_stubborn ⟨0⟩
  obtain ⟨w, w', hw, hperforms, h, hfires, hpath⟩ := Realm.reached_of_run
    (P := fun w w' => Realm.Furnished w w' ∧ (w'.watcher ⟨0⟩).fires = 2 ∧ Realm.pathText w' ⟨1⟩ = some "x")
    Program.furnishing (.set ⟨0⟩ "_" (.string "y")) (by decide +kernel) (by decide +kernel)
  obtain ⟨value, w'', hread, htext⟩ := Realm.exists_of_pathText hpath
  refine ⟨hlawful, hprograms, w, w', value, w'', hw, hperforms, h, hfires, hread, htext, ?_⟩
  exact nodes_show_paths (k := Realm.stubborn) hlawful trivial hprograms hw
    (Program.makes_request (r := .set ⟨0⟩ "_" (.string "y")) fun _ _ => trivial) hperforms
    (by rw [h.made]; decide) h.reaction (World.index_lt_of_isElement h.element)
    (by simp [Updater.Sets, h.element]) h.alone
    (.inl (World.mirrors_of_value h.element (h.shown.trans h.known.symm))) ⟨h.home, h.lives, h.kept⟩ hread

/--
User input is shown, or else what the path comes to. Let a watcher render its value as the form value of an element,
and let nobody else set that. When something is typed into the element in an orderly run, then afterwards the watcher
has reacted, and the form value agrees with the value that the path has, if it has one; or it has not, the form value
is what was typed, and the path has the value that the watcher knew before.
-/
theorem input_shows_path (hk : k.Lawful) (hwatchers : k.watchers)
    (hprograms : k.application.Makes (Request.LeavesFront n)) (hw : k.Reached w) {typed : Value}
    (hperforms : k.Performs (.request (.input n typed)) w w') (hreaction : (w.watcher i).reaction = .render .value n)
    (helement : (w.node n).isElement = true) (halone : ¬ w.Crowded i n w') (htuned : k.Tuned w' i)
    (hread : readPath (reentry k.application depth) (w'.watcher i).root (w'.watcher i).path reader w'
      = some (.ok value, w'')) :
    (w.watcher i).fires < (w'.watcher i).fires ∧ (w'.node n).value.Agrees value ∨
      (w'.watcher i).fires = (w.watcher i).fires ∧ (w'.node n).value = typed ∧
        (w.watcher i).cached.Agrees value := by
  have hknows := hw.knows hk hwatchers hperforms htuned hread
  obtain ⟨depth', r, -, hrun⟩ := hperforms
  have hi : i.index < w.watchers.size := World.index_lt_of_reaction (by rw [hreaction]; exact nofun)
  have hkind := World.isElement_typed helement typed
  have hdisplays : Displays k.application (fun _ _ _ => True) (w.typed n typed) i n
      (Value.front ((w.typed n typed).node n).isElement) :=
    displays_render hprograms hreaction (iff_of_true rfl hkind)
  rw [run_request] at hrun
  have hreflects := hdisplays.input hi (World.index_lt_of_isElement helement) hrun
  have halone' : ¬ (w.typed n typed).Crowded i n w' := by
    rintro ⟨j, hj, hmade, hshows, hdisposed⟩
    rw [hkind, ← helement] at hshows
    exact halone ⟨j, hj, hmade, hshows, hdisposed⟩
  cases hreflects.shown.resolve_left halone' with
  | idle hfires hcached hfront =>
    rw [World.front_typed helement] at hfront
    exact .inr ⟨hfires, Node.value_of_front_inl hfront, hcached ▸ hknows⟩
  | reacted hfires hfront =>
    rw [hkind] at hfront
    exact .inl ⟨hfires, Node.value_of_front_inl hfront ▸ hknows⟩

/-- What was typed stays, though the embedder has put the field back to what it was. -/
theorem input_shows_path_stubborn :
    Realm.stubborn.Lawful ∧ Application.stubborn.Makes (Request.LeavesFront ⟨0⟩) ∧
      ∃ w w' value w'', Realm.stubborn.Reached w ∧
        Realm.stubborn.Performs (.request (.input ⟨0⟩ (.string "y"))) w w' ∧ Realm.Furnished w w' ∧
        readPath (reentry Application.stubborn 6) (w'.watcher ⟨1⟩).root (w'.watcher ⟨1⟩).path none w'
          = some (.ok value, w'') ∧ value.text = "x" ∧
        (w'.watcher ⟨1⟩).fires = (w.watcher ⟨1⟩).fires ∧ (w'.node ⟨0⟩).value = .string "y" ∧
        (w.watcher ⟨1⟩).cached.Agrees value := by
  have hlawful : Realm.stubborn.Lawful := ⟨fun _ _ => rfl, fun _ _ => rfl⟩
  have hprograms := Application.makes_stubborn ⟨0⟩
  obtain ⟨w, w', hw, hperforms, h, hfires, hpath⟩ := Realm.reached_of_run
    (P := fun w w' => Realm.Furnished w w' ∧ (w'.watcher ⟨1⟩).fires = (w.watcher ⟨1⟩).fires ∧
      Realm.pathText w' ⟨1⟩ = some "x")
    Program.furnishing (.input ⟨0⟩ (.string "y")) (by decide +kernel) (by decide +kernel)
  obtain ⟨value, w'', hread, htext⟩ := Realm.exists_of_pathText hpath
  refine ⟨hlawful, hprograms, w, w', value, w'', hw, hperforms, h, hread, htext, ?_⟩
  refine (input_shows_path (k := Realm.stubborn) hlawful trivial hprograms hw hperforms h.reaction h.element h.alone
    ⟨h.home, h.lives, h.kept⟩ hread).resolve_left fun hreacted => ?_
  exact Nat.lt_irrefl _ (Nat.lt_of_lt_of_eq hreacted.1 hfires)

end Shown

end Engine

end ViewBinding
