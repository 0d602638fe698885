import ViewBinding.Proofs.Agreeing
import ViewBinding.Proofs.Consulting

/-!
# Texts that agree with their paths

Whenever a watcher of a text reacts, the whole template is rendered anew. The watcher learns the value of its own path
first and renders afterwards, and nothing of the embedder comes between. So a text with one placeholder says what the
watcher knows, and rendering it cannot fail. In an orderly run the watcher knows the value of its path in the end.
-/

namespace ViewBinding

open Engine

variable {Code Memory : Type}

/-! ### One value for all placeholders -/

namespace Template

/-- What segments come to if one value stands for every placeholder. -/
def fill (value : Value) : List Segment → String
  | [] => ""
  | .literal text :: rest => text ++ fill value rest
  | .placeholder _ :: rest => value.text ++ fill value rest

/-- The text of a template with one value for every placeholder. -/
def filled (t : Template) (value : Value) : String :=
  fill value t.segments

/-- What a node holds by itself that shows a template. -/
def front (t : Template) (value : Value) : Value ⊕ String :=
  .inr (t.filled value)

theorem mem_paths {t : Template} {path : Path} : path ∈ t.paths ↔ .placeholder path ∈ t.segments := by
  simp only [paths, List.mem_filterMap]
  constructor
  · rintro ⟨segment, hsegment, hpath⟩
    cases segment with
    | literal text => cases hpath
    | placeholder other =>
      cases hpath
      exact hsegment
  · exact fun h => ⟨_, h, rfl⟩

end Template

namespace View

variable {v : View} {root : Value} {path : Path} {value : Value}

theorem gives_bind {α β : Type} {q : Query α} {next : α → Query β} {b : β} :
    v.Gives (q.bind next) (.ok b) ↔ ∃ a, v.Gives q (.ok a) ∧ v.Gives (next a) (.ok b) := by
  rw [Query.bind, gives_andThen]
  constructor
  · rintro ⟨r, hr, hb⟩
    cases r with
    | ok a => exact ⟨a, hr, hb⟩
    | error error => cases gives_done.mp hb
  · rintro ⟨a, ha, hb⟩
    exact ⟨.ok a, ha, hb⟩

/-- Segments come to what they are filled to, if the path of every placeholder leads to the value. -/
theorem gives_fill (hvalue : v.Gives (Query.path root path) (.ok value)) {l : List Template.Segment}
    (hl : ∀ other, .placeholder other ∈ l → other = path) :
    v.Gives (Query.segments root l) (.ok (Template.fill value l)) := by
  induction l with
  | nil => exact gives_done.mpr rfl
  | cons segment rest inductionHypothesis =>
    have hrest := inductionHypothesis fun other hother => hl other (List.mem_cons_of_mem _ hother)
    cases segment with
    | literal text => exact gives_bind.mpr ⟨_, hrest, gives_done.mpr rfl⟩
    | placeholder other =>
      obtain rfl := hl other List.mem_cons_self
      exact gives_bind.mpr ⟨value, hvalue, gives_bind.mpr ⟨_, hrest, gives_done.mpr rfl⟩⟩

/-- Segments that come to a text have placeholders whose paths lead somewhere. -/
theorem exists_value_of_segments {l : List Template.Segment} {text : String}
    (h : v.Gives (Query.segments root l) (.ok text)) (hpath : .placeholder path ∈ l) :
    ∃ value, v.Gives (Query.path root path) (.ok value) := by
  induction l generalizing text with
  | nil => cases hpath
  | cons segment rest inductionHypothesis =>
    cases segment with
    | literal other =>
      obtain ⟨others, hothers, -⟩ := gives_bind.mp h
      exact inductionHypothesis hothers ((List.mem_cons.mp hpath).resolve_left nofun)
    | placeholder other =>
      obtain ⟨value, hvalue, hrest⟩ := gives_bind.mp h
      obtain ⟨others, hothers, -⟩ := gives_bind.mp hrest
      rcases List.mem_cons.mp hpath with heq | hpath
      · cases heq
        exact ⟨value, hvalue⟩
      · exact inductionHypothesis hothers hpath

theorem along_segments {ok : Ask → Prop} (hok : ∀ object key, ok (.property object key)) (root : Value)
    (l : List Template.Segment) : v.Along ok (Query.segments root l) := by
  have hbind : ∀ {α β : Type} {q : Query α} {next : α → Query β}, v.Along ok q → (∀ a, v.Along ok (next a)) →
      v.Along ok (q.bind next) := by
    intro α β q next hq hnext
    refine along_andThen.mpr ⟨hq, fun r _ => ?_⟩
    cases r with
    | ok a => exact hnext a
    | error error => trivial
  induction l with
  | nil => trivial
  | cons segment rest inductionHypothesis =>
    cases segment with
    | literal text => exact hbind inductionHypothesis fun _ => trivial
    | placeholder path => exact hbind (along_path hok root path) fun _ => hbind inductionHypothesis fun _ => trivial

end View

/-! ### Rendering within a phase -/

variable [Inhabited Code]

/-- A watcher may begin to react while something is read. -/
theorem Setting.Phase.reacting {s : Setting Code Memory} {start w : World Code Memory} (h : s.Phase start w)
    (hquiet : ∀ o w, s.application.holds (s.application.notes o w) = s.application.holds w.memory) (i : WatcherId)
    (value : Value) : s.Phase start (w.reacting s.application i value value.refs) := by
  have hlearned : s.Phase start (w.learning i value) := by
    refine h.step ⟨rfl, fun _ => rfl, fun _ => rfl, rfl, rfl, rfl, rfl, rfl, rfl⟩ (fun _ => rfl) fun owner howner => ?_
    rw [World.alive_viewModel] at howner ⊢
    exact howner
  have hheld := hlearned.hold value.refs fun owner hmem => absurd hmem (ReadingRules.refs_no_viewModel value owner)
  exact (hheld.mapTracker (w.watcher i).tracker (·.push none)).aside (World.aside_note hquiet _ _)

namespace Realm

variable {k : Realm Code Memory} {w w' : World Code Memory}

/-- While no source is about to tell its subscribers, getters do as they should, and keys that stand for computed
properties stand for such as there are. -/
def manners (k : Realm Code Memory) : Proviso Code Memory := fun _ moment w =>
  (∀ s, moment ≠ .telling s) → k.Fair w ∧ w.Wired

theorem Performs.mannerly {α : Type} {program : Program Code Memory α} (h : k.Performs program w w') (hk : k.Lawful)
    (hw : k.Calm 0 (· ∈ []) w) : ∃ depth r, Throughout k.manners k.application depth program w ∧
      run k.application depth program w = some (r, w') := by
  obtain ⟨depth, r, horder, hrun⟩ := h
  have hmanners : ∀ (waiting : List Subscriber) moment w, ((∀ s, moment ≠ .telling s) → k.Heeds (· ∈ waiting) w) →
      k.Orderly moment w → k.manners waiting moment w := fun _ _ _ hheeds hmoment hquiet =>
    ⟨hmoment.fair, (hheeds hquiet).wired⟩
  exact ⟨depth, r, (heeds_from hk hmanners hw depth horder).1, hrun⟩

/-- Rendering a template gives what there is to be read. -/
theorem Fair.gives_segments (hk : k.Lawful) (hfair : k.Fair w) (hw : k.watchers) (hwired : w.Wired) {depth : Nat}
    {template : Template} {root : Value} {reader : Option TrackerId} {r : Except Error String}
    (hrun : renderTemplate (reentry k.application depth) template root reader w = some (r, w')) :
    (k.sight w).Gives (Query.segments root template.segments) r := by
  have hrules := Setting.sound_rules (hfair.fits hk) (application_reentry k.application depth)
    (Setting.soundRun_reentry (hfair.fits hk) depth) fun _ _ => True
  have hread := hrules.segments (m := ⟨(· = reader), fun _ => False⟩) rfl root template.segments
    (fun _ => False.elim) (View.along_segments (hfair.asks_property hw hwired) _ _) w hfair.phase _ _ hrun
  exact hread.2.gives

end Realm

namespace Engine

section Interpolating

variable {k : Realm Code Memory} {start w₀ w : World Code Memory} {i : WatcherId} {n : NodeId} {t : TrackerId}
  {template : Template} {c : Reentry Code Memory}
  (h : Reflecting k.application start i n template.front c) (hk : k.Lawful) (hwatchers : k.watchers)
  (hfair : k.Fair w₀) (hwired : w₀.Wired) (hrun : (k.setting w₀).SoundRun w₀ c)
  (hreaction : (start.watcher i).reaction = .interpolate template (start.watcher i).root t n)
  (hpaths : ∀ path ∈ template.paths, path = (start.watcher i).path) (htext : (start.node n).isElement = false)

include h hk hwatchers hfair hwired hrun hreaction hpaths htext

/-- What is rendered after the watcher has learned the value of its path is the template with this value. -/
theorem Reflecting.reacting_of_interpolate {value : Value} (hw : start.Reflects i n template.front .shown w)
    (hphase : (k.setting w₀).Phase w₀ w)
    (hvalue : ((k.setting w₀).view w₀).Gives (Query.path (start.watcher i).root (start.watcher i).path) (.ok value)) :
    Ends (w.learning i value)
      (Engine.keeping value.refs (framed (some (w.watcher i).tracker) none do
        note c (.reacting i value); Engine.react c (w.watcher i).reaction value))
      (Engine.keeping value.refs (framed (some (w.watcher i).tracker) none do
        note c (.reacting i value); Engine.react c (w.watcher i).reaction value))
      fun _ => start.Reflects i n template.front .shown := by
  rcases hw.shown with hcrowded | hshown
  · have hother : Pledge.never ≠ .shown := by decide
    have hnever : start.Reflects i n template.front .never (w.learning i value) :=
      World.Reflects.onward ⟨hw.watcher, hw.node, hw.later, .inl hcrowded⟩ hother (World.later_learning w i value)
    exact (h.reacting i _ value (.inl hother) _ hnever).mono fun _ _ hu => hu.loose
  have hrules := Setting.sound_rules (hfair.fits hk) h.left hrun fun _ _ => True
  have hown : (w.watcher i).reaction = .interpolate template (start.watcher i).root t n :=
    (hw.later.reaction hw.watcher).trans hreaction
  refine Ends.keeping _ (R := fun _ => start.Reflects i n template.front .shown) ?_ fun _ _ hu => hu.of_eq rfl rfl
  refine Ends.framed _ _ (R := fun _ => start.Reflects i n template.front .shown) ?_ fun _ _ hu => hu.of_eq rfl rfl
  unfold Engine.note
  rw [ends_update_bind, hown, Engine.react, h.left]
  let u := w.reacting k.application i value value.refs
  change Ends u _ _ _
  -- While the text is being rendered, the watcher knows more than the node shows, so nothing is promised of the node.
  have hopen : start.Reflects i n template.front .nothing u :=
    World.Reflects.onward ⟨hw.watcher, hw.node, hw.later, .inr trivial⟩ (by decide)
      (World.later_reacting w k.application i value value.refs)
  have hrender : Ends u (renderTemplate c template (start.watcher i).root (some t))
      (renderTemplate c template (start.watcher i).root (some t))
      ((k.setting w₀).Reads w₀ (Query.segments (start.watcher i).root template.segments) u) :=
    hrules.segments (m := ⟨(· = some t), fun _ => False⟩) rfl _ _ (fun _ => False.elim)
      (View.along_segments (hfair.asks_property hwatchers hwired) _ _) u (hphase.reacting hk.quiet i value)
  have hfills := View.gives_fill hvalue fun other hother => hpaths other (Template.mem_paths.mpr hother)
  refine (((h.perusal .nothing).renderTemplate template _ _ u hopen).and hrender).bind (fun text x hx => ?_)
    fun error x hx => ?_
  · obtain ⟨hx, hreads⟩ := hx
    obtain rfl : text = template.filled value := Except.ok.inj (View.Gives.unique hreads.gives hfills)
    rw [ends_update]
    have hface : (x.watcher i).face = (u.watcher i).face := hreads.rests.watchers i
    rw [World.watcher_reacting w k.application i value value.refs] at hface
    have hfires : (x.watcher i).fires = (w.watcher i).fires + 1 := congrArg Watcher.fires hface
    have hcached : (x.watcher i).cached = value := congrArg Watcher.cached hface
    have hset : (x.setText n (template.filled value)).watcher i = x.watcher i := by
      rw [World.setText_eq]
      rfl
    refine ⟨hw.watcher, hw.node, hx.later.trans (World.later_setText x n _), .inr (.reacted ?_ ?_)⟩
    · rw [hset, hfires]
      exact Nat.lt_succ_of_le hshown.fires_le
    · rw [hset, hcached, World.front_setText x n _ hx.there, if_pos ⟨rfl, hx.isElement.trans htext⟩]
      rfl
  · cases View.Gives.unique hx.2.gives hfills

/-- An update of a watcher that renders a template of its own path. -/
theorem Reflecting.updateWatcher_of_interpolate (hw : start.Reflects i n template.front .shown w)
    (hphase : (k.setting w₀).Phase w₀ w) :
    Ends w (updateWatcher c i) (updateWatcher c i) fun _ => start.Reflects i n template.front .shown := by
  have hrules := Setting.sound_rules (hfair.fits hk) h.left hrun fun _ _ => True
  refine Ends.keeping _ (R := fun _ => start.Reflects i n template.front .shown) ?_ fun _ _ hu => hu.of_eq rfl rfl
  replace hw : start.Reflects i n template.front .shown
      ({ w with held := [.watcher i] ++ w.held } : World Code Memory) := hw.of_eq rfl rfl
  replace hphase := hphase.hold [.watcher i] fun owner hmem => by simp at hmem
  generalize ({ w with held := [.watcher i] ++ w.held } : World Code Memory) = w at hw hphase ⊢
  rw [ends_inspect_bind]
  cases (w.watcher i).disposed with
  | true => exact (ends_pure ()).mpr hw
  | false =>
    obtain ⟨-, hroot, hpath, -⟩ := Watcher.fields_eq_of_made_eq (hw.later.made i hw.watcher)
    have hevaluate : Ends w (evaluateWatcher c i) (evaluateWatcher c i)
        ((k.setting w₀).Reads w₀ (Query.path (start.watcher i).root (start.watcher i).path) w) := by
      unfold evaluateWatcher
      rw [ends_inspect_bind, hroot, hpath]
      refine Setting.sound_evaluate (hfair.fits hk) h.left _ _ (fun v hv => ?_) hphase
      exact hrules.readPath (m := ⟨(· = some (w.watcher i).tracker), fun _ => False⟩) rfl _ _
        (fun _ => False.elim) (View.along_path (hfair.asks_property hwatchers hwired) _ _) v hv
    refine ((h.recurring.evaluateWatcher recurs_reflects i w hw).and hevaluate).bind (fun value v hv => ?_)
      fun _ _ hv => hv.1
    obtain ⟨hv, hreads⟩ := hv
    rw [ends_inspect_bind]
    split
    · exact (ends_pure ()).mpr hv
    · rw [ends_update_bind]
      exact h.reacting_of_interpolate hk hwatchers hfair hwired hrun hreaction hpaths htext hv hreads.phase hreads.gives

end Interpolating

/-- At the moments of an orderly run, a watcher of the one placeholder of a template leads back to what a text shows. -/
theorem displays_interpolate {k : Realm Code Memory} {start : World Code Memory} {i : WatcherId} {n : NodeId}
    {t : TrackerId} {template : Template} (hk : k.Lawful) (hwatchers : k.watchers)
    (hprograms : k.application.Makes (Request.LeavesFront n))
    (hreaction : (start.watcher i).reaction = .interpolate template (start.watcher i).root t n)
    (hpaths : ∀ path ∈ template.paths, path = (start.watcher i).path) (htext : (start.node n).isElement = false) :
    Displays k.application k.manners start i n template.front where
  programs := hprograms
  told {depth waiting w} h hP hw := by
    obtain ⟨hfair, hwired⟩ := hP fun _ => nofun
    exact h.updateWatcher_of_interpolate hk hwatchers hfair hwired
      (Setting.soundRun_reentryUnder (hfair.fits hk) k.manners depth waiting) hreaction hpaths htext (hw.of_eq rfl rfl)
      (hfair.phase.aside (World.aside_note hk.quiet _ _))
  asked {depth waiting w} h hP hw := by
    obtain ⟨hfair, hwired⟩ := hP fun _ => nofun
    exact h.updateWatcher_of_interpolate hk hwatchers hfair hwired
      (Setting.soundRun_reentryUnder (hfair.fits hk) k.manners depth waiting) hreaction hpaths htext hw hfair.phase

end Engine

/-! ### A text that is rendered twice -/

/-- Mounts a text that is bound to a field, and then watches the field. -/
def Program.captioning : Program Unit (List Occurrence) Unit := do
  let data ← request .newObject
  request (.insert data "_" (.string "x"))
  let owner ← request (.newViewModel { data := .object data })
  let text ← request (.newText "\x7b\x7b _ \x7d\x7d!")
  let root ← request (.newElement "div" [] [text])
  let _ ← request (.mount owner (.node root))
  let watcher ← request (.watchOn owner default ())
  request (.hold [.watcher watcher])

namespace Realm

/-- The first watcher shows a field on the first node, alone from the one world to the other. -/
structure Captioned (w w' : World Unit (List Occurrence)) (template : Template) (root : Value) (node : NodeId) :
    Prop where
  here : node = ⟨0⟩
  shown : root.object? = some ⟨1⟩
  watched : (w.watcher ⟨0⟩).root.object? = some ⟨1⟩
  paths : template.paths = [(w.watcher ⟨0⟩).path]
  there : 0 < w.nodes.size
  text : (w.node ⟨0⟩).isElement = false
  alone : ¬ w.Crowded ⟨0⟩ ⟨0⟩ w'
  fires : (w'.watcher ⟨0⟩).fires = (w.watcher ⟨0⟩).fires + 2
  home : (w'.watcher ⟨0⟩).tracker = ⟨0⟩
  lives : (w'.watcher ⟨0⟩).disposed = false
  kept : (Trail.ofHistory (.watcher ⟨0⟩) w'.memory).dropped = false

instance (w w' : World Unit (List Occurrence)) (template : Template) (root : Value) (node : NodeId) :
    Decidable (Captioned w w' template root node) :=
  decidable_of_iff (_ ∧ _ ∧ _ ∧ _ ∧ _ ∧ _ ∧ _ ∧ _ ∧ _ ∧ _ ∧ _)
    ⟨fun ⟨h₁, h₂, h₃, h₄, h₅, h₆, h₇, h₈, h₉, h₁₀, h₁₁⟩ =>
      ⟨h₁, h₂, h₃, h₄, h₅, h₆, h₇, h₈, h₉, h₁₀, h₁₁⟩,
      fun h => ⟨h.here, h.shown, h.watched, h.paths, h.there, h.text, h.alone, h.fires, h.home, h.lives, h.kept⟩⟩

/-- Whether it does, and what it shows is rendered as a text afterwards. -/
def captions (w w' : World Unit (List Occurrence)) (text : String) : Bool :=
  match (w.watcher ⟨0⟩).reaction with
  | .interpolate template root _ node => decide (Captioned w w' template root node) &&
      decide ((renderTemplate (reentry Application.stubborn 6) template (w.watcher ⟨0⟩).root none w').map
        (·.1.toOption) = some (some text))
  | _ => false

theorem exists_of_captions {w w' : World Unit (List Occurrence)} {text : String} (h : captions w w' text = true) :
    ∃ template t w'', (w.watcher ⟨0⟩).reaction = .interpolate template (w.watcher ⟨0⟩).root t ⟨0⟩ ∧
      Captioned w w' template (w.watcher ⟨0⟩).root ⟨0⟩ ∧
      renderTemplate (reentry Application.stubborn 6) template (w.watcher ⟨0⟩).root none w' = some (.ok text, w'') := by
  unfold captions at h
  split at h
  · next template root t node hreaction =>
    simp only [Bool.and_eq_true, decide_eq_true_eq] at h
    obtain ⟨hcaptioned, hrender⟩ := h
    obtain ⟨⟨r, w''⟩, hrun, hr⟩ := Option.map_eq_some_iff.mp hrender
    obtain rfl := hcaptioned.here
    have hroot : root = (w.watcher ⟨0⟩).root := (Value.eq_object_of_object? hcaptioned.shown).trans
      (Value.eq_object_of_object? hcaptioned.watched).symm
    subst hroot
    cases r with
    | error error => cases hr
    | ok shown =>
      obtain rfl : shown = text := Option.some.inj hr
      exact ⟨template, t, w'', hreaction, hcaptioned, hrun⟩
  · cases h

end Realm

/-! ### What texts say in the end -/

namespace Engine

/--
Texts show what their paths come to. Let a text node be bound to a template with one placeholder, and let nobody else
set what the node holds: no program, and no other watcher that shows something on it. If the text said what the watcher
of the placeholder knew, or the watcher has reacted since, then after an orderly run, if the template can be rendered,
the node says the template filled with a value that agrees with the one that it is rendered with.
-/
theorem texts_show_paths {k : Realm Code Memory} {w w' w'' : World Code Memory} {i : WatcherId} {n : NodeId}
    (hk : k.Lawful) (hwatchers : k.watchers) (hprograms : k.application.Makes (Request.LeavesFront n))
    (hw : k.Reached w) {α : Type} {program : Program Code Memory α} (hprogram : program.Makes (Request.LeavesFront n))
    (hperforms : k.Performs program w w') {template : Template} {t : TrackerId}
    (hreaction : (w.watcher i).reaction = .interpolate template (w.watcher i).root t n)
    (hpaths : template.paths = [(w.watcher i).path]) (hn : n.index < w.nodes.size)
    (htext : (w.node n).isElement = false) (halone : ¬ w.Crowded i n w')
    (hmirrors : w.Mirrors i n template.front ∨ (w'.watcher i).fires ≠ (w.watcher i).fires) (htuned : k.Tuned w' i)
    {depth : Nat} {reader : Option TrackerId} {text : String}
    (hrender : renderTemplate (reentry k.application depth) template (w.watcher i).root reader w'
      = some (.ok text, w'')) :
    ∃ shown value : Value, shown.Agrees value ∧ text = template.filled value ∧
      w'.node n = .text (template.filled shown) := by
  have hi : i.index < w.watchers.size := World.index_lt_of_reaction (by rw [hreaction]; exact nofun)
  have hready := hperforms.ready hk (hw.calm hk)
  have hwired := hready.heeds.wired
  have hsame : ∀ path ∈ template.paths, path = (w.watcher i).path := by simp [hpaths]
  obtain ⟨depth', r, hmanners, hrun⟩ := hperforms.mannerly hk (hw.calm hk)
  have hreflects := (displays_interpolate hk hwatchers hprograms hreaction hsame htext).run hprogram
    (World.reflects_start hi hn) hmanners hrun
  have hshown : w.Shown i n template.front w' := hreflects.shown.resolve_left halone
  obtain ⟨-, hroot, hpath, -⟩ := Watcher.fields_eq_of_made_eq (hreflects.later.made i hi)
  have hgives := hready.fair.gives_segments hk hwatchers hwired hrender
  obtain ⟨value, hvalue⟩ := View.exists_value_of_segments hgives
    (Template.mem_paths.mp (hpaths ▸ List.mem_cons_self))
  obtain ⟨least, hreads⟩ := hready.fair.reads_path hk hwatchers hwired hvalue none
  obtain ⟨v, hread⟩ := hreads least (Nat.le_refl _)
  rw [← hroot, ← hpath] at hread
  have hknows := hw.knows hk hwatchers hperforms htuned hread
  have hfills := View.gives_fill hvalue fun other hother => hsame other (Template.mem_paths.mpr hother)
  refine ⟨_, value, hknows, Except.ok.inj (View.Gives.unique hgives hfills), ?_⟩
  have hfront : (w'.node n).front = .inr (template.filled (w'.watcher i).cached) := hshown.mirrors hmirrors
  cases hnode : w'.node n with
  | text content => exact congrArg Node.text (Sum.inr.inj (hnode ▸ hfront))
  | element e => cases (hnode ▸ hfront : (Node.element e).front = _)

/-- The text is rendered with what is written, and again with what the embedder insists on. -/
theorem texts_show_paths_captioning :
    Realm.stubborn.Lawful ∧ Application.stubborn.Makes (Request.LeavesFront ⟨0⟩) ∧
      ∃ w w' template t w'', Realm.stubborn.Reached w ∧
        Realm.stubborn.Performs (.request (.set ⟨0⟩ "_" (.string "y"))) w w' ∧
        (w.watcher ⟨0⟩).reaction = .interpolate template (w.watcher ⟨0⟩).root t ⟨0⟩ ∧
        Realm.Captioned w w' template (w.watcher ⟨0⟩).root ⟨0⟩ ∧
        renderTemplate (reentry Application.stubborn 6) template (w.watcher ⟨0⟩).root none w' = some (.ok "x!", w'') ∧
        ∃ shown value : Value, shown.Agrees value ∧ "x!" = template.filled value ∧
          w'.node ⟨0⟩ = .text (template.filled shown) := by
  have hlawful : Realm.stubborn.Lawful := ⟨fun _ _ => rfl, fun _ _ => rfl⟩
  have hprograms := Application.makes_stubborn ⟨0⟩
  obtain ⟨w, w', hw, hperforms, hcaptions⟩ := Realm.reached_of_run
    (P := fun w w' => Realm.captions w w' "x!" = true) Program.captioning (.set ⟨0⟩ "_" (.string "y"))
    (by decide +kernel) (by decide +kernel)
  obtain ⟨template, t, w'', hreaction, h, hrender⟩ := Realm.exists_of_captions hcaptions
  refine ⟨hlawful, hprograms, w, w', template, t, w'', hw, hperforms, hreaction, h, hrender, ?_⟩
  have hreacted : (w'.watcher ⟨0⟩).fires ≠ (w.watcher ⟨0⟩).fires := by
    rw [h.fires]
    omega
  exact texts_show_paths (k := Realm.stubborn) hlawful trivial hprograms hw
    (Program.makes_request (r := .set ⟨0⟩ "_" (.string "y")) fun _ _ => trivial) hperforms hreaction h.paths h.there
    h.text h.alone (.inr hreacted) ⟨h.home, h.lives, h.kept⟩ hrender

end Engine

end ViewBinding
