import ViewBinding.Proofs.Compiling
import ViewBinding.Proofs.Echoing
import ViewBinding.Proofs.Markup

/-!
# What visiting a node comes to

Whether an attribute can be carried out, and what its node shows then, is the outcome of a query about the
data. So is the list of failures of an element, and whether a template can be shown. These outcomes are the
same whenever the node is visited, as long as the data stay the same.
-/

namespace ViewBinding

open Engine

variable {Code Memory : Type} [Inhabited Code]

/-! ### Queries of directives and templates -/

namespace Query

/-- What is shown of a path, and how. -/
def rendered (root : ObjectId) (expression : String) (updater : Updater) :
    Query (Option (Updater × Value)) :=
  match Path.parse expression with
  | .ok p => (path (.object root) p).bind fun value => .done (.ok (some (updater, value)))
  | .error e => .done (.error e)

/-- What an installer has to know to carry out a directive, and what it shows. -/
def installed {Code : Type} (root : ObjectId) (directive : Directive) :
    Installer Code → Query (Option (Updater × Value))
  | .model => rendered root directive.expression .value
  | .render updater => rendered root directive.expression updater
  | .on =>
    match directive.argument with
    | none => .done (.error (.missingArgument DirectiveKind.on.name))
    | some _ => (property root directive.expression).bind fun
      | .function _ _ => .done (.ok none)
      | _ => .done (.error (.notCallable directive.expression))
  | .custom _ => .done (.ok none)

/-- The paths of placeholders, one after the other. -/
def paths (root : Value) : List Path → Query Unit
  | [] => .done (.ok ())
  | p :: rest => (path root p).bind fun _ => paths root rest

end Query

namespace World

/-- What carrying out an attribute has to know, and what it shows. -/
def attributeQuery (w : World Code Memory) (owner : ViewModelId) (name value : String) :
    Query (Option (Updater × Value)) :=
  match Directive.parse name value (w.viewModel owner).settings.mark with
  | .error e => .done (.error e)
  | .ok none => .done (.ok none)
  | .ok (some directive) =>
    match (w.viewModel owner).registry.find? directive.kind with
    | none => .done (.error (.unknownDirective directive.kind.name))
    | some installer => Query.installed (w.viewModel owner).root directive installer

/-- None of some attributes is a directive. -/
def Ordinary (w : World Code Memory) (owner : ViewModelId) (attributes : List (String × String)) : Prop :=
  ∀ p ∈ attributes, Directive.parse p.1 p.2 (w.viewModel owner).settings.mark = .ok none

/-- What showing a text as a template has to know, and what it shows. -/
def templateQuery (w : World Code Memory) (owner : ViewModelId) (text : String) : Query String :=
  match Template.parse text (w.viewModel owner).settings.delimiters with
  | .error e => .done (.error e)
  | .ok template => (Query.paths (.object (w.viewModel owner).root) template.paths).bind fun _ =>
      Query.segments (.object (w.viewModel owner).root) template.segments

end World

namespace View

variable {α β : Type} {v : View}

theorem gives_bind_ok {q : Query α} {next : α → Query β} {a : α} {r : Except Error β}
    (hq : v.Gives q (.ok a)) (hr : v.Gives (next a) r) : v.Gives (q.bind next) r :=
  gives_andThen.mpr ⟨.ok a, hq, hr⟩

theorem gives_bind_error {q : Query α} {next : α → Query β} {e : Error} (hq : v.Gives q (.error e)) :
    v.Gives (q.bind next) (.error e) :=
  gives_andThen.mpr ⟨.error e, hq, gives_done.mpr rfl⟩

end View

/-! ### Installing at a later world -/

namespace Setting

variable {s : Setting Code Memory} {start w w' : World Code Memory} {c : Reentry Code Memory}
  {n : NodeId} {owner : ViewModelId} {b : BindingId} {α : Type}

/-- How carrying out a directive on a node may end: as its query does at the start, and the node shows
what the query says. -/
structure Judged (s : Setting Code Memory) (start : World Code Memory) (n : NodeId)
    (q : Query (Option (Updater × Value))) (w : World Code Memory) (r : Except Error α)
    (w' : World Code Memory) : Prop where
  echoes : s.Echoes start w'
  viewModels : w'.viewModels = w.viewModels
  held : w'.held = w.held
  gives : ∃ a, (s.view start).Gives q a ∧ (∀ e, r = .error e ↔ a = .error e) ∧
    World.Dressed n (Content.of? (a.toOption.bind id)) w w'

theorem Judged.released {q : Query (Option (Updater × Value))} {r : Except Error α} {refs : List Ref}
    (hrefs : ∀ owner, Ref.viewModel owner ∉ refs)
    (h : s.Judged start n q { w with held := refs ++ w.held } r w') :
    s.Judged start n q w r { w' with held := w.held } where
  echoes := h.echoes.released h.held hrefs
  viewModels := h.viewModels
  held := rfl
  gives := by
    obtain ⟨a, ha, hr, hdressed⟩ := h.gives
    exact ⟨a, ha, hr, hdressed.of_nodes rfl rfl⟩

/-- A step that fails changes nothing that is seen. -/
theorem judged_error {q : Query (Option (Updater × Value))} {e : Error} (hw : s.Echoes start w')
    (hviewModels : w'.viewModels = w.viewModels) (hheld : w'.held = w.held)
    (hq : (s.view start).Gives q (.error e)) (hnodes : w'.nodes = w.nodes) :
    s.Judged start n q w (.error e : Except Error α) w' :=
  ⟨hw, hviewModels, hheld, .error e, hq, fun _ => ⟨fun h => congrArg _ (Except.error.inj h),
    fun h => congrArg _ (Except.error.inj h)⟩, (World.looks_of_nodes hnodes).dressed n⟩

theorem judged_ok {q : Query (Option (Updater × Value))} {a : α} (shown : Option (Updater × Value))
    (hw : s.Echoes start w') (hviewModels : w'.viewModels = w.viewModels) (hheld : w'.held = w.held)
    (hq : (s.view start).Gives q (.ok shown)) (hdressed : World.Dressed n (Content.of? shown) w w') :
    s.Judged start n q w (.ok a) w' :=
  ⟨hw, hviewModels, hheld, .ok shown, hq, fun _ => ⟨fun h => (by cases h), fun h => (by cases h)⟩, hdressed⟩

/-- What a step answers when it does not fail makes no difference. -/
theorem Judged.recast {β : Type} {q : Query (Option (Updater × Value))} {r : Except Error α}
    {r' : Except Error β} (h : s.Judged start n q w r w') (hr : ∀ e, r' = .error e ↔ r = .error e) :
    s.Judged start n q w r' w' := by
  obtain ⟨hechoes, hviewModels, hheld, a, ha, hsame, hdressed⟩ := h
  exact ⟨hechoes, hviewModels, hheld, a, ha, fun e => (hr e).trans (hsame e), hdressed⟩

theorem Judged.addListener {q : Query (Option (Updater × Value))} {r : Except Error α}
    (h : s.Judged start n q w r w') (event : String) (listener : Listener Code) :
    s.Judged start n q w r (w'.mapNode n (·.addListener event listener)) := by
  obtain ⟨hechoes, hviewModels, hheld, a, ha, hr, hdressed⟩ := h
  exact ⟨hechoes.hosted _ _ _ _, hviewModels, hheld, a, ha, hr,
    hdressed.then_looks (World.looks_addListener w' n event listener)⟩

theorem Heard.watchFor (hheard : s.Heard start c) (hw : s.Echoes start w) (owner : ViewModelId)
    (b : BindingId) (path : Path) (reaction : Reaction Code) :
    Ends w (watchFor c owner b path reaction) (watchFor c owner b path reaction) fun r w' =>
      s.Echoing start (Query.path (.object (start.viewModel owner).root) path) w
        (r.map fun x => (w'.watcher x).cached) w' := by
  rw [Engine.watchFor, watchOn, bind_assoc, ends_inspect_bind, hw.kin.root]
  refine (hheard.watch hw _ _ path reaction).bind (fun x v h => ?_) fun e v h => h
  rw [ends_update_bind, ends_pure]
  exact ⟨h.gives, h.echoes.hosted _ _ _ _, h.nodes, h.viewModels, h.held⟩

/-- A path that is shown on an element. -/
theorem Heard.installRender (hheard : s.Heard start c) (hw : s.Echoes start w)
    (helement : (w.node n).isElement = true) (kind : DirectiveKind) (updater : Updater) (path : Path) :
    Ends w (installRender c owner n kind updater path) (installRender c owner n kind updater path)
      (s.Judged start n ((Query.path (.object (start.viewModel owner).root) path).bind fun value =>
        .done (.ok (some (updater, value)))) w) := by
  rw [Engine.installRender, ends_create_bind]
  let row : Binding := { node := n, kind, expression := path.text }
  let b : BindingId := w.bindings.fresh
  let added := (({ w with held := [.binding b] ++ w.held } : World Code Memory).addBinding row).2
  have hadded : s.Echoes start added :=
    (hw.holding [.binding b] (by simp)).hosted _ _ _ _
  refine Ends.keeping [.binding b] (R := s.Judged start n
    ((Query.path (.object (start.viewModel owner).root) path).bind fun value =>
      .done (.ok (some (updater, value)))) { w with held := [.binding b] ++ w.held }) ?_
    fun _ _ h => h.released (by simp)
  refine (hheard.watchFor hadded owner b path (.render updater n)).bind (fun x v h => ?_) fun e v h => ?_
  · rw [ends_update_bind, ends_pure]
    have hshown := World.display_eq v updater n (v.watcher x).cached
    have hnodes : (v.display updater n (v.watcher x).cached).nodes
        = (w.display updater n (v.watcher x).cached).nodes :=
      World.nodes_display_congr (w := w) h.nodes updater n _
    refine judged_ok (some (updater, (v.watcher x).cached)) ?_ ?_ ?_ ?_ ?_
    · rw [hshown]
      exact h.echoes.hosted _ _ _ _
    · rw [hshown]
      exact h.viewModels
    · rw [hshown]
      exact h.held
    · exact View.gives_bind_ok h.gives (View.gives_done.mpr rfl)
    · exact (World.dressed_display w updater _ helement).of_nodes rfl hnodes
  · exact judged_error h.echoes h.viewModels h.held (View.gives_bind_error h.gives) h.nodes

/-- A directive is carried out if its query has a result. -/
theorem Heard.install (hheard : s.Heard start c) (hw : s.Echoes start w)
    (helement : (w.node n).isElement = true) {directive : Directive} {installer : Installer Code}
    (hinstaller : ∀ code, installer ≠ .custom code) :
    Ends w (install c installer owner n directive) (install c installer owner n directive)
      (s.Judged start n (Query.installed (start.viewModel owner).root directive installer) w) := by
  have hrender : ∀ (kind : DirectiveKind) (updater : Updater) (path : Path),
      Path.parse directive.expression = .ok path →
      Ends w (Engine.installRender c owner n kind updater path)
        (Engine.installRender c owner n kind updater path) (s.Judged start n
        (Query.rendered (start.viewModel owner).root directive.expression updater) w) := by
    intro kind updater path hpath
    rw [Query.rendered, hpath]
    exact hheard.installRender hw helement kind updater path
  have hfails : ∀ {updater : Updater} (e : Error), Path.parse directive.expression = .error e →
      s.Judged start n (Query.rendered (start.viewModel owner).root directive.expression updater) w
        (.error e : Except Error BindingId) w := by
    intro updater e he
    refine judged_error hw rfl rfl ?_ rfl
    rw [Query.rendered, he]
    exact View.gives_done.mpr rfl
  cases installer with
  | custom code => exact absurd rfl (hinstaller code)
  | render updater =>
    rw [Engine.install, ends_ofExcept_bind]
    split
    · next path hpath => exact hrender directive.kind updater path hpath
    · next e he => exact hfails e he
  | model =>
    rw [Engine.install, installModel, ends_ofExcept_bind]
    split
    · next path hpath =>
      refine (hrender .model .value path hpath).bind (fun b v h => ?_) fun e v h => ?_
      · rw [ends_update_bind, ends_pure]
        exact h.addListener "input" _
      · exact h
    · next e he => exact hfails e he
  | on =>
    rw [Engine.install, installOn]
    cases hargument : directive.argument with
    | none =>
      refine (ends_throw _).mpr (judged_error hw rfl rfl ?_ rfl)
      rw [Query.installed, hargument]
      exact View.gives_done.mpr rfl
    | some event =>
      simp only [ends_inspect_bind]
      rw [hw.kin.root]
      refine (hheard.get hw _ directive.expression none).bind (fun value v h => ?_) fun e v h => ?_
      · have hother : (s.view start).Gives (Query.installed (start.viewModel owner).root directive
              (.on : Installer Code)) (.error (.notCallable directive.expression)) →
            Ends v (throw (.notCallable directive.expression) : Engine Code Memory BindingId)
              (throw (.notCallable directive.expression)) (s.Judged start n
                (Query.installed (start.viewModel owner).root directive (.on : Installer Code)) w) :=
          fun hq => (ends_throw _).mpr (judged_error h.echoes h.viewModels h.held hq h.nodes)
        cases value with
        | function id name =>
          simp only
          rw [ends_create_bind, ends_update_bind, ends_pure]
          refine judged_ok none (h.echoes.hosted _ _ _ _) h.viewModels h.held ?_ ?_
          · rw [Query.installed, hargument]
            exact View.gives_bind_ok h.gives (View.gives_done.mpr rfl)
          · refine World.Looks.dressed (World.Looks.trans ?_ (World.looks_addListener _ n _ _)) n
            exact World.looks_of_nodes h.nodes
        | _ =>
          refine hother ?_
          rw [Query.installed, hargument]
          exact View.gives_bind_ok h.gives (View.gives_done.mpr rfl)
      · refine judged_error h.echoes h.viewModels h.held ?_ h.nodes
        rw [Query.installed, hargument]
        exact View.gives_bind_error h.gives

/-- An attribute is carried out if its query has a result. -/
theorem Heard.installAttribute (hheard : s.Heard start c) (hw : s.Echoes start w)
    (hstandard : (start.viewModel owner).registry = Registry.standard)
    (helement : (w.node n).isElement = true) (name value : String) :
    Ends w (installAttribute c owner n name value) (installAttribute c owner n name value) fun r w' =>
      s.Judged start n (start.attributeQuery owner name value) w r w' ∧
        (r = .ok none ↔ start.Ordinary owner [(name, value)]) := by
  rw [Engine.installAttribute, ends_inspect_bind, hw.kin.settings owner, hw.kin.registry owner,
    World.attributeQuery]
  simp only [World.Ordinary, List.forall_mem_singleton]
  cases Directive.parse name value (start.viewModel owner).settings.mark with
  | error e =>
    exact (ends_throw e).mpr ⟨judged_error hw rfl rfl (View.gives_done.mpr rfl) rfl,
      fun h => (by cases h), fun h => (by cases h)⟩
  | ok directive? =>
    rw [ends_ofExcept_bind]
    cases directive? with
    | none =>
      exact (ends_pure _).mpr ⟨judged_ok none hw rfl rfl (View.gives_done.mpr rfl)
        ((World.Looks.refl w).dressed n), fun _ => rfl, fun _ => rfl⟩
    | some directive =>
      simp only [hstandard]
      have hsome : ∃ installer : Installer Code, Registry.standard.find? directive.kind
          = some installer ∧ ∀ code, installer ≠ .custom code := by
        cases directive.kind <;> exact ⟨_, rfl, fun _ h => by cases h⟩
      obtain ⟨installer, hinstaller, hbuiltIn⟩ := hsome
      simp only [hinstaller]
      refine (hheard.install hw helement hbuiltIn).bind (fun b v h => ?_) fun e v h => ?_
      · rw [ends_pure]
        exact ⟨h.recast fun e => ⟨fun he => (by cases he), fun he => (by cases he)⟩,
          fun h => (by cases h), fun h => (by cases h)⟩
      · exact ⟨h.recast fun e' => ⟨fun he => congrArg _ (Except.error.inj he),
          fun he => congrArg _ (Except.error.inj he)⟩, fun h => (by cases h), fun h => (by cases h)⟩

/-! ### Elements -/

/-- What the queries of attributes come to: the failures in order, with the raw values of their attributes,
and the content that the node gets in the end. -/
inductive Ruled (s : Setting Code Memory) (start : World Code Memory) (owner : ViewModelId) :
    List (String × String) → List (String × Error) → Option Content → Prop
  | nil : Ruled s start owner [] [] none
  | carried {name value : String} {rest : List (String × String)} {fs : List (String × Error)}
      {shown : Option (Updater × Value)} {content? : Option Content}
      (hgives : (s.view start).Gives (start.attributeQuery owner name value) (.ok shown))
      (hrest : Ruled s start owner rest fs content?) :
      Ruled s start owner ((name, value) :: rest) fs (content?.or (Content.of? shown))
  | failed {name value : String} {rest : List (String × String)} {fs : List (String × Error)} {e : Error}
      {content? : Option Content}
      (hgives : (s.view start).Gives (start.attributeQuery owner name value) (.error e))
      (hrest : Ruled s start owner rest fs content?) :
      Ruled s start owner ((name, value) :: rest) ((value, e) :: fs) content?

/-- Attributes come to the same whenever they are carried out. -/
theorem Ruled.unique {attributes : List (String × String)} {fs fs' : List (String × Error)}
    {content? content?' : Option Content} (h : s.Ruled start owner attributes fs content?)
    (h' : s.Ruled start owner attributes fs' content?') : fs = fs' ∧ content? = content?' := by
  induction h generalizing fs' content?' with
  | nil =>
    cases h'
    exact ⟨rfl, rfl⟩
  | carried hgives _ inductionHypothesis =>
    cases h' with
    | carried hgives' hrest' =>
      obtain ⟨rfl, rfl⟩ := inductionHypothesis hrest'
      cases View.Gives.unique hgives hgives'
      exact ⟨rfl, rfl⟩
    | failed hgives' _ => cases View.Gives.unique hgives hgives'
  | failed hgives _ inductionHypothesis =>
    cases h' with
    | carried hgives' _ => cases View.Gives.unique hgives hgives'
    | failed hgives' hrest' =>
      obtain ⟨rfl, rfl⟩ := inductionHypothesis hrest'
      cases View.Gives.unique hgives hgives'
      exact ⟨rfl, rfl⟩

theorem ruled_ordinary {attributes : List (String × String)} (h : start.Ordinary owner attributes) :
    s.Ruled start owner attributes [] none := by
  induction attributes with
  | nil => exact .nil
  | cons pair rest inductionHypothesis =>
    obtain ⟨name, value⟩ := pair
    obtain ⟨hparse, hrest⟩ := List.forall_mem_cons.mp h
    have hgives : (s.view start).Gives (start.attributeQuery owner name value) (.ok none) := by
      rw [World.attributeQuery, hparse]
      exact View.gives_done.mpr rfl
    exact .carried hgives (inductionHypothesis hrest)

/-- Attributes of a node were carried out with failures, and the node got a content. -/
structure Worn (s : Setting Code Memory) (start : World Code Memory) (owner : ViewModelId) (n : NodeId)
    (attributes : List (String × String)) (fs : List (String × Error)) (w w' : World Code Memory) :
    Prop where
  echoes : s.Echoes start w'
  viewModels : w'.viewModels = w.viewModels
  held : w'.held = w.held
  ruled : ∃ content?, s.Ruled start owner attributes fs content? ∧ World.Dressed n content? w w'

theorem Worn.released {attributes : List (String × String)} {fs : List (String × Error)} {refs : List Ref}
    (hrefs : ∀ owner, Ref.viewModel owner ∉ refs)
    (h : s.Worn start owner n attributes fs { w with held := refs ++ w.held } w') :
    s.Worn start owner n attributes fs w { w' with held := w.held } where
  echoes := h.echoes.released h.held hrefs
  viewModels := h.viewModels
  held := rfl
  ruled := by
    obtain ⟨content?, hruled, hdressed⟩ := h.ruled
    exact ⟨content?, hruled, hdressed.of_nodes rfl rfl⟩

/-- Attributes of an element come to what their queries come to. -/
theorem Heard.installAttributes (hheard : s.Heard start c)
    (hstandard : (start.viewModel owner).registry = Registry.standard)
    (attributes : List (String × String)) (hw : s.Echoes start w)
    (helement : (w.node n).isElement = true) :
    Ends w (installAttributes c owner n attributes) (installAttributes c owner n attributes) fun r w' =>
      ∃ bs fs, r = .ok (bs, fs.map fun f => .binding (w.nodeName n) f.1 f.2) ∧
        s.Worn start owner n attributes fs w w' ∧ (bs = [] ∧ fs = [] ↔ start.Ordinary owner attributes) := by
  induction attributes generalizing w with
  | nil =>
    exact (ends_pure _).mpr ⟨[], [], rfl, ⟨hw, rfl, rfl, none, .nil, (World.Looks.refl w).dressed n⟩,
      fun _ _ h => absurd h List.not_mem_nil, fun _ => ⟨rfl, rfl⟩⟩
  | cons pair rest inductionHypothesis =>
    obtain ⟨name, value⟩ := pair
    rw [Engine.installAttributes]
    have hcons : start.Ordinary owner ((name, value) :: rest) ↔
        start.Ordinary owner [(name, value)] ∧ start.Ordinary owner rest := by
      simp [World.Ordinary]
    refine (hheard.installAttribute hw hstandard helement name value).attempt_bind fun r w₁ h => ?_
    obtain ⟨⟨hechoes, hviewModels, hheld, a, ha, hr, hdressed⟩, hplain⟩ := h
    have helement₁ : (w₁.node n).isElement = true := hdressed.isElement.trans helement
    have hname : w₁.nodeName n = w.nodeName n := by
      rw [World.nodeName, hdressed.name, World.nodeName]
    cases r with
    | error e =>
      obtain rfl := (hr e).mp rfl
      simp only
      rw [ends_inspect_bind]
      refine (inductionHypothesis hechoes helement₁).bind ?_ ?_
      · rintro ⟨bs, errors⟩ w₂ ⟨bs, fs, hr, hworn, -⟩
        cases hr
        rw [ends_pure, World.bindingError, hname]
        obtain ⟨content?, hruled, hdressed'⟩ := hworn.ruled
        refine ⟨bs, (value, e) :: fs, rfl, ⟨hworn.echoes, hworn.viewModels.trans hviewModels,
          hworn.held.trans hheld, content?, .failed ha hruled, ?_⟩, fun h => absurd h.2 (List.cons_ne_nil _ _),
          fun h => ?_⟩
        · rw [← Option.or_none (o := content?)]
          exact hdressed.trans hdressed'
        · cases hplain.mpr (hcons.mp h).1
      · rintro e w₂ ⟨bs, fs, hr, -⟩
        cases hr
    | ok b? =>
      cases a with
      | error e => cases (hr e).mpr rfl
      | ok shown =>
        have hworn : ∀ {fs w₂}, s.Worn start owner n rest fs w₁ w₂ →
            s.Worn start owner n ((name, value) :: rest) fs w w₂ := by
          rintro fs w₂ ⟨hechoes', hviewModels', hheld', content?, hruled, hdressed'⟩
          exact ⟨hechoes', hviewModels'.trans hviewModels, hheld'.trans hheld, _, .carried ha hruled,
            hdressed.trans hdressed'⟩
        cases b? with
        | none =>
          refine (inductionHypothesis hechoes helement₁).mono fun r w₂ h => ?_
          obtain ⟨bs, fs, hr, h, hrest⟩ := h
          exact ⟨bs, fs, hname ▸ hr, hworn h, by rw [hcons, ← hrest, and_iff_right (hplain.mp rfl)]⟩
        | some b =>
          refine (Ends.keeping [.binding b] (inductionHypothesis
            (hechoes.holding [.binding b] (by simp)) helement₁)
            (Q := fun r w₂ => ∃ bs fs, r = .ok (bs, fs.map fun f => .binding (w₁.nodeName n) f.1 f.2) ∧
              s.Worn start owner n rest fs w₁ w₂) fun r w₂ h => ?_).bind ?_ ?_
          · obtain ⟨bs, fs, hr, h, -⟩ := h
            exact ⟨bs, fs, hr, h.released (by simp)⟩
          · rintro ⟨bs, errors⟩ w₂ ⟨bs', fs, hr, h⟩
            cases hr
            rw [ends_pure, hname]
            refine ⟨b :: bs, fs, rfl, hworn h, fun h => absurd h.1 (List.cons_ne_nil _ _), fun h => ?_⟩
            cases hplain.mpr (hcons.mp h).1
          · rintro e w₂ ⟨bs, fs, hr, -⟩
            cases hr

theorem Echoes.record (h : s.Echoes start w) (owner : ViewModelId) (n : NodeId) (bs : List BindingId) :
    s.Echoes start (w.record owner n bs) := by
  have hfaces := (World.fringe_record w owner n bs).viewModels
  rw [World.record_eq] at hfaces ⊢
  exact h.later ⟨rfl, fun _ => rfl, fun _ => rfl, rfl, rfl, rfl, fun _ => rfl, hfaces⟩ rfl rfl
    fun _ => Iff.rfl

/-- What a visit to an element comes to. One that is bound is left as it is; the attributes of any other come
to what their queries come to. -/
structure ElementVisit (s : Setting Code Memory) (start : World Code Memory) (owner : ViewModelId)
    (n : NodeId) (errors : List Error) (w w' : World Code Memory) : Prop where
  kept : w.isBound owner n = true → errors = [] ∧ w' = w
  ruled : w.isBound owner n = false → ∃ fs content?,
    s.Ruled start owner (w.node n).attributes fs content? ∧
      errors = fs.map (fun f => .binding (w.nodeName n) f.1 f.2) ∧ World.Dressed n content? w w'
  isBound : w.isBound owner n = false →
    (w'.isBound owner n = true ↔ errors = [] ∧ ¬ start.Ordinary owner (w.node n).attributes)

theorem Heard.compileElement (hheard : s.Heard start c) (hw : s.Echoes start w)
    (hstandard : (start.viewModel owner).registry = Registry.standard)
    (helement : (w.node n).isElement = true) :
    Ends w (compileElement c owner n) (compileElement c owner n) fun r w' =>
      s.Echoes start w' ∧ ∃ tally, r = .ok (tally, tally.errors.isEmpty) ∧
        s.ElementVisit start owner n tally.errors w w' := by
  rw [Engine.compileElement, ends_inspect_bind]
  cases hbound : w.isBound owner n with
  | true =>
    exact (ends_pure _).mpr ⟨hw, {}, rfl, fun _ => ⟨rfl, rfl⟩, fun h => absurd (hbound.symm.trans h) (by simp),
      fun h => absurd (hbound.symm.trans h) (by simp)⟩
  | false =>
    have hunbound : w.isBound owner n ≠ true := by simp [hbound]
    simp only [Bool.false_eq_true, if_false]
    rw [ends_inspect_bind]
    refine (hheard.installAttributes hstandard _ hw helement).bind ?_ ?_
    · rintro ⟨bs, errors⟩ v ⟨bs, fs, hr, hworn, hplain⟩
      cases hr
      obtain ⟨content?, hruled, hdressed⟩ := hworn.ruled
      have hsame : v.isBound owner n = false := by
        rw [World.isBound, World.viewModel, hworn.viewModels]
        exact hbound
      simp only [List.isEmpty_iff, List.map_eq_nil_iff]
      split
      · next hnone =>
        subst hnone
        rw [ends_update_bind, ends_pure]
        have hnodes : (v.record owner n bs).nodes = v.nodes := by rw [World.record_eq]
        refine ⟨hworn.echoes.record owner n bs, ⟨bs.length, []⟩, rfl, fun h => absurd h hunbound,
          fun _ => ⟨[], content?, hruled, rfl, hdressed.of_nodes rfl hnodes⟩, fun _ => ?_⟩
        rw [World.isBound_record_iff hsame, ← hplain]
        simp
      · next hsome =>
        rw [ends_update_bind, ends_pure, World.teardownBindings_eq]
        refine ⟨hworn.echoes.hosted _ _ _ _, ⟨0, _⟩, ?_, fun h => absurd h hunbound,
          fun _ => ⟨fs, content?, hruled, rfl, hdressed.of_nodes rfl rfl⟩, fun _ => ?_⟩
        · simp [hsome]
        · simp only [List.map_eq_nil_iff, hsome, false_and, iff_false, Bool.not_eq_true]
          exact hsame
    · rintro e v ⟨bs, fs, hr, -⟩
      cases hr

/-! ### Texts -/

/-- The placeholders of a template are watched one after the other. -/
theorem Heard.watchPlaceholders (hheard : s.Heard start c) (hw : s.Echoes start w) (b : BindingId)
    (reaction : Reaction Code) (paths : List Path) :
    Ends w (watchPlaceholders c owner b reaction paths) (watchPlaceholders c owner b reaction paths)
      (s.Echoing start (Query.paths (.object (start.viewModel owner).root) paths) w) := by
  induction paths generalizing w with
  | nil => exact (ends_pure ()).mpr ⟨View.gives_done.mpr rfl, hw, rfl, rfl, rfl⟩
  | cons path rest inductionHypothesis =>
    refine (hheard.watchFor hw owner b path reaction).bind (fun x v h => ?_) fun e v h => ?_
    · refine (inductionHypothesis h.echoes).mono fun r v' h' => ?_
      exact ⟨View.gives_bind_ok h.gives h'.gives, h'.echoes, h'.nodes.trans h.nodes,
        h'.viewModels.trans h.viewModels, h'.held.trans h.held⟩
    · exact ⟨View.gives_bind_error h.gives, h.echoes, h.nodes, h.viewModels, h.held⟩

/-- A text was shown as a template or not, as its query tells. -/
structure Templated (s : Setting Code Memory) (start : World Code Memory) (q : Query String)
    (w : World Code Memory) (r : Except Error α) (w' : World Code Memory) : Prop where
  echoes : s.Echoes start w'
  viewModels : w'.viewModels = w.viewModels
  held : w'.held = w.held
  nodes : ∀ e, r = .error e → w'.nodes = w.nodes
  gives : ∃ a, (s.view start).Gives q a ∧ ∀ e, r = .error e ↔ a = .error e

theorem templated_error {q : Query String} {e : Error} (hw : s.Echoes start w')
    (hviewModels : w'.viewModels = w.viewModels) (hheld : w'.held = w.held)
    (hnodes : w'.nodes = w.nodes) (hq : (s.view start).Gives q (.error e)) :
    s.Templated start q w (.error e : Except Error α) w' :=
  ⟨hw, hviewModels, hheld, fun _ _ => hnodes, .error e, hq, fun _ => ⟨fun h => congrArg _ (Except.error.inj h),
    fun h => congrArg _ (Except.error.inj h)⟩⟩

theorem templated_ok {q : Query String} {a : α} {shown : String} (hw : s.Echoes start w')
    (hviewModels : w'.viewModels = w.viewModels) (hheld : w'.held = w.held)
    (hq : (s.view start).Gives q (.ok shown)) : s.Templated start q w (.ok a) w' :=
  ⟨hw, hviewModels, hheld, fun _ h => (by cases h), .ok shown, hq,
    fun _ => ⟨fun h => (by cases h), fun h => (by cases h)⟩⟩

/-- A text node shows its template while nobody is told what is read for it. -/
theorem Heard.showTemplate (hheard : s.Heard start c) (hw : s.Echoes start w) (t : TrackerId)
    (template : Template) (root : Value) (n : NodeId) :
    Ends w
      (framed (some t) none do
        let shown ← Engine.renderTemplate c template root (some t)
        update (·.setText n shown))
      (framed (some t) none do
        let shown ← Engine.renderTemplate c template root (some t)
        update (·.setText n shown))
      (s.Templated start (Query.segments root template.segments) w) := by
  refine Ends.framed t none ((hheard.renderTemplate (hw.mapTracker t _) template root (some t)).bind
    (P := s.Templated start (Query.segments root template.segments) w) (fun shown v h => ?_)
    fun e v h => ?_) fun r v h => ?_
  · rw [ends_update, World.setText_eq]
    exact templated_ok (h.echoes.hosted _ _ _ _) h.viewModels h.held h.gives
  · exact templated_error h.echoes h.viewModels h.held h.nodes h.gives
  · exact ⟨h.echoes.mapTracker t _, h.viewModels, h.held, h.nodes, h.gives⟩

/-- A template is shown if its query has a result. -/
theorem Heard.installInterpolation (hheard : s.Heard start c) (hw : s.Echoes start w) (text : String) :
    Ends w (installInterpolation c owner n text) (installInterpolation c owner n text)
      (s.Templated start (start.templateQuery owner text) w) := by
  rw [Engine.installInterpolation, ends_inspect_bind, hw.kin.settings, hw.kin.root, ends_ofExcept_bind,
    World.templateQuery]
  cases htemplate : Template.parse text (start.viewModel owner).settings.delimiters with
  | error e => exact templated_error hw rfl rfl rfl (View.gives_done.mpr rfl)
  | ok template =>
    simp only
    rw [ends_create_bind]
    let root : Value := .object (start.viewModel owner).root
    let b : BindingId := w.bindings.fresh
    let row : Binding := { node := n, kind := .text, expression := template.source }
    let holding : World Code Memory := { w with held := [.binding b] ++ w.held }
    have hadded : s.Echoes start (holding.addBinding row).2 :=
      (hw.holding [.binding b] (by simp)).hosted _ _ _ _
    refine Ends.keeping [.binding b] (R := s.Templated start ((Query.paths root template.paths).bind
      fun _ => Query.segments root template.segments) holding) ?_ fun r v h =>
        ⟨h.echoes.released h.held (by simp), h.viewModels, rfl, h.nodes, h.gives⟩
    refine (hheard.watchPlaceholders hadded b _ template.paths).bind (fun _ v h => ?_) fun e v h => ?_
    · refine (hheard.showTemplate h.echoes _ template root n).bind (fun _ v' h' => ?_) fun e v' h' => ?_
      · obtain ⟨a, ha, hr⟩ := h'.gives
        cases a with
        | error e => cases (hr e).mpr rfl
        | ok shown =>
          exact (ends_pure b).mpr (templated_ok h'.echoes (h'.viewModels.trans h.viewModels)
            (h'.held.trans h.held) (View.gives_bind_ok h.gives ha))
      · obtain ⟨a, ha, hr⟩ := h'.gives
        obtain rfl := (hr e).mp rfl
        exact templated_error h'.echoes (h'.viewModels.trans h.viewModels) (h'.held.trans h.held)
          ((h'.nodes e rfl).trans h.nodes) (View.gives_bind_ok h.gives ha)
    · exact templated_error h.echoes h.viewModels h.held h.nodes (View.gives_bind_error h.gives)

/-- What a visit to a text comes to. One that is bound or that does not hold the opening delimiter is left
as it is; any other comes to what its query comes to. -/
structure TextVisit (s : Setting Code Memory) (start : World Code Memory) (owner : ViewModelId)
    (n : NodeId) (text : String) (errors : List Error) (w w' : World Code Memory) : Prop where
  kept : w.isBound owner n = true ∨ start.Mentions owner text = false → errors = [] ∧ w' = w
  asked : w.isBound owner n = false → start.Mentions owner text = true →
    ∃ a, (s.view start).Gives (start.templateQuery owner text) a ∧ match a with
      | .ok _ => errors = [] ∧ w'.isBound owner n = true
      | .error e => errors = [.binding (w.nodeName n) text e] ∧ w'.nodes = w.nodes ∧
          w'.isBound owner n = false

theorem Heard.compileText (hheard : s.Heard start c) (hw : s.Echoes start w) {text : String}
    (htext : w.node n = .text text) :
    Ends w (compileText c owner n) (compileText c owner n) fun r w' =>
      s.Echoes start w' ∧ ∃ tally, r = .ok tally ∧ s.TextVisit start owner n text tally.errors w w' := by
  have hmentions := hw.kin.mentions owner text
  rw [Engine.compileText, ends_inspect_bind]
  cases hbound : w.isBound owner n with
  | true =>
    exact (ends_pure _).mpr ⟨hw, {}, rfl, fun _ => ⟨rfl, rfl⟩, fun h => absurd (hbound.symm.trans h) (by simp)⟩
  | false =>
    simp only [Bool.false_eq_true, if_false]
    rw [ends_inspect_bind, ends_inspect_bind, World.textContent_of_text htext]
    split
    · next hnot =>
      rw [Bool.not_eq_true'] at hnot
      have hnone : start.Mentions owner text = false := hmentions.symm.trans hnot
      refine (ends_pure _).mpr ⟨hw, {}, rfl, fun _ => ⟨rfl, rfl⟩, fun _ hsome => ?_⟩
      rw [hnone] at hsome
      cases hsome
    · next hsome =>
      rw [Bool.not_eq_true', Bool.not_eq_false] at hsome
      have hsome' : start.Mentions owner text = true := hmentions.symm.trans hsome
      have hnot : ¬ (w.isBound owner n = true ∨ start.Mentions owner text = false) := by
        simp [hbound, hsome']
      refine (hheard.installInterpolation hw text).attempt_bind fun r v h => ?_
      have hsame : v.isBound owner n = false := by
        rw [World.isBound, World.viewModel, h.viewModels]
        exact hbound
      obtain ⟨a, ha, hr⟩ := h.gives
      cases r with
      | ok b =>
        cases a with
        | error e => cases (hr e).mpr rfl
        | ok shown =>
          simp only
          rw [ends_update_bind, ends_pure]
          exact ⟨h.echoes.record owner n [b], ⟨1, []⟩, rfl, fun h => absurd h hnot, fun _ _ =>
            ⟨_, ha, rfl, (World.isBound_record_iff hsame [b]).mpr (List.cons_ne_nil b [])⟩⟩
      | error e =>
        obtain rfl := (hr e).mp rfl
        have hnodes := h.nodes e rfl
        have hname : v.nodeName n = w.nodeName n := by
          rw [World.nodeName, World.node, hnodes]
          rfl
        simp only
        rw [ends_inspect_bind, ends_pure, World.bindingError, hname]
        exact ⟨h.echoes, _, rfl, fun h => absurd h hnot, fun _ _ => ⟨_, ha, rfl, hnodes, hsame⟩⟩

end Setting

end ViewBinding
