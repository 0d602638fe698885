import ViewBinding.Proofs.Visiting

/-!
# Compiling a tree, node by node

What one visit does to an element or a text, and from it by induction what a pass does to a tree: on
the depth for the descent, and on the list of siblings at every level. A visit leaves the nodes that are
still to come as they were.
-/

namespace ViewBinding

open Engine

variable {Code Memory : Type} [Inhabited Code]

theorem Entries.length_values_put {κ α : Type} [DecidableEq κ] (e : Entries κ (List α)) (k : κ)
    (l : List α) : ((e.put k ((e.find? k).getD [] ++ l)).values.flatten).length
      = e.values.flatten.length + l.length := by
  obtain ⟨pairs, hnodup⟩ := e
  simp only [Entries.values, Entries.put, Entries.find?]
  clear hnodup
  induction pairs with
  | nil => simp [Entries.putPair]
  | cons p rest inductionHypothesis =>
    obtain ⟨j, a⟩ := p
    by_cases h : j = k
    · subst h
      simp [Entries.putPair]
      omega
    · simp only [Entries.putPair, h, if_false, decide_false, List.find?_cons_of_neg,
        Bool.false_eq_true, not_false_eq_true, List.map_cons, List.flatten_cons, List.length_append]
      rw [inductionHypothesis]
      omega

namespace World

section Recording

omit [Inhabited Code]

variable {w : World Code Memory} {owner : ViewModelId} {n : NodeId}

theorem bindingCount_record (w : World Code Memory) (owner : ViewModelId) (n : NodeId)
    (bs : List BindingId) : ((w.record owner n bs).viewModel owner).bindingCount
      = (w.viewModel owner).bindingCount + bs.length := by
  by_cases hbs : bs = []
  · rw [hbs, record_nil]
    rfl
  · rw [ViewModel.bindingCount, bindings_record w owner n hbs]
    exact Entries.length_values_put _ _ _

theorem bindingsOf_of_not_isBound (h : w.isBound owner n = false) : w.bindingsOf owner n = [] := by
  rw [isBound, Entries.contains, Option.isSome_eq_false_iff, Option.isNone_iff_eq_none] at h
  rw [bindingsOf, h]
  rfl

theorem bindingCount_congr {w₁ : World Code Memory} (h : w₁.viewModels = w.viewModels) :
    (w₁.viewModel owner).bindingCount = (w.viewModel owner).bindingCount := by
  rw [viewModel, h, viewModel]

theorem textContent_of_text {text : String} (h : w.node n = .text text) : w.textContent n = text := by
  rw [textContent, textWithin, h]

end Recording

end World

namespace Engine

variable {application : Application Code Memory} {sure : Prop} {c : Reentry Code Memory}
  {origin w : World Code Memory} {owner : ViewModelId} {n : NodeId}

/-- What a visit has done to one node. -/
structure Visited (c : Reentry Code Memory) (holds : Memory → List Ref) (owner : ViewModelId)
    (n : NodeId) (tally : Tally) (w w' : World Code Memory) : Prop where
  ties : World.Ties holds owner (· = n) w w'
  fate : World.Fate c owner w w' n tally.errors
  count : (w'.viewModel owner).bindingCount = (w.viewModel owner).bindingCount + tally.installed
  hosted : w'.isBound owner n = true → w.isBound owner n = true ∨ n.index < w'.nodes.size

theorem achieves_compileElement (hrelies : Relies application sure c w) (hw : w.Ready w)
    (hinstallers : ∀ kind installer, (w.viewModel owner).registry.find? kind = some installer →
      Registry.standard.find? kind = some installer)
    (helement : (w.node n).isElement = true) :
    Achieves sure w (compileElement c owner n) fun r w' =>
      ∃ tally, r = .ok (tally, tally.errors.isEmpty) ∧
        Visited c application.holds owner n tally w w' := by
  have hn := World.index_lt_of_isElement helement
  rw [compileElement, achieves_inspect_bind]
  cases hbound : w.isBound owner n with
  | true =>
    exact (achieves_pure _).mpr ⟨{}, rfl, .refl w, .kept hbound rfl, rfl, Or.inl⟩
  | false =>
    simp only [Bool.false_eq_true, if_false]
    rw [achieves_inspect_bind]
    refine (achieves_installAttributes hrelies hinstallers _ hw hn).bind ?_ ?_
    · rintro ⟨bs, errors⟩ v ⟨bs, fs, hr, hcarries⟩
      cases hr
      have hmade : ∀ b ∈ bs, w.MadeSince v b := hcarries.fresh
      have hnone : v.bindingsOf owner n = [] := by
        rw [World.bindingsOf, World.viewModel, hcarries.viewModels]
        exact World.bindingsOf_of_not_isBound hbound
      simp only [List.isEmpty_iff, List.map_eq_nil_iff]
      split
      · next hfs =>
        subst hfs
        rw [achieves_update_bind, achieves_pure]
        have hties := hcarries.ties.record rfl bs fun b hb =>
          ⟨(hmade b hb).1, (hmade b hb).2, hcarries.node_eq b hb⟩
        have hrecorded : (v.record owner n bs).bindingsOf owner n = bs := by
          rw [World.bindingsOf_record, if_pos rfl, hnone, List.nil_append]
        have hcount := World.bindingCount_record v owner n bs
        rw [World.bindingCount_congr hcarries.viewModels] at hcount
        have hsize := Nat.lt_of_lt_of_le hn hties.hosts.size
        refine ⟨⟨bs.length, []⟩, rfl, hties, ?_, hcount, fun _ => Or.inr hsize⟩
        rw [World.record_eq] at hrecorded ⊢
        exact .bound hbound helement (hcarries.carried.congr fun _ _ => ⟨rfl, rfl⟩) hrecorded
          hcarries.nodup hmade fun b hb => ⟨hcarries.active b hb, hcarries.serves b hb⟩
      · next hfs =>
        rw [achieves_update_bind, achieves_pure]
        have hties := hcarries.ties.teardownBindings bs hmade
        have hdown := World.dismisses_teardownBindings bs v
        have hsize := World.size_teardownBindings (w := v) bs fun b hb x hx =>
          (hcarries.ties.binds.own b (hmade b hb).1 x hx).2.1
        refine ⟨⟨0, fs.map fun f => .binding (w.nodeName n) f.1 f.2⟩, ?_, hties, ?_,
          World.bindingCount_congr (hdown.viewModels.trans hcarries.viewModels),
          fun _ => Or.inr (Nat.lt_of_lt_of_le hn hties.hosts.size)⟩
        · have hempty : (fs.map fun f => Error.binding (w.nodeName n) f.1 f.2).isEmpty = false := by
            rw [List.isEmpty_eq_false_iff, ne_eq, List.map_eq_nil_iff]
            exact hfs
          rw [hempty]
        · refine .refused hbound helement (hcarries.carried.congr fun b hb => ?_) hfs ?_ ?_ ?_ ?_
          · rw [hdown.binding, if_pos hb]
            exact ⟨rfl, rfl⟩
          · rw [World.bindingsOf, World.viewModel, hdown.viewModels]
            exact hnone
          · intro b hb
            exact ⟨(hmade b hb).1, Nat.lt_of_lt_of_le (hmade b hb).2 hdown.bindings⟩
          · intro b hb
            rw [hdown.binding, if_pos hb]
          · intro x hx hlt _
            rw [hsize] at hlt
            rcases hcarries.others x hx hlt with ⟨b, hb, hmem⟩ | hretired
            · exact hdown.retired x (Or.inl (hcarries.serves b hb x hmem)) (Or.inl ⟨b, hb, hmem⟩)
            · exact hdown.retired x (Or.inr hretired) (Or.inr hretired)
    · rintro e v ⟨bs, fs, hr, -⟩
      cases hr

theorem achieves_compileText (hrelies : Relies application sure c w) (hw : w.Ready w) {text : String}
    (htext : w.node n = .text text) :
    Achieves sure w (compileText c owner n) fun r w' =>
      ∃ tally, r = .ok tally ∧ Visited c application.holds owner n tally w w' := by
  rw [compileText, achieves_inspect_bind]
  cases hbound : w.isBound owner n with
  | true =>
    exact (achieves_pure _).mpr ⟨{}, rfl, .refl w, .kept hbound rfl, rfl, Or.inl⟩
  | false =>
    have hnone := World.bindingsOf_of_not_isBound hbound
    simp only [Bool.false_eq_true, if_false]
    rw [achieves_inspect_bind, achieves_inspect_bind, World.textContent_of_text htext]
    split
    · next hnot =>
      rw [Bool.not_eq_true'] at hnot
      exact (achieves_pure _).mpr ⟨{}, rfl, .refl w,
        .plain hbound htext (fun _ => htext) hnot hnone, rfl, Or.inl⟩
    · next hmentions =>
      rw [Bool.not_eq_true', Bool.not_eq_false] at hmentions
      refine Achieves.attempt_bind ((achieves_installInterpolation hrelies hw text).traced
        (Q := fun r v => installInterpolation c owner n text w = some (r, v) ∧
          World.Ties application.holds owner (· = n) w v ∧ v.viewModels = w.viewModels ∧
          (∀ b, r = .ok b → World.MadeFor n .text b w v ∧ (v.binding b).expression = text ∧
            n.index < v.nodes.size) ∧
          ((∃ e, r = .error e) → v.nodes = w.nodes))
        fun r v hr h => ⟨hr, h⟩) fun r v h => ?_
      obtain ⟨htrace, hties, hviewModels, hmade, hnodes⟩ := h
      have hnone' : v.bindingsOf owner n = [] := by
        rw [World.bindingsOf, World.viewModel, hviewModels]
        exact hnone
      cases r with
      | ok b =>
        obtain ⟨hfor, hexpression, hlt⟩ := hmade b rfl
        have hrecord := hties.record rfl [b] fun j hj => by
          rw [List.mem_singleton.mp hj]
          exact ⟨hfor.fresh, hfor.made, hfor.node_eq⟩
        have hrecorded : (v.record owner n [b]).bindingsOf owner n = [b] := by
          rw [World.bindingsOf_record, if_pos rfl, hnone', List.nil_append]
        have hcount := World.bindingCount_record v owner n [b]
        rw [World.bindingCount_congr hviewModels] at hcount
        have hisElement : (v.node n).isElement = false := by
          by_cases hlt : n.index < w.nodes.size
          · rw [hties.hosts.isElement n hlt, htext]
            rfl
          · exact hties.hosts.text n (Nat.le_of_not_lt hlt)
        simp only
        rw [achieves_update_bind, achieves_pure]
        have hsize : n.index < (v.record owner n [b]).nodes.size := by
          rw [World.record_eq]
          exact hlt
        refine ⟨⟨1, []⟩, rfl, hrecord, ?_, hcount, fun _ => Or.inr hsize⟩
        rw [World.record_eq] at hrecorded ⊢
        exact .shown hbound hisElement (fun _ => htext) hmentions hrecorded hfor.node_eq hfor.kind_eq
          hexpression ⟨hfor.fresh, hfor.made⟩ ⟨hfor.active, hfor.staffs.serves⟩
      | error e =>
        have hnodes' := hnodes ⟨e, rfl⟩
        have htext' : v.node n = .text text := by
          rw [World.node, hnodes']
          exact htext
        have hname : v.nodeName n = w.nodeName n := by
          rw [World.nodeName, htext', World.nodeName, htext]
        simp only
        rw [achieves_inspect_bind, achieves_pure, World.bindingError, hname]
        refine ⟨⟨0, [.binding (w.nodeName n) text e]⟩, rfl, hties,
          .unshown hbound htext' (fun _ => htext) hmentions ⟨w, v, .refl w, htrace⟩ hnone',
          World.bindingCount_congr hviewModels, fun hb => ?_⟩
        rw [World.isBound, World.viewModel, hviewModels] at hb
        exact Or.inl hb

/-! ### Walking a tree -/

/-- Nodes can be bound for a view model in a world: its getters only read, nobody evaluates or listens
who has not been made, and the installers are those of every view model. -/
structure Prepared (application : Application Code Memory) (sure : Prop) (c : Reentry Code Memory)
    (owner : ViewModelId) (w : World Code Memory) : Prop where
  relies : Relies application sure c w
  ready : w.Ready w
  standard : (w.viewModel owner).registry = Registry.standard

theorem Prepared.of_kin {w' : World Code Memory} (h : Prepared application sure c owner w)
    (hkin : w.Kin w') (hready : w.Ready w') : Prepared application sure c owner w' where
  relies := ⟨h.relies.codes, h.relies.quiet, fun hstart => h.relies.getter (hkin.trans hstart)⟩
  ready := ⟨.refl w', hready.manned, hready.listed⟩
  standard := (hkin.registry owner).trans h.standard

theorem Prepared.later {here : NodeId → Prop} {w' : World Code Memory}
    (h : Prepared application sure c owner w) (hties : World.Ties application.holds owner here w w') :
    Prepared application sure c owner w' :=
  h.of_kin hties.kin (hties.ready h.ready)

theorem Prepared.holding (h : Prepared application sure c owner w) (refs : List Ref) :
    Prepared application sure c owner { w with held := refs } :=
  h.of_kin (World.kin_holding w refs) (h.ready.holding refs)

/-- A condition on worlds that visits to nodes leave in force, and that is about the data, what is known,
and which view models are held. -/
structure Stays (holds : Memory → List Ref) (c : Reentry Code Memory) (owner : ViewModelId)
    (fit : World Code Memory → Prop) : Prop where
  element : ∀ (w : World Code Memory) (n : NodeId), fit w → (w.node n).isElement = true →
    Ends w (compileElement c owner n) (compileElement c owner n) fun _ => fit
  text : ∀ (w : World Code Memory) (n : NodeId) (text : String), fit w → w.node n = .text text →
    Ends w (compileText c owner n) (compileText c owner n) fun _ => fit
  later : ∀ w w' : World Code Memory, fit w → w.Kin w' → w'.computeds = w.computeds →
    holds w'.memory = holds w.memory →
    (∀ id, Ref.viewModel id ∈ w'.held ↔ .viewModel id ∈ w.held) → fit w'

theorem stays_true (holds : Memory → List Ref) (c : Reentry Code Memory) (owner : ViewModelId) :
    Stays holds c owner fun _ => True :=
  ⟨fun _ _ _ _ _ _ hr => ⟨hr, trivial⟩, fun _ _ _ _ _ _ _ hr => ⟨hr, trivial⟩,
    fun _ _ _ _ _ _ _ => trivial⟩

theorem Stays.holding {holds : Memory → List Ref} {fit : World Code Memory → Prop}
    (h : Stays holds c owner fit) (hw : fit w) {refs : List Ref}
    (hrefs : ∀ id, Ref.viewModel id ∈ refs ↔ .viewModel id ∈ w.held) :
    fit { w with held := refs } :=
  h.later w _ hw (World.kin_holding w refs) rfl rfl hrefs

/-- How a pass over nodes may end that began at `w`: it names what it has visited. -/
def Passed (fit : World Code Memory → Prop) (c : Reentry Code Memory) (holds : Memory → List Ref)
    (owner : ViewModelId) (nodes all : List NodeId) (w : World Code Memory) (r : Except Error Tally)
    (w' : World Code Memory) : Prop :=
  ∃ report tally, r = .ok tally ∧ World.Compiled fit c holds owner all report tally w w' ∧
    w'.Visits nodes report ∧ fit w'

section Walking

variable {fit : World Code Memory → Prop}

/-- A visit to a node and to what is below it, which goes down to a depth. -/
def visit (c : Reentry Code Memory) (owner : ViewModelId) (depth : Nat) (n : NodeId) :
    Engine Code Memory Tally := do
  if ← inspect fun w => (w.node n).isElement then
    let (here, descend) ← compileElement c owner n
    if descend then
      let children ← inspect fun w => (w.node n).children
      let below ← compileNodes c owner depth children
      return here.add below
    else return here
  else compileText c owner n

theorem compileNodes_succ (c : Reentry Code Memory) (owner : ViewModelId) (depth : Nat)
    (nodes : List NodeId) : compileNodes c owner (depth + 1) nodes
      = keeping (nodes.map .node) (tallyAll (visit c owner depth) nodes) :=
  rfl

/-- Visits to nodes after another make a pass. -/
theorem achieves_tallyAll {step : NodeId → Engine Code Memory Tally} {bound : Nat}
    (hstep : ∀ {w : World Code Memory} {n : NodeId} {below : List NodeId},
      Prepared application sure c owner w → fit w → w.Tree (w.node n).children below → n ∉ below →
      n.index < w.nodes.size → Achieves (sure ∧ w.elements (n :: below) < bound) w (step n)
        (Passed fit c application.holds owner [n] (n :: below) w)) {nodes all : List NodeId}
    (hprepared : Prepared application sure c owner w) (hw : fit w) (htree : w.Tree nodes all) :
    Achieves (sure ∧ w.elements all < bound) w (tallyAll step nodes)
      (Passed fit c application.holds owner nodes all w) := by
  induction nodes generalizing w all with
  | nil =>
    cases htree.lists
    exact (achieves_pure _).mpr ⟨[], {}, rfl, World.compiled_nil w, .nil, hw⟩
  | cons n rest inductionHypothesis =>
    obtain ⟨hlists, hnodup, hmade⟩ := htree
    cases hlists with
    | @cons _ _ below others hbelow hrest =>
      have hsplit : n :: (below ++ others) = (n :: below) ++ others := rfl
      rw [hsplit, List.nodup_append] at hnodup
      rw [hsplit] at hmade ⊢
      obtain ⟨hfirst, hothers, hapart⟩ := hnodup
      rw [List.nodup_cons] at hfirst
      have hmadeBelow : ∀ m ∈ n :: below, m.index < w.nodes.size := fun m hm =>
        hmade m (List.mem_append_left _ hm)
      have hmadeOthers : ∀ m ∈ others, m.index < w.nodes.size := fun m hm =>
        hmade m (List.mem_append_right _ hm)
      rw [World.elements_append, tallyAll]
      refine Achieves.bind ((hstep hprepared hw ⟨hbelow, hfirst.2, fun m hm =>
        hmadeBelow m (List.mem_cons_of_mem _ hm)⟩ hfirst.1 (hmadeBelow n List.mem_cons_self)).weaken
          fun h => ⟨h.1, Nat.lt_of_le_of_lt (Nat.le_add_right _ _) h.2⟩) ?_ ?_
      · rintro tally v ⟨report, tally, hr, hcompiled, hvisits, hv⟩
        cases hr
        have hunvisited : ∀ m ∈ others, m ∉ report.map Prod.fst := by
          intro m hm hmem
          rcases (hcompiled.within m hmem).2 with hmem | hge
          · exact hapart m hmem m hm rfl
          · exact Nat.not_lt.mpr hge (hmadeOthers m hm)
        have hsame : ∀ m ∈ others, v.node m = w.node m := fun m hm =>
          hcompiled.ties.hosts.same m (hmadeOthers m hm) (hunvisited m hm)
        have htree : v.Tree rest others :=
          World.Tree.congr ⟨hrest, hothers, hmadeOthers⟩ hsame hcompiled.ties.hosts.size
        have hnext := inductionHypothesis (hprepared.later hcompiled.ties) hv htree
        refine Achieves.bind (hnext.weaken fun h => ⟨h.1, ?_⟩) ?_ ?_
        · rw [World.elements_congr hsame]
          exact Nat.lt_of_le_of_lt (Nat.le_add_left _ _) h.2
        · rintro tally' v' ⟨report', tally', hr, hcompiled', hvisits', hv'⟩
          cases hr
          refine (achieves_pure _).mpr ⟨report ++ report', _, rfl,
            hcompiled.append hcompiled' hprepared.ready.manned hmadeBelow
              (fun m hm => ⟨fun hmem => hapart m hmem m hm rfl, hunvisited m hm⟩)
              htree.lists.closed.2 (fun _ _ _ m hm => hmadeOthers m hm), ?_, hv'⟩
          refine (hvisits.congr fun m hm => ?_).append hvisits'
          rw [hcompiled'.ties.hosts.same m (hcompiled.within m hm).1 fun hmem => ?_]
          rcases (hcompiled'.within m hmem).2 with hothers | hge
          · exact hunvisited m hothers hm
          · exact Nat.not_lt.mpr hge (hcompiled.within m hm).1
        · rintro e v' ⟨_, _, hr, -⟩
          cases hr
      · rintro e v ⟨_, _, hr, -⟩
        cases hr

/-- A visit to a text. -/
theorem achieves_compileText_passed (hstays : Stays application.holds c owner fit) {below : List NodeId}
    (hprepared : Prepared application sure c owner w) (hw : fit w)
    (hlt : n.index < w.nodes.size) (hunder : ∀ d, w.Below n d → d ∈ n :: below ∧ d ≠ n)
    (helement : (w.node n).isElement = false) :
    Achieves sure w (compileText c owner n) (Passed fit c application.holds owner [n] (n :: below) w) := by
  cases hrow : w.node n with
  | element e =>
    rw [hrow] at helement
    cases helement
  | text text =>
    refine ((achieves_compileText hprepared.relies hprepared.ready hrow).and
      (hstays.text w n text hw hrow)).traced ?_
    rintro r v htrace ⟨⟨tally, rfl, hvisited⟩, hv⟩
    refine ⟨[(n, tally.errors)], tally, rfl, World.compiled_single hvisited.ties hvisited.fate
      hvisited.count List.mem_cons_self hlt (fun _ => hunder) hw (Or.inr ⟨helement, htrace⟩), ?_, hv⟩
    cases herrors : tally.errors with
    | cons e rest => exact .refused (List.cons_ne_nil e rest) .nil
    | nil =>
      -- nothing is below a text
      have hchildren : (v.node n).children = [] := by
        have hisElement := hvisited.ties.hosts.isElement n hlt
        rw [helement] at hisElement
        exact World.children_of_not_isElement hisElement
      have hbelow : v.Visits (v.node n).children [] := by
        rw [hchildren]
        exact .nil
      exact .passed hbelow .nil

/-- What is below an element is visited after the element, if nothing failed there. -/
theorem Visited.descended {w₁ w₂ : World Code Memory} {below below' : List NodeId}
    {report : List (NodeId × List Error)} {tally tally' : Tally}
    (hvisited : Visited c application.holds owner n tally w w₁) (herrors : tally.errors = [])
    (hmanned : w.Manned) (htree : w.Tree (w.node n).children below) (hlt : n.index < w.nodes.size)
    (htree' : w₁.Tree (w₁.node n).children below') (hn : n ∉ below')
    (hnew : ∀ m ∈ below', m ∈ below ∨ w.nodes.size ≤ m.index)
    (hcompiled : World.Compiled fit c application.holds owner below' report tally' w₁ w₂)
    (hvisits : w₂.Visits (w₁.node n).children report) (hw : fit w)
    (hhandles : World.Handles c owner n w tally w₁) :
    World.Compiled fit c application.holds owner (n :: below) ((n, []) :: report) (tally.add tally') w w₂ ∧
      w₂.Visits [n] ((n, []) :: report) := by
  have hlt₁ : n.index < w₁.nodes.size := Nat.lt_of_lt_of_le hlt hvisited.ties.hosts.size
  have hself : World.Compiled fit c application.holds owner [n] [(n, [])] tally w w₁ := by
    rw [← herrors]
    exact World.compiled_single hvisited.ties hvisited.fate hvisited.count List.mem_cons_self hlt
      (fun h => absurd herrors h) hw hhandles
  have hunvisited : n ∉ report.map Prod.fst := by
    intro hmem
    rcases (hcompiled.within n hmem).2 with hmem | hge
    · exact hn hmem
    · exact Nat.not_lt.mpr hge hlt₁
  have happend := hself.append hcompiled hmanned (by simpa using hlt)
    (fun m hm => by
      have hne : m ≠ n := fun heq => hn (heq ▸ hm)
      simp [hne]) htree'.lists.closed.2 fun v hv herrors =>
      absurd (congrArg Prod.snd (List.mem_singleton.mp hv)) herrors
  refine ⟨happend.mono ?_ htree.lists.single.closed.2, ?_⟩
  · rw [List.singleton_append]
    refine List.forall_mem_cons.mpr ⟨Or.inl List.mem_cons_self, fun m hm => ?_⟩
    exact (hnew m hm).imp_left (List.mem_cons_of_mem n)
  · rw [← List.append_nil report]
    refine .passed ?_ .nil
    rw [hcompiled.ties.hosts.same n hlt₁ hunvisited]
    exact hvisits

/-- A visit binds a node, and unless something fails there what is below it. -/
theorem achieves_visit (hstays : Stays application.holds c owner fit) {depth : Nat}
    (hdescend : ∀ {w : World Code Memory} {nodes all : List NodeId},
      Prepared application sure c owner w → fit w → w.Tree nodes all →
      Achieves (sure ∧ w.elements all < depth) w (compileNodes c owner depth nodes)
        (Passed fit c application.holds owner nodes all w)) {below : List NodeId}
    (hprepared : Prepared application sure c owner w) (hw : fit w)
    (htree : w.Tree (w.node n).children below) (hn : n ∉ below) (hlt : n.index < w.nodes.size) :
    Achieves (sure ∧ w.elements (n :: below) < depth + 1) w (visit c owner depth n)
      (Passed fit c application.holds owner [n] (n :: below) w) := by
  have hunder : ∀ d, w.Below n d → d ∈ n :: below ∧ d ≠ n := fun d hd => by
    have hmem := hd.under htree.lists
    exact ⟨List.mem_cons_of_mem _ hmem, fun heq => hn (heq ▸ hmem)⟩
  rw [visit, achieves_inspect_bind]
  cases helement : (w.node n).isElement with
  | false =>
    simp only [Bool.false_eq_true, if_false]
    exact (achieves_compileText_passed hstays hprepared hw hlt hunder helement).weaken And.left
  | true =>
    simp only [if_true]
    rw [World.elements_cons_of_isElement helement]
    refine Achieves.bind ((((achieves_compileElement hprepared.relies hprepared.ready
      (fun _ _ hfind => hprepared.standard ▸ hfind) helement).and (hstays.element w n hw helement)).traced
      fun r v htrace h => (⟨htrace, h⟩ : compileElement c owner n w = some (r, v) ∧ _)).weaken
        And.left) ?_ ?_
    · rintro ⟨tally, descend⟩ v ⟨htrace, ⟨tally, hr, hvisited⟩, hv⟩
      cases hr
      have hhandles : World.Handles c owner n w tally v := Or.inl ⟨helement, _, htrace⟩
      cases herrors : tally.errors with
      | cons e rest =>
        simp only [List.isEmpty_cons, Bool.false_eq_true, if_false]
        refine (achieves_pure _).mpr ⟨[(n, tally.errors)], tally, rfl,
          World.compiled_single hvisited.ties hvisited.fate hvisited.count List.mem_cons_self hlt
            (fun _ => hunder) hw hhandles, .refused ?_ .nil, hv⟩
        rw [herrors]
        exact List.cons_ne_nil e rest
      | nil =>
        simp only [List.isEmpty_nil, if_true]
        rw [achieves_inspect_bind]
        obtain ⟨below', htree', hn', hnew, hfewer⟩ :=
          hvisited.ties.hosts.tree_children htree hn hlt
        refine Achieves.bind ((hdescend (hprepared.later hvisited.ties) hv htree').weaken fun h =>
          ⟨h.1, Nat.lt_of_le_of_lt hfewer (Nat.lt_of_succ_lt_succ h.2)⟩) ?_ ?_
        · rintro tally' v' ⟨report, tally', hr, hcompiled, hvisits, hv'⟩
          cases hr
          obtain ⟨hall, hvisits'⟩ := hvisited.descended herrors hprepared.ready.manned htree hlt htree'
            hn' hnew hcompiled hvisits hw hhandles
          exact (achieves_pure _).mpr ⟨_, _, rfl, hall, hvisits', hv'⟩
        · rintro e v' ⟨_, _, hr, -⟩
          cases hr
    · rintro e v ⟨-, ⟨tally, hr, -⟩, -⟩
      cases hr

/-- A pass over the nodes of a tree binds them, and what is below each of them unless something failed
there. It comes to an end if the tree has fewer elements than the depth. -/
theorem achieves_compileNodes (hstays : Stays application.holds c owner fit) {nodes all : List NodeId}
    (depth : Nat)
    (hprepared : Prepared application sure c owner w) (hw : fit w) (htree : w.Tree nodes all) :
    Achieves (sure ∧ w.elements all < depth) w (compileNodes c owner depth nodes)
      (Passed fit c application.holds owner nodes all w) := by
  induction depth generalizing w nodes all with
  | zero => exact (ends_exhausted _).achieves fun h => Nat.not_lt_zero _ h.2
  | succ depth inductionHypothesis =>
    rw [compileNodes_succ]
    have htree' : World.Tree { w with held := nodes.map .node ++ w.held } nodes all :=
      htree.congr (fun _ _ => rfl) (Nat.le_refl _)
    have hw' : fit { w with held := nodes.map .node ++ w.held } := hstays.holding hw (by simp)
    refine Achieves.keeping _ (achieves_tallyAll (achieves_visit hstays inductionHypothesis)
      (hprepared.holding _) hw' htree') ?_
    rintro r v ⟨report, tally, rfl, hcompiled, hvisits, hv⟩
    refine ⟨report, tally, rfl, hcompiled.released, hvisits.congr fun _ _ => rfl, hstays.holding hv ?_⟩
    simp [hcompiled.ties.held]

end Walking

end Engine

end ViewBinding
