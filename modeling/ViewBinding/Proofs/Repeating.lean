import ViewBinding.Proofs.Halting
import ViewBinding.Proofs.Passing
import ViewBinding.Proofs.Verdict

/-!
# Passes that are repeated

A second pass over a tree meets what the first one left: nodes that are bound, which it passes over, and
nodes that are not, where it comes to what the first one came to. So it visits the same nodes, reports the
same errors, records nothing, and leaves every node as it looked.
-/

namespace ViewBinding

open Engine

variable {Code Memory : Type} [Inhabited Code]

theorem Entries.length_values_congr {κ α : Type} [DecidableEq κ] {e e' : Entries κ (List α)}
    (h : ∀ k, e'.find? k = e.find? k) : e'.values.flatten.length = e.values.flatten.length := by
  have hnodup : ∀ e : Entries κ (List α), e.toList.Nodup := fun e =>
    List.Pairwise.of_map Prod.fst (fun _ _ hne heq => hne (congrArg Prod.fst heq)) e.nodup
  have hperm : e'.toList.Perm e.toList := by
    refine (List.perm_ext_iff_of_nodup (hnodup e') (hnodup e)).mpr fun p => ?_
    rw [← Entries.find?_eq_some_iff e', ← Entries.find?_eq_some_iff e, h]
  exact (hperm.map Prod.snd).flatten.length_eq

namespace World

/-! ### Trees and reports of two passes -/

section Trees

omit [Inhabited Code]

variable {here : NodeId → Prop} {w w₁ w₂ : World Code Memory} {nodes all : List NodeId} {n : NodeId}

/-- What became of the nodes of a tree whose nodes were bound: some are gone, and new texts stand in their
place. -/
theorem Hosts.lists (h : Hosts here w w₁) (hlists : w.Lists nodes all) (hnodup : all.Nodup)
    (hmade : ∀ n ∈ all, n.index < w.nodes.size) :
    ∃ all', w₁.Tree nodes all' ∧ w₁.elements all' ≤ w.elements all ∧
      ∀ m ∈ all', m ∈ all ∨ ∃ p ∈ all, m ∈ (w₁.node p).children ∧ m ∉ (w.node p).children := by
  induction hlists with
  | nil => exact ⟨[], ⟨.nil, .nil, fun _ h => absurd h List.not_mem_nil⟩, Nat.le_refl _,
      fun _ h => absurd h List.not_mem_nil⟩
  | @cons n rest below others hlists _ inductionBelow inductionRest =>
    obtain ⟨hn, hnodup⟩ := List.nodup_cons.mp hnodup
    obtain ⟨hbelowNodup, hothersNodup, hapart⟩ := List.nodup_append.mp hnodup
    obtain ⟨hlt, hmade⟩ := List.forall_mem_cons.mp hmade
    rw [List.mem_append, not_or] at hn
    obtain ⟨others', hothers, hothersElements, hothersOld⟩ := inductionRest hothersNodup fun m hm =>
      hmade m (List.mem_append_right _ hm)
    have hbelow : ∃ below', w₁.Tree (w₁.node n).children below' ∧ w₁.elements below' ≤ w.elements below ∧
        ∀ m ∈ below', m ∈ below ∨
          ∃ p ∈ n :: below, m ∈ (w₁.node p).children ∧ m ∉ (w.node p).children := by
      rcases h.children n hlt with hsame | ⟨hone, hnew⟩
      · obtain ⟨below', htree, helements, hold⟩ := inductionBelow hbelowNodup fun m hm =>
          hmade m (List.mem_append_left _ hm)
        refine ⟨below', hsame ▸ htree, helements, fun m hm => (hold m hm).imp_right ?_⟩
        exact fun ⟨p, hp, hchild⟩ => ⟨p, List.mem_cons_of_mem n hp, hchild⟩
      · obtain ⟨htexts, hnone⟩ := h.tree_texts hone hnew
        refine ⟨_, htexts, hnone ▸ Nat.zero_le _, fun m hm => ?_⟩
        by_cases hold : m ∈ (w.node n).children
        · exact Or.inl (hlists.closed.1 m hold)
        · exact Or.inr ⟨n, List.mem_cons_self, hm, hold⟩
    obtain ⟨below', hbelow, hbelowElements, hbelowOld⟩ := hbelow
    have hmade' : ∀ p ∈ n :: (below ++ others), p.index < w.nodes.size := List.forall_mem_cons.mpr ⟨hlt, hmade⟩
    have hnew : ∀ p ∈ n :: (below ++ others), ∀ m, m ∈ (w₁.node p).children → m ∉ (w.node p).children →
        m ∉ n :: (below ++ others) := fun p hp m hm hnot hmem =>
      Nat.not_lt.mpr (h.made_child (hmade' p hp) hm hnot).1 (hmade' m hmem)
    have hheadBelow : ∀ {p}, p ∈ n :: below → p ∈ n :: (below ++ others) := fun hp =>
      (List.mem_cons.mp hp).elim (fun heq => heq ▸ List.mem_cons_self)
        fun hp => List.mem_cons_of_mem n (List.mem_append_left _ hp)
    have hothersAll : ∀ {p}, p ∈ others → p ∈ n :: (below ++ others) := fun hp =>
      List.mem_cons_of_mem n (List.mem_append_right _ hp)
    refine ⟨n :: (below' ++ others'), ⟨.cons hbelow.lists hothers.lists, ?_, ?_⟩, ?_, ?_⟩
    · refine List.nodup_cons.mpr ⟨fun hmem => ?_, List.nodup_append.mpr ⟨hbelow.nodup, hothers.nodup, ?_⟩⟩
      · rcases List.mem_append.mp hmem with hmem | hmem
        · rcases hbelowOld n hmem with hold | ⟨p, hp, hchild, hnot⟩
          · exact hn.1 hold
          · exact hnew p (hheadBelow hp) n hchild hnot List.mem_cons_self
        · rcases hothersOld n hmem with hold | ⟨p, hp, hchild, hnot⟩
          · exact hn.2 hold
          · exact hnew p (hothersAll hp) n hchild hnot List.mem_cons_self
      · rintro m hm _ hm' rfl
        rcases hbelowOld m hm with hold | ⟨p, hp, hchild, hnot⟩ <;>
          rcases hothersOld m hm' with hold' | ⟨p', hp', hchild', hnot'⟩
        · exact hapart m hold m hold' rfl
        · exact hnew p' (hothersAll hp') m hchild' hnot' (hheadBelow (List.mem_cons_of_mem n hold))
        · exact hnew p (hheadBelow hp) m hchild hnot (hothersAll hold')
        · -- no text was given to two nodes
          have hsame : p = p' := h.apart p p' m (hmade' p (hheadBelow hp)) (hmade' p' (hothersAll hp'))
            hchild hnot hchild' hnot'
          subst hsame
          rcases List.mem_cons.mp hp with rfl | hp
          · exact hn.2 hp'
          · exact hapart p hp p hp' rfl
    · refine List.forall_mem_cons.mpr ⟨Nat.lt_of_lt_of_le hlt h.size, fun m hm => ?_⟩
      exact (List.mem_append.mp hm).elim (hbelow.made m) (hothers.made m)
    · have hsum := Nat.add_le_add hbelowElements hothersElements
      rw [← elements_append, ← elements_append] at hsum
      rw [elements, elements, List.countP_cons, List.countP_cons, h.isElement n hlt]
      exact Nat.add_le_add_right hsum _
    · intro m hm
      rcases List.mem_cons.mp hm with rfl | hm
      · exact Or.inl List.mem_cons_self
      · rcases List.mem_append.mp hm with hm | hm
        · exact (hbelowOld m hm).imp (fun hold => hheadBelow (List.mem_cons_of_mem n hold))
            fun ⟨p, hp, hchild⟩ => ⟨p, hheadBelow hp, hchild⟩
        · exact (hothersOld m hm).imp hothersAll fun ⟨p, hp, hchild⟩ => ⟨p, hothersAll hp, hchild⟩

theorem Lists.exists_cons (h : w.Lists [n] all) : ∃ below, all = n :: below := by
  cases h
  exact ⟨_, rfl⟩

theorem Hosts.tree (h : Hosts here w w₁) (htree : w.Tree nodes all) :
    ∃ all', w₁.Tree nodes all' ∧ w₁.elements all' ≤ w.elements all := by
  obtain ⟨all', htree', helements, -⟩ := h.lists htree.lists htree.nodup htree.made
  exact ⟨all', htree', helements⟩

variable {report report' : List (NodeId × List Error)}

/-- Passes visit the same nodes if these report the same and lead to the same children. -/
theorem Visits.unique (h : w₁.Visits nodes report) (h' : w₂.Visits nodes report')
    (hsame : ∀ n errors errors', (n, errors) ∈ report → (n, errors') ∈ report' →
      errors' = errors ∧ (errors = [] → (w₂.node n).children = (w₁.node n).children)) :
    report' = report := by
  induction h generalizing report' with
  | nil =>
    cases h'
    rfl
  | @refused n rest errors report herrors _ inductionHypothesis =>
    cases h' with
    | @refused _ _ errors' report' _ hrest' =>
      obtain ⟨rfl, -⟩ := hsame n errors errors' List.mem_cons_self List.mem_cons_self
      rw [inductionHypothesis hrest' fun m e e' he he' =>
        hsame m e e' (List.mem_cons_of_mem _ he) (List.mem_cons_of_mem _ he')]
    | passed _ _ =>
      obtain ⟨hnone, -⟩ := hsame n errors [] List.mem_cons_self List.mem_cons_self
      exact absurd hnone.symm herrors
  | @passed n rest below report _ _ inductionBelow inductionRest =>
    cases h' with
    | @refused _ _ errors' report' herrors' _ =>
      obtain ⟨hnone, -⟩ := hsame n [] errors' List.mem_cons_self List.mem_cons_self
      exact absurd hnone herrors'
    | @passed _ _ below' report' hbelow' hrest' =>
      obtain ⟨-, hchildren⟩ := hsame n [] [] List.mem_cons_self List.mem_cons_self
      rw [hchildren rfl] at hbelow'
      rw [inductionBelow hbelow' fun m e e' he he' => hsame m e e'
          (List.mem_cons_of_mem _ (List.mem_append_left _ he))
          (List.mem_cons_of_mem _ (List.mem_append_left _ he')),
        inductionRest hrest' fun m e e' he he' => hsame m e e'
          (List.mem_cons_of_mem _ (List.mem_append_right _ he))
          (List.mem_cons_of_mem _ (List.mem_append_right _ he'))]

end Trees

end World

namespace World

section Recorded

variable {c : Reentry Code Memory} {owner : ViewModelId} {n : NodeId} {errors : List Error}
  {w w' : World Code Memory}

omit [Inhabited Code] in
theorem find?_eq_of_bindingsOf_eq (hbound : w'.isBound owner n = w.isBound owner n)
    (hbindings : w'.bindingsOf owner n = w.bindingsOf owner n) :
    (w'.viewModel owner).bindings.find? n = (w.viewModel owner).bindings.find? n := by
  rw [isBound, isBound, Entries.contains, Entries.contains] at hbound
  rw [bindingsOf, bindingsOf] at hbindings
  cases hfind : (w.viewModel owner).bindings.find? n <;>
    cases hfind' : (w'.viewModel owner).bindings.find? n <;> simp_all

/-- If a node is not bound by a visit, nothing is recorded for it. -/
theorem Fate.bindingsOf_of_isBound_eq (h : Fate c owner w w' n errors)
    (hsame : w'.isBound owner n = w.isBound owner n) : w'.bindingsOf owner n = w.bindingsOf owner n := by
  cases hbound : w.isBound owner n with
  | false => rw [bindingsOf_of_not_isBound hbound, bindingsOf_of_not_isBound (hsame.trans hbound)]
  | true =>
    cases h with
    | kept _ hrecorded => exact hrecorded
    | bound hunbound => exact absurd (hbound.symm.trans hunbound) (by simp)
    | refused hunbound => exact absurd (hbound.symm.trans hunbound) (by simp)
    | plain hunbound => exact absurd (hbound.symm.trans hunbound) (by simp)
    | shown hunbound => exact absurd (hbound.symm.trans hunbound) (by simp)
    | unshown hunbound => exact absurd (hbound.symm.trans hunbound) (by simp)

omit [Inhabited Code] in
/-- A tree has no more nodes than there are. -/
theorem Tree.length_le {roots nodes : List NodeId} (h : w.Tree roots nodes) :
    nodes.length ≤ w.nodes.size := by
  have hsubset : nodes ⊆ w.nodes.keys := fun m hm => mem_keys (h.made m hm)
  have hle := h.nodup.length_le_of_subset hsubset
  rwa [Table.keys, List.length_map, List.length_range] at hle

omit [Inhabited Code] in
/-- Trees whose nodes are seen alike look the same. -/
theorem Tree.html_eq {root : NodeId} {nodes : List NodeId} (h : w.Tree [root] (root :: nodes))
    (halike : ∀ m ∈ root :: nodes, SeenAlike w w' m) (hsize : w.nodes.size ≤ w'.nodes.size) :
    w'.html root = w.html root := by
  have hsame := h.lists.htmlWithin_eq halike (Nat.lt_succ_of_le h.length_le)
    (Nat.lt_succ_of_le (Nat.le_trans h.length_le hsize))
  exact (List.cons.inj hsame).1

end Recorded

end World

/-! ### One node, visited twice -/

namespace Setting

variable {s : Setting Code Memory} {start a b a' b' : World Code Memory} {c c' : Reentry Code Memory}
  {owner : ViewModelId} {n : NodeId} {errors errors' : List Error}

/-- What the second of two visits to a node comes to: to what the first one came to. -/
structure Repeated (owner : ViewModelId) (n : NodeId) (errors errors' : List Error)
    (w w' : World Code Memory) : Prop where
  reported : errors' = errors
  isBound : w'.isBound owner n = w.isBound owner n
  alike : World.SeenAlike w w' n
  bare : errors = [] → (w'.node n).bare = (w.node n).bare

theorem ElementVisit.isElement (h : s.ElementVisit start owner n errors a b) :
    (b.node n).isElement = (a.node n).isElement := by
  cases hbound : a.isBound owner n with
  | true => rw [(h.kept hbound).2]
  | false =>
    obtain ⟨fs, content?, -, -, hdressed⟩ := h.ruled hbound
    exact hdressed.isElement

/-- An element that is visited again is bound, or else the same fails again, if anything does. -/
theorem ElementVisit.again (h : s.ElementVisit start owner n errors a b)
    (h' : s.ElementVisit start owner n errors' a' b') (hnode : a'.node n = b.node n)
    (hbound : a'.isBound owner n = b.isBound owner n)
    (hattributes : (b.node n).attributes = (a.node n).attributes) :
    errors' = errors ∧ b'.isBound owner n = b.isBound owner n ∧
      ((b'.node n).bare = (b.node n).bare ∨ errors ≠ [] ∧ (b'.node n).name = (b.node n).name ∧
        ∃ content, b.Has n content ∧ b'.Has n content) := by
  cases hb : b.isBound owner n with
  | true =>
    have hnone : errors = [] := by
      cases ha : a.isBound owner n with
      | true => exact (h.kept ha).1
      | false => exact ((h.isBound ha).mp hb).1
    obtain ⟨hnone', hsame⟩ := h'.kept (hbound.trans hb)
    exact ⟨hnone'.trans hnone.symm, by rw [hsame, hbound, hb], Or.inl (by rw [hsame, hnode])⟩
  | false =>
    have ha : a.isBound owner n = false := by
      cases ha : a.isBound owner n with
      | true => rw [← ha, ← (h.kept ha).2, hb]
      | false => rfl
    have ha' : a'.isBound owner n = false := hbound.trans hb
    obtain ⟨fs, content?, hruled, herrors, hdressed⟩ := h.ruled ha
    obtain ⟨fs', content?', hruled', herrors', hdressed'⟩ := h'.ruled ha'
    have hsameAttributes : (a'.node n).attributes = (a.node n).attributes := by rw [hnode, hattributes]
    rw [hsameAttributes] at hruled'
    obtain ⟨rfl, rfl⟩ := hruled.unique hruled'
    have hname : a'.nodeName n = a.nodeName n := by
      rw [World.nodeName, hnode, hdressed.name, World.nodeName]
    have hreported : errors' = errors := by rw [herrors, herrors', hname]
    refine ⟨hreported, ?_, ?_⟩
    · rw [Bool.eq_false_iff, Ne, h'.isBound ha', hreported, hsameAttributes, ← h.isBound ha, hb]
      exact Bool.false_ne_true
    · cases content? with
      | none =>
        refine Or.inl ?_
        rw [hdressed'.looks rfl n, hnode]
      | some content =>
        refine Or.inr ⟨fun hnone => ?_, by rw [hdressed'.name, hnode], content, hdressed.has _ rfl,
          hdressed'.has _ rfl⟩
        -- with nothing to carry out nothing would be shown
        have hplain : start.Ordinary owner (a.node n).attributes := by
          refine Classical.byContradiction fun hnot => ?_
          rw [(h.isBound ha).mpr ⟨hnone, hnot⟩] at hb
          cases hb
        cases (hruled.unique (ruled_ordinary hplain)).2

/-- A text that is visited again is bound, or holds no placeholder, or cannot be shown again. -/
theorem TextVisit.again {text text' : String} (h : s.TextVisit start owner n text errors a b)
    (h' : s.TextVisit start owner n text' errors' a' b') (htext : a.node n = .text text)
    (htext' : a'.node n = .text text') (hnode : a'.node n = b.node n)
    (hbound : a'.isBound owner n = b.isBound owner n) :
    errors' = errors ∧ b'.isBound owner n = b.isBound owner n ∧ b'.node n = b.node n := by
  have hkept : errors = [] → errors' = [] ∧ b' = a' →
      errors' = errors ∧ b'.isBound owner n = b.isBound owner n ∧ b'.node n = b.node n := by
    rintro hnone ⟨hnone', hsame⟩
    exact ⟨hnone'.trans hnone.symm, hsame ▸ hbound, hsame ▸ hnode⟩
  have heq : b.node n = a.node n → text' = text := fun hsame =>
    Node.text.inj (htext'.symm.trans (hnode.trans (hsame.trans htext)))
  by_cases hfirst : a.isBound owner n = true ∨ start.Mentions owner text = false
  · obtain ⟨hnone, hsame⟩ := h.kept hfirst
    refine hkept hnone (h'.kept (hfirst.imp (fun ha => ?_) fun hnot => ?_))
    · rw [hbound, hsame, ha]
    · rw [heq (by rw [hsame]), hnot]
  · rw [not_or, Bool.not_eq_true, Bool.not_eq_false] at hfirst
    obtain ⟨answer, hgives, hanswer⟩ := h.asked hfirst.1 hfirst.2
    cases answer with
    | ok shown =>
      obtain ⟨hnone, hb⟩ := hanswer
      exact hkept hnone (h'.kept (Or.inl (hbound.trans hb)))
    | error e =>
      obtain ⟨herrors, hnodes, hb⟩ := hanswer
      have hsame : b.node n = a.node n := by rw [World.node, hnodes, World.node]
      obtain rfl := heq hsame
      obtain ⟨answer', hgives', hanswer'⟩ := h'.asked (hbound.trans hb) hfirst.2
      cases View.Gives.unique hgives hgives'
      obtain ⟨herrors', hnodes', hb'⟩ := hanswer'
      refine ⟨?_, hb'.trans hb.symm, ?_⟩
      · rw [herrors, herrors', World.nodeName, hnode, hsame, World.nodeName]
      · rw [World.node, hnodes', ← World.node, hnode]

/-- What a visit to a node comes to. -/
theorem Heard.handles {tally : Tally} {w w' : World Code Memory} (hheard : s.Heard start c)
    (hw : s.Echoes start w) (hstandard : (start.viewModel owner).registry = Registry.standard)
    (h : World.Handles c owner n w tally w') :
    ((w.node n).isElement = true ∧ s.ElementVisit start owner n tally.errors w w') ∨
      ∃ text, w.node n = .text text ∧ s.TextVisit start owner n text tally.errors w w' := by
  rcases h with ⟨helement, descend, hrun⟩ | ⟨helement, hrun⟩
  · obtain ⟨-, -, tally', hr, hvisit⟩ := hheard.compileElement hw hstandard helement _ _ hrun
    cases hr
    exact Or.inl ⟨helement, hvisit⟩
  · cases hrow : w.node n with
    | element e =>
      rw [hrow] at helement
      cases helement
    | text text =>
      obtain ⟨-, -, tally', hr, hvisit⟩ := hheard.compileText hw hrow _ _ hrun
      cases hr
      exact Or.inr ⟨text, rfl, hvisit⟩

/-- What a node has that has been met, it has still. -/
theorem has_of_met {fit : World Code Memory → Prop} {w w' before after : World Code Memory}
    (h : World.Met fit c owner w w' n errors before after) (herrors : errors ≠ []) {content : Content}
    (hhas : after.Has n content) : w'.Has n content := by
  cases content with
  | html content =>
    exact ⟨h.node_after ▸ hhas.1, h.node_after ▸ hhas.2⟩
  | text content =>
    obtain ⟨child, hchild, hrich, htext⟩ := hhas
    refine ⟨child, h.node_after ▸ hchild, h.node_after ▸ hrich, ?_⟩
    rw [h.children_after herrors child (by rw [h.node_after, hchild]; exact List.mem_singleton_self child),
      htext]

/-- A node that a second pass visits is found and left as the first pass left it, and reports what it
reported. -/
theorem Heard.repeated {holds : Memory → List Ref} {here here' : NodeId → Prop}
    {w w₁ w₂ : World Code Memory} (hheard : s.Heard start c) (hheard' : s.Heard start c')
    (hstandard : (start.viewModel owner).registry = Registry.standard)
    (hties : World.Ties holds owner here w w₁) (hties' : World.Ties holds owner here' w₁ w₂)
    (hmet : World.Met (s.Echoes start) c owner w w₁ n errors a b)
    (hmet' : World.Met (s.Echoes start) c' owner w₁ w₂ n errors' a' b')
    (hlt : n.index < w₁.nodes.size) : Repeated owner n errors errors' w₁ w₂ := by
  have hnode : a'.node n = b.node n := (hmet'.node_before hlt).trans hmet.node_after
  have hbound : a'.isBound owner n = b.isBound owner n :=
    hmet'.isBound_before.trans hmet.isBound_after
  have hmade : (w₁.node n).isElement = true → a.node n = w.node n ∧ n.index < w.nodes.size := by
    intro helement
    have hlt : n.index < w.nodes.size := by
      refine Nat.lt_of_not_le fun hge => ?_
      rw [hties.hosts.text n hge] at helement
      cases helement
    exact ⟨hmet.node_before hlt, hlt⟩
  obtain ⟨tally, hhandles, rfl⟩ := hmet.handles
  obtain ⟨tally', hhandles', rfl⟩ := hmet'.handles
  rcases hheard.handles hmet.fits hstandard hhandles with ⟨helement, hvisit⟩ | ⟨text, htext, hvisit⟩
  · have helement₁ : (w₁.node n).isElement = true := by
      rw [hmet.node_after, hvisit.isElement, helement]
    obtain ⟨hsame, hold⟩ := hmade helement₁
    rcases hheard'.handles hmet'.fits hstandard hhandles' with ⟨-, hvisit'⟩ | ⟨text', htext', -⟩
    · have hattributes : (b.node n).attributes = (a.node n).attributes := by
        rw [← hmet.node_after, hties.hosts.attributes n hold, hsame]
      obtain ⟨hreported, hrecorded, hseen⟩ := hvisit.again hvisit' hnode hbound hattributes
      rw [← hmet.node_after, ← hmet'.node_after] at hseen
      refine ⟨hreported, hmet'.isBound_after.trans (hrecorded.trans hmet.isBound_after.symm),
        hseen.imp_right ?_, fun hnone => hseen.resolve_right fun h => h.1 hnone⟩
      rintro ⟨herrors, hname, content, hhas, hhas'⟩
      exact ⟨helement₁, (hties'.hosts.isElement n hlt).trans helement₁, hname,
        hties'.hosts.attributes n hlt, content, has_of_met hmet herrors hhas,
        has_of_met hmet' (hreported.symm ▸ herrors) hhas'⟩
    · rw [hnode, ← hmet.node_after] at htext'
      rw [htext'] at helement₁
      cases helement₁
  · have htext₁ : ¬ (w₁.node n).isElement = true := by
      intro helement
      obtain ⟨hsame, hold⟩ := hmade helement
      rw [hties.hosts.isElement n hold, ← hsame, htext] at helement
      cases helement
    rcases hheard'.handles hmet'.fits hstandard hhandles' with ⟨helement', -⟩ | ⟨text', htext', hvisit'⟩
    · rw [hnode, ← hmet.node_after] at helement'
      exact absurd helement' htext₁
    · obtain ⟨hreported, hrecorded, hrow⟩ := hvisit.again hvisit' htext htext' hnode hbound
      have hrow₂ : w₂.node n = w₁.node n := by rw [hmet'.node_after, hrow, hmet.node_after]
      exact ⟨hreported, hmet'.isBound_after.trans (hrecorded.trans hmet.isBound_after.symm),
        Or.inl (congrArg _ hrow₂), fun _ => congrArg _ hrow₂⟩

end Setting

/-! ### Getters whose questions depend on the data alone -/

omit [Inhabited Code] in
theorem Program.Reads.mono {α : Type} {m m' : Manner} {program : Program Code Memory α}
    (h : program.Reads m) (hreader : ∀ reader, m.reader reader → m'.reader reader)
    (howner : ∀ owner, m.owner owner → m'.owner owner) : program.Reads m' := by
  induction h with
  | done result => exact .done result
  | fail error => exact .fail error
  | look hpaused hsteady _ inductionHypothesis =>
    exact .look (hreader none hpaused) hsteady inductionHypothesis
  | ask hrequest _ inductionHypothesis =>
    refine .ask ?_ inductionHypothesis
    cases hrequest with
    | get h => exact .get (hreader _ h)
    | readPath h => exact .readPath (hreader _ h)
    | renderTemplate h => exact .renderTemplate (hreader _ h)
    | readComputed h => exact .readComputed (hreader _ h)
    | read h => exact .read (howner _ h)
    | render h hpaused => exact .render (howner _ h) (hreader none hpaused)

/-- The getter of every computed property only reads, of its own view model and of those that live, and
what it asks for depends on the data alone. -/
structure World.GettersSteady (application : Application Code Memory) (w : World Code Memory) : Prop where
  reads : ∀ id, (application.getter (w.computed id).getter.code (w.computed id).getter.owner?).Reads
    (.free fun owner => (w.computed id).getter.owner? = some owner ∨
      w.alive (application.holds w.memory) (.viewModel owner) = true)
  steady : ∀ (id : ComputedId) (v v' : World Code Memory), v.Kin v' →
    (application.getter (w.computed id).getter.code (w.computed id).getter.owner?).query v'
      = (application.getter (w.computed id).getter.code (w.computed id).getter.owner?).query v

namespace Setting

variable {application : Application Code Memory} {owner : ViewModelId} {w : World Code Memory}

/-- All computed properties are in the scope, and the view models live that did at the start and the one
that is bound. -/
def binding (application : Application Code Memory) (owner : ViewModelId) (start : World Code Memory) :
    Setting Code Memory where
  application := application
  scope _ := True
  manner id := .free fun other => (start.computed id).getter.owner? = some other ∨
    start.alive (application.holds start.memory) (.viewModel other) = true
  lives other := other = owner ∨ start.alive (application.holds start.memory) (.viewModel other) = true

theorem heard_binding (hquiet : ∀ o w, application.holds (application.notes o w) = application.holds w.memory)
    (hsteady : w.GettersSteady application) (owner : ViewModelId) (depth : Nat) :
    (binding application owner w).Heard w (reentry application depth) where
  quiet := hquiet
  reads := fun id _ => hsteady.reads id
  owner := fun _ _ _ howner => howner.imp_right Or.inr
  home := fun _ _ _ _ => trivial
  closed := fun _ _ => along_of_whole (fun _ => trivial) _ w _
  whole := fun _ => trivial
  steady := fun id v v' hkin => hsteady.steady id v v' hkin
  codes := application_reentry application depth
  run := fun _ hfits => soundRun_reentry hfits depth

/-- While the view model is held, the start tells all that is known there. -/
theorem echoes_holding (application : Application Code Memory) (owner : ViewModelId)
    (w : World Code Memory) :
    FitsHolding ((binding application owner w).Echoes w) owner w where
  kin := World.kin_holding w _
  kept _ _ hknown := hknown
  told id value hknown :=
    have hknown : (w.computed id).known? = some value := hknown
    (View.tells_computed_of_known ((view_known trivial).trans hknown)).mpr rfl
  lives _ other _ := by
    change _ ↔ other = owner ∨ w.alive (application.holds w.memory) (.viewModel other) = true
    rw [World.alive_viewModel, World.alive_viewModel, List.mem_cons, Ref.viewModel.injEq]
    exact or_left_comm

theorem Heard.stays {s : Setting Code Memory} {start : World Code Memory} {c : Reentry Code Memory}
    (hheard : s.Heard start c) (hstandard : (start.viewModel owner).registry = Registry.standard) :
    Stays s.application.holds c owner (s.Echoes start) where
  element _ _ hw helement := (hheard.compileElement hw hstandard helement).mono fun _ _ h => h.1
  text _ _ _ hw htext := (hheard.compileText hw htext).mono fun _ _ h => h.1
  later _ _ hw := hw.later

end Setting

/-! ### A tree, bound twice -/

namespace Engine

variable {application : Application Code Memory} {c c' : Reentry Code Memory} {owner : ViewModelId}
  {root : NodeId} {nodes nodes' : List NodeId} {w w₁ w₂ : World Code Memory} {r r' : Except Error Nat}

/-- What a pass over a tree leaves as it was. -/
structure Unchanged (holds : Memory → List Ref) (root : NodeId) (w w' : World Code Memory) : Prop where
  recorded : ∀ id n, (w'.viewModel id).bindings.find? n = (w.viewModel id).bindings.find? n
  bindings : ∀ id n, ∀ b ∈ w.bindingsOf id n, w'.binding b = w.binding b
  liveWatchers : ∀ s, w'.liveWatchers (holds w'.memory) s = w.liveWatchers (holds w.memory) s
  html : w'.html root = w.html root

/-- A second pass below a node visits what the first one visited, and its errors are the same. -/
theorem Finished.again {s : Setting Code Memory} (hheard : s.Heard w c) (hheard' : s.Heard w c')
    (hstandard : (w.viewModel owner).registry = Registry.standard)
    (hanchored : w.Anchored (s.application.holds w.memory)) (hidle : ∀ x, ¬ w.Evaluates (.watcher x))
    (hroot : root ∉ nodes) (hlt : root.index < w.nodes.size)
    (htree' : w₁.Tree [root] (root :: nodes'))
    (h : Finished (s.Echoes w) c s.application.holds owner root nodes w r w₁)
    (h' : Finished (s.Echoes w) c' s.application.holds owner root nodes' w₁ r' w₂) :
    r' = (r.map fun _ => 0) ∧ Unchanged s.application.holds root w₁ w₂ := by
  obtain ⟨report, tally, rfl, hcompiled, hvisits, -⟩ := h
  obtain ⟨report', tally', rfl, hcompiled', hvisits', -⟩ := h'
  have hsame : ∀ n errors errors', (n, errors) ∈ report → (n, errors') ∈ report' →
      Setting.Repeated owner n errors errors' w₁ w₂ := by
    intro n errors errors' hv hv'
    obtain ⟨before, after, hmet⟩ := hcompiled.met _ hv
    obtain ⟨before', after', hmet'⟩ := hcompiled'.met _ hv'
    exact hheard.repeated hheard' hstandard hcompiled.ties hcompiled'.ties hmet hmet'
      (hcompiled.within n (List.mem_map_of_mem hv)).1
  have hrow : w₁.node root = w.node root :=
    hcompiled.ties.hosts.same root hlt (hcompiled.unvisited hroot hlt)
  rw [hrow] at hvisits'
  have hreport : report' = report := by
    refine hvisits.unique hvisits' fun n errors errors' hv hv' => ?_
    have hrepeated := hsame n errors errors' hv hv'
    exact ⟨hrepeated.reported, fun hnone => Node.children_eq_of_bare (hrepeated.bare hnone)⟩
  subst hreport
  have hvisited : ∀ n ∈ report'.map Prod.fst, ∃ errors, (n, errors) ∈ report' ∧
      Setting.Repeated owner n errors errors w₁ w₂ := by
    intro n hn
    obtain ⟨⟨n, errors⟩, hv, rfl⟩ := List.mem_map.mp hn
    exact ⟨errors, hv, hsame n errors errors hv hv⟩
  have hrecords := hcompiled'.ties.records
  have hbound : ∀ n, w₂.isBound owner n = w₁.isBound owner n := by
    intro n
    by_cases hn : n ∈ report'.map Prod.fst
    · obtain ⟨errors, -, hrepeated⟩ := hvisited n hn
      exact hrepeated.isBound
    · exact hrecords.isBound hn
  have hbindingsOf : ∀ n, w₂.bindingsOf owner n = w₁.bindingsOf owner n := by
    intro n
    by_cases hn : n ∈ report'.map Prod.fst
    · obtain ⟨errors, hv, -⟩ := hvisited n hn
      exact (hcompiled'.fate _ hv).bindingsOf_of_isBound_eq (hbound n)
    · exact hrecords.bindingsOf hn
  have hfind : ∀ id n, (w₂.viewModel id).bindings.find? n = (w₁.viewModel id).bindings.find? n := by
    intro id n
    by_cases hid : id = owner
    · subst hid
      exact World.find?_eq_of_bindingsOf_eq (hbound n) (hbindingsOf n)
    · rw [hrecords.others id hid]
  have hanchored₁ := hcompiled.ties.anchored hanchored
  have hidle₁ : ∀ x, ¬ w₁.Evaluates (.watcher x) := fun x hx =>
    hidle x ((World.evaluates_congr hcompiled.ties.trackers).mp hx)
  have halike : ∀ n ∈ root :: nodes', World.SeenAlike w₁ w₂ n := by
    intro n hn
    by_cases hmem : n ∈ report'.map Prod.fst
    · obtain ⟨errors, -, hrepeated⟩ := hvisited n hmem
      exact hrepeated.alike
    · exact Or.inl (congrArg Node.bare (hcompiled'.ties.hosts.same n (htree'.made n hn) hmem))
  refine ⟨?_, hfind, fun id n b hb => ?_, ?_, ?_⟩
  · have hinstalled : tally'.installed = 0 := by
      have hcount := hcompiled'.count
      rw [ViewModel.bindingCount, ViewModel.bindingCount, Entries.length_values_congr (hfind owner)] at hcount
      omega
    rw [Tally.result, Tally.result, hcompiled.errors, hcompiled'.errors, hinstalled]
    split <;> rfl
  · exact hcompiled'.ties.binds.binding b (hanchored₁.recorded id n b hb)
  · exact (hcompiled'.ties.standing hbindingsOf).liveWatchers_eq hanchored₁ hidle₁
  · exact htree'.html_eq halike hcompiled'.ties.hosts.size

end Engine

/--
Binding a tree again changes nothing. If getters only read and what they ask for depends on the data alone,
then compiling a tree after it has been mounted or compiled answers that there is no new binding, or else
the failures of the first pass once more; it leaves what is recorded, the live watchers of every source
and their order, and the markup of the tree. It comes to an end if getters do.
-/
theorem Engine.recompile_idempotent {application : Application Code Memory}
    (hquiet : ∀ o w, application.holds (application.notes o w) = application.holds w.memory)
    {w : World Code Memory} (hsteady : w.GettersSteady application)
    (hfounded : w.Founded (application.holds w.memory)) (hidle : ∀ x, ¬ w.Evaluates (.watcher x))
    {owner : ViewModelId} (hstandard : (w.viewModel owner).registry = Registry.standard) {pass : Pass}
    {root : NodeId} (hroot : pass.root? w owner = some root) {nodes : List NodeId}
    (htree : w.Tree [root] (root :: nodes)) (depth depth' : Nat) {r : Except Error Nat}
    {w₁ : World Code Memory} (hrun : pass.run (reentry application depth) owner w = some (r, w₁)) :
    (∀ r' w₂, compile (reentry application depth') owner root w₁ = some (r', w₂) →
      r' = (r.map fun _ => 0) ∧ Unchanged application.holds root w₁ w₂) ∧
    (Answers (reentry application depth') w → w.elements nodes < depth' →
      ∃ outcome, compile (reentry application depth') owner root w₁ = some outcome) := by
  have hreads : w.GettersRead application := fun id =>
    (hsteady.reads id).mono (fun _ _ => trivial) fun _ _ => trivial
  have hprepared : ∀ depth, Prepared application (Answers (reentry application depth) w)
      (reentry application depth) owner w := fun depth =>
    ⟨relies_reentry hquiet hreads depth, hfounded.ready, hstandard⟩
  have hheard := Setting.heard_binding hquiet hsteady owner
  have hfinished := ((achieves_pass ((hheard depth).stays hstandard) (hprepared depth)
    (Setting.echoes_holding application owner w) hroot htree).ends r w₁ hrun).2
  obtain ⟨-, hunvisited, hlt⟩ := tree_children htree
  obtain ⟨report, tally, -, hcompiled, -, hfits⟩ := id hfinished
  obtain ⟨all', htree', helements⟩ := hcompiled.ties.hosts.tree htree
  obtain ⟨nodes', rfl⟩ := htree'.lists.exists_cons
  have hpass := achieves_compile ((hheard depth').stays hstandard) ((hprepared depth').later hcompiled.ties)
    hfits htree'
  refine ⟨fun r' w₂ hrun' => ?_, fun hanswers hfew => hpass.halts ⟨hanswers, ?_⟩⟩
  · exact hfinished.again (hheard depth) (hheard depth') hstandard hfounded.anchored hidle hunvisited hlt
      htree' (hpass.ends r' w₂ hrun').2
  · have hdepth : (reentry application depth').depth = depth' := by cases depth' <;> rfl
    rw [World.elements, World.elements, List.countP_cons, List.countP_cons,
      hcompiled.ties.hosts.isElement root hlt] at helements
    rw [hdepth]
    exact Nat.lt_of_le_of_lt (Nat.le_of_add_le_add_right helements) hfew

theorem World.not_evaluates_sapling (x : WatcherId) : ¬ sapling.Evaluates (.watcher x) := by
  rintro ⟨t, ht⟩
  by_cases hlt : t.index < 1
  · obtain ⟨i⟩ := t
    obtain rfl : i = 0 := Nat.lt_one_iff.mp hlt
    cases ht
  · rw [tracker, sapling.trackers.get_of_size_le (Nat.le_of_not_lt hlt)] at ht
    cases ht

theorem Engine.recompile_idempotent_sapling :
    (World.sapling.GettersSteady Application.idle ∧ World.sapling.Founded [] ∧
      (∀ x, ¬ World.sapling.Evaluates (.watcher x)) ∧ World.sapling.Tree [⟨0⟩] [⟨0⟩, ⟨1⟩, ⟨2⟩]) ∧
    ∃ r w₁ r' w₂, (Pass.mount (.node ⟨0⟩)).run (reentry Application.idle 3) ⟨0⟩ World.sapling
        = some (r, w₁) ∧
      compile (reentry Application.idle 3) ⟨0⟩ ⟨0⟩ w₁ = some (r', w₂) ∧
      r' = (r.map fun _ => 0) ∧ Unchanged (fun _ => []) ⟨0⟩ w₁ w₂ := by
  have hsteady : World.sapling.GettersSteady Application.idle := ⟨fun _ => .done _, fun _ _ _ _ => rfl⟩
  have hidle : ∀ x, ¬ World.sapling.Evaluates (.watcher x) := World.not_evaluates_sapling
  have hreads : World.sapling.GettersRead Application.idle := fun _ => .done _
  have hprepared : Prepared Application.idle (Answers (reentry Application.idle 3) World.sapling)
      (reentry Application.idle 3) ⟨0⟩ World.sapling :=
    ⟨relies_reentry (fun _ _ => rfl) hreads 3, World.founded_sapling.ready, rfl⟩
  have hfits : FitsHolding (fun _ => True) ⟨0⟩ World.sapling := trivial
  have hlocate : World.sapling.locate none (.node ⟨0⟩) = .ok ⟨0⟩ := rfl
  have hpass := achieves_mount (stays_true _ _ _) hprepared hfits hlocate World.tree_sapling
  obtain ⟨⟨r, w₁⟩, hrun⟩ := hpass.halts ⟨answers_idle 2 World.sapling, by decide⟩
  have hagain := @recompile_idempotent _ _ _ Application.idle (fun _ _ => rfl) World.sapling hsteady
    World.founded_sapling hidle ⟨0⟩ rfl (.mount (.node ⟨0⟩)) ⟨0⟩ rfl [⟨1⟩, ⟨2⟩] World.tree_sapling 3 3 r w₁ hrun
  obtain ⟨⟨r', w₂⟩, hrun'⟩ := hagain.2 (answers_idle 2 World.sapling) (by decide)
  exact ⟨⟨hsteady, World.founded_sapling, hidle, World.tree_sapling⟩, r, w₁, r', w₂, hrun, hrun',
    hagain.1 r' w₂ hrun'⟩

end ViewBinding
