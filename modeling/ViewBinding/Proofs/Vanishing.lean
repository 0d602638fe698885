import ViewBinding.Proofs.Accounts
import ViewBinding.Proofs.Repeating

/-!
# Unmounting leaves no trace

Unmounting takes away all bindings of a tree and nothing else. A binding that was taken away is silent from
then on: its watchers do nothing when they are told of a change, and its listeners do nothing about an event,
even where their turn is still to come when it happens. Mounting a tree and unmounting it gives back what was
there before.
-/

namespace ViewBinding

open Engine

variable {Code Memory : Type} [Inhabited Code]

namespace World

variable {w w₁ w' : World Code Memory} {owner : ViewModelId} {root n d : NodeId} {b : BindingId}

/-! ### After a tree was unmounted -/

omit [Inhabited Code] in
/-- All bindings of a tree were taken away, as many as `count`, and everything else is as it was. -/
structure Unmounted (owner : ViewModelId) (n : NodeId) (w : World Code Memory) (count : Nat)
    (w' : World Code Memory) : Prop where
  nodes : w'.nodes = w.nodes
  unbound : ∀ m, m = n ∨ w.Below n m → w'.isBound owner m = false
  removed : ∃ bs : List BindingId, bs.Nodup ∧ bs.length = count ∧
    (∀ b, b ∈ bs ↔ ∃ m, (m = n ∨ w.Below n m) ∧ b ∈ w.bindingsOf owner m) ∧
    ∀ b ∈ bs, w'.Gone b ∧ ∀ x ∈ (w'.binding b).watchers, ∀ s, .watcher x ∉ (w'.source s).subscribers
  count : (w'.viewModel owner).bindingCount + count = (w.viewModel owner).bindingCount
  recorded : ∀ id m, id ≠ owner ∨ ¬ (m = n ∨ w.Below n m) → w'.bindingsOf id m = w.bindingsOf id m
  others : ∀ b, ¬ ((w.binding b).node = n ∨ w.Below n (w.binding b).node) →
    w'.binding b = w.binding b ∧ ∀ x ∈ (w.binding b).watchers, w'.watcher x = w.watcher x ∧
      ∀ s, .watcher x ∈ (w'.source s).subscribers ↔ .watcher x ∈ (w.source s).subscribers

theorem Accounted.unmounted (h : w.Accounted) (owner : ViewModelId) (n : NodeId) :
    Unmounted owner n w (w.unmount owner n).1 (w.unmount owner n).2 := by
  have hleaves := leaves_unmount w owner n
  generalize (w.unmount owner n).2 = w' at hleaves
  have hmem : ∀ b, b ∈ w.removed owner n ↔ ∃ m, (m = n ∨ w.Below n m) ∧ b ∈ w.bindingsOf owner m :=
    fun _ => mem_removed
  have hwatchers : ∀ b, (w'.binding b).watchers = (w.binding b).watchers := by
    intro b
    rw [hleaves.binding]
    split <;> rfl
  refine {
    nodes := by rw [hleaves.rest]
    unbound := fun m hm => ?_
    removed := ⟨w.removed owner n, nodup_removed (h.nodup owner) (h.placed owner), rfl, hmem,
      fun b hb => ?_⟩
    count := hleaves.count
    recorded := fun id m hm => ?_
    others := fun b hb => ?_ }
  · rw [isBound, Entries.contains, hleaves.inside m hm]
    rfl
  · have hretired : ∀ x ∈ (w'.binding b).watchers, w'.Retired x := fun x hx =>
      hleaves.retired x (h.fit x) (Or.inl ⟨b, hb, hwatchers b ▸ hx⟩)
    obtain ⟨m, -, hrecorded⟩ := (hmem b).mp hb
    refine ⟨⟨Nat.lt_of_lt_of_le (h.made owner m b hrecorded) hleaves.bindings, ?_,
      fun x hx => (hretired x hx).1⟩, fun x hx => (hretired x hx).2⟩
    rw [hleaves.binding, if_pos hb]
  · by_cases hid : id = owner
    · subst hid
      rw [bindingsOf, hleaves.outside m (hm.resolve_left fun hne => hne rfl), bindingsOf]
    · rw [bindingsOf, hleaves.others id hid, bindingsOf]
  · have hplaced : ∀ b' ∈ w.removed owner n,
        (w.binding b').node = n ∨ w.Below n (w.binding b').node := by
      intro b' hb'
      obtain ⟨m, hm, hrecorded⟩ := (hmem b').mp hb'
      rwa [h.placed owner m b' hrecorded]
    refine ⟨by rw [hleaves.binding, if_neg fun hb' => hb (hplaced b hb')], fun x hx => ?_⟩
    -- a watcher shows on one node, so no binding that was taken away has it
    have hwho : ¬ ∃ b' ∈ w.removed owner n, x ∈ (w.binding b').watchers := by
      rintro ⟨b', hb', hx'⟩
      have hnode := (h.shown b x hx).2.symm.trans (h.shown b' x hx').2
      exact hb (Option.some.inj hnode ▸ hplaced b' hb')
    exact ⟨hleaves.row x hwho, hleaves.listed.mem hwho⟩

/-! ### Bindings that were taken away -/

/-- A binding is gone, and neither news nor events make it do anything: its watchers do not react when they
are told of a change, and its listeners neither call nor write when it is their turn. -/
structure Silent (w : World Code Memory) (b : BindingId) : Prop extends Gone w b where
  news : ∀ (c : Reentry Code Memory), ∀ x ∈ (w.binding b).watchers,
    updateSubscriber c (.watcher x) w = some (.ok (), w.note c.application (.updating (.watcher x)))
  input : ∀ (c : Reentry Code Memory) (event : Event) (owner : ViewModelId) (path : Path),
    handle c event (.writeBack owner b path) w = some (.ok (), w)
  event : ∀ (c : Reentry Code Memory) (event : Event) (owner : ViewModelId) (method : String),
    handle c event (.invoke owner b method) w = some (.ok (), w)

theorem Gone.silent (h : w.Gone b) : w.Silent b where
  toGone := h
  news c x hx := by
    change Option.map _ ((if (w.watcher x).disposed = true then _ else _ : Engine Code Memory Unit) _) = _
    rw [h.disposed x hx]
    rfl
  input c event owner path := by rw [handle_writeBack, h.inactive, if_neg Bool.false_ne_true]
  event c event owner method := by rw [handle_invoke, h.inactive, if_neg Bool.false_ne_true]

/-! ### There and back -/

section Trees

omit [Inhabited Code]

/-- What is below a node of a tree after nodes were bound is a node of the tree, or a new text. -/
theorem Hosts.below {here : NodeId → Prop} {all : List NodeId} (h : Hosts here w w₁)
    (hclosed : ∀ m ∈ all, ∀ child ∈ (w.node m).children, child ∈ all)
    (hmade : ∀ m ∈ all, m.index < w.nodes.size) (hd : w₁.Below n d) (hn : n ∈ all) :
    d ∈ all ∨ w.nodes.size ≤ d.index := by
  have hchild : ∀ {m child}, m ∈ all → child ∈ (w₁.node m).children →
      child ∈ all ∨ w.nodes.size ≤ child.index := by
    intro m child hm hmem
    by_cases hold : child ∈ (w.node m).children
    · exact Or.inl (hclosed m hm child hold)
    · exact Or.inr (h.made_child (hmade m hm) hmem hold).1
  induction hd with
  | child hmem => exact hchild hn hmem
  | deeper hmem hbelow inductionHypothesis =>
    rcases hchild hn hmem with hold | hnew
    · exact inductionHypothesis hold
    · exact absurd (children_of_not_isElement (h.text _ hnew)) hbelow.children_ne_nil

/-- Whatever a pass visits is among the nodes that it starts from or below one of them. -/
theorem Visits.mem_below {nodes : List NodeId} {report : List (NodeId × List Error)}
    (h : w.Visits nodes report) : ∀ v ∈ report, ∃ m ∈ nodes, v.1 = m ∨ w.Below m v.1 := by
  induction h with
  | nil => exact fun _ hv => absurd hv List.not_mem_nil
  | refused _ _ inductionHypothesis =>
    refine List.forall_mem_cons.mpr ⟨⟨_, List.mem_cons_self, Or.inl rfl⟩, fun v hv => ?_⟩
    obtain ⟨m, hm, hbelow⟩ := inductionHypothesis v hv
    exact ⟨m, List.mem_cons_of_mem _ hm, hbelow⟩
  | passed _ _ inductionBelow inductionRest =>
    refine List.forall_mem_cons.mpr ⟨⟨_, List.mem_cons_self, Or.inl rfl⟩, fun v hv => ?_⟩
    rcases List.mem_append.mp hv with hv | hv
    · obtain ⟨m, hm, hbelow⟩ := inductionBelow v hv
      refine ⟨_, List.mem_cons_self, Or.inr ?_⟩
      rcases hbelow with heq | hbelow
      · exact heq ▸ .child hm
      · exact .deeper hm hbelow
    · obtain ⟨m, hm, hbelow⟩ := inductionRest v hv
      exact ⟨m, List.mem_cons_of_mem _ hm, hbelow⟩

end Trees

section Restoring

variable {fit : World Code Memory → Prop} {c : Reentry Code Memory} {holds : Memory → List Ref}
  {nodes : List NodeId} {report : List (NodeId × List Error)} {tally : Tally}

/-- The same bindings are recorded, and the same watchers live. -/
structure Restored (embedder embedder' : List Ref) (w w' : World Code Memory) : Prop where
  recorded : ∀ id m, w'.bindingsOf id m = w.bindingsOf id m
  count : ∀ id, (w'.viewModel id).bindingCount = (w.viewModel id).bindingCount
  watchers : ∀ s, w'.liveWatchers embedder' s = w.liveWatchers embedder s

/-- A tree was bound that was not bound before, and then unmounted. -/
theorem Compiled.restored (h : Compiled fit c holds owner nodes report tally w w₁)
    (haccounted : w.Accounted) (hmade : ∀ x ∈ w.roots (holds w.memory), w.Made x)
    (htree : w.Tree [root] (root :: nodes)) (hunbound : ∀ m ∈ root :: nodes, w.isBound owner m = false)
    (hvisits : w₁.Visits (w.node root).children report) (hw : Leaves owner root w₁ w') :
    Restored (holds w.memory) (holds w'.memory) w w' := by
  obtain ⟨-, hroot, hlt⟩ := tree_children htree
  have hrow : w₁.node root = w.node root :=
    h.ties.hosts.same root hlt (h.unvisited hroot hlt)
  -- what is below the root was not bound before the pass, and the pass bound nothing else
  have hbefore : ∀ m, m = root ∨ w₁.Below root m → w.isBound owner m = false := by
    rintro m (rfl | hbelow)
    · exact hunbound m List.mem_cons_self
    · have hmem := h.ties.hosts.below htree.lists.closed.2 htree.made hbelow List.mem_cons_self
      rcases hmem with hold | hnew
      · exact hunbound m hold
      · refine Bool.eq_false_iff.mpr fun hbound => ?_
        exact Nat.not_lt.mpr hnew (haccounted.hosted owner m hbound)
  have hinside : ∀ m ∈ report.map Prod.fst, m = root ∨ w₁.Below root m := by
    intro m hm
    obtain ⟨v, hv, rfl⟩ := List.mem_map.mp hm
    obtain ⟨child, hchild, hbelow⟩ := hvisits.mem_below v hv
    rw [← hrow] at hchild
    rcases hbelow with heq | hbelow
    · exact Or.inr (heq ▸ .child hchild)
    · exact Or.inr (.deeper hchild hbelow)
  have hfind : ∀ id m, (w'.viewModel id).bindings.find? m = (w.viewModel id).bindings.find? m := by
    intro id m
    by_cases hid : id = owner
    · subst hid
      by_cases hm : m = root ∨ w₁.Below root m
      · have hnone := hbefore m hm
        rw [isBound, Entries.contains, Option.isSome_eq_false_iff, Option.isNone_iff_eq_none] at hnone
        rw [hw.inside m hm, hnone]
      · rw [hw.outside m hm, h.ties.records.same m fun hmem => hm (hinside m hmem)]
    · rw [hw.others id hid, h.ties.records.others id hid]
  have hbindingsOf : ∀ id m, w'.bindingsOf id m = w.bindingsOf id m := fun id m => by
    rw [bindingsOf, hfind, bindingsOf]
  have hmemory : w'.memory = w₁.memory := by rw [hw.rest]
  have hroots : ∀ y, y ∈ w'.roots (holds w'.memory) ↔ y ∈ w.roots (holds w.memory) := by
    intro y
    have hsame : w'.roots (holds w'.memory) = w₁.roots (holds w₁.memory) := by
      rw [hmemory, hw.rest]
      rfl
    rw [hsame, h.ties.mem_roots]
  -- the bindings that are taken away are those that the pass made, with watchers of their own
  have hremoved : ∀ x : WatcherId, x.index < w.watchers.size →
      ¬ ∃ b ∈ w₁.removed owner root, x ∈ (w₁.binding b).watchers := by
    rintro x hx ⟨b, hb, hmem⟩
    obtain ⟨m, hm, hrecorded⟩ := mem_removed.mp hb
    have hold : b ∉ w.bindingsOf owner m := by
      have hnone := hbefore m hm
      rw [isBound, Entries.contains, Option.isSome_eq_false_iff, Option.isNone_iff_eq_none] at hnone
      rw [bindingsOf, hnone]
      exact List.not_mem_nil
    have hfresh := (h.ties.records.fresh m b hrecorded).resolve_left hold
    exact Nat.not_lt.mpr (h.ties.binds.own b hfresh.1 x hmem).1 hx
  have hstanding : Standing (holds w.memory) (holds w'.memory) w w' := by
    refine ⟨hroots, hbindingsOf, fun b hb => ?_, ?_⟩
    · rw [hw.binding, ← h.ties.binds.binding b hb]
      split <;> rfl
    · exact h.ties.binds.listed.trans (hw.listed.mono fun x hx => hremoved x hx.1)
  have hanchored : w.Anchored (holds w.memory) :=
    ⟨fun x hx => hmade _ hx, fun b hb => hmade _ hb, haccounted.made, fun b x hx => (haccounted.shown b x hx).1⟩
  exact ⟨hbindingsOf, fun id => Entries.length_values_congr (hfind id),
    hstanding.liveWatchers_eq hanchored haccounted.idle⟩

end Restoring

end World

namespace Engine

variable {application : Application Code Memory} {noted : Memory → List BindingId} {α : Type}

/-- Unmounting any tree takes away all its bindings and nothing else, those that the embedder has noted as
gone are silent, also at the turn of any subscriber or listener that comes from now on, and mounting a tree
and unmounting it again would give back what is here. -/
structure Traceless (application : Application Code Memory) (noted : Memory → List BindingId)
    (w : World Code Memory) : Prop where
  unmounted (owner : ViewModelId) (n : NodeId) :
    World.Unmounted owner n w (w.unmount owner n).1 (w.unmount owner n).2
  silent : ∀ b ∈ noted w.memory, w.Silent b
  news {depth : Nat} {source : SourceId} {subscriber : Subscriber} {v : World Code Memory} :
    w.TellsAt application depth source subscriber v → ∀ b ∈ noted v.memory, v.Silent b
  event {depth : Nat} {event : Event} {listener : Listener Code} {v : World Code Memory} :
    w.HandsAt application depth event listener v → ∀ b ∈ noted v.memory, v.Silent b
  input {depth : Nat} {n : NodeId} {value : Value} {listener : Listener Code} {v : World Code Memory} :
    (w.display .value n value).HandsAt application depth ⟨"input", n⟩ listener v →
      ∀ b ∈ noted v.memory, v.Silent b
  restored {owner : ViewModelId} {target : Target} {root : NodeId} {nodes : List NodeId} {depth : Nat}
    {r : Except Error Nat} {w₁ : World Code Memory} :
    (∀ x ∈ w.roots (application.holds w.memory), w.Made x) →
    (w.viewModel owner).registry = Registry.standard →
    w.locate (w.viewModel owner).document target = .ok root → w.Tree [root] (root :: nodes) →
    (∀ m ∈ root :: nodes, w.isBound owner m = false) →
    mount (reentry application depth) owner target w = some (r, w₁) →
      World.Restored (application.holds w.memory) (application.holds (w₁.unmount owner root).2.memory) w
        (w₁.unmount owner root).2

theorem Settled.traceless {w : World Code Memory} (h : Settled noted w)
    (hnoted : ∀ o w, noted (application.notes o w) = noted w.memory)
    (happ : application.Regular (Request.Mindful noted)) : Traceless application noted w := by
  have htends : Tends application (Request.Mindful noted) (Settled noted) := tends_settled hnoted
  have hsilent : ∀ {v : World Code Memory}, Settled noted v → ∀ b ∈ noted v.memory, v.Silent b :=
    fun hv b hb => (hv.2 b hb).silent
  refine {
    unmounted := h.1.unmounted
    silent := hsilent h
    news := fun hturn => hsilent (htends.tellsAt happ hturn h)
    event := fun hturn => hsilent (htends.handsAt happ hturn h)
    input := fun hturn =>
      hsilent (htends.handsAt happ hturn (htends.margin (World.margin_display _ _ _ _) h))
    restored := fun {owner target root nodes depth r w₁} hmade hstandard hlocate htree hunbound hrun => ?_ }
  have hprepared : Prepared application (Answers (reentry application depth) w)
      (reentry application depth) owner w :=
    ⟨relies_reentry happ.quiet (fun id => happ.getters _ _) depth, h.1.toStaffed.ready, hstandard⟩
  have hmount := achieves_mount (stays_true _ _ owner) hprepared trivial hlocate htree
  obtain ⟨report, tally, -, hcompiled, hvisits, -⟩ := (hmount.ends r w₁ hrun).2
  exact hcompiled.restored h.1 hmade htree hunbound hvisits (World.leaves_unmount w₁ owner root)

/--
Unmounting is complete and leaves no trace. If getters only read and installers are the standard ones, then
in every state that a program of the embedder comes to, unmounting takes away all bindings of a tree, counts
them, and touches nothing else. A binding that is noted once it is gone stays silent ever after, also where a
notification or an event has listed its watchers or listeners before. Mounting a tree that was not bound and
unmounting it gives back the live watchers of every source and the number of bindings.
-/
theorem unmount_leaves_no_trace (hnoted : ∀ o w, noted (application.notes o w) = noted w.memory)
    (happ : application.Regular (Request.Mindful noted)) {program : Program Code Memory α}
    (hprogram : program.Makes (Request.Mindful noted)) {memory : Memory} (hmemory : noted memory = [])
    (depth : Nat) :
    Throughout (fun _ moment w => moment.Stirs → Traceless application noted w) application depth program
      { memory } := by
  refine (tends_settled hnoted).throughout happ (Moment.lenient _)
    (fun _ _ w hw _ => hw.traceless hnoted happ) hprogram depth ⟨World.accounted_empty memory, fun b hb => ?_⟩
  change b ∈ noted memory at hb
  rw [hmemory] at hb
  cases hb

end Engine

/-! ### Mounting and unmounting a paragraph -/

/-- Whether a binding was made and is out of force, with all its watchers. -/
def World.isGone (w : World Code Memory) (b : BindingId) : Bool :=
  b.index < w.bindings.size && !(w.binding b).active &&
    (w.binding b).watchers.all fun x => (w.watcher x).disposed

omit [Inhabited Code] in
theorem World.isGone_iff {w : World Code Memory} {b : BindingId} : w.isGone b = true ↔ w.Gone b := by
  simp only [isGone, Bool.and_eq_true, decide_eq_true_eq, Bool.not_eq_true', List.all_eq_true]
  exact ⟨fun h => ⟨h.1.1, h.1.2, h.2⟩, fun h => ⟨⟨h.made, h.inactive⟩, h.disposed⟩⟩

/-- Notes those of some bindings that are gone. -/
def Program.noteGone (bs : List BindingId) : Program Unit (List BindingId) Unit :=
  .look fun w => request (.remember (bs.filter w.isGone ++ ·))

theorem Program.mindful_noteGone (bs : List BindingId) :
    (noteGone bs).Makes (Request.Mindful id) := by
  intro w
  refine makes_request fun w' hw' b hb => ?_
  obtain rfl := hw' w rfl
  exact (List.mem_append.mp hb).symm.imp id fun hnew => World.isGone_iff.mp (List.mem_filter.mp hnew).2

/-- Mounts a view model on a paragraph that shows its data, unmounts it, and notes what is gone. -/
def Program.undoing : Program Unit (List BindingId) Unit := do
  let data ← request .newObject
  request (.set data "a" (.string "x"))
  let paragraph ← request (.newElement "p" [("v-text", "a")] [])
  let root ← request (.newElement "div" [] [paragraph])
  let owner ← request (.newViewModel { data := .object data, target := some (.node root) })
  let _ ← request (.unmount owner root)
  noteGone [⟨0⟩]

theorem Application.regular_idle (ok : Request Unit Memory → World Unit Memory → Prop) :
    (idle : Application Unit Memory).Regular ok where
  quiet _ _ := rfl
  getters _ _ := .done _
  callback _ _ := trivial
  method _ _ _ := trivial
  listener _ _ := trivial
  update _ := trivial

theorem Program.mindful_undoing : undoing.Makes (Request.Mindful id) := by
  refine (makes_request fun _ _ => trivial).bind fun data => ?_
  refine (makes_request fun _ _ => trivial).bind fun _ => ?_
  refine (makes_request fun _ _ => trivial).bind fun paragraph => ?_
  refine (makes_request fun _ _ => trivial).bind fun root => ?_
  refine (makes_request fun _ _ => rfl).bind fun owner => ?_
  refine (makes_request fun _ _ => trivial).bind fun _ => ?_
  exact mindful_noteGone [⟨0⟩]

theorem Engine.unmount_leaves_no_trace_undoing :
    (Application.idle : Application Unit (List BindingId)).Regular (Request.Mindful id) ∧
      Program.undoing.Makes (Request.Mindful id) ∧
      Throughout (fun _ moment w => moment.Stirs → Traceless Application.idle id w) Application.idle 4
        Program.undoing { memory := [] } :=
  ⟨Application.regular_idle _, Program.mindful_undoing,
    unmount_leaves_no_trace (fun _ _ => rfl) (Application.regular_idle _) Program.mindful_undoing rfl 4⟩

end ViewBinding
