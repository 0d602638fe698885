import ViewBinding.Proofs.Carrying

/-!
# What becomes of a node

A node that is visited was bound before and stays as it was, or it gets all its bindings, or none. If an
element gets none, every binding that was made for it on the way is inactive and its watchers are out of
service; a text node that gets none keeps its text. What became of a node does not depend on the nodes
that are visited before and after it.
-/

namespace ViewBinding

open Engine

variable {Code Memory : Type} [Inhabited Code]

namespace World

omit [Inhabited Code] in
/-- A binding is active, and its watchers serve. -/
def InForce (w : World Code Memory) (b : BindingId) : Prop :=
  (w.binding b).active = true ∧ ∀ x ∈ (w.binding b).watchers, w.Serves x

omit [Inhabited Code] in
/-- A binding was made since `w`. -/
def MadeSince (w w' : World Code Memory) (b : BindingId) : Prop :=
  w.bindings.size ≤ b.index ∧ b.index < w'.bindings.size

/-- The placeholders of the view model are looked for in a text. -/
def Mentions (w : World Code Memory) (owner : ViewModelId) (text : String) : Bool :=
  Template.mentions text (w.viewModel owner).settings.delimiters

/-- What became of a node in a pass from `w` to `w'`, and which errors it reported. -/
inductive Fate (c : Reentry Code Memory) (owner : ViewModelId) (w w' : World Code Memory)
    (n : NodeId) : List Error → Prop
  /-- The node was bound before and is bound as before. -/
  | kept (hbound : w.isBound owner n = true)
      (hrecorded : w'.bindingsOf owner n = w.bindingsOf owner n) : Fate c owner w w' n []
  /-- Every directive of the element has a binding in force, and these are recorded in order. -/
  | bound {bs : List BindingId} (hunbound : w.isBound owner n = false)
      (helement : (w.node n).isElement = true)
      (hcarried : Carried c owner n w w' (w.node n).attributes bs [])
      (hrecorded : w'.bindingsOf owner n = bs) (hnodup : bs.Nodup)
      (hmade : ∀ b ∈ bs, w.MadeSince w' b) (hforce : ∀ b ∈ bs, w'.InForce b) :
      Fate c owner w w' n []
  /-- Some directives of the element failed, nothing is recorded, and nothing is left in service. -/
  | refused {bs : List BindingId} {fs : List (String × Error)}
      (hunbound : w.isBound owner n = false) (helement : (w.node n).isElement = true)
      (hcarried : Carried c owner n w w' (w.node n).attributes bs fs) (hfailed : fs ≠ [])
      (hrecorded : w'.bindingsOf owner n = []) (hmade : ∀ b ∈ bs, w.MadeSince w' b)
      (hinactive : ∀ b ∈ bs, (w'.binding b).active = false)
      (hretired : ∀ x : WatcherId, w.watchers.size ≤ x.index → x.index < w'.watchers.size →
        (w'.watcher x).reaction.node? = some n → w'.Retired x) :
      Fate c owner w w' n (fs.map fun f => .binding (w.nodeName n) f.1 f.2)
  /-- The text holds no opening delimiter. -/
  | plain {text : String} (hunbound : w.isBound owner n = false) (htext : w'.node n = .text text)
      (hbefore : n.index < w.nodes.size → w.node n = .text text)
      (hmentions : w.Mentions owner text = false) (hrecorded : w'.bindingsOf owner n = []) :
      Fate c owner w w' n []
  /-- The text is shown as a template, by one binding that is in force. -/
  | shown {text : String} {b : BindingId} (hunbound : w.isBound owner n = false)
      (helement : (w'.node n).isElement = false)
      (hbefore : n.index < w.nodes.size → w.node n = .text text)
      (hmentions : w.Mentions owner text = true) (hrecorded : w'.bindingsOf owner n = [b])
      (hnode : (w'.binding b).node = n) (hkind : (w'.binding b).kind = .text)
      (hexpression : (w'.binding b).expression = text) (hmade : w.MadeSince w' b)
      (hforce : w'.InForce b) : Fate c owner w w' n []
  /-- The text cannot be shown as a template and is as it was. -/
  | unshown {text : String} {e : Error} (hunbound : w.isBound owner n = false)
      (htext : w'.node n = .text text) (hbefore : n.index < w.nodes.size → w.node n = .text text)
      (hmentions : w.Mentions owner text = true)
      (hfails : ∃ before after, w.Kin before ∧
        installInterpolation c owner n text before = some (.error e, after))
      (hrecorded : w'.bindingsOf owner n = []) :
      Fate c owner w w' n [.binding (w.nodeName n) text e]

section Passing

variable {c : Reentry Code Memory} {holds : Memory → List Ref} {owner : ViewModelId} {n : NodeId}
  {here there : NodeId → Prop} {w w₁ w₂ : World Code Memory} {errors : List Error}

omit [Inhabited Code] in
theorem Records.isBound (h : Records owner here w w₁) (hn : ¬ here n) :
    w₁.isBound owner n = w.isBound owner n := by
  rw [World.isBound, Entries.contains, h.same n hn, World.isBound, Entries.contains]

omit [Inhabited Code] in
theorem Records.bindingsOf (h : Records owner here w w₁) (hn : ¬ here n) :
    w₁.bindingsOf owner n = w.bindingsOf owner n := by
  rw [World.bindingsOf, h.same n hn, World.bindingsOf]

omit [Inhabited Code] in
/-- Nothing is recorded for other view models. -/
theorem Records.bindingsOf_of_ne (h : Records owner here w w₁) {id : ViewModelId} (hid : id ≠ owner) (n : NodeId) :
    w₁.bindingsOf id n = w.bindingsOf id n := by
  rw [World.bindingsOf, h.others id hid, World.bindingsOf]

omit [Inhabited Code] in
theorem Records.isBound_of_ne (h : Records owner here w w₁) {id : ViewModelId} (hid : id ≠ owner) (n : NodeId) :
    w₁.isBound id n = w.isBound id n := by
  rw [World.isBound, h.others id hid, World.isBound]

/-- What became of attributes may be told from an earlier world on. -/
theorem Carried.before {attributes : List (String × String)} {bs : List BindingId}
    {fs : List (String × Error)} (hkin : w.Kin w₁) (h : Carried c owner n w₁ w₂ attributes bs fs) :
    Carried c owner n w w₂ attributes bs fs := by
  induction h with
  | nil => exact .nil
  | plain hparse _ inductionHypothesis =>
    exact .plain (hkin.settings owner ▸ hparse) inductionHypothesis
  | made hparse hnode hkind _ inductionHypothesis =>
    exact .made (hkin.settings owner ▸ hparse) hnode hkind inductionHypothesis
  | failed hparse hfails _ inductionHypothesis =>
    obtain ⟨before, after, hbefore, hrun⟩ := hfails
    exact .failed (hkin.settings owner ▸ hparse) ⟨before, after, hkin.trans hbefore, hrun⟩
      inductionHypothesis

omit [Inhabited Code] in
theorem Hosts.nodeName_of_not (h : Hosts here w w₁) (hn : ¬ here n) :
    w₁.nodeName n = w.nodeName n := by
  by_cases hlt : n.index < w.nodes.size
  · rw [nodeName, h.same n hlt hn, nodeName]
  · have htext := h.text n (Nat.le_of_not_lt hlt)
    have hnode : w.node n = default := w.nodes.get_of_size_le (Nat.le_of_not_lt hlt)
    rw [nodeName, nodeName, hnode]
    cases hrow : w₁.node n with
    | text content => rfl
    | element e =>
      rw [hrow] at htext
      cases htext

theorem Kin.mentions (h : w.Kin w₁) (owner : ViewModelId) (text : String) :
    w₁.Mentions owner text = w.Mentions owner text := by
  rw [Mentions, h.settings owner, Mentions]

omit [Inhabited Code] in
theorem MadeSince.before {b : BindingId} (h : w₁.MadeSince w₂ b)
    (hle : w.bindings.size ≤ w₁.bindings.size) : w.MadeSince w₂ b :=
  ⟨Nat.le_trans hle h.1, h.2⟩

/-- What became of a node may be told from before other nodes were visited. -/
theorem Fate.before (h : Fate c owner w₁ w₂ n errors) (hties : Ties holds owner here w w₁)
    (hties' : Ties holds owner there w₁ w₂) (hmanned : w.Manned) (hn : ¬ here n) :
    Fate c owner w w₂ n errors := by
  have hbound := hties.records.isBound hn
  have hle := hties.binds.bindings
  have hsame : n.index < w.nodes.size → w₁.node n = w.node n := fun hlt => hties.hosts.same n hlt hn
  have hexists : (w₁.node n).isElement = true → n.index < w.nodes.size := by
    intro helement
    refine Nat.lt_of_not_le fun hge => ?_
    rw [hties.hosts.text n hge] at helement
    cases helement
  have hbefore : ∀ {text : String}, (n.index < w₁.nodes.size → w₁.node n = .text text) →
      n.index < w.nodes.size → w.node n = .text text := fun h hlt =>
    (hsame hlt).symm.trans (h (Nat.lt_of_lt_of_le hlt hties.hosts.size))
  cases h with
  | kept hb hrecorded =>
    exact .kept (hbound ▸ hb) (hrecorded.trans (hties.records.bindingsOf hn))
  | bound hunbound helement hcarried hrecorded hnodup hmade hforce =>
    have hnode := hsame (hexists helement)
    rw [hnode] at helement hcarried
    exact .bound (hbound ▸ hunbound) helement (hcarried.before hties.kin) hrecorded hnodup
      (fun b hb => (hmade b hb).before hle) hforce
  | refused hunbound helement hcarried hfailed hrecorded hmade hinactive hretired =>
    have hnode := hsame (hexists helement)
    rw [hnode] at helement hcarried
    rw [hties.hosts.nodeName_of_not hn]
    refine .refused (hbound ▸ hunbound) helement (hcarried.before hties.kin) hfailed hrecorded
      (fun b hb => (hmade b hb).before hle) hinactive fun x hx hlt hshows => ?_
    by_cases hold : x.index < w₁.watchers.size
    · -- a watcher of the nodes before shows on one of them
      have hidle : ¬ w₁.Evaluates (.watcher x) := fun hevaluates =>
        Nat.not_lt.mpr hx (hmanned x ((evaluates_congr hties.trackers).mp hevaluates))
      obtain ⟨j, hj, hshows'⟩ := hties.binds.shows x hx hold
      rw [hties'.binds.watcher x hold hidle, hshows'] at hshows
      exact absurd (Option.some.inj hshows ▸ hj) hn
    · exact hretired x (Nat.le_of_not_lt hold) hlt hshows
  | plain hunbound htext hold hmentions hrecorded =>
    exact .plain (hbound ▸ hunbound) htext (hbefore hold) (hties.kin.mentions owner _ ▸ hmentions)
      hrecorded
  | shown hunbound helement hold hmentions hrecorded hnode hkind hexpression hmade hforce =>
    exact .shown (hbound ▸ hunbound) helement (hbefore hold) (hties.kin.mentions owner _ ▸ hmentions)
      hrecorded hnode hkind hexpression (hmade.before hle) hforce
  | unshown hunbound htext hold hmentions hfails hrecorded =>
    obtain ⟨before, after, hkin, hrun⟩ := hfails
    rw [hties.hosts.nodeName_of_not hn]
    exact .unshown (hbound ▸ hunbound) htext (hbefore hold) (hties.kin.mentions owner _ ▸ hmentions)
      ⟨before, after, hties.kin.trans hkin, hrun⟩ hrecorded

/-- What became of a node stays so while other nodes are visited. -/
theorem Fate.after (h : Fate c owner w w₁ n errors) (hties : Ties holds owner here w w₁)
    (hties' : Ties holds owner there w₁ w₂) (hmanned : w.Manned) (hn : ¬ there n)
    (hlt : n.index < w₁.nodes.size) : Fate c owner w w₂ n errors := by
  have hnode : w₂.node n = w₁.node n := hties'.hosts.same n hlt hn
  have hrecorded' := hties'.records.bindingsOf hn
  have hidle : ∀ x : WatcherId, w.watchers.size ≤ x.index → ¬ w₁.Evaluates (.watcher x) := by
    intro x hx hevaluates
    exact Nat.not_lt.mpr hx (hmanned x ((evaluates_congr hties.trackers).mp hevaluates))
  have hrow : ∀ b, w.MadeSince w₁ b → w₂.binding b = w₁.binding b :=
    fun b hb => hties'.binds.binding b hb.2
  have hmade' : ∀ b, w.MadeSince w₁ b → w.MadeSince w₂ b :=
    fun b hb => ⟨hb.1, Nat.lt_of_lt_of_le hb.2 hties'.binds.bindings⟩
  have hforce' : ∀ b, w.MadeSince w₁ b → w₁.InForce b → w₂.InForce b := by
    intro b hb hforce
    refine ⟨by rw [hrow b hb]; exact hforce.1, fun x hx => ?_⟩
    rw [hrow b hb] at hx
    obtain ⟨hle, hxlt, -⟩ := hties.binds.own b hb.1 x hx
    exact (hties'.spared hxlt (hidle x hle)).1 (hforce.2 x hx)
  cases h with
  | kept hbound hrecorded => exact .kept hbound (hrecorded'.trans hrecorded)
  | bound hunbound helement hcarried hrecorded hnodup hmade hforce =>
    exact .bound hunbound helement
      (hcarried.congr fun b hb => by rw [hrow b (hmade b hb)]; exact ⟨rfl, rfl⟩)
      (hrecorded'.trans hrecorded) hnodup (fun b hb => hmade' b (hmade b hb))
      fun b hb => hforce' b (hmade b hb) (hforce b hb)
  | refused hunbound helement hcarried hfailed hrecorded hmade hinactive hretired =>
    refine .refused hunbound helement
      (hcarried.congr fun b hb => by rw [hrow b (hmade b hb)]; exact ⟨rfl, rfl⟩) hfailed
      (hrecorded'.trans hrecorded) (fun b hb => hmade' b (hmade b hb))
      (fun b hb => by rw [hrow b (hmade b hb)]; exact hinactive b hb) fun x hx hxlt hshows => ?_
    by_cases hold : x.index < w₁.watchers.size
    · rw [hties'.binds.watcher x hold (hidle x hx)] at hshows
      exact (hties'.spared hold (hidle x hx)).2 (hretired x hx hold hshows)
    · -- a watcher of the nodes after shows on one of them
      obtain ⟨j, hj, hshows'⟩ := hties'.binds.shows x (Nat.le_of_not_lt hold) hxlt
      rw [hshows'] at hshows
      exact absurd (Option.some.inj hshows ▸ hj) hn
  | plain hunbound htext hold hmentions hrecorded =>
    exact .plain hunbound (hnode.trans htext) hold hmentions (hrecorded'.trans hrecorded)
  | shown hunbound helement hold hmentions hrecorded hplace hkind hexpression hmade hforce =>
    have hb := hrow _ hmade
    exact .shown hunbound (hnode ▸ helement) hold hmentions (hrecorded'.trans hrecorded)
      (hb ▸ hplace) (hb ▸ hkind) (hb ▸ hexpression) (hmade' _ hmade) (hforce' _ hmade hforce)
  | unshown hunbound htext hold hmentions hfails hrecorded =>
    exact .unshown hunbound (hnode.trans htext) hold hmentions hfails (hrecorded'.trans hrecorded)

theorem kin_holding (w : World Code Memory) (refs : List Ref) : w.Kin { w with held := refs } :=
  ⟨rfl, fun _ => rfl, fun _ => rfl, rfl, rfl, rfl, fun _ => rfl, fun _ => rfl⟩

/-- Two worlds have the same to say about a node and about bindings. -/
structure Matches (owner : ViewModelId) (n : NodeId) (w w₁ : World Code Memory) : Prop where
  kin : w.Kin w₁
  node : w₁.node n = w.node n
  size : w₁.nodes.size = w.nodes.size
  bindings : w₁.bindings = w.bindings
  watchers : w₁.watchers = w.watchers
  sources : w₁.sources = w.sources
  recorded : (w₁.viewModel owner).bindings = (w.viewModel owner).bindings

theorem matches_holding (w : World Code Memory) (refs : List Ref) :
    Matches owner n w { w with held := refs } :=
  ⟨kin_holding w refs, rfl, rfl, rfl, rfl, rfl, rfl⟩

theorem Matches.bindingsOf (h : Matches owner n w w₁) :
    w₁.bindingsOf owner n = w.bindingsOf owner n := by
  rw [World.bindingsOf, h.recorded, World.bindingsOf]

theorem Matches.isBound (h : Matches owner n w w₁) : w₁.isBound owner n = w.isBound owner n := by
  rw [World.isBound, h.recorded, World.isBound]

theorem Matches.binding (h : Matches owner n w w₁) (b : BindingId) : w₁.binding b = w.binding b := by
  rw [World.binding, h.bindings, World.binding]

theorem Matches.watcher (h : Matches owner n w w₁) (x : WatcherId) : w₁.watcher x = w.watcher x := by
  rw [World.watcher, h.watchers, World.watcher]

theorem Matches.listed (h : Matches owner n w w₁) (x : WatcherId) (s : SourceId) :
    Subscriber.watcher x ∈ (w₁.source s).subscribers ↔ .watcher x ∈ (w.source s).subscribers := by
  rw [World.source, h.sources, World.source]

theorem Matches.inForce (h : Matches owner n w w₁) {b : BindingId} (hb : w.InForce b) : w₁.InForce b := by
  refine ⟨by rw [h.binding b]; exact hb.1, fun x hx => ?_⟩
  rw [h.binding b] at hx
  exact (hb.2 x hx).congr (h.watcher x) (h.listed x)

/-- What became of a node is the same in worlds that match. -/
theorem Fate.matching {w₃ : World Code Memory} (h : Fate c owner w₁ w₂ n errors)
    (hbefore : Matches owner n w w₁) (hafter : Matches owner n w₂ w₃) :
    Fate c owner w w₃ n errors := by
  have hcarried : ∀ {attributes bs fs}, Carried c owner n w₁ w₂ attributes bs fs →
      Carried c owner n w w₃ attributes bs fs := fun h =>
    (h.before hbefore.kin).congr fun b _ => by rw [hafter.binding b]; exact ⟨rfl, rfl⟩
  have hmade' : ∀ {b}, w₁.MadeSince w₂ b → w.MadeSince w₃ b := fun {b} hb => by
    rw [MadeSince, hbefore.bindings] at hb
    rw [MadeSince, hafter.bindings]
    exact hb
  have hnodeName : w₁.nodeName n = w.nodeName n := by
    rw [nodeName, hbefore.node, nodeName]
  have hunbound' : w₁.isBound owner n = false → w.isBound owner n = false := fun h =>
    hbefore.isBound.symm.trans h
  have hold' : ∀ {text}, (n.index < w₁.nodes.size → w₁.node n = .text text) →
      n.index < w.nodes.size → w.node n = .text text := fun h hlt => by
    rw [← hbefore.node]
    exact h (hbefore.size.symm ▸ hlt)
  have hmentions' : ∀ {text b}, w₁.Mentions owner text = b → w.Mentions owner text = b := fun h =>
    (hbefore.kin.mentions owner _).symm.trans h
  have hrecorded' := hafter.bindingsOf
  cases h with
  | kept hbound hrecorded =>
    exact .kept (hbefore.isBound.symm.trans hbound)
      ((hrecorded'.trans hrecorded).trans hbefore.bindingsOf)
  | bound hunbound helement hattributes hrecorded hnodup hmade hforce =>
    rw [hbefore.node] at helement hattributes
    exact .bound (hunbound' hunbound) helement (hcarried hattributes) (hrecorded'.trans hrecorded)
      hnodup (fun b hb => hmade' (hmade b hb)) fun b hb => hafter.inForce (hforce b hb)
  | refused hunbound helement hattributes hfailed hrecorded hmade hinactive hretired =>
    rw [hbefore.node] at helement hattributes
    rw [hnodeName]
    refine .refused (hunbound' hunbound) helement (hcarried hattributes) hfailed
      (hrecorded'.trans hrecorded) (fun b hb => hmade' (hmade b hb))
      (fun b hb => by rw [hafter.binding b]; exact hinactive b hb) fun x hx hlt hshows => ?_
    rw [hafter.watchers] at hlt
    rw [hafter.watcher x] at hshows
    exact (hretired x (hbefore.watchers ▸ hx) hlt hshows).congr (hafter.watcher x) (hafter.listed x)
  | plain hunbound htext hold hmentions hrecorded =>
    exact .plain (hunbound' hunbound) (hafter.node.trans htext) (hold' hold) (hmentions' hmentions)
      (hrecorded'.trans hrecorded)
  | shown hunbound helement hold hmentions hrecorded hnode hkind hexpression hmade hforce =>
    have hrow := hafter.binding
    exact .shown (hunbound' hunbound) (by rw [hafter.node]; exact helement) (hold' hold)
      (hmentions' hmentions) (hrecorded'.trans hrecorded) (by rw [hrow]; exact hnode)
      (by rw [hrow]; exact hkind) (by rw [hrow]; exact hexpression) (hmade' hmade)
      (hafter.inForce hforce)
  | unshown hunbound htext hold hmentions hfails hrecorded =>
    obtain ⟨before, after, hkin, hrun⟩ := hfails
    rw [hnodeName]
    exact .unshown (hunbound' hunbound) (hafter.node.trans htext) (hold' hold)
      (hmentions' hmentions) ⟨before, after, hbefore.kin.trans hkin, hrun⟩ (hrecorded'.trans hrecorded)

/-- What is held meanwhile makes no difference. -/
theorem Fate.released {refs held : List Ref}
    (h : Fate c owner { w with held := refs } w₁ n errors) :
    Fate c owner w { w₁ with held := held } n errors :=
  h.matching (matches_holding w refs) (matches_holding w₁ held)

end Passing

end World

end ViewBinding
