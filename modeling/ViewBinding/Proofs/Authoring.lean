import ViewBinding.Proofs.Hooking
import ViewBinding.Proofs.Repeating

/-!
# Data are no templates

A pass over a tree takes every text that it meets for a template, also one that a directive has just put there. As long
as no text that a directive shows holds the opening delimiter, these are passed over. So what is bound is what is
written: the nodes of the tree, without those below an element whose children a directive replaces. How many bindings
they get depends on the tree alone, and not on what the data say.
-/

namespace ViewBinding

open Engine

variable {Code Memory : Type} [Inhabited Code]

/-- Where the entries of the other keys are the same, there are more values if one key has more. -/
theorem Entries.length_values_of_others {κ α : Type} [DecidableEq κ] {e e' : Entries κ (List α)} {k : κ}
    (h : ∀ j, j ≠ k → e'.find? j = e.find? j) :
    e'.values.flatten.length + ((e.find? k).getD []).length
      = e.values.flatten.length + ((e'.find? k).getD []).length := by
  have hothers : (e'.erase k).values.flatten.length = (e.erase k).values.flatten.length := by
    refine length_values_congr fun j => ?_
    by_cases hj : j = k
    · rw [hj, find?_erase_self, find?_erase_self]
    · rw [find?_erase_of_ne _ hj, find?_erase_of_ne _ hj, h j hj]
  rw [← length_values_erase e k, ← length_values_erase e' k, hothers]
  omega

/-! ### What is written -/

/-- A directive that puts a content in place of the children of its element. -/
def Directive.replaces (directive : Directive) : Bool :=
  directive.kind = .text || directive.kind = .html

namespace World

section Trees

omit [Inhabited Code]

/-- Binding a node puts a content in place of its children. -/
def replaces (w : World Code Memory) (owner : ViewModelId) (n : NodeId) : Bool :=
  !w.isBound owner n && (w.directives owner n).any (·.replaces)

/-- How many bindings a node gets: an element one for each of its directives, and a text one if it holds the opening
delimiter. -/
def quota (w : World Code Memory) (owner : ViewModelId) (n : NodeId) : Nat :=
  if w.isBound owner n then 0
  else match w.node n with
    | .element _ => (w.directives owner n).length
    | .text content => if w.Mentions owner content then 1 else 0

/-- How many bindings some nodes get together. -/
def quotas (w : World Code Memory) (owner : ViewModelId) : List NodeId → Nat
  | [] => 0
  | n :: rest => w.quota owner n + w.quotas owner rest

/-- The trees below some nodes, these nodes included, in document order, without what is below a node whose children are
replaced. -/
inductive Authored (w : World Code Memory) (owner : ViewModelId) : List NodeId → List NodeId → Prop
  | nil : Authored w owner [] []
  | replaced {n : NodeId} {rest others : List NodeId} (hreplaces : w.replaces owner n = true)
      (hrest : Authored w owner rest others) : Authored w owner (n :: rest) (n :: others)
  | kept {n : NodeId} {rest below others : List NodeId} (hkeeps : w.replaces owner n = false)
      (hbelow : Authored w owner (w.node n).children below) (hrest : Authored w owner rest others) :
      Authored w owner (n :: rest) (n :: (below ++ others))

variable {w v w₁ : World Code Memory} {owner : ViewModelId} {n : NodeId} {nodes nodes' written written' : List NodeId}

theorem quotas_append (w : World Code Memory) (owner : ViewModelId) (nodes nodes' : List NodeId) :
    w.quotas owner (nodes ++ nodes') = w.quotas owner nodes + w.quotas owner nodes' := by
  induction nodes with
  | nil => exact (Nat.zero_add _).symm
  | cons n rest inductionHypothesis =>
    rw [List.cons_append, quotas, quotas, inductionHypothesis, Nat.add_assoc]

theorem quotas_congr (h : ∀ n ∈ nodes, v.quota owner n = w.quota owner n) :
    v.quotas owner nodes = w.quotas owner nodes := by
  induction nodes with
  | nil => rfl
  | cons n rest inductionHypothesis =>
    obtain ⟨hn, hrest⟩ := List.forall_mem_cons.mp h
    rw [quotas, quotas, hn, inductionHypothesis hrest]

theorem Authored.append (h : w.Authored owner nodes written) (h' : w.Authored owner nodes' written') :
    w.Authored owner (nodes ++ nodes') (written ++ written') := by
  induction h with
  | nil => exact h'
  | replaced hreplaces _ inductionHypothesis => exact .replaced hreplaces inductionHypothesis
  | kept hkeeps hbelow _ _ inductionHypothesis =>
    rw [List.cons_append, List.cons_append, List.append_assoc]
    exact .kept hkeeps hbelow inductionHypothesis

theorem Authored.unique (h : w.Authored owner nodes written) (h' : w.Authored owner nodes written') :
    written' = written := by
  induction h generalizing written' with
  | nil =>
    cases h'
    rfl
  | replaced hreplaces _ inductionHypothesis =>
    cases h' with
    | replaced _ hrest' => rw [inductionHypothesis hrest']
    | kept hkeeps' _ _ => cases hreplaces.symm.trans hkeeps'
  | kept hkeeps _ _ inductionBelow inductionRest =>
    cases h' with
    | replaced hreplaces' _ => cases hkeeps.symm.trans hreplaces'
    | kept _ hbelow' hrest' => rw [inductionBelow hbelow', inductionRest hrest']

/-- Two worlds agree on a node as it is written: on what is bound there, and on what the node holds, but for a text,
which says something else perhaps. -/
structure Agrees (owner : ViewModelId) (n : NodeId) (w v : World Code Memory) : Prop where
  settings : (v.viewModel owner).settings = (w.viewModel owner).settings
  isBound : v.isBound owner n = w.isBound owner n
  isElement : (v.node n).isElement = (w.node n).isElement
  attributes : (v.node n).attributes = (w.node n).attributes
  children : (v.node n).children = (w.node n).children
  mentions : w.isBound owner n = false → ∀ text text', w.node n = .text text → v.node n = .text text' →
    v.Mentions owner text' = w.Mentions owner text

theorem agrees_of_node (hsettings : (v.viewModel owner).settings = (w.viewModel owner).settings)
    (hbound : v.isBound owner n = w.isBound owner n) (hnode : v.node n = w.node n) : Agrees owner n w v where
  settings := hsettings
  isBound := hbound
  isElement := by rw [hnode]
  attributes := by rw [hnode]
  children := by rw [hnode]
  mentions _ text text' htext htext' := by
    obtain rfl : text' = text := Node.text.inj (htext'.symm.trans (hnode.trans htext))
    rw [Mentions, hsettings, Mentions]

theorem Agrees.directives (h : Agrees owner n w v) : v.directives owner n = w.directives owner n := by
  rw [World.directives, h.settings, h.attributes, World.directives]

theorem Agrees.replaces (h : Agrees owner n w v) : v.replaces owner n = w.replaces owner n := by
  rw [World.replaces, h.isBound, h.directives, World.replaces]

theorem Agrees.quota (h : Agrees owner n w v) : v.quota owner n = w.quota owner n := by
  rw [World.quota, World.quota, h.isBound]
  cases hbound : w.isBound owner n with
  | true => rfl
  | false =>
    have helement := h.isElement
    simp only [Bool.false_eq_true, if_false]
    cases hrow : w.node n with
    | element e =>
      cases hrow' : v.node n with
      | element e' => simp only [h.directives]
      | text content' =>
        rw [hrow, hrow'] at helement
        cases helement
    | text content =>
      cases hrow' : v.node n with
      | element e' =>
        rw [hrow, hrow'] at helement
        cases helement
      | text content' => simp only [h.mentions hbound content content' hrow hrow']

/-- What is written is the same where worlds agree on the nodes of a tree. -/
theorem Authored.agrees (h : w.Authored owner nodes written) {all : List NodeId} (hall : ∀ n ∈ nodes, n ∈ all)
    (hclosed : ∀ n ∈ all, ∀ child ∈ (w.node n).children, child ∈ all)
    (hagrees : ∀ n ∈ all, Agrees owner n w v) :
    v.Authored owner nodes written ∧ ∀ n ∈ written, n ∈ all := by
  induction h with
  | nil => exact ⟨.nil, fun _ h => absurd h List.not_mem_nil⟩
  | @replaced n rest others hreplaces _ inductionHypothesis =>
    obtain ⟨hn, hrest⟩ := List.forall_mem_cons.mp hall
    obtain ⟨hwritten, hmem⟩ := inductionHypothesis hrest
    exact ⟨.replaced ((hagrees n hn).replaces.trans hreplaces) hwritten, List.forall_mem_cons.mpr ⟨hn, hmem⟩⟩
  | @kept n rest below others hkeeps _ _ inductionBelow inductionRest =>
    obtain ⟨hn, hrest⟩ := List.forall_mem_cons.mp hall
    obtain ⟨hbelow, hmemBelow⟩ := inductionBelow (hclosed n hn)
    obtain ⟨hwritten, hmem⟩ := inductionRest hrest
    rw [← (hagrees n hn).children] at hbelow
    exact ⟨.kept ((hagrees n hn).replaces.trans hkeeps) hbelow hwritten, List.forall_mem_cons.mpr
      ⟨hn, fun m hm => (List.mem_append.mp hm).elim (hmemBelow m) (hmem m)⟩⟩

/-- What a text that a directive put there does to the text of its element. -/
theorem textContent_of_has {text : String} (hlt : n.index < w.nodes.size) (h : w.Has n (.text text)) :
    w.textContent n = text := by
  obtain ⟨child, hchildren, hrich, htext⟩ := h
  obtain ⟨size, hsize⟩ : ∃ size, w.nodes.size = size + 1 := Nat.exists_eq_add_one.mpr (Nat.zero_lt_of_lt hlt)
  cases hrow : w.node n with
  | text content =>
    rw [hrow] at hchildren
    cases hchildren
  | element e =>
    rw [hrow] at hchildren hrich
    have hchildren : e.children = [child] := hchildren
    have hrich : e.richContent = none := hrich
    rw [textContent, textWithin, hrow]
    simp only [hrich, hchildren, hsize, List.map_singleton, textWithin, htext]
    simp [String.join]

theorem textWithin_holding (w : World Code Memory) (refs : List Ref) (depth : Nat) :
    ({ w with held := refs } : World Code Memory).textWithin depth = w.textWithin depth := by
  induction depth with
  | zero => rfl
  | succ depth inductionHypothesis =>
    funext n
    simp only [textWithin, inductionHypothesis]
    rfl

end Trees

/-- Every directive that was carried out has a binding, if none of them failed. -/
theorem Carried.length_eq {c : Reentry Code Memory} {attributes : List (String × String)} {bs : List BindingId}
    (h : Carried c owner n w v attributes bs []) :
    bs.length = (directivesOf (w.viewModel owner).settings.mark attributes).length := by
  generalize hfs : [] = fs at h
  induction h with
  | nil => rfl
  | plain hparse _ inductionHypothesis => rw [inductionHypothesis hfs, directivesOf_plain hparse]
  | made hparse _ _ _ inductionHypothesis =>
    rw [List.length_cons, inductionHypothesis hfs, directivesOf_made hparse, List.length_cons]
  | failed _ _ _ _ => cases hfs

/-- A node that was bound without failures got the bindings that are due. -/
theorem Fate.length_bindings {c : Reentry Code Memory} (h : Fate c owner w v n []) (hlt : n.index < w.nodes.size)
    (hunbound : w.isBound owner n = false) : (v.bindingsOf owner n).length = w.quota owner n := by
  rw [quota, hunbound]
  simp only [Bool.false_eq_true, if_false]
  generalize herrors : [] = errors at h
  cases h with
  | kept hbound _ => cases hunbound.symm.trans hbound
  | bound _ helement hcarried hrecorded _ _ _ =>
    cases hrow : w.node n with
    | text content =>
      rw [hrow] at helement
      cases helement
    | element e => rw [hrecorded, hcarried.length_eq, directives]
  | refused _ _ _ hfailed _ _ _ _ => exact absurd (List.map_eq_nil_iff.mp herrors.symm) hfailed
  | plain _ _ hbefore hmentions hrecorded =>
    rw [hbefore hlt, hrecorded]
    simp [hmentions]
  | shown _ _ hbefore hmentions hrecorded _ _ _ _ _ =>
    rw [hbefore hlt, hrecorded]
    simp [hmentions]
  | unshown _ _ _ _ _ _ => cases herrors

end World

/-! ### What directives come to -/

theorem directivesOf_cons (mark : String) (p : String × String) (rest : List (String × String)) :
    directivesOf mark (p :: rest) = directivesOf mark [p] ++ directivesOf mark rest := by
  rw [← List.singleton_append, directivesOf, List.filterMap_append]
  rfl

theorem Query.gives_rendered {v : View} {root : ObjectId} {expression : String} {updater : Updater}
    {shown : Option (Updater × Value)} (h : v.Gives (Query.rendered root expression updater) (.ok shown)) :
    ∃ value, shown = some (updater, value) := by
  rw [Query.rendered] at h
  cases hpath : Path.parse expression with
  | error e =>
    rw [hpath] at h
    cases View.gives_done.mp h
  | ok path =>
    rw [hpath] at h
    obtain ⟨a, -, ha⟩ := View.gives_andThen.mp h
    cases a with
    | error e => cases View.gives_done.mp ha
    | ok value => exact ⟨value, Except.ok.inj (View.gives_done.mp ha)⟩

namespace Setting

/-- The directives and the templates of some nodes do not fail, unless they were carried out before, and no text that a
directive shows holds the opening delimiter. -/
structure Sober (s : Setting Code Memory) (start : World Code Memory) (owner : ViewModelId) (nodes : List NodeId) :
    Prop where
  directives : ∀ n ∈ nodes, start.isBound owner n = false → ∀ p ∈ (start.node n).attributes, ∀ e,
    ¬ (s.view start).Gives (start.attributeQuery owner p.1 p.2) (.error e)
  templates : ∀ n ∈ nodes, start.isBound owner n = false → ∀ text, start.node n = .text text →
    start.Mentions owner text = true → ∀ e, ¬ (s.view start).Gives (start.templateQuery owner text) (.error e)
  shown : ∀ n ∈ nodes, start.isBound owner n = false → ∀ p ∈ (start.node n).attributes, ∀ value,
    (s.view start).Gives (start.attributeQuery owner p.1 p.2) (.ok (some (.text, value))) →
      start.Mentions owner value.text = false

variable {s : Setting Code Memory} {sure : Prop} {start w v w' : World Code Memory} {c : Reentry Code Memory}
  {owner : ViewModelId} {n : NodeId} {nodes all all' written written' : List NodeId} {tally tally' : Tally}
  {attributes : List (String × String)} {fs : List (String × Error)} {content? : Option Content}

/-- Whether an attribute puts a content in place of the children depends on its directive alone. -/
theorem isSome_of_gives (hstandard : (start.viewModel owner).registry = Registry.standard) {name value : String}
    {shown : Option (Updater × Value)}
    (h : (s.view start).Gives (start.attributeQuery owner name value) (.ok shown)) :
    (Content.of? shown).isSome
      = (directivesOf (start.viewModel owner).settings.mark [(name, value)]).any (·.replaces) := by
  rw [World.attributeQuery] at h
  cases hparse : Directive.parse name value (start.viewModel owner).settings.mark with
  | error e =>
    rw [hparse] at h
    cases View.gives_done.mp h
  | ok directive? =>
    rw [hparse] at h
    cases directive? with
    | none =>
      obtain rfl : shown = none := Except.ok.inj (View.gives_done.mp h)
      rw [directivesOf_plain hparse]
      rfl
    | some directive =>
      rw [directivesOf_made hparse]
      obtain ⟨kind, argument, expression⟩ := directive
      simp only [hstandard] at h
      cases kind with
      | model =>
        obtain ⟨value, rfl⟩ := Query.gives_rendered h
        rfl
      | html =>
        obtain ⟨value, rfl⟩ := Query.gives_rendered h
        rfl
      | text =>
        obtain ⟨value, rfl⟩ := Query.gives_rendered h
        rfl
      | on =>
        change (s.view start).Gives (Query.installed _ _ (.on : Installer Code)) _ at h
        rw [Query.installed] at h
        cases argument with
        | none => cases View.gives_done.mp h
        | some event =>
          obtain ⟨a, -, ha⟩ := View.gives_andThen.mp h
          cases a with
          | error e => cases View.gives_done.mp ha
          | ok value =>
            cases value with
            | function id name =>
              obtain rfl : shown = none := Except.ok.inj (View.gives_done.mp ha)
              rfl
            | _ => cases View.gives_done.mp ha

/-- Without failures, there is a content in the end if a directive puts one there. -/
theorem Ruled.isSome (hstandard : (start.viewModel owner).registry = Registry.standard)
    (h : s.Ruled start owner attributes [] content?) :
    content?.isSome = (directivesOf (start.viewModel owner).settings.mark attributes).any (·.replaces) := by
  generalize hfs : [] = fs at h
  induction h with
  | nil => rfl
  | @carried name value rest fs shown content? hgives _ inductionHypothesis =>
    rw [directivesOf_cons _ _ rest, List.any_append, Option.isSome_or, inductionHypothesis hfs,
      isSome_of_gives hstandard hgives, Bool.or_comm]
  | failed _ _ _ => cases hfs

/-- A text that is put there in the end is what one of the directives shows. -/
theorem Ruled.shows {text : String} (h : s.Ruled start owner attributes fs (some (.text text))) :
    ∃ p ∈ attributes, ∃ value,
      (s.view start).Gives (start.attributeQuery owner p.1 p.2) (.ok (some (.text, value))) ∧ value.text = text := by
  generalize hcontent : some (Content.text text) = content? at h
  induction h with
  | nil => cases hcontent
  | @carried name value rest fs shown content? hgives _ inductionHypothesis =>
    cases content? with
    | some content =>
      obtain ⟨p, hp, hshows⟩ := inductionHypothesis hcontent
      exact ⟨p, List.mem_cons_of_mem _ hp, hshows⟩
    | none =>
      refine ⟨(name, value), List.mem_cons_self, ?_⟩
      rw [Option.none_or] at hcontent
      rcases shown with _ | ⟨_ | _ | _, value⟩ <;> cases hcontent
      exact ⟨value, hgives, rfl⟩
  | failed _ _ inductionHypothesis =>
    obtain ⟨p, hp, hshows⟩ := inductionHypothesis hcontent
    exact ⟨p, List.mem_cons_of_mem _ hp, hshows⟩

theorem Ruled.eq_nil (h : s.Ruled start owner attributes fs content?)
    (hnone : ∀ p ∈ attributes, ∀ e, ¬ (s.view start).Gives (start.attributeQuery owner p.1 p.2) (.error e)) :
    fs = [] := by
  induction h with
  | nil => rfl
  | carried _ _ inductionHypothesis =>
    exact inductionHypothesis fun p hp => hnone p (List.mem_cons_of_mem _ hp)
  | failed hgives _ _ => exact absurd hgives (hnone _ List.mem_cons_self _)

/-! ### What a pass has done -/

/-- What a pass over the nodes `all` has done, which began at `w` and bound the nodes `written`. -/
structure Typeset (s : Setting Code Memory) (start : World Code Memory) (owner : ViewModelId)
    (all written : List NodeId) (tally : Tally) (w w' : World Code Memory) : Prop where
  within : ∀ n ∈ written, n ∈ all
  ties : World.Ties s.application.holds owner (· ∈ written) w w'
  echoes : s.Echoes start w'
  errors : tally.errors = []
  installed : tally.installed = start.quotas owner written
  recorded : ∀ n ∈ written, start.isBound owner n = false → (w'.bindingsOf owner n).length = start.quota owner n
  /-- A text that directives put there stands where it was put. -/
  stands : ∀ n ∈ written, start.isBound owner n = false → ∀ text,
    s.Ruled start owner (start.node n).attributes [] (some (.text text)) →
      ∃ child, (child ∈ all ∨ w.nodes.size ≤ child.index) ∧ child.index < w'.nodes.size ∧
        (w'.node n).children = [child] ∧ (w'.node n).richContent = none ∧ w'.node child = .text text

theorem Typeset.append (h : s.Typeset start owner all written tally w v)
    (h' : s.Typeset start owner all' written' tally' v w') (hmanned : w.Manned)
    (hmade : ∀ n ∈ all, n.index < w.nodes.size) (hmade' : ∀ n ∈ all', n.index < w.nodes.size)
    (hapart : ∀ n ∈ all, n ∉ all') :
    s.Typeset start owner (all ++ all') (written ++ written') (tally.add tally') w w' := by
  have hsize := h.ties.hosts.size
  have hstays : ∀ n, n.index < v.nodes.size → (n ∈ all ∨ w.nodes.size ≤ n.index) →
      w'.node n = v.node n := by
    intro n hlt hn
    refine h'.ties.hosts.same n hlt fun hwritten => ?_
    rcases hn with hn | hge
    · exact hapart n hn (h'.within n hwritten)
    · exact Nat.not_lt.mpr hge (hmade' n (h'.within n hwritten))
  have hrecords : ∀ n ∈ written, w'.bindingsOf owner n = v.bindingsOf owner n := fun n hn =>
    h'.ties.records.bindingsOf fun hwritten => hapart n (h.within n hn) (h'.within n hwritten)
  constructor
  · intro n hn
    exact List.mem_append.mpr ((List.mem_append.mp hn).imp (h.within n) (h'.within n))
  · exact (h.ties.mono fun n hn => List.mem_append_left _ hn).trans
      (h'.ties.mono fun n hn => List.mem_append_right _ hn) hmanned
  · exact h'.echoes
  · rw [Tally.add, h.errors, h'.errors]
    rfl
  · rw [World.quotas_append, ← h.installed, ← h'.installed]
    rfl
  · intro n hn hunbound
    rcases List.mem_append.mp hn with hn | hn
    · rw [hrecords n hn]
      exact h.recorded n hn hunbound
    · exact h'.recorded n hn hunbound
  · intro n hn hunbound text hruled
    rcases List.mem_append.mp hn with hn | hn
    · obtain ⟨child, hchild, hlt, hchildren, hrich, htext⟩ := h.stands n hn hunbound text hruled
      have hnode := hstays n (Nat.lt_of_lt_of_le (hmade n (h.within n hn)) hsize) (.inl (h.within n hn))
      refine ⟨child, hchild.imp_left (List.mem_append_left _), Nat.lt_of_lt_of_le hlt h'.ties.hosts.size,
        ?_, ?_, ?_⟩
      · rw [hnode, hchildren]
      · rw [hnode, hrich]
      · rw [hstays child hlt hchild, htext]
    · obtain ⟨child, hchild, hrest⟩ := h'.stands n hn hunbound text hruled
      exact ⟨child, hchild.imp (List.mem_append_right _) (Nat.le_trans hsize), hrest⟩

/-- Nodes are as they were at the start, and can be bound. -/
structure Unset (s : Setting Code Memory) (sure : Prop) (start : World Code Memory) (owner : ViewModelId)
    (c : Reentry Code Memory) (nodes all : List NodeId) (w : World Code Memory) : Prop where
  prepared : Prepared s.application sure c owner w
  echoes : s.Echoes start w
  within : ∀ n ∈ all, n ∈ nodes
  made : ∀ n ∈ all, n.index < w.nodes.size
  node : ∀ n ∈ all, w.node n = start.node n
  isBound : ∀ n ∈ all, w.isBound owner n = start.isBound owner n

/-- Nodes stay as they were while others are bound. -/
theorem Unset.later {here : NodeId → Prop} (h : s.Unset sure start owner c nodes all w)
    (hties : World.Ties s.application.holds owner here w v) (hv : s.Echoes start v)
    (hsubset : ∀ n ∈ all', n ∈ all) (hapart : ∀ n ∈ all', ¬ here n) :
    s.Unset sure start owner c nodes all' v where
  prepared := h.prepared.later hties
  echoes := hv
  within n hn := h.within n (hsubset n hn)
  made n hn := Nat.lt_of_lt_of_le (h.made n (hsubset n hn)) hties.hosts.size
  node n hn := (hties.hosts.same n (h.made n (hsubset n hn)) (hapart n hn)).trans (h.node n (hsubset n hn))
  isBound n hn := (hties.records.isBound (hapart n hn)).trans (h.isBound n (hsubset n hn))

/-- What is apart from the nodes that a pass went over can still be bound, and is a tree as before. -/
theorem Unset.rest {roots others : List NodeId} (h : s.Unset sure start owner c nodes all w)
    (htypeset : s.Typeset start owner all' written tally w v) (htree : w.Tree roots others)
    (hsubset : ∀ n ∈ others, n ∈ all) (hapart : ∀ n ∈ others, n ∉ all') :
    s.Unset sure start owner c nodes others v ∧ v.Tree roots others := by
  have hunwritten : ∀ n ∈ others, n ∉ written := fun n hn hwritten => hapart n hn (htypeset.within n hwritten)
  refine ⟨h.later htypeset.ties htypeset.echoes hsubset hunwritten,
    htree.congr (fun n hn => ?_) htypeset.ties.hosts.size⟩
  exact htypeset.ties.hosts.same n (htree.made n hn) (hunwritten n hn)

end Setting

/-! ### Visits -/

namespace Engine

variable {c : Reentry Code Memory} {owner : ViewModelId} {nodes : List NodeId} {n : NodeId} {w : World Code Memory}

/-- A visit records as many bindings for its node as it counts. -/
theorem Visited.installed {holds : Memory → List Ref} {tally : Tally} {w' : World Code Memory}
    (h : Visited c holds owner n tally w w') :
    (w'.bindingsOf owner n).length = (w.bindingsOf owner n).length + tally.installed := by
  have hothers := Entries.length_values_of_others fun m hm => h.ties.records.same m hm
  have hcount := h.count
  rw [ViewModel.bindingCount, ViewModel.bindingCount] at hcount
  rw [World.bindingsOf, World.bindingsOf]
  omega

/-- A visit without failures counts the bindings that are due. -/
theorem Visited.installed_eq_quota {holds : Memory → List Ref} {tally : Tally} {w' : World Code Memory}
    (h : Visited c holds owner n tally w w') (herrors : tally.errors = []) (hlt : n.index < w.nodes.size) :
    tally.installed = w.quota owner n := by
  have hinstalled := h.installed
  have hfate := h.fate
  rw [herrors] at hfate
  cases hbound : w.isBound owner n with
  | false =>
    rw [← hfate.length_bindings hlt hbound, hinstalled, World.bindingsOf_of_not_isBound hbound, List.length_nil,
      Nat.zero_add]
  | true =>
    rw [hfate.bindingsOf_of_isBound_eq ((h.ties.records.lasting n hbound).trans hbound.symm)] at hinstalled
    rw [World.quota, hbound]
    simp only [if_true]
    omega

/-- A text without the opening delimiter. -/
def Literal (w : World Code Memory) (owner : ViewModelId) (n : NodeId) : Prop :=
  ∃ text, w.node n = .text text ∧ w.Mentions owner text = false

theorem ends_visit_literal (h : Literal w owner n) (depth : Nat) :
    Ends w (visit c owner depth n) (visit c owner depth n) fun r w' => r = .ok {} ∧ w' = w := by
  obtain ⟨text, htext, hmentions⟩ := h
  have helement : (w.node n).isElement = false := by rw [htext]; rfl
  rw [visit, ends_inspect_bind, helement]
  simp only [Bool.false_eq_true, if_false]
  rw [compileText, ends_inspect_bind]
  split
  · exact (ends_pure _).mpr ⟨rfl, rfl⟩
  · rw [ends_inspect_bind, ends_inspect_bind, World.textContent_of_text htext, World.Mentions] at *
    rw [hmentions]
    exact (ends_pure _).mpr ⟨rfl, rfl⟩

theorem ends_tallyAll_literals (h : ∀ n ∈ nodes, Literal w owner n) (depth : Nat) :
    Ends w (tallyAll (visit c owner depth) nodes) (tallyAll (visit c owner depth) nodes)
      fun r w' => r = .ok {} ∧ w' = w := by
  induction nodes with
  | nil => exact (ends_pure _).mpr ⟨rfl, rfl⟩
  | cons n rest inductionHypothesis =>
    obtain ⟨hn, hrest⟩ := List.forall_mem_cons.mp h
    refine (ends_visit_literal hn depth).bind ?_ ?_
    · rintro tally v ⟨htally, rfl⟩
      refine (inductionHypothesis hrest).bind ?_ ?_
      · rintro others v' ⟨hothers, rfl⟩
        cases htally
        cases hothers
        exact (ends_pure _).mpr ⟨rfl, rfl⟩
      · rintro e v' ⟨hr, -⟩
        cases hr
    · rintro e v ⟨hr, -⟩
      cases hr

/-- A pass over texts without the opening delimiter does nothing. -/
theorem ends_compileNodes_literals (h : ∀ n ∈ nodes, Literal w owner n) (depth : Nat) :
    Ends w (compileNodes c owner depth nodes) (compileNodes c owner depth nodes)
      fun r w' => r = .ok {} ∧ w' = w := by
  cases depth with
  | zero => exact ends_exhausted _
  | succ depth =>
    rw [compileNodes_succ]
    have hheld : ∀ n ∈ nodes, Literal { w with held := nodes.map .node ++ w.held } owner n := h
    refine Ends.keeping _ (ends_tallyAll_literals hheld depth) ?_
    rintro r w' ⟨hr, rfl⟩
    exact ⟨hr, rfl⟩

end Engine

namespace Setting

variable {s : Setting Code Memory} {sure : Prop} {start w v : World Code Memory} {c : Reentry Code Memory}
  {owner : ViewModelId} {n : NodeId} {nodes all below within : List NodeId} {tally : Tally}

theorem Unset.agrees (h : s.Unset sure start owner c nodes all w) (hn : n ∈ all) : World.Agrees owner n start w :=
  World.agrees_of_node (h.echoes.kin.settings owner) (h.isBound n hn) (h.node n hn)

/-- A visit without failures to a node that was as at the start. -/
theorem Unset.typeset (h : s.Unset sure start owner c nodes all w) (hn : n ∈ all)
    (hvisited : Visited c s.application.holds owner n tally w v) (hv : s.Echoes start v) (herrors : tally.errors = [])
    (hwithin : n ∈ within) (hstands : start.isBound owner n = false → ∀ text,
      s.Ruled start owner (start.node n).attributes [] (some (.text text)) →
        ∃ child, (child ∈ within ∨ w.nodes.size ≤ child.index) ∧ child.index < v.nodes.size ∧
          (v.node n).children = [child] ∧ (v.node n).richContent = none ∧ v.node child = .text text) :
    s.Typeset start owner within [n] tally w v where
  within := List.forall_mem_singleton.mpr hwithin
  ties := hvisited.ties.mono fun m hm => List.mem_singleton.mpr hm
  echoes := hv
  errors := herrors
  installed := by
    rw [hvisited.installed_eq_quota herrors (h.made n hn), (h.agrees hn).quota]
    rfl
  recorded := by
    refine List.forall_mem_singleton.mpr fun hunbound => ?_
    have hfate := hvisited.fate
    rw [herrors] at hfate
    rw [hfate.length_bindings (h.made n hn) ((h.isBound n hn).trans hunbound), (h.agrees hn).quota]
  stands := List.forall_mem_singleton.mpr hstands

/-- How a pass over nodes may end that began at `w`: it binds what is written. -/
def Typesets (s : Setting Code Memory) (start : World Code Memory) (owner : ViewModelId) (nodes all : List NodeId)
    (w : World Code Memory) (r : Except Error Tally) (w' : World Code Memory) : Prop :=
  ∃ written tally, r = .ok tally ∧ start.Authored owner nodes written ∧
    s.Typeset start owner all written tally w w'

/-- A visit to a text of the tree. -/
theorem Heard.typesets_text (hheard : s.Heard start c) (hsober : s.Sober start owner nodes)
    (h : s.Unset sure start owner c nodes all w) (hn : n ∈ all) {text : String} (htext : w.node n = .text text) :
    Ends w (Engine.compileText c owner n) (Engine.compileText c owner n) (s.Typesets start owner [n] [n] w) := by
  refine ((achieves_compileText h.prepared.relies h.prepared.ready htext).ends.and
    (hheard.compileText h.echoes htext)).mono ?_
  rintro r v ⟨⟨tally, rfl, hvisited⟩, hv, tally', hr, hvisit⟩
  cases hr
  have hrow : start.node n = .text text := (h.node n hn).symm.trans htext
  have herrors : tally.errors = [] := by
    by_cases hkept : w.isBound owner n = true ∨ start.Mentions owner text = false
    · exact (hvisit.kept hkept).1
    · rw [not_or, Bool.not_eq_true, Bool.not_eq_false] at hkept
      obtain ⟨a, ha, houtcome⟩ := hvisit.asked hkept.1 hkept.2
      cases a with
      | ok shown => exact houtcome.1
      | error e =>
        have hunbound := (h.isBound n hn).symm.trans hkept.1
        exact absurd ha (hsober.templates n (h.within n hn) hunbound text hrow hkept.2 e)
  have hkeeps : start.replaces owner n = false := by
    rw [World.replaces, World.directives, hrow]
    exact Bool.and_false _
  have hnone : start.Authored owner (start.node n).children [] := by
    rw [hrow]
    exact .nil
  refine ⟨[n], tally, rfl, .kept hkeeps hnone .nil, h.typeset hn hvisited hv herrors List.mem_cons_self ?_⟩
  intro _ text hruled
  rw [hrow] at hruled
  cases hruled

/-- Where the children of a visited node stand: among those that it had, or else they are new. -/
theorem Unset.places (h : s.Unset sure start owner c nodes all w) (hn : n ∈ all)
    (hvisited : Visited c s.application.holds owner n tally w v) (hbelow : ∀ child ∈ (w.node n).children, child ∈ below)
    (hall : ∀ m ∈ below, m ∈ all) {child : NodeId} (hchild : child ∈ (v.node n).children) :
    (child ∈ n :: below ∨ w.nodes.size ≤ child.index) ∧ child.index < v.nodes.size := by
  rcases hvisited.ties.hosts.children n (h.made n hn) with hsame | ⟨-, hnew⟩
  · have hmem := hbelow child (hsame ▸ hchild)
    exact ⟨.inl (List.mem_cons_of_mem n hmem),
      Nat.lt_of_lt_of_le (h.made child (hall child hmem)) hvisited.ties.hosts.size⟩
  · exact ⟨.inr (hnew child hchild).1, (hnew child hchild).2⟩

/-- What a directive put below an element has no template in it. -/
theorem Sober.literal (hsober : s.Sober start owner nodes) (hv : s.Echoes start v) (hn : n ∈ nodes)
    (hunbound : start.isBound owner n = false) {content : Content}
    (hruled : s.Ruled start owner (start.node n).attributes [] (some content)) (hhas : v.Has n content)
    {child : NodeId} (hchild : child ∈ (v.node n).children) : Literal v owner child := by
  cases content with
  | html content =>
    rw [hhas.1] at hchild
    cases hchild
  | text content =>
    obtain ⟨child', hchildren, -, htext⟩ := hhas
    rw [hchildren] at hchild
    obtain rfl := List.mem_singleton.mp hchild
    obtain ⟨p, hp, value, hgives, rfl⟩ := hruled.shows
    refine ⟨value.text, htext, ?_⟩
    rw [hv.kin.mentions]
    exact hsober.shown n hn hunbound p hp value hgives

/-- A visit to an element of the tree. What stands below it afterwards is what stood there, or else a text without
placeholders at most. -/
theorem Heard.typesets_element (hheard : s.Heard start c)
    (hstandard : (start.viewModel owner).registry = Registry.standard) (hsober : s.Sober start owner nodes)
    (h : s.Unset sure start owner c nodes all w) (hn : n ∈ all) (helement : (w.node n).isElement = true)
    (hbelow : ∀ child ∈ (w.node n).children, child ∈ below) (hall : ∀ m ∈ below, m ∈ all) :
    Ends w (Engine.compileElement c owner n) (Engine.compileElement c owner n) fun r v =>
      ∃ tally, r = .ok (tally, true) ∧
        (start.replaces owner n = true ∧ s.Typeset start owner (n :: below) [n] tally w v ∧
          (∀ child ∈ (v.node n).children, Literal v owner child) ∨
        start.replaces owner n = false ∧ s.Typeset start owner [n] [n] tally w v ∧
          (v.node n).children = (w.node n).children) := by
  have hinstallers := fun kind installer
    (hfind : (w.viewModel owner).registry.find? kind = some installer) => h.prepared.standard ▸ hfind
  refine ((achieves_compileElement h.prepared.relies h.prepared.ready hinstallers helement).ends.and
    (hheard.compileElement h.echoes hstandard helement)).mono ?_
  rintro r v ⟨⟨tally, rfl, hvisited⟩, hv, tally', hr, hvisit⟩
  cases hr
  have hself : n ∈ [n] := List.mem_cons_self
  cases hbound : start.isBound owner n with
  | true =>
    obtain ⟨herrors, rfl⟩ := hvisit.kept ((h.isBound n hn).trans hbound)
    have hbound' : start.isBound owner n ≠ false := by rw [hbound]; exact Bool.noConfusion
    have hreplaces : start.replaces owner n = false := by rw [World.replaces, hbound]; rfl
    refine ⟨tally, by rw [herrors]; rfl, .inr ⟨hreplaces, ?_, rfl⟩⟩
    exact h.typeset hn hvisited hv herrors hself fun hunbound => absurd hunbound hbound'
  | false =>
    obtain ⟨fs, content?, hruled, herrors, hdressed⟩ := hvisit.ruled ((h.isBound n hn).trans hbound)
    rw [h.node n hn] at hruled
    obtain rfl := hruled.eq_nil (hsober.directives n (h.within n hn) hbound)
    have herrors : tally.errors = [] := herrors
    have hreplaces : start.replaces owner n = content?.isSome := by
      rw [hruled.isSome hstandard, World.replaces, hbound]
      rfl
    refine ⟨tally, by rw [herrors]; rfl, ?_⟩
    cases content? with
    | none =>
      refine .inr ⟨hreplaces, ?_, Node.children_eq_of_bare (hdressed.looks rfl n)⟩
      refine h.typeset hn hvisited hv herrors hself fun _ text hruled' => ?_
      cases (hruled.unique hruled').2
    | some content =>
      have hhas := hdressed.has content rfl
      refine .inl ⟨hreplaces, ?_, fun child => hsober.literal hv (h.within n hn) hbound hruled hhas⟩
      refine h.typeset hn hvisited hv herrors List.mem_cons_self fun _ text hruled' => ?_
      obtain rfl := Option.some.inj (hruled.unique hruled').2
      obtain ⟨child, hchildren, hrich, htext⟩ := hhas
      have hplace := h.places hn hvisited hbelow hall (hchildren ▸ List.mem_cons_self : child ∈ (v.node n).children)
      exact ⟨child, hplace.1, hplace.2, hchildren, hrich, htext⟩

/-- A visit to a node of the tree and to what is below it. -/
theorem Heard.typesets_visit (hheard : s.Heard start c)
    (hstandard : (start.viewModel owner).registry = Registry.standard) (hsober : s.Sober start owner nodes)
    {depth : Nat} (hdescend : ∀ {w : World Code Memory} {roots all : List NodeId},
      s.Unset sure start owner c nodes all w → w.Tree roots all →
      Ends w (compileNodes c owner depth roots) (compileNodes c owner depth roots) (s.Typesets start owner roots all w))
    (h : s.Unset sure start owner c nodes (n :: below) w) (htree : w.Tree (w.node n).children below)
    (hn : n ∉ below) :
    Ends w (Engine.visit c owner depth n) (Engine.visit c owner depth n)
      (s.Typesets start owner [n] (n :: below) w) := by
  have hself : n ∈ n :: below := List.mem_cons_self
  have hrow := h.node n hself
  have hmanned := h.prepared.ready.manned
  have hmade := List.forall_mem_cons.mp h.made
  rw [Engine.visit, ends_inspect_bind]
  cases hkind : w.node n with
  | text text =>
    simp only [Node.isElement, Bool.false_eq_true, if_false]
    obtain rfl : below = [] := by
      have hlists := htree.lists
      rw [hkind] at hlists
      cases hlists
      rfl
    exact hheard.typesets_text hsober h hself hkind
  | element e =>
    have helement : (w.node n).isElement = true := by rw [hkind]; rfl
    simp only [Node.isElement, if_true]
    refine (hheard.typesets_element hstandard hsober h hself helement htree.lists.closed.1 fun m hm =>
      List.mem_cons_of_mem n hm).bind ?_ ?_
    · rintro ⟨tally, descend⟩ v
        ⟨tally, hr, ⟨hreplaces, htypeset, hliterals⟩ | ⟨hkeeps, htypeset, hchildren⟩⟩
      · cases hr
        simp only [if_true]
        rw [ends_inspect_bind]
        refine (ends_compileNodes_literals hliterals depth).bind ?_ ?_
        · rintro others v' ⟨hothers, rfl⟩
          cases hothers
          refine (ends_pure _).mpr ⟨[n], tally, ?_, .replaced hreplaces .nil, htypeset⟩
          simp [Tally.add]
        · rintro e v' ⟨hr, -⟩
          cases hr
      · cases hr
        simp only [if_true]
        rw [ends_inspect_bind, hchildren]
        obtain ⟨hnext, htree'⟩ := h.rest htypeset htree (fun m hm => List.mem_cons_of_mem n hm)
          fun m hm hmem => hn (List.mem_singleton.mp hmem ▸ hm)
        refine (hdescend hnext htree').bind ?_ ?_
        · rintro others v' ⟨written, others, hr, hwritten, htypeset'⟩
          cases hr
          refine (ends_pure _).mpr ⟨n :: (written ++ []), tally.add others, rfl, ?_, ?_⟩
          · exact .kept hkeeps (hrow ▸ hwritten) .nil
          · rw [List.append_nil]
            exact htypeset.append htypeset' hmanned (List.forall_mem_singleton.mpr hmade.1) hmade.2
              (List.forall_mem_singleton.mpr hn)
        · rintro e v' ⟨_, _, hr, -⟩
          cases hr
    · rintro e v ⟨_, hr, -⟩
      cases hr

/-- Nodes of the tree after another. -/
theorem typesets_tallyAll {step : NodeId → Engine Code Memory Tally} {roots : List NodeId}
    (hstep : ∀ {w : World Code Memory} {n : NodeId} {below : List NodeId},
      s.Unset sure start owner c nodes (n :: below) w → w.Tree (w.node n).children below → n ∉ below →
      Ends w (step n) (step n) (s.Typesets start owner [n] (n :: below) w))
    (h : s.Unset sure start owner c nodes all w) (htree : w.Tree roots all) :
    Ends w (tallyAll step roots) (tallyAll step roots) (s.Typesets start owner roots all w) := by
  induction roots generalizing w all with
  | nil =>
    cases htree.lists
    refine (ends_pure _).mpr ⟨[], {}, rfl, .nil, ?_⟩
    exact ⟨fun _ h => h, .refl w, h.echoes, rfl, rfl, fun _ h => absurd h List.not_mem_nil,
      fun _ h => absurd h List.not_mem_nil⟩
  | cons n rest inductionHypothesis =>
    obtain ⟨hlists, hnodup, hmade⟩ := htree
    cases hlists with
    | @cons _ _ below others hbelow hrest =>
      have hsplit : n :: (below ++ others) = (n :: below) ++ others := rfl
      rw [hsplit] at h hnodup hmade ⊢
      obtain ⟨hfirst, hothers, hapart⟩ := List.nodup_append.mp hnodup
      obtain ⟨hn, hbelowNodup⟩ := List.nodup_cons.mp hfirst
      have hmadeFirst : ∀ m ∈ n :: below, m.index < w.nodes.size := fun m hm => hmade m (List.mem_append_left _ hm)
      have hmadeOthers : ∀ m ∈ others, m.index < w.nodes.size := fun m hm => hmade m (List.mem_append_right _ hm)
      have hdisjoint : ∀ m ∈ n :: below, m ∉ others := fun m hm hmem => hapart m hm m hmem rfl
      have hhere : s.Unset sure start owner c nodes (n :: below) w :=
        h.later (.refl w) h.echoes (fun m hm => List.mem_append_left _ hm) (fun _ _ => id)
      refine (hstep hhere ⟨hbelow, hbelowNodup, fun m hm => hmadeFirst m (List.mem_cons_of_mem n hm)⟩ hn).bind ?_ ?_
      · rintro tally v ⟨written, tally, hr, hwritten, htypeset⟩
        cases hr
        obtain ⟨hnext, htree⟩ := h.rest htypeset ⟨hrest, hothers, hmadeOthers⟩ (fun m hm => List.mem_append_right _ hm)
          fun m hm hmem => hdisjoint m hmem hm
        refine (inductionHypothesis hnext htree).bind ?_ ?_
        · rintro tally' v' ⟨written', tally', hr, hwritten', htypeset'⟩
          cases hr
          exact (ends_pure _).mpr ⟨written ++ written', _, rfl, hwritten.append hwritten',
            htypeset.append htypeset' h.prepared.ready.manned hmadeFirst hmadeOthers hdisjoint⟩
        · rintro e v' ⟨_, _, hr, -⟩
          cases hr
      · rintro e v ⟨_, _, hr, -⟩
        cases hr

/-- A pass over nodes of the tree binds what is written below them, these nodes included. -/
theorem Heard.typesets_compileNodes (hheard : s.Heard start c)
    (hstandard : (start.viewModel owner).registry = Registry.standard) (hsober : s.Sober start owner nodes)
    (depth : Nat) {roots : List NodeId} (h : s.Unset sure start owner c nodes all w) (htree : w.Tree roots all) :
    Ends w (compileNodes c owner depth roots) (compileNodes c owner depth roots)
      (s.Typesets start owner roots all w) := by
  induction depth generalizing w roots all with
  | zero => exact ends_exhausted _
  | succ depth inductionHypothesis =>
    rw [compileNodes_succ]
    have hheld : s.Unset sure start owner c nodes all { w with held := roots.map .node ++ w.held } := {
      prepared := h.prepared.holding _
      echoes := h.echoes.holding _ (by simp)
      within := h.within
      made := h.made
      node := h.node
      isBound := h.isBound }
    refine Ends.keeping _ (typesets_tallyAll (hheard.typesets_visit hstandard hsober inductionHypothesis) hheld
      (htree.congr (fun _ _ => rfl) (Nat.le_refl _))) ?_
    rintro r v ⟨written, tally, rfl, hwritten, htypeset⟩
    refine ⟨written, tally, rfl, hwritten, ?_⟩
    exact {
      within := htypeset.within
      ties := htypeset.ties.released
      echoes := htypeset.echoes.released htypeset.ties.held (by simp)
      errors := htypeset.errors
      installed := htypeset.installed
      recorded := htypeset.recorded
      stands := htypeset.stands }

/-! ### Passes -/

/-- What is seen after a pass that bound the nodes `written`. -/
structure Printed (s : Setting Code Memory) (start : World Code Memory) (owner : ViewModelId) (written : List NodeId)
    (w' : World Code Memory) : Prop where
  /-- Every node has the bindings that are due. -/
  recorded : ∀ n ∈ written, start.isBound owner n = false → (w'.bindingsOf owner n).length = start.quota owner n
  /-- No other node got any. -/
  others : ∀ n ∉ written, w'.bindingsOf owner n = start.bindingsOf owner n
  placed : ∀ b, start.MadeSince w' b → (w'.binding b).node ∈ written
  /-- An element with a text in place of its children reads as what is shown there. -/
  reads : ∀ n ∈ written, start.isBound owner n = false → ∀ text,
    s.Ruled start owner (start.node n).attributes [] (some (.text text)) → w'.textContent n = text

theorem Typeset.printed {written : List NodeId} {w' : World Code Memory}
    (h : s.Typeset start owner all written tally w v) (hmade : ∀ n ∈ all, n.index < w.nodes.size)
    (hrows : w.bindings = start.bindings) (hbefore : ∀ n, w.bindingsOf owner n = start.bindingsOf owner n)
    (hnode : ∀ n ∈ written, w'.node n = v.node n)
    (htexts : ∀ n text, v.node n = .text text → w'.node n = .text text) (hsize : w'.nodes.size = v.nodes.size)
    (hbindings : w'.bindings = v.bindings) (hviewModels : w'.viewModels = v.viewModels) :
    s.Printed start owner written w' := by
  have hrecorded : ∀ n, w'.bindingsOf owner n = v.bindingsOf owner n := fun n => by
    rw [World.bindingsOf, World.viewModel, hviewModels]
    rfl
  constructor
  · intro n hn hunbound
    rw [hrecorded]
    exact h.recorded n hn hunbound
  · intro n hn
    rw [hrecorded, h.ties.records.bindingsOf hn, hbefore]
  · intro b hb
    rw [World.MadeSince, ← hrows, hbindings] at hb
    rw [World.binding, hbindings]
    exact h.ties.binds.placed b hb.1 hb.2
  · intro n hn hunbound text hruled
    obtain ⟨child, -, -, hchildren, hrich, htext⟩ := h.stands n hn hunbound text hruled
    have hlt := Nat.lt_of_lt_of_le (hmade n (h.within n hn)) h.ties.hosts.size
    refine World.textContent_of_has (hsize ▸ hlt) ⟨child, ?_, ?_, htexts child text htext⟩
    · rw [hnode n hn, hchildren]
    · rw [hnode n hn, hrich]

/-- How a pass below `root` may end that began at `start`. -/
def Prints (s : Setting Code Memory) (start : World Code Memory) (owner : ViewModelId) (root : NodeId)
    (r : Except Error Nat) (w' : World Code Memory) : Prop :=
  ∃ written, start.Authored owner (start.node root).children written ∧
    r = .ok (start.quotas owner written) ∧ s.Printed start owner written w'

theorem Typeset.result {written : List NodeId} (h : s.Typeset start owner all written tally w v) :
    tally.result = .ok (start.quotas owner written) := by
  rw [Tally.result, h.errors, ← h.installed]
  rfl

variable {root : NodeId}

/-- What is held meanwhile makes no difference. -/
theorem Prints.released {r : Except Error Nat} (h : s.Prints start owner root r v) (refs : List Ref) :
    s.Prints start owner root r { v with held := refs } := by
  obtain ⟨written, hwritten, hr, hprinted⟩ := h
  refine ⟨written, hwritten, hr, hprinted.recorded, hprinted.others, hprinted.placed, ?_⟩
  intro n hn hunbound text hruled
  rw [← hprinted.reads n hn hunbound text hruled]
  exact congrFun (World.textWithin_holding v refs _) n

/-- The nodes below a root can be bound while the view model is held. -/
theorem FitsHolding.unset (hheard : s.Heard start c) (hstandard : (start.viewModel owner).registry = Registry.standard)
    (hprepared : Prepared s.application sure c owner w) (hw : FitsHolding (s.Echoes start) owner w)
    (hmatches : ∀ n, World.Matches owner n start w) (htree : w.Tree [root] (root :: nodes)) :
    s.Unset sure start owner c nodes nodes { w with held := [.viewModel owner, .node root] ++ w.held } where
  prepared := hprepared.holding _
  echoes := hw.hold (hheard.stays hstandard) (by simp)
  within _ hn := hn
  made := (tree_children htree).1.made
  node n _ := (hmatches n).node
  isBound n _ := (hmatches n).isBound

/-- They can still be bound when the children of the root are taken out. -/
theorem Unset.emptied (h : s.Unset sure start owner c nodes nodes w) (htree : w.Tree [root] (root :: nodes)) :
    s.Unset sure start owner c nodes nodes (w.mapNode root (·.setChildren [])) where
  prepared := h.prepared.mapNode root _
  echoes := h.echoes.later (World.kin_mapNode w root _) rfl rfl fun _ => Iff.rfl
  within := h.within
  made n hn := Nat.lt_of_lt_of_le (h.made n hn) (Table.size_le_modify _ _ _)
  node n hn := ((tree_emptied htree).2 n hn).trans (h.node n hn)
  isBound := h.isBound

theorem Heard.prints_compile (hheard : s.Heard start c)
    (hstandard : (start.viewModel owner).registry = Registry.standard) (hsober : s.Sober start owner nodes)
    (hprepared : Prepared s.application sure c owner w) (hw : FitsHolding (s.Echoes start) owner w)
    (hmatches : ∀ n, World.Matches owner n start w) (htree : w.Tree [root] (root :: nodes)) :
    Ends w (compile c owner root) (compile c owner root) (s.Prints start owner root) := by
  have hunset := FitsHolding.unset hheard hstandard hprepared hw hmatches htree
  refine Ends.keeping _ (R := s.Prints start owner root) ?_ fun r v h => h.released w.held
  rw [ends_inspect_bind]
  refine (hheard.typesets_compileNodes hstandard hsober c.depth hunset
    ((tree_children htree).1.congr (fun _ _ => rfl) (Nat.le_refl _))).bind ?_ ?_
  · rintro tally v ⟨written, tally, hr, hwritten, htypeset⟩
    cases hr
    refine (ends_ofExcept _).mpr ⟨written, (hmatches root).node ▸ hwritten, htypeset.result, ?_⟩
    exact htypeset.printed hunset.made (hmatches root).bindings (fun n => (hmatches n).bindingsOf) (fun _ _ => rfl)
      (fun _ _ h => h) rfl rfl rfl
  · rintro e v ⟨_, _, hr, -⟩
    cases hr

theorem Heard.prints_compileDetached (hheard : s.Heard start c)
    (hstandard : (start.viewModel owner).registry = Registry.standard) (hsober : s.Sober start owner nodes)
    (hprepared : Prepared s.application sure c owner w) (hw : FitsHolding (s.Echoes start) owner w)
    (hmatches : ∀ n, World.Matches owner n start w) (htree : w.Tree [root] (root :: nodes)) :
    Ends w (compileDetached c owner root) (compileDetached c owner root) (s.Prints start owner root) := by
  have hunset := FitsHolding.unset hheard hstandard hprepared hw hmatches htree
  refine Ends.keeping _ (R := s.Prints start owner root) ?_ fun r v h => h.released w.held
  rw [ends_inspect_bind, ends_update_bind]
  generalize hheld : ({ w with held := [.viewModel owner, .node root] ++ w.held } : World Code Memory) = u at hunset
  have htree' : u.Tree [root] (root :: nodes) := hheld ▸ htree.congr (fun _ _ => rfl) (Nat.le_refl _)
  have hrow : u.node root = start.node root := hheld ▸ (hmatches root).node
  obtain ⟨-, hroot, hlt⟩ := tree_children htree'
  have hemptied := hunset.emptied htree'
  refine (hheard.typesets_compileNodes hstandard hsober c.depth hemptied (tree_emptied htree').1).bind ?_ ?_
  · rintro tally v ⟨written, tally, hr, hwritten, htypeset⟩
    cases hr
    rw [ends_update_bind]
    refine (ends_ofExcept _).mpr ⟨written, hrow ▸ hwritten, htypeset.result, ?_⟩
    have hlt' : root.index < v.nodes.size :=
      Nat.lt_of_lt_of_le hlt (Nat.le_trans (Table.size_le_modify _ _ _) htypeset.ties.hosts.size)
    refine htypeset.printed hemptied.made (hheld ▸ (hmatches root).bindings)
      (fun n => hheld ▸ (hmatches n).bindingsOf) (fun n hn => ?_) (fun n text htext => ?_)
      (Table.size_modify_of_lt _ hlt' _) rfl rfl
    · rw [World.appendChildren, World.node_mapNode, if_neg]
      exact fun heq => hroot (heq ▸ htypeset.within n hn)
    · rw [World.appendChildren, World.node_mapNode]
      split
      · next heq =>
        rw [← heq, htext]
        rfl
      · exact htext
  · rintro e v ⟨_, _, hr, -⟩
    cases hr

theorem Heard.prints_mount (hheard : s.Heard w c) (hstandard : (w.viewModel owner).registry = Registry.standard)
    (hsober : s.Sober w owner nodes) (hprepared : Prepared s.application sure c owner w)
    (hw : FitsHolding (s.Echoes w) owner w) {target : Target}
    (hlocate : w.locate (w.viewModel owner).document target = .ok root) (htree : w.Tree [root] (root :: nodes)) :
    Ends w (mount c owner target) (mount c owner target) (s.Prints w owner root) := by
  have hstays := hheard.stays hstandard
  refine Ends.keeping _ (R := s.Prints w owner root) ?_ fun r v h => h.released w.held
  rw [ends_inspect_bind, ends_inspect_bind]
  generalize hstart : ({ w with held := [.viewModel owner] ++ w.held } : World Code Memory) = u
  have hlocate' : u.locate (u.viewModel owner).document target = .ok root := hstart ▸ hlocate
  have hprepared' : Prepared s.application sure c owner u := hstart ▸ hprepared.holding _
  have hw' : s.Echoes w u := hstart ▸ hw.hold hstays (by simp)
  have hheld : Ref.viewModel owner ∈ u.held := hstart ▸ List.mem_cons_self
  have hmatches : ∀ n, World.Matches owner n w u := fun n => hstart ▸ World.matches_holding w _
  let x := u.mapViewModel owner fun vm => { vm with mounted := some root }
  have hkin : u.Kin x := World.kin_mapViewModel u rfl
  have hself : (x.viewModel owner).bindings = (u.viewModel owner).bindings := by
    rw [World.viewModel_mapViewModel, if_pos rfl]
  have hmatches' : ∀ n, World.Matches owner n w x := fun n =>
    ⟨(hmatches n).kin.trans hkin, (hmatches n).node, (hmatches n).size, (hmatches n).bindings, (hmatches n).watchers,
      (hmatches n).sources, hself.trans (hmatches n).recorded⟩
  rw [ends_ofExcept_bind, hlocate']
  simp only
  rw [ends_update_bind]
  refine hheard.prints_compileDetached hstandard hsober (hprepared'.mounting root)
    (.of_held hstays (hw'.later hkin rfl rfl fun _ => Iff.rfl) hheld) hmatches'
    (htree.congr (fun n _ => (hmatches' n).node) (Nat.le_of_eq (hmatches' root).size.symm))

/-- A pass below a root binds what is written there. -/
theorem Heard.prints_pass (hheard : s.Heard w c) (hstandard : (w.viewModel owner).registry = Registry.standard)
    (hsober : s.Sober w owner nodes) (hprepared : Prepared s.application sure c owner w)
    (hw : FitsHolding (s.Echoes w) owner w) {pass : Pass} (hroot : pass.root? w owner = some root)
    (htree : w.Tree [root] (root :: nodes)) :
    Ends w (pass.run c owner) (pass.run c owner) (s.Prints w owner root) := by
  cases pass with
  | mount target => exact hheard.prints_mount hstandard hsober hprepared hw (Pass.locate_eq_ok hroot) htree
  | compile node =>
    cases hroot
    exact hheard.prints_compile hstandard hsober hprepared hw (fun n => World.matches_holding w w.held) htree

end Setting

namespace Engine

/-- A tree that a pass can bind without failures, and in which data do not show up as templates. -/
structure Bindable (application : Application Code Memory) (owner : ViewModelId) (pass : Pass) (root : NodeId)
    (nodes : List NodeId) (w : World Code Memory) : Prop where
  steady : w.GettersSteady application
  founded : w.Founded (application.holds w.memory)
  standard : (w.viewModel owner).registry = Registry.standard
  located : pass.root? w owner = some root
  tree : w.Tree [root] (root :: nodes)
  sober : (Setting.binding application owner w).Sober w owner nodes

variable {application : Application Code Memory} {owner : ViewModelId} {pass : Pass} {root : NodeId}
  {nodes : List NodeId} {w w' v v' : World Code Memory} {depth depth' : Nat} {r r' : Except Error Nat}

/--
Data are no templates. If the directives and the templates of a tree do not fail, and no text that a directive shows
holds the opening delimiter, then a pass over the tree binds what is written there and nothing else, answers how many
bindings are due for that, and leaves every text that a directive shows as it is.
-/
theorem data_are_no_templates
    (hquiet : ∀ o w, application.holds (application.notes o w) = application.holds w.memory)
    (h : Bindable application owner pass root nodes w)
    (hrun : pass.run (reentry application depth) owner w = some (r, w')) :
    (Setting.binding application owner w).Prints w owner root r w' := by
  have hreads : w.GettersRead application := fun id =>
    (h.steady.reads id).mono (fun _ _ => trivial) fun _ _ => trivial
  have hprepared : Prepared application (Answers (reentry application depth) w) (reentry application depth) owner w :=
    ⟨relies_reentry hquiet hreads depth, h.founded.ready, h.standard⟩
  have hheard := Setting.heard_binding hquiet h.steady owner depth
  exact (hheard.prints_pass h.standard h.sober hprepared (Setting.echoes_holding application owner w) h.located h.tree
    r w' hrun).2

/--
What is bound does not depend on the data. Where two worlds agree on a tree as it is written, passes over it answer the
same, and every node of the tree that was not bound gets as many bindings in the one as in the other.
-/
theorem same_tree_same_bindings
    (hquiet : ∀ o w, application.holds (application.notes o w) = application.holds w.memory)
    (h : Bindable application owner pass root nodes w) (h' : Bindable application owner pass root nodes v)
    (hroot : (v.node root).children = (w.node root).children) (hagrees : ∀ n ∈ nodes, World.Agrees owner n w v)
    (hrun : pass.run (reentry application depth) owner w = some (r, w'))
    (hrun' : pass.run (reentry application depth') owner v = some (r', v')) :
    r' = r ∧ ∀ n ∈ nodes, w.isBound owner n = false →
      (v'.bindingsOf owner n).length = (w'.bindingsOf owner n).length := by
  obtain ⟨written, hwritten, rfl, hprinted⟩ := data_are_no_templates hquiet h hrun
  obtain ⟨written', hwritten', rfl, hprinted'⟩ := data_are_no_templates hquiet h' hrun'
  obtain ⟨hroots, hclosed⟩ := (tree_children h.tree).1.lists.closed
  obtain ⟨hsame, hmem⟩ := hwritten.agrees hroots hclosed hagrees
  rw [hroot] at hwritten'
  obtain rfl := hsame.unique hwritten'
  have hquota : ∀ n ∈ written', v.quota owner n = w.quota owner n := fun n hn => (hagrees n (hmem n hn)).quota
  refine ⟨by rw [World.quotas_congr hquota], fun n hn hunbound => ?_⟩
  have hunbound' : v.isBound owner n = false := (hagrees n hn).isBound.trans hunbound
  by_cases hin : n ∈ written'
  · rw [hprinted'.recorded n hin hunbound', hprinted.recorded n hin hunbound, hquota n hin]
  · rw [hprinted'.others n hin, hprinted.others n hin, World.bindingsOf_of_not_isBound hunbound,
      World.bindingsOf_of_not_isBound hunbound']

end Engine

/-! ### A notice -/

/-- A paragraph that shows what is said of `a`, and a text. -/
def World.notice (a : String) : World Unit Unit :=
  { sapling with objects := ⟨#[{ slots := .ofList [("a", .constant (.string a))] }]⟩ }

theorem World.made_notice (a : String) (x : Ref) : (notice a).Made x ↔ sapling.Made x := by
  cases x <;> rfl

theorem World.founded_notice (a : String) : (notice a).Founded [] where
  roots := founded_sapling.roots
  owned y hy x hx := by
    cases y with
    | object id =>
      obtain ⟨i⟩ := id
      obtain rfl : i = 0 := Nat.lt_one_iff.mp hy
      cases hx
    | _ => exact (made_notice a x).mpr (founded_sapling.owned _ ((made_notice a _).mp hy) x hx)
  listed := founded_sapling.listed

theorem World.tree_notice (a : String) : (notice a).Tree [⟨0⟩] [⟨0⟩, ⟨1⟩, ⟨2⟩] :=
  tree_sapling.congr (fun _ _ => rfl) (Nat.le_refl _)

theorem parse_notice : Directive.parse "v-text" "a" "v-" = .ok (some ⟨.text, none, "a"⟩) := by
  rfl

/-- The directive of the paragraph shows what is said of `a`. -/
theorem Setting.gives_notice (a : String) :
    ((Setting.binding Application.idle ⟨0⟩ (World.notice a)).view (World.notice a)).Gives
      ((World.notice a).attributeQuery ⟨0⟩ "v-text" "a") (.ok (some (.text, .string a))) := by
  have hmark : ((World.notice a).viewModel ⟨0⟩).settings.mark = "v-" := rfl
  have hquery : (World.notice a).attributeQuery ⟨0⟩ "v-text" "a" = Query.rendered ⟨0⟩ "a" .text := by
    rw [World.attributeQuery, hmark, parse_notice]
    rfl
  have hpath : Path.parse "a" = .ok ⟨["a"], by decide, by decide⟩ := by rfl
  rw [hquery, Query.rendered, hpath]
  exact ⟨1, rfl⟩

/-- The notice can be bound if what is said of `a` holds no opening delimiter. -/
theorem Engine.bindable_notice {a : String} (ha : (World.notice a).Mentions ⟨0⟩ a = false) :
    Bindable Application.idle ⟨0⟩ (.mount (.node ⟨0⟩)) ⟨0⟩ [⟨1⟩, ⟨2⟩] (World.notice a) where
  steady := ⟨fun _ => .done _, fun _ _ _ _ => rfl⟩
  founded := World.founded_notice a
  standard := rfl
  located := rfl
  tree := World.tree_notice a
  sober := by
    have hattributes : ∀ n ∈ [(⟨1⟩ : NodeId), ⟨2⟩], ∀ p ∈ ((World.notice a).node n).attributes,
        p = ("v-text", "a") := by
      intro n hn p hp
      rw [List.mem_cons, List.mem_singleton] at hn
      rcases hn with rfl | rfl
      · exact List.mem_singleton.mp hp
      · cases hp
    refine ⟨fun n hn _ p hp e herror => ?_, fun n hn _ text htext hmentions => ?_, fun n hn _ p hp value hshown => ?_⟩
    · obtain rfl := hattributes n hn p hp
      cases View.Gives.unique (Setting.gives_notice a) herror
    · rw [List.mem_cons, List.mem_singleton] at hn
      rcases hn with rfl | rfl
      · cases htext
      · obtain rfl : "b" = text := Node.text.inj htext
        have hliteral : World.sapling.Mentions ⟨0⟩ "b" = false := by decide
        cases hliteral.symm.trans hmentions
    · obtain rfl := hattributes n hn p hp
      cases View.Gives.unique (Setting.gives_notice a) hshown
      exact ha

/-- A notice reads as what is said of `a`, if that holds no opening delimiter. -/
theorem Engine.data_are_no_templates_notice (a : String) (ha : (World.notice a).Mentions ⟨0⟩ a = false) (depth : Nat)
    {r : Except Error Nat} {w' : World Unit Unit}
    (hrun : (Pass.mount (.node ⟨0⟩)).run (reentry Application.idle depth) ⟨0⟩ (World.notice a) = some (r, w')) :
    r = .ok 1 ∧ w'.textContent ⟨1⟩ = a := by
  obtain ⟨written, hwritten, rfl, hprinted⟩ := data_are_no_templates (fun _ _ => rfl) (bindable_notice ha) hrun
  have hdirectives : (World.notice a).directives ⟨0⟩ ⟨1⟩ = [⟨.text, none, "a"⟩] := directivesOf_made parse_notice
  have hreplaces : (World.notice a).replaces ⟨0⟩ ⟨1⟩ = true := by
    rw [World.replaces, hdirectives]
    rfl
  have hbelow : (World.notice a).Authored ⟨0⟩ ((World.notice a).node ⟨2⟩).children [] := .nil
  have hall : (World.notice a).Authored ⟨0⟩ [⟨1⟩, ⟨2⟩] [⟨1⟩, ⟨2⟩] := .replaced hreplaces (.kept rfl hbelow .nil)
  obtain rfl := hall.unique hwritten
  have hparagraph : (World.notice a).quota ⟨0⟩ ⟨1⟩ = 1 := congrArg List.length hdirectives
  have htext : (World.notice a).quota ⟨0⟩ ⟨2⟩ = 0 := by
    have hliteral : World.sapling.quota ⟨0⟩ ⟨2⟩ = 0 := by decide
    exact hliteral
  have hsum : (World.notice a).quotas ⟨0⟩ [⟨1⟩, ⟨2⟩] = 1 := by
    rw [World.quotas, World.quotas, World.quotas, hparagraph, htext]
  exact ⟨by rw [hsum], hprinted.reads ⟨1⟩ List.mem_cons_self rfl a (.carried (Setting.gives_notice a) .nil)⟩

end ViewBinding
