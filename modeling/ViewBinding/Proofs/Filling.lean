import ViewBinding.Proofs.Repeating

/-!
# What fills an element

Rich content takes the place of the children, in the text of an element and in its markup. The text asks
whether there is rich content, the markup whether there are children; so both show the same content as long
as there are not both. Setting rich content, setting text, and taking the children away see to that, and so
does appending children to an element that has no rich content.
-/

namespace ViewBinding

variable {Code Memory : Type}

/-- A change of what fills an element. -/
inductive Refill where
  | html (markup : String)
  | text (content : String)
  | take
  | append (children : List NodeId)

namespace World

variable {w : World Code Memory} {n : NodeId} {nodes all : List NodeId}

/-- What fills an element, where `shown` is what is shown of a node. -/
def filling (w : World Code Memory) (shown : NodeId → String) (n : NodeId) : String :=
  (w.node n).richContent.getD (String.join ((w.node n).children.map shown))

/-- An element has rich content or children, not both. -/
def Sole (w : World Code Memory) (n : NodeId) : Prop :=
  (w.node n).richContent = none ∨ (w.node n).children = []

def refill (w : World Code Memory) (n : NodeId) : Refill → World Code Memory
  | .html markup => w.mapNode n (·.setRichContent markup)
  | .text content => w.setText n content
  | .take => w.mapNode n (·.setChildren [])
  | .append children => w.appendChildren n children

/-- Changes one after the other, with children appended only while there is no rich content. -/
inductive Refills (n : NodeId) : World Code Memory → World Code Memory → Prop
  | refl {w : World Code Memory} : Refills n w w
  | step {w w' : World Code Memory} (r : Refill)
      (hrich : ∀ children, r = .append children → (w.node n).richContent = none)
      (hrest : Refills n (w.refill n r) w') : Refills n w w'

/-! ### What is shown of a tree -/

/-- In a tree, how deep one looks makes no difference to the text if it is deep enough. -/
theorem Lists.textWithin_eq (h : w.Lists nodes all) {depth depth' : Nat} (hdepth : all.length < depth)
    (hdepth' : all.length < depth') : nodes.map (w.textWithin depth') = nodes.map (w.textWithin depth) := by
  induction h generalizing depth depth' with
  | nil => rfl
  | @cons n rest below others _ _ hbelow hrest =>
    rw [List.length_cons, List.length_append] at hdepth hdepth'
    obtain ⟨depth, rfl⟩ : ∃ k, depth = k + 1 := ⟨depth - 1, by omega⟩
    obtain ⟨depth', rfl⟩ : ∃ k, depth' = k + 1 := ⟨depth' - 1, by omega⟩
    have hhead : w.textWithin (depth' + 1) n = w.textWithin (depth + 1) n := by
      have hchildren : (w.node n).children.map (w.textWithin depth')
          = (w.node n).children.map (w.textWithin depth) := hbelow (by omega) (by omega)
      rw [textWithin, textWithin]
      cases hnode : w.node n with
      | text content => rfl
      | element e =>
        rw [hnode] at hchildren
        cases hrich : e.richContent with
        | some html => simp only [hrich]
        | none =>
          simp only [hrich]
          exact congrArg String.join hchildren
    have htail : rest.map (w.textWithin (depth' + 1)) = rest.map (w.textWithin (depth + 1)) :=
      hrest (by omega) (by omega)
    rw [List.map_cons, List.map_cons, hhead, htail]

/-- The text of an element is the text of what fills it. -/
theorem textContent_eq_filling (hnode : (w.node n).isElement = true) (htree : w.Tree [n] (n :: nodes)) :
    w.textContent n = w.filling w.textContent n := by
  obtain ⟨hbelow, -, -⟩ := Engine.tree_children htree
  have hlt : nodes.length < w.nodes.size := htree.length_le
  have hchildren : (w.node n).children.map (w.textWithin w.nodes.size)
      = (w.node n).children.map w.textContent :=
    hbelow.lists.textWithin_eq (Nat.lt_succ_of_lt hlt) hlt
  cases hrow : w.node n with
  | text content =>
    rw [hrow] at hnode
    cases hnode
  | element e =>
    rw [filling, ← hchildren, hrow, textContent, textWithin, hrow]
    cases hrich : e.richContent with
    | some html => simp only [Node.richContent, hrich, Option.getD_some]
    | none => simp only [Node.richContent, hrich, Option.getD_none, Node.children]

/-- The markup of an element is written around what fills it if that is one thing only. -/
theorem Sole.html_eq_filling (h : w.Sole n) (hnode : (w.node n).isElement = true)
    (htree : w.Tree [n] (n :: nodes)) : w.html n = (w.node n).markup (w.filling w.html n) := by
  obtain ⟨hbelow, -, -⟩ := Engine.tree_children htree
  have hlt : nodes.length < w.nodes.size := htree.length_le
  have hchildren : (w.node n).children.map (w.htmlWithin w.nodes.size)
      = (w.node n).children.map w.html :=
    hbelow.lists.htmlWithin_eq (fun _ _ => Or.inl rfl) (Nat.lt_succ_of_lt hlt) hlt
  rw [html, htmlWithin_of_isElement hnode, filling, ← hchildren]
  refine congrArg (w.node n).markup ?_
  rcases h with hnone | hempty
  · rw [hnone, Option.getD_none]
    split
    · next hchildless =>
      rw [List.isEmpty_iff.mp hchildless]
      rfl
    · rfl
  · rw [hempty]
    rfl

/-! ### What changes keep -/

/-- Every change leaves an element with rich content or children, not both. -/
theorem sole_refill (w : World Code Memory) (n : NodeId) (r : Refill)
    (hrich : ∀ children, r = .append children → (w.node n).richContent = none) :
    (w.refill n r).Sole n := by
  cases r with
  | html markup =>
    rw [Sole, World.refill, node_mapNode, if_pos rfl]
    cases w.node n with
    | element e => exact Or.inr rfl
    | text content => exact Or.inl rfl
  | text content =>
    rw [Sole, World.refill]
    cases hrow : w.node n with
    | element e =>
      rw [node_setText_element w hrow, if_pos rfl]
      exact Or.inl rfl
    | text old =>
      rw [setText, hrow, node_mapNode, if_pos rfl]
      exact Or.inl rfl
  | take =>
    rw [Sole, World.refill, node_mapNode, if_pos rfl]
    cases w.node n with
    | element e => exact Or.inr rfl
    | text content => exact Or.inl rfl
  | append children =>
    have hnone := hrich children rfl
    rw [Sole, World.refill, appendChildren, node_mapNode, if_pos rfl]
    cases hrow : w.node n with
    | element e =>
      rw [hrow] at hnone
      exact Or.inl hnone
    | text content => exact Or.inl rfl

theorem Refills.sole {w' : World Code Memory} (h : Refills n w w') (hw : w.Sole n) : w'.Sole n := by
  induction h with
  | refl => exact hw
  | step r hrich _ inductionHypothesis => exact inductionHypothesis (sole_refill _ n r hrich)

/--
An element shows one content. However often its content is set, taken away and added to, if nothing is
appended to rich content, its text is the text of what fills it and its markup is written around what fills
it: its rich content if it has some, or else its children.
-/
theorem shows_one_content {w' : World Code Memory} (h : Refills n w w') (hw : w.Sole n)
    (hnode : (w'.node n).isElement = true) (htree : w'.Tree [n] (n :: nodes)) :
    w'.textContent n = w'.filling w'.textContent n ∧
      w'.html n = (w'.node n).markup (w'.filling w'.html n) :=
  ⟨textContent_eq_filling hnode htree, (h.sole hw).html_eq_filling hnode htree⟩

/-- A paragraph and nothing else. -/
def paragraph : World Unit Unit :=
  (addNode { memory := () } (.element { tag := "p" })).2

/-- Its content is set to rich content, which is all that it shows. -/
theorem shows_one_content_paragraph :
    let w := paragraph.refill ⟨0⟩ (.html "x")
    Refills ⟨0⟩ paragraph w ∧ paragraph.Sole ⟨0⟩ ∧ (w.node ⟨0⟩).isElement = true ∧ w.Tree [⟨0⟩] [⟨0⟩] ∧
      w.textContent ⟨0⟩ = w.filling w.textContent ⟨0⟩ ∧
      w.html ⟨0⟩ = (w.node ⟨0⟩).markup (w.filling w.html ⟨0⟩) := by
  have hrefills : Refills ⟨0⟩ paragraph (paragraph.refill ⟨0⟩ (.html "x")) := .step (.html "x") (by simp) .refl
  have hsole : paragraph.Sole ⟨0⟩ := Or.inl rfl
  have htree : (paragraph.refill ⟨0⟩ (.html "x")).Tree [⟨0⟩] [⟨0⟩] := by
    refine ⟨lists_leaves _ _ fun n hn => ?_, List.pairwise_singleton _ _, fun n hn => ?_⟩
    · obtain rfl := List.mem_singleton.mp hn
      rfl
    · obtain rfl := List.mem_singleton.mp hn
      decide
  exact ⟨hrefills, hsole, rfl, htree, shows_one_content hrefills hsole rfl htree⟩

end World

end ViewBinding
