import ViewBinding.Proofs.Visiting

/-!
# What is seen of a tree

Of a node all that is seen are its tag, its attributes, and its children or its rich content. A tree looks
the same as long as the same is seen of its nodes, and it makes no difference which node it is that holds
the text of an element.
-/

namespace ViewBinding

open Engine

variable {Code Memory : Type} [Inhabited Code]

/-! ### What is seen of a node -/

namespace Node

variable {Code : Type}

/-- A node without its form value and its listeners, of which nothing is seen. -/
def bare : Node Code → Node Code
  | element e => element { e with value := .undefined, listeners := {} }
  | text content => text content

def richContent : Node Code → Option String
  | element e => e.richContent
  | text _ => none

/-- An element written around its content. -/
def markup (x : Node Code) (content : String) : String :=
  let attributes := x.attributes.map fun (name, value) => s!" {name}=\"{value}\""
  s!"<{x.name}{String.join attributes}>{content}</{x.name}>"

theorem markup_congr {x y : Node Code} (hname : x.name = y.name)
    (hattributes : x.attributes = y.attributes) (content : String) :
    x.markup content = y.markup content := by
  rw [markup, markup, hname, hattributes]

theorem bare_setValue (x : Node Code) (value : Value) : (x.setValue value).bare = x.bare := by
  cases x <;> rfl

theorem bare_addListener (x : Node Code) (event : String) (listener : Listener Code) :
    (x.addListener event listener).bare = x.bare := by
  cases x <;> rfl

variable {x y : Node Code}

theorem children_eq_of_bare (h : x.bare = y.bare) : x.children = y.children := by
  cases x <;> cases y <;> simp_all [bare, children]

theorem richContent_eq_of_bare (h : x.bare = y.bare) : x.richContent = y.richContent := by
  cases x <;> cases y <;> simp_all [bare, richContent]

theorem isElement_eq_of_bare (h : x.bare = y.bare) : x.isElement = y.isElement := by
  cases x <;> cases y <;> simp_all [bare, isElement]

theorem name_eq_of_bare (h : x.bare = y.bare) : x.name = y.name := by
  cases x <;> cases y <;> simp_all [bare, name]

theorem attributes_eq_of_bare (h : x.bare = y.bare) : x.attributes = y.attributes := by
  cases x <;> cases y <;> simp_all [bare, attributes]

theorem eq_text_of_bare {content : String} (h : x.bare = .text content) : x = .text content := by
  cases x <;> simp_all [bare]

end Node

/-- What a directive puts in place of the children of its element. -/
inductive Content where
  | text (content : String)
  | html (content : String)

/-- What is seen of a content. -/
def Content.shown : Content → String
  | .text content => content
  | .html content => content

/-- The content that showing a value makes, if it makes one. -/
def Content.of? : Option (Updater × Value) → Option Content
  | some (.text, value) => some (.text value.text)
  | some (.html, value) => some (.html value.text)
  | _ => none

namespace World

section Looks

omit [Inhabited Code]

variable {w w₁ w₂ : World Code Memory} {n : NodeId}

/-- The same is seen of all nodes. -/
def Looks (w w' : World Code Memory) : Prop :=
  ∀ j, (w'.node j).bare = (w.node j).bare

/-- An element has a content: a single text, or rich content and no children. -/
def Has (w : World Code Memory) (n : NodeId) : Content → Prop
  | .text content => ∃ child, (w.node n).children = [child] ∧ (w.node n).richContent = none ∧
      w.node child = .text content
  | .html content => (w.node n).children = [] ∧ (w.node n).richContent = some content

/-- A node got a content, or if there is none, all that is seen is the same. -/
structure Dressed (n : NodeId) (content? : Option Content) (w w' : World Code Memory) : Prop where
  isElement : (w'.node n).isElement = (w.node n).isElement
  name : (w'.node n).name = (w.node n).name
  has : ∀ content, content? = some content → w'.Has n content
  looks : content? = none → w.Looks w'

theorem Looks.refl (w : World Code Memory) : w.Looks w :=
  fun _ => rfl

theorem Looks.trans (h : w.Looks w₁) (h' : w₁.Looks w₂) : w.Looks w₂ :=
  fun j => (h' j).trans (h j)

theorem looks_of_nodes (h : w₁.nodes = w.nodes) : w.Looks w₁ := by
  intro j
  rw [node, h, node]

theorem Looks.has {content : Content} (h : w.Looks w₁) (hw : w.Has n content) : w₁.Has n content := by
  have hchildren := Node.children_eq_of_bare (h n)
  have hrich := Node.richContent_eq_of_bare (h n)
  cases content with
  | text content =>
    obtain ⟨child, hchild, hnone, htext⟩ := hw
    refine ⟨child, hchildren.trans hchild, hrich.trans hnone, Node.eq_text_of_bare ?_⟩
    rw [h child, htext]
    rfl
  | html content => exact ⟨hchildren.trans hw.1, hrich.trans hw.2⟩

theorem looks_addListener (w : World Code Memory) (n : NodeId) (event : String)
    (listener : Listener Code) : w.Looks (w.mapNode n (·.addListener event listener)) := by
  intro j
  rw [node_mapNode]
  split
  · next heq => rw [Node.bare_addListener, heq]
  · rfl

/-- If nothing else is seen, nothing was put in place of the children. -/
theorem Looks.dressed (h : w.Looks w₁) (n : NodeId) : Dressed n none w w₁ :=
  ⟨Node.isElement_eq_of_bare (h n), Node.name_eq_of_bare (h n), fun _ h => (by cases h), fun _ => h⟩

/-- Of several contents one after the other the last one stays. -/
theorem Dressed.trans {content? content?' : Option Content} (h : Dressed n content? w w₁)
    (h' : Dressed n content?' w₁ w₂) : Dressed n (content?'.or content?) w w₂ := by
  refine ⟨h'.isElement.trans h.isElement, h'.name.trans h.name, fun content hcontent => ?_,
    fun hnone => ?_⟩
  · cases content?' with
    | some later => exact h'.has content hcontent
    | none => exact (h'.looks rfl).has (h.has content hcontent)
  · rw [Option.or_eq_none_iff] at hnone
    exact (h.looks hnone.2).trans (h'.looks hnone.1)

theorem Dressed.then_looks {content? : Option Content} (h : Dressed n content? w w₁)
    (h' : w₁.Looks w₂) : Dressed n content? w w₂ :=
  h.trans (h'.dressed n)

/-- Only the nodes matter. -/
theorem Dressed.of_nodes {content? : Option Content} {w₃ : World Code Memory}
    (h : Dressed n content? w w₁) (hbefore : w₂.nodes = w.nodes) (hafter : w₃.nodes = w₁.nodes) :
    Dressed n content? w₂ w₃ := by
  have hfirst := (looks_of_nodes hbefore.symm).dressed n
  rw [← Option.or_none (o := content?)]
  exact (hfirst.trans h).then_looks (looks_of_nodes hafter)

/-- Showing a value on an element gives it the content that the value makes. -/
theorem dressed_display (w : World Code Memory) (updater : Updater) (value : Value)
    (helement : (w.node n).isElement = true) :
    Dressed n (Content.of? (some (updater, value))) w (w.display updater n value) := by
  cases hnode : w.node n with
  | text content =>
    rw [hnode] at helement
    cases helement
  | element e =>
    have hlt : n.index < w.nodes.size := Nat.lt_of_not_le fun hle => by
      rw [isElement_of_size_le hle] at helement
      cases helement
    have hhosts := hosts_display w updater n value
    cases updater with
    | value =>
      refine Looks.dressed (fun j => ?_) n
      rw [display, node_mapNode]
      split
      · next heq => rw [Node.bare_setValue, heq]
      · rfl
    | html =>
      have hself : (w.display .html n value).node n
          = .element { e with children := [], richContent := some value.text } := by
        rw [display, node_mapNode, if_pos rfl, hnode]
        rfl
      refine ⟨hhosts.isElement n hlt, hhosts.name n hlt, fun content hcontent => ?_,
        fun h => (by cases h)⟩
      cases hcontent
      exact ⟨congrArg Node.children hself, congrArg Node.richContent hself⟩
    | text =>
      have hrow := node_setText_element w hnode value.text
      have hself := (hrow n).trans (if_pos rfl)
      have hne : w.nodes.fresh ≠ n := by
        rintro rfl
        exact Nat.lt_irrefl _ hlt
      refine ⟨hhosts.isElement n hlt, hhosts.name n hlt, fun content hcontent => ?_,
        fun h => (by cases h)⟩
      cases hcontent
      refine ⟨w.nodes.fresh, congrArg Node.children hself, congrArg Node.richContent hself, ?_⟩
      exact (hrow w.nodes.fresh).trans ((if_neg hne).trans (if_pos rfl))

/-- What is shown on a node depends on the nodes alone. -/
theorem nodes_display_congr (h : w₁.nodes = w.nodes) (updater : Updater) (n : NodeId) (value : Value) :
    (w₁.display updater n value).nodes = (w.display updater n value).nodes := by
  cases updater with
  | value => exact congrArg (·.modify n (·.setValue value)) h
  | html => exact congrArg (·.modify n (·.setRichContent value.text)) h
  | text =>
    rw [display, display, setText, setText, node, h, node]
    cases w.nodes.get n with
    | text content => exact congrArg (·.modify n fun _ => .text value.text) h
    | element e =>
      simp only [addNode, mapNode, h]

end Looks

/-! ### Markup -/

section Markup

omit [Inhabited Code]

variable {w w₁ : World Code Memory} {n : NodeId} {nodes all : List NodeId}

theorem htmlWithin_element {e : Element Code} (h : w.node n = .element e) (depth : Nat) :
    w.htmlWithin (depth + 1) n = (Node.element e).markup (
      if e.children.isEmpty then w.textContent n
      else String.join (e.children.map (w.htmlWithin depth))) := by
  simp only [htmlWithin, h, Node.markup, Node.name, Node.attributes]

/-- An element is written as its tag and attributes around its children or its rich content. -/
theorem htmlWithin_of_isElement (h : (w.node n).isElement = true) (depth : Nat) :
    w.htmlWithin (depth + 1) n = (w.node n).markup (
      if (w.node n).children.isEmpty then (w.node n).richContent.getD ""
      else String.join ((w.node n).children.map (w.htmlWithin depth))) := by
  cases hrow : w.node n with
  | text content =>
    rw [hrow] at h
    cases h
  | element e =>
    rw [htmlWithin_element hrow]
    refine congrArg (Node.element e).markup (ite_congr rfl (fun hnone => ?_) fun _ => rfl)
    rw [textContent, textWithin, hrow]
    cases hrich : e.richContent with
    | none =>
      have hchildren : e.children = [] := List.isEmpty_iff.mp hnone
      simp only [Node.richContent, hrich, hchildren]
      rfl
    | some html => simp only [Node.richContent, hrich, Option.getD_some]

theorem htmlWithin_of_text {content : String} (h : w.node n = .text content) (depth : Nat) :
    w.htmlWithin (depth + 1) n = content := by
  rw [htmlWithin, h]

/-- An element that has a content is written with it. -/
theorem htmlWithin_of_has (h : (w.node n).isElement = true) {content : Content} (hw : w.Has n content)
    {depth : Nat} (hdepth : 1 < depth) : w.htmlWithin depth n = (w.node n).markup content.shown := by
  obtain ⟨depth, rfl⟩ : ∃ k, depth = k + 2 := ⟨depth - 2, by omega⟩
  rw [htmlWithin_of_isElement h]
  cases content with
  | text content =>
    obtain ⟨child, hchild, -, htext⟩ := hw
    rw [hchild, List.map_singleton, htmlWithin_of_text htext]
    have hjoin : String.join [content] = content := by simp [String.join]
    exact congrArg (w.node n).markup hjoin
  | html content =>
    rw [hw.1, hw.2]
    rfl

/-- A node is seen alike in two worlds: in itself, or as an element with one and the same content. -/
def SeenAlike (w w' : World Code Memory) (n : NodeId) : Prop :=
  (w'.node n).bare = (w.node n).bare ∨
    ((w.node n).isElement = true ∧ (w'.node n).isElement = true ∧ (w'.node n).name = (w.node n).name ∧
      (w'.node n).attributes = (w.node n).attributes ∧ ∃ content, w.Has n content ∧ w'.Has n content)

/-- Where the same is seen of a node, it is written alike if what is below it is. -/
theorem htmlWithin_congr (h : (w₁.node n).bare = (w.node n).bare) {depth depth' : Nat}
    (hbelow : (w.node n).children.map (w₁.htmlWithin depth')
      = (w.node n).children.map (w.htmlWithin depth)) :
    w₁.htmlWithin (depth' + 1) n = w.htmlWithin (depth + 1) n := by
  cases hrow : w.node n with
  | text content =>
    rw [htmlWithin_of_text hrow]
    refine htmlWithin_of_text (Node.eq_text_of_bare ?_) depth'
    rw [h, hrow]
    rfl
  | element e =>
    have helement : (w.node n).isElement = true := by rw [hrow]; rfl
    have hsame := Node.isElement_eq_of_bare h
    rw [htmlWithin_of_isElement helement, htmlWithin_of_isElement (hsame.trans helement),
      Node.markup_congr (Node.name_eq_of_bare h) (Node.attributes_eq_of_bare h),
      Node.children_eq_of_bare h, Node.richContent_eq_of_bare h, hbelow]

/-- Trees whose nodes are seen alike are written alike. -/
theorem Lists.htmlWithin_eq (h : w.Lists nodes all) (halike : ∀ n ∈ all, SeenAlike w w₁ n)
    {depth depth' : Nat} (hdepth : all.length < depth) (hdepth' : all.length < depth') :
    nodes.map (w₁.htmlWithin depth') = nodes.map (w.htmlWithin depth) := by
  induction h generalizing depth depth' with
  | nil => simp only [List.map_nil]
  | @cons n rest below others _ _ hbelow hrest =>
    rw [List.length_cons, List.length_append] at hdepth hdepth'
    have hothers : ∀ m ∈ others, SeenAlike w w₁ m := fun m hm =>
      halike m (List.mem_cons_of_mem n (List.mem_append_right below hm))
    have htail : rest.map (w₁.htmlWithin depth') = rest.map (w.htmlWithin depth) :=
      hrest hothers (by omega) (by omega)
    rw [List.map_cons, List.map_cons, htail]
    refine congrArg (· :: _) ?_
    obtain hbare | ⟨helement, helement₁, hname, hattributes, content, hcontent, hcontent₁⟩ :=
      halike n List.mem_cons_self
    · obtain ⟨depth, rfl⟩ : ∃ k, depth = k + 1 := ⟨depth - 1, by omega⟩
      obtain ⟨depth', rfl⟩ : ∃ k, depth' = k + 1 := ⟨depth' - 1, by omega⟩
      exact htmlWithin_congr hbare (hbelow (fun m hm => halike m (List.mem_cons_of_mem n
        (List.mem_append_left others hm))) (by omega) (by omega))
    · rw [htmlWithin_of_has helement hcontent (by omega),
        htmlWithin_of_has helement₁ hcontent₁ (by omega), Node.markup_congr hname hattributes]

end Markup

end World

end ViewBinding
