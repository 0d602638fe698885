import ViewBinding.Store.Scan
import ViewBinding.World

/-!
# The host tree

What a node shows, how its content is set, and which node of a tree a selector means. A tree is no
deeper than there are nodes, which bounds the walks that show it.
-/

namespace ViewBinding.World

variable {Code Memory : Type} [Inhabited Code]

def nodeName (w : World Code Memory) (id : NodeId) : NodeName :=
  ⟨id, (w.node id).name⟩

/-- The text of a node down to a depth: rich content if it was set, else that of the children. -/
def textWithin (w : World Code Memory) : Nat → NodeId → String
  | 0, _ => ""
  | depth + 1, id =>
    match w.node id with
    | .text content => content
    | .element e =>
      match e.richContent with
      | some html => html
      | none => String.join (e.children.map (w.textWithin depth))

def textContent (w : World Code Memory) (id : NodeId) : String :=
  w.textWithin (w.nodes.size + 1) id

/-- The markup of a node down to a depth. -/
def htmlWithin (w : World Code Memory) : Nat → NodeId → String
  | 0, _ => ""
  | depth + 1, id =>
    match w.node id with
    | .text content => content
    | .element e =>
      let attributes := e.attributes.toList.map fun (name, value) => s!" {name}=\"{value}\""
      let content :=
        if e.children.isEmpty then w.textContent id
        else String.join (e.children.map (w.htmlWithin depth))
      s!"<{e.tag}{String.join attributes}>{content}</{e.tag}>"

/-- A node and what is below it, written as markup. Nothing is escaped. -/
def html (w : World Code Memory) (id : NodeId) : String :=
  w.htmlWithin (w.nodes.size + 1) id

/-- A single new text node replaces the children and any rich content of an element. -/
def setText (w : World Code Memory) (id : NodeId) (content : String) : World Code Memory :=
  match w.node id with
  | .text _ => w.mapNode id fun _ => .text content
  | .element _ =>
    let (child, w) := w.addNode (.text content)
    w.mapNode id fun
      | .element e => .element { e with children := [child], richContent := none }
      | .text _ => .text content

/-- Shows a value on a node. -/
def display (w : World Code Memory) (updater : Updater) (id : NodeId) (value : Value) :
    World Code Memory :=
  match updater with
  | .value => w.mapNode id (·.setValue value)
  | .html => w.mapNode id (·.setRichContent value.text)
  | .text => w.setText id value.text

def appendChildren (w : World Code Memory) (id : NodeId) (children : List NodeId) :
    World Code Memory :=
  w.mapNode id fun node => node.setChildren (node.children ++ children)

/-- Whether texts are equal up to the case of ASCII letters. -/
def sameTag (a b : String) : Bool :=
  a.toList.map Char.toLower == b.toList.map Char.toLower

/-- A selector is `#` and an identifier, which an attribute has to equal, or the tag of an element. -/
def matchesSelector (w : World Code Memory) (selector : String) (id : NodeId) : Bool :=
  match Text.after? ['#'] selector.toList with
  | some identifier =>
    (w.node id).attributes.any fun (name, value) =>
      name == "id" && value == String.ofList identifier
  | none => (w.node id).isElement && sameTag (w.node id).name selector

/-- Searches a tree for a node that a selector matches. -/
def search (w : World Code Memory) (document : NodeId) (selector : String) : Option (Option NodeId) :=
  scan (fun id => (w.node id).children) (w.matchesSelector selector) [document]

/-- The first node of a tree that a selector matches. -/
def query (w : World Code Memory) (document : NodeId) (selector : String) : Option NodeId :=
  (w.search document selector).join

/-- The node that a target means. -/
def locate (w : World Code Memory) (document : Option NodeId) : Target → Except Error NodeId
  | .node id => .ok id
  | .selector selector =>
    match document.bind (w.query · selector) with
    | some id => .ok id
    | none => .error (.targetNotFound selector)

end ViewBinding.World
