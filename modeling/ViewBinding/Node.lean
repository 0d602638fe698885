import ViewBinding.Store.Entries
import ViewBinding.Path
import ViewBinding.Value

/-!
# Nodes of the host tree

An element has attributes, children, a form value, and listeners by the name of the event. Rich
content that was set takes the place of the children. A text node has its text and nothing else.
-/

namespace ViewBinding

/-- What happened and where. -/
structure Event where
  name : String
  target : NodeId
  deriving DecidableEq, Repr, Inhabited

/-- What is done about an event. -/
inductive Listener (Code : Type) where
  /-- Writes the form value of the target to a path, while the binding is active. -/
  | writeBack (owner : ViewModelId) (binding : BindingId) (path : Path)
  /-- Calls a method, while the binding is active. -/
  | invoke (owner : ViewModelId) (binding : BindingId) (method : String)
  | run (code : Code)

structure Element (Code : Type) where
  tag : String
  attributes : Entries String String := {}
  children : List NodeId := []
  value : Value := .undefined
  richContent : Option String := none
  listeners : Entries String (List (Listener Code)) := {}

inductive Node (Code : Type) where
  | element (element : Element Code)
  | text (content : String)

namespace Node

variable {Code : Type}

instance : Inhabited (Node Code) := ⟨.text ""⟩

def name : Node Code → String
  | element e => e.tag
  | text _ => "#text"

def isElement : Node Code → Bool
  | element _ => true
  | text _ => false

def children : Node Code → List NodeId
  | element e => e.children
  | text _ => []

def attributes : Node Code → List (String × String)
  | element e => e.attributes.toList
  | text _ => []

/-- The form value; a text node has none. -/
def value : Node Code → Value
  | element e => e.value
  | text _ => .undefined

def setValue (value : Value) : Node Code → Node Code
  | element e => element { e with value }
  | text content => text content

/-- Rich content replaces the children. In a text node it is the text. -/
def setRichContent (html : String) : Node Code → Node Code
  | element e => element { e with children := [], richContent := some html }
  | text _ => text html

def setChildren (children : List NodeId) : Node Code → Node Code
  | element e => element { e with children }
  | text content => text content

/-- Adds a listener after those for the same event. -/
def addListener (event : String) (listener : Listener Code) : Node Code → Node Code
  | element e =>
    let before := (e.listeners.find? event).getD []
    element { e with listeners := e.listeners.put event (before ++ [listener]) }
  | text content => text content

def listeners (event : String) : Node Code → List (Listener Code)
  | element e => (e.listeners.find? event).getD []
  | text _ => []

end Node

end ViewBinding
