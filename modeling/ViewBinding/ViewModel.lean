import ViewBinding.Directive
import ViewBinding.Settings
import ViewBinding.Store.Entries
import ViewBinding.Watcher

/-!
# Bindings and view models

A binding ties a node and an expression to the watchers that keep the node current. A view model has
a data object, the root object that expressions start from, and the bindings of every node it bound.
-/

namespace ViewBinding

structure Binding where
  node : NodeId
  kind : DirectiveKind
  expression : String
  watchers : List WatcherId := []
  /-- Listeners of an inactive binding do nothing. -/
  active : Bool := true
  deriving Repr, Inhabited

/-- How a directive is carried out. -/
inductive Installer (Code : Type) where
  | model
  | on
  | render (updater : Updater)
  | custom (code : Code)

/-- The installer of every kind of directive that has one. -/
abbrev Registry (Code : Type) := Entries DirectiveKind (Installer Code)

/-- Every kind is carried out in the way of its name. -/
def Registry.standard {Code : Type} : Registry Code :=
  .ofList [(.model, .model), (.on, .on), (.html, .render .html), (.text, .render .text)]

structure ViewModel (Code : Type) where
  settings : Settings
  tracker : TrackerId
  data : ObjectId
  /-- Names data keys, methods and `$data`. -/
  root : ObjectId
  registry : Registry Code
  /-- The root of the tree in which selectors are looked up. -/
  document : Option NodeId
  /-- The node it was mounted on. -/
  mounted : Option NodeId := none
  bindings : Entries NodeId (List BindingId) := {}

instance {Code : Type} : Inhabited (ViewModel Code) :=
  ⟨⟨{}, default, default, default, {}, none, none, {}⟩⟩

/-- The number of bindings of all nodes. -/
def ViewModel.bindingCount {Code : Type} (vm : ViewModel Code) : Nat :=
  vm.bindings.values.flatten.length

/-- The node or selector that a view model is mounted on. -/
inductive Target where
  | node (id : NodeId)
  | selector (text : String)
  deriving Repr

/-- What a view model is made from. -/
structure Options (Code : Type) where
  data : Value
  methods : Entries String Code := {}
  computed : Entries String Code := {}
  settings : Settings := {}
  directives : List (DirectiveKind × Installer Code) := []
  document : Option NodeId := none
  target : Option Target := none

end ViewBinding
