import ViewBinding.Store.Table

/-!
# Identities

One type of key for each kind of thing that is shared: objects, arrays and functions among the values,
the parts of change propagation, the nodes of a host tree, and what ties the two together.
-/

namespace ViewBinding

structure ObjectId where
  index : Nat
  deriving DecidableEq, Repr, Inhabited

structure ArrayId where
  index : Nat
  deriving DecidableEq, Repr, Inhabited

structure FunctionId where
  index : Nat
  deriving DecidableEq, Repr, Inhabited

structure SourceId where
  index : Nat
  deriving DecidableEq, Repr, Inhabited

structure WatcherId where
  index : Nat
  deriving DecidableEq, Repr, Inhabited

structure ComputedId where
  index : Nat
  deriving DecidableEq, Repr, Inhabited

structure ProbeId where
  index : Nat
  deriving DecidableEq, Repr, Inhabited

structure TrackerId where
  index : Nat
  deriving DecidableEq, Repr, Inhabited

structure NodeId where
  index : Nat
  deriving DecidableEq, Repr, Inhabited

structure BindingId where
  index : Nat
  deriving DecidableEq, Repr, Inhabited

structure ViewModelId where
  index : Nat
  deriving DecidableEq, Repr, Inhabited

instance : Key ObjectId := ⟨ObjectId.index, ObjectId.mk, fun _ => rfl, fun _ => rfl⟩
instance : Key ArrayId := ⟨ArrayId.index, ArrayId.mk, fun _ => rfl, fun _ => rfl⟩
instance : Key FunctionId := ⟨FunctionId.index, FunctionId.mk, fun _ => rfl, fun _ => rfl⟩
instance : Key SourceId := ⟨SourceId.index, SourceId.mk, fun _ => rfl, fun _ => rfl⟩
instance : Key WatcherId := ⟨WatcherId.index, WatcherId.mk, fun _ => rfl, fun _ => rfl⟩
instance : Key ComputedId := ⟨ComputedId.index, ComputedId.mk, fun _ => rfl, fun _ => rfl⟩
instance : Key ProbeId := ⟨ProbeId.index, ProbeId.mk, fun _ => rfl, fun _ => rfl⟩
instance : Key TrackerId := ⟨TrackerId.index, TrackerId.mk, fun _ => rfl, fun _ => rfl⟩
instance : Key NodeId := ⟨NodeId.index, NodeId.mk, fun _ => rfl, fun _ => rfl⟩
instance : Key BindingId := ⟨BindingId.index, BindingId.mk, fun _ => rfl, fun _ => rfl⟩
instance : Key ViewModelId := ⟨ViewModelId.index, ViewModelId.mk, fun _ => rfl, fun _ => rfl⟩

end ViewBinding
