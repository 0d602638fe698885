/-!
# Tables of things with identity

Things that are shared and change are rows of a table, and what refers to them holds a key. Keys are
numbers with a type of their own for each kind of thing, given out in order. A row that was never
written reads as the default, so that reading after writing needs no side condition.
-/

namespace ViewBinding

/-- Types whose values are numbers under another name. -/
class Key (κ : Type) where
  index : κ → Nat
  ofIndex : Nat → κ
  index_ofIndex : ∀ n, index (ofIndex n) = n
  ofIndex_index : ∀ k, ofIndex (index k) = k

theorem Key.index_inj {κ : Type} [Key κ] {j k : κ} : Key.index j = Key.index k ↔ j = k :=
  ⟨fun h => by rw [← Key.ofIndex_index j, h, Key.ofIndex_index], fun h => by rw [h]⟩

/-- Rows by key. -/
structure Table (κ α : Type) where
  rows : Array α := #[]
  deriving Repr

namespace Table

variable {κ α : Type} [Key κ] [Inhabited α]

instance : Inhabited (Table κ α) := ⟨{}⟩

def size (t : Table κ α) : Nat := t.rows.size

/-- Every key given out so far, in order. -/
def keys (t : Table κ α) : List κ :=
  (List.range t.size).map Key.ofIndex

def get (t : Table κ α) (k : κ) : α :=
  t.rows.getD (Key.index k) default

def put (t : Table κ α) (k : κ) (row : α) : Table κ α :=
  let i := Key.index k
  if i < t.rows.size then ⟨t.rows.setIfInBounds i row⟩
  else ⟨(t.rows ++ Array.replicate (i - t.rows.size) default).push row⟩

def modify (t : Table κ α) (k : κ) (f : α → α) : Table κ α :=
  t.put k (f (t.get k))

/-- The key that the next row gets. -/
def fresh (t : Table κ α) : κ :=
  Key.ofIndex t.size

def add (t : Table κ α) (row : α) : Table κ α :=
  ⟨t.rows.push row⟩

@[simp] theorem get_put_self (t : Table κ α) (k : κ) (row : α) : (t.put k row).get k = row := by
  simp only [get, put]
  split
  · next h => simp [h]
  · next h =>
    have e : (t.rows ++ Array.replicate (Key.index k - t.rows.size) (default : α)).size
        = Key.index k := by
      simp only [Array.size_append, Array.size_replicate]
      omega
    rw [Array.getD_eq_getD_getElem?, Array.getElem?_push, if_pos e.symm, Option.getD_some]

theorem get_put_of_ne (t : Table κ α) {j k : κ} (row : α) (h : j ≠ k) :
    (t.put k row).get j = t.get j := by
  have hi : Key.index j ≠ Key.index k := fun e => h (Key.index_inj.mp e)
  simp only [get, put, Array.getD_eq_getD_getElem?]
  split
  · rw [Array.getElem?_setIfInBounds_ne hi.symm]
  · simp only [Array.getElem?_push, Array.size_append, Array.size_replicate, Array.getElem?_append,
      Array.getElem?_replicate]
    split
    · omega
    · split
      · rfl
      · next hj =>
        rw [Array.getElem?_eq_none (by omega : t.rows.size ≤ Key.index j)]
        split <;> rfl

@[simp] theorem get_add_fresh (t : Table κ α) (row : α) : (t.add row).get t.fresh = row := by
  simp [get, add, fresh, size, Key.index_ofIndex]

theorem get_add_of_ne (t : Table κ α) {k : κ} (row : α) (h : k ≠ t.fresh) :
    (t.add row).get k = t.get k := by
  have hi : Key.index k ≠ t.rows.size := fun e => h (by rw [fresh, size, ← e, Key.ofIndex_index])
  simp [get, add, Array.getD_eq_getD_getElem?, Array.getElem?_push, hi]

end Table

end ViewBinding
