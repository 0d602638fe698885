/-!
# Entries in the order of their first writing

An association from keys to values that remembers the order in which the keys came. Writing a key
that is present changes its value and moves nothing; a new key goes to the end. No key is present
twice.
-/

namespace ViewBinding

structure Entries (κ α : Type) where
  toList : List (κ × α)
  nodup : (toList.map Prod.fst).Nodup

namespace Entries

variable {κ α σ : Type}

def empty : Entries κ α := ⟨[], .nil⟩

instance : EmptyCollection (Entries κ α) := ⟨empty⟩

instance : Inhabited (Entries κ α) := ⟨empty⟩

def size (e : Entries κ α) : Nat := e.toList.length

def isEmpty (e : Entries κ α) : Bool := e.toList.isEmpty

def keys (e : Entries κ α) : List κ := e.toList.map Prod.fst

def values (e : Entries κ α) : List α := e.toList.map Prod.snd

/-! ### Changing values while a state is carried along -/

/-- Replaces the value of every pair in turn. -/
def thread (f : σ → α → α × σ) : List (κ × α) → σ → List (κ × α) × σ
  | [], s => ([], s)
  | (k, a) :: rest, s =>
    let (a, s) := f s a
    let (rest, s) := thread f rest s
    ((k, a) :: rest, s)

theorem thread_cons (f : σ → α → α × σ) (p : κ × α) (rest : List (κ × α)) (s : σ) :
    thread f (p :: rest) s =
      ((p.1, (f s p.2).1) :: (thread f rest (f s p.2).2).1, (thread f rest (f s p.2).2).2) :=
  rfl

@[simp] theorem keys_thread (f : σ → α → α × σ) (l : List (κ × α)) (s : σ) :
    (thread f l s).1.map Prod.fst = l.map Prod.fst := by
  induction l generalizing s with
  | nil => rfl
  | cons p rest ih =>
    obtain ⟨k, a⟩ := p
    simp only [thread, List.map_cons, ih]

/-- Replaces every value in turn, keeps the keys, and answers the state at the end. -/
def mapThread (f : σ → α → α × σ) (e : Entries κ α) (s : σ) : Entries κ α × σ :=
  let result := thread f e.toList s
  (⟨result.1, (keys_thread f e.toList s).symm ▸ e.nodup⟩, result.2)

/-! ### Single keys -/

variable [DecidableEq κ]

def find? (e : Entries κ α) (k : κ) : Option α :=
  (e.toList.find? (·.1 = k)).map Prod.snd

def contains (e : Entries κ α) (k : κ) : Bool :=
  (e.find? k).isSome

/-- Writes a key in a list of pairs. -/
def putPair (k : κ) (a : α) : List (κ × α) → List (κ × α)
  | [] => [(k, a)]
  | (j, b) :: rest => if j = k then (k, a) :: rest else (j, b) :: putPair k a rest

/-- A present key keeps its place and a new one goes to the end. -/
theorem keys_putPair (k : κ) (a : α) (l : List (κ × α)) :
    (putPair k a l).map Prod.fst =
      if k ∈ l.map Prod.fst then l.map Prod.fst else l.map Prod.fst ++ [k] := by
  induction l with
  | nil => simp [putPair]
  | cons p rest ih =>
    obtain ⟨j, b⟩ := p
    by_cases h : j = k
    · simp [putPair, h]
    · simp only [putPair, h, if_false, List.map_cons, ih, List.mem_cons, Ne.symm h, false_or]
      split <;> simp [*]

theorem nodup_putPair (k : κ) (a : α) (l : List (κ × α)) (h : (l.map Prod.fst).Nodup) :
    ((putPair k a l).map Prod.fst).Nodup := by
  rw [keys_putPair]
  split
  · exact h
  · next hk =>
    rw [List.nodup_append]
    refine ⟨h, by simp, ?_⟩
    intro x hx y hy
    rw [List.mem_singleton] at hy
    subst hy
    rintro rfl
    exact hk hx

def put (e : Entries κ α) (k : κ) (a : α) : Entries κ α :=
  ⟨putPair k a e.toList, nodup_putPair k a e.toList e.nodup⟩

def erase (e : Entries κ α) (k : κ) : Entries κ α :=
  ⟨e.toList.filter (·.1 ≠ k), (List.filter_sublist.map Prod.fst).nodup e.nodup⟩

/-- Writes pairs one after the other. -/
def ofList (pairs : List (κ × α)) : Entries κ α :=
  pairs.foldl (fun e (k, a) => e.put k a) empty

theorem keys_put (e : Entries κ α) (k : κ) (a : α) :
    (e.put k a).keys = if k ∈ e.keys then e.keys else e.keys ++ [k] :=
  keys_putPair k a e.toList

@[simp] theorem find?_put_self (e : Entries κ α) (k : κ) (a : α) : (e.put k a).find? k = some a := by
  obtain ⟨pairs, _⟩ := e
  simp only [find?, put]
  induction pairs with
  | nil => simp [putPair]
  | cons p rest ih =>
    obtain ⟨j, b⟩ := p
    by_cases h : j = k <;> simp_all [putPair]

theorem find?_put_of_ne (e : Entries κ α) {j k : κ} (a : α) (h : j ≠ k) :
    (e.put k a).find? j = e.find? j := by
  obtain ⟨pairs, _⟩ := e
  simp only [find?, put]
  induction pairs with
  | nil => simp [putPair, Ne.symm h]
  | cons p rest ih =>
    obtain ⟨i, b⟩ := p
    by_cases hk : i = k
    · subst hk
      simp [putPair, Ne.symm h]
    · by_cases hj : i = j <;> simp_all [putPair]

/-- A key that was taken out is absent. -/
@[simp] theorem find?_erase_self (e : Entries κ α) (k : κ) : (e.erase k).find? k = none := by
  simp [find?, erase]

theorem find?_erase_of_ne (e : Entries κ α) {j k : κ} (h : j ≠ k) :
    (e.erase k).find? j = e.find? j := by
  obtain ⟨pairs, _⟩ := e
  simp only [find?, erase]
  induction pairs with
  | nil => rfl
  | cons p rest ih =>
    obtain ⟨i, b⟩ := p
    by_cases hk : i = k
    · subst hk
      simp_all [Ne.symm h]
    · by_cases hj : i = j <;> simp_all

/-- A pair is found under its key. -/
theorem find?_eq_some_iff (e : Entries κ α) (k : κ) (a : α) :
    e.find? k = some a ↔ (k, a) ∈ e.toList := by
  obtain ⟨pairs, hnodup⟩ := e
  simp only [find?]
  induction pairs with
  | nil => simp
  | cons p rest ih =>
    obtain ⟨j, b⟩ := p
    rw [List.map_cons, List.nodup_cons] at hnodup
    by_cases h : j = k
    · subst h
      have hrest : (j, a) ∉ rest := fun hmem => hnodup.1 (List.mem_map.mpr ⟨(j, a), hmem, rfl⟩)
      simp [hrest, eq_comm]
    · simp [h, Ne.symm h, ih hnodup.2]

theorem contains_iff_mem_keys (e : Entries κ α) (k : κ) : e.contains k ↔ k ∈ e.keys := by
  simp [contains, find?, keys]

end Entries

end ViewBinding
