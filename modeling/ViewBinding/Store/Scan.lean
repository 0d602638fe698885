/-!
# Searching with a stack

`scan` goes through a stack from the top until it meets something that is wanted or the stack is empty. What follows from
a thing that is not wanted takes its place on the stack, the last of it lowest.
-/

namespace ViewBinding

variable {κ : Type}

/-- Puts things on a stack one after the other. -/
def pile (stack : List κ) : List κ → List κ
  | [] => stack
  | k :: rest => pile (k :: stack) rest

/-- What the thing on top of the stack leads to: the end of the search, or another stack to go on with. -/
def scanTop (next : κ → List κ) (wanted : κ → Bool) : List κ → Option (List κ ⊕ Option κ)
  | [] => some (.inr none)
  | k :: stack => some (if wanted k then .inr (some k) else .inl (pile stack (next k).reverse))

/-- The first wanted thing that is met. -/
def scan (next : κ → List κ) (wanted : κ → Bool) (stack : List κ) : Option (Option κ) :=
  repeatM (scanTop next wanted) stack

/-- What was put on a stack last is on top. -/
@[simp] theorem pile_eq_append (stack things : List κ) : pile stack things = things.reverse ++ stack := by
  induction things generalizing stack with
  | nil => rfl
  | cons k rest ih => simp [pile, ih]

variable (next : κ → List κ) (wanted : κ → Bool)

@[simp] theorem scan_nil : scan next wanted [] = some none := by
  rw [scan, repeatM_eq_of_monadTail]
  simp [repeatM.body, scanTop]

theorem scan_cons (k : κ) (stack : List κ) :
    scan next wanted (k :: stack) = if wanted k then some (some k) else scan next wanted (next k ++ stack) := by
  rw [scan, repeatM_eq_of_monadTail]
  cases hwanted : wanted k <;> simp [repeatM.body, scanTop, hwanted, scan]

end ViewBinding
