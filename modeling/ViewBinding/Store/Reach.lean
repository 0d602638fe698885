/-!
# What can be reached

`explore` visits what is reachable along `next`, each thing once and depth first, the things that
`next` names in their order. No chain of different things goes through more of the members of `all`
than there are, which bounds the search if nothing follows from anything else.
-/

namespace ViewBinding

variable {κ : Type}

/-- Fewer members have the stronger property if one has the weaker property only. -/
theorem countP_lt_countP {p q : κ → Bool} {k : κ} {l : List κ} (hpq : ∀ x, q x → p x) (hk : k ∈ l)
    (hp : p k) (hq : ¬ q k) : l.countP q < l.countP p := by
  induction l with
  | nil => cases hk
  | cons a rest ih =>
    have hle : rest.countP q ≤ rest.countP p := List.countP_mono_left fun x _ => hpq x
    rcases List.mem_cons.mp hk with rfl | hmem
    · simp only [List.countP_cons, hp, hq, if_true, Bool.false_eq_true, if_false]
      omega
    · have hlt := ih hmem
      have ha : (if q a = true then 1 else 0) ≤ if p a = true then 1 else 0 := by
        have := hpq a
        split <;> split <;> simp_all
      simp only [List.countP_cons]
      omega

variable [DecidableEq κ]

/-- Visits a thing and what follows from it down to a depth, after `seen` has been visited. -/
def visit (next : κ → List κ) : (depth : Nat) → (seen : List κ) → κ → List κ
  | 0, seen, k => if k ∈ seen then seen else seen ++ [k]
  | depth + 1, seen, k =>
    if k ∈ seen then seen else (next k).foldl (visit next depth) (seen ++ [k])

/-- Visits `todo` and what follows from it, where only from the members of `all` something follows. -/
def explore (next : κ → List κ) (all todo : List κ) : List κ :=
  todo.foldl (visit next all.length) []

section Visit

variable {next : κ → List κ} {all seen l : List κ} {k : κ} {depth : Nat}

omit [DecidableEq κ] in
theorem mem_foldl_of_seen {f : List κ → κ → List κ} (hf : ∀ seen k, ∀ j ∈ seen, j ∈ f seen k) {j : κ}
    (h : j ∈ seen) : j ∈ l.foldl f seen := by
  induction l generalizing seen with
  | nil => exact h
  | cons k rest ih => exact ih (hf seen k j h)

omit [DecidableEq κ] in
theorem mem_foldl_of_mem {f : List κ → κ → List κ} (hf : ∀ seen k, ∀ j ∈ seen, j ∈ f seen k)
    (hself : ∀ seen k, k ∈ f seen k) (h : k ∈ l) : k ∈ l.foldl f seen := by
  induction l generalizing seen with
  | nil => cases h
  | cons first rest ih =>
    rw [List.foldl_cons]
    rcases List.mem_cons.mp h with rfl | hmem
    · exact mem_foldl_of_seen hf (hself seen k)
    · exact ih hmem

/-- What was visited stays so. -/
theorem mem_visit_of_seen (seen : List κ) (k : κ) {j : κ} (h : j ∈ seen) : j ∈ visit next depth seen k := by
  induction depth generalizing seen k j with
  | zero =>
    rw [visit]
    split
    · exact h
    · exact List.mem_append_left _ h
  | succ depth ih =>
    rw [visit]
    split
    · exact h
    · exact mem_foldl_of_seen (fun seen k _ h => ih seen k h) (List.mem_append_left _ h)

theorem mem_visit_self (seen : List κ) (k : κ) : k ∈ visit next depth seen k := by
  have hself : k ∈ seen ++ [k] := List.mem_append_right _ (List.mem_singleton_self k)
  cases depth with
  | zero =>
    rw [visit]
    split
    · assumption
    · exact hself
  | succ depth =>
    rw [visit]
    split
    · assumption
    · exact mem_foldl_of_seen (fun seen k _ h => mem_visit_of_seen seen k h) hself

/-- A member that is visited for the first time leaves one fewer to visit. -/
theorem countP_append_lt (hk : k ∈ all) (hnew : k ∉ seen) :
    all.countP (· ∉ seen ++ [k]) < all.countP (· ∉ seen) := by
  apply countP_lt_countP _ hk
  · simpa using hnew
  · simp
  · simp only [decide_eq_true_eq]
    exact fun x hx hseen => hx (List.mem_append_left _ hseen)

/-- Visiting leaves no more members to visit than there were. -/
theorem countP_visit_le (seen : List κ) (k : κ) :
    all.countP (· ∉ visit next depth seen k) ≤ all.countP (· ∉ seen) := by
  apply List.countP_mono_left
  intro x _
  simp only [decide_eq_true_eq]
  exact fun hx hseen => hx (mem_visit_of_seen seen k hseen)

/-- A step after which everything newly visited has been followed leaves no loose ends in a row. -/
theorem closed_foldl {f : List κ → κ → List κ} (room : List κ → Prop)
    (hf : ∀ seen k, ∀ j ∈ seen, j ∈ f seen k) (hroom : ∀ seen k, room seen → room (f seen k))
    (hclosed : ∀ seen k, room seen → ∀ x ∈ f seen k, x ∉ seen → ∀ j ∈ next x, j ∈ f seen k)
    (hseen : room seen) : ∀ x ∈ l.foldl f seen, x ∉ seen → ∀ j ∈ next x, j ∈ l.foldl f seen := by
  induction l generalizing seen with
  | nil => exact fun x hx hnew => absurd hx hnew
  | cons k rest ih =>
    intro x hx hnew j hj
    rw [List.foldl_cons] at hx ⊢
    by_cases hfirst : x ∈ f seen k
    · exact mem_foldl_of_seen hf (hclosed seen k hseen x hfirst hnew j hj)
    · exact ih (hroom seen k hseen) x hx hfirst j hj

/-- What stays true when a thing is visited for the first time is true in the end, if what may be visited
leads to nothing else. -/
theorem visit_induction {Q : List κ → Prop} {P : κ → Prop} (hnext : ∀ k, P k → ∀ j ∈ next k, P j)
    (hstep : ∀ seen k, Q seen → P k → k ∉ seen → Q (seen ++ [k])) (hseen : Q seen) (hk : P k) :
    Q (visit next depth seen k) := by
  induction depth generalizing seen k with
  | zero =>
    rw [visit]
    split
    · exact hseen
    · next hnew => exact hstep seen k hseen hk hnew
  | succ depth ih =>
    rw [visit]
    split
    · exact hseen
    · next hnew =>
      refine List.foldlRecOn (next k) (visit next depth) (hstep seen k hseen hk hnew) fun seen hseen j hj => ?_
      exact ih hseen (hnext k hk j hj)

theorem explore_induction {Q : List κ → Prop} {P : κ → Prop} (hnext : ∀ k, P k → ∀ j ∈ next k, P j)
    (hstep : ∀ seen k, Q seen → P k → k ∉ seen → Q (seen ++ [k])) (hnil : Q []) {todo : List κ}
    (htodo : ∀ k ∈ todo, P k) : Q (explore next all todo) :=
  List.foldlRecOn todo (visit next all.length) hnil fun _ hseen k hk =>
    visit_induction hnext hstep hseen (htodo k hk)

theorem nodup_explore (next : κ → List κ) (all todo : List κ) : (explore next all todo).Nodup := by
  refine explore_induction (P := fun _ => True) (fun _ _ _ _ => trivial) (fun seen k hseen _ hnew => ?_)
    List.nodup_nil fun _ _ => trivial
  refine List.nodup_append.mpr ⟨hseen, List.pairwise_singleton _ k, fun a ha b hb heq => hnew ?_⟩
  rw [← List.mem_singleton.mp hb, ← heq]
  exact ha

/-- Whatever is visited has a property that `todo` has and that passes on. -/
theorem forall_mem_explore {P : κ → Prop} (hnext : ∀ k, P k → ∀ j ∈ next k, P j) {todo : List κ}
    (htodo : ∀ k ∈ todo, P k) : ∀ k ∈ explore next all todo, P k := by
  refine explore_induction (Q := fun seen => ∀ k ∈ seen, P k) hnext (fun seen k hseen hk _ j hj => ?_)
    (fun _ hk => absurd hk List.not_mem_nil) htodo
  rcases List.mem_append.mp hj with hold | hself
  · exact hseen j hold
  · exact List.mem_singleton.mp hself ▸ hk

variable (hleaf : ∀ k, k ∉ all → next k = [])

include hleaf

/-- If the depth is not less than the number of members not visited yet, whatever is visited newly is
followed. -/
theorem mem_visit_of_next {j : κ} (hdepth : all.countP (· ∉ seen) ≤ depth)
    (hk : k ∈ visit next depth seen j) (hnew : k ∉ seen) {i : κ} (hi : i ∈ next k) :
    i ∈ visit next depth seen j := by
  induction depth generalizing seen j k i with
  | zero =>
    have hall : k ∈ all → k ∈ seen := by
      simpa using List.countP_eq_zero.mp (Nat.le_zero.mp hdepth) k
    rw [hleaf k fun hmem => hnew (hall hmem)] at hi
    cases hi
  | succ depth ih =>
    rw [visit] at hk ⊢
    split at hk
    · exact absurd hk hnew
    · next hj =>
      rw [if_neg hj]
      have hmono : ∀ (seen : List κ) k, ∀ i ∈ seen, i ∈ visit next depth seen k :=
        fun seen k i h => mem_visit_of_seen seen k h
      by_cases hmem : j ∈ all
      · have hroom : all.countP (· ∉ seen ++ [j]) ≤ depth :=
          Nat.le_of_lt_succ (Nat.lt_of_lt_of_le (countP_append_lt hmem hj) hdepth)
        by_cases hkj : k = j
        · subst hkj
          exact mem_foldl_of_mem hmono (fun seen k => mem_visit_self seen k) hi
        · refine closed_foldl (fun seen => all.countP (· ∉ seen) ≤ depth) hmono ?_ ?_ hroom k hk
            (by simp [hnew, hkj]) i hi
          · exact fun seen k hle => Nat.le_trans (countP_visit_le seen k) hle
          · exact fun seen k hle x hx hnew i hi => ih hle hx hnew hi
      · rw [hleaf j hmem] at hk ⊢
        rcases List.mem_append.mp hk with hold | hself
        · exact absurd hold hnew
        · rw [List.mem_singleton.mp hself, hleaf j hmem] at hi
          cases hi

omit hleaf in
theorem mem_explore_of_mem {todo : List κ} (h : k ∈ todo) : k ∈ explore next all todo :=
  mem_foldl_of_mem (fun seen k _ h => mem_visit_of_seen seen k h) (fun seen k => mem_visit_self seen k) h

/-- What follows from something visited is visited. -/
theorem mem_explore_of_next {todo : List κ} (hk : k ∈ explore next all todo) {j : κ} (hj : j ∈ next k) :
    j ∈ explore next all todo := by
  refine closed_foldl (fun seen => all.countP (· ∉ seen) ≤ all.length) ?_ ?_ ?_
    List.countP_le_length k hk List.not_mem_nil j hj
  · exact fun seen k _ h => mem_visit_of_seen seen k h
  · exact fun _ _ _ => List.countP_le_length
  · exact fun seen k hle x hx hnew i hi => mem_visit_of_next hleaf hle hx hnew hi

end Visit

end ViewBinding
