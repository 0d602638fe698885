import ViewBinding.Proofs.Cutting
import ViewBinding.Proofs.Sightings
import ViewBinding.Proofs.Visiting

/-!
# The node that a selector means

What a search has still to go through are the trees below the nodes on its stack, these nodes included, in document
order. So in a finite tree it comes to the first node that the selector matches, or to the end of the tree. Mounting on
a selector is mounting on that node.
-/

namespace ViewBinding

variable {Code Memory : Type}

namespace World

/-- What a selector asks of a node: with `#`, that its attribute `id` is the rest of the selector, and otherwise that it
is an element with that tag, whatever the case of ASCII letters. -/
inductive Selects (w : World Code Memory) : (selector : String) → NodeId → Prop
  | identifier {identifier : String} {n : NodeId} (hattribute : ("id", identifier) ∈ (w.node n).attributes) :
      Selects w ("#" ++ identifier) n
  | tag {selector : String} {n : NodeId} (hunmarked : ∀ identifier, selector ≠ "#" ++ identifier)
      (helement : (w.node n).isElement = true)
      (htag : (w.node n).name.toList.map Char.toLower = selector.toList.map Char.toLower) : Selects w selector n

variable {w : World Code Memory} {n document : NodeId} {nodes all : List NodeId} {selector : String}

theorem eq_hash_append_iff {identifier : String} :
    selector = "#" ++ identifier ↔ selector.toList = ['#'] ++ identifier.toList := by
  rw [← String.toList_inj, String.toList_append]
  rfl

theorem selects_hash_iff {identifier : String} :
    w.Selects ("#" ++ identifier) n ↔ ("id", identifier) ∈ (w.node n).attributes := by
  constructor
  · generalize hselector : "#" ++ identifier = selector
    rintro (hattribute | ⟨hunmarked, -, -⟩)
    · simp only [← String.toList_inj, String.toList_append, List.append_cancel_left_eq] at hselector
      exact String.toList_inj.mp hselector ▸ hattribute
    · exact absurd hselector.symm (hunmarked identifier)
  · exact .identifier

theorem selects_tag_iff (hunmarked : ∀ identifier, selector ≠ "#" ++ identifier) :
    w.Selects selector n ↔ (w.node n).isElement = true ∧
      (w.node n).name.toList.map Char.toLower = selector.toList.map Char.toLower := by
  constructor
  · rintro (_ | ⟨-, helement, htag⟩)
    · exact absurd rfl (hunmarked _)
    · exact ⟨helement, htag⟩
  · exact fun ⟨helement, htag⟩ => .tag hunmarked helement htag

theorem matchesSelector_iff : w.matchesSelector selector n = true ↔ w.Selects selector n := by
  rw [matchesSelector]
  cases hafter : Text.after? ['#'] selector.toList with
  | some identifier =>
    have hselector : selector = "#" ++ String.ofList identifier := by
      rw [eq_hash_append_iff, String.toList_ofList]
      exact Text.after?_eq_some_iff.mp hafter
    rw [hselector, selects_hash_iff]
    simp
  | none =>
    have hunmarked : ∀ identifier, selector ≠ "#" ++ identifier := by
      intro identifier hselector
      apply Text.after?_eq_none_iff.mp hafter
      exact ⟨_, (eq_hash_append_iff.mp hselector).symm⟩
    rw [selects_tag_iff hunmarked]
    simp [sameTag]

/-- A search goes through the trees below the nodes on top of its stack before it comes to what is under them. -/
theorem Lists.scan_append (h : w.Lists nodes all) (wanted : NodeId → Bool) (stack : List NodeId) :
    scan (fun id => (w.node id).children) wanted (nodes ++ stack) =
      match all.find? wanted with
      | some n => some (some n)
      | none => scan (fun id => (w.node id).children) wanted stack := by
  induction h generalizing stack with
  | nil => rfl
  | @cons n rest below others _ _ hbelow hrest =>
    rw [List.cons_append, scan_cons]
    by_cases hwanted : wanted n = true
    · simp [hwanted]
    · rw [if_neg hwanted, hbelow, hrest, List.find?_cons_of_neg hwanted, List.find?_append]
      cases below.find? wanted <;> rfl

/-- A search of a finite tree ends, and finds the first node in document order that the selector matches. -/
theorem Lists.search_eq (h : w.Lists [document] all) (selector : String) :
    w.search document selector = some (all.find? (w.matchesSelector selector)) := by
  have hscan := h.scan_append (w.matchesSelector selector) []
  rw [scan_nil] at hscan
  rw [search]
  refine hscan.trans ?_
  cases all.find? (w.matchesSelector selector) <;> rfl

theorem Lists.query_eq (h : w.Lists [document] all) (selector : String) :
    w.query document selector = all.find? (w.matchesSelector selector) := by
  simp [query, h.search_eq]

/-- A node that a selector selects, with none in front of it. -/
structure FirstSelected (w : World Code Memory) (selector : String) (all : List NodeId) (n : NodeId) : Prop where
  selected : w.Selects selector n
  foremost : ∃ before after, all = before ++ n :: after ∧ ∀ m ∈ before, ¬ w.Selects selector m

theorem Lists.query_eq_some_iff (h : w.Lists [document] all) :
    w.query document selector = some n ↔ w.FirstSelected selector all n := by
  rw [h.query_eq, List.find?_eq_some_iff_append]
  simp only [Bool.not_eq_true', ← Bool.not_eq_true, matchesSelector_iff]
  constructor
  · exact fun ⟨hselected, hforemost⟩ => ⟨hselected, hforemost⟩
  · exact fun ⟨hselected, hforemost⟩ => ⟨hselected, hforemost⟩

theorem Lists.query_eq_none_iff (h : w.Lists [document] all) :
    w.query document selector = none ↔ ∀ m ∈ all, ¬ w.Selects selector m := by
  simp [h.query_eq, matchesSelector_iff]

theorem locate_selector (hdocument : (w.query document selector) = some n) :
    w.locate (some document) (.selector selector) = .ok n := by
  simp [locate, hdocument]

theorem locate_nowhere {document? : Option NodeId} (hnowhere : document?.bind (w.query · selector) = none) :
    w.locate document? (.selector selector) = .error (.targetNotFound selector) := by
  simp [locate, hnowhere]

end World

namespace Engine

variable [Inhabited Code] {c : Reentry Code Memory} {w : World Code Memory} {owner : ViewModelId} {target : Target}

/-- Mounting goes on from the node that its target means. -/
theorem mount_of_locate {n : NodeId} (hlocate : w.locate (w.viewModel owner).document target = .ok n) :
    mount c owner target w = keeping [.viewModel owner] (do
      update (·.mapViewModel owner fun vm => { vm with mounted := some n })
      compileDetached c owner n) w := by
  change Option.map _ ((ofExcept (w.locate (w.viewModel owner).document target) >>= fun _ => _) _) = _
  rw [hlocate]
  rfl

/-- Nothing has changed if its target means no node. -/
theorem mount_of_error {error : Error} (hlocate : w.locate (w.viewModel owner).document target = .error error) :
    mount c owner target w = some (.error error, w) := by
  change Option.map _ ((ofExcept (w.locate (w.viewModel owner).document target) >>= fun _ => _) _) = _
  rw [hlocate]
  rfl

/--
A selector means the first node of the document that it selects. The search for it in a finite tree ends, finds
that node if there is one and nothing if there is none. A view model is mounted on what was found, and if nothing was
found or there is no document then mounting fails and changes nothing.
-/
theorem mount_selects_first {document : NodeId} {all : List NodeId} (hlists : w.Lists [document] all)
    (selector : String) :
    w.search document selector = some (w.query document selector) ∧
    (∀ n, w.query document selector = some n ↔ w.FirstSelected selector all n) ∧
    (w.query document selector = none ↔ ∀ n ∈ all, ¬ w.Selects selector n) ∧
    ∀ (c : Reentry Code Memory) (owner : ViewModelId),
      ((w.viewModel owner).document = some document →
        (∀ n, w.FirstSelected selector all n → mount c owner (.selector selector) w =
          keeping [.viewModel owner] (do
            update (·.mapViewModel owner fun vm => { vm with mounted := some n })
            compileDetached c owner n) w) ∧
        ((∀ n ∈ all, ¬ w.Selects selector n) →
          mount c owner (.selector selector) w = some (.error (.targetNotFound selector), w))) ∧
      ((w.viewModel owner).document = none →
        mount c owner (.selector selector) w = some (.error (.targetNotFound selector), w)) := by
  have hsome (n : NodeId) : w.query document selector = some n ↔ w.FirstSelected selector all n :=
    hlists.query_eq_some_iff
  have hnone : w.query document selector = none ↔ ∀ n ∈ all, ¬ w.Selects selector n := hlists.query_eq_none_iff
  refine ⟨?_, hsome, hnone, fun c owner => ⟨fun hdocument => ⟨fun n hfirst => ?_, fun hunselected => ?_⟩, ?_⟩⟩
  · rw [hlists.search_eq, hlists.query_eq]
  · apply mount_of_locate
    rw [hdocument]
    exact World.locate_selector ((hsome n).mpr hfirst)
  · apply mount_of_error
    apply World.locate_nowhere
    rw [hdocument]
    exact hnone.mpr hunselected
  · intro hdocument
    apply mount_of_error
    apply World.locate_nowhere
    rw [hdocument]
    rfl

end Engine

/-! ### A tree with two of a kind -/

/-- A view model without data, and a document in which a span further down comes before one on top. -/
def World.spinney : World Unit Unit where
  objects := ⟨#[{}]⟩
  trackers := ⟨#[{}]⟩
  nodes := ⟨#[.element { tag := "body", children := [⟨1⟩, ⟨3⟩] }, .element { tag := "section", children := [⟨2⟩] },
    .element { tag := "SPAN", attributes := .ofList [("id", "a")] },
    .element { tag := "span", attributes := .ofList [("id", "b")] }]⟩
  viewModels := ⟨#[{ settings := {}, tracker := ⟨0⟩, data := ⟨0⟩, root := ⟨0⟩, registry := .standard,
                     document := some ⟨0⟩ }]⟩
  memory := ()

theorem World.lists_spinney : spinney.Lists [⟨0⟩] [⟨0⟩, ⟨1⟩, ⟨2⟩, ⟨3⟩] := by
  have hinner : spinney.Lists (spinney.node ⟨2⟩).children [] := .nil
  have houter : spinney.Lists (spinney.node ⟨3⟩).children [] := .nil
  have hsection : spinney.Lists (spinney.node ⟨1⟩).children [⟨2⟩] := .cons hinner .nil
  have hbody : spinney.Lists (spinney.node ⟨0⟩).children [⟨1⟩, ⟨2⟩, ⟨3⟩] := .cons hsection (.cons houter .nil)
  exact .cons hbody .nil

theorem Engine.mount_selects_first_spinney :
    World.spinney.Lists [⟨0⟩] [⟨0⟩, ⟨1⟩, ⟨2⟩, ⟨3⟩] ∧
    World.spinney.search ⟨0⟩ "span" = some (some ⟨2⟩) ∧
    (mount (reentry Application.idle 3) ⟨0⟩ (.selector "span") World.spinney).map
      (fun out => (out.2.viewModel ⟨0⟩).mounted) = some (some ⟨2⟩) ∧
    World.spinney.query ⟨0⟩ "#c" = none ∧
    mount (reentry Application.idle 3) ⟨0⟩ (.selector "#c") World.spinney
      = some (.error (.targetNotFound "#c"), World.spinney) := by
  obtain ⟨hspan, hfirst, -, hmounts⟩ := mount_selects_first World.lists_spinney "span"
  obtain ⟨-, -, hnothing, hfails⟩ := mount_selects_first World.lists_spinney "#c"
  have hselected : World.spinney.FirstSelected "span" [⟨0⟩, ⟨1⟩, ⟨2⟩, ⟨3⟩] ⟨2⟩ := by
    refine ⟨World.matchesSelector_iff.mp (by decide), [⟨0⟩, ⟨1⟩], [⟨3⟩], rfl, ?_⟩
    simp only [← World.matchesSelector_iff]
    decide
  have hnone : ∀ n ∈ [⟨0⟩, ⟨1⟩, ⟨2⟩, ⟨3⟩], ¬ World.spinney.Selects "#c" n := by
    simp only [← World.matchesSelector_iff]
    decide
  refine ⟨World.lists_spinney, ?_, ?_, hnothing.mpr hnone, ?_⟩
  · rw [hspan, (hfirst _).mpr hselected]
  · rw [((hmounts (reentry Application.idle 3) ⟨0⟩).1 rfl).1 _ hselected]
    rfl
  · exact ((hfails (reentry Application.idle 3) ⟨0⟩).1 rfl).2 hnone

end ViewBinding
