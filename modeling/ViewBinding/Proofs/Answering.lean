import ViewBinding.Proofs.Responding

/-!
# One event, one call

When an event is dispatched on a node, every directive of a bound element that acts on the event does so once, by the
listener of its binding, and no other listener does anything but the embedder's own. A directive is left out only if
its binding is taken away before it is the turn of its listener.
-/

namespace ViewBinding

open Engine

variable {Code Memory : Type} [Inhabited Code]

/-- Whether a listener belongs to a view model. -/
def Listener.isOf (owner : ViewModelId) (listener : Listener Code) : Bool :=
  listener.host?.any (·.1 = owner)

namespace World

/-- The listeners of a node for an event without those of bindings that are not recorded any more. -/
def responders (w : World Code Memory) (n : NodeId) (event : String) : List (Listener Code) :=
  ((w.node n).listeners event).filter fun listener =>
    listener.host?.all fun host => (w.bindingsOf host.1 n).contains host.2

variable {w v : World Code Memory} {owner : ViewModelId} {n : NodeId} {b : BindingId} {event : String}
  {listener : Listener Code}

section Responding

omit [Inhabited Code]

theorem mem_hooks_of_host {node : Node Code} {host : ViewModelId × BindingId}
    (hmem : listener ∈ node.listeners event) (hhost : listener.host? = some host) : listener ∈ node.hooks event := by
  refine List.mem_filter.mpr ⟨hmem, ?_⟩
  cases listener with
  | run code => cases hhost
  | writeBack owner b path => rfl
  | invoke owner b method => rfl

/-- The binding of a listener is active if and only if it is recorded. -/
theorem Hooked.active_iff (h : w.Hooked) (hmem : listener ∈ (w.node n).hooks event)
    (hhost : listener.host? = some (owner, b)) : (w.binding b).active = true ↔ b ∈ w.bindingsOf owner n :=
  ⟨h.recorded hmem hhost, h.active owner n b⟩

/-- A binding that is recorded when it is the turn of its listener was recorded when the event was dispatched. -/
theorem Hooked.recorded_before (h : w.Hooked) (h' : v.Hooked) (hretains : w.Retains v)
    (hmem : listener ∈ (w.node n).hooks event) (hhost : listener.host? = some (owner, b))
    (hb : b ∈ v.bindingsOf owner n) : b ∈ w.bindingsOf owner n := by
  refine h.recorded hmem hhost ?_
  cases hactive : (w.binding b).active with
  | true => rfl
  | false =>
    have hinactive := hretains.inactive b (h.hung n event listener hmem owner b hhost) hactive
    exact absurd (hinactive.symm.trans (h'.active owner n b hb)) Bool.false_ne_true

/-- No listener acts that does not belong to a binding. -/
theorem filter_answers_hooks (node : Node Code) (event : String) :
    (node.hooks event).filter (w.answers owner) = (node.listeners event).filter (w.answers owner) := by
  rw [Node.hooks, List.filter_filter]
  refine List.filter_congr fun listener hmem => ?_
  cases hanswers : w.answers owner listener with
  | false => rfl
  | true =>
    obtain ⟨b, hhost, -⟩ := answers_iff.mp hanswers
    rw [(List.mem_filter.mp (mem_hooks_of_host hmem hhost)).2]
    rfl

/-- The responders of a view model are the listeners that are due. -/
theorem Hooked.responders (h : w.Hooked) (owner : ViewModelId) (n : NodeId) (event : String) :
    (w.responders n event).filter (·.isOf owner) = w.due owner n event := by
  rw [World.responders, List.filter_filter, ← h.hooks, filter_answers_hooks]
  refine List.filter_congr fun listener hmem => ?_
  cases hhost : listener.host? with
  | none => simp [Listener.isOf, answers, hhost]
  | some host =>
    obtain ⟨id, b⟩ := host
    by_cases hid : id = owner
    · subst hid
      have hactive := h.active_iff (mem_hooks_of_host hmem hhost) hhost
      simp [Listener.isOf, answers, hhost, ← hactive]
    · simp [Listener.isOf, answers, hhost, hid]

/-- Directives have different listeners if they have different bindings. -/
theorem nodup_hooksFor {directives : List Directive} {bs : List BindingId} (hnodup : bs.Nodup) :
    (hooksFor owner event (directives.zip bs) : List (Listener Code)).Nodup := by
  have hzip : (directives.zip bs).Pairwise fun p q => p.2 ≠ q.2 := by
    induction directives generalizing bs with
    | nil => exact .nil
    | cons directive rest inductionHypothesis =>
      cases hnodup with
      | nil => exact .nil
      | cons hb hnodup =>
        refine .cons (fun q hq => ?_) (inductionHypothesis hnodup)
        exact hb _ (List.of_mem_zip hq).2
  refine hzip.filterMap _ fun p q hne listener hlistener listener' hlistener' heq => hne ?_
  have hhost := Directive.host?_of_hook? hlistener
  rw [heq, Directive.host?_of_hook? hlistener'] at hhost
  exact (Prod.mk.inj (Option.some.inj hhost)).2.symm

end Responding

end World

namespace Engine

/-- Runs listeners for an event, all of them even if some fail. -/
def respond (c : Reentry Code Memory) (event : Event) (listeners : List (Listener Code)) : Engine Code Memory Unit := do
  collect .notify (← failures (fun _ => none) (handle c event) listeners)

/-- A listener of a binding acts at its turn in the world `v` if the binding is recorded then, exactly once and on a
view model that is alive, and does nothing otherwise. A binding that is recorded then was recorded in the world `w`, in
which the event was dispatched. -/
structure ActsOnce (c : Reentry Code Memory) (event : Event) (listener : Listener Code) (owner : ViewModelId)
    (b : BindingId) (act : Engine Code Memory Unit) (w v : World Code Memory) : Prop where
  acts : b ∈ v.bindingsOf owner event.target →
    v.alive (c.application.holds v.memory) (.viewModel owner) = true →
      handle c event listener v = keeping [.viewModel owner] act v
  rests : b ∉ v.bindingsOf owner event.target → handle c event listener v = some (.ok (), v)
  recorded : b ∈ v.bindingsOf owner event.target → b ∈ w.bindingsOf owner event.target

/-- What happens when an event is dispatched on a node in the world `w`. -/
structure Responds (application : Application Code Memory) (depth : Nat) (n : NodeId) (event : String)
    (w : World Code Memory) : Prop where
  /-- A bound element has one binding for each of its directives. -/
  bound (owner : ViewModelId) : (w.node n).isElement = true → w.isBound owner n = true →
    (w.bindingsOf owner n).length = (w.directives owner n).length ∧ (w.bindingsOf owner n).Nodup ∧
      ∀ directive ∈ w.directives owner n, directive.HasPath
  /-- A directive that acts on the event has one listener, for its binding, and there are no others. -/
  due (owner : ViewModelId) : (w.responders n event).filter (·.isOf owner)
    = hooksFor owner event ((w.directives owner n).zip (w.bindingsOf owner n))
  /-- All other listeners make no difference. -/
  dispatch : dispatch (reentry application depth) n event w
    = keeping [.node n] (respond (reentry application depth) ⟨event, n⟩ (w.responders n event)) w
  /-- If dispatching comes to an end, then each of these listeners has had one turn. -/
  turn {owner : ViewModelId} {listener : Listener Code} {out : Except Error Unit × World Code Memory} :
    listener ∈ hooksFor owner event ((w.directives owner n).zip (w.bindingsOf owner n)) →
      Engine.dispatch (reentry application depth) n event w = some out →
        ∃ v, w.HandsAt application depth ⟨event, n⟩ listener v ∧
          ∀ v', w.HandsAt application depth ⟨event, n⟩ listener v' → v' = v
  call {owner : ViewModelId} {b : BindingId} {method : String} {v : World Code Memory} :
    w.HandsAt application depth ⟨event, n⟩ (.invoke owner b method) v →
      ActsOnce (reentry application depth) ⟨event, n⟩ (.invoke owner b method) owner b
        (callMethod (reentry application depth) owner method ⟨event, n⟩) w v
  write {owner : ViewModelId} {b : BindingId} {path : Path} {v : World Code Memory} :
    w.HandsAt application depth ⟨event, n⟩ (.writeBack owner b path) v →
      ActsOnce (reentry application depth) ⟨event, n⟩ (.writeBack owner b path) owner b
        (writeBack (reentry application depth) owner path ⟨event, n⟩) w v

/-- A listener of a binding that is not active does nothing. -/
theorem handle_of_inactive (c : Reentry Code Memory) (event : Event) {listener : Listener Code} {owner : ViewModelId}
    {b : BindingId} {w : World Code Memory} (hhost : listener.host? = some (owner, b))
    (hinactive : (w.binding b).active = false) : handle c event listener w = some (.ok (), w) := by
  cases listener with
  | run code => cases hhost
  | writeBack id binding path =>
    cases hhost
    rw [handle_writeBack, hinactive, if_neg Bool.false_ne_true]
  | invoke id binding method =>
    cases hhost
    rw [handle_invoke, hinactive, if_neg Bool.false_ne_true]

end Engine

namespace World

variable {application : Application Code Memory} {w v : World Code Memory} {c : Reentry Code Memory} {event : Event}
  {listener : Listener Code} {owner : ViewModelId} {b : BindingId} {act : Engine Code Memory Unit}

/-- A listener that looks at its binding first acts once or not at all. -/
theorem Hooked.actsOnce (h : w.Hooked) (h' : v.Hooked) (hretains : w.Retains v)
    (hmem : listener ∈ (w.node event.target).listeners event.name) (hhost : listener.host? = some (owner, b))
    (hhandle : handle c event listener v
      = if (v.binding b).active = true then onLiving c owner act v else some (.ok (), v)) :
    ActsOnce c event listener owner b act w v := by
  have hhook := mem_hooks_of_host hmem hhost
  have hactive := h'.active_iff (hretains.hooks _ _ _ hhook) hhost
  refine ⟨fun hb halive => ?_, fun hb => ?_, h.recorded_before h' hretains hhook hhost⟩
  · rw [hhandle, if_pos (hactive.mpr hb)]
    change (if v.alive (c.application.holds v.memory) (.viewModel owner) = true then keeping _ act else throw _) v = _
    rw [if_pos halive]
  · rw [hhandle, if_neg fun h => hb (hactive.mp h)]

/-- Each listener that is due is listed once, so it has one turn. -/
theorem Hooked.handsAt (h : w.Hooked) {depth : Nat} {n : NodeId} {name : String}
    {out : Except Error Unit × World Code Memory} (hdue : listener ∈ w.due owner n name)
    (hrun : Engine.dispatch (reentry application depth) n name w = some out) :
    ∃ v, w.HandsAt application depth ⟨name, n⟩ listener v ∧
      ∀ v', w.HandsAt application depth ⟨name, n⟩ listener v' → v' = v := by
  have hhook : listener ∈ (w.node n).hooks name ∧ w.answers owner listener = true := by
    rw [← h.hooks] at hdue
    exact List.mem_filter.mp hdue
  have hnodup : (((w.node n).listeners name).filter (w.answers owner)).Nodup := by
    rw [← filter_answers_hooks, h.hooks]
    exact nodup_hooksFor (h.nodup owner n)
  obtain ⟨_, hdispatch, -⟩ := Option.map_eq_some_iff.mp hrun
  obtain ⟨_, _, hinspect, hrespond⟩ := run_of_bind hdispatch
  cases hinspect
  obtain ⟨_, _, hfailures, -⟩ := run_of_bind (hrespond _ rfl)
  obtain ⟨v, hturn⟩ := exists_turn hfailures (List.mem_filter.mp hhook.1).1
  exact ⟨v, hturn, fun v' hturn' => hturn.unique hturn' hhook.2 hnodup⟩

variable (happ : application.Regular fun request _ => request.Automatic)

include happ

/-- The listeners whose bindings are not recorded may be left out. -/
theorem Hooked.respond_responders (h : w.Hooked) (depth : Nat) (n : NodeId) (event : String) (held : List Ref) :
    respond (reentry application depth) ⟨event, n⟩ (w.responders n event) { w with held }
      = respond (reentry application depth) ⟨event, n⟩ ((w.node n).listeners event) { w with held } := by
  have htends : Tends application (fun request _ => request.Automatic) _ := tends_hooked w
  have hservice : Service (fun request _ => request.Automatic) (fun _ _ => True) (fun _ _ => True) _ _ _
      (reentry application depth) (reentry application depth) :=
    (htends.reentry happ depth).service htends happ fun _ _ _ _ => trivial
  have hheld : ∀ (v : World Code Memory) held, v.Hooked ∧ w.Retains v →
      World.Hooked { v with held } ∧ w.Retains { v with held } :=
    fun v held hv => htends.bystands (bystands_held v held) rfl hv
  have hidle : ∀ listener ∈ (w.node n).listeners event,
      (listener.host?.all fun host => (w.bindingsOf host.1 n).contains host.2) = false →
        ∀ v, v.Hooked ∧ w.Retains v → handle (reentry application depth) ⟨event, n⟩ listener v = some (.ok (), v) := by
    intro listener hmem hunrecorded v hv
    obtain ⟨⟨owner, b⟩, hhost, hb⟩ : ∃ host, listener.host? = some host ∧
        (w.bindingsOf host.1 n).contains host.2 = false := by
      cases hhost : listener.host? with
      | none => simp [hhost] at hunrecorded
      | some host => exact ⟨host, rfl, by simpa [hhost] using hunrecorded⟩
    have hhook := mem_hooks_of_host hmem hhost
    -- a binding that is not recorded is not active, and it does not come into force again
    refine handle_of_inactive _ _ hhost (hv.2.inactive b (h.hung n event listener hhook owner b hhost) ?_)
    refine Bool.eq_false_iff.mpr fun hactive => ?_
    have hrecorded := List.contains_iff_mem.mpr (h.recorded hhook hhost hactive)
    exact absurd (hb.symm.trans hrecorded) Bool.false_ne_true
  exact congrArg (Option.bind · _) (failures_filter hheld (hservice.handle _) hidle _ (hheld w held ⟨h, .refl w⟩))

theorem Hooked.responds (h : w.Hooked) (depth : Nat) (n : NodeId) (event : String) :
    Responds application depth n event w := by
  have hturn : ∀ {listener : Listener Code} {v : World Code Memory},
      w.HandsAt application depth ⟨event, n⟩ listener v → v.Hooked ∧ w.Retains v := fun hhands =>
    (tends_hooked w).handsAt happ hhands ⟨h, .refl w⟩
  exact {
    bound := fun owner helement hbound =>
      ⟨(h.full owner n helement hbound).1, h.nodup owner n, (h.full owner n helement hbound).2⟩
    due := fun owner => h.responders owner n event
    dispatch := (congrArg (Option.map _) (h.respond_responders happ depth n event _)).symm
    turn := fun hdue hrun => h.handsAt hdue hrun
    call := fun hhands =>
      h.actsOnce (hturn hhands).1 (hturn hhands).2 hhands.mem rfl (handle_invoke _ _ _ _ _ _)
    write := fun hhands =>
      h.actsOnce (hturn hhands).1 (hturn hhands).2 hhands.mem rfl (handle_writeBack _ _ _ _ _ _) }

end World

namespace Engine

/--
One event, one call. If getters only read, installers are the standard ones and no binding is made or torn down by
hand, then in every state that a program of the embedder comes to, whatever was mounted, compiled and unmounted before
and whatever failed, an event that is dispatched is answered once by every directive of a bound element that acts on
it: only the listeners of recorded bindings make a difference, there is one for each directive, it has one turn, and it
calls its method or writes back exactly once then, unless its binding has been taken away meanwhile.
-/
theorem one_event_one_call {application : Application Code Memory}
    (happ : application.Regular fun request _ => request.Automatic) {α : Type} {program : Program Code Memory α}
    (hprogram : program.Makes fun request _ => request.Automatic) (memory : Memory) (depth : Nat) :
    Throughout (fun _ moment w => moment.Stirs → ∀ depth n,
      (∀ event, Responds application depth n event w) ∧
      ∀ value, Responds application depth n "input" (w.display .value n value)) application depth program { memory } := by
  refine (tends_hooked { memory }).throughout happ (Moment.lenient _) (fun _ _ w hw _ depth n => ⟨fun event => ?_,
    fun value => ?_⟩) hprogram depth ⟨World.hooked_empty memory, .refl _⟩
  · exact hw.1.responds happ depth n event
  · exact (hw.1.bystands (World.margin_display w .value n value).bystands).responds happ depth n "input"

end Engine

/-! ### A pass that fails and is tried again -/

/-- An embedder that counts the calls of methods and the values that are written back. -/
def Application.clerk : Application Unit (Nat × Nat) where
  holds _ := [.viewModel ⟨0⟩, .node ⟨1⟩]
  notes
    | .calling .., w => (w.memory.1 + 1, w.memory.2)
    | .writing .., w => (w.memory.1, w.memory.2 + 1)
    | _, w => w.memory
  callback _ _ := .done ()
  method _ _ _ := .done ()
  listener _ _ := .done ()
  getter _ _ := .done .undefined
  update _ := .done ()
  install _ _ _ _ := .fail .detached

/-- Compiles a field whose method is missing at first, then with the method, and again after it was unmounted. Then the
field is clicked, and something is put in. -/
def Program.retrying : Program Unit (Nat × Nat) Unit := do
  let field ← request (.newElement "input" [("v-model", "a"), ("v-on:click", "m")] [])
  let root ← request (.newElement "div" [] [field])
  let data ← request .newObject
  request (.set data "a" (.string "x"))
  request (.set data "m" (.string "x"))
  let owner ← request (.newViewModel { data := .object data })
  .ask (.compile owner root) fun _ => do
  let method ← request (.newFunction "m" ())
  request (.set data "m" method)
  let _ ← request (.compile owner root)
  let _ ← request (.unmount owner root)
  let _ ← request (.compile owner root)
  request (.dispatch field "click")
  request (.input field (.string "y"))

theorem Application.regular_clerk : clerk.Regular fun request _ => request.Automatic where
  quiet _ _ := rfl
  getters _ _ := .done _
  callback _ _ := trivial
  method _ _ _ := trivial
  listener _ _ := trivial
  update _ := trivial

theorem Program.automatic_retrying : retrying.Makes fun request _ => request.Automatic := by
  refine (makes_request fun _ _ => trivial).bind fun field => ?_
  refine (makes_request fun _ _ => trivial).bind fun root => ?_
  refine (makes_request fun _ _ => trivial).bind fun data => ?_
  refine (makes_request fun _ _ => trivial).bind fun _ => ?_
  refine (makes_request fun _ _ => trivial).bind fun _ => ?_
  refine (makes_request fun _ _ => rfl).bind fun owner => ?_
  refine ⟨fun _ _ => trivial, fun _ => ?_⟩
  refine (makes_request fun _ _ => trivial).bind fun method => ?_
  refine (makes_request fun _ _ => trivial).bind fun _ => ?_
  refine (makes_request fun _ _ => trivial).bind fun _ => ?_
  refine (makes_request fun _ _ => trivial).bind fun _ => ?_
  refine (makes_request fun _ _ => trivial).bind fun _ => ?_
  refine (makes_request fun _ _ => trivial).bind fun _ => ?_
  exact makes_request fun _ _ => trivial

/-- The field has two listeners for a click and three for what is put in, and yet there is one call and one value is
written back. -/
theorem Engine.one_event_one_call_retrying :
    Application.clerk.Regular (fun request _ => request.Automatic) ∧
      Program.retrying.Makes (fun request _ => request.Automatic) ∧
      Throughout (fun _ moment w => moment.Stirs → ∀ depth n,
        (∀ event, Responds Application.clerk depth n event w) ∧
        ∀ value, Responds Application.clerk depth n "input" (w.display .value n value))
        Application.clerk 6 Program.retrying { memory := (0, 0) } ∧
      ∃ r w', run Application.clerk 6 Program.retrying { memory := (0, 0) } = some (r, w') ∧
        ((w'.node ⟨0⟩).listeners "click").length = 2 ∧ ((w'.node ⟨0⟩).listeners "input").length = 3 ∧
        w'.memory = (1, 1) := by
  refine ⟨Application.regular_clerk, Program.automatic_retrying,
    one_event_one_call Application.regular_clerk Program.automatic_retrying (0, 0) 6, ?_⟩
  have hends : (run Application.clerk 6 Program.retrying { memory := (0, 0) }).map (fun out =>
      (((out.2.node ⟨0⟩).listeners "click").length, ((out.2.node ⟨0⟩).listeners "input").length, out.2.memory))
      = some (2, 3, 1, 1) := by decide +kernel
  obtain ⟨⟨r, w'⟩, hrun, hends⟩ := Option.map_eq_some_iff.mp hends
  simp only [Prod.mk.injEq] at hends
  exact ⟨r, w', hrun, hends⟩

/-! ### Passes while an event is handled, and events while a pass is made -/

/-- What is noted of a node: that a method was called for it, or that somebody looked, and whether it was bound. -/
inductive Scene where
  | called (isBound : Bool)
  | seen (isBound : Bool)
  deriving DecidableEq

/-- Looks whether the first node is bound. -/
def Program.spot : Program Unit (List Scene) Unit :=
  .look fun w => request (.remember (.seen (w.isBound ⟨0⟩ ⟨0⟩) :: ·))

/-- An embedder whose listeners unmount the second node and compile it again, and whose getters dispatch a click on the
first node. -/
def Application.restless : Application Unit (List Scene) where
  holds _ := [.viewModel ⟨0⟩, .node ⟨1⟩]
  notes
    | .calling owner _ event, w => .called (w.isBound owner event.target) :: w.memory
    | _, w => w.memory
  callback _ _ := .done ()
  method _ _ _ := .done ()
  listener _ _ := do
    let _ ← .request (.unmount ⟨0⟩ ⟨1⟩)
    let _ ← .request (.compile ⟨0⟩ ⟨1⟩)
    .spot
  getter _ _ := do
    .request (.dispatch ⟨0⟩ "click")
    return .string "x"
  update _ := .done ()
  install _ _ _ _ := .fail .detached

/-- Has a listener of its own on a paragraph that is clicked. -/
def Program.rebinding : Program Unit (List Scene) Unit := do
  let paragraph ← request (.newElement "p" [("v-on:click", "m")] [])
  let root ← request (.newElement "div" [] [paragraph])
  let data ← request .newObject
  let owner ← request (.newViewModel { data := .object data, methods := .ofList [("m", ())] })
  request (.listen paragraph "click" ())
  let _ ← request (.compile owner root)
  spot
  request (.dispatch paragraph "click")

/-- Mounts a paragraph that has a method for a click and shows a computed property. -/
def Program.clicking : Program Unit (List Scene) Unit := do
  let paragraph ← request (.newElement "p" [("v-on:click", "m"), ("v-text", "c")] [])
  let root ← request (.newElement "div" [] [paragraph])
  let data ← request .newObject
  let _ ← request (.newViewModel
    { data := .object data, methods := .ofList [("m", ())], computed := .ofList [("c", ())], target := some (.node root) })

/--
A method is called for the binding that there was when the event was dispatched, and it is called even if this binding
is not recorded yet. A paragraph is bound when it is clicked, and it is bound again when it is the turn of the listener
of its method, for the embedder's own listener has unmounted and compiled the tree meanwhile: the method is not called.
And a paragraph is clicked by a getter while it is being bound: the method is called, though the paragraph is not bound.
-/
theorem Engine.bound_uncalled_and_unbound_called :
    (∃ r w', run Application.restless 6 Program.rebinding { memory := [] } = some (r, w') ∧
      r.toOption = some () ∧ w'.memory = [.seen true, .seen true]) ∧
    ∃ r w', run Application.restless 6 Program.clicking { memory := [] } = some (r, w') ∧
      r.toOption = some () ∧ w'.memory = [.called false] := by
  have hrebinding : (run Application.restless 6 Program.rebinding { memory := [] }).map (fun out =>
      (out.1.toOption, out.2.memory)) = some (some (), [.seen true, .seen true]) := by decide +kernel
  have hclicking : (run Application.restless 6 Program.clicking { memory := [] }).map (fun out =>
      (out.1.toOption, out.2.memory)) = some (some (), [.called false]) := by decide +kernel
  obtain ⟨⟨r, w'⟩, hrun, hends⟩ := Option.map_eq_some_iff.mp hrebinding
  obtain ⟨⟨r', w''⟩, hrun', hends'⟩ := Option.map_eq_some_iff.mp hclicking
  simp only [Prod.mk.injEq] at hends hends'
  exact ⟨⟨r, w', hrun, hends⟩, r', w'', hrun', hends'⟩

end ViewBinding
