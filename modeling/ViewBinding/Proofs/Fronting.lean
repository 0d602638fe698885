import ViewBinding.Proofs.Consulting
import ViewBinding.Proofs.Presenting
import ViewBinding.Proofs.Verdict

/-!
# The root in front of the data

The root object of a view model names the data, and has a proxy for every key that the data had when the view model
was made. So a path that begins with such a key and the same path from below the data put the same questions, and are
written in the same place. A key that comes into being later has no proxy, and is found below the data only.
-/

namespace ViewBinding

variable {Code Memory : Type}

/-- The root of a view model names the data, and a key of the data. -/
structure World.Fronts (owner : ViewModelId) (key : String) (w : World Code Memory) : Prop where
  data : (w.object (w.viewModel owner).root).slot? "$data" = some (.constant (.object (w.viewModel owner).data))
  key : (w.object (w.viewModel owner).root).slot? key = some (.proxy (w.viewModel owner).data key)

/-- A path that begins with a key, and the same path from below the data. -/
structure Path.Below (path : Path) (key : String) (rest : List String) (below : Path) : Prop where
  path : path.segments = key :: rest
  below : below.segments = "$data" :: key :: rest

namespace World

variable {w : World Code Memory} {object target : ObjectId} {key name : String} {owner : ViewModelId}

/-- A proxy stands for what its target stands for. -/
theorem Wired.resolve_proxy (hw : w.Wired) (hslot : (w.object object).slot? key = some (.proxy target name)) :
    w.resolve object key = w.resolve target name := by
  have hmade : Key.index object < w.objects.size := index_lt_of_slot? hslot
  have hbefore : Key.index target < Key.index object := hw.proxy object key target name hslot
  obtain ⟨steps, hsteps⟩ : ∃ steps, w.objects.size = steps + 1 := ⟨w.objects.size - 1, by omega⟩
  rw [resolve, hsteps, follow_proxy hslot, resolve, hsteps]
  refine hw.follow_eq (fun _ _ _ _ h => h) (fun _ _ _ => by omega) ?_
  exact hw.follow_ends fun _ _ _ => by omega

theorem Wired.slotAt_proxy (hw : w.Wired) (hslot : (w.object object).slot? key = some (.proxy target name)) :
    w.slotAt object key = w.slotAt target name := by
  rw [slotAt, hw.resolve_proxy hslot, slotAt]

theorem slotAt_constant {value : Value} (hslot : (w.object object).slot? key = some (.constant value)) :
    w.slotAt object key = some (.constant value) := by
  have hresolve : w.resolve object key = (object, key) :=
    follow_of_not_proxy (fun _ _ h => by rw [hslot] at h; cases h) _
  rw [slotAt, hresolve]
  exact hslot

end World

/-- The root of a new view model names every key that its data has by then, computed properties among them. -/
theorem World.fronts_assemble [Inhabited Code] (w : World Code Memory) (options : Options Code) {data : ObjectId}
    {key : String} (hdata : Key.index data < w.objects.size) (hne : key ≠ "$data")
    (hkey : ((w.assemble options data).2.object data).slots.contains key) :
    (w.assemble options data).2.Fronts (w.assemble options data).1 key := by
  unfold World.assemble at hkey ⊢
  generalize options.directives.foldl _ Registry.standard = registry at hkey ⊢
  let v := (w.observe (.object data)).addTracker.2.addObject.2
  let root := (w.observe (.object data)).objects.fresh
  let vm : ViewModel Code :=
    { settings := options.settings, tracker := (w.observe (.object data)).trackers.fresh, data, root, registry
      document := options.document }
  let made := v.addViewModel vm
  let equipped := defineMethods root
    (defineComputed made.1 data vm.tracker options.settings.memoize made.2 options.computed.toList)
    options.methods.toList
  let named := (equipped.object data).keys.foldl (fun w key => w.putSlot root key (.proxy data key)) equipped
  change ((named.putSlot root "$data" (.constant (.object data))).object data).slots.contains key at hkey
  change (named.putSlot root "$data" (.constant (.object data))).Fronts made.1 key
  have hroot : data ≠ root := by
    intro heq
    have hobserved : Calm (fun _ => True) w (w.observe (.object data)) := calm_observe w _
    have hindex : Key.index root = (w.observe (.object data)).objects.size := Table.index_fresh _
    rw [← heq] at hindex
    exact Nat.not_lt.mpr hobserved.heap (hindex ▸ hdata)
  have hequipped : made.2.Raises equipped := (raises_defineComputed _ _ _ _ _ _).trans (raises_defineMethods _ _ _)
  have hnamed : Calm (· ≠ root) equipped named := calm_defineProxies equipped root data _
  have hlast : Calm (· ≠ root) named (named.putSlot root "$data" (.constant (.object data))) := calm_putSlot nofun
  have hviewModel : (named.putSlot root "$data" (.constant (.object data))).viewModel made.1 = vm := by
    rw [viewModel, hlast.viewModels, hnamed.viewModels, hequipped.viewModels]
    exact v.viewModels.get_add_fresh vm
  have hkeys : key ∈ (equipped.object data).keys := by
    have hsame := (hnamed.trans hlast).contents data hroot
    rw [← map_fst_contents, ← hsame, map_fst_contents]
    exact (Entries.contains_iff_mem_keys _ key).mp hkey
  constructor
  · rw [hviewModel]
    exact slot?_putSlot named root "$data" _
  · rw [hviewModel, (changesAt_putSlot named root "$data" _).slots root key (.inr hne)]
    exact slot?_defineProxies (.inl hkeys)

/-! ### Reading -/

namespace View

variable {v : View} {owner owner' : Option String} {path path' : Path} {r : Except Error Value}

/-- The same segments lead from a value to the same value, or nowhere. What the path is only shows in the fault. -/
theorem gives_walk_along {value : Value} {segments : List String}
    (h : v.Gives (Query.walk path owner value segments) r) (path' : Path) (owner' : Option String) :
    ∃ r', v.Gives (Query.walk path' owner' value segments) r' ∧ r'.toOption = r.toOption := by
  induction segments generalizing value owner owner' with
  | nil => exact ⟨r, h, rfl⟩
  | cons segment rest inductionHypothesis =>
    cases value with
    | object object =>
      obtain ⟨a, ha, hrest⟩ := gives_andThen.mp h
      cases a with
      | ok next =>
        obtain ⟨r', hr', hsame⟩ := inductionHypothesis hrest (some segment)
        exact ⟨r', gives_bind_ok ha hr', hsame⟩
      | error error => exact ⟨.error error, gives_bind_error ha, by rw [gives_done.mp hrest]⟩
    | array id items => exact inductionHypothesis h (some segment)
    | _ => exact ⟨_, gives_done.mpr rfl, by rw [gives_done.mp h]; rfl⟩

/-- The walks from two objects that have one slot under the first key. -/
theorem gives_walk_congr {object object' : ObjectId} {key : String} {rest : List String}
    (hslot : v.slot object key = v.slot object' key) :
    v.Gives (Query.walk path owner (.object object) (key :: rest)) r ↔
      v.Gives (Query.walk path owner (.object object') (key :: rest)) r := by
  simp only [Query.walk, Query.bind, Query.property, gives_andThen, gives_ask, tells_property, hslot]

/-- The first key leads to the data, whence the walk goes on. -/
theorem gives_walk_data {root data : ObjectId} {segments : List String}
    (hdata : v.slot root "$data" = some (.constant (.object data))) :
    v.Gives (Query.walk path owner (.object root) ("$data" :: segments)) r ↔
      v.Gives (Query.walk path (some "$data") (.object data) segments) r := by
  simp only [Query.walk, Query.bind, Query.property, gives_andThen, gives_ask, tells_property, hdata, Shows]
  simp

/-- A path from a root, and the path from below the data, lead to the same value or both nowhere. -/
theorem gives_path_below {root data : ObjectId} {below : Path} {key : String} {rest : List String}
    (hpath : path.Below key rest below) (hdata : v.slot root "$data" = some (.constant (.object data)))
    (hkey : v.slot root key = v.slot data key) :
    (v.Gives (Query.path (.object root) path) r → ∃ r', v.Gives (Query.path (.object root) below) r' ∧
      r'.toOption = r.toOption) ∧
    (v.Gives (Query.path (.object root) below) r → ∃ r', v.Gives (Query.path (.object root) path) r' ∧
      r'.toOption = r.toOption) := by
  rw [Query.path, Query.path, hpath.path, hpath.below]
  constructor
  · intro h
    obtain ⟨r', hr', hsame⟩ := gives_walk_along ((gives_walk_congr hkey).mp h) below (some "$data")
    exact ⟨r', (gives_walk_data hdata).mpr hr', hsame⟩
  · intro h
    obtain ⟨r', hr', hsame⟩ := gives_walk_along ((gives_walk_data hdata).mp h) path none
    exact ⟨r', (gives_walk_congr hkey).mpr hr', hsame⟩

end View

variable [Inhabited Code]

namespace Realm

open Engine World

variable {k : Realm Code Memory} {w : World Code Memory} {owner : ViewModelId} {key : String} {rest : List String}
  {path below : Path}

/-- Whoever reads one path, the other one leads to the same value in every engine that is deep enough, and in all that
come to an end, or both lead nowhere. -/
def ReadsLike (k : Realm Code Memory) (w : World Code Memory) (root : Value) (path path' : Path) : Prop :=
  ∀ reader depth r w', readPath (reentry k.application depth) root path reader w = some (r, w') →
    ∃ r', r'.toOption = r.toOption ∧
      (∃ least, ∀ depth ≥ least, ∃ w', readPath (reentry k.application depth) root path' reader w = some (r', w')) ∧
      ∀ depth r'' w', readPath (reentry k.application depth) root path' reader w = some (r'', w') → r'' = r'

/-- A path that begins with a key of the data is the path from below the data. -/
def Fronted (k : Realm Code Memory) (w : World Code Memory) : Prop :=
  ∀ owner key rest path below, w.Fronts owner key → path.Below key rest below →
    k.ReadsLike w (.object (w.viewModel owner).root) path below ∧
      k.ReadsLike w (.object (w.viewModel owner).root) below path

/-- Paths that are given alike are read alike. -/
theorem Fair.reads_like (hk : k.Lawful) (hfair : k.Fair w) (hw : k.watchers) (hwired : w.Wired) {root : Value}
    {path' : Path} (hlike : ∀ r, (k.sight w).Gives (Query.path root path) r →
      ∃ r', (k.sight w).Gives (Query.path root path') r' ∧ r'.toOption = r.toOption) :
    k.ReadsLike w root path path' := by
  intro reader depth r w' hrun
  obtain ⟨r', hr', hsame⟩ := hlike r (hfair.gives_path hk hw hwired hrun)
  refine ⟨r', hsame, hfair.reads_path hk hw hwired hr' reader, fun depth r'' w' hrun' => ?_⟩
  exact View.Gives.unique (hfair.gives_path hk hw hwired hrun') hr'

theorem Fair.fronted (hk : k.Lawful) (hfair : k.Fair w) (hw : k.watchers) (hwired : w.Wired) : k.Fronted w := by
  intro owner key rest path below hfronts hpath
  have hdata : (k.sight w).slot (w.viewModel owner).root "$data"
      = some (.constant (.object (w.viewModel owner).data)) := slotAt_constant hfronts.data
  have hkey : (k.sight w).slot (w.viewModel owner).root key = (k.sight w).slot (w.viewModel owner).data key :=
    hwired.slotAt_proxy hfronts.key
  exact ⟨hfair.reads_like hk hw hwired fun _ => (View.gives_path_below hpath hdata hkey).1,
    hfair.reads_like hk hw hwired fun _ => (View.gives_path_below hpath hdata hkey).2⟩

end Realm

/--
A view model can be read as its data. In an orderly run, at every moment and while whatever changes are being told,
and when the run is over: a path that begins with a key for which the root of a view model has a proxy, and the same
path from below the data, are read as the same value, or both of them fail.
-/
theorem Engine.read_as_data {α : Type} {k : Realm Code Memory} (hk : k.Lawful) (hwatchers : k.watchers)
    {memory : Memory} (hmemory : k.record memory = []) (depth : Nat) {program : Program Code Memory α}
    (h : Throughout k.order k.application depth program { memory }) :
    Throughout (fun _ moment w => (∀ s, moment ≠ .telling s) → k.Fronted w) k.application depth program { memory } ∧
      ∀ r w', run k.application depth program { memory } = some (r, w') → k.Fronted w' := by
  have hreads : ∀ (waiting : List Subscriber) moment w, ((∀ s, moment ≠ .telling s) → k.Heeds (· ∈ waiting) w) →
      k.Orderly moment w → (∀ s, moment ≠ .telling s) → k.Fronted w :=
    fun _ _ _ hheeds horder hmoment => horder.fair.fronted hk hwatchers (hheeds hmoment).wired
  obtain ⟨hthroughout, hend⟩ := Realm.heeds_throughout hk hreads hmemory depth h
  exact ⟨hthroughout, fun r w' hrun =>
    (hend r w' hrun).fair.fronted hk hwatchers (hend r w' hrun).heeds.wired⟩

/-- The view model of the copying can be read as its data. -/
theorem Engine.read_as_data_copying :
    Realm.copier.Lawful ∧ Realm.copier.watchers ∧
      Throughout Realm.copier.order Application.copier 4 Program.copying { memory := [] } ∧
      (run Application.copier 4 Program.copying { memory := [] }).map (fun outcome =>
        ((outcome.2.viewModel ⟨0⟩).data, (outcome.2.object (outcome.2.viewModel ⟨0⟩).root).keys))
          = some (⟨0⟩, ["field", "_", "$data"]) ∧
      Throughout (fun _ moment w => (∀ s, moment ≠ .telling s) → Realm.copier.Fronted w)
        Application.copier 4 Program.copying { memory := [] } ∧
      ∀ r w', run Application.copier 4 Program.copying { memory := [] } = some (r, w') → Realm.copier.Fronted w' :=
  ⟨Realm.lawful_copier, trivial, Realm.orderly_copying, by decide +kernel,
    read_as_data Realm.lawful_copier trivial rfl 4 Realm.orderly_copying⟩

/-! ### Writing -/

namespace Engine

open World

variable {c : Reentry Code Memory} {w : World Code Memory} {object target : ObjectId} {key name : String}
  {owner : ViewModelId} {rest : List String} {path below : Path} {value : Value} {reader : Option TrackerId}
  {visited : List (ObjectId × String)}

omit [Inhabited Code] in
theorem keeping_keeping_nil {α : Type} (refs : List Ref) (x : Engine Code Memory α) (w : World Code Memory) :
    keeping refs (keeping [] x) w = keeping refs x w := by
  simp only [keeping, List.nil_append, Option.map_map]
  rfl

omit [Inhabited Code] in
/-- Writing a proxy is writing what it stands for, while the object of the proxy is held. -/
theorem set_proxy (c : Reentry Code Memory) (value : Value) (hne : target ≠ object)
    (hproxy : w.resolve object key = (target, name)) (htarget : w.resolve target name = (target, name)) :
    set c object key value w = keeping [.object object] (set c target name value) w := by
  let write : Engine Code Memory Unit := do
    writeSlot c target name value (← inspect fun w => (w.object target).slot? name)
  have hset : ∀ v : World Code Memory, v.resolve target name = (target, name) →
      set c target name value v = keeping [] write v := by
    intro v hv
    have hresolve : inspect (·.resolve target name) v = some (.ok (target, name), v) := by rw [inspect, hv]
    rw [set, bind_of_run hresolve]
    simp only [if_true]
    rfl
  have hresolve : inspect (·.resolve object key) w = some (.ok (target, name), w) := by rw [inspect, hproxy]
  have hwrite : set c object key value w = keeping [.object object] write w := by
    rw [set, bind_of_run hresolve]
    simp only [if_neg hne]
    rfl
  have hthere : ({ w with held := [.object object] ++ w.held } : World Code Memory).resolve target name
      = (target, name) :=
    (@resolve_congr _ _ w { w with held := [.object object] ++ w.held } rfl (fun _ => rfl) target name).trans htarget
  have hheld : set c target name value { w with held := [.object object] ++ w.held }
      = keeping [] write { w with held := [.object object] ++ w.held } := hset _ hthere
  rw [hwrite, ← keeping_keeping_nil]
  exact congrArg (Option.map _) hheld.symm

omit [Inhabited Code] in
/-- What a path through a proxy leads past, and where it leads. -/
theorem passage_proxy (hw : w.Wired) (hslot : (w.object object).slot? key = some (.proxy target name))
    (rest : List String) : w.passage (.object object) (key :: rest) = w.passage (.object target) (name :: rest) := by
  rw [passage, passage, hw.slotAt_proxy hslot, hw.resolve_proxy hslot]

omit [Inhabited Code] in
/-- The data is where a walk comes to that begins at the root. -/
theorem passage_data (hfronts : w.Fronts owner key) {segments : List String}
    (hpassage : w.passage (.object (w.viewModel owner).data) segments = some (visited, .object object)) :
    ∃ visited', w.passage (.object (w.viewModel owner).root) ("$data" :: segments)
      = some (visited', .object object) := by
  refine ⟨_, passage_object.mpr ⟨_, visited, ?_, hpassage, rfl⟩⟩
  rw [slotAt_constant hfronts.data]
  rfl

/-- A path that goes on below a key of the data is written as the path from below the data, wherever stored values
lead. -/
theorem write_below (hw : w.Wired) (hfronts : w.Fronts owner key) (hpath : path.Below key rest below)
    (hrest : rest ≠ [])
    (hpassage : w.passage (.object (w.viewModel owner).root) path.parents = some (visited, .object object)) :
    writePath c (.object (w.viewModel owner).root) path value reader w
      = writePath c (.object (w.viewModel owner).root) below value reader w := by
  obtain ⟨first, others, rfl⟩ := List.exists_cons_of_ne_nil hrest
  have hparents : path.parents = key :: (first :: others).dropLast := by rw [Path.parents, hpath.path]; rfl
  have hparents' : below.parents = "$data" :: key :: (first :: others).dropLast := by
    rw [Path.parents, hpath.below]
    rfl
  have hlast : below.last = path.last := by
    refine Option.some.inj ?_
    rw [Path.last, Path.last, ← List.getLast?_eq_some_getLast, ← List.getLast?_eq_some_getLast, hpath.path,
      hpath.below, List.getLast?_cons_cons]
  have hdata : w.passage (.object (w.viewModel owner).data) (key :: (first :: others).dropLast)
      = some (visited, .object object) := by rw [← passage_proxy hw hfronts.key, ← hparents, hpassage]
  obtain ⟨visited', hbelow⟩ := passage_data hfronts hdata
  rw [← hparents'] at hbelow
  rw [writePath_unread hpassage, writePath_unread hbelow, hlast]

/-- A key of the data is written as below the data if it holds no proxy itself, and the root is held meanwhile. -/
theorem write_key (hw : w.Wired) (hfronts : w.Fronts owner key) (hpath : path.Below key [] below)
    (hend : w.resolve (w.viewModel owner).data key = ((w.viewModel owner).data, key)) :
    writePath c (.object (w.viewModel owner).root) path value reader w
        = (keeping [.object (w.viewModel owner).root] (set c (w.viewModel owner).data key value)
            (w.paused reader)).map (fun p => (p.1, p.2.resumed reader)) ∧
      writePath c (.object (w.viewModel owner).root) below value reader w
        = (set c (w.viewModel owner).data key value (w.paused reader)).map fun p => (p.1, p.2.resumed reader) := by
  have hresolve : ∀ object name, (w.paused reader).resolve object name = w.resolve object name := by
    cases reader with
    | none => exact fun _ _ => rfl
    | some t => exact resolve_congr rfl fun _ => rfl
  have hne : (w.viewModel owner).data ≠ (w.viewModel owner).root := by
    intro heq
    have hbefore := hw.proxy _ _ _ _ hfronts.key
    rw [heq] at hbefore
    exact Nat.lt_irrefl _ hbefore
  have hroot : w.passage (.object (w.viewModel owner).root) path.parents
      = some ([], .object (w.viewModel owner).root) := by
    rw [Path.parents, hpath.path]
    rfl
  have hdata : w.passage (.object (w.viewModel owner).data) [] = some ([], .object (w.viewModel owner).data) := rfl
  obtain ⟨visited, hbelow⟩ := passage_data hfronts hdata
  have hparents : below.parents = ["$data"] := by
    rw [Path.parents, hpath.below]
    rfl
  have hlast : path.last = key ∧ below.last = key := by
    constructor
    · simp only [Path.last, hpath.path, List.getLast_singleton]
    · simp only [Path.last, hpath.below, List.getLast_cons_cons, List.getLast_singleton]
  rw [← hparents] at hbelow
  rw [writePath_unread hroot, writePath_unread hbelow, hlast.1, hlast.2]
  refine ⟨?_, rfl⟩
  rw [set_proxy c value hne ?_ ?_]
  · rw [hresolve, hw.resolve_proxy hfronts.key, hend]
  · rw [hresolve, hend]

end Engine

end ViewBinding
