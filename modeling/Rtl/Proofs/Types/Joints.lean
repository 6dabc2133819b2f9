import Rtl.Interface.Wiring
import Rtl.Proofs.Construction

namespace Rtl

theorem Arena.get?_allocWith_iff {kind : Kind} {α : Type} {arena : Arena kind α}
    {item : Id kind → α} {id : Id kind} {found : α} :
    (arena.allocWith item).2.get? id = some found ↔
      arena.get? id = some found ∨ id = arena.nextId ∧ found = item arena.nextId := by
  by_cases hlast : id.index = arena.items.size
  · obtain rfl : id = arena.nextId := Id.index_injective hlast
    have hnone : arena.get? arena.nextId = none := Array.getElem?_eq_none hlast.ge
    have hnew := arena.get?_allocWith_self item
    rw [hnone]
    exact ⟨fun h => .inr ⟨rfl, Option.some.inj (h.symm.trans hnew)⟩,
      fun | .inr ⟨_, h⟩ => h ▸ hnew⟩
  · have hid : id ≠ arena.nextId := fun h => hlast (congrArg Id.index h)
    simp [allocWith, get?, Array.getElem?_push, hlast, hid]

-- What of a signal its declaration shows of its type.
def Signal.face (signal : Signal) : TypeId × Option Value × Bool :=
  (signal.type, signal.default, signal.hidden)

namespace Architecture

-- The types of the two sides of a connection, of a port and the signal on it, and
-- of a signal and the default in its declaration.
inductive Joins (arch : Architecture) : TypeId → TypeId → Prop
  | connection {link : Connection} {driven driving : Signal} (hlink : link ∈ arch.connections)
      (hdriven : arch.signals.get? link.destination = some driven)
      (hdriving : arch.signals.get? link.source = some driving) :
      Joins arch driven.type driving.type
  | port {binding : PortId × SignalId} {port : Port} {signal : Signal}
      (hbinding : binding ∈ arch.portBindings)
      (hport : arch.entity.ports.get? binding.1 = some port)
      (hsignal : arch.signals.get? binding.2 = some signal) : Joins arch port.type signal.type
  | default {id : SignalId} {signal : Signal} {value : Value}
      (hsignal : arch.signals.get? id = some signal) (hshown : signal.hidden = false)
      (hdefault : signal.default = some value) (hdefined : value.anyDefined = true) :
      Joins arch signal.type value.type

def Uniform (arch : Architecture) : Prop := ∀ a b, arch.Joins a b → a = b

-- What one more connection, binding or default joins.

def Links (arch : Architecture) (link : Connection) : Prop :=
  ∀ driven driving, arch.signals.get? link.destination = some driven →
    arch.signals.get? link.source = some driving → driven.type = driving.type

def Carries (arch : Architecture) (binding : PortId × SignalId) : Prop :=
  ∀ port signal, arch.entity.ports.get? binding.1 = some port →
    arch.signals.get? binding.2 = some signal → port.type = signal.type

end Architecture

def Signal.Starts (type : TypeId) (default : Option Value) : Prop :=
  ∀ value, default = some value → value.anyDefined = true → type = value.type

namespace Architecture

variable {arch next last : Architecture}

-- The same signals, with the same types and defaults.
def SameFaces (arch next : Architecture) : Prop :=
  ∀ id, (next.signals.get? id).map Signal.face = (arch.signals.get? id).map Signal.face

theorem SameFaces.symm (h : arch.SameFaces next) : next.SameFaces arch := fun id => (h id).symm

theorem SameFaces.exists_signal (h : arch.SameFaces next) {id : SignalId} {signal : Signal}
    (hsignal : arch.signals.get? id = some signal) :
    ∃ found, next.signals.get? id = some found ∧ found.type = signal.type ∧
      found.default = signal.default ∧ found.hidden = signal.hidden := by
  have hface := h id
  rw [hsignal] at hface
  obtain ⟨found, hfound, hsame⟩ := Option.map_eq_some_iff.mp hface
  obtain ⟨htype, hrest⟩ := Prod.mk.inj hsame
  obtain ⟨hdefault, hhidden⟩ := Prod.mk.inj hrest
  exact ⟨found, hfound, htype, hdefault, hhidden⟩

-- Two architectures that join the same.
structure Alike (arch next : Architecture) : Prop where
  entity : next.entity = arch.entity
  processes : next.processes = arch.processes
  connections : next.connections = arch.connections
  portBindings : next.portBindings = arch.portBindings
  faces : arch.SameFaces next

namespace Alike

theorem refl (arch : Architecture) : arch.Alike arch := ⟨rfl, rfl, rfl, rfl, fun _ => rfl⟩

theorem symm (h : arch.Alike next) : next.Alike arch :=
  ⟨h.entity.symm, h.processes.symm, h.connections.symm, h.portBindings.symm,
    h.faces.symm⟩

theorem trans (h : arch.Alike next) (hnext : next.Alike last) : arch.Alike last :=
  ⟨hnext.entity.trans h.entity, hnext.processes.trans h.processes,
    hnext.connections.trans h.connections, hnext.portBindings.trans h.portBindings,
    fun id => (hnext.faces id).trans (h.faces id)⟩

theorem modify (arch : Architecture) (id : SignalId) {change : Signal → Signal}
    (hchange : ∀ signal, (change signal).face = signal.face) :
    arch.Alike { arch with signals := arch.signals.modify id change } := by
  refine ⟨rfl, rfl, rfl, rfl, fun other => ?_⟩
  simp only [Arena.modify, Arena.get?, Array.getElem?_modify]
  split
  · simp only [Option.map_map, Function.comp_def, hchange]
  · rfl

-- The same step for each item of a list.
theorem foldl {α : Type} {change : Architecture → α → Architecture}
    (hchange : ∀ (arch : Architecture) item, arch.Alike (change arch item)) (items : List α)
    (arch : Architecture) : arch.Alike (items.foldl change arch) :=
  List.foldlRecOn items change (.refl arch) fun now hnow item _ => hnow.trans (hchange now item)

theorem addDriver (arch : Architecture) (id : SignalId) (driver : Driver) :
    arch.Alike (arch.addDriver id driver) := .modify arch id fun _ => rfl

theorem addReader (arch : Architecture) (id : SignalId) (reader : Reader) :
    arch.Alike (arch.addReader id reader) := .modify arch id fun _ => rfl

theorem joins (h : arch.Alike next) {a b : TypeId} (hjoins : arch.Joins a b) : next.Joins a b := by
  cases hjoins with
  | connection hlink hdriven hdriving =>
      obtain ⟨driven, hfound, htype, -⟩ := h.faces.exists_signal hdriven
      obtain ⟨driving, hfound', htype', -⟩ := h.faces.exists_signal hdriving
      rw [← htype, ← htype']
      exact .connection (h.connections ▸ hlink) hfound hfound'
  | port hbinding hport hsignal =>
      obtain ⟨signal, hfound, htype, -⟩ := h.faces.exists_signal hsignal
      rw [← htype]
      exact .port (h.portBindings ▸ hbinding) (h.entity ▸ hport) hfound
  | default hsignal hshown hdefault hdefined =>
      obtain ⟨signal, hfound, htype, hsame, hhidden⟩ := h.faces.exists_signal hsignal
      rw [← htype]
      exact .default hfound (hhidden.trans hshown) (hsame.trans hdefault) hdefined

theorem uniform_iff (h : arch.Alike next) : next.Uniform ↔ arch.Uniform :=
  ⟨fun hall a b hjoins => hall a b (h.joins hjoins),
    fun hall a b hjoins => hall a b (h.symm.joins hjoins)⟩

end Alike

-- What connections and bindings refer to is there.
structure Closed (arch : Architecture) : Prop where
  connections : ∀ link ∈ arch.connections,
    arch.hasSignal link.destination ∧ arch.hasSignal link.source
  portBindings : ∀ binding ∈ arch.portBindings, arch.hasSignal binding.2

theorem hasSignal_iff {id : SignalId} :
    arch.hasSignal id = true ↔ ∃ signal, arch.signals.get? id = some signal := by
  rw [hasSignal, Arena.contains, decide_eq_true_iff]
  exact ⟨fun hlt => ⟨_, Array.getElem?_eq_getElem hlt⟩,
    fun ⟨_, hsignal⟩ => (Array.getElem?_eq_some_iff.mp hsignal).1⟩

theorem Alike.hasSignal (h : arch.Alike next) {id : SignalId} (hid : arch.hasSignal id = true) :
    next.hasSignal id = true := by
  obtain ⟨signal, hsignal⟩ := hasSignal_iff.mp hid
  obtain ⟨found, hfound, -⟩ := h.faces.exists_signal hsignal
  exact hasSignal_iff.mpr ⟨found, hfound⟩

theorem Alike.closed (h : arch.Alike next) (hclosed : arch.Closed) : next.Closed := by
  refine ⟨fun link hlink => ?_, fun binding hbinding => ?_⟩
  · obtain ⟨hdestination, hsource⟩ := hclosed.connections link (h.connections ▸ hlink)
    exact ⟨h.hasSignal hdestination, h.hasSignal hsource⟩
  · exact h.hasSignal (hclosed.portBindings binding (h.portBindings ▸ hbinding))

-- How the operations change what is joined.

theorem Joins.mono {a b : TypeId} (h : arch.Joins a b) (hentity : next.entity = arch.entity)
    (hconnections : arch.connections ⊆ next.connections)
    (hbindings : arch.portBindings ⊆ next.portBindings)
    (hsignals : ∀ id signal, arch.signals.get? id = some signal →
      next.signals.get? id = some signal) : next.Joins a b := by
  cases h with
  | connection hlink hdriven hdriving =>
      exact .connection (hconnections hlink) (hsignals _ _ hdriven) (hsignals _ _ hdriving)
  | port hbinding hport hsignal =>
      exact .port (hbindings hbinding) (hentity ▸ hport) (hsignals _ _ hsignal)
  | default hsignal hshown hdefault hdefined =>
      exact .default (hsignals _ _ hsignal) hshown hdefault hdefined

theorem uniform_allocWith (hclosed : arch.Closed) (item : SignalId → Signal) :
    Uniform { arch with signals := (arch.signals.allocWith item).2 } ↔
      arch.Uniform ∧ ((item arch.signals.nextId).hidden = false →
        Signal.Starts (item arch.signals.nextId).type (item arch.signals.nextId).default) := by
  have hold {id : SignalId} {signal : Signal} (hid : arch.hasSignal id)
      (h : (arch.signals.allocWith item).2.get? id = some signal) :
      arch.signals.get? id = some signal :=
    (arch.signals.get?_allocWith_of_contains item id hid).symm.trans h
  constructor
  · intro hall
    refine ⟨fun a b hjoins => hall a b ?_, fun hshown value hdefault hdefined => ?_⟩
    · exact hjoins.mono rfl (List.Subset.refl _) (List.Subset.refl _)
        fun id signal h => Arena.get?_allocWith_iff.mpr (.inl h)
    · exact hall _ _ (.default (arch.signals.get?_allocWith_self item) hshown hdefault hdefined)
  · rintro ⟨hall, hnew⟩ a b hjoins
    cases hjoins with
    | connection hlink hdriven hdriving =>
        obtain ⟨hdestination, hsource⟩ := hclosed.connections _ hlink
        exact hall _ _ (.connection hlink (hold hdestination hdriven) (hold hsource hdriving))
    | port hbinding hport hsignal =>
        exact hall _ _ (.port hbinding hport (hold (hclosed.portBindings _ hbinding) hsignal))
    | default hsignal hshown hdefault hdefined =>
        rcases Arena.get?_allocWith_iff.mp hsignal with hsignal | ⟨-, rfl⟩
        · exact hall _ _ (.default hsignal hshown hdefault hdefined)
        · exact hnew hshown _ hdefault hdefined

theorem uniform_addConnection (link : Connection) :
    Uniform { arch with connections := arch.connections ++ [link] } ↔
      arch.Uniform ∧ arch.Links link := by
  constructor
  · intro hall
    refine ⟨fun a b hjoins => hall a b ?_, fun driven driving hdriven hdriving => ?_⟩
    · exact hjoins.mono rfl (List.subset_append_left ..) (List.Subset.refl _) fun _ _ h => h
    · exact hall _ _ (.connection List.mem_concat_self hdriven hdriving)
  · rintro ⟨hall, hnew⟩ a b hjoins
    cases hjoins with
    | connection hlink hdriven hdriving =>
        rcases List.mem_append.mp hlink with hlink | hlink
        · exact hall _ _ (.connection hlink hdriven hdriving)
        · obtain rfl := List.mem_singleton.mp hlink
          exact hnew _ _ hdriven hdriving
    | port hbinding hport hsignal => exact hall _ _ (.port hbinding hport hsignal)
    | default hsignal hshown hdefault hdefined =>
        exact hall _ _ (.default hsignal hshown hdefault hdefined)

theorem uniform_addBinding (binding : PortId × SignalId) :
    Uniform { arch with portBindings := arch.portBindings ++ [binding] } ↔
      arch.Uniform ∧ arch.Carries binding := by
  constructor
  · intro hall
    refine ⟨fun a b hjoins => hall a b ?_, fun port signal hport hsignal => ?_⟩
    · exact hjoins.mono rfl (List.Subset.refl _) (List.subset_append_left ..) fun _ _ h => h
    · exact hall _ _ (.port List.mem_concat_self hport hsignal)
  · rintro ⟨hall, hnew⟩ a b hjoins
    cases hjoins with
    | connection hlink hdriven hdriving => exact hall _ _ (.connection hlink hdriven hdriving)
    | port hbinding hport hsignal =>
        rcases List.mem_append.mp hbinding with hbinding | hbinding
        · exact hall _ _ (.port hbinding hport hsignal)
        · obtain rfl := List.mem_singleton.mp hbinding
          exact hnew _ _ hport hsignal
    | default hsignal hshown hdefault hdefined =>
        exact hall _ _ (.default hsignal hshown hdefault hdefined)

-- A step after which all that is joined has one type exactly if it had before and
-- what the step adds fits.
structure Adds (arch next : Architecture) (fits : Prop) : Prop where
  entity : next.entity = arch.entity
  processes : arch.processes.Numbered Process.id → next.processes.Numbered Process.id
  closed : arch.Closed → next.Closed
  uniform : arch.Closed → (next.Uniform ↔ arch.Uniform ∧ fits)

namespace Adds

variable {p q : Prop}

theorem of_iff (h : arch.Adds next p) (hiff : p ↔ q) : arch.Adds next q :=
  { h with uniform := fun hclosed => (h.uniform hclosed).trans (and_congr_right' hiff) }

theorem trans (h : arch.Adds next p) (hnext : next.Adds last q) : arch.Adds last (p ∧ q) where
  entity := hnext.entity.trans h.entity
  processes hnumbered := hnext.processes (h.processes hnumbered)
  closed hclosed := hnext.closed (h.closed hclosed)
  uniform hclosed := by
    rw [hnext.uniform (h.closed hclosed), h.uniform hclosed, and_assoc]

end Adds

theorem Alike.adds (h : arch.Alike next) : arch.Adds next True where
  entity := h.entity
  processes hnumbered := h.processes ▸ hnumbered
  closed := h.closed
  uniform _ := by rw [h.uniform_iff, and_true]

-- A step that adds nothing else than what it is followed by.
theorem Adds.alike {p : Prop} (h : arch.Adds next p) (hlast : next.Alike last) :
    arch.Adds last p := (h.trans hlast.adds).of_iff (by rw [and_true])

theorem adds_allocWith (arch : Architecture) (item : SignalId → Signal) :
    arch.Adds { arch with signals := (arch.signals.allocWith item).2 }
      ((item arch.signals.nextId).hidden = false →
        Signal.Starts (item arch.signals.nextId).type (item arch.signals.nextId).default) where
  entity := rfl
  processes := id
  closed h := by
    have hkeeps {id : SignalId} (hid : arch.hasSignal id) :
        hasSignal { arch with signals := (arch.signals.allocWith item).2 } id := by
      obtain ⟨signal, hsignal⟩ := hasSignal_iff.mp hid
      exact hasSignal_iff.mpr ⟨signal, Arena.get?_allocWith_iff.mpr (.inl hsignal)⟩
    exact ⟨fun link hlink => (h.connections link hlink).imp hkeeps hkeeps,
      fun binding hbinding => hkeeps (h.portBindings binding hbinding)⟩
  uniform h := uniform_allocWith h item

theorem adds_addSignal (arch : Architecture) (name : NameId) (type : TypeId)
    (default : Option Value) :
    arch.Adds (arch.addSignal name type default).2 (Signal.Starts type default) := by
  have hadded := arch.adds_allocWith fun id =>
    { id, name, type, default, drivers := [], readers := [], hidden := false, origin := none
      leaf := none }
  exact hadded.of_iff ⟨fun h => h rfl, fun h _ => h⟩

theorem exists_signal_addSignal (arch : Architecture) (name : NameId) (type : TypeId)
    (default : Option Value) :
    ∃ signal, (arch.addSignal name type default).2.signals.get?
      (arch.addSignal name type default).1 = some signal ∧ signal.type = type := by
  have hsignal := arch.signals.get?_allocWith_self fun id =>
    { id, name, type, default, drivers := [], readers := [], hidden := false, origin := none
      leaf := none }
  exact ⟨_, hsignal, rfl⟩

theorem adds_addHidden? {name : NameId} {type : TypeId} {origin : Expr} {id : SignalId}
    (h : arch.addHidden? name type origin = some (id, next)) : arch.Adds next True := by
  simp only [addHidden?, Option.ite_none_right_eq_some] at h
  obtain ⟨-, rfl⟩ := Prod.mk.inj (Option.some.inj h.2)
  have hadded := arch.adds_allocWith fun id =>
    { id, name, type, default := none, drivers := [], readers := [], hidden := true
      origin := some origin, leaf := none }
  exact (hadded.of_iff (by simp)).alike (.foldl (fun arch id => .addReader arch id _) ..)

theorem adds_addProcess? {name : NameId} {sensitivity : List SignalId} {body : List Statement}
    {id : ProcessId} (h : arch.addProcess? name sensitivity body = some (id, next)) :
    arch.Adds next True := by
  simp only [addProcess?, Option.ite_none_right_eq_some] at h
  obtain ⟨-, rfl⟩ := Prod.mk.inj (Option.some.inj h.2)
  let processes :=
    (arch.processes.allocWith fun id => ({ id, name, sensitivity, body } : Process)).2
  have hadded : arch.Adds { arch with processes } True := by
    refine ⟨rfl, fun hnumbered => hnumbered.push rfl, fun h => ⟨h.connections, h.portBindings⟩, ?_⟩
    refine fun _ => ⟨fun hall => ⟨fun a b hjoins => hall a b ?_, trivial⟩,
      fun hall a b hjoins => hall.1 a b ?_⟩
    all_goals
      exact hjoins.mono rfl (List.Subset.refl _) (List.Subset.refl _) fun _ _ h => h
  exact (hadded.alike (.foldl (fun arch _ => .addDriver arch ..) ..)).alike
    (.foldl (fun arch _ => .addReader arch ..) ..)

theorem adds_addComponent? {component : Component}
    (h : arch.addComponent? component = some next) : arch.Adds next True := by
  simp only [addComponent?, Option.ite_none_right_eq_some] at h
  obtain rfl := Option.some.inj h.2
  have hstep (arch' : Architecture) (entry : NameId × SignalId) : arch'.Alike
      ((arch'.addDriver entry.2 (.component arch.components.length)).addReader entry.2
        (.component arch.components.length)) := (Alike.addDriver ..).trans (.addReader ..)
  have hused := Alike.foldl hstep component.portMap arch
  exact Alike.adds
    ⟨hused.entity, hused.processes, hused.connections, hused.portBindings, hused.faces⟩

theorem SameFaces.links (h : arch.SameFaces next) {link : Connection} (hlink : arch.Links link) :
    next.Links link := by
  intro driven driving hdriven hdriving
  obtain ⟨found, hfound, htype, -⟩ := h.symm.exists_signal hdriven
  obtain ⟨found', hfound', htype', -⟩ := h.symm.exists_signal hdriving
  rw [← htype, ← htype']
  exact hlink found found' hfound hfound'

theorem adds_connect? {destination source : SignalId}
    (h : arch.connect? destination source = some next) :
    arch.Adds next (arch.Links ⟨destination, source⟩) ∧ arch.SameFaces next := by
  simp only [connect?, Option.ite_none_right_eq_some, Bool.and_eq_true] at h
  obtain ⟨⟨hdestination, hsource⟩, h⟩ := h
  obtain rfl := Option.some.inj h
  let joined : Architecture :=
    { arch with connections := arch.connections ++ [⟨destination, source⟩] }
  have hlink : arch.Adds joined (arch.Links ⟨destination, source⟩) := by
    refine ⟨rfl, id, fun hclosed => ⟨?_, hclosed.portBindings⟩, fun _ => uniform_addConnection _⟩
    intro link hlink
    rcases List.mem_append.mp hlink with hlink | hlink
    · exact hclosed.connections link hlink
    · obtain rfl := List.mem_singleton.mp hlink
      exact ⟨hdestination, hsource⟩
  have hends := (Alike.addDriver joined destination (.connection source)).trans
    (.addReader _ source (.connection destination))
  exact ⟨hlink.alike hends, hends.faces⟩

theorem adds_bindPort {signal : SignalId} (port : PortId) (hsignal : arch.hasSignal signal) :
    arch.Adds (arch.bindPort signal port) (arch.Carries (port, signal)) := by
  have hbinding : arch.Adds { arch with portBindings := arch.portBindings ++ [(port, signal)] }
      (arch.Carries (port, signal)) := by
    refine ⟨rfl, id, fun hclosed => ⟨hclosed.connections, ?_⟩, fun _ => uniform_addBinding _⟩
    intro binding hbinding
    rcases List.mem_append.mp hbinding with hbinding | hbinding
    · exact hclosed.portBindings binding hbinding
    · obtain rfl := List.mem_singleton.mp hbinding
      exact hsignal
  rw [bindPort]
  split
  · exact hbinding.alike (.addDriver ..)
  · exact hbinding.alike (.addReader ..)
  · exact (hbinding.alike (.addDriver ..)).alike (.addReader ..)
  · exact hbinding

-- The links of a wiring are made one after the other, among the same signals.
theorem adds_connectAll? {links : List Connection} (h : arch.connectAll? links = some next) :
    arch.Adds next (∀ link ∈ links, arch.Links link) := by
  induction links generalizing arch with
  | nil =>
      obtain rfl := Option.some.inj h
      exact (Alike.refl arch).adds.of_iff (by simp)
  | cons link rest ih =>
      obtain ⟨joined, hjoined, hrest⟩ := Option.bind_eq_some_iff.mp h
      obtain ⟨hfirst, hfaces⟩ := adds_connect? hjoined
      refine (hfirst.trans (ih hrest)).of_iff ?_
      rw [List.forall_mem_cons]
      refine and_congr_right' (forall₂_congr fun other _ => ?_)
      exact ⟨hfaces.symm.links, hfaces.links⟩

end Architecture

end Rtl
