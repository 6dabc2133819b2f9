import Rtl.Proofs.Pipeline.Leaves
import Rtl.Proofs.Types.Building

namespace Rtl

theorem Arena.modify_allocWith {kind : Kind} {α : Type} (arena : Arena kind α) (item : Id kind → α)
    (change : α → α) :
    (arena.allocWith item).2.modify arena.nextId change =
      (arena.allocWith fun id => change (item id)).2 := by
  refine congrArg Arena.mk (Array.ext_getElem? fun index => ?_)
  simp only [allocWith, nextId, size, Array.getElem?_modify, Array.getElem?_push]
  split
  · rename_i hlast
    rw [if_pos hlast.symm, if_pos hlast.symm]
    rfl
  · rename_i hother
    rw [if_neg (Ne.symm hother), if_neg (Ne.symm hother)]

theorem Arena.mem_toList_of_get? {kind : Kind} {α : Type} {arena : Arena kind α} {id : Id kind}
    {item : α} (h : arena.get? id = some item) : item ∈ arena.toList :=
  Array.mem_toList_iff.mpr (Array.mem_of_getElem? h)

theorem TypeTable.GrowsTo.get? {types later : TypeTable} (h : types.GrowsTo later) {id : TypeId}
    {type : HwType} (htype : types.get? id = some type) : later.get? id = some type := by
  obtain ⟨more, hmore⟩ := h
  have hlookup (table : TypeTable) : table.get? id = table.types.toList[id.index]? :=
    Array.getElem?_toList.symm
  rw [hlookup] at htype ⊢
  rw [hmore]
  exact List.getElem?_append_left (List.getElem?_eq_some_iff.mp htype).1 ▸ htype

-- A signal that can be declared as it is: by name, of a type that needs no
-- declaration, and in use.
structure Signal.Declarable (names : NameTable) (types : TypeTable) (signal : Signal) : Prop where
  shown : signal.hidden = false
  default : signal.default = none
  name : ∃ text, names.text? signal.name = some text
  type : ∃ width signedness force, types.get? signal.type = some (.bits width signedness force)
  used : signal.drivers ≠ [] ∨ signal.readers ≠ []

-- An entity whose names are there.
structure Entity.Named (entity : Entity) (names : NameTable) : Prop where
  name : ∃ text, names.text? entity.name = some text
  ports : ∀ id port, entity.ports.get? id = some port → ∃ text, names.text? port.name = some text

-- A unit of ports and signals alone.
structure Design.Plain (design : Design) : Prop where
  numbered : design.arch.Numbered
  typed : design.arch.entity.Typed design.types
  entity : design.arch.entity.Named design.names
  name : ∃ text, design.names.text? design.arch.name = some text
  signals : ∀ id signal, design.arch.signals.get? id = some signal →
    signal.Declarable design.names design.types
  bindings : ∀ binding ∈ design.arch.portBindings, design.arch.hasSignal binding.2 ∧
    ∃ direction, design.arch.portDirection? binding.1 = some direction
  connections : design.arch.connections = []
  processes : design.arch.processes = .empty
  components : design.arch.components = []

theorem Entity.Named.intern {entity : Entity} {names : NameTable} (h : entity.Named names)
    (text : String) : entity.Named (names.intern text).2 := by
  have hkept {id : NameId} (hid : ∃ old, names.text? id = some old) :
      ∃ old, (names.intern text).2.text? id = some old :=
    hid.imp fun _ hold => NameTable.text?_intern_of_text? hold text
  exact ⟨hkept h.name, fun id port hport => hkept (h.ports id port hport)⟩

theorem Entity.Named.addPort {entity : Entity} {names : NameTable} (h : entity.Named names)
    (text : String) (direction : Direction) (type : TypeId) :
    (entity.addPort (names.intern text).1 direction type).2.Named (names.intern text).2 := by
  have hkept := h.intern text
  refine ⟨hkept.name, fun id port hport => ?_⟩
  have hadded : (entity.ports.allocWith fun id =>
      ⟨id, (names.intern text).1, direction, type⟩).2.get? id = some port := hport
  rcases Arena.get?_allocWith_iff.mp hadded with hold | ⟨-, rfl⟩
  · exact hkept.ports id port hold
  · exact ⟨text, names.text?_intern text⟩

namespace Workbench

-- The unit has only ports at first.

theorem named_addPorts (design : Design) {entity : Entity} (requests : List PortRequest)
    (hnumbered : entity.ports.Numbered Port.id) (hnamed : entity.Named design.names) :
    (addPorts design entity requests).1.ports.Numbered Port.id ∧
      (addPorts design entity requests).1.Named (addPorts design entity requests).2.names := by
  induction requests generalizing design entity with
  | nil => exact ⟨hnumbered, hnamed⟩
  | cons request rest ih => exact ih _ (hnumbered.push rfl) (hnamed.addPort request.name _ _)

theorem plain_ofPorts (settings : Settings) (entity : String) (ports : List PortRequest) :
    (ofPorts settings entity ports).design.Plain := by
  have hfirst : (Entity.ofName (NameTable.empty.intern entity).1).Named
      (NameTable.empty.intern entity).2 := by
    refine ⟨⟨entity, NameTable.empty.text?_intern entity⟩, fun id port hport => ?_⟩
    simp [Entity.ofName, Arena.get?, Arena.empty] at hport
  let name := (NameTable.empty.intern entity).1
  let unnamed : Design :=
    ⟨(NameTable.empty.intern entity).2, .empty, .ofEntity name (.ofName name)⟩
  obtain ⟨hnumbered, hnamed⟩ := named_addPorts unnamed ports Arena.numbered_empty hfirst
  refine ⟨⟨hnumbered, Arena.numbered_empty, Arena.numbered_empty⟩,
    typed_ofPorts settings entity ports, hnamed.intern "rtl",
    ⟨"rtl", NameTable.text?_intern _ "rtl"⟩, fun id signal hsignal => ?_,
    fun binding hbinding => ?_, rfl, rfl, rfl⟩
  · simp [ofPorts, Architecture.ofEntity, Arena.get?, Arena.empty] at hsignal
  · simp [ofPorts, Architecture.ofEntity] at hbinding

end Workbench

-- The backing signal of a leaf on a port.
def Signal.onPort (name : NameId) (type : TypeId) (leaf : NodeId) (port : PortId)
    (direction : Direction) (id : SignalId) : Signal :=
  { id, name, type, default := none
    drivers := if direction = .output then [] else [.port port]
    readers := if direction = .input then [] else [.port port]
    hidden := false, origin := none, leaf := some leaf }

namespace Architecture

def addOnPort (arch : Architecture) (name : NameId) (type : TypeId) (leaf : NodeId) (port : PortId)
    (direction : Direction) : Architecture :=
  { arch with
    signals := (arch.signals.allocWith (Signal.onPort name type leaf port direction)).2
    portBindings := arch.portBindings ++ [(port, arch.signals.nextId)] }

theorem bindPort_addSignal {arch : Architecture} {port : PortId} {direction : Direction}
    (name : NameId) (type : TypeId) (leaf : NodeId)
    (hdirection : arch.portDirection? port = some direction) :
    ((arch.addSignal name type none).2.setLeaf arch.signals.nextId leaf).bindPort
        arch.signals.nextId port = arch.addOnPort name type leaf port direction := by
  have hbound : ((arch.addSignal name type none).2.setLeaf arch.signals.nextId leaf).portDirection?
      port = some direction := hdirection
  rw [bindPort, hbound]
  cases direction with
  | input | output | inout =>
      simp only [addSignal, setLeaf, addDriver, addReader, Arena.modify_allocWith]
      rfl

end Architecture

theorem Signal.Declarable.grows {names : NameTable} {types later : TypeTable} {signal : Signal}
    (h : signal.Declarable names types) (hgrows : types.GrowsTo later) (text : String) :
    signal.Declarable (names.intern text).2 later := by
  obtain ⟨name, hname⟩ := h.name
  obtain ⟨width, signedness, force, htype⟩ := h.type
  exact ⟨h.shown, h.default, ⟨name, NameTable.text?_intern_of_text? hname text⟩,
    ⟨width, signedness, force, hgrows.get? htype⟩, h.used⟩

theorem Signal.declarable_onPort (names : NameTable) (types : TypeTable) (name : String)
    (width : Nat) (leaf : NodeId) (port : PortId) (direction : Direction) (id : SignalId) :
    (Signal.onPort (names.intern name).1 (types.ofWidth width).1 leaf port direction id).Declarable
      (names.intern name).2 (types.ofWidth width).2 := by
  refine ⟨rfl, rfl, ⟨name, names.text?_intern name⟩, ?_, ?_⟩
  · have htype := types.get?_intern (if width = 1 then .bit else .vector width)
    by_cases hone : width = 1
    · exact ⟨1, .plain, false, htype.trans (congrArg some (if_pos hone))⟩
    · exact ⟨width, .plain, width == 1, htype.trans (congrArg some (if_neg hone))⟩
  · cases direction with
    | input | inout => exact .inl (List.cons_ne_nil _ _)
    | output => exact .inr (List.cons_ne_nil _ _)

theorem Design.Plain.addOnPort {design : Design} {port : PortId} {direction : Direction}
    (h : design.Plain) (name : String) (width : Nat) (leaf : NodeId)
    (hdirection : design.arch.portDirection? port = some direction) :
    Design.Plain
      { names := (design.names.intern name).2, types := (design.types.ofWidth width).2
        arch := design.arch.addOnPort (design.names.intern name).1 (design.types.ofWidth width).1
          leaf port direction } := by
  have hgrows : design.types.GrowsTo (design.types.ofWidth width).2 := TypeTable.growsTo_intern ..
  refine ⟨⟨h.numbered.ports, h.numbered.signals.push rfl, h.numbered.processes⟩,
    fun id found hport => (h.typed id found hport).trans_le hgrows.size_le, h.entity.intern name,
    h.name.imp fun _ htext => NameTable.text?_intern_of_text? htext name, ?_, ?_, h.connections,
    h.processes, h.components⟩
  · intro id signal hsignal
    rcases Arena.get?_allocWith_iff.mp hsignal with hold | ⟨-, rfl⟩
    · exact (h.signals id signal hold).grows hgrows name
    · exact Signal.declarable_onPort ..
  · intro binding hbinding
    have hsize := design.arch.signals.size_allocWith <|
      Signal.onPort (design.names.intern name).1 (design.types.ofWidth width).1 leaf port direction
    rcases List.mem_append.mp hbinding with hold | hnew
    · obtain ⟨hsignal, hport⟩ := h.bindings binding hold
      exact ⟨decide_eq_true ((Nat.lt_succ_of_lt (of_decide_eq_true hsignal)).trans_eq hsize.symm),
        hport⟩
    · obtain rfl := List.mem_singleton.mp hnew
      exact ⟨decide_eq_true ((Nat.lt_succ_self _).trans_eq hsize.symm), direction, hdirection⟩

namespace Backing

open Forest

variable {id : NodeId} {port : PortId} {direction : Direction} {state : NodeState}
  {design before now last : Design}

-- A leaf that has a port and no signal.
structure Waiting (arch : Architecture) (state : NodeState) : Prop where
  port : ∃ port direction, state.port = some port ∧ arch.portDirection? port = some direction
  signal : state.signal = none

-- A leaf with its port and its signal, which is marked as the signal of the leaf.
structure Carried (arch : Architecture) (leaf : NodeId × NodeState)
    (binding : PortId × SignalId) : Prop where
  port : leaf.2.port = some binding.1
  signal : leaf.2.signal = some binding.2
  tagged : ∃ signal, arch.signals.get? binding.2 = some signal ∧ signal.leaf = some leaf.1

theorem leaf_eq_addOnPort (name : String) (hsignal : state.signal = none)
    (hport : state.port = some port)
    (hdirection : design.arch.portDirection? port = some direction) :
    leaf id name state design =
      (design.arch.signals.nextId, { state with signal := some design.arch.signals.nextId },
        { names := (design.names.intern name).2, types := (design.types.ofWidth state.width).2
          arch := design.arch.addOnPort (design.names.intern name).1
            (design.types.ofWidth state.width).1 id port direction }) := by
  have harch := Architecture.bindPort_addSignal (design.names.intern name).1
    (design.types.ofWidth state.width).1 id hdirection
  simp only [leaf, hsignal, hport, ← harch]
  rfl

-- Signals for some leaves were made and put on their ports.
structure Backs (before now : Design) (leaves : List (NodeId × NodeState))
    (made : List (PortId × SignalId)) : Prop where
  plain : before.Plain → now.Plain
  entity : now.arch.entity = before.arch.entity
  portBindings : now.arch.portBindings = before.arch.portBindings ++ made
  signals : ∀ id signal, before.arch.signals.get? id = some signal →
    now.arch.signals.get? id = some signal
  carried : List.Forall₂ (Carried now.arch) leaves made

theorem Carried.of_signals {arch next : Architecture} {leaf : NodeId × NodeState}
    {binding : PortId × SignalId} (h : Carried arch leaf binding)
    (hsignals : ∀ id signal, arch.signals.get? id = some signal →
      next.signals.get? id = some signal) : Carried next leaf binding := by
  obtain ⟨signal, hsignal, htag⟩ := h.tagged
  exact ⟨h.port, h.signal, signal, hsignals _ _ hsignal, htag⟩

theorem filterMap_port_of_carried {arch : Architecture} {leaves : List (NodeId × NodeState)}
    {bindings : List (PortId × SignalId)} (h : List.Forall₂ (Carried arch) leaves bindings) :
    (leaves.filterMap fun leaf => leaf.2.port) = bindings.map (·.1) := by
  induction h with
  | nil => rfl
  | cons hfirst hrest ih => simp only [List.filterMap_cons, hfirst.port, ih, List.map_cons]

theorem Waiting.of_entity {arch next : Architecture} (h : Waiting arch state)
    (hentity : next.entity = arch.entity) : Waiting next state := by
  obtain ⟨port, direction, hport, hdirection⟩ := h.port
  refine ⟨⟨port, direction, hport, ?_⟩, h.signal⟩
  rw [Architecture.portDirection?, hentity]
  exact hdirection

namespace Backs

variable {leaves others : List (NodeId × NodeState)} {made more : List (PortId × SignalId)}

theorem refl (design : Design) : Backs design design [] [] :=
  ⟨id, rfl, (List.append_nil _).symm, fun _ _ h => h, .nil⟩

theorem trans (h : Backs before now leaves made) (hnext : Backs now last others more) :
    Backs before last (leaves ++ others) (made ++ more) where
  plain hplain := hnext.plain (h.plain hplain)
  entity := hnext.entity.trans h.entity
  portBindings := by rw [hnext.portBindings, h.portBindings, List.append_assoc]
  signals id signal hsignal := hnext.signals id signal (h.signals id signal hsignal)
  carried := List.rel_append (h.carried.imp fun _ _ hleaf => hleaf.of_signals hnext.signals)
    hnext.carried

end Backs

theorem backs_leaf (id : NodeId) (name : String) (h : Waiting design.arch state) :
    ∃ made, Backs design (leaf id name state design).2.2 [(id, (leaf id name state design).2.1)]
      made := by
  obtain ⟨⟨port, direction, hport, hdirection⟩, hsignal⟩ := h
  rw [leaf_eq_addOnPort name hsignal hport hdirection]
  have hnew := design.arch.signals.get?_allocWith_self (Signal.onPort
    (design.names.intern name).1 (design.types.ofWidth state.width).1 id port direction)
  refine ⟨[(port, design.arch.signals.nextId)], ?_, rfl, rfl, ?_, ?_⟩
  · exact fun hplain => hplain.addOnPort name state.width id hdirection
  · exact fun other signal hsignal => Arena.get?_allocWith_iff.mpr (.inl hsignal)
  · exact .cons ⟨hport, rfl, _, hnew, rfl⟩ .nil

theorem backs_members (separator : String) (id : Nat) (stem : String)
    (forest : Forest NodeState) (design : Design)
    (h : ∀ leaf ∈ forest.numberedLeaves id, Waiting design.arch leaf.2) :
    ∃ made, Backs design (members separator id stem forest design).2.2
      ((members separator id stem forest design).2.1.numberedLeaves id) made := by
  induction forest generalizing id stem design with
  | nil => exact ⟨[], .refl design⟩
  | cons name state inner rest ihi ihr =>
      cases inner with
      | nil =>
          obtain ⟨hfirst, hrest⟩ := List.forall_mem_cons.mp h
          obtain ⟨made, hmade⟩ := backs_leaf ⟨id⟩ (stem ++ separator ++ name) hfirst
          obtain ⟨more, hmore⟩ := ihr (id + 1) stem _
            fun leaf hmem => (hrest leaf hmem).of_entity hmade.entity
          exact ⟨made ++ more, hmade.trans hmore⟩
      | cons first item below beside =>
          obtain ⟨hinner, hrest⟩ := List.forall_mem_append.mp h
          obtain ⟨made, hmade⟩ := ihi (id + 1) (stem ++ separator ++ name) design hinner
          obtain ⟨more, hmore⟩ := ihr _ stem _
            fun leaf hmem => (hrest leaf hmem).of_entity hmade.entity
          obtain ⟨hsize, -⟩ := members_keeps separator (id + 1) (stem ++ separator ++ name)
            (.cons first item below beside) design
          have hpos := size_cons_pos first item below beside
          refine ⟨made ++ more, ?_⟩
          simp only [members]
          rw [numberedLeaves_of_size_pos (hsize ▸ hpos), hsize]
          exact hmade.trans hmore

end Backing

end Rtl
