import Rtl.Json.Stored
import Rtl.Proofs.Storage.Trees

namespace Rtl

open Json

namespace Direction

theorem restores : Restores ofJson? toJson fun _ => true := by
  intro direction _
  cases direction <;> rfl

end Direction

namespace Driver

def isStorable : Driver → Bool
  | .port id => fitsId id
  | .connection source => fitsId source
  | .statement id => fitsId id
  | .component position => fitsWord position

theorem restores : Restores ofJson? toJson isStorable := by
  intro driver h
  cases driver with
  | port id =>
      rw [ofJson?, toJson, variant?_ofVariant]
      simp -implicitDefEqProofs [restores_id .port id h]
  | connection source =>
      rw [ofJson?, toJson, variant?_ofVariant]
      simp -implicitDefEqProofs [restores_id .signal source h]
  | statement id =>
      rw [ofJson?, toJson, variant?_ofVariant]
      simp -implicitDefEqProofs [restores_id .statement id h]
  | component position =>
      rw [ofJson?, toJson, variant?_ofVariant]
      simp -implicitDefEqProofs [restores_word position h]

end Driver

namespace Reader

def isStorable : Reader → Bool
  | .port id => fitsId id
  | .connection destination => fitsId destination
  | .process id => fitsId id
  | .component position => fitsWord position

theorem restores : Restores ofJson? toJson isStorable := by
  intro reader h
  cases reader with
  | port id =>
      rw [ofJson?, toJson, variant?_ofVariant]
      simp -implicitDefEqProofs [restores_id .port id h]
  | connection destination =>
      rw [ofJson?, toJson, variant?_ofVariant]
      simp -implicitDefEqProofs [restores_id .signal destination h]
  | process id =>
      rw [ofJson?, toJson, variant?_ofVariant]
      simp -implicitDefEqProofs [restores_id .process id h]
  | component position =>
      rw [ofJson?, toJson, variant?_ofVariant]
      simp -implicitDefEqProofs [restores_word position h]

end Reader

namespace Signal

def isStorable (signal : Signal) : Bool :=
  fitsId signal.id && fitsId signal.name && fitsId signal.type &&
    signal.default.all Value.isStorable && signal.drivers.all Driver.isStorable &&
    signal.readers.all Reader.isStorable && signal.origin.all Expr.isStorable &&
    signal.leaf.all fitsId

theorem restores : Restores ofJson? toJson isStorable := by
  intro signal h
  simp only [isStorable, Bool.and_eq_true] at h
  obtain ⟨⟨⟨⟨⟨⟨⟨hid, hname⟩, htype⟩, hdefault⟩, hdrivers⟩, hreaders⟩, horigin⟩, hleaf⟩ := h
  have hid := restores_id .signal signal.id hid
  have hname := restores_id .name signal.name hname
  have htype := restores_id .type signal.type htype
  have hdefault := Value.restores.option nofun signal.default hdefault
  have hdrivers := Driver.restores.list signal.drivers hdrivers
  have hreaders := Reader.restores.list signal.readers hreaders
  have hhidden := restores_bool signal.hidden rfl
  have horigin := Expr.restores.option Expr.toJson_ne_null signal.origin horigin
  have hleaf := (restores_id .node).option nofun signal.leaf hleaf
  rw [ofJson?, toJson, fields?_object (by rfl) (by decide)]
  simp -implicitDefEqProofs [required_some, optional_some, hid, hname, htype, hdefault, hdrivers,
    hreaders, hhidden, horigin, hleaf]

end Signal

namespace Process

def isStorable (process : Process) : Bool :=
  fitsId process.id && fitsId process.name && process.sensitivity.all fitsId &&
    process.body.all Statement.isStorable

theorem restores : Restores ofJson? toJson isStorable := by
  intro process h
  simp only [isStorable, Bool.and_eq_true] at h
  obtain ⟨⟨⟨hid, hname⟩, hsensitivity⟩, hbody⟩ := h
  have hid := restores_id .process process.id hid
  have hname := restores_id .name process.name hname
  have hsensitivity := (restores_id .signal).list process.sensitivity hsensitivity
  have hbody := Statement.restores.list process.body hbody
  rw [ofJson?, toJson, fields?_object (by rfl) (by decide)]
  simp -implicitDefEqProofs [required_some, hid, hname, hsensitivity, hbody]

end Process

namespace Port

def isStorable (port : Port) : Bool := fitsId port.id && fitsId port.name && fitsId port.type

theorem restores : Restores ofJson? toJson isStorable := by
  intro port h
  simp only [isStorable, Bool.and_eq_true] at h
  obtain ⟨⟨hid, hname⟩, htype⟩ := h
  have hid := restores_id .port port.id hid
  have hname := restores_id .name port.name hname
  have hdirection := Direction.restores port.direction rfl
  have htype := restores_id .type port.type htype
  rw [ofJson?, toJson, fields?_object (by rfl) (by decide)]
  simp -implicitDefEqProofs [required_some, hid, hname, hdirection, htype]

end Port

namespace Entity

def isStorable (entity : Entity) : Bool :=
  fitsId entity.name && entity.ports.toList.all Port.isStorable

theorem restores : Restores ofJson? toJson isStorable := by
  intro entity h
  obtain ⟨hname, hports⟩ := Bool.and_eq_true_iff.mp h
  have hname := restores_id .name entity.name hname
  have hports := Arena.restores Port.restores entity.ports hports
  rw [ofJson?, toJson, fields?_object (by rfl) (by decide)]
  simp -implicitDefEqProofs [required_some, hname, hports]

end Entity

namespace Connection

def isStorable (connection : Connection) : Bool :=
  fitsId connection.destination && fitsId connection.source

theorem restores : Restores ofJson? toJson isStorable := by
  intro connection h
  obtain ⟨hdestination, hsource⟩ := Bool.and_eq_true_iff.mp h
  have hdestination := restores_id .signal connection.destination hdestination
  have hsource := restores_id .signal connection.source hsource
  rw [ofJson?, toJson, fields?_object (by rfl) (by decide)]
  simp -implicitDefEqProofs [required_some, hdestination, hsource]

end Connection

namespace Component

def isStorable (component : Component) : Bool :=
  fitsId component.name && fitsId component.entity &&
    component.portMap.all fun (port, signal) => fitsId port && fitsId signal

theorem restores : Restores ofJson? toJson isStorable := by
  intro component h
  simp only [isStorable, Bool.and_eq_true] at h
  obtain ⟨⟨hname, hentity⟩, hportMap⟩ := h
  have hname := restores_id .name component.name hname
  have hentity := restores_id .name component.entity hentity
  have hportMap := ((restores_id .name).pair (restores_id .signal)).list component.portMap hportMap
  rw [ofJson?, toJson, fields?_object (by rfl) (by decide)]
  simp -implicitDefEqProofs [required_some, hname, hentity, hportMap]

end Component

namespace Architecture

def isStorable (arch : Architecture) : Bool :=
  fitsId arch.name && arch.entity.isStorable && arch.signals.toList.all Signal.isStorable &&
    arch.processes.toList.all Process.isStorable && arch.connections.all Connection.isStorable &&
    (arch.portBindings.all fun (port, signal) => fitsId port && fitsId signal) &&
    arch.components.all Component.isStorable && fitsWord arch.nextStatement

theorem restores : Restores ofJson? toJson isStorable := by
  intro arch h
  simp only [isStorable, Bool.and_eq_true] at h
  obtain ⟨⟨⟨⟨⟨⟨⟨hname, hentity⟩, hsignals⟩, hprocesses⟩, hconnections⟩, hbindings⟩, hcomponents⟩,
    hnext⟩ := h
  have hname := restores_id .name arch.name hname
  have hentity := Entity.restores arch.entity hentity
  have hsignals := Arena.restores Signal.restores arch.signals hsignals
  have hprocesses := Arena.restores Process.restores arch.processes hprocesses
  have hconnections := Connection.restores.list arch.connections hconnections
  have hbindings :=
    ((restores_id .port).pair (restores_id .signal)).list arch.portBindings hbindings
  have hcomponents := Component.restores.list arch.components hcomponents
  have hnext := restores_word arch.nextStatement hnext
  rw [ofJson?, toJson, fields?_object (by rfl) (by decide)]
  simp -implicitDefEqProofs [required_some, hname, hentity, hsignals, hprocesses, hconnections,
    hbindings, hcomponents, hnext]

end Architecture

namespace Stored

-- The name under which a thing of this kind is read.
def kind : Stored → String
  | .vector _ => "BitVec"
  | .name _ => "Ident"
  | .signalId _ => "SignalId"
  | .type _ => "HdlType"
  | .types _ => "TypeDb"
  | .value _ => "Value"
  | .expr _ => "Expr"
  | .statement _ => "Statement"
  | .signal _ => "Signal"
  | .process _ => "Process"
  | .entity _ => "Entity"
  | .architecture _ => "Architecture"

def isStorable : Stored → Bool
  | .vector v => v.isStorable
  | .name id => fitsId id
  | .signalId id => fitsId id
  | .type t => t.isStorable
  | .types table => table.isStorable
  | .value v => v.isStorable
  | .expr e => e.isStorable
  | .statement s => s.isStorable
  | .signal s => s.isStorable
  | .process p => p.isStorable
  | .entity e => e.isStorable
  | .architecture arch => arch.isStorable

theorem ofJson?_toJson (stored : Stored) (h : stored.isStorable = true) :
    ofJson? stored.kind stored.toJson = some stored := by
  cases stored with
  | vector v => simp -implicitDefEqProofs [ofJson?, kind, toJson, LogicVec.restores v h]
  | name id => simp -implicitDefEqProofs [ofJson?, kind, toJson, restores_id .name id h]
  | signalId id => simp -implicitDefEqProofs [ofJson?, kind, toJson, restores_id .signal id h]
  | type t => simp -implicitDefEqProofs [ofJson?, kind, toJson, HwType.restores t h]
  | types table => simp -implicitDefEqProofs [ofJson?, kind, toJson, TypeTable.restores table h]
  | value v => simp -implicitDefEqProofs [ofJson?, kind, toJson, Value.restores v h]
  | expr e => simp -implicitDefEqProofs [ofJson?, kind, toJson, Expr.restores e h]
  | statement s => simp -implicitDefEqProofs [ofJson?, kind, toJson, Statement.restores s h]
  | signal s => simp -implicitDefEqProofs [ofJson?, kind, toJson, Signal.restores s h]
  | process p => simp -implicitDefEqProofs [ofJson?, kind, toJson, Process.restores p h]
  | entity e => simp -implicitDefEqProofs [ofJson?, kind, toJson, Entity.restores e h]
  | architecture arch =>
      simp -implicitDefEqProofs [ofJson?, kind, toJson, Architecture.restores arch h]

-- Reading undoes writing for all that can be stored, and the numbers of a vector
-- of any width stand as their digits, the lowest first.
theorem read_back :
    (∀ stored : Stored, stored.isStorable = true →
      ofJson? stored.kind stored.toJson = some stored) ∧
    ∀ v : LogicVec,
      v.toJson = .object [("width", .ofNat v.width),
        ("val", .ofList .ofNat (Nat.digits (2 ^ 32) v.value)),
        ("vld", .ofList .ofNat (Nat.digits (2 ^ 32) v.defined))] ∧
      (v.width < 2 ^ 32 → LogicVec.ofJson? v.toJson = some v) := by
  refine ⟨ofJson?_toJson, fun v => ⟨?_, fun hwidth => ?_⟩⟩
  · rw [LogicVec.toJson, LogicVec.limbs_eq_digits, LogicVec.limbs_eq_digits]
    rfl
  · exact LogicVec.restores v (decide_eq_true hwidth)

-- A vector of 70 bits, the lowest of them undefined.
def wide : LogicVec := ⟨70, 2 ^ 69 + 2 ^ 40 + 6, 2 ^ 70 - 2⟩

-- A hidden signal that selects one of two others, and a process in which an
-- assignment to an element stands below a case below a branch.
def crossing : Architecture :=
  let all : Expr := .literal ⟨⟨1⟩, .bits wide⟩
  let chosen : Expr := .apply .ternary [.apply .not [.signal ⟨0⟩] ⟨0⟩, all, .signal ⟨1⟩] ⟨1⟩
  let store : Statement :=
    .assign ⟨2⟩ ⟨1⟩ (.signal ⟨2⟩) (some [.literal ⟨⟨2⟩, .integer (some (-1))⟩]) true
  let choose : Statement := .select ⟨1⟩ (.signal ⟨1⟩) [(some all, [store]), (none, [])]
  { name := ⟨0⟩
    entity := ⟨⟨1⟩, ⟨#[⟨⟨0⟩, ⟨2⟩, .inout, ⟨0⟩⟩]⟩⟩
    signals := ⟨#[
      ⟨⟨0⟩, ⟨2⟩, ⟨0⟩, none, [.port ⟨0⟩], [.process ⟨0⟩], false, none, some ⟨3⟩⟩,
      ⟨⟨1⟩, ⟨3⟩, ⟨1⟩, some ⟨⟨1⟩, .bits wide⟩, [.statement ⟨2⟩], [], false, none, none⟩,
      ⟨⟨2⟩, ⟨4⟩, ⟨1⟩, none, [], [.component 0], true, some chosen, none⟩]⟩
    processes := ⟨#[⟨⟨0⟩, ⟨5⟩, [⟨0⟩],
      [.branch ⟨0⟩ [.signal ⟨0⟩] [choose] [([chosen], [.wait ⟨3⟩ true (some 10)])] [store]]⟩]⟩
    connections := [⟨⟨1⟩, ⟨2⟩⟩]
    portBindings := [(⟨0⟩, ⟨0⟩)]
    components := [⟨⟨6⟩, ⟨7⟩, [(⟨2⟩, ⟨2⟩)]⟩]
    nextStatement := 4 }

theorem crossing_read_back :
    (architecture crossing).isStorable = true ∧
      ofJson? "Architecture" crossing.toJson = some (.architecture crossing) ∧
    wide.width < 2 ^ 32 ∧
      wide.toJson = .object [("width", .int 70), ("val", .array [.int 6, .int 256, .int 32]),
        ("vld", .array [.int 4294967294, .int 4294967295, .int 63])] ∧
      LogicVec.ofJson? wide.toJson = some wide := by
  have hstorable : (architecture crossing).isStorable = true := by decide +kernel
  have hwidth : wide.width < 2 ^ 32 := by decide
  obtain ⟨hform, hread⟩ := read_back.2 wide
  have hvalue : Nat.digits (2 ^ 32) wide.value = [6, 256, 32] := by norm_num [wide]
  have hdefined : Nat.digits (2 ^ 32) wide.defined = [4294967294, 4294967295, 63] := by
    norm_num [wide]
  rw [hvalue, hdefined] at hform
  exact ⟨hstorable, read_back.1 (.architecture crossing) hstorable, hwidth, hform, hread hwidth⟩

end Stored

end Rtl
