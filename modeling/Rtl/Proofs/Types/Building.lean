import Rtl.Proofs.Interface.Run
import Rtl.Proofs.Interface.Sides
import Rtl.Proofs.Interface.Forests
import Rtl.Proofs.Types.Declared
import Rtl.Proofs.Types.Joints

namespace Rtl

open Forest

namespace TypeTable

variable {types later last : TypeTable}

-- Types are only ever added at the end.
def GrowsTo (types later : TypeTable) : Prop :=
  ∃ more, later.types.toList = types.types.toList ++ more

theorem GrowsTo.refl (types : TypeTable) : types.GrowsTo types := ⟨[], (List.append_nil _).symm⟩

theorem GrowsTo.trans (h : types.GrowsTo later) (hnext : later.GrowsTo last) :
    types.GrowsTo last := by
  obtain ⟨more, hmore⟩ := h
  obtain ⟨others, hothers⟩ := hnext
  exact ⟨more ++ others, by rw [hothers, hmore, List.append_assoc]⟩

theorem GrowsTo.size_le (h : types.GrowsTo later) : types.size ≤ later.size := by
  obtain ⟨more, hmore⟩ := h
  have hlength := congrArg List.length hmore
  simp only [List.length_append, Arena.toList, Array.length_toList] at hlength
  simp only [size, Arena.size]
  omega

theorem growsTo_declare (types : TypeTable) (type : HwType) :
    types.GrowsTo (types.declare type).2 := ⟨[type], Array.toList_push ..⟩

theorem growsTo_intern (types : TypeTable) (type : HwType) :
    types.GrowsTo (types.intern type).2 := by
  rw [intern]
  split
  · exact growsTo_declare ..
  · split
    · exact .refl types
    · exact growsTo_declare ..

-- A scalar type has the place of the first one that is equal, or else the next.
theorem intern_eq_findIdx (types : TypeTable) {type : HwType} (h : type.needsDeclaration = false) :
    (types.intern type).1 = ⟨types.types.toList.findIdx (· == type)⟩ := by
  rw [intern, h, if_neg Bool.false_ne_true]
  split
  · rename_i index hindex
    rw [(List.findIdx?_eq_some_iff_findIdx_eq.mp hindex).2]
  · rename_i hnone
    rw [List.findIdx?_eq_none_iff_findIdx_eq.mp hnone]
    rfl

-- What the type of a width is does not change by types that are added.
theorem ofWidth_eq_iff (h : types.GrowsTo later) {id : TypeId} (hid : id.index < types.size)
    (width : Nat) : (later.ofWidth width).1 = id ↔ (types.ofWidth width).1 = id := by
  have hplain : (if width = 1 then HwType.bit else .vector width).needsDeclaration = false := by
    split
    · rfl
    · rfl
  obtain ⟨more, hmore⟩ := h
  have hlength : types.types.toList.length = types.size := Array.length_toList
  have hindex (index : Nat) : (⟨index⟩ : TypeId) = id ↔ index = id.index :=
    ⟨congrArg Id.index, fun heq => Id.index_injective heq⟩
  rw [ofWidth, ofWidth]
  generalize (if width = 1 then HwType.bit else .vector width) = type at hplain ⊢
  rw [intern_eq_findIdx _ hplain, intern_eq_findIdx _ hplain, hmore, List.findIdx_append, hindex,
    hindex]
  split
  · rfl
  · omega

end TypeTable

-- The types of all ports are there.
def Entity.Typed (entity : Entity) (types : TypeTable) : Prop :=
  ∀ id port, entity.ports.get? id = some port → port.type.index < types.size

theorem Entity.Typed.addPort {entity : Entity} {types : TypeTable} (h : entity.Typed types)
    (name : NameId) (direction : Direction) (width : Nat) :
    (entity.addPort name direction (types.ofWidth width).1).2.Typed (types.ofWidth width).2 := by
  intro id port hport
  have hadded : (entity.ports.allocWith fun id =>
      ⟨id, name, direction, (types.ofWidth width).1⟩).2.get? id = some port := hport
  rcases Arena.get?_allocWith_iff.mp hadded with hold | ⟨-, rfl⟩
  · exact (h id port hold).trans_le (TypeTable.growsTo_intern ..).size_le
  · obtain ⟨hlt, -⟩ := Array.getElem?_eq_some_iff.mp (types.get?_intern _)
    exact hlt

namespace Design

variable {design now last : Design} {p q : Prop}

-- The leaf of an interface that is put on a port when its signal is made has the
-- type of that port.
def Suits (design : Design) (state : NodeState) : Prop :=
  state.signal = none → ∀ port found, state.port = some port →
    design.arch.entity.ports.get? port = some found →
      found.type = (design.types.ofWidth state.width).1

structure Gains (design now : Design) (fits : Prop) : Prop where
  arch : design.arch.Adds now.arch fits
  types : design.types.GrowsTo now.types

namespace Gains

theorem of_iff (h : design.Gains now p) (hiff : p ↔ q) : design.Gains now q :=
  ⟨h.arch.of_iff hiff, h.types⟩

theorem trans (h : design.Gains now p) (hnext : now.Gains last q) : design.Gains last (p ∧ q) :=
  ⟨h.arch.trans hnext.arch, h.types.trans hnext.types⟩

theorem typed (h : design.Gains now p) (hports : design.arch.entity.Typed design.types) :
    now.arch.entity.Typed now.types := by
  intro id port hport
  rw [h.arch.entity] at hport
  exact (hports id port hport).trans_le h.types.size_le

-- Whether a leaf has the type of its port stays as it is.
theorem suits_iff (h : design.Gains now p) (hports : design.arch.entity.Typed design.types)
    (state : NodeState) : now.Suits state ↔ design.Suits state := by
  simp only [Suits, h.arch.entity]
  refine forall₅_congr fun _ port found _ hfound => ?_
  rw [eq_comm, TypeTable.ofWidth_eq_iff h.types (hports port found hfound), eq_comm]

end Gains

theorem gains_leaf (id : NodeId) (name : String) (state : NodeState) (design : Design) :
    design.Gains (Backing.leaf id name state design).2.2 (design.Suits state) := by
  simp only [Backing.leaf]
  split
  · rename_i signal hsignal
    refine ⟨(Architecture.Alike.refl _).adds.of_iff ((true_iff _).mpr fun hnone => ?_),
      .refl _⟩
    rw [hsignal] at hnone
    cases hnone
  · rename_i hnone
    refine ⟨?_, TypeTable.growsTo_intern ..⟩
    let added := design.arch.addSignal (design.names.intern name).1
      (design.types.ofWidth state.width).1 none
    have hadded : design.arch.Adds added.2 True :=
      (design.arch.adds_addSignal ..).of_iff (by simp [Signal.Starts])
    have htag : added.2.Alike (added.2.setLeaf added.1 id) := .modify _ _ fun _ => rfl
    obtain ⟨_, hmade, hwidth⟩ := design.arch.exists_signal_addSignal (design.names.intern name).1
      (design.types.ofWidth state.width).1 none
    obtain ⟨signal, hsignal, htype, -⟩ := htag.faces.exists_signal hmade
    rw [hwidth] at htype
    cases hport : state.port with
    | none => exact (hadded.alike htag).of_iff (by simp [Suits, hport])
    | some port =>
        have hbound := Architecture.adds_bindPort port
          (Architecture.hasSignal_iff.mpr ⟨signal, hsignal⟩)
        refine ((hadded.alike htag).trans hbound).of_iff ?_
        rw [true_and]
        constructor
        · intro hcarries _ _ found hsame hfound
          obtain rfl := Option.some.inj (hport.symm.trans hsame)
          exact (hcarries found signal hfound hsignal).trans htype
        · intro hsuits found other hfound hother
          obtain rfl := Option.some.inj (hsignal.symm.trans hother)
          exact (hsuits hnone port found hport hfound).trans htype.symm

theorem gains_members {separator : String} {id : Nat} {stem : String} {forest : Forest NodeState}
    {design : Design} (hports : design.arch.entity.Typed design.types) (path : List String) :
    design.Gains (Backing.members separator id stem forest design).2.2
      (∀ leaf ∈ forest.leaves path, design.Suits leaf.2) := by
  induction forest generalizing id stem design path with
  | nil => exact ⟨(Architecture.Alike.refl _).adds.of_iff (by simp [leaves]), .refl _⟩
  | cons name state inner rest ihi ihr =>
      cases inner with
      | nil =>
          have hfirst := gains_leaf ⟨id⟩ (stem ++ separator ++ name) state design
          refine (hfirst.trans (ihr (hfirst.typed hports) path)).of_iff ?_
          rw [leaves, List.forall_mem_cons]
          exact and_congr_right' (forall₂_congr fun leaf _ => hfirst.suits_iff hports leaf.2)
      | cons first item below beside =>
          have hinner := @ihi (id + 1) (stem ++ separator ++ name) design hports (path ++ [name])
          refine (hinner.trans (ihr (hinner.typed hports) path)).of_iff ?_
          rw [leaves, List.forall_mem_append]
          exact and_congr_right' (forall₂_congr fun leaf _ => hinner.suits_iff hports leaf.2)

end Design

-- What can be done to a unit: anything that is asked of its interfaces, and the
-- operations of its architecture.
inductive Command where
  | interface (operation : Operation)
  | type (type : HwType)
  | name (text : String)
  | statement
  | signal (name : NameId) (type : TypeId) (default : Option Value)
  | hidden (name : NameId) (type : TypeId) (origin : Expr)
  | process (name : NameId) (sensitivity : List SignalId) (body : List Statement)
  | connect (destination source : SignalId)
  | bind (signal : SignalId) (port : PortId)
  | component (component : Component)

namespace Workbench

def withArch (bench : Workbench) (arch : Architecture) : Workbench :=
  { bench with design := { bench.design with arch } }

-- The unit behind a command; `none` if the command came to something that does
-- not exist.
def obey? (bench : Workbench) : Command → Option Workbench
  | .interface operation => bench.perform? operation
  | .type type =>
      let (_, types) := bench.design.types.intern type
      some { bench with design := { bench.design with types } }
  | .name text => some { bench with design := (bench.design.intern text).2 }
  | .statement => some (bench.withArch bench.design.arch.freshStatement.2)
  | .signal name type default =>
      some (bench.withArch (bench.design.arch.addSignal name type default).2)
  | .hidden name type origin =>
      (bench.design.arch.addHidden? name type origin).map fun (_, arch) => bench.withArch arch
  | .process name sensitivity body =>
      (bench.design.arch.addProcess? name sensitivity body).map fun (_, arch) => bench.withArch arch
  | .connect destination source =>
      (bench.design.arch.connect? destination source).map bench.withArch
  | .bind signal port => (bench.design.arch.bindPort? signal port).map bench.withArch
  | .component component => (bench.design.arch.addComponent? component).map bench.withArch

-- Whether what a command puts together is of one type. Materialization puts
-- leaves on the ports they were found for, by name alone.
def Fits (bench : Workbench) : Command → Prop
  | .interface (.materialize id _) =>
      ∀ spot, bench.synth.node? id = some spot → ∀ leaf ∈ spot.leaves, bench.design.Suits leaf.2
  | .interface (.connect destination source) =>
      ∀ link ∈ (bench.synth.wiring destination source).links, bench.design.arch.Links link
  | .interface (.propagate root) =>
      ∀ link ∈ (bench.synth.propagation root).links, bench.design.arch.Links link
  | .signal _ type default => Signal.Starts type default
  | .connect destination source => bench.design.arch.Links ⟨destination, source⟩
  | .bind signal port => bench.design.arch.Carries (port, signal)
  | _ => True

variable {bench next : Workbench} {allowed : Workbench → Command → Prop} {start : Workbench}

theorem gains_materialize {synth made : Synthesizer} {id : NodeId} {stem : String}
    {design now : Design} {signals : List SignalId} (hports : design.arch.entity.Typed design.types)
    (h : synth.materialize id stem design = some (signals, made, now)) :
    design.Gains now (∀ spot, synth.node? id = some spot →
      ∀ leaf ∈ spot.leaves, design.Suits leaf.2) := by
  simp only [Synthesizer.materialize] at h
  split at h
  · cases h
  · rename_i spot hspot
    have honly (p : Spot NodeState → Prop) : p spot ↔ ∀ other, synth.node? id = some other →
        p other := by
      rw [hspot]
      exact ⟨fun h other hother => Option.some.inj hother ▸ h, fun h => h spot rfl⟩
    split at h
    · rename_i hleaf
      obtain ⟨-, -, rfl⟩ := h
      refine (Design.gains_leaf ..).of_iff ?_
      rw [← honly, Spot.leaves, hleaf, List.forall_mem_singleton]
    · rename_i hmembers
      obtain ⟨-, -, rfl⟩ := h
      refine (Design.gains_members hports []).of_iff ?_
      rw [← honly, Spot.leaves]
      split
      · rename_i hleaf
        exact absurd hleaf hmembers
      · rfl

theorem gains_wired? {wiring : Wiring} (h : bench.wired? wiring = some next) :
    bench.design.Gains next.design (∀ link ∈ wiring.links, bench.design.arch.Links link) := by
  obtain ⟨arch, harch, rfl⟩ := exists_connectAll?_of_wired? h
  exact ⟨Architecture.adds_connectAll? harch, .refl _⟩

theorem gains_of_design_eq (h : next.design = bench.design) :
    bench.design.Gains next.design True := by
  rw [h]
  exact ⟨(Architecture.Alike.refl _).adds, .refl _⟩

theorem gains_perform? {operation : Operation}
    (hports : bench.design.arch.entity.Typed bench.design.types)
    (h : bench.perform? operation = some next) :
    bench.design.Gains next.design (bench.Fits (.interface operation)) := by
  cases operation with
  | materialize id stem =>
      obtain ⟨signals, hmade, -⟩ := materialize_of_perform? h
      exact gains_materialize hports hmade
  | connect | propagate => exact gains_wired? h
  | instantiate | extractAll =>
      obtain rfl := Option.some.inj h
      exact gains_of_design_eq rfl
  | matchByName | unExtract | reverse | detach =>
      obtain ⟨-, rfl⟩ := exists_node?_of_guard h
      exact gains_of_design_eq rfl
  | propagateSource id =>
      obtain ⟨synth, -, rfl⟩ := propagateSource_of_perform? h
      exact gains_of_design_eq rfl

theorem gains_obey? {command : Command}
    (hports : bench.design.arch.entity.Typed bench.design.types)
    (h : bench.obey? command = some next) :
    bench.design.Gains next.design (bench.Fits command) := by
  cases command with
  | interface operation => exact gains_perform? hports h
  | type type =>
      obtain rfl := Option.some.inj h
      exact ⟨(Architecture.Alike.refl _).adds, TypeTable.growsTo_intern ..⟩
  | name text =>
      obtain rfl := Option.some.inj h
      exact ⟨(Architecture.Alike.refl _).adds, .refl _⟩
  | statement =>
      obtain rfl := Option.some.inj h
      exact ⟨Architecture.Alike.adds ⟨rfl, rfl, rfl, rfl, fun _ => rfl⟩, .refl _⟩
  | signal name type default =>
      obtain rfl := Option.some.inj h
      exact ⟨Architecture.adds_addSignal .., .refl _⟩
  | hidden name type origin =>
      obtain ⟨⟨_, arch⟩, harch, rfl⟩ := Option.map_eq_some_iff.mp h
      exact ⟨Architecture.adds_addHidden? harch, .refl _⟩
  | process name sensitivity body =>
      obtain ⟨⟨_, arch⟩, harch, rfl⟩ := Option.map_eq_some_iff.mp h
      exact ⟨Architecture.adds_addProcess? harch, .refl _⟩
  | connect destination source =>
      obtain ⟨arch, harch, rfl⟩ := Option.map_eq_some_iff.mp h
      exact ⟨(Architecture.adds_connect? harch).1, .refl _⟩
  | bind signal port =>
      obtain ⟨arch, harch, rfl⟩ := Option.map_eq_some_iff.mp h
      simp only [Architecture.bindPort?, Option.ite_none_right_eq_some, Bool.and_eq_true] at harch
      obtain ⟨⟨hsignal, -⟩, harch⟩ := harch
      obtain rfl := Option.some.inj harch
      exact ⟨Architecture.adds_bindPort port hsignal, .refl _⟩
  | component component =>
      obtain ⟨arch, harch, rfl⟩ := Option.map_eq_some_iff.mp h
      exact ⟨Architecture.adds_addComponent? harch, .refl _⟩

-- What is reached from a unit by commands of which each is allowed where it is
-- given.
inductive Building (allowed : Workbench → Command → Prop) (start : Workbench) : Workbench → Prop
  | start : Building allowed start start
  | step {bench next : Workbench} {command : Command} (h : Building allowed start bench)
      (hallowed : allowed bench command) (hnext : bench.obey? command = some next) :
      Building allowed start next

-- The unit behind one command after the other.
def obeyAll? (bench : Workbench) (commands : List Command) : Option Workbench :=
  commands.foldlM obey? bench

theorem building_obeyAll? {commands : List Command}
    (h : Building (fun _ _ => True) start bench) (hnext : bench.obeyAll? commands = some next) :
    Building (fun _ _ => True) start next := by
  induction commands generalizing bench with
  | nil =>
      obtain rfl := Option.some.inj hnext
      exact h
  | cons command rest ih =>
      obtain ⟨middle, hmiddle, hrest⟩ := Option.bind_eq_some_iff.mp hnext
      exact ih (h.step trivial hmiddle) hrest

-- What every unit that was built is like.
structure Sound (bench : Workbench) : Prop where
  ports : bench.design.arch.entity.Typed bench.design.types
  closed : bench.design.arch.Closed
  processes : bench.design.arch.processes.Numbered Process.id

theorem Sound.of_obey? {command : Command} (h : bench.Sound)
    (hnext : bench.obey? command = some next) : next.Sound := by
  have hgains := gains_obey? h.ports hnext
  exact ⟨hgains.typed h.ports, hgains.arch.closed h.closed,
    hgains.arch.processes h.processes⟩

theorem sound_of_building (h : Building allowed start bench) (hstart : start.Sound) :
    bench.Sound := by
  induction h with
  | start => exact hstart
  | step h hallowed hnext ih => exact ih.of_obey? hnext

theorem uniform_of_fits (h : Building Fits start bench) (hstart : start.Sound)
    (huniform : start.design.arch.Uniform) : bench.design.arch.Uniform := by
  induction h with
  | start => exact huniform
  | step h hfits hnext ih =>
      have hsound := sound_of_building h hstart
      exact ((gains_obey? hsound.ports hnext).arch.uniform hsound.closed).mpr ⟨ih, hfits⟩

-- All that is joined is of one type exactly if no command joined anything else.
theorem uniform_iff_fits (h : Building allowed start bench) (hstart : start.Sound)
    (huniform : start.design.arch.Uniform) :
    bench.design.arch.Uniform ↔ Building Fits start bench := by
  refine ⟨fun hall => ?_, fun hfits => uniform_of_fits hfits hstart huniform⟩
  induction h with
  | start => exact .start
  | step h hallowed hnext ih =>
      have hsound := sound_of_building h hstart
      obtain ⟨hbefore, hfits⟩ :=
        ((gains_obey? hsound.ports hnext).arch.uniform hsound.closed).mp hall
      exact .step (ih hbefore) hfits hnext

-- At first there are only ports.

theorem typed_addPorts {design : Design} {entity : Entity} {requests : List PortRequest}
    (h : entity.Typed design.types) :
    (addPorts design entity requests).1.Typed (addPorts design entity requests).2.types := by
  induction requests generalizing design entity with
  | nil => exact h
  | cons request rest ih => exact ih (h.addPort _ _ _)

theorem typed_ofPorts (settings : Settings) (entity : String) (ports : List PortRequest) :
    (ofPorts settings entity ports).design.arch.entity.Typed
      (ofPorts settings entity ports).design.types := by
  have hnone : (Entity.ofName (NameTable.empty.intern entity).1).Typed .empty := by
    intro id port hport
    simp [Entity.ofName, Arena.get?, Arena.empty] at hport
  exact typed_addPorts hnone

section

variable {design : Design} {name : NameId} {entity : Entity} (separator : String)
  (ports : List (String × Direction))

theorem sound_unclaimedPorts (harch : design.arch = .ofEntity name entity)
    (htyped : entity.Typed design.types) : (unclaimedPorts design separator ports).Sound := by
  refine ⟨?_, ?_, ?_⟩
  all_goals rw [unclaimedPorts, harch]
  · exact htyped
  · exact ⟨nofun, nofun⟩
  · exact Arena.numbered_empty

theorem uniform_unclaimedPorts (harch : design.arch = .ofEntity name entity) :
    (unclaimedPorts design separator ports).design.arch.Uniform := by
  rw [unclaimedPorts, harch]
  intro a b hjoins
  cases hjoins with
  | connection hlink => cases hlink
  | port hbinding => cases hbinding
  | default hsignal => cases hsignal

end

end Workbench

end Rtl
