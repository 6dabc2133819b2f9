import Rtl.Proofs.Interface.DataFlow
import Rtl.Proofs.Interface.Ownership

namespace Rtl

-- A node without its port unless it has a signal on it.
def NodeState.used (state : NodeState) : NodeState :=
  { state with port := if state.signal.isSome then state.port else none }

namespace Forest

-- The ports on which leaves have signals.
def usedPorts (first : Nat) (forest : Forest NodeState) : List PortId :=
  ((forest.map NodeState.used).bindings first).map (·.1)

-- The same for a single node and what is below it.
def usedPortsBelow (id : Nat) (state : NodeState) (inner : Forest NodeState) : List PortId :=
  (bindingsBelow id state.used (inner.map NodeState.used)).map (·.1)

variable {α β : Type} {forest : Forest α} {index : Nat} {spot : Spot α}

theorem All.imp {p q : α → Prop} (h : forest.All p) (himp : ∀ item, p item → q item) :
    forest.All q := by
  induction forest with
  | nil => trivial
  | cons name item inner rest ihi ihr => exact ⟨himp _ h.1, ihi h.2.1, ihr h.2.2⟩

theorem bindings_of_unbound {nodes : Forest NodeState} (h : nodes.All (·.port = none))
    (first : Nat) : nodes.bindings first = [] := by
  induction nodes generalizing first with
  | nil => rfl
  | cons name state inner rest ihi ihr =>
      obtain ⟨hstate, hinner, hrest⟩ := h
      simp only [bindings, held_of_port hstate, ihi hinner, ihr hrest, List.append_nil]

theorem exists_usedPorts_update {nodes : Forest NodeState} {spot : Spot NodeState}
    (h : nodes.spot? index = some spot) (first : Nat) :
    ∃ front back,
      nodes.usedPorts first =
        front ++ usedPortsBelow (first + index) spot.item spot.inner ++ back ∧
      ∀ change : NodeState → Forest NodeState → NodeState × Forest NodeState,
        (change spot.item spot.inner).2.size = spot.inner.size →
          (nodes.update change index).usedPorts first =
            front ++ usedPortsBelow (first + index) (change spot.item spot.inner).1
              (change spot.item spot.inner).2 ++ back := by
  have hused := (spot?_map NodeState.used nodes index).trans (congrArg _ h)
  obtain ⟨front, back, heq, -, hupdate⟩ := exists_bindings_update hused first
  refine ⟨front.map (·.1), back.map (·.1), ?_, fun change hsize => ?_⟩
  · simp only [usedPorts, heq, usedPortsBelow, List.map_append]
  · have hsizes := (size_map NodeState.used _).trans (hsize.trans (size_map NodeState.used _).symm)
    have hchanged := hupdate (fun _ _ => ((change spot.item spot.inner).1.used,
      (change spot.item spot.inner).2.map NodeState.used)) hsizes
    simp only [usedPorts, map_update_of_spot? _ h, hchanged, usedPortsBelow, List.map_append]

theorem mem_usedPorts_iff {nodes : Forest NodeState} {first : Nat} {port : PortId} :
    port ∈ nodes.usedPorts first ↔ ∃ index spot, nodes.spot? index = some spot ∧
      spot.inner = nil ∧ spot.item.port = some port ∧ spot.item.signal.isSome = true := by
  rw [usedPorts, List.mem_map]
  constructor
  · rintro ⟨⟨port, node⟩, hmem, rfl⟩
    obtain ⟨index, found, -, hfound, hleaf, hport⟩ := mem_bindings_iff.mp hmem
    rw [spot?_map] at hfound
    obtain ⟨spot, hspot, rfl⟩ := Option.map_eq_some_iff.mp hfound
    have hsize := (size_map NodeState.used spot.inner).symm.trans (congrArg Forest.size hleaf)
    obtain ⟨hsignal, hport⟩ := Option.ite_none_right_eq_some.mp hport
    exact ⟨index, spot, hspot, eq_nil_of_size_eq_zero hsize, hport, hsignal⟩
  · rintro ⟨index, spot, hspot, hleaf, hport, hsignal⟩
    have hused : (nodes.map NodeState.used).spot? index =
        some ⟨spot.above, spot.name, spot.item.used, spot.inner.map NodeState.used⟩ := by
      rw [spot?_map, hspot]
      rfl
    refine ⟨(port, ⟨first + index⟩), mem_bindings_iff.mpr ⟨index, _, rfl, hused, ?_, ?_⟩, rfl⟩
    · simp only [hleaf, map]
    · simp only [NodeState.used, hsignal, hport, if_true]

theorem sublist_usedPorts (first : Nat) (nodes : Forest NodeState) :
    (nodes.usedPorts first).Sublist ((nodes.bindings first).map (·.1)) := by
  rw [usedPorts]
  refine List.Sublist.map _ ?_
  induction nodes generalizing first with
  | nil => exact List.Sublist.refl _
  | cons name state inner rest ihi ihr =>
      have hheld : (held first state.used (inner.map NodeState.used)).Sublist
          (held first state inner) := by
        cases inner with
        | cons => exact List.Sublist.refl _
        | nil =>
            simp only [held, map, NodeState.used]
            split
            · exact List.Sublist.refl _
            · exact List.nil_sublist _
      simp only [map, bindings, size_map]
      exact (hheld.append (ihi _)).append (ihr _)

theorem usedPorts_append (first : Nat) (front back : Forest NodeState) :
    (front.append back).usedPorts first =
      front.usedPorts first ++ back.usedPorts (first + front.size) := by
  have hmap : (front.append back).map NodeState.used =
      (front.map NodeState.used).append (back.map NodeState.used) := by
    induction front with
    | nil => rfl
    | cons name state inner rest _ ih => simp only [append, map, ih]
  rw [usedPorts, hmap, bindings_append, List.map_append, size_map]
  rfl

theorem usedPorts_of_unsigned {nodes : Forest NodeState} (h : nodes.All (·.signal = none))
    (first : Nat) : nodes.usedPorts first = [] := by
  have hnone : (nodes.map NodeState.used).All (·.port = none) := by
    rw [all_map]
    refine h.imp fun state hsignal => ?_
    rw [NodeState.used, hsignal]
    rfl
  rw [usedPorts, bindings_of_unbound hnone]
  rfl

theorem usedPorts_cons (first : Nat) (name : String) (state : NodeState)
    (inner rest : Forest NodeState) :
    (cons name state inner rest).usedPorts first =
      usedPortsBelow first state inner ++ rest.usedPorts (first + 1 + inner.size) := by
  simp only [usedPorts, usedPortsBelow, bindingsBelow, Forest.map, bindings, List.map_append,
    size_map]

-- Only leaves count.
theorem usedPortsBelow_of_size_pos {inner : Forest NodeState} (h : 0 < inner.size) (id : Nat)
    (state : NodeState) : usedPortsBelow id state inner = inner.usedPorts (id + 1) := by
  rw [usedPortsBelow, bindingsBelow, held_of_size_pos (by rwa [size_map])]
  rfl

theorem usedPortsBelow_nil (id : Nat) (state : NodeState) :
    usedPortsBelow id state nil = state.used.port.toList := by
  simp only [usedPortsBelow, bindingsBelow, Forest.map, held, bindings, List.append_nil,
    List.map_map]
  exact List.map_id' _

theorem usedPortsBelow_map_of_unused {f : NodeState → NodeState}
    (h : ∀ state, (f state).used.port = none) (id : Nat) (state : NodeState)
    (inner : Forest NodeState) : usedPortsBelow id (f state) (inner.map f) = [] := by
  rw [usedPortsBelow, bindingsBelow, held_of_port (h state), map_map,
    bindings_map_of_unbound h]
  rfl

theorem usedPortsBelow_reverse (id : Nat) (state : NodeState) (inner : Forest NodeState) :
    usedPortsBelow id (Synthesizer.reverseState state) (inner.map Synthesizer.reverseState) =
      usedPortsBelow id state inner := by
  have hcommute : (inner.map Synthesizer.reverseState).map NodeState.used =
      (inner.map NodeState.used).map Synthesizer.reverseState := by
    rw [map_map, map_map]
    rfl
  have hsize := size_map Synthesizer.reverseState (inner.map NodeState.used)
  have hbelow := bindings_map (f := Synthesizer.reverseState) (fun _ => rfl) (id + 1)
    (inner.map NodeState.used)
  rw [usedPortsBelow, hcommute]
  exact congrArg (List.map (·.1)) (bindingsBelow_congr id rfl hsize hbelow)

end Forest

namespace Synthesizer

open Forest

variable {synth next : Synthesizer} {id : NodeId} {spot : Spot NodeState}

-- The ports on which the leaves at and below a node have signals.
def usedBelow (synth : Synthesizer) (id : NodeId) : List PortId :=
  match synth.node? id with
  | some spot => usedPortsBelow id.index spot.item spot.inner
  | none => []

-- A change that takes the port or the signal from a node and all below it.
theorem perm_usedPorts_clear {f : NodeState → NodeState}
    (h : ∀ state, (f state).used.port = none) (hspot : synth.node? id = some spot) :
    (synth.usedBelow id ++ (synth.update id fun state inner =>
      (f state, inner.map f)).nodes.usedPorts 0).Perm (synth.nodes.usedPorts 0) := by
  obtain ⟨front, back, heq, hupdate⟩ := exists_usedPorts_update hspot 0
  simp only [Nat.zero_add] at heq hupdate
  rw [update, hupdate _ (size_map ..), usedPortsBelow_map_of_unused h, heq, List.append_nil,
    usedBelow, hspot]
  exact (perm_middle_append front _ back).symm

theorem usedPorts_reverseDirection (hspot : synth.node? id = some spot) :
    (synth.reverseDirection id).nodes.usedPorts 0 = synth.nodes.usedPorts 0 := by
  obtain ⟨front, back, heq, hupdate⟩ := exists_usedPorts_update hspot 0
  rw [reverseDirection, update, hupdate _ (size_map ..), usedPortsBelow_reverse, heq]

theorem usedPorts_propagateSource (h : synth.propagateSource id = .ok next) :
    next.nodes.usedPorts 0 = synth.nodes.usedPorts 0 := by
  obtain ⟨spot, -, ⟨-, rfl⟩ | ⟨source, other, -, hother, rfl⟩⟩ := propagateSource_eq_ok h
  · rfl
  · obtain ⟨front, back, heq, hupdate⟩ := exists_usedPorts_update hother 0
    rw [updateState, update, hupdate _ rfl, heq]
    rfl

theorem usedPorts_add (synth : Synthesizer) (name : String) {root : NodeState}
    {members : Forest NodeState} (h : (cons name root members nil).All (·.signal = none)) :
    (synth.add name root members).2.nodes.usedPorts 0 = synth.nodes.usedPorts 0 := by
  rw [add, usedPorts_append, usedPorts_of_unsigned h, List.append_nil]

theorem usedPorts_instantiate (synth : Synthesizer) (template : Template) (external : Bool)
    (source : Option NodeId) (destinations : List NodeId) :
    (synth.instantiate template external source destinations).2.nodes.usedPorts 0 =
      synth.nodes.usedPorts 0 := by
  have hmembers : (template.members.map NodeState.ofShape).All (·.signal = none) := by
    rw [all_map]
    exact all_of_forall (fun _ => rfl) _
  exact usedPorts_add synth _ ⟨rfl, hmembers, trivial⟩

theorem usedPorts_tryPort (template : Template) (first : String) (claims : Claims) (port : PortId) :
    (synth.tryPort template first claims port).2.1.nodes.usedPorts 0 =
      synth.nodes.usedPorts 0 := by
  simp only [tryPort]
  split
  · rfl
  · split
    · rename_i agreed _ root below rest hagreed hnodes
      obtain ⟨side, -, hroot, hbelow⟩ := Match.sided_of_agreed hagreed hnodes ""
      exact usedPorts_add synth _ (Match.unsigned_of_unresolved hroot hbelow _)
    · rfl

theorem usedPorts_tryPorts (template : Template) (first : String) (claims : Claims)
    (ports : List PortId) :
    (synth.tryPorts template first claims ports).2.1.nodes.usedPorts 0 =
      synth.nodes.usedPorts 0 := by
  induction ports generalizing synth claims with
  | nil => rfl
  | cons port rest ih => exact (ih _).trans (usedPorts_tryPort template first claims port)

theorem usedPorts_extractAll (cls : InterfaceClass) (claims : Claims) :
    (synth.extractAll cls claims).2.1.nodes.usedPorts 0 = synth.nodes.usedPorts 0 := by
  simp only [extractAll]
  split
  · rfl
  · exact usedPorts_tryPorts ..

end Synthesizer

theorem Architecture.portBindings_bindPort (arch : Architecture) (signal : SignalId)
    (port : PortId) :
    (arch.bindPort signal port).portBindings = arch.portBindings ++ [(port, signal)] := by
  simp only [bindPort]
  cases arch.portDirection? port with
  | none => rfl
  | some direction =>
      cases direction with
      | input | output | inout => rfl

namespace Backing

open Forest

-- A new backing signal is on the port of its leaf, if there is one.
theorem leaf_uses (id : NodeId) (name : String) (state : NodeState) (design : Design) :
    ∃ made, (leaf id name state design).2.2.arch.portBindings = design.arch.portBindings ++ made ∧
      (leaf id name state design).2.1.used.port.toList =
        made.map (·.1) ++ state.used.port.toList := by
  cases hsignal : state.signal with
  | some signal =>
      refine ⟨[], ?_, ?_⟩
      · simp only [leaf, hsignal, List.append_nil]
      · simp only [leaf, hsignal, List.map_nil, List.nil_append]
  | none =>
      have hunused : state.used.port = none := by
        rw [NodeState.used, hsignal]
        rfl
      cases hport : state.port with
      | none =>
          refine ⟨[], ?_, ?_⟩
          · simp only [leaf, hsignal, hport, List.append_nil]
            rfl
          · rw [hunused]
            simp only [leaf, hsignal, hport]
            rfl
      | some port =>
          refine ⟨[(port, (leaf id name state design).1)], ?_, ?_⟩
          · simp only [leaf, hsignal, hport, Architecture.portBindings_bindPort]
            rfl
          · rw [hunused]
            simp only [leaf, hsignal, hport]
            rfl

theorem perm_append_append {α : Type} (a b c d : List α) :
    (a ++ b ++ (c ++ d)).Perm (a ++ c ++ (b ++ d)) := by
  rw [List.append_assoc, List.append_assoc]
  exact (List.perm_append_comm_assoc b c d).append_left a

theorem members_uses (separator : String) (id : Nat) (stem : String)
    (forest : Forest NodeState) (design : Design) :
    ∃ made, (members separator id stem forest design).2.2.arch.portBindings =
        design.arch.portBindings ++ made ∧
      ((members separator id stem forest design).2.1.usedPorts id).Perm
        (made.map (·.1) ++ forest.usedPorts id) := by
  induction forest generalizing id stem design with
  | nil => exact ⟨[], (List.append_nil _).symm, List.Perm.refl _⟩
  | cons name state inner rest ihi ihr =>
      cases inner with
      | nil =>
          obtain ⟨first, hfirst, hleaf⟩ := leaf_uses ⟨id⟩ (stem ++ separator ++ name) state design
          obtain ⟨more, hmore, hrest⟩ := ihr (id + 1) stem
            (leaf ⟨id⟩ (stem ++ separator ++ name) state design).2.2
          refine ⟨first ++ more, ?_, ?_⟩
          · simp only [members, hmore, hfirst, List.append_assoc]
          · simp only [members, usedPorts_cons, usedPortsBelow_nil, hleaf, List.map_append]
            exact (hrest.append_left _).trans (perm_append_append ..)
      | cons first item below beside =>
          obtain ⟨made, hmade, hinner⟩ := ihi (id + 1) (stem ++ separator ++ name) design
          obtain ⟨hsize, -⟩ := members_keeps separator (id + 1) (stem ++ separator ++ name)
            (.cons first item below beside) design
          obtain ⟨more, hmore, hrest⟩ :=
            ihr (id + 1 + (Forest.cons first item below beside).size) stem
              (members separator (id + 1) (stem ++ separator ++ name)
                (.cons first item below beside) design).2.2
          have hpos : 0 < (Forest.cons first item below beside).size := by
            rw [Forest.size]
            omega
          refine ⟨made ++ more, ?_, ?_⟩
          · rw [members, hmore, hmade, List.append_assoc]
          · rw [members, usedPorts_cons, usedPorts_cons, usedPortsBelow_of_size_pos hpos,
              usedPortsBelow_of_size_pos (hsize ▸ hpos), hsize, List.map_append]
            exact (hinner.append hrest).trans (perm_append_append ..)

end Backing

namespace Synthesizer

open Forest

variable {synth next : Synthesizer} {id : NodeId}

theorem uses_materialize {stem : String} {design now : Design} {signals : List SignalId}
    (h : synth.materialize id stem design = some (signals, next, now)) :
    ∃ made, now.arch.portBindings = design.arch.portBindings ++ made ∧
      (next.nodes.usedPorts 0).Perm (made.map (·.1) ++ synth.nodes.usedPorts 0) := by
  have hplace (front middle made back : List PortId) :
      (front ++ (made ++ middle) ++ back).Perm (made ++ (front ++ middle ++ back)) := by
    simp only [List.append_assoc]
    exact List.perm_append_comm_assoc ..
  simp only [materialize] at h
  split at h
  · cases h
  · rename_i spot hspot
    obtain ⟨front, back, heq, hupdate⟩ := exists_usedPorts_update hspot 0
    rw [Nat.zero_add] at heq hupdate
    split at h
    · rename_i hleaf
      obtain ⟨-, rfl, rfl⟩ := h
      obtain ⟨made, hmade, hport⟩ := Backing.leaf_uses id stem spot.item design
      refine ⟨made, hmade, ?_⟩
      rw [updateState, update, hupdate _ rfl, heq, hleaf, usedPortsBelow_nil, usedPortsBelow_nil,
        hport]
      exact hplace ..
    · rename_i hnested
      obtain ⟨-, rfl, rfl⟩ := h
      obtain ⟨made, hmade, hinner⟩ :=
        Backing.members_uses synth.separator (id.index + 1) stem spot.inner design
      obtain ⟨hsize, -⟩ :=
        Backing.members_keeps synth.separator (id.index + 1) stem spot.inner design
      have hpos : 0 < spot.inner.size :=
        Nat.pos_of_ne_zero fun hzero => hnested (eq_nil_of_size_eq_zero hzero)
      refine ⟨made, hmade, ?_⟩
      rw [update, hupdate _ hsize, heq, usedPortsBelow_of_size_pos hpos,
        usedPortsBelow_of_size_pos (hsize ▸ hpos)]
      exact ((hinner.append_left front).append_right back).trans (hplace ..)

end Synthesizer

theorem Architecture.portBindings_connectAll? {arch next : Architecture} {links : List Connection}
    (h : arch.connectAll? links = some next) : next.portBindings = arch.portBindings :=
  rel_connectAll? (R := fun arch next => next.portBindings = arch.portBindings) (fun _ => rfl)
    (fun h hnext => hnext.trans h) (fun _ _ _ => rfl) h

namespace Workbench

open Forest

variable {bench next last : Workbench}

theorem portBindings_of_wired? {wiring : Wiring} (h : bench.wired? wiring = some next) :
    next.design.arch.portBindings = bench.design.arch.portBindings := by
  obtain ⟨arch, harch, rfl⟩ := exists_connectAll?_of_wired? h
  exact Architecture.portBindings_connectAll? harch

-- Whether a leaf has a signal on the port.
def Uses (bench : Workbench) (port : PortId) : Prop :=
  ∃ node spot, bench.synth.node? node = some spot ∧ spot.inner = .nil ∧
    spot.item.port = some port ∧ spot.item.signal.isSome = true

theorem uses_iff {port : PortId} : bench.Uses port ↔ port ∈ bench.synth.nodes.usedPorts 0 := by
  rw [mem_usedPorts_iff]
  exact ⟨fun ⟨node, h⟩ => ⟨node.index, h⟩, fun ⟨index, h⟩ => ⟨⟨index⟩, h⟩⟩

instance (bench : Workbench) (port : PortId) : Decidable (bench.Uses port) :=
  decidable_of_iff _ uses_iff.symm

-- The ports whose leaves lose them, or the signals on them, to an operation.
def tearsDown (bench : Workbench) : Operation → List PortId
  | .unExtract id => bench.synth.usedBelow id
  | .detach id _ => bench.synth.usedBelow id
  | _ => []

-- The same for operations one after the other: each port as often as it happens.
def tornDown (bench : Workbench) : List Operation → List PortId
  | [] => []
  | operation :: rest =>
      bench.tearsDown operation ++
        match bench.perform? operation with
        | some next => next.tornDown rest
        | none => []

-- A binding puts its port in use. Then it is in use until it is torn down.
theorem perm_made_of_perform? {operation : Operation}
    (hoperation : ∀ id stem, operation ≠ .matchByName id stem)
    (hnext : bench.perform? operation = some next) :
    ∃ made, next.design.arch.portBindings = bench.design.arch.portBindings ++ made ∧
      (bench.tearsDown operation ++ next.synth.nodes.usedPorts 0).Perm
        (made.map (·.1) ++ bench.synth.nodes.usedPorts 0) := by
  have hsame (hdesign : next.design.arch.portBindings = bench.design.arch.portBindings)
      (hports : (bench.tearsDown operation ++ next.synth.nodes.usedPorts 0).Perm
        (bench.synth.nodes.usedPorts 0)) :
      ∃ made, next.design.arch.portBindings = bench.design.arch.portBindings ++ made ∧
        (bench.tearsDown operation ++ next.synth.nodes.usedPorts 0).Perm
          (made.map (·.1) ++ bench.synth.nodes.usedPorts 0) :=
    ⟨[], hdesign.trans (List.append_nil _).symm, hports⟩
  cases operation with
  | instantiate template external source destinations =>
      obtain rfl := Option.some.inj hnext
      exact hsame rfl (.of_eq (Synthesizer.usedPorts_instantiate ..))
  | propagateSource id =>
      obtain ⟨synth, hsynth, rfl⟩ := propagateSource_of_perform? hnext
      exact hsame rfl (.of_eq (Synthesizer.usedPorts_propagateSource hsynth))
  | matchByName id stem => exact absurd rfl (hoperation id stem)
  | extractAll cls =>
      obtain rfl := Option.some.inj hnext
      exact hsame rfl (.of_eq (Synthesizer.usedPorts_extractAll ..))
  | unExtract id =>
      obtain ⟨⟨spot, hspot⟩, rfl⟩ := exists_node?_of_guard hnext
      refine hsame rfl ?_
      simp only [tearsDown, hspot]
      exact Synthesizer.perm_usedPorts_clear (fun _ => ite_self _) hspot
  | reverse id =>
      obtain ⟨⟨spot, hspot⟩, rfl⟩ := exists_node?_of_guard hnext
      exact hsame rfl (.of_eq (Synthesizer.usedPorts_reverseDirection hspot))
  | materialize id stem =>
      obtain ⟨signals, hmade, -⟩ := materialize_of_perform? hnext
      exact Synthesizer.uses_materialize hmade
  | detach id connections =>
      obtain ⟨⟨spot, hspot⟩, rfl⟩ := exists_node?_of_guard hnext
      refine hsame rfl (Synthesizer.perm_usedPorts_clear (fun state => ?_) hspot)
      cases connections with
      | false | true => rfl
  | connect | propagate =>
      obtain ⟨hsynth, -⟩ := synth_claims_of_wired? hnext
      exact hsame (portBindings_of_wired? hnext) (.of_eq (by rw [hsynth]; rfl))

theorem perm_made_of_performAll? {operations : List Operation}
    (hoperations : ∀ operation ∈ operations, ∀ id stem, operation ≠ .matchByName id stem)
    (hlast : bench.performAll? operations = some last) :
    ∃ made, last.design.arch.portBindings = bench.design.arch.portBindings ++ made ∧
      (bench.tornDown operations ++ last.synth.nodes.usedPorts 0).Perm
        (made.map (·.1) ++ bench.synth.nodes.usedPorts 0) := by
  induction operations generalizing bench with
  | nil =>
      obtain rfl := Option.some.inj hlast
      exact ⟨[], (List.append_nil _).symm, List.Perm.refl _⟩
  | cons operation rest ih =>
      obtain ⟨next, hnext, hrest⟩ := Option.bind_eq_some_iff.mp hlast
      obtain ⟨hfirst, hothers⟩ := List.forall_mem_cons.mp hoperations
      obtain ⟨made, hmade, hports⟩ := perm_made_of_perform? hfirst hnext
      obtain ⟨more, hmore, hlater⟩ := ih hothers hrest
      refine ⟨made ++ more, by rw [hmore, hmade, List.append_assoc], ?_⟩
      simp only [tornDown, hnext, List.map_append, List.append_assoc]
      calc
        (bench.tearsDown operation ++ (next.tornDown rest ++ last.synth.nodes.usedPorts 0)).Perm
            (bench.tearsDown operation ++ (more.map (·.1) ++ next.synth.nodes.usedPorts 0)) :=
          hlater.append_left _
        List.Perm _ (more.map (·.1) ++
            (bench.tearsDown operation ++ next.synth.nodes.usedPorts 0)) :=
          List.perm_append_comm_assoc ..
        List.Perm _ (more.map (·.1) ++ (made.map (·.1) ++ bench.synth.nodes.usedPorts 0)) :=
          hports.append_left _
        List.Perm _ (made.map (·.1) ++ (more.map (·.1) ++ bench.synth.nodes.usedPorts 0)) :=
          List.perm_append_comm_assoc ..

theorem Consistent.of_performAll? {operations : List Operation}
    (hoperations : ∀ operation ∈ operations, ∀ id stem, operation ≠ .matchByName id stem)
    (h : bench.Consistent) (hlast : bench.performAll? operations = some last) :
    last.Consistent := by
  induction operations generalizing bench with
  | nil =>
      obtain rfl := Option.some.inj hlast
      exact h
  | cons operation rest ih =>
      obtain ⟨next, hnext, hrest⟩ := Option.bind_eq_some_iff.mp hlast
      obtain ⟨hfirst, hothers⟩ := List.forall_mem_cons.mp hoperations
      have hallowed : bench.MatchesUnbound operation := by
        cases operation with
        | matchByName id stem => exact absurd rfl (hfirst id stem)
        | _ => trivial
      exact ih hothers (h.of_perform? hallowed hnext) hrest

-- No two leaves have signals on the same port.
theorem Consistent.nodup_usedPorts (h : bench.Consistent) :
    (bench.synth.nodes.usedPorts 0).Nodup :=
  ((h.perm.map (·.1)).nodup_iff.mp h.nodup).sublist (sublist_usedPorts ..)

-- A port is bound once if it is in use, and once more for each time that it was
-- torn down before.
theorem count_portBindings {design : Design} {separator : String}
    {ports : List (String × Direction)} {operations : List Operation}
    (hoperations : ∀ operation ∈ operations, ∀ id stem, operation ≠ .matchByName id stem)
    (h : (unclaimedPorts design separator ports).performAll? operations = some bench)
    (port : PortId) :
    (bench.design.arch.portBindings.map (·.1)).count port =
        (design.arch.portBindings.map (·.1)).count port +
          ((unclaimedPorts design separator ports).tornDown operations).count port +
          (if bench.Uses port then 1 else 0) ∧
      (port ∉ design.arch.portBindings.map (·.1) →
        port ∉ (unclaimedPorts design separator ports).tornDown operations →
          (bench.design.arch.portBindings.map (·.1)).count port ≤ 1) := by
  obtain ⟨made, hmade, hports⟩ := perm_made_of_performAll? hoperations h
  have hconsistent := Consistent.of_performAll? hoperations
    (consistent_unclaimedPorts design separator ports) h
  have hstart : (unclaimedPorts design separator ports).synth.nodes.usedPorts 0 = [] := rfl
  have hdesign : (unclaimedPorts design separator ports).design = design := rfl
  have hused : (bench.synth.nodes.usedPorts 0).count port = if bench.Uses port then 1 else 0 := by
    rw [hconsistent.nodup_usedPorts.count]
    simp only [uses_iff]
  have hcount := hports.count_eq port
  rw [hstart, List.append_nil, List.count_append, hused] at hcount
  have htotal : (bench.design.arch.portBindings.map (·.1)).count port =
      (design.arch.portBindings.map (·.1)).count port + (made.map (·.1)).count port := by
    rw [hmade, hdesign, List.map_append, List.count_append]
  refine ⟨by omega, fun hnew hkept => ?_⟩
  rw [htotal, ← hcount, List.count_eq_zero_of_not_mem hnew, List.count_eq_zero_of_not_mem hkept]
  split
  · rfl
  · exact Nat.zero_le _

def freeChannels : Workbench := unclaimedPorts channelPorts "_" channelPorts.portNames

-- A channel is given up and found again.
def foundAgain : List Operation :=
  [.extractAll channel, .materialize ⟨0⟩ "a", .unExtract ⟨0⟩, .extractAll channel, .reverse ⟨8⟩,
    .materialize ⟨8⟩ "a"]

def withFoundAgain : Workbench := (freeChannels.performAll? foundAgain).get (by decide +kernel)

theorem count_portBindings_foundAgain :
    (∀ operation ∈ foundAgain, ∀ id stem, operation ≠ .matchByName id stem) ∧
    freeChannels.performAll? foundAgain = some withFoundAgain ∧
    freeChannels.tornDown foundAgain = [⟨0⟩, ⟨1⟩] ∧ withFoundAgain.Uses ⟨0⟩ ∧
    (withFoundAgain.design.arch.portBindings.map (·.1)).count ⟨0⟩ =
        (channelPorts.arch.portBindings.map (·.1)).count ⟨0⟩ +
          (freeChannels.tornDown foundAgain).count ⟨0⟩ +
          (if withFoundAgain.Uses ⟨0⟩ then 1 else 0) ∧
      (⟨0⟩ ∉ channelPorts.arch.portBindings.map (·.1) →
        ⟨0⟩ ∉ freeChannels.tornDown foundAgain →
          (withFoundAgain.design.arch.portBindings.map (·.1)).count ⟨0⟩ ≤ 1) := by
  have hoperations : ∀ operation ∈ foundAgain, ∀ id stem, operation ≠ .matchByName id stem := by
    simp [foundAgain]
  have hlast : freeChannels.performAll? foundAgain = some withFoundAgain := (Option.some_get _).symm
  exact ⟨hoperations, hlast, by decide +kernel, by decide +kernel,
    count_portBindings hoperations hlast ⟨0⟩⟩

-- Signals that are forgotten stay on the ports, and new ones come beside them.
theorem portBindings_of_detached :
    channelPorts.arch.portBindings = [] ∧ channelPorts.arch.portDirection? ⟨0⟩ = some .output ∧
    (freeChannels.performAll? [.extractAll channel, .materialize ⟨0⟩ "a", .detach ⟨0⟩ false,
        .materialize ⟨0⟩ "a"]).map (·.design.arch.portBindings) =
      some [(⟨0⟩, ⟨0⟩), (⟨1⟩, ⟨1⟩), (⟨0⟩, ⟨2⟩), (⟨1⟩, ⟨3⟩)] := by
  decide +kernel

end Workbench

end Rtl
