import Rtl.Proofs.Interface.Roots
import Rtl.Proofs.Interface.Run

namespace Rtl

open Forest

namespace Claims

variable {claims : Claims}

theorem direction?_setOwner (port : PortId) (owner : Option NodeId) :
    (claims.setOwner port owner).direction? = claims.direction? := by
  funext other
  simp only [direction?, setOwner, Arena.get?, Arena.modify, Array.getElem?_modify]
  split
  · simp only [Option.map_map, Function.comp_def]
  · rfl

theorem direction?_release (port : PortId) :
    (claims.release port).direction? = claims.direction? := direction?_setOwner port none

theorem direction?_releasePort (id : NodeId) (state : NodeState) :
    (Synthesizer.releasePort id state claims).direction? = claims.direction? := by
  simp only [Synthesizer.releasePort]
  split
  · split
    · exact direction?_release _
    · rfl
  · rfl

theorem direction?_releaseAll (id : Nat) (forest : Forest NodeState) :
    (Synthesizer.releaseAll id forest claims).direction? = claims.direction? := by
  induction forest generalizing id claims with
  | nil => rfl
  | cons name state inner rest ihi ihr =>
      simp only [Synthesizer.releaseAll, ihr, ihi, direction?_releasePort]

end Claims

namespace Architecture

variable {arch next : Architecture}

theorem portDirection?_ne {direction : Direction}
    (h : ∀ port ∈ arch.entity.ports.toList, port.direction ≠ direction) (port : PortId) :
    arch.portDirection? port ≠ some direction := by
  intro hport
  obtain ⟨found, hfound, hdirection⟩ := Option.map_eq_some_iff.mp hport
  refine h found ?_ hdirection
  exact Array.mem_toList_iff.mpr (Array.mem_of_getElem? hfound)

theorem grows_connect (arch : Architecture) (destination source : SignalId) :
    arch.Grows (arch.connect destination source) := by
  have hjoined : arch.Grows
      { arch with connections := arch.connections ++ [⟨destination, source⟩] } :=
    ⟨rfl, Nat.le_refl _, fun _ hmem => hmem⟩
  exact (hjoined.trans (grows_modify ..)).trans (grows_modify ..)

-- What each connection keeps is kept by connections made one after the other.
theorem rel_connectAll? {R : Architecture → Architecture → Prop} (hrefl : ∀ arch, R arch arch)
    (htrans : ∀ {arch joined last}, R arch joined → R joined last → R arch last)
    (hconnect : ∀ arch destination source, R arch (Architecture.connect arch destination source))
    {links : List Connection} (h : arch.connectAll? links = some next) : R arch next := by
  induction links generalizing arch with
  | nil =>
      obtain rfl := Option.some.inj h
      exact hrefl arch
  | cons link rest ih =>
      obtain ⟨joined, hjoined, hrest⟩ := Option.bind_eq_some_iff.mp h
      simp only [connect?, Option.ite_none_right_eq_some] at hjoined
      obtain rfl := Option.some.inj hjoined.2
      exact htrans (hconnect ..) (ih hrest)

theorem grows_connectAll? {links : List Connection} (h : arch.connectAll? links = some next) :
    arch.Grows next := rel_connectAll? .refl .trans grows_connect h

-- Signals that are there can be connected.
theorem exists_connectAll? {links : List Connection}
    (h : ∀ link ∈ links, arch.hasSignal link.destination ∧ arch.hasSignal link.source) :
    ∃ next, arch.connectAll? links = some next ∧ next.connections = arch.connections ++ links := by
  induction links generalizing arch with
  | nil => exact ⟨arch, rfl, (List.append_nil _).symm⟩
  | cons link rest ih =>
      obtain ⟨hfirst, hothers⟩ := List.forall_mem_cons.mp h
      have hgrows := grows_connect arch link.destination link.source
      obtain ⟨next, hnext, hconnections⟩ := ih fun other hmem =>
        ⟨hgrows.hasSignal (hothers other hmem).1, hgrows.hasSignal (hothers other hmem).2⟩
      refine ⟨next, ?_, ?_⟩
      · rw [← hnext]
        simp only [connectAll?, List.foldlM_cons, connect?, hfirst, Bool.and_self, if_true]
        rfl
      · rw [hconnections]
        exact List.append_assoc arch.connections [link] rest

end Architecture

namespace Synthesizer

variable {synth next : Synthesizer} {template : Template} {first : String} {claims now : Claims}
  {arch : Architecture} {id : NodeId} {spot : Spot NodeState}

theorem node?_tryPort (h : synth.node? id = some spot) (port : PortId) :
    (synth.tryPort template first claims port).2.1.node? id = some spot := by
  simp only [tryPort]
  split
  · exact h
  · split
    · exact spot?_append_of_spot? h _
    · exact h

theorem node?_tryPorts (h : synth.node? id = some spot) (ports : List PortId) :
    (synth.tryPorts template first claims ports).2.1.node? id = some spot := by
  induction ports generalizing synth claims with
  | nil => exact h
  | cons port rest ih => exact ih (node?_tryPort h port)

theorem instance_tryPort {entry : String × NodeId} {port : PortId}
    (hdirection : claims.direction? = arch.portDirection?)
    (h : (synth.tryPort template first claims port).1 = some entry) :
    ∃ side spot, (synth.tryPort template first claims port).2.1.node? entry.2 = some spot ∧
      Instance arch template .master side false spot := by
  simp only [tryPort] at h ⊢
  split at h
  · cases h
  · rename_i candidate hcandidate
    split at h
    · rename_i agreed _ root members rest hagreed hnodes
      obtain rfl := Option.some.inj h
      obtain ⟨side, hinstance⟩ := Match.instance_of_agreed hdirection hagreed hnodes
        (synth.instanceName candidate)
      refine ⟨side, _, ?_, hinstance⟩
      exact spot?_append synth.nodes (.cons _ root members .nil) 0
    · cases h

-- Everything found is an instance that is all of one side.
theorem instance_tryPorts {entry : String × NodeId} {ports : List PortId}
    (hdirection : claims.direction? = arch.portDirection?)
    (h : entry ∈ (synth.tryPorts template first claims ports).1) :
    ∃ side spot, (synth.tryPorts template first claims ports).2.1.node? entry.2 = some spot ∧
      Instance arch template .master side false spot := by
  induction ports generalizing synth claims with
  | nil => cases h
  | cons port rest ih =>
      rcases List.mem_append.mp h with hfirst | hlater
      · obtain ⟨side, spot, hspot, hinstance⟩ :=
          instance_tryPort hdirection (Option.mem_toList.mp hfirst)
        exact ⟨side, spot, node?_tryPorts hspot rest, hinstance⟩
      · have hnow := (narrowed_tryPort synth template first claims port).direction?_eq
        exact ih (hnow.trans hdirection) hlater

theorem instance_extractAll {cls : InterfaceClass} {found : List (String × NodeId)}
    {entry : String × NodeId} (hdirection : claims.direction? = arch.portDirection?)
    (h : synth.extractAll cls claims = (.ok found, next, now)) (hmem : entry ∈ found) :
    ∃ side spot, next.node? entry.2 = some spot ∧
      Instance arch (synth.registry.build cls).1 .master side false spot := by
  simp only [extractAll] at h
  split at h
  · cases h
  · obtain ⟨rfl, rfl, rfl⟩ := h
    exact instance_tryPorts hdirection hmem

theorem registry_extractAll (synth : Synthesizer) (cls : InterfaceClass) (claims : Claims) :
    (synth.extractAll cls claims).2.1.registry = (synth.registry.build cls).2 := by
  simp only [extractAll]
  split
  · rfl
  · exact registry_tryPorts ..

theorem registry_propagateSource (h : synth.propagateSource id = .ok next) :
    next.registry = synth.registry := by
  obtain ⟨spot, -, ⟨-, rfl⟩ | ⟨source, other, -, -, rfl⟩⟩ := propagateSource_eq_ok h
  · rfl
  · rfl

theorem direction?_extractAll (cls : InterfaceClass) :
    (synth.extractAll cls claims).2.2.direction? = claims.direction? := by
  simp only [extractAll]
  split
  · rfl
  · exact (narrowed_tryPorts ..).direction?_eq

theorem direction?_unExtract (synth : Synthesizer) (id : NodeId) (claims : Claims) :
    (synth.unExtract id claims).2.direction? = claims.direction? := by
  simp only [unExtract]
  split
  · rfl
  · rw [Claims.direction?_releaseAll, Claims.direction?_releasePort]

end Synthesizer

namespace Workbench

variable {bench next : Workbench} {design : Design} {id other : NodeId} {template : Template}
  {agreeing side : Side} {made : Bool}

-- What operations leave as it is: the ports, and that no level of a template has
-- a name twice.
structure Keeps (design : Design) (bench : Workbench) : Prop where
  entity : bench.design.arch.entity = design.arch.entity
  direction : bench.claims.direction? = design.arch.portDirection?
  distinct : bench.synth.registry.Distinct

theorem Keeps.portDirection?_eq (h : bench.Keeps design) :
    bench.design.arch.portDirection? = design.arch.portDirection? := by
  funext port
  rw [Architecture.portDirection?, Architecture.portDirection?, h.entity]

theorem grows_of_materialize {synth made : Synthesizer} {stem : String} {design now : Design}
    {signals : List SignalId} (h : synth.materialize id stem design = some (signals, made, now)) :
    design.arch.Grows now.arch ∧ made.registry = synth.registry := by
  simp only [Synthesizer.materialize] at h
  split at h
  · cases h
  · split at h
    · obtain ⟨-, rfl, rfl⟩ := h
      exact ⟨Backing.grows_leaf .., rfl⟩
    · obtain ⟨-, rfl, rfl⟩ := h
      exact ⟨Backing.grows_members .., rfl⟩

theorem grows_of_wired? {wiring : Wiring} (h : bench.wired? wiring = some next) :
    bench.design.arch.Grows next.design.arch := by
  obtain ⟨arch, harch, rfl⟩ := exists_connectAll?_of_wired? h
  exact Architecture.grows_connectAll? harch

theorem Keeps.of_perform? {operation : Operation} (h : bench.Keeps design)
    (hnext : bench.perform? operation = some next) : next.Keeps design := by
  cases operation with
  | instantiate template external source destinations =>
      obtain rfl := Option.some.inj hnext
      exact ⟨h.entity, h.direction, h.distinct⟩
  | propagateSource id =>
      obtain ⟨synth, hsynth, rfl⟩ := propagateSource_of_perform? hnext
      exact ⟨h.entity, h.direction, Synthesizer.registry_propagateSource hsynth ▸ h.distinct⟩
  | matchByName id stem =>
      obtain ⟨⟨spot, hspot⟩, rfl⟩ := exists_node?_of_guard hnext
      have hdirection := (Match.members_narrowed id.index stem (.cons "" spot.item spot.inner .nil)
        bench.claims).direction?_eq
      simp only [hspot]
      exact ⟨h.entity, hdirection.trans h.direction, h.distinct⟩
  | extractAll cls =>
      obtain rfl := Option.some.inj hnext
      refine ⟨h.entity, (Synthesizer.direction?_extractAll cls).trans h.direction, ?_⟩
      have hregistry := bench.synth.registry_extractAll cls bench.claims
      exact hregistry ▸ (bench.synth.registry.distinct_build cls h.distinct).2
  | unExtract id =>
      obtain ⟨⟨spot, hspot⟩, rfl⟩ := exists_node?_of_guard hnext
      refine ⟨h.entity, (bench.synth.direction?_unExtract id bench.claims).trans h.direction, ?_⟩
      simp only [hspot]
      exact h.distinct
  | reverse id | detach id connections =>
      obtain ⟨-, rfl⟩ := exists_node?_of_guard hnext
      exact ⟨h.entity, h.direction, h.distinct⟩
  | materialize id stem =>
      obtain ⟨signals, hmade, hclaims⟩ := materialize_of_perform? hnext
      obtain ⟨hgrows, hregistry⟩ := grows_of_materialize hmade
      exact ⟨hgrows.entity.trans h.entity, hclaims ▸ h.direction, hregistry ▸ h.distinct⟩
  | connect | propagate =>
      obtain ⟨hsynth, hclaims⟩ := synth_claims_of_wired? hnext
      have hgrows := grows_of_wired? hnext
      exact ⟨hgrows.entity.trans h.entity, hclaims ▸ h.direction, hsynth ▸ h.distinct⟩

theorem keeps_unclaimedPorts (design : Design) (separator : String) :
    (unclaimedPorts design separator design.portNames).Keeps design := by
  refine ⟨rfl, ?_, fun _ _ h => nomatch h⟩
  funext port
  simp only [unclaimedPorts, Claims.direction?, Claims.ofPorts, Design.portNames, Arena.get?,
    Architecture.portDirection?, List.getElem?_toArray, List.getElem?_map, Arena.toList,
    Array.getElem?_toList, Option.map_map, Function.comp_def]

theorem keeps_of_run {allowed : Workbench → Operation → Prop} {start : Workbench}
    (h : Run allowed start bench) (hstart : start.Keeps design) : bench.Keeps design := by
  induction h with
  | start => exact hstart
  | step h hallowed hnext ih => exact ih.of_perform? hnext

-- The node is the root of an instance.
def IsRoot (bench : Workbench) (id : NodeId) (template : Template) (agreeing side : Side)
    (made : Bool) : Prop :=
  ∃ spot, bench.synth.node? id = some spot ∧
    Instance bench.design.arch template agreeing side made spot

-- What is done to one instance does not show in another.
theorem IsRoot.of_ne {change : NodeState → Forest NodeState → NodeState × Forest NodeState}
    {spot : Spot NodeState} (h : bench.IsRoot other template agreeing side made) (hne : id ≠ other)
    (hspot : bench.synth.node? id = some spot) (habove : spot.above = [])
    (hsize : (change spot.item spot.inner).2.size = spot.inner.size)
    (hsynth : next.synth = bench.synth.update id change)
    (hgrows : bench.design.arch.Grows next.design.arch) :
    next.IsRoot other template agreeing side made := by
  obtain ⟨found, hfound, hinstance⟩ := h
  refine ⟨found, ?_, hinstance.grows hgrows⟩
  rw [hsynth]
  have hindex : id.index ≠ other.index := fun he => hne (Id.index_injective he)
  exact spot?_update_of_ne hindex hspot habove hfound hinstance.above hsize

end Workbench

namespace Operation

-- Turns or backs the instance at a root.
inductive Prepares (root : NodeId) : Operation → Prop
  | reverse : Prepares root (.reverse root)
  | materialize (stem : String) : Prepares root (.materialize root stem)

def turns (id : NodeId) : Operation → Bool
  | .reverse root => root = id
  | _ => false

def makes (id : NodeId) : Operation → Bool
  | .materialize root _ => root = id
  | _ => false

end Operation

namespace Workbench

variable {bench next : Workbench} {design : Design} {id other : NodeId} {template : Template}
  {agreeing side : Side} {made : Bool}

theorem exists_reverse (h : bench.IsRoot id template agreeing side made) :
    ∃ next, bench.perform? (.reverse id) = some next ∧
      next.IsRoot id template agreeing.opposite side.opposite made ∧
      ∀ other, id ≠ other → ∀ {template agreeing side made},
        bench.IsRoot other template agreeing side made →
          next.IsRoot other template agreeing side made := by
  obtain ⟨⟨above, name, item, inner⟩, hspot, hinstance⟩ := h
  obtain rfl : above = [] := hinstance.above
  refine ⟨_, if_pos (by rw [hspot]; rfl), ⟨_, spot?_update_self hspot, hinstance.reverse⟩, ?_⟩
  intro other hne template agreeing side made hother
  exact hother.of_ne hne hspot rfl (size_map ..) rfl (.refl _)

theorem exists_materialize (stem : String) (h : bench.IsRoot id template agreeing side made) :
    ∃ next, bench.perform? (.materialize id stem) = some next ∧
      next.IsRoot id template agreeing side true ∧
      ∀ other, id ≠ other → ∀ {template agreeing side made},
        bench.IsRoot other template agreeing side made →
          next.IsRoot other template agreeing side made := by
  obtain ⟨⟨above, name, item, inner⟩, hspot, hinstance⟩ := h
  obtain rfl : above = [] := hinstance.above
  cases inner with
  | nil =>
      let made := Backing.leaf id stem item bench.design
      let next : Workbench :=
        { bench with synth := bench.synth.updateState id fun _ => made.2.1, design := made.2.2 }
      have hnext : bench.perform? (.materialize id stem) = some next := by
        simp only [perform?, materialize?, Synthesizer.materialize, hspot]
        rfl
      refine ⟨next, hnext,
        ⟨_, spot?_update_self hspot, Backing.instance_leaf hinstance rfl rfl⟩, ?_⟩
      intro other hne template agreeing side made hother
      exact hother.of_ne hne hspot rfl rfl rfl (Backing.grows_leaf ..)
  | cons first state below beside =>
      let made := Backing.members bench.synth.separator (id.index + 1) stem
        (.cons first state below beside) bench.design
      let next : Workbench :=
        { bench with synth := bench.synth.update id fun state _ => (state, made.2.1)
                     design := made.2.2 }
      have hnext : bench.perform? (.materialize id stem) = some next := by
        simp only [perform?, materialize?, Synthesizer.materialize, hspot]
        rfl
      refine ⟨next, hnext,
        ⟨_, spot?_update_self hspot, Backing.instance_members hinstance (by simp) rfl⟩, ?_⟩
      intro other hne template agreeing side made hother
      exact hother.of_ne hne hspot rfl (Backing.members_keeps ..).1 rfl (Backing.grows_members ..)

theorem exists_perform?_of_prepares {operation : Operation} {root : NodeId}
    (h : operation.Prepares root) {template : Template} {agreeing side : Side} {made : Bool}
    (hroot : bench.IsRoot root template agreeing side made) :
    ∃ next, bench.perform? operation = some next ∧
      ∀ id template agreeing side made, bench.IsRoot id template agreeing side made →
        next.IsRoot id template (Side.opposite^[(operation.turns id).toNat] agreeing)
          (Side.opposite^[(operation.turns id).toNat] side) (made || operation.makes id) := by
  cases h with
  | reverse =>
      obtain ⟨next, hnext, -, hothers⟩ := exists_reverse hroot
      refine ⟨next, hnext, fun id template agreeing side made hid => ?_⟩
      simp only [Operation.turns, Operation.makes, Bool.or_false]
      by_cases he : root = id
      · subst he
        obtain ⟨_, hsame, hself, -⟩ := exists_reverse hid
        obtain rfl := Option.some.inj (hnext.symm.trans hsame)
        simpa using hself
      · simpa [he] using hothers id he hid
  | materialize stem =>
      obtain ⟨next, hnext, -, hothers⟩ := exists_materialize stem hroot
      refine ⟨next, hnext, fun id template agreeing side made hid => ?_⟩
      simp only [Operation.turns, Operation.makes, Bool.toNat_false, Function.iterate_zero, id_eq]
      by_cases he : root = id
      · subst he
        obtain ⟨_, hsame, hself, -⟩ := exists_materialize stem hid
        obtain rfl := Option.some.inj (hnext.symm.trans hsame)
        simpa using hself
      · simpa [he] using hothers id he hid

-- One operation after the other; `none` if one of them comes to what is not there.
def performAll? (bench : Workbench) (operations : List Operation) : Option Workbench :=
  operations.foldlM perform? bench

theorem Keeps.of_performAll? {operations : List Operation} (h : bench.Keeps design)
    (hnext : bench.performAll? operations = some next) : next.Keeps design := by
  induction operations generalizing bench with
  | nil =>
      obtain rfl := Option.some.inj hnext
      exact h
  | cons operation rest ih =>
      obtain ⟨_, hfirst, hrest⟩ := Option.bind_eq_some_iff.mp hnext
      exact ih (h.of_perform? hfirst) hrest

theorem run_performAll? {allowed : Workbench → Operation → Prop} {start : Workbench}
    (hrun : Run allowed start bench) (hallowed : ∀ bench operation, allowed bench operation)
    {operations : List Operation} (hnext : bench.performAll? operations = some next) :
    Run allowed start next := by
  induction operations generalizing bench with
  | nil =>
      obtain rfl := Option.some.inj hnext
      exact hrun
  | cons operation rest ih =>
      obtain ⟨_, hfirst, hrest⟩ := Option.bind_eq_some_iff.mp hnext
      exact ih (.step hrun (hallowed _ _) hfirst) hrest

-- Instances are turned as often as is asked for, and backed if that is.
theorem exists_performAll? {operations : List Operation}
    (h : ∀ operation ∈ operations, ∃ root, operation.Prepares root ∧
      ∃ template agreeing side made, bench.IsRoot root template agreeing side made) :
    ∃ ready, bench.performAll? operations = some ready ∧
      ∀ id template agreeing side made, bench.IsRoot id template agreeing side made →
        ready.IsRoot id template
          (Side.opposite^[operations.countP (Operation.turns id)] agreeing)
          (Side.opposite^[operations.countP (Operation.turns id)] side)
          (made || operations.any (Operation.makes id)) := by
  induction operations generalizing bench with
  | nil =>
      refine ⟨bench, rfl, fun id template agreeing side made hid => ?_⟩
      simpa using hid
  | cons operation rest ih =>
      obtain ⟨⟨root, hprepares, template, agreeing, side, made, hroot⟩, hothers⟩ :=
        List.forall_mem_cons.mp h
      obtain ⟨next, hnext, hroots⟩ := exists_perform?_of_prepares hprepares hroot
      have hnow : ∀ operation ∈ rest, ∃ root, operation.Prepares root ∧
          ∃ template agreeing side made, next.IsRoot root template agreeing side made := by
        intro other hmem
        obtain ⟨root, hprepares, template, agreeing, side, made, hroot⟩ := hothers other hmem
        exact ⟨root, hprepares, _, _, _, _, hroots _ _ _ _ _ hroot⟩
      obtain ⟨ready, hready, hlast⟩ := ih hnow
      refine ⟨ready, ?_, fun id template agreeing side made hid => ?_⟩
      · rw [performAll?, List.foldlM_cons, hnext]
        exact hready
      · have hdone := hlast _ _ _ _ _ (hroots _ _ _ _ _ hid)
        rw [← Function.iterate_add_apply, ← Function.iterate_add_apply, Bool.or_assoc] at hdone
        rw [List.countP_cons, List.any_cons]
        cases hturns : operation.turns id with
        | false | true => simpa [hturns] using hdone

theorem isRoot_of_extract {cls : InterfaceClass} {found : List (String × NodeId)}
    {extracted : Workbench} {entry : String × NodeId} (hkeeps : bench.Keeps design)
    (h : bench.extract cls = (.ok found, extracted)) (hmem : entry ∈ found) :
    ∃ side, extracted.IsRoot entry.2 (bench.synth.registry.build cls).1 .master side false := by
  obtain ⟨hfound, rfl⟩ := Prod.mk.inj h
  obtain ⟨side, spot, hspot, hinstance⟩ := Synthesizer.instance_extractAll
    (hkeeps.direction.trans hkeeps.portDirection?_eq.symm) (Prod.ext hfound rfl) hmem
  exact ⟨side, spot, hspot, hinstance⟩

-- The side of the root is what is recorded there.
theorem IsRoot.of_side {spot : Spot NodeState} {wanted : Side}
    (h : bench.IsRoot id template agreeing side made) (hspot : bench.synth.node? id = some spot)
    (hside : spot.item.side = wanted) : bench.IsRoot id template agreeing wanted made := by
  obtain ⟨_, hsame, hinstance⟩ := h
  obtain rfl := Option.some.inj (hspot.symm.trans hsame)
  obtain rfl := hinstance.side_eq.symm.trans hside
  exact ⟨_, hspot, hinstance⟩

-- Turning two instances and backing them comes to the same in every order: each
-- is turned once, and both have signals.
theorem exists_ready {target origin : NodeId} {operations : List Operation} {stem other : String}
    {side side' : Side} (hne : target ≠ origin)
    (htarget : bench.IsRoot target template agreeing side made)
    (horigin : bench.IsRoot origin template agreeing side' made)
    (hoperations : operations.Perm
      [.reverse target, .reverse origin, .materialize target stem, .materialize origin other]) :
    ∃ ready, bench.performAll? operations = some ready ∧
      ready.IsRoot target template agreeing.opposite side.opposite true ∧
      ready.IsRoot origin template agreeing.opposite side'.opposite true := by
  have hprepares : ∀ operation ∈ operations, ∃ root, operation.Prepares root ∧
      ∃ template agreeing side made, bench.IsRoot root template agreeing side made := by
    intro operation hmem
    have hcases := hoperations.mem_iff.mp hmem
    simp only [List.mem_cons, List.not_mem_nil, or_false] at hcases
    obtain rfl | rfl | rfl | rfl := hcases
    · exact ⟨_, .reverse, _, _, _, _, htarget⟩
    · exact ⟨_, .reverse, _, _, _, _, horigin⟩
    · exact ⟨_, .materialize _, _, _, _, _, htarget⟩
    · exact ⟨_, .materialize _, _, _, _, _, horigin⟩
  obtain ⟨ready, hready, hroots⟩ := exists_performAll? hprepares
  have hready₁ := hroots _ _ _ _ _ htarget
  have hready₂ := hroots _ _ _ _ _ horigin
  rw [hoperations.countP_eq, hoperations.any_eq] at hready₁ hready₂
  simp only [List.countP_cons, List.countP_nil, List.any_cons, List.any_nil, Operation.turns,
    Operation.makes, hne, hne.symm, decide_true, decide_false] at hready₁ hready₂
  refine ⟨ready, hready, ?_, ?_⟩
  · simpa using hready₁
  · simpa using hready₂

-- Data flows from inputs to outputs. In a unit whose ports are inputs and
-- outputs, let extraction find instances of a class on both sides. Turned to the
-- inside and backed by signals, the one found as master can be driven by the one
-- found as slave. There is then one assignment for each path to a leaf, from the
-- signal on an input port to the one on an output port.
theorem wiring_joins_inputs_to_outputs {design : Design} {separator : String}
    {allowed : Workbench → Operation → Prop} {cls : InterfaceClass}
    {found : List (String × NodeId)} {bench extracted : Workbench} {target origin : String × NodeId}
    {master slave : Spot NodeState} {operations : List Operation} {stem other : String}
    (hrun : Run allowed (unclaimedPorts design separator design.portNames) bench)
    (hports : ∀ port ∈ design.arch.entity.ports.toList, port.direction ≠ .inout)
    (hcls : cls.Directed) (hfile : bench.synth.registry.Directs cls)
    (hextract : bench.extract cls = (.ok found, extracted))
    (htarget : target ∈ found) (horigin : origin ∈ found)
    (hmaster : extracted.synth.node? target.2 = some master ∧ master.item.side = .master)
    (hslave : extracted.synth.node? origin.2 = some slave ∧ slave.item.side = .slave)
    (hoperations : operations.Perm [.reverse target.2, .reverse origin.2,
      .materialize target.2 stem, .materialize origin.2 other]) :
    ∃ ready driven driving wired links,
      extracted.performAll? operations = some ready ∧
      ready.synth.node? target.2 = some driven ∧ ready.synth.node? origin.2 = some driving ∧
      ready.wire? (ready.synth.wiring target.2 origin.2) = some (wired, none) ∧
      wired.design.arch.connections = ready.design.arch.connections ++ links ∧
      driven.leaves.map (·.1) = driving.leaves.map (·.1) ∧ (driven.leaves.map (·.1)).Nodup ∧
      List.Forall₂ (fun (x, y) => Joined ready.design.arch x y)
        (driven.leaves.zip driving.leaves) links := by
  have hkeeps := keeps_of_run hrun (keeps_unclaimedPorts design separator)
  have hdistinct := (bench.synth.registry.distinct_build cls hkeeps.distinct).1
  have hdirected := (bench.synth.registry.directed_build cls hcls hfile).1
  obtain ⟨_, hroot⟩ := isRoot_of_extract hkeeps hextract htarget
  obtain ⟨_, hroot'⟩ := isRoot_of_extract hkeeps hextract horigin
  replace hroot := hroot.of_side hmaster.1 hmaster.2
  replace hroot' := hroot'.of_side hslave.1 hslave.2
  -- One instance is not on both sides.
  have hne : target.2 ≠ origin.2 := by
    intro he
    have hsame := hmaster.1.symm.trans (he ▸ hslave.1)
    obtain rfl := Option.some.inj hsame
    cases hmaster.2.symm.trans hslave.2
  obtain ⟨ready, hready, ⟨driven, hdriven, hinstance⟩, ⟨driving, hdriving, hinstance'⟩⟩ :=
    exists_ready hne hroot hroot' hoperations
  have hextracted : bench.perform? (.extractAll cls) = some extracted :=
    congrArg some (congrArg Prod.snd hextract)
  have hkept := (hkeeps.of_perform? hextracted).of_performAll? hready
  obtain ⟨links, hlinks, hjoined⟩ := Wiring.exists_links_of_instances hinstance hinstance' hdistinct
    hdirected (hkept.portDirection?_eq ▸ Architecture.portDirection?_ne hports)
  have hends : ∀ link ∈ links, ready.design.arch.hasSignal link.destination ∧
      ready.design.arch.hasSignal link.source := by
    intro link hmem
    obtain ⟨_, -, hlink⟩ := exists_mem_of_forall₂ hjoined hmem
    exact ⟨hlink.destination.1, hlink.source.1⟩
  obtain ⟨arch, harch, hconnections⟩ := ready.design.arch.exists_connectAll? hends
  have hwiring : ready.synth.wiring target.2 origin.2 = ⟨links, none⟩ := by
    simp only [Synthesizer.wiring, Synthesizer.wiringTo, Synthesizer.endpoint?, hdriven, hdriving,
      Option.map_some, hlinks]
  refine ⟨ready, driven, driving, { ready with design := { ready.design with arch } }, links,
    hready, hdriven, hdriving, ?_, hconnections, hinstance.paths.trans hinstance'.paths.symm,
    hinstance.nodup_paths hdistinct, hjoined⟩
  rw [hwiring, wire?, harch]
  rfl

-- A channel with a signal each way, the one back inside a member of its own.
def channel : InterfaceClass :=
  .mk "channel" []
    [.leaf "data" .output 8, .nested "back_" .input (.mk "reply" [] [.leaf "ready" .output 1])]

-- One channel out of the unit and one into it.
def channelPorts : Design :=
  let (entity, design) := addPorts ⟨.empty, .empty, .ofEntity ⟨0⟩ (.ofName ⟨0⟩)⟩ (.ofName ⟨0⟩)
    [⟨"a_data", .output, 8⟩, ⟨"a_back_ready", .input, 1⟩, ⟨"b_data", .input, 8⟩,
      ⟨"b_back_ready", .output, 1⟩]
  { design with arch := .ofEntity ⟨0⟩ entity }

def withChannels : Workbench :=
  ((unclaimedPorts channelPorts "_" channelPorts.portNames).extract channel).2

theorem directed_channel : channel.Directed := by
  have hmerged : channel.merged = channel.members := by
    simp [channel, InterfaceClass.merged, InterfaceClass.mergedAll, InterfaceClass.members,
      Member.putAll, Member.put, Member.name]
  have hreply : InterfaceClass.merged (.mk "reply" [] [.leaf "ready" .output 1]) =
      [.leaf "ready" .output 1] := by
    simp [InterfaceClass.merged, InterfaceClass.mergedAll, Member.putAll, Member.put]
  intro member hmem
  rw [hmerged] at hmem
  simp only [channel, InterfaceClass.members, List.mem_cons, List.not_mem_nil, or_false] at hmem
  rcases hmem with rfl | rfl
  · exact .leaf _ (by decide) _
  · refine .nested _ (by decide) fun inner hinner => ?_
    rw [hreply, List.mem_singleton] at hinner
    exact hinner ▸ .leaf _ (by decide) _

def insideView : List Operation :=
  [.reverse ⟨0⟩, .reverse ⟨4⟩, .materialize ⟨0⟩ "a", .materialize ⟨4⟩ "b"]

-- Data goes from one channel to the other, and the reply the other way.
theorem wiring_of_channels :
    (withChannels.performAll? insideView).map (fun ready => ready.synth.wiring ⟨0⟩ ⟨4⟩) =
      some ⟨[⟨⟨0⟩, ⟨2⟩⟩, ⟨⟨3⟩, ⟨1⟩⟩], none⟩ ∧
    ∃ ready driven driving wired links,
      withChannels.performAll? insideView = some ready ∧
      ready.synth.node? ⟨0⟩ = some driven ∧ ready.synth.node? ⟨4⟩ = some driving ∧
      ready.wire? (ready.synth.wiring ⟨0⟩ ⟨4⟩) = some (wired, none) ∧
      wired.design.arch.connections = ready.design.arch.connections ++ links ∧
      driven.leaves.map (·.1) = driving.leaves.map (·.1) ∧ (driven.leaves.map (·.1)).Nodup ∧
      List.Forall₂ (fun (x, y) => Joined ready.design.arch x y)
        (driven.leaves.zip driving.leaves) links := by
  have hrun : Run (fun _ _ => True) (unclaimedPorts channelPorts "_" channelPorts.portNames)
    (unclaimedPorts channelPorts "_" channelPorts.portNames) := .start
  have hfile : Registry.empty.Directs channel := fun _ _ _ h => nomatch h
  have hfound : (unclaimedPorts channelPorts "_" channelPorts.portNames).extract channel =
      (.ok [("a", ⟨0⟩), ("b", ⟨4⟩)], withChannels) := Prod.ext (by decide +kernel) rfl
  have hmaster : (withChannels.synth.node? ⟨0⟩).map (·.item.side) = some .master := by
    decide +kernel
  have hslave : (withChannels.synth.node? ⟨4⟩).map (·.item.side) = some .slave := by
    decide +kernel
  obtain ⟨master, hmaster⟩ := Option.map_eq_some_iff.mp hmaster
  obtain ⟨slave, hslave⟩ := Option.map_eq_some_iff.mp hslave
  exact ⟨by decide +kernel, wiring_joins_inputs_to_outputs hrun (by decide +kernel)
    directed_channel hfile hfound List.mem_cons_self (List.mem_cons_of_mem _ List.mem_cons_self)
    hmaster hslave (List.Perm.refl _)⟩

-- A class with the name of a channel whose reply goes both ways.
def twoWayChannel : InterfaceClass :=
  .mk "channel" []
    [.leaf "data" .output 8, .nested "back_" .inout (.mk "reply" [] [.leaf "ready" .output 1])]

-- Instances of this class were found and given up. Its template stays on file.
def relabelled : Workbench :=
  ((unclaimedPorts channelPorts "_" channelPorts.portNames).performAll?
    [.extractAll twoWayChannel, .unExtract ⟨0⟩, .unExtract ⟨4⟩]).get (by decide +kernel)

-- The template on file under the name of a class counts, whatever class it was
-- made from. No data flows through its members that go both ways.
theorem wiring_of_two_way_template :
    Run (fun _ _ => True) (unclaimedPorts channelPorts "_" channelPorts.portNames) relabelled ∧
    (∀ port ∈ channelPorts.arch.entity.ports.toList, port.direction ≠ .inout) ∧
    channel.Directed ∧
    (relabelled.extract channel).1 = .ok [("a", ⟨8⟩), ("b", ⟨12⟩)] ∧
    ((relabelled.extract channel).2.synth.node? ⟨8⟩).map (·.item.side) = some .master ∧
    ((relabelled.extract channel).2.synth.node? ⟨12⟩).map (·.item.side) = some .slave ∧
    ((relabelled.extract channel).2.performAll?
      [.reverse ⟨8⟩, .reverse ⟨12⟩, .materialize ⟨8⟩ "a", .materialize ⟨12⟩ "b"]).map
        (fun ready => ready.synth.wiring ⟨8⟩ ⟨12⟩) =
      some ⟨[⟨⟨0⟩, ⟨2⟩⟩], some (.misconfigured (.undirected "back_" .master .inout))⟩ := by
  have hnext : (unclaimedPorts channelPorts "_" channelPorts.portNames).performAll?
      [.extractAll twoWayChannel, .unExtract ⟨0⟩, .unExtract ⟨4⟩] = some relabelled :=
    (Option.some_get _).symm
  exact ⟨run_performAll? .start (fun _ _ => trivial) hnext, by decide +kernel, directed_channel,
    by decide +kernel⟩

end Workbench

end Rtl
