import Rtl.Proofs.Interface.Blocks
import Rtl.Proofs.Interface.Links
import Rtl.Proofs.Interface.Parity

namespace Rtl

open Forest

namespace Forest

variable {index : Nat} {instances : List (String × Template)}
  {forest front back : Forest NodeState} {template : Template}

-- Templates one behind the other, each under a name of its own.
def grove : List (String × Template) → Forest Shape
  | [] => nil
  | (name, template) :: rest => cons name ⟨.output, 0⟩ template.members (grove rest)

theorem grove_append (front back : List (String × Template)) :
    grove (front ++ back) = (grove front).append (grove back) := by
  induction front with
  | nil => rfl
  | cons entry rest ih => simp only [List.cons_append, grove, append, ih]

theorem distinct_of_spot?_grove (hbuilt : ∀ entry ∈ instances, entry.2.Built) {spot : Spot Shape}
    (hspot : (grove instances).spot? index = some spot) : spot.inner.Distinct := by
  induction instances generalizing index spot with
  | nil => cases hspot
  | cons entry rest ih =>
      obtain ⟨hfirst, hrest⟩ := List.forall_mem_cons.mp hbuilt
      refine forall_spot?_cons (p := fun _ spot => spot.inner.Distinct) hfirst.distinct
        (fun index below hbelow => ?_) (fun index below hbelow => ?_) index spot hspot
      · have hdistinct := hfirst.distinct.of_spot? hbelow
        exact hdistinct
      · exact ih hrest hbelow

-- Copies of templates of classes, whatever else is known about the nodes.
def Planted (forest : Forest NodeState) : Prop :=
  ∃ instances : List (String × Template), (∀ entry ∈ instances, entry.2.Built) ∧
    forest.map NodeState.shape = grove instances

namespace Planted

theorem nil : Planted nil := ⟨[], nofun, rfl⟩

theorem append (hfront : front.Planted) (hback : back.Planted) : (front.append back).Planted := by
  obtain ⟨one, hone, hfront⟩ := hfront
  obtain ⟨other, hother, hback⟩ := hback
  refine ⟨one ++ other, List.forall_mem_append.mpr ⟨hone, hother⟩, ?_⟩
  rw [map_append, hfront, hback, grove_append]

theorem of_map (h : front.Planted)
    (hsame : back.map NodeState.shape = front.map NodeState.shape) : back.Planted := by
  obtain ⟨instances, hbuilt, hfront⟩ := h
  exact ⟨instances, hbuilt, hsame.trans hfront⟩

theorem of_copies (hbuilt : template.Built) (h : forest.Copies template) : forest.Planted := by
  induction forest with
  | nil => exact .nil
  | cons name root inner rest _ ih =>
      obtain ⟨hroot, hinner, hrest⟩ := h
      have hone : (cons name root inner .nil).Planted := by
        refine ⟨[(name, template)], List.forall_mem_singleton.mpr hbuilt, ?_⟩
        rw [map, hroot, hinner]
        rfl
      exact hone.append (ih hrest)

-- The members of a node have different names.
theorem distinct_of_spot? (h : forest.Planted) {spot : Spot NodeState}
    (hspot : forest.spot? index = some spot) : spot.inner.Distinct := by
  obtain ⟨instances, hbuilt, hforest⟩ := h
  have hshape := spot?_map NodeState.shape forest index
  rw [hforest, hspot] at hshape
  exact (distinct_map NodeState.shape).mp (distinct_of_spot?_grove hbuilt hshape)

end Planted

end Forest

namespace Backing

-- Of a node there changes at most what changes when its leaf is backed.
theorem map_members {β : Type} {f : NodeState → β}
    (hleaf : ∀ id name state design, f (leaf id name state design).2.1 = f state)
    (separator : String) (id : Nat) (stem : String) (forest : Forest NodeState) (design : Design) :
    (members separator id stem forest design).2.1.map f = forest.map f := by
  induction forest generalizing id stem design with
  | nil => rfl
  | cons name state inner rest ihi ihr =>
      cases inner with
      | nil => simp only [members, map, hleaf, ihr]
      | cons => rw [members, map, map, ihi, ihr]

theorem shape_leaf (id : NodeId) (name : String) (state : NodeState) (design : Design) :
    (leaf id name state design).2.1.shape = state.shape := by
  simp only [leaf]
  split <;> rfl

end Backing

namespace Synthesizer

variable {synth next : Synthesizer} {id : NodeId} {spot : Spot NodeState}

-- A change of all nodes from one on down that their shapes do not show.
theorem map_shape_update {change : NodeState → Forest NodeState → NodeState × Forest NodeState}
    {root : NodeState} {members : Forest NodeState} (hspot : synth.node? id = some spot)
    (hchange : change spot.item spot.inner = (root, members))
    (hroot : root.shape = spot.item.shape)
    (hmembers : members.map NodeState.shape = spot.inner.map NodeState.shape) :
    (synth.update id change).nodes.map NodeState.shape = synth.nodes.map NodeState.shape := by
  refine map_update_eq hspot hchange ?_
  rw [Spot.tree, map, hroot, hmembers]
  rfl

theorem map_shape_materialize {stem : String} {design now : Design} {signals : List SignalId}
    (h : synth.materialize id stem design = some (signals, next, now)) :
    next.nodes.map NodeState.shape = synth.nodes.map NodeState.shape ∧
      next.registry = synth.registry := by
  simp only [materialize] at h
  split at h
  · cases h
  · rename_i spot hspot
    split at h
    · simp only [Option.some.injEq, Prod.mk.injEq] at h
      obtain ⟨-, rfl, -⟩ := h
      exact ⟨map_shape_update hspot rfl (Backing.shape_leaf ..) rfl, rfl⟩
    · simp only [Option.some.injEq, Prod.mk.injEq] at h
      obtain ⟨-, rfl, -⟩ := h
      exact ⟨map_shape_update hspot rfl rfl (Backing.map_members Backing.shape_leaf ..), rfl⟩

-- What holds of every synthesizer: its templates are those of a history of classes, and
-- its nodes are copies of such templates.
structure Stocked (synth : Synthesizer) : Prop where
  registry : ∃ history, synth.registry = Registry.empty.buildAll history
  planted : synth.nodes.Planted

namespace Stocked

theorem of_map_shape (h : synth.Stocked) (hregistry : next.registry = synth.registry)
    (hnodes : next.nodes.map NodeState.shape = synth.nodes.map NodeState.shape) : next.Stocked :=
  ⟨hregistry ▸ h.registry, h.planted.of_map hnodes⟩

theorem template (h : synth.Stocked) (cls : InterfaceClass) :
    (synth.template cls).1.Built ∧ (synth.template cls).2.Stocked := by
  obtain ⟨history, hregistry⟩ := h.registry
  refine ⟨⟨history, cls, congrArg (fun registry => (registry.build cls).1) hregistry⟩,
    ⟨history ++ [cls], ?_⟩, h.planted⟩
  rw [Registry.buildAll_append, ← hregistry]
  rfl

theorem extractAll (h : synth.Stocked) (cls : InterfaceClass) (claims : Claims) :
    (synth.extractAll cls claims).2.1.Stocked := by
  obtain ⟨hbuilt, hnext⟩ := h.template cls
  simp only [Synthesizer.extractAll]
  split
  · exact hnext
  · obtain ⟨added, hadded, hcopies, -⟩ := exists_copies_tryPorts (synth.template cls).2
      (synth.template cls).1 _ claims (claims.ports.entries.map (·.1))
    rw [hadded.nodes]
    exact ⟨hnext.registry, hnext.planted.append (.of_copies hbuilt hcopies)⟩

theorem instantiate {template : Template} (h : synth.Stocked) (hbuilt : template.Built)
    (external : Bool) (source : Option NodeId) (destinations : List NodeId) :
    (synth.instantiate template external source destinations).2.Stocked := by
  refine ⟨h.registry, h.planted.append (.of_copies hbuilt ⟨rfl, ?_, trivial⟩)⟩
  rw [map_map]
  exact map_id _

theorem propagateSource (h : synth.Stocked) (hnext : synth.propagateSource id = .ok next) :
    next.Stocked := by
  obtain ⟨spot, -, ⟨-, rfl⟩ | ⟨source, other, -, hother, rfl⟩⟩ := propagateSource_eq_ok hnext
  · exact h
  · exact h.of_map_shape rfl (map_shape_update hother rfl rfl rfl)

theorem matchByName (h : synth.Stocked) (hspot : synth.node? id = some spot) (stem : String)
    (claims : Claims) : (synth.matchByName id stem claims).2.1.Stocked := by
  obtain ⟨root, below, -, hkept, hupdate⟩ := exists_nodes_matchByName hspot stem claims
  refine h.of_map_shape ?_ ((congrArg _ hupdate).trans ?_)
  · simp only [Synthesizer.matchByName, hspot]
    rfl
  · exact map_update_eq hspot rfl (map_eq_of_map hkept NodeState.shape)

theorem unExtract (h : synth.Stocked) (hspot : synth.node? id = some spot) (claims : Claims) :
    (synth.unExtract id claims).1.Stocked := by
  simp only [Synthesizer.unExtract, hspot]
  exact h.of_map_shape rfl (map_shape_update hspot rfl rfl (map_map ..))

theorem changeAll {change : NodeState → NodeState} (h : synth.Stocked)
    (hspot : synth.node? id = some spot) (hchange : ∀ state, (change state).shape = state.shape) :
    (synth.update id fun state inner => (change state, inner.map change)).Stocked := by
  refine h.of_map_shape rfl (map_shape_update hspot rfl (hchange _) ?_)
  rw [map_map]
  simp only [hchange]

theorem materialize {stem : String} {design now : Design} {signals : List SignalId}
    (h : synth.Stocked) (hmade : synth.materialize id stem design = some (signals, next, now)) :
    next.Stocked :=
  h.of_map_shape (map_shape_materialize hmade).2 (map_shape_materialize hmade).1

theorem updateState {change : NodeState → NodeState} (h : synth.Stocked)
    (hspot : synth.node? id = some spot) (hchange : ∀ state, (change state).shape = state.shape) :
    (synth.updateState id change).Stocked :=
  h.of_map_shape rfl (map_shape_update hspot rfl (hchange _) rfl)

theorem linked_rows (h : synth.Stocked) : Linked synth.rows :=
  Forest.linked_rows fun _ _ hspot => h.planted.distinct_of_spot? hspot

end Stocked

theorem rows_add (synth : Synthesizer) (name : String) (root : NodeState)
    (members : Forest NodeState) : (synth.add name root members).2.rows =
      synth.rows ++ (Forest.cons name root members .nil).rows none synth.size := by
  rw [rows, add, rows_append, Nat.zero_add]
  rfl

-- What fits a port is an instance that was made, matched and named. What does not fit was
-- made too, but all from its root on is cut off again.
theorem rows_tryPort {template : Template} {first candidate : String} {claims : Claims}
    {port : PortId} {attempt : Except InterfaceError NodeId × Synthesizer × Claims}
    (hcandidate : claims.candidate? port first = some candidate)
    (hattempt : (synth.instantiate template true none []).2.matchByName ⟨synth.size⟩ candidate
      claims = attempt) :
    (synth.tryPort template first claims port).2.2 = attempt.2.2 ∧
      ((∃ cause, attempt.1 = .error cause ∧ (synth.tryPort template first claims port).1 = none ∧
          (synth.tryPort template first claims port).2.1.rows =
            attempt.2.1.rows.take synth.size) ∨
        (attempt.1 = .ok ⟨synth.size⟩ ∧
          (synth.tryPort template first claims port).1 =
            some (synth.instanceName candidate, ⟨synth.size⟩) ∧
          (synth.tryPort template first claims port).2.1.rows =
            attempt.2.1.rows.modify synth.size
              fun row => { row with name := synth.instanceName candidate })) := by
  have hsize : synth.rows.length = synth.size := length_rows ..
  have hmade := synth.node?_instantiate template true none []
  obtain ⟨root, below, hnodes, -, hupdate⟩ := exists_nodes_matchByName hmade candidate claims
  have hrows : attempt.2.1.rows = synth.rows ++
      (Forest.cons template.className root below .nil).rows none synth.size := by
    have happend := update_append (fun _ _ => (root, below)) synth.nodes (.cons
      template.className (template.instantiate true none []).1
      (template.instantiate true none []).2 .nil) 0
    rw [← synth.rows_add, ← hattempt, rows, hupdate]
    exact congrArg (Forest.rows none 0) happend
  rw [hrows, List.modify_eq_take_drop, List.take_left' hsize, List.drop_left' hsize]
  subst hattempt
  simp only [matchByName, hmade, tryPort, hcandidate]
  generalize Match.node ⟨synth.size⟩ candidate _ _ claims = made at hnodes ⊢
  cases made.agreed with
  | error cause => exact ⟨rfl, .inl ⟨_, rfl, rfl, rfl⟩⟩
  | ok agreed =>
      simp only [hnodes]
      exact ⟨trivial, .inr ⟨trivial, rfl, synth.rows_add (synth.instanceName candidate) ..⟩⟩

end Synthesizer

end Rtl
