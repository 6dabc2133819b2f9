import Rtl.Proofs.Interface.Matching
import Rtl.Proofs.Interface.Run

namespace Rtl

open Forest Claims

variable {claims : Claims} {holders : List (PortId × NodeId)}

-- A node gives up its port, if it is a leaf that has one, and nothing else.
theorem Claims.Holds.releasePort {id : Nat} {state : NodeState} {inner : Forest NodeState}
    (h : claims.Holds (held id state inner ++ holders))
    (hother : ∀ entry ∈ holders, entry.2.index ≠ id) :
    (Synthesizer.releasePort ⟨id⟩ state claims).Holds holders := by
  cases hport : state.port with
  | none =>
      rw [held_of_port hport, List.nil_append] at h
      simpa only [Synthesizer.releasePort, hport] using h
  | some port =>
      simp only [Synthesizer.releasePort, hport]
      by_cases howner : claims.owner? port = some ⟨id⟩
      · rw [if_pos howner]
        rcases List.mem_append.mp (h.owner?_eq_iff.mp howner) with hheld | hmem
        · cases inner with
          | nil =>
              simp only [held, hport] at h
              exact h.release
          | cons => simp [held] at hheld
        · exact absurd rfl (hother _ hmem)
      · rw [if_neg howner]
        cases inner with
        | nil =>
            simp only [held, hport] at h
            exact absurd (h.owner?_eq_iff.mpr List.mem_cons_self) howner
        | cons => exact h

-- The nodes of a forest give up what its leaves hold.
theorem Claims.Holds.releaseAll {id : Nat} {forest : Forest NodeState}
    (h : claims.Holds (forest.bindings id ++ holders))
    (hother : ∀ entry ∈ holders, entry.2.index < id ∨ id + forest.size ≤ entry.2.index) :
    (Synthesizer.releaseAll id forest claims).Holds holders := by
  induction forest generalizing id claims holders with
  | nil => exact h
  | cons name state inner rest ihi ihr =>
      simp only [bindings, List.append_assoc] at h
      rw [Forest.size] at hother
      have hheld := h.releasePort (by
        intro entry hmem
        rcases List.mem_append.mp hmem with hmem | hmem
        · have := range_of_mem_bindings hmem
          omega
        rcases List.mem_append.mp hmem with hmem | hmem
        · have := range_of_mem_bindings hmem
          omega
        · have := hother entry hmem
          omega)
      have hinner := ihi hheld (by
        intro entry hmem
        rcases List.mem_append.mp hmem with hmem | hmem
        · have := range_of_mem_bindings hmem
          omega
        · have := hother entry hmem
          omega)
      refine ihr hinner ?_
      intro entry hmem
      have := hother entry hmem
      omega

namespace Synthesizer

theorem perm_middle_append {α : Type} (front middle back : List α) :
    (front ++ middle ++ back).Perm (middle ++ (front ++ back)) := by
  rw [← List.append_assoc]
  exact List.perm_append_comm.append_right back

variable {synth : Synthesizer} {id : NodeId} {spot : Forest.Spot NodeState}

-- Each operation keeps the claims and the leaves in step.

theorem bindings_add (synth : Synthesizer) (name : String) (root : NodeState)
    (members : Forest NodeState) :
    (synth.add name root members).2.nodes.bindings 0 =
      synth.nodes.bindings 0 ++ bindingsBelow synth.size root members := by
  simp only [add, bindings_append, Nat.zero_add]
  simp only [bindings, bindingsBelow, List.append_nil, size]

theorem bindingsBelow_instantiate (template : Template) (external : Bool)
    (source : Option NodeId) (destinations : List NodeId) (first : Nat) :
    bindingsBelow first (template.instantiate external source destinations).1
      (template.instantiate external source destinations).2 = [] := by
  have hroot : (template.instantiate external source destinations).1.port = none := rfl
  have hmembers : (template.instantiate external source destinations).2.bindings (first + 1) = [] :=
    bindings_map_of_unbound (fun shape => rfl) _ _
  rw [bindingsBelow, held_of_port hroot, hmembers]
  rfl

theorem bindings_instantiate (synth : Synthesizer) (template : Template) (external : Bool)
    (source : Option NodeId) (destinations : List NodeId) :
    (synth.instantiate template external source destinations).2.nodes.bindings 0 =
      synth.nodes.bindings 0 := by
  simp only [instantiate, bindings_add, bindingsBelow_instantiate, List.append_nil]

theorem holds_matchByName (stem : String) (hholds : claims.Holds (synth.nodes.bindings 0))
    (hspot : synth.node? id = some spot)
    (hunbound : bindingsBelow id.index spot.item spot.inner = []) :
    (synth.matchByName id stem claims).2.2.Holds
      ((synth.matchByName id stem claims).2.1.nodes.bindings 0) := by
  obtain ⟨bound, below, made, hnodes, hsize, hmade, hperm⟩ :=
    Match.node_binds id stem claims hunbound
  obtain ⟨front, back, heq, -, hupdate⟩ := exists_bindings_update hspot 0
  simp only [Nat.zero_add, hunbound, List.append_nil] at heq hupdate
  rw [heq] at hholds
  simp only [matchByName, hspot, update]
  rw [hupdate _ (by simpa only [hnodes] using hsize)]
  simp only [hnodes]
  refine (hholds.grown hmade).of_perm ?_
  exact (hperm.symm.append_right _).trans (perm_middle_append front _ back).symm

theorem holds_unExtract (hholds : claims.Holds (synth.nodes.bindings 0))
    (hspot : synth.node? id = some spot) :
    (synth.unExtract id claims).2.Holds ((synth.unExtract id claims).1.nodes.bindings 0) := by
  obtain ⟨front, back, heq, hother, hupdate⟩ := exists_bindings_update hspot 0
  simp only [Nat.zero_add] at heq hother hupdate
  have hcleared : bindingsBelow id.index (unboundState spot.item)
      (spot.inner.map unboundState) = [] := by
    have hinner := bindings_map_of_unbound (f := unboundState) (fun _ => rfl) (id.index + 1)
      spot.inner
    rw [bindingsBelow, held_of_port rfl, hinner]
    rfl
  simp only [unExtract, hspot, update]
  rw [hupdate _ (size_map ..), hcleared, List.append_nil]
  have hfirst : claims.Holds (held id.index spot.item spot.inner ++
      (spot.inner.bindings (id.index + 1) ++ (front ++ back))) := by
    rw [← List.append_assoc]
    exact hholds.of_perm (heq ▸ perm_middle_append front _ back)
  have hroot := hfirst.releasePort (by
    intro entry hmem
    rcases List.mem_append.mp hmem with hmem | hmem
    · have := range_of_mem_bindings hmem
      omega
    · have := hother entry hmem
      omega)
  refine hroot.releaseAll ?_
  intro entry hmem
  have := hother entry hmem
  omega

theorem bindings_materialize {stem : String} {design design' : Design}
    {signals : List SignalId} {next : Synthesizer}
    (h : synth.materialize id stem design = some (signals, next, design')) :
    next.nodes.bindings 0 = synth.nodes.bindings 0 := by
  simp only [materialize] at h
  split at h
  · cases h
  · rename_i spot hspot
    split at h
    · rename_i hleaf
      obtain ⟨-, rfl, -⟩ := h
      have hport := Backing.port_leaf id stem spot.item design
      exact bindings_update_of_spot? hspot 0 rfl (bindingsBelow_congr _ hport rfl rfl)
    · obtain ⟨-, rfl, -⟩ := h
      obtain ⟨hsize, hinner⟩ :=
        Backing.members_keeps synth.separator (id.index + 1) stem spot.inner design
      refine bindings_update_of_spot? hspot 0 hsize ?_
      rw [Nat.zero_add]
      exact bindingsBelow_congr _ rfl hsize hinner

theorem bindings_reverseDirection (hspot : synth.node? id = some spot) :
    (synth.reverseDirection id).nodes.bindings 0 = synth.nodes.bindings 0 := by
  have hport (state : NodeState) : (reverseState state).port = state.port := rfl
  have hsize := size_map reverseState spot.inner
  exact bindings_update_of_spot? hspot 0 hsize
    (bindingsBelow_congr _ rfl hsize (bindings_map hport _ _))

theorem bindings_detachSignals (hspot : synth.node? id = some spot) (connections : Bool) :
    (synth.detachSignals id connections).nodes.bindings 0 = synth.nodes.bindings 0 := by
  have hport (state : NodeState) : (detachState connections state).port = state.port := by
    cases connections with
    | false | true => rfl
  have hsize := size_map (detachState connections) spot.inner
  exact bindings_update_of_spot? hspot 0 hsize
    (bindingsBelow_congr _ (hport _) hsize (bindings_map hport _ _))

theorem bindings_propagateSource {next : Synthesizer}
    (h : synth.propagateSource id = .ok next) :
    next.nodes.bindings 0 = synth.nodes.bindings 0 := by
  obtain ⟨spot, -, ⟨-, rfl⟩ | ⟨source, other, -, hother, rfl⟩⟩ := propagateSource_eq_ok h
  · rfl
  · exact bindings_update_of_spot? hother 0 rfl (bindingsBelow_congr _ rfl rfl rfl)

theorem holds_tryPort (template : Template) (first : String) (port : PortId)
    (hholds : claims.Holds (synth.nodes.bindings 0)) :
    (synth.tryPort template first claims port).2.2.Holds
      ((synth.tryPort template first claims port).2.1.nodes.bindings 0) := by
  simp only [tryPort]
  split
  · exact hholds
  · rename_i candidate hcandidate
    have hunbound := bindingsBelow_instantiate template true none [] synth.size
    obtain ⟨bound, below, made, hnodes, hsize, hmade, hperm⟩ :=
      Match.node_binds ⟨synth.size⟩ candidate claims hunbound
    generalize hattempt : Match.node ⟨synth.size⟩ candidate _ _ claims = attempt at *
    split
    · rename_i root members rest hok hsame
      obtain ⟨-, rfl, rfl, -⟩ := Forest.cons.inj (hnodes.symm.trans hsame)
      simp only [bindings_add]
      exact (hholds.grown hmade).of_perm
        ((hperm.symm.append_right _).trans List.perm_append_comm)
    · rename_i hfailed
      cases hagreed : attempt.agreed with
      | ok agreed => exact absurd hnodes (hfailed _ _ _ _ _ hagreed)
      | error cause =>
          subst hattempt
          rw [Match.claims_node_of_error hagreed]
          exact hholds

theorem holds_tryPorts (template : Template) (first : String) (ports : List PortId)
    (hholds : claims.Holds (synth.nodes.bindings 0)) :
    (synth.tryPorts template first claims ports).2.2.Holds
      ((synth.tryPorts template first claims ports).2.1.nodes.bindings 0) := by
  induction ports generalizing synth claims with
  | nil => exact hholds
  | cons port rest ih => exact ih (holds_tryPort template first port hholds)

theorem holds_extractAll (cls : InterfaceClass) (hholds : claims.Holds (synth.nodes.bindings 0)) :
    (synth.extractAll cls claims).2.2.Holds
      ((synth.extractAll cls claims).2.1.nodes.bindings 0) := by
  simp only [extractAll, Synthesizer.template]
  split
  · exact hholds
  · exact holds_tryPorts _ _ _ hholds

end Synthesizer

namespace Workbench

-- The ports that are claimed are those that leaves have.
def Consistent (bench : Workbench) : Prop := bench.claims.Holds (bench.synth.nodes.bindings 0)

-- No leaf at or below the node has a port.
def Unbound (bench : Workbench) (id : NodeId) : Prop :=
  ∀ spot, bench.synth.node? id = some spot → bindingsBelow id.index spot.item spot.inner = []

instance (bench : Workbench) (id : NodeId) : Decidable (bench.Unbound id) :=
  decidable_of_iff
    ((bench.synth.node? id).all fun spot => bindingsBelow id.index spot.item spot.inner == [])
    (by cases h : bench.synth.node? id <;> simp [Unbound, h])

-- Any operation may be asked for, but only what has no ports may be matched.
def MatchesUnbound (bench : Workbench) : Operation → Prop
  | .matchByName id _ => bench.Unbound id
  | _ => True

theorem consistent_unclaimedPorts (design : Design) (separator : String)
    (ports : List (String × Direction)) : (unclaimedPorts design separator ports).Consistent := by
  refine ⟨List.Perm.refl _, List.nodup_nil, ?_⟩
  intro port node
  have howner : (Claims.ofPorts ports).owner? port = none := by
    simp only [Claims.owner?, Claims.ofPorts, Arena.get?, List.getElem?_toArray, List.getElem?_map]
    cases ports[port.index]? with
    | none => rfl
    | some entry => rfl
  have hlog : (Claims.ofPorts ports).log = [] := rfl
  simp only [unclaimedPorts, howner, hlog, List.not_mem_nil, reduceCtorEq]

theorem Consistent.of_bindings_eq {bench next : Workbench} (h : bench.Consistent)
    (hclaims : next.claims = bench.claims)
    (hnodes : next.synth.nodes.bindings 0 = bench.synth.nodes.bindings 0) : next.Consistent := by
  rw [Consistent, hclaims, hnodes]
  exact h

theorem Consistent.of_perform? {bench next : Workbench} {operation : Operation}
    (h : bench.Consistent) (hallowed : bench.MatchesUnbound operation)
    (hnext : bench.perform? operation = some next) : next.Consistent := by
  cases operation with
  | instantiate template external source destinations =>
      obtain rfl := Option.some.inj hnext
      exact h.of_bindings_eq rfl (Synthesizer.bindings_instantiate ..)
  | propagateSource id =>
      obtain ⟨synth, hsynth, rfl⟩ := propagateSource_of_perform? hnext
      exact h.of_bindings_eq rfl (Synthesizer.bindings_propagateSource hsynth)
  | matchByName id stem =>
      obtain ⟨⟨spot, hspot⟩, rfl⟩ := exists_node?_of_guard hnext
      exact Synthesizer.holds_matchByName stem h hspot (hallowed spot hspot)
  | extractAll cls =>
      obtain rfl := Option.some.inj hnext
      exact Synthesizer.holds_extractAll cls h
  | unExtract id =>
      obtain ⟨⟨spot, hspot⟩, rfl⟩ := exists_node?_of_guard hnext
      exact Synthesizer.holds_unExtract h hspot
  | reverse id =>
      obtain ⟨⟨spot, hspot⟩, rfl⟩ := exists_node?_of_guard hnext
      exact h.of_bindings_eq rfl (Synthesizer.bindings_reverseDirection hspot)
  | materialize id stem =>
      obtain ⟨signals, hmade, hclaims⟩ := materialize_of_perform? hnext
      exact h.of_bindings_eq hclaims (Synthesizer.bindings_materialize hmade)
  | detach id connections =>
      obtain ⟨⟨spot, hspot⟩, rfl⟩ := exists_node?_of_guard hnext
      exact h.of_bindings_eq rfl (Synthesizer.bindings_detachSignals hspot connections)
  | connect | propagate =>
      obtain ⟨hsynth, hclaims⟩ := synth_claims_of_wired? hnext
      exact h.of_bindings_eq hclaims (by rw [hsynth])

theorem consistent_of_run {start bench : Workbench} (h : Run MatchesUnbound start bench)
    (hstart : start.Consistent) : bench.Consistent := by
  induction h with
  | start => exact hstart
  | step h hallowed hnext ih => exact ih.of_perform? hallowed hnext

-- After any operations on a unit whose ports were free at first, a node owns a
-- port exactly if it is a leaf that has this port, and the log has one entry for
-- each port that is owned and no other.
theorem owner?_eq_some_iff_leaf_and_count_log {design : Design} {separator : String}
    {ports : List (String × Direction)} {bench : Workbench}
    (h : Run MatchesUnbound (unclaimedPorts design separator ports) bench)
    (port : PortId) (node : NodeId) :
    (bench.claims.owner? port = some node ↔
      ∃ spot, bench.synth.node? node = some spot ∧ spot.inner = .nil ∧
        spot.item.port = some port) ∧
    bench.claims.log.count (port, node) =
      if bench.claims.owner? port = some node then 1 else 0 := by
  have hbench := consistent_of_run h (consistent_unclaimedPorts design separator ports)
  constructor
  · rw [hbench.owner?_eq_iff, mem_bindings_iff]
    constructor
    · rintro ⟨index, spot, hindex, hspot, hleaf⟩
      obtain rfl : node.index = index := by omega
      exact ⟨spot, hspot, hleaf⟩
    · rintro ⟨spot, hspot, hleaf⟩
      exact ⟨node.index, spot, (Nat.zero_add _).symm, hspot, hleaf⟩
  · have hnodup := List.Nodup.of_map _ hbench.nodup
    rw [hnodup.count]
    simp only [hbench.owner_iff]

-- Ports for one interface, and one port of another that is not complete.
def handshakePorts : Workbench :=
  unclaimedPorts ⟨.empty, .empty, .ofEntity ⟨0⟩ (.ofName ⟨0⟩)⟩ "_"
    [("t_valid", .output), ("s_valid", .output), ("s_ready", .input)]

def handshake : InterfaceClass :=
  .mk "handshake" [] [.leaf "valid" .output 1, .leaf "ready" .input 1]

def extracted : Workbench := (handshakePorts.extract handshake).2

def freed : Workbench := (extracted.perform? (.unExtract ⟨1⟩)).get (by decide +kernel)

def rematched : Workbench :=
  (freed.perform? (.matchByName ⟨1⟩ "t_valid")).get (by decide +kernel)

-- A leaf gives up its port for the one that a failed attempt gave back.
theorem owner?_rematched :
    Run MatchesUnbound handshakePorts rematched ∧
    rematched.claims.owners = [some ⟨1⟩, none, some ⟨2⟩] ∧
    (rematched.claims.owner? ⟨0⟩ = some ⟨1⟩ ↔
      ∃ spot, rematched.synth.node? ⟨1⟩ = some spot ∧ spot.inner = .nil ∧
        spot.item.port = some ⟨0⟩) ∧
    rematched.claims.log.count (⟨0⟩, ⟨1⟩) =
      if rematched.claims.owner? ⟨0⟩ = some ⟨1⟩ then 1 else 0 := by
  have hextracted : Run MatchesUnbound handshakePorts extracted :=
    .step .start (show MatchesUnbound _ (.extractAll handshake) from trivial) rfl
  have hfreed : Run MatchesUnbound handshakePorts freed :=
    .step hextracted (show MatchesUnbound _ (.unExtract ⟨1⟩) from trivial)
      (Option.some_get _).symm
  have hunbound : freed.MatchesUnbound (.matchByName ⟨1⟩ "t_valid") :=
    show freed.Unbound ⟨1⟩ by decide +kernel
  have hrun : Run MatchesUnbound handshakePorts rematched :=
    .step hfreed hunbound (Option.some_get _).symm
  exact ⟨hrun, by decide +kernel, owner?_eq_some_iff_leaf_and_count_log hrun ⟨0⟩ ⟨1⟩⟩

end Workbench

end Rtl
