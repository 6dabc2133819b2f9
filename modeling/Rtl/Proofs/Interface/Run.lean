import Mathlib
import Rtl.Workbench

namespace Rtl

-- What can be asked of the interfaces of a unit.
inductive Operation where
  | instantiate (template : Template) (external : Bool) (source : Option NodeId)
      (destinations : List NodeId)
  | propagateSource (id : NodeId)
  | matchByName (id : NodeId) (stem : String)
  | extractAll (cls : InterfaceClass)
  | unExtract (id : NodeId)
  | reverse (id : NodeId)
  | materialize (id : NodeId) (stem : String)
  | detach (id : NodeId) (connections : Bool)
  | connect (destination source : NodeId)
  | propagate (root : NodeId)

-- A node without a source is left as it is, any other is entered at its source.
theorem Synthesizer.propagateSource_eq_ok {synth next : Synthesizer} {id : NodeId}
    (h : synth.propagateSource id = .ok next) :
    ∃ spot, synth.node? id = some spot ∧
      (spot.item.source = none ∧ next = synth ∨
        ∃ source other, spot.item.source = some source ∧ synth.node? source = some other ∧
          next = synth.updateState source fun state =>
            { state with destinations := state.destinations ++ [id] }) := by
  simp only [propagateSource] at h
  split at h
  · cases h
  · rename_i spot hspot
    refine ⟨spot, hspot, ?_⟩
    split at h
    · rename_i hnone
      exact .inl ⟨hnone, (Except.ok.inj h).symm⟩
    · rename_i source hsource
      split at h
      · cases h
      · rename_i other hother
        exact .inr ⟨source, other, hsource, hother, (Except.ok.inj h).symm⟩

namespace Workbench

-- The unit behind a wiring, with the assignments made before an error; `none`
-- if the wiring came to a node or a signal that does not exist.
def wired? (bench : Workbench) (wiring : Wiring) : Option Workbench :=
  match bench.wire? wiring with
  | some (_, some (.unknownNode _)) => none
  | some (next, _) => some next
  | none => none

-- The unit behind an operation, whether it succeeded or reported an error;
-- `none` if the operation came to a node or a signal that does not exist.
def perform? (bench : Workbench) : Operation → Option Workbench
  | .instantiate template external source destinations =>
      let (_, synth) := bench.synth.instantiate template external source destinations
      some { bench with synth }
  | .propagateSource id =>
      match bench.synth.propagateSource id with
      | .ok synth => some { bench with synth }
      | .error _ => none
  | .matchByName id stem =>
      if (bench.synth.node? id).isSome then
        let (_, synth, claims) := bench.synth.matchByName id stem bench.claims
        some { bench with synth, claims }
      else none
  | .extractAll cls => some (bench.extract cls).2
  | .unExtract id =>
      if (bench.synth.node? id).isSome then
        let (synth, claims) := bench.synth.unExtract id bench.claims
        some { bench with synth, claims }
      else none
  | .reverse id =>
      if (bench.synth.node? id).isSome then
        some { bench with synth := bench.synth.reverseDirection id }
      else none
  | .materialize id stem => (bench.materialize? id stem).map (·.2)
  | .detach id connections =>
      if (bench.synth.node? id).isSome then
        some { bench with synth := bench.synth.detachSignals id connections }
      else none
  | .connect destination source => bench.wired? (bench.synth.wiring destination source)
  | .propagate root => bench.wired? (bench.synth.propagation root)

-- A unit without interfaces whose ports nobody holds.
def unclaimedPorts (design : Design) (separator : String) (ports : List (String × Direction)) :
    Workbench :=
  { design, synth := .ofSeparator separator, claims := .ofPorts ports }

-- What is reached from a unit by operations of which each is allowed where it
-- is performed.
inductive Run (allowed : Workbench → Operation → Prop) (start : Workbench) : Workbench → Prop
  | start : Run allowed start start
  | step {bench next : Workbench} {operation : Operation} (h : Run allowed start bench)
      (hallowed : allowed bench operation) (hnext : bench.perform? operation = some next) :
      Run allowed start next

-- What is done to a node is done to one that exists.
theorem exists_node?_of_guard {α : Type} {synth : Synthesizer} {id : NodeId} {result next : α}
    (h : (if (synth.node? id).isSome then some result else none) = some next) :
    (∃ spot, synth.node? id = some spot) ∧ result = next := by
  rw [Option.ite_none_right_eq_some] at h
  exact ⟨Option.isSome_iff_exists.mp h.1, Option.some.inj h.2⟩

-- Wires are made in the architecture and change nothing else.
theorem exists_connectAll?_of_wired? {bench next : Workbench} {wiring : Wiring}
    (h : bench.wired? wiring = some next) :
    ∃ arch, bench.design.arch.connectAll? wiring.links = some arch ∧
      next = { bench with design := { bench.design with arch } } := by
  have hwire (error : Option InterfaceError) (hwire : bench.wire? wiring = some (next, error)) :
      ∃ arch, bench.design.arch.connectAll? wiring.links = some arch ∧
        next = { bench with design := { bench.design with arch } } := by
    simp only [wire?, Option.bind_eq_bind, Option.bind_eq_some_iff] at hwire
    obtain ⟨arch, harch, heq⟩ := hwire
    obtain ⟨rfl, -⟩ := Prod.mk.inj (Option.some.inj heq)
    exact ⟨arch, harch, rfl⟩
  simp only [wired?] at h
  split at h
  · cases h
  · rename_i hsome
    obtain rfl := Option.some.inj h
    exact hwire _ hsome
  · cases h

theorem synth_claims_of_wired? {bench next : Workbench} {wiring : Wiring}
    (h : bench.wired? wiring = some next) :
    next.synth = bench.synth ∧ next.claims = bench.claims := by
  obtain ⟨arch, -, rfl⟩ := exists_connectAll?_of_wired? h
  exact ⟨rfl, rfl⟩

theorem propagateSource_of_perform? {bench next : Workbench} {id : NodeId}
    (h : bench.perform? (.propagateSource id) = some next) :
    ∃ synth, bench.synth.propagateSource id = .ok synth ∧ next = { bench with synth } := by
  simp only [perform?] at h
  split at h
  · rename_i synth hsynth
    exact ⟨synth, hsynth, (Option.some.inj h).symm⟩
  · cases h

-- Backing signals are entered in the nodes; claims do not matter to them.
theorem materialize_of_perform? {bench next : Workbench} {id : NodeId} {stem : String}
    (h : bench.perform? (.materialize id stem) = some next) :
    ∃ signals, bench.synth.materialize id stem bench.design =
        some (signals, next.synth, next.design) ∧ next.claims = bench.claims := by
  simp only [perform?, materialize?, Option.map_eq_some_iff, Option.bind_eq_bind,
    Option.bind_eq_some_iff] at h
  obtain ⟨_, ⟨⟨signals, synth, design⟩, hmade, heq⟩, rfl⟩ := h
  obtain rfl := Option.some.inj heq
  exact ⟨signals, hmade, rfl⟩

end Workbench

end Rtl
