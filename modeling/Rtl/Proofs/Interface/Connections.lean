import Rtl.Proofs.Interface.DataFlow

namespace Rtl

namespace Forest

variable {α β : Type}

-- The entries in the order of their numbers.
def items : Forest α → List α
  | nil => []
  | cons _ item inner rest => item :: (inner.items ++ rest.items)

theorem length_items (forest : Forest α) : forest.items.length = forest.size := by
  induction forest with
  | nil => rfl
  | cons name item inner rest ihi ihr =>
      simp only [items, size, List.length_cons, List.length_append, ihi, ihr]
      omega

theorem items_append (front back : Forest α) :
    (front.append back).items = front.items ++ back.items := by
  induction front with
  | nil => rfl
  | cons name item inner rest _ ih =>
      simp only [append, items, ih, List.cons_append, List.append_assoc]

theorem items_map (f : α → β) (forest : Forest α) : (forest.map f).items = forest.items.map f := by
  induction forest with
  | nil => rfl
  | cons name item inner rest ihi ihr =>
      simp only [map, items, ihi, ihr, List.map_cons, List.map_append]

theorem getElem?_items (forest : Forest α) (index : Nat) :
    forest.items[index]? = (forest.spot? index).map (·.item) := by
  induction forest generalizing index with
  | nil => rfl
  | cons name item inner rest ihi ihr =>
      cases index with
      | zero => rfl
      | succ index =>
          rw [items, List.getElem?_cons_succ, List.getElem?_append, length_items]
          by_cases hinner : index < inner.size
          · rw [if_pos hinner, ihi, spot?_inner hinner, Option.map_map]
            rfl
          · have hindex : index - inner.size + 1 + inner.size = index + 1 := by omega
            rw [if_neg hinner, ihr, ← spot?_rest, hindex]

-- A change at one entry is one in the middle of the list, at the entry and those inside it.
theorem exists_items_update {forest : Forest α} {index : Nat} {spot : Spot α}
    (h : forest.spot? index = some spot) :
    ∃ front back, front.length = index ∧
      forest.items = front ++ (spot.item :: spot.inner.items) ++ back ∧
      ∀ change : α → Forest α → α × Forest α, (forest.update change index).items =
        front ++ ((change spot.item spot.inner).1 :: (change spot.item spot.inner).2.items) ++
          back := by
  induction h using spot?_induction with
  | here name item inner rest => exact ⟨[], rest.items, rfl, rfl, fun change => rfl⟩
  | within name item inner rest index spot hspot ih =>
      obtain ⟨front, back, hlength, hitems, hupdate⟩ := ih
      refine ⟨item :: front, back ++ rest.items, congrArg (· + 1) hlength, ?_, fun change => ?_⟩
      · simp only [items, hitems, List.cons_append, List.append_assoc]
      · simp only [update_within hspot, items, hupdate, List.cons_append, List.append_assoc]
  | later name item inner rest index spot hspot ih =>
      obtain ⟨front, back, hlength, hitems, hupdate⟩ := ih
      refine ⟨item :: (inner.items ++ front), back, ?_, ?_, fun change => ?_⟩
      · rw [List.length_cons, List.length_append, length_items]
        omega
      · simp only [items, hitems, List.cons_append, List.append_assoc]
      · simp only [update_rest, items, hupdate, List.cons_append, List.append_assoc]

end Forest

-- An end of a connection as the node at the other end has it on record.
inductive End where
  | source (id : NodeId)
  | destination (id : NodeId)
deriving DecidableEq, Repr

def End.node : End → NodeId
  | .source id => id
  | .destination id => id

-- What drives a node and what it drives.
def NodeState.ends (state : NodeState) : List End :=
  state.source.toList.map .source ++ state.destinations.map .destination

theorem NodeState.destination_mem_ends_iff {state : NodeState} {id : NodeId} :
    .destination id ∈ state.ends ↔ id ∈ state.destinations := by
  simp [ends]

theorem NodeState.ends_enter (state : NodeState) (id : NodeId) :
    NodeState.ends { state with destinations := state.destinations ++ [id] } =
      state.ends ++ [.destination id] := by
  simp only [ends, List.map_append, List.map_singleton, List.append_assoc]

namespace Synthesizer

open Forest

variable {synth next : Synthesizer} {id top : NodeId} {spot : Spot NodeState}

def ends (synth : Synthesizer) (id : NodeId) : List End :=
  match synth.node? id with
  | some spot => spot.item.ends
  | none => []

-- Whether a node is another one or below it.
def Covers (synth : Synthesizer) (top id : NodeId) : Prop :=
  ∃ spot, synth.node? top = some spot ∧ top.index ≤ id.index ∧
    id.index ≤ top.index + spot.inner.size

instance (synth : Synthesizer) (top id : NodeId) : Decidable (synth.Covers top id) :=
  decidable_of_iff ((synth.node? top).any fun spot =>
      top.index ≤ id.index ∧ id.index ≤ top.index + spot.inner.size)
    (by simp only [Covers, Option.any_eq_true, decide_eq_true_eq])

theorem ends_eq (synth : Synthesizer) (id : NodeId) :
    synth.ends id = (synth.nodes.items[id.index]?.map NodeState.ends).getD [] := by
  rw [getElem?_items, ends, node?]
  cases synth.nodes.spot? id.index with
  | none | some => rfl

theorem covers_iff (h : synth.node? top = some spot) :
    synth.Covers top id ↔ top.index ≤ id.index ∧ id.index ≤ top.index + spot.inner.size := by
  rw [Covers, h]
  exact ⟨fun ⟨_, heq, hrange⟩ => Option.some.inj heq ▸ hrange, fun hrange => ⟨spot, rfl, hrange⟩⟩

-- A new instance has the ends that it is given.
theorem ends_instantiate (synth : Synthesizer) (template : Template) (external : Bool)
    (source : Option NodeId) (destinations : List NodeId) (id : NodeId) :
    (synth.instantiate template external source destinations).2.ends id = synth.ends id ++
      if id.index = synth.nodes.size then
        source.toList.map .source ++ destinations.map .destination
      else [] := by
  have hmembers (index : Nat) :
      ((template.members.map NodeState.ofShape).items[index]?.map NodeState.ends).getD [] = [] := by
    rw [items_map, List.getElem?_map, Option.map_map]
    cases template.members.items[index]? with
    | none | some => rfl
  have hnone (h : synth.nodes.size ≤ id.index) : synth.nodes.items[id.index]? = none :=
    List.getElem?_eq_none (by rwa [length_items])
  simp only [ends_eq, instantiate, Template.instantiate, add, items_append, items, List.append_nil]
  rcases Nat.lt_trichotomy id.index synth.nodes.size with hlt | heq | hgt
  · rw [List.getElem?_append_left (by rwa [length_items]), if_neg (Nat.ne_of_lt hlt),
      List.append_nil]
  · rw [hnone (Nat.le_of_eq heq.symm), if_pos heq,
      List.getElem?_append_right (by rw [length_items, heq]), length_items, heq, Nat.sub_self]
    rfl
  · rw [hnone (Nat.le_of_lt hgt), if_neg (Nat.ne_of_gt hgt),
      List.getElem?_append_right (by rw [length_items]; exact Nat.le_of_lt hgt), length_items]
    obtain ⟨index, hindex⟩ := Nat.exists_eq_add_of_lt (Nat.sub_pos_of_lt hgt)
    rw [hindex, Nat.zero_add, List.getElem?_cons_succ, hmembers]
    rfl

-- A change of a node's own state is seen there and nowhere else.
theorem ends_updateState (h : synth.node? top = some spot) (change : NodeState → NodeState)
    (id : NodeId) :
    (synth.updateState top change).ends id =
      if id = top then (change spot.item).ends else synth.ends id := by
  obtain ⟨front, back, hlength, hitems, hupdate⟩ := exists_items_update h
  simp only [ends_eq, updateState, update, hupdate, hitems, List.append_assoc, List.cons_append]
  split
  · rename_i heq
    rw [heq, ← hlength, List.getElem?_append_right (Nat.le_refl _), Nat.sub_self]
    rfl
  · rename_i hne
    have hother : id.index ≠ front.length := by
      intro heq
      exact hne (Id.index_injective (heq.trans hlength))
    rcases Nat.lt_or_gt_of_ne hother with hlt | hgt
    · rw [List.getElem?_append_left hlt, List.getElem?_append_left hlt]
    · obtain ⟨index, hindex⟩ := Nat.exists_eq_add_of_lt (Nat.sub_pos_of_lt hgt)
      rw [List.getElem?_append_right (Nat.le_of_lt hgt),
        List.getElem?_append_right (Nat.le_of_lt hgt), hindex]
      rfl

theorem ends_propagateSource {driven : NodeId} (h : synth.propagateSource driven = .ok next)
    (hspot : synth.node? driven = some spot) (id : NodeId) :
    next.ends id =
      synth.ends id ++ if spot.item.source = some id then [.destination driven] else [] := by
  obtain ⟨found, hfound, hcases⟩ := propagateSource_eq_ok h
  obtain rfl := Option.some.inj (hfound.symm.trans hspot)
  rcases hcases with ⟨hsource, rfl⟩ | ⟨source, other, hsource, hother, rfl⟩
  · rw [hsource, if_neg nofun, List.append_nil]
  · rw [ends_updateState hother, hsource]
    by_cases heq : id = source
    · rw [if_pos heq, if_pos (congrArg some heq.symm), heq, ends, hother]
      exact NodeState.ends_enter other.item driven
    · rw [if_neg heq, if_neg fun hsome => heq (Option.some.inj hsome).symm, List.append_nil]

theorem ends_detachState (connections : Bool) (state : NodeState) :
    (detachState connections state).ends = if connections then [] else state.ends := by
  cases connections with
  | false | true => rfl

-- What is detached from connections has no ends. What is above it or beside it keeps its own.
theorem ends_detachSignals (h : synth.node? top = some spot) (connections : Bool) (id : NodeId) :
    (synth.detachSignals top connections).ends id =
      if connections ∧ synth.Covers top id then [] else synth.ends id := by
  obtain ⟨front, back, hlength, hitems, hupdate⟩ := exists_items_update h
  simp only [ends_eq, detachSignals, update, hupdate, hitems, items_map, ← List.map_cons]
  generalize hwithin : spot.item :: spot.inner.items = within
  have hsize : within.length = spot.inner.size + 1 := by
    rw [← hwithin, List.length_cons, length_items]
  have hcovers : synth.Covers top id ↔
      front.length ≤ id.index ∧ id.index < front.length + within.length := by
    rw [covers_iff h, hlength, hsize]
    omega
  simp only [List.append_assoc]
  by_cases hbefore : id.index < front.length
  · rw [List.getElem?_append_left hbefore, List.getElem?_append_left hbefore,
      if_neg fun hin => absurd (hcovers.mp hin.2).1 (Nat.not_le_of_lt hbefore)]
  · rw [Nat.not_lt] at hbefore
    rw [List.getElem?_append_right hbefore, List.getElem?_append_right hbefore]
    by_cases hin : id.index - front.length < within.length
    · rw [List.getElem?_append_left (by rwa [List.length_map]), List.getElem?_append_left hin,
        List.getElem?_map, List.getElem?_eq_getElem hin]
      have hinside : synth.Covers top id := hcovers.mpr ⟨hbefore, by omega⟩
      simp only [Option.map_some, Option.getD_some, ends_detachState, hinside, and_true]
    · rw [List.getElem?_append_right (by rw [List.length_map]; omega),
        List.getElem?_append_right (by omega), List.length_map, if_neg]
      rw [hcovers]
      omega

end Synthesizer

-- Whether an operation makes, enters or forgets connections, and no more.
def Operation.Connects : Operation → Prop
  | .instantiate .. | .propagateSource _ | .detach .. => True
  | _ => False

namespace Workbench

open Synthesizer

variable {bench next last : Workbench} {id top : NodeId}

-- The ends that an operation enters at a node.
def enters (bench : Workbench) (id : NodeId) : Operation → List End
  | .instantiate _ _ source destinations =>
      if id.index = bench.synth.nodes.size then
        source.toList.map .source ++ destinations.map .destination
      else []
  | .propagateSource driven =>
      match bench.synth.node? driven with
      | some spot => if spot.item.source = some id then [.destination driven] else []
      | none => []
  | _ => []

-- Whether an operation forgets the ends at a node.
def forgets (bench : Workbench) (id : NodeId) : Operation → Bool
  | .detach top connections => connections && bench.synth.Covers top id
  | _ => false

theorem ends_of_perform? {operation : Operation} (hoperation : operation.Connects)
    (hnext : bench.perform? operation = some next) (id : NodeId) :
    next.synth.ends id =
      (if bench.forgets id operation then [] else bench.synth.ends id) ++
        bench.enters id operation := by
  cases operation with
  | instantiate template external source destinations =>
      obtain rfl := Option.some.inj hnext
      exact ends_instantiate ..
  | propagateSource driven =>
      obtain ⟨synth, hsynth, rfl⟩ := propagateSource_of_perform? hnext
      obtain ⟨spot, hspot, -⟩ := propagateSource_eq_ok hsynth
      simp only [enters, hspot]
      exact ends_propagateSource hsynth hspot id
  | detach top connections =>
      obtain ⟨⟨spot, hspot⟩, rfl⟩ := exists_node?_of_guard hnext
      simp only [enters, forgets, List.append_nil, ends_detachSignals hspot, Bool.and_eq_true,
        decide_eq_true_eq]
  | _ => exact hoperation.elim

-- Whether one of the operations forgets the ends at a node.
def forgetsLater (bench : Workbench) (id : NodeId) : List Operation → Bool
  | [] => false
  | operation :: rest => bench.forgets id operation ||
      match bench.perform? operation with
      | some next => next.forgetsLater id rest
      | none => false

-- The ends that operations enter at a node and that none after them forgets.
def endsLeft (bench : Workbench) (id : NodeId) : List Operation → List End
  | [] => []
  | operation :: rest =>
      match bench.perform? operation with
      | some next =>
          (if next.forgetsLater id rest then [] else bench.enters id operation) ++
            next.endsLeft id rest
      | none => []

-- What a node has on record is what was entered there and not forgotten since.
theorem ends_of_performAll? {operations : List Operation}
    (hoperations : ∀ operation ∈ operations, operation.Connects)
    (hlast : bench.performAll? operations = some last) (id : NodeId) :
    last.synth.ends id =
      (if bench.forgetsLater id operations then [] else bench.synth.ends id) ++
        bench.endsLeft id operations := by
  induction operations generalizing bench with
  | nil =>
      obtain rfl := Option.some.inj hlast
      exact (List.append_nil _).symm
  | cons operation rest ih =>
      obtain ⟨next, hnext, hrest⟩ := Option.bind_eq_some_iff.mp hlast
      obtain ⟨hfirst, hothers⟩ := List.forall_mem_cons.mp hoperations
      rw [ih hothers hrest, ends_of_perform? hfirst hnext]
      simp only [forgetsLater, endsLeft, hnext]
      cases bench.forgets id operation with
      | true | false =>
          cases next.forgetsLater id rest with
          | true | false => simp

end Workbench

namespace Wiring

theorem andThen_assoc (first second third : Wiring) :
    (first.andThen second).andThen third = first.andThen (second.andThen third) := by
  obtain ⟨links, error⟩ := first
  cases error with
  | some cause => rfl
  | none =>
      obtain ⟨more, cause⟩ := second
      cases cause with
      | some cause => rfl
      | none => simp only [andThen, List.append_assoc]

end Wiring

namespace Endpoint

-- The pairs of a node and one that it drives, in the order in which the nodes below another
-- are connected.
def edgesBelow (above : Endpoint) : Forest NodeState → List (Endpoint × NodeId)
  | .nil => []
  | .cons name state inner rest =>
      let member := above.member name state inner
      member.edgesBelow inner ++ state.destinations.map (member, ·) ++ above.edgesBelow rest

def edges (endpoint : Endpoint) : List (Endpoint × NodeId) :=
  endpoint.edgesBelow endpoint.members ++ endpoint.state.destinations.map (endpoint, ·)

theorem mem_edgesBelow_iff {above : Endpoint} {forest : Forest NodeState} {driven : NodeId} :
    driven ∈ (above.edgesBelow forest).map (·.2) ↔
      ∃ state ∈ forest.items, driven ∈ state.destinations := by
  induction forest generalizing above with
  | nil => simp [edgesBelow, Forest.items]
  | cons name state inner rest ihi ihr =>
      simp only [edgesBelow, Forest.items, List.map_append, List.mem_append, ihi, ihr,
        List.map_map, Function.comp_def, List.map_id', List.mem_cons, or_and_right, exists_or,
        exists_eq_left]
      rw [or_assoc, or_left_comm]

theorem mem_edges_ofSpot_iff {spot : Forest.Spot NodeState} {driven : NodeId} :
    driven ∈ (ofSpot spot).edges.map (·.2) ↔
      ∃ state ∈ spot.item :: spot.inner.items, driven ∈ state.destinations := by
  simp only [edges, ofSpot, List.map_append, List.mem_append,
    mem_edgesBelow_iff, List.map_map, Function.comp_def, List.map_id', List.mem_cons,
    or_and_right, exists_or, exists_eq_left]
  rw [or_comm]

end Endpoint

namespace Synthesizer

open Forest

variable {synth : Synthesizer} {root : NodeId} {endpoint : Endpoint}

-- Connects the pairs one after the other.
def wireAll (synth : Synthesizer) (edges : List (Endpoint × NodeId)) : Wiring :=
  edges.foldr (fun edge later => (synth.wiringTo edge.1 edge.2).andThen later) .none

theorem wireAll_append (front back : List (Endpoint × NodeId)) :
    synth.wireAll (front ++ back) = (synth.wireAll front).andThen (synth.wireAll back) := by
  induction front with
  | nil => rfl
  | cons edge rest ih =>
      simp only [wireAll, List.cons_append, List.foldr_cons, Wiring.andThen_assoc] at ih ⊢
      rw [ih]

theorem wiringToAll_eq (source : Endpoint) (destinations : List NodeId) :
    synth.wiringToAll source destinations = synth.wireAll (destinations.map (source, ·)) := by
  induction destinations with
  | nil => rfl
  | cons driven rest ih =>
      rw [wiringToAll, ih]
      rfl

theorem wiringBelow_eq (above : Endpoint) (forest : Forest NodeState) :
    synth.wiringBelow above forest = synth.wireAll (above.edgesBelow forest) := by
  induction forest generalizing above with
  | nil => rfl
  | cons name state inner rest ihi ihr =>
      simp only [wiringBelow, Endpoint.edgesBelow, wireAll_append, ihi, ihr, wiringToAll_eq]

theorem propagation_eq (h : synth.endpoint? root = some endpoint) :
    synth.propagation root = synth.wireAll endpoint.edges := by
  rw [propagation, h, Endpoint.edges, wireAll_append, ← wiringBelow_eq, ← wiringToAll_eq]

-- The nodes from one on are the node itself and those below it.
theorem ends_add {spot : Spot NodeState} (h : synth.node? root = some spot) {index : Nat}
    (hindex : index ≤ spot.inner.size) :
    synth.ends ⟨root.index + index⟩ =
      (((spot.item :: spot.inner.items)[index]?).map NodeState.ends).getD [] := by
  obtain ⟨front, back, hlength, hitems, -⟩ := exists_items_update h
  have hwithin : index < (spot.item :: spot.inner.items).length := by
    rw [List.length_cons, length_items]
    exact Nat.lt_succ_of_le hindex
  rw [ends_eq, hitems, ← hlength, List.append_assoc,
    List.getElem?_append_right (Nat.le_add_right ..), Nat.add_sub_cancel_left,
    List.getElem?_append_left hwithin]

-- A propagation connects what the root and the nodes below it have on record as driven.
theorem mem_edges_iff (h : synth.endpoint? root = some endpoint) {driven : NodeId} :
    driven ∈ endpoint.edges.map (·.2) ↔
      ∃ id, synth.Covers root id ∧ .destination driven ∈ synth.ends id := by
  obtain ⟨spot, hspot, rfl⟩ := Option.map_eq_some_iff.mp h
  rw [Endpoint.mem_edges_ofSpot_iff]
  constructor
  · rintro ⟨state, hmem, hdriven⟩
    obtain ⟨index, hstate⟩ := List.mem_iff_getElem?.mp hmem
    have hindex : index ≤ spot.inner.size := by
      have hlt := (List.getElem?_eq_some_iff.mp hstate).1
      rw [List.length_cons, length_items] at hlt
      exact Nat.le_of_lt_succ hlt
    refine ⟨⟨root.index + index⟩, (covers_iff hspot).mpr ⟨?_, ?_⟩, ?_⟩
    · exact Nat.le_add_right ..
    · exact Nat.add_le_add_left hindex _
    · rw [ends_add hspot hindex, hstate]
      exact NodeState.destination_mem_ends_iff.mpr hdriven
  · rintro ⟨id, hcovers, hdriven⟩
    obtain ⟨hle, hge⟩ := (covers_iff hspot).mp hcovers
    obtain ⟨index, hindex⟩ := Nat.exists_eq_add_of_le hle
    obtain rfl : id = ⟨root.index + index⟩ := Id.index_injective hindex
    rw [ends_add hspot (Nat.le_of_add_le_add_left hge)] at hdriven
    cases hstate : (spot.item :: spot.inner.items)[index]? with
    | none =>
        rw [hstate] at hdriven
        cases hdriven
    | some state =>
        rw [hstate] at hdriven
        exact ⟨state, List.mem_of_getElem? hstate, NodeState.destination_mem_ends_iff.mp hdriven⟩

end Synthesizer

namespace Workbench

open Synthesizer

variable {bench last : Workbench} {top : NodeId}

-- No node outside has a detached node on record exactly if whatever operations entered there
-- about one was forgotten again before. A propagation is asked to connect to no detached node
-- under the same condition on the nodes from its root on.
theorem detached_unlisted_iff {design : Design} {separator : String}
    {ports : List (String × Direction)} {operations : List Operation}
    (hoperations : ∀ operation ∈ operations, operation.Connects)
    (h : (unclaimedPorts design separator ports).performAll? operations = some bench)
    (hlast : bench.perform? (.detach top true) = some last) :
    (∀ id, last.synth.ends id =
      if bench.synth.Covers top id then []
      else (unclaimedPorts design separator ports).endsLeft id operations) ∧
    ((∀ id, ¬ bench.synth.Covers top id →
        ∀ other ∈ last.synth.ends id, ¬ bench.synth.Covers top other.node) ↔
      ∀ id, ¬ bench.synth.Covers top id →
        ∀ other ∈ (unclaimedPorts design separator ports).endsLeft id operations,
          ¬ bench.synth.Covers top other.node) ∧
    ∀ root endpoint, last.synth.endpoint? root = some endpoint →
      last.synth.propagation root = last.synth.wireAll endpoint.edges ∧
      ((∀ edge ∈ endpoint.edges, ¬ bench.synth.Covers top edge.2) ↔
        ∀ id, last.synth.Covers root id → ¬ bench.synth.Covers top id →
          ∀ driven, .destination driven ∈
              (unclaimedPorts design separator ports).endsLeft id operations →
            ¬ bench.synth.Covers top driven) := by
  obtain ⟨⟨spot, hspot⟩, rfl⟩ := exists_node?_of_guard hlast
  have hends (id : NodeId) : (bench.synth.detachSignals top true).ends id =
      if bench.synth.Covers top id then []
      else (unclaimedPorts design separator ports).endsLeft id operations := by
    rw [ends_detachSignals hspot, ends_of_performAll? hoperations h]
    have hstart : (unclaimedPorts design separator ports).synth.ends id = [] := rfl
    simp [hstart]
  have houtside {id : NodeId} (hid : ¬ bench.synth.Covers top id) :
      (bench.synth.detachSignals top true).ends id =
        (unclaimedPorts design separator ports).endsLeft id operations := by
    rw [hends, if_neg hid]
  refine ⟨hends, ?_, fun root endpoint hroot => ⟨propagation_eq hroot, ?_⟩⟩
  · exact forall₂_congr fun id hid => by rw [houtside hid]
  · constructor
    · intro hfree id hid hout driven hdriven
      have hmem := (mem_edges_iff hroot).mpr ⟨id, hid, (houtside hout).symm ▸ hdriven⟩
      obtain ⟨edge, hedge, rfl⟩ := List.mem_map.mp hmem
      exact hfree edge hedge
    · intro hfree edge hedge
      obtain ⟨id, hid, hdriven⟩ := (mem_edges_iff hroot).mp (List.mem_map_of_mem hedge)
      by_cases hin : bench.synth.Covers top id
      · rw [hends, if_pos hin] at hdriven
        cases hdriven
      · rw [houtside hin] at hdriven
        exact hfree id hid hin _ hdriven

def tap : Template := ⟨"tap", .cons "x" ⟨.output, 1⟩ .nil .nil⟩

-- One instance drives another.
def tapped : List Operation :=
  [.instantiate tap false none [], .instantiate tap false (some ⟨0⟩) [], .propagateSource ⟨2⟩]

def noInterfaces : Workbench := unclaimedPorts channelPorts "_" []

-- The driving instance forgets first.
def released : List Operation := tapped ++ [.detach ⟨0⟩ true]

def withReleased : Workbench := (noInterfaces.performAll? released).get (by decide +kernel)

def withoutTap : Workbench :=
  (withReleased.perform? (.detach ⟨2⟩ true)).get (by decide +kernel)

theorem detached_unlisted_released :
    (∀ operation ∈ released, operation.Connects) ∧
    noInterfaces.performAll? released = some withReleased ∧
    withReleased.perform? (.detach ⟨2⟩ true) = some withoutTap ∧
    noInterfaces.endsLeft ⟨0⟩ tapped = [.destination ⟨2⟩] ∧
    noInterfaces.endsLeft ⟨0⟩ released = [] ∧
    (∀ id, withoutTap.synth.ends id =
      if withReleased.synth.Covers ⟨2⟩ id then [] else noInterfaces.endsLeft id released) ∧
    ∀ root endpoint, withoutTap.synth.endpoint? root = some endpoint →
      withoutTap.synth.propagation root = withoutTap.synth.wireAll endpoint.edges := by
  have hoperations : ∀ operation ∈ released, operation.Connects := by
    simp [released, tapped, Operation.Connects]
  have hrun : noInterfaces.performAll? released = some withReleased := (Option.some_get _).symm
  have hlast : withReleased.perform? (.detach ⟨2⟩ true) = some withoutTap :=
    (Option.some_get _).symm
  obtain ⟨hends, -, hroots⟩ := detached_unlisted_iff hoperations hrun hlast
  exact ⟨hoperations, hrun, hlast, by decide +kernel, by decide +kernel, hends,
    fun root endpoint hroot => (hroots root endpoint hroot).1⟩

-- The driven instance is detached, and the driving one still has it on record.
theorem ends_of_tapped_detached :
    (∀ operation ∈ tapped, operation.Connects) ∧
    ∃ bench last, noInterfaces.performAll? tapped = some bench ∧
      bench.perform? (.detach ⟨2⟩ true) = some last ∧
      ¬ bench.synth.Covers ⟨2⟩ ⟨0⟩ ∧ .destination ⟨2⟩ ∈ last.synth.ends ⟨0⟩ ∧
      (last.synth.propagation ⟨0⟩).error = some (.misconfigured (.noSignal "x")) := by
  refine ⟨by simp [tapped, Operation.Connects], ?_⟩
  exact ⟨_, _, rfl, rfl, by decide +kernel⟩

end Workbench

end Rtl
