import Rtl.Proofs.Interface.Steps
import Rtl.Proofs.Interface.Stores.Operations

namespace Rtl

open Forest

namespace Forest

variable {α : Type} {forest part inner beside : Forest α} {path : List String} {first index : Nat}
  {name : String} {item : α} {top : Spot α}

-- Entries that stand, from some number on, inside others of the given path.
def HasAt (forest : Forest α) (path : List String) (first : Nat) (part : Forest α) : Prop :=
  ∀ index spot, part.spot? index = some spot →
    forest.spot? (first + index) = some { spot with above := path ++ spot.above }

namespace HasAt

theorem of_spot? (h : forest.spot? index = some top) :
    forest.HasAt top.path (index + 1) top.inner := by
  intro other spot hspot
  rw [Nat.add_assoc, Nat.add_comm 1, spot?_below h (lt_size_of_spot? hspot), hspot,
    Option.map_some]

theorem self (h : forest.HasAt path first (cons name item inner beside)) :
    forest.spot? first = some ⟨path, name, item, inner⟩ :=
  (h 0 _ rfl).trans (congrArg (fun above => some (Spot.mk above name item inner)) path.append_nil)

theorem rest (h : forest.HasAt path first (cons name item inner beside)) :
    forest.HasAt path (first + 1 + inner.size) beside := by
  intro index spot hspot
  have hindex : first + 1 + inner.size + index = first + (index + 1 + inner.size) := by omega
  rw [hindex]
  exact h _ spot (spot?_later hspot)

-- The first entry of a name is the same by number and by content.
theorem lookup_entries (h : forest.HasAt path first part) (wanted : String) :
    part.find? wanted = none ∧ (part.entries first).lookup wanted = none ∨
      ∃ item inner number, part.find? wanted = some (item, inner) ∧
        (part.entries first).lookup wanted = some number ∧
        forest.spot? number = some ⟨path, wanted, item, inner⟩ := by
  induction part generalizing first with
  | nil => exact .inl ⟨rfl, rfl⟩
  | cons name item inner rest _ ih =>
      rw [find?, entries, List.lookup_cons]
      by_cases hname : name = wanted
      · subst hname
        rw [if_pos rfl, beq_self_eq_true]
        exact .inr ⟨item, inner, first, rfl, rfl, h.self⟩
      · rw [if_neg hname, beq_false_of_ne (Ne.symm hname)]
        exact ih h.rest

end HasAt

end Forest

namespace Endpoint

-- Of a member its node knows the name, the state and what is inside.
theorem ofSpot_member (top : Spot NodeState) (name : String) (state : NodeState)
    (inner : Forest NodeState) :
    ofSpot ⟨top.path, name, state, inner⟩ = (ofSpot top).member name state inner := by
  have hpath : (top.path ++ [name]).drop 1 = top.path.drop 1 ++ [name] :=
    List.drop_append_of_le_length (by simp [Spot.path])
  rw [ofSpot, hpath]
  rfl

end Endpoint

namespace Nodes

theorem climb_of_climbs {rows : List (Row NodeState)} {number root steps : Nat}
    {path : List String} (h : Climbs rows number path root)
    (hup : ∀ (number : Nat) (row : Row NodeState) (above : Nat), rows[number]? = some row →
      row.parent = some above → above < number) (hsteps : number < steps) :
    climb (ofRows rows) steps ⟨number⟩ = some path := by
  obtain ⟨steps, rfl⟩ : ∃ before, steps = before + 1 := ⟨steps - 1, by omega⟩
  induction h generalizing steps with
  | root hrow hparent =>
      simp only [climb, get?_ofRows, hrow, Option.bind_eq_bind, Option.bind_some, hparent]
      rfl
  | @step number above root row path hrow hparent h ih =>
      have hlt := hup number row above hrow hparent
      obtain ⟨steps, rfl⟩ : ∃ before, steps = before + 1 := ⟨steps - 1, by omega⟩
      rw [climb]
      simp only [get?_ofRows, hrow, Option.bind_eq_bind, Option.bind_some, hparent,
        ih steps (by omega)]
      rfl

variable {α : Type} {wire : α → Option Wiring}

theorem wireEach_cons {item : α} {rest : List α} {first later : Wiring}
    (hfirst : wire item = some first) (hlater : wireEach wire rest = some later) :
    wireEach wire (item :: rest) = some (first.andThen later) := by
  simp only [wireEach, hfirst, hlater, Option.bind_eq_bind, Option.bind_some, Wiring.andThen]
  cases first.error with
  | none => rfl
  | some cause => rfl

-- Connects a member, given by name and number, to the one of that name in the source.
def connectMember (levels : Nat) (nodes : Nodes) (source : NodeId) (member : String × Nat) :
    Option Wiring := do
  let driving ← nodes.get? source
  match driving.members.lookup member.1 with
  | none =>
      return .fail (.misconfigured
        (.noMember (← nodes.fullName? source) member.1 (← nodes.fullName? ⟨member.2⟩)))
  | some other =>
      let own ← nodes.get? ⟨member.2⟩
      match Wiring.flow? own.item with
      | some .forward => connect levels nodes ⟨member.2⟩ ⟨other⟩
      | some .backward => connect levels nodes ⟨other⟩ ⟨member.2⟩
      | none =>
          return .fail (.misconfigured (.undirected (← nodes.fullName? ⟨member.2⟩)
            own.item.side own.item.masterDirection))

theorem connect_succ (levels : Nat) (nodes : Nodes) (destination source : NodeId) :
    connect (levels + 1) nodes destination source = (nodes.get? destination).bind fun driven =>
      if driven.members.isEmpty then nodes.connectLeaf? destination source
      else wireEach (connectMember levels nodes source) driven.members := rfl

theorem propagate_succ (levels : Nat) (nodes : Nodes) (id : NodeId) :
    propagate (levels + 1) nodes id = (nodes.get? id).bind fun row =>
      (wireEach (fun member => propagate levels nodes ⟨member.2⟩) row.members).bind fun below =>
        match below.error with
        | some _ => some below
        | none => (wireEach (fun destination => connect (2 * nodes.size) nodes destination id)
            row.item.destinations).map below.andThen := by
  rw [propagate]
  cases nodes.get? id with
  | none => rfl
  | some row =>
      simp only [Option.bind_eq_bind, Option.bind_some, Option.map_eq_bind]
      rfl

end Nodes

namespace Synthesizer

variable {synth : Synthesizer} {id destination source : NodeId}
  {spot driven driving : Spot NodeState} {levels : Nat}

theorem climb_store (h : synth.node? id = some spot) :
    synth.store.nodes.climb synth.store.nodes.size id = some (spot.path.drop 1) := by
  obtain ⟨root, hclimbs⟩ := exists_climbs h
  have hlt : id.index < synth.store.size := synth.size_store.symm ▸ lt_size_of_spot? h
  exact Nodes.climb_of_climbs hclimbs (fun _ _ _ => parent_lt) hlt

-- The names on the way up through the parents are those on the way down to the node.
theorem fullName?_store (synth : Synthesizer) (id : NodeId) :
    synth.store.fullName? id = synth.fullName? id := by
  rw [Store.fullName?, Nodes.fullName?, fullName?, endpoint?]
  cases hspot : synth.node? id with
  | some spot =>
      rw [climb_store hspot]
      rfl
  | none =>
      have hget := get?_store_of_none hspot
      cases synth.store.nodes.size with
      | zero => rfl
      | succ steps =>
          rw [Nodes.climb, hget]
          rfl

theorem fullName?_of_node? (h : synth.node? id = some spot) :
    synth.store.nodes.fullName? id = some (Endpoint.ofSpot spot).fullName := by
  have hname := synth.fullName?_store id
  rw [fullName?, endpoint?, h] at hname
  exact hname

theorem displayName?_of_node? (h : synth.node? id = some spot) :
    synth.store.nodes.displayName? id = some (Endpoint.ofSpot spot).displayName := by
  obtain ⟨row, hrow, hname, -⟩ := get?_store_of_spot h
  simp only [Nodes.displayName?, fullName?_of_node? h, hrow, hname, Option.bind_eq_bind,
    Option.bind_some, Endpoint.displayName]
  split <;> rfl

theorem backing?_of_node? (h : synth.node? id = some spot) :
    synth.store.nodes.backing? id = some (Endpoint.ofSpot spot).backing := by
  obtain ⟨row, hrow, -, hitem, -⟩ := get?_store_of_spot h
  have hstate : (Endpoint.ofSpot spot).state = spot.item := rfl
  simp only [Nodes.backing?, hrow, hitem, displayName?_of_node? h, Option.bind_eq_bind,
    Option.bind_some, Endpoint.backing, hstate]
  cases spot.item.signal <;> rfl

theorem connectLeaf?_store (hdriven : synth.node? destination = some driven)
    (hdriving : synth.node? source = some driving) :
    synth.store.nodes.connectLeaf? destination source =
      some (.leaf (.ofSpot driven) (Endpoint.ofSpot driving).backing) := by
  obtain ⟨row, hrow, hname, hitem, -⟩ := get?_store_of_spot hdriven
  simp only [Nodes.connectLeaf?, hrow, Option.bind_eq_bind, Option.bind_some, hitem, hname,
    backing?_of_node? hdriven, backing?_of_node? hdriving, Wiring.leaf]
  have hstate : (Endpoint.ofSpot driven).state = driven.item := rfl
  have hown : (Endpoint.ofSpot driven).name = driven.name := rfl
  rw [hstate, hown]
  split
  · rfl
  · cases (Endpoint.ofSpot driven).backing with
    | error cause => rfl
    | ok signal =>
        cases (Endpoint.ofSpot driving).backing with
        | error cause => rfl
        | ok other => rfl

-- What is said about connections of nodes that have few others inside.
def Connects (synth : Synthesizer) (levels : Nat) : Prop :=
  ∀ (destination source : NodeId) (driven driving : Spot NodeState),
    synth.node? destination = some driven → synth.node? source = some driving →
      driven.inner.size + driving.inner.size < levels →
        synth.store.nodes.connect levels destination source =
          some (.nodes (.ofSpot driven) (.ofSpot driving))

-- Members are connected one after the other.
theorem wireEach_members (h : synth.Connects levels) {top : Spot NodeState}
    {part : Forest NodeState} {first : Nat} (hpart : synth.nodes.HasAt top.path first part)
    (hdriving : synth.node? source = some driving)
    (hlevels : part.size + driving.inner.size ≤ levels) :
    Nodes.wireEach (Nodes.connectMember levels synth.store.nodes source) (part.entries first) =
      some (.members (.ofSpot top) part (.ofSpot driving)) := by
  induction part generalizing first with
  | nil =>
      rw [Wiring.members]
      rfl
  | cons name state inner rest _ ih =>
      simp only [Forest.size] at hlevels
      obtain ⟨row, hrow, -, -, hmembers⟩ := get?_store_of_spot hdriving
      have hown : synth.node? ⟨first⟩ = some ⟨top.path, name, state, inner⟩ := hpart.self
      obtain ⟨own, hget, -, hitem, -⟩ := get?_store_of_spot hown
      have hfull := fullName?_of_node? hown
      rw [Endpoint.ofSpot_member] at hfull
      have hrest := ih hpart.rest (by omega)
      obtain ⟨hnone, hlookup⟩ | ⟨other, below, number, hfound, hlookup, hcounterpart⟩ :=
        (HasAt.of_spot? hdriving).lookup_entries name
      · have hmissing : Nodes.connectMember levels synth.store.nodes source (name, first) =
            some (.fail (.misconfigured (.noMember (Endpoint.ofSpot driving).fullName name
              ((Endpoint.ofSpot top).member name state inner).fullName))) := by
          simp only [Nodes.connectMember, hrow, hmembers, hlookup, hfull,
            fullName?_of_node? hdriving, Option.bind_eq_bind, Option.bind_some, Option.pure_def]
        rw [Wiring.members_of_missing hnone]
        exact Nodes.wireEach_cons hmissing hrest
      · have hsize := size_lt_of_find? hfound
        have hother : synth.node? ⟨number⟩ = some ⟨driving.path, name, other, below⟩ := hcounterpart
        have hforward := h ⟨first⟩ ⟨number⟩ _ _ hown hother (by simp only; omega)
        have hbackward := h ⟨number⟩ ⟨first⟩ _ _ hother hown (by simp only; omega)
        rw [Endpoint.ofSpot_member, Endpoint.ofSpot_member] at hforward hbackward
        rw [Wiring.members_cons hfound, entries]
        refine Nodes.wireEach_cons ?_ hrest
        simp only [Nodes.connectMember, hrow, hmembers, hlookup, hget, hitem, hfull, hforward,
          hbackward, Option.bind_eq_bind, Option.bind_some, Option.pure_def, Wiring.join,
          Endpoint.member]
        cases Wiring.flow? state with
        | none => rfl
        | some flow => cases flow <;> rfl

theorem connects (synth : Synthesizer) (levels : Nat) : synth.Connects levels := by
  induction levels with
  | zero => exact fun _ _ _ _ _ _ hlevels => absurd hlevels (Nat.not_lt_zero _)
  | succ levels ih =>
      intro destination source driven driving hdriven hdriving hlevels
      obtain ⟨row, hrow, -, -, hmembers⟩ := get?_store_of_spot hdriven
      rw [Nodes.connect_succ, hrow, Option.bind_some, hmembers, isEmpty_entries]
      have hbelow := wireEach_members ih (HasAt.of_spot? hdriven) hdriving
        (Nat.le_of_lt_succ hlevels)
      have hinner : (Endpoint.ofSpot driven).members = driven.inner := rfl
      cases hcase : driven.inner with
      | nil =>
          rw [hcase] at hinner
          rw [Wiring.nodes_of_leaf hinner, ← connectLeaf?_store hdriven hdriving]
          rfl
      | cons name state inner rest =>
          rw [hcase] at hinner hbelow
          rw [Wiring.nodes_of_members hinner, ← hbelow]
          rfl

theorem wiring?_store (hdriven : synth.node? destination = some driven)
    (hdriving : synth.node? source = some driving) :
    synth.store.wiring? destination source = some (synth.wiring destination source) := by
  have hfirst := size_inner_of_spot? hdriven
  have hsecond := size_inner_of_spot? hdriving
  have hsize : synth.store.size = synth.nodes.size := size_store synth
  simp only [Store.wiring?, wiring, wiringTo, endpoint?, hdriven, hdriving, Option.map_some]
  exact synth.connects _ destination source driven driving hdriven hdriving (by omega)

-- No node drives one that does not exist.
def Aimed (synth : Synthesizer) : Prop :=
  ∀ id spot, synth.node? id = some spot →
    ∀ destination ∈ spot.item.destinations, ∃ driven, synth.node? destination = some driven

theorem wireEach_destinations (h : synth.node? id = some spot) {destinations : List NodeId}
    (haimed : ∀ destination ∈ destinations, ∃ driven, synth.node? destination = some driven) :
    Nodes.wireEach (fun destination => synth.store.nodes.connect (2 * synth.store.size) destination
        id) destinations =
      some (synth.wiringToAll (.ofSpot spot) destinations) := by
  induction destinations with
  | nil => rfl
  | cons destination rest ih =>
      obtain ⟨⟨driven, hdriven⟩, hrest⟩ := List.forall_mem_cons.mp haimed
      refine Nodes.wireEach_cons ((wiring?_store hdriven h).trans ?_) (ih hrest)
      rw [wiring, endpoint?, h]
      rfl

-- What is said about nodes that have few others inside.
def Propagates (synth : Synthesizer) (levels : Nat) : Prop :=
  ∀ id spot, synth.node? id = some spot → spot.inner.size < levels →
    synth.store.nodes.propagate levels id =
      some ((synth.wiringBelow (.ofSpot spot) spot.inner).andThen
        (synth.wiringToAll (.ofSpot spot) spot.item.destinations))

theorem wireEach_below (h : synth.Propagates levels) {top : Spot NodeState}
    {part : Forest NodeState} {first : Nat} (hpart : synth.nodes.HasAt top.path first part)
    (hlevels : part.size ≤ levels) :
    Nodes.wireEach (fun member => synth.store.nodes.propagate levels ⟨member.2⟩)
        (part.entries first) = some (synth.wiringBelow (.ofSpot top) part) := by
  induction part generalizing first with
  | nil => rfl
  | cons name state inner rest _ ih =>
      simp only [Forest.size] at hlevels
      have hown := h ⟨first⟩ _ hpart.self (by simp only; omega)
      rw [Endpoint.ofSpot_member] at hown
      exact Nodes.wireEach_cons hown (ih hpart.rest (by omega))

theorem propagates (haimed : synth.Aimed) (levels : Nat) : synth.Propagates levels := by
  induction levels with
  | zero => exact fun _ _ _ hlevels => absurd hlevels (Nat.not_lt_zero _)
  | succ levels ih =>
      intro id spot hspot hlevels
      obtain ⟨row, hrow, -, hitem, hmembers⟩ := get?_store_of_spot hspot
      have hbelow := wireEach_below ih (HasAt.of_spot? hspot) (Nat.le_of_lt_succ hlevels)
      have hown : Nodes.wireEach (fun destination => synth.store.nodes.connect
          (2 * synth.store.nodes.size) destination id) row.item.destinations = _ :=
        wireEach_destinations hspot (hitem ▸ haimed id spot hspot)
      rw [Nodes.propagate_succ, hrow, Option.bind_some, hmembers, hbelow, Option.bind_some, hown,
        hitem]
      generalize synth.wiringBelow (.ofSpot spot) spot.inner = below
      obtain ⟨links, _ | cause⟩ := below
      · rfl
      · rfl

theorem propagation?_store (h : synth.node? id = some spot) (haimed : synth.Aimed) :
    synth.store.propagation? id = some (synth.propagation id) := by
  have hlt := size_inner_of_spot? h
  have hsize : synth.store.size = synth.nodes.size := size_store synth
  rw [Store.propagation?, propagation, endpoint?, h]
  exact propagates haimed _ id spot h (by omega)

end Synthesizer

end Rtl
