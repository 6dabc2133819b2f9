import Rtl.Interface.Wiring
import Rtl.Proofs.Interface.Sides

namespace Rtl

-- The signal is there and is on a port of the given direction.
def Architecture.IsOn (arch : Architecture) (signal : SignalId) (direction : Direction) : Prop :=
  arch.hasSignal signal ∧
    ∃ port, (port, signal) ∈ arch.portBindings ∧ arch.portDirection? port = some direction

-- An assignment between two leaves with one path, from the one on an input to
-- the one on an output.
structure Joined (arch : Architecture) (a b : List String × NodeState) (link : Connection) :
    Prop where
  path : a.1 = b.1
  ends : a.2.signal = some link.destination ∧ b.2.signal = some link.source ∨
    b.2.signal = some link.destination ∧ a.2.signal = some link.source
  destination : arch.IsOn link.destination .output
  source : arch.IsOn link.source .input

namespace Wiring

open Forest

variable {arch : Architecture}

-- How one member is connected to its counterpart.
def join (member counterpart : Endpoint) : Wiring :=
  match flow? member.state with
  | some .forward => nodes member counterpart
  | some .backward => nodes counterpart member
  | .none => fail (.misconfigured
      (.undirected member.fullName member.state.side member.state.masterDirection))

-- Two nodes, each with its members, are joined by the same assignments whichever
-- of the two is asked to drive the other.
def NodesJoinedBy (a b : NodeState) (inner below : Forest NodeState) (links : List Connection) :
    Prop :=
  ∀ member counterpart : Endpoint, member.state = a → member.members = inner →
    counterpart.state = b → counterpart.members = below →
      join member counterpart = ⟨links, .none⟩ ∧ join counterpart member = ⟨links, .none⟩

-- The same for all nodes of a level. What is asked of the other side is only that
-- it has these names.
def JoinedBy (a b : Forest NodeState) (links : List Connection) : Prop :=
  ∀ destination source : Endpoint,
    ((∀ name ∈ b.names, source.members.find? name = b.find? name) →
      members destination a source = ⟨links, .none⟩) ∧
    ((∀ name ∈ a.names, source.members.find? name = a.find? name) →
      members destination b source = ⟨links, .none⟩)

theorem members_cons {destination source : Endpoint} {name : String} {state other : NodeState}
    {inner below rest : Forest NodeState} (h : source.members.find? name = some (other, below)) :
    members destination (.cons name state inner rest) source =
      (join (destination.member name state inner) (source.member name other below)).andThen
        (members destination rest source) := by
  rw [members]
  split
  · rename_i hnone
    rw [hnone] at h
    cases h
  · rename_i hsome
    rw [hsome] at h
    obtain ⟨rfl, rfl⟩ := Prod.mk.inj (Option.some.inj h)
    rfl

theorem nodes_of_leaf {destination : Endpoint} (h : destination.members = .nil)
    (source : Endpoint) :
    nodes destination source = leaf destination source.backing := by
  rw [nodes]
  split
  · rfl
  · rename_i hcons
    rw [h] at hcons
    cases hcons

theorem nodes_of_members {destination : Endpoint} {name : String} {state : NodeState}
    {inner rest : Forest NodeState} (h : destination.members = .cons name state inner rest)
    (source : Endpoint) :
    nodes destination source = members destination (.cons name state inner rest) source := by
  rw [nodes]
  split
  · rename_i hnil
    rw [h] at hnil
    cases hnil
  · rename_i hcons
    rw [h] at hcons
    obtain ⟨rfl, rfl, rfl, rfl⟩ := Forest.cons.inj hcons
    rfl

theorem leaf_of_signals {destination source : Endpoint} {driven driving : SignalId}
    (hallowed : destination.state.external = false ∨ destination.state.side = .slave)
    (hdriven : destination.state.signal = some driven)
    (hdriving : source.state.signal = some driving) :
    leaf destination source.backing = ⟨[⟨driven, driving⟩], .none⟩ := by
  have hguard : (destination.state.external && destination.state.side != .slave) = false := by
    rcases hallowed with h | h <;> simp [h]
  simp only [leaf, hguard, Endpoint.backing, hdriven, hdriving, Bool.false_eq_true, if_false]

-- Two nodes with opposite sides and one master direction agree on which of them
-- drives the other.
theorem flow?_opposite {a b : NodeState} (hside : a.side = b.side.opposite)
    (hdirection : a.masterDirection = b.masterDirection) (hdirected : a.masterDirection ≠ .inout) :
    flow? a = some .forward ∧ flow? b = some .backward ∨
      flow? a = some .backward ∧ flow? b = some .forward := by
  rw [hdirection] at hdirected
  revert hdirected
  simp only [flow?, hside, hdirection]
  cases b.side <;> cases b.masterDirection <;> simp [Side.opposite]

-- Data flows toward a leaf exactly if its port is an output.
theorem isOn_of_backed {state : NodeState} (h : state.Backed arch .slave true)
    (hports : ∀ port, arch.portDirection? port ≠ some .inout)
    (hdirected : state.masterDirection ≠ .inout) :
    ∃ signal, state.signal = some signal ∧
      (flow? state = some .forward → arch.IsOn signal .output) ∧
      (flow? state = some .backward → arch.IsOn signal .input) := by
  obtain ⟨port, found, -, hfound, hside, hbacking, hmade⟩ := h
  obtain ⟨signal, hsignal⟩ := Option.isSome_iff_exists.mp (hmade rfl)
  obtain ⟨hhas, hmem⟩ := hbacking signal hsignal
  have hne : found ≠ .inout := fun he => hports port (he ▸ hfound)
  refine ⟨signal, hsignal, fun hflow => ⟨hhas, port, hmem, ?_⟩, fun hflow => ⟨hhas, port, hmem, ?_⟩⟩
  all_goals
    rw [hfound]
    revert hflow hside hne hdirected
    simp only [flow?]
    cases state.side <;> cases state.masterDirection <;> cases found <;> simp

theorem join_leaves {a b : NodeState} (ha : a.Backed arch .slave true)
    (hb : b.Backed arch .slave true) (hside : a.side = b.side.opposite) (hfixed : a.fixed = b.fixed)
    (hdirected : a.masterDirection ≠ .inout) (hinternal : a.external = false)
    (hports : ∀ port, arch.portDirection? port ≠ some .inout) :
    ∃ link, (∀ path, Joined arch (path, a) (path, b) link) ∧
      NodesJoinedBy a b .nil .nil [link] := by
  obtain ⟨hdirection, hexternal⟩ := Prod.mk.inj hfixed
  obtain ⟨x, hx, hxout, hxin⟩ := isOn_of_backed ha hports hdirected
  obtain ⟨y, hy, hyout, hyin⟩ := isOn_of_backed hb hports (hdirection ▸ hdirected)
  rcases flow?_opposite hside hdirection hdirected with ⟨hfa, hfb⟩ | ⟨hfa, hfb⟩
  · refine ⟨⟨x, y⟩, fun path => ⟨rfl, .inl ⟨hx, hy⟩, hxout hfa, hyin hfb⟩, ?_⟩
    rintro member counterpart rfl hmember rfl hcounterpart
    have hleaf := leaf_of_signals (.inl hinternal) hx hy
    simp only [join, hfa, hfb, nodes_of_leaf hmember, hleaf, and_self]
  · refine ⟨⟨y, x⟩, fun path => ⟨rfl, .inr ⟨hy, hx⟩, hyout hfb, hxin hfa⟩, ?_⟩
    rintro member counterpart rfl hmember rfl hcounterpart
    have hleaf := leaf_of_signals (.inl (hexternal ▸ hinternal)) hy hx
    simp only [join, hfa, hfb, nodes_of_leaf hcounterpart, hleaf, and_self]

-- The counterparts of members are found by name.
theorem find?_of_agrees {name : String} {state : NodeState} {inner rest whole : Forest NodeState}
    (hname : name ∉ rest.names)
    (h : ∀ wanted ∈ (Forest.cons name state inner rest).names,
      whole.find? wanted = (Forest.cons name state inner rest).find? wanted) :
    whole.find? name = some (state, inner) ∧
      ∀ wanted ∈ rest.names, whole.find? wanted = rest.find? wanted := by
  refine ⟨(h name List.mem_cons_self).trans (by simp [find?]), fun wanted hwanted => ?_⟩
  have hne : name ≠ wanted := fun he => hname (he ▸ hwanted)
  exact (h wanted (List.mem_cons_of_mem _ hwanted)).trans (find?_of_ne hne)

theorem joinedBy_nil : JoinedBy .nil .nil [] := by
  refine fun destination source => ⟨fun _ => ?_, fun _ => ?_⟩
  all_goals
    rw [members]
    rfl

theorem JoinedBy.cons {name : String} {a b : NodeState} {inner below rest others : Forest NodeState}
    {first links : List Connection} (hname : name ∉ rest.names) (hother : name ∉ others.names)
    (hfirst : NodesJoinedBy a b inner below first) (hrest : JoinedBy rest others links) :
    JoinedBy (.cons name a inner rest) (.cons name b below others) (first ++ links) := by
  intro destination source
  constructor
  · intro hfind
    obtain ⟨hfound, hfind⟩ := find?_of_agrees hother hfind
    rw [members_cons hfound, (hrest _ _).1 hfind, (hfirst _ _ rfl rfl rfl rfl).1]
    rfl
  · intro hfind
    obtain ⟨hfound, hfind⟩ := find?_of_agrees hname hfind
    rw [members_cons hfound, (hrest _ _).2 hfind, (hfirst _ _ rfl rfl rfl rfl).2]
    rfl

-- Nested members are joined as their own members are: if the nested member is
-- asked to drive, they are asked the other way around.
theorem JoinedBy.nodes {a b : NodeState} {inner below deep rest deep' others : Forest NodeState}
    {links : List Connection} {name other : String} {item held : NodeState}
    (hinner : inner = .cons name item deep rest) (hbelow : below = .cons other held deep' others)
    (hside : a.side = b.side.opposite) (hdirection : a.masterDirection = b.masterDirection)
    (hdirected : a.masterDirection ≠ .inout) (hlinks : JoinedBy inner below links) :
    NodesJoinedBy a b inner below links := by
  rintro member counterpart rfl hmember rfl hcounterpart
  have hforward := (hlinks member counterpart).1 fun name _ => by rw [hcounterpart]
  have hbackward := (hlinks counterpart member).2 fun name _ => by rw [hmember]
  rw [hinner, ← nodes_of_members (hmember.trans hinner)] at hforward
  rw [hbelow, ← nodes_of_members (hcounterpart.trans hbelow)] at hbackward
  rcases flow?_opposite hside hdirection hdirected with ⟨ha, hb⟩ | ⟨ha, hb⟩
  · simp only [join, ha, hb, hforward, and_self]
  · simp only [join, ha, hb, hbackward, and_self]

theorem names_eq_of_map {a b : Forest NodeState}
    (h : a.map NodeState.fixed = b.map NodeState.fixed) : a.names = b.names := by
  simpa only [names_map] using congrArg names h

theorem length_leaves_eq {a b : Forest NodeState}
    (h : a.map NodeState.fixed = b.map NodeState.fixed) (path : List String) :
    (a.leaves path).length = (b.leaves path).length := by
  have hleaves := congrArg (fun forest => (forest.leaves path).length) h
  simpa only [leaves_map, List.length_map] using hleaves

-- Two instances of one template on opposite sides are joined leaf by leaf,
-- whichever of them is asked to drive the other. The sides are opposite at every
-- node, so each turn of the direction is undone where the leaves are reached.
theorem exists_links {a b : Forest NodeState} {side : Side}
    (ha : a.Sided (·.Backed arch .slave true) side)
    (hb : b.Sided (·.Backed arch .slave true) side.opposite)
    (hfixed : a.map NodeState.fixed = b.map NodeState.fixed) (hdistinct : a.Distinct)
    (hnodes : a.All fun state => state.masterDirection ≠ .inout ∧ state.external = false)
    (hports : ∀ port, arch.portDirection? port ≠ some .inout) :
    ∃ links, JoinedBy a b links ∧
      ∀ path, List.Forall₂ (fun (x, y) => Joined arch x y)
        ((a.leaves path).zip (b.leaves path)) links := by
  induction ha generalizing b with
  | nil side =>
      cases b with
      | cons => cases hfixed
      | nil => exact ⟨[], joinedBy_nil, fun path => .nil⟩
  | @leaf name state side rest hside hleaf hrest ih =>
      cases b with
      | nil => cases hfixed
      | cons name' state' inner' rest' =>
          obtain ⟨rfl, hstate, hinner, hothers⟩ := Forest.cons.inj hfixed
          obtain ⟨hname, -, hdistinct⟩ := hdistinct
          obtain ⟨⟨hdirected, hinternal⟩, -, hnodes⟩ := hnodes
          have hname' : name ∉ rest'.names := names_eq_of_map hothers ▸ hname
          cases hb with
          | nested => cases hinner
          | leaf _ hside' hleaf' hrest' =>
              have hopposite : state.side = state'.side.opposite := by
                rw [hside, hside']
                cases side <;> rfl
              obtain ⟨link, hlink, hfirst⟩ :=
                join_leaves hleaf hleaf' hopposite hstate hdirected hinternal hports
              obtain ⟨links, hlinks, hjoined⟩ := ih hrest' hothers hdistinct hnodes
              exact ⟨link :: links, .cons hname hname' hfirst hlinks,
                fun path => .cons (hlink _) (hjoined path)⟩
  | @nested name state side rest first item below beside hside hinner hrest ihi ihr =>
      cases b with
      | nil => cases hfixed
      | cons name' state' inner' rest' =>
          obtain ⟨rfl, hstate, hbelow, hothers⟩ := Forest.cons.inj hfixed
          obtain ⟨hname, hdistinctInner, hdistinct⟩ := hdistinct
          obtain ⟨⟨hdirected, -⟩, hnodesInner, hnodes⟩ := hnodes
          have hname' : name ∉ rest'.names := names_eq_of_map hothers ▸ hname
          have hdirection : state.masterDirection = state'.masterDirection :=
            congrArg Prod.fst hstate
          cases hb with
          | leaf => cases hbelow
          | nested _ hside' hinner' hrest' =>
              -- The members inside are on opposite sides again, one level further down.
              have hturned : state.side.opposite = state'.side := by
                rw [hside, hside', Side.opposite_below, hdirection]
              have hopposite : state.side = state'.side.opposite := by
                rw [← hturned]
                cases state.side <;> rfl
              obtain ⟨inside, hinside, hjoinedInside⟩ :=
                ihi (hturned ▸ hinner') hbelow hdistinctInner hnodesInner
              obtain ⟨links, hlinks, hjoined⟩ := ihr hrest' hothers hdistinct hnodes
              have hfirst := hinside.nodes rfl rfl hopposite hdirection hdirected
              refine ⟨inside ++ links, .cons hname hname' hfirst hlinks, fun path => ?_⟩
              rw [leaves, leaves, List.zip_append (length_leaves_eq hbelow _)]
              exact List.rel_append (hjoinedInside _) (hjoined path)

end Wiring

end Rtl
