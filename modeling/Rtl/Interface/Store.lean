import Rtl.Interface.Backing
import Rtl.Interface.Blueprint
import Rtl.Interface.Wiring

namespace Rtl

-- Nodes as they are stored, each with the numbers of its parent and of its members.
abbrev Nodes := Arena .node (Forest.Row NodeState)

namespace Nodes

def setState (nodes : Nodes) (id : NodeId) (item : NodeState) : Nodes :=
  nodes.modify id fun row => { row with item }

-- A node of a blueprint as the node of an instance whose root gets the number `base`.
def instanceRow (base : Nat) (external : Bool) (source : Option NodeId)
    (destinations : List NodeId) (index : Nat) (row : Forest.Row Shape) : Forest.Row NodeState :=
  let fresh := NodeState.ofShape row.item
  let item := if index = 0 then
      let side := if external && source.isNone then Side.master else .slave
      { fresh with side, external, source, destinations }
    else fresh
  { name := row.name, item, parent := row.parent.map (· + base)
    members := row.members.map fun (name, number) => (name, number + base) }

-- Visits a node and then, one after the other, its members. Each visit may change what is
-- known about the node and something else besides. The stem of a member is that of the
-- node, extended by the name of the member. `none` if this does not come to an end on the
-- given number of levels, or if a node does not exist.
def visit {σ : Type} (act : NodeId → String → Bool → NodeState → σ → NodeState × σ)
    (extend : String → String → String) :
    Nat → NodeId → String → Nodes × σ → Option (Nodes × σ)
  | 0, _, _, _ => none
  | levels + 1, id, stem, (nodes, rest) => do
      let row ← nodes.get? id
      let (item, rest) := act id stem row.members.isEmpty row.item rest
      row.members.foldlM (fun now (name, number) =>
        visit act extend levels ⟨number⟩ (extend stem name) now) (nodes.setState id item, rest)

-- Goes through members until one of them fails.
def eachMember {ε σ α : Type} (act : String → NodeId → σ → Option (Except ε α × σ)) :
    List (String × Nat) → σ → Option (Except ε (List α) × σ)
  | [], now => some (.ok [], now)
  | (name, number) :: rest, now => do
      match ← act name ⟨number⟩ now with
      | (.error cause, now) => return (.error cause, now)
      | (.ok first, now) =>
          let (others, now) ← eachMember act rest now
          return (others.map (first :: ·), now)

-- Takes the port from every leaf of the given claims.
def unbind (nodes : Nodes) (undone : List (PortId × NodeId)) : Nodes :=
  undone.foldl (fun nodes (_, leaf) =>
    nodes.modify leaf fun row => { row with item := { row.item with port := none } }) nodes

-- Whether a member that was matched agrees with its master direction.
def agrees (row : Forest.Row NodeState) : Bool :=
  if row.members.isEmpty then row.item.side == .master
  else Match.nestedAgrees row.item.side row.item.masterDirection

-- What a match of a node came to, with the nodes and the claims behind it.
abbrev Outcome (α : Type) := Except Incompatible α × Nodes × Claims

def matchLeaf (nodes : Nodes) (id : NodeId) (name : String) (leaf : NodeState) (claims : Claims) :
    Outcome Unit :=
  match Match.bindLeaf id name leaf claims with
  | .error cause => (.error cause, nodes, claims)
  | .ok (bound, claims) => (.ok (), nodes.setState id bound, claims)

-- A member that was matched tells its node whether it agrees.
def matchMember (id : NodeId) : Outcome Unit → Option (Outcome Bool)
  | (.error cause, now) => some (.error cause, now)
  | (.ok _, nodes, claims) => do
      let row ← nodes.get? id
      return (.ok (agrees row), nodes, claims)

-- Once all members are matched the node is on the side that they agree on.
def settle (id : NodeId) (stem : String) : Outcome (List Bool) → Outcome Unit
  | (agreed, nodes, claims) =>
      match agreed.bind (Match.settle stem) with
      | .error cause => (.error cause, nodes, claims)
      | .ok side =>
          let settled := nodes.modify id fun row => { row with item := { row.item with side } }
          (.ok (), settled, claims)

-- A failure gives back every port that was claimed since the log had length `mark`.
def undo (mark : Nat) : Outcome Unit → Outcome Unit
  | (.ok done, now) => (.ok done, now)
  | (.error cause, nodes, claims) =>
      (.error cause, nodes.unbind (claims.since mark), claims.rollback mark)

-- Matches a node and all below it against the ports whose names begin with the stem.
def matchNode : Nat → String → NodeId → Nodes × Claims → Option (Outcome Unit)
  | 0, _, _, _ => none
  | levels + 1, stem, id, (nodes, claims) => do
      let row ← nodes.get? id
      if row.members.isEmpty then
        return undo claims.mark (nodes.matchLeaf id stem row.item claims)
      else
        let agreed ← eachMember (fun name child now =>
            (matchNode levels (stem ++ name) child now).bind (matchMember child))
          row.members (nodes, claims)
        return undo claims.mark (settle id stem agreed)

-- The names on the way from a node up to its root, outermost first and without the root's.
def climb (nodes : Nodes) : Nat → NodeId → Option (List String)
  | 0, _ => none
  | steps + 1, id => do
      let row ← nodes.get? id
      match row.parent with
      | none => return []
      | some above => return (← climb nodes steps ⟨above⟩) ++ [row.name]

def fullName? (nodes : Nodes) (id : NodeId) : Option String :=
  (nodes.climb nodes.size id).map (String.intercalate ".")

-- The full name, or the name of the node itself where that is empty.
def displayName? (nodes : Nodes) (id : NodeId) : Option String := do
  let fullName ← nodes.fullName? id
  if fullName.isEmpty then return (← nodes.get? id).name else return fullName

def backing? (nodes : Nodes) (id : NodeId) : Option (Except InterfaceError SignalId) := do
  let row ← nodes.get? id
  match row.item.signal with
  | some signal => return .ok signal
  | none => return .error (.misconfigured (.noSignal (← nodes.displayName? id)))

def connectLeaf? (nodes : Nodes) (destination source : NodeId) : Option Wiring := do
  let row ← nodes.get? destination
  if row.item.external && row.item.side != .slave then
    return .fail (.misconfigured (.externalMaster row.name))
  else
    match ← nodes.backing? destination with
    | .error cause => return .fail cause
    | .ok driven =>
        match ← nodes.backing? source with
        | .error cause => return .fail cause
        | .ok driving => return ⟨[⟨driven, driving⟩], .none⟩

-- One wiring after the other, until there is an error.
def wireEach {α : Type} (wire : α → Option Wiring) : List α → Option Wiring
  | [] => some .none
  | first :: rest => do
      let wiring ← wire first
      match wiring.error with
      | some _ => return wiring
      | none => return wiring.andThen (← wireEach wire rest)

-- Connects two nodes member by member.
def connect : Nat → Nodes → NodeId → NodeId → Option Wiring
  | 0, _, _, _ => none
  | levels + 1, nodes, destination, source => do
      let driven ← nodes.get? destination
      if driven.members.isEmpty then nodes.connectLeaf? destination source
      else
        wireEach (fun (name, number) => do
          let driving ← nodes.get? source
          match driving.members.lookup name with
          | none =>
              return .fail (.misconfigured
                (.noMember (← nodes.fullName? source) name (← nodes.fullName? ⟨number⟩)))
          | some other =>
              let member ← nodes.get? ⟨number⟩
              match Wiring.flow? member.item with
              | some .forward => connect levels nodes ⟨number⟩ ⟨other⟩
              | some .backward => connect levels nodes ⟨other⟩ ⟨number⟩
              | none =>
                  return .fail (.misconfigured (.undirected (← nodes.fullName? ⟨number⟩)
                    member.item.side member.item.masterDirection))) driven.members

-- Connects a node and all below it to what they drive, members first.
def propagate : Nat → Nodes → NodeId → Option Wiring
  | 0, _, _ => none
  | levels + 1, nodes, id => do
      let row ← nodes.get? id
      let below ← wireEach (fun (_, number) => propagate levels nodes ⟨number⟩) row.members
      match below.error with
      | some _ => return below
      | none =>
          return below.andThen
            (← wireEach (fun destination => connect (2 * nodes.size) nodes destination id)
              row.item.destinations)

end Nodes

-- A synthesizer with its nodes and templates as they are stored.
structure Store where
  nodes : Nodes
  blueprints : Blueprints
  separator : String

namespace Store

def ofSeparator (separator : String) : Store := ⟨.empty, .empty, separator⟩

def size (store : Store) : Nat := store.nodes.size

def rows (store : Store) : List (Forest.Row NodeState) := store.nodes.toList

def template? (store : Store) (cls : InterfaceClass) : Option (Blueprint × Store) := do
  let (blueprint, blueprints) ← store.blueprints.build? cls
  return (blueprint, { store with blueprints })

-- Copies a blueprint behind all nodes.
def instantiate (store : Store) (blueprint : Blueprint) (external : Bool)
    (source : Option NodeId) (destinations : List NodeId) : NodeId × Store :=
  let base := store.size
  let nodes := blueprint.rows.zipIdx.foldl (fun nodes (row, index) =>
    (nodes.alloc (Nodes.instanceRow base external source destinations index row)).2) store.nodes
  (⟨base⟩, { store with nodes })

def propagateSource? (store : Store) (id : NodeId) : Option Store := do
  let row ← store.nodes.get? id
  match row.item.source with
  | none => return store
  | some source =>
      let other ← store.nodes.get? source
      let destinations := other.item.destinations ++ [id]
      return { store with nodes := store.nodes.setState source { other.item with destinations } }

def matchByName? (store : Store) (id : NodeId) (stem : String) (claims : Claims) :
    Option (Except InterfaceError NodeId × Store × Claims) := do
  let (result, nodes, claims) ← Nodes.matchNode store.size stem id (store.nodes, claims)
  let store := { store with nodes }
  match result with
  | .ok _ => return (.ok id, store, claims)
  | .error cause => return (.error (.incompatible cause), store, claims)

-- The name of an instance: the candidate without one separator at its end.
def instanceName (store : Store) (candidate : String) : String :=
  if store.separator.toList.isSuffixOf candidate.toList then
    String.ofList (candidate.toList.take (candidate.length - store.separator.length))
  else candidate

-- Tries one port as the first member of an external instance. One that does not fit is cut
-- off again behind the nodes there were.
def tryPort? (store : Store) (blueprint : Blueprint) (first : String) (claims : Claims)
    (port : PortId) : Option (Option (String × NodeId) × Store × Claims) :=
  match claims.candidate? port first with
  | none => some (none, store, claims)
  | some candidate => do
      let (root, made) := store.instantiate blueprint true none []
      let (result, made, claims) ← made.matchByName? root candidate claims
      match result with
      | .ok _ =>
          let name := store.instanceName candidate
          let nodes := made.nodes.modify root fun row => { row with name }
          return (some (name, root), { made with nodes }, claims)
      | .error _ => return (none, { made with nodes := made.nodes.truncate store.size }, claims)

def tryPorts? (store : Store) (blueprint : Blueprint) (first : String) (claims : Claims) :
    List PortId → Option (List (String × NodeId) × Store × Claims)
  | [] => some ([], store, claims)
  | port :: rest => do
      let (found, store, claims) ← store.tryPort? blueprint first claims port
      let (more, store, claims) ← store.tryPorts? blueprint first claims rest
      return (found.toList ++ more, store, claims)

def extractAll? (store : Store) (cls : InterfaceClass) (claims : Claims) :
    Option (Except InterfaceError (List (String × NodeId)) × Store × Claims) := do
  let (blueprint, store) ← store.template? cls
  match ← blueprint.firstMember? with
  | .error cause => return (.error cause, store, claims)
  | .ok first =>
      let (found, store, claims) ←
        store.tryPorts? blueprint first claims (claims.ports.entries.map (·.1))
      return (.ok found, store, claims)

-- The backing signal of a leaf, put behind those made so far.
def materializeNode (id : NodeId) (name : String) (leaf : Bool) (state : NodeState)
    (made : List SignalId × Design) : NodeState × List SignalId × Design :=
  if leaf then
    let (signal, state, design) := Backing.leaf id name state made.2
    (state, made.1 ++ [signal], design)
  else (state, made)

def materialize? (store : Store) (id : NodeId) (stem : String) (design : Design) :
    Option (List SignalId × Store × Design) := do
  let (nodes, signals, design) ← Nodes.visit materializeNode
    (fun stem name => stem ++ store.separator ++ name) store.size id stem
    (store.nodes, [], design)
  return (signals, { store with nodes }, design)

-- Changes what is known about a node and all below it.
def changeAll? (store : Store) (id : NodeId) (change : NodeState → NodeState) : Option Store := do
  let (nodes, _) ← Nodes.visit (fun _ _ _ state rest => (change state, rest)) (fun stem _ => stem)
    store.size id "" (store.nodes, ())
  return { store with nodes }

def detachSignals? (store : Store) (id : NodeId) (connections : Bool) : Option Store :=
  store.changeAll? id (Synthesizer.detachState connections)

def reverseDirection? (store : Store) (id : NodeId) : Option Store :=
  store.changeAll? id Synthesizer.reverseState

def unExtract? (store : Store) (id : NodeId) (claims : Claims) : Option (Store × Claims) := do
  let (nodes, claims) ← Nodes.visit (fun id _ _ state claims =>
      (Synthesizer.unboundState state, Synthesizer.releasePort id state claims))
    (fun stem _ => stem) store.size id "" (store.nodes, claims)
  return ({ store with nodes }, claims)

-- Writes over what is known about a node.
def updateState? (store : Store) (id : NodeId) (change : NodeState → NodeState) : Option Store := do
  let row ← store.nodes.get? id
  return { store with nodes := store.nodes.setState id (change row.item) }

def fullName? (store : Store) (id : NodeId) : Option String := store.nodes.fullName? id

def wiring? (store : Store) (destination source : NodeId) : Option Wiring :=
  store.nodes.connect (2 * store.size) destination source

def propagation? (store : Store) (root : NodeId) : Option Wiring :=
  store.nodes.propagate store.size root

end Store

end Rtl
