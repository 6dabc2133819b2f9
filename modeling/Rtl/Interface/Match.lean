import Rtl.Interface.Claims
import Rtl.Interface.Error

namespace Rtl

namespace Match

-- Binds a leaf to the one unclaimed port of the given name. The leaf is on the
-- master side if the port has its master direction.
def bindLeaf (id : NodeId) (name : String) (leaf : NodeState) (claims : Claims) :
    Except Incompatible (NodeState × Claims) :=
  match claims.findUnclaimed name with
  | [] => .error (.missing name)
  | [port] =>
      let agrees := (claims.ports.get? port).map PortClaim.direction = some leaf.masterDirection
      let side := if agrees then Side.master else .slave
      .ok ({ leaf with port := some port, side }, claims.claim port id)
  | ports => .error (.ambiguous ports.length name)

-- The side of an interface from what its members found: master if all of them
-- agree with their master direction, slave if none does.
def settle (name : String) (agreed : List Bool) : Except Incompatible Side :=
  if agreed.all (· == true) then .ok .master
  else if agreed.all (· == false) then .ok .slave
  else .error (.mixedSides name)

-- A nested member agrees if it is the side that its master direction names.
def nestedAgrees (side : Side) (masterDirection : Direction) : Bool :=
  (side == .master) == (masterDirection == .output)

-- What an attempt to match some members leaves behind, also if it fails.
structure Attempt where
  agreed : Except Incompatible (List Bool)
  nodes : Forest NodeState
  claims : Claims

namespace Attempt

-- Puts a member that was matched in front of those matched after it.
def after (rest : Attempt) (name : String) (state : NodeState) (inner : Forest NodeState)
    (agrees : Bool) : Attempt :=
  { rest with agreed := rest.agreed.map (agrees :: ·), nodes := .cons name state inner rest.nodes }

end Attempt

-- Takes the port back from every leaf in the list.
def unbind (undone : List NodeId) : Nat → Forest NodeState → Forest NodeState
  | _, .nil => .nil
  | id, .cons name state inner rest =>
      let state := if undone.contains ⟨id⟩ then { state with port := none } else state
      .cons name state (unbind undone (id + 1) inner) (unbind undone (id + 1 + inner.size) rest)

-- Gives back every port that was claimed since the log had length `mark`, and
-- takes them from the leaves. The first node has number `id`.
def Attempt.undo (attempt : Attempt) (id mark : Nat) : Attempt :=
  { attempt with
    nodes := unbind ((attempt.claims.since mark).map (·.2)) id attempt.nodes
    claims := attempt.claims.rollback mark }

-- Matches members by the names of ports, each name being the stem and the
-- names of the members down to the leaf. The first member has number `id`.
-- The first failure ends the attempt. A member that fails gives back what was
-- claimed below it; what the members before it claimed is left to the one
-- around them.
def members (id : Nat) (stem : String) : Forest NodeState → Claims → Attempt
  | .nil, claims => ⟨.ok [], .nil, claims⟩
  | .cons name leaf .nil rest, claims =>
      match bindLeaf ⟨id⟩ (stem ++ name) leaf claims with
      | .error cause => ⟨.error cause, .cons name leaf .nil rest, claims⟩
      | .ok (bound, claims) =>
          (members (id + 1) stem rest claims).after name bound .nil (bound.side == .master)
  | .cons name state (.cons first item below beside) rest, claims =>
      let inner := Forest.cons first item below beside
      let within := members (id + 1) (stem ++ name) inner claims
      match within.agreed.bind (settle (stem ++ name)) with
      | .error cause =>
          let undone := within.undo (id + 1) claims.mark
          ⟨.error cause, .cons name state undone.nodes rest, undone.claims⟩
      | .ok side =>
          (members (id + 1 + inner.size) stem rest within.claims).after name { state with side }
            within.nodes (nestedAgrees side state.masterDirection)

-- Matches one node and all below it against the ports whose names begin with
-- the stem.
def node (id : NodeId) (stem : String) (state : NodeState) (inner : Forest NodeState)
    (claims : Claims) : Attempt :=
  members id.index stem (.cons "" state inner .nil) claims

end Match

end Rtl
