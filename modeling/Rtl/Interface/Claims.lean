import Rtl.Entity
import Rtl.NameTable

namespace Rtl

-- A port and the interface leaf that holds it, if any.
structure PortClaim where
  name : String
  direction : Direction
  owner : Option NodeId
deriving DecidableEq, Repr

-- Who holds the ports of an entity. The log has every claim, the newest first.
structure Claims where
  ports : Arena .port PortClaim
  log : List (PortId × NodeId)
deriving Repr

namespace Claims

-- The table of the given ports with none of them claimed.
def ofPorts (ports : List (String × Direction)) : Claims :=
  ⟨⟨(ports.map fun (name, direction) => ⟨name, direction, none⟩).toArray⟩, []⟩

def size (claims : Claims) : Nat := claims.ports.size

def mark (claims : Claims) : Nat := claims.log.length

def owner? (claims : Claims) (port : PortId) : Option NodeId :=
  (claims.ports.get? port).bind PortClaim.owner

def owners (claims : Claims) : List (Option NodeId) := claims.ports.toList.map PortClaim.owner

def setOwner (claims : Claims) (port : PortId) (owner : Option NodeId) : Claims :=
  { claims with ports := claims.ports.modify port fun claim => { claim with owner } }

def claim (claims : Claims) (port : PortId) (leaf : NodeId) : Claims :=
  let held := claims.setOwner port (some leaf)
  { held with log := (port, leaf) :: held.log }

-- The claims made since the log had length `mark`, the newest first.
def since (claims : Claims) (mark : Nat) : List (PortId × NodeId) :=
  claims.log.take (claims.log.length - mark)

-- Gives up every claim made since the log had length `mark`.
def rollback (claims : Claims) (mark : Nat) : Claims :=
  let freed := (claims.since mark).foldl (fun claims (port, _) => claims.setOwner port none) claims
  { freed with log := claims.log.drop (claims.log.length - mark) }

-- Gives up the claim on one port, wherever it stands in the log.
def release (claims : Claims) (port : PortId) : Claims :=
  let freed := claims.setOwner port none
  { freed with log := freed.log.filter (·.1 != port) }

-- The name of an unclaimed port without the given ending. Case does not count
-- when the ending is compared.
def candidate? (claims : Claims) (port : PortId) (ending : String) : Option String :=
  match claims.ports.get? port with
  | some ⟨name, _, none⟩ =>
      if ending.toLower.toList.isSuffixOf name.toLower.toList then
        some (String.ofList (name.toList.take (name.length - ending.length)))
      else none
  | _ => none

-- The unclaimed ports of the given name. Case does not count.
def findUnclaimed (claims : Claims) (name : String) : List PortId :=
  claims.ports.entries.filterMap fun (id, port) =>
    if port.owner.isNone && port.name.toLower == name.toLower then some id else none

-- The same operations for ports and marks from outside: `none` if one of them
-- does not exist.

def claim? (claims : Claims) (port : PortId) (leaf : NodeId) : Option Claims :=
  if claims.ports.contains port then some (claims.claim port leaf) else none

def release? (claims : Claims) (port : PortId) : Option Claims :=
  if claims.ports.contains port then some (claims.release port) else none

def rollback? (claims : Claims) (mark : Nat) : Option (List (PortId × NodeId) × Claims) :=
  if mark ≤ claims.mark then some (claims.since mark, claims.rollback mark) else none

theorem since_mark (claims : Claims) : claims.since claims.mark = [] := by
  simp [since, mark]

end Claims

end Rtl
