import Rtl.HwType

namespace Rtl

-- Where data flows through a port, seen from inside its entity.
inductive Direction where
  | input
  | output
  | inout
deriving DecidableEq, Repr

namespace Direction

def opposite : Direction → Direction
  | .input => .output
  | .output => .input
  | .inout => .inout

-- The tag under which a direction is stored and reported.
def tag : Direction → String
  | .input => "In"
  | .output => "Out"
  | .inout => "InOut"

end Direction

structure Port where
  id : PortId
  name : NameId
  direction : Direction
  type : TypeId
deriving DecidableEq, Repr

-- The outside of a unit: its name and its ports.
structure Entity where
  name : NameId
  ports : Arena .port Port
deriving Repr

namespace Entity

def ofName (name : NameId) : Entity := ⟨name, .empty⟩

def addPort (entity : Entity) (name : NameId) (direction : Direction) (type : TypeId) :
    PortId × Entity :=
  let (id, ports) := entity.ports.allocWith fun id => ⟨id, name, direction, type⟩
  (id, { entity with ports })

end Entity

end Rtl
