import Rtl.Interface.Template

namespace Rtl

-- The two sides of an interface. The master drives what has master direction
-- out, the slave what has master direction in.
inductive Side where
  | master
  | slave
deriving DecidableEq, Repr

namespace Side

def opposite : Side → Side
  | .master => .slave
  | .slave => .master

-- The tag under which a side is reported.
def tag : Side → String
  | .master => "Master"
  | .slave => "Slave"

end Side

-- What is known about one node of an interface instance. Only leaves have a
-- width, a backing signal and a port.
structure NodeState where
  masterDirection : Direction
  width : Nat
  side : Side
  signal : Option SignalId
  port : Option PortId
  source : Option NodeId
  destinations : List NodeId
  external : Bool
deriving DecidableEq, Repr

namespace NodeState

def ofShape (shape : Shape) : NodeState :=
  { masterDirection := shape.masterDirection, width := shape.width, side := .slave
    signal := none, port := none, source := none, destinations := [], external := false }

end NodeState

namespace Template

-- A fresh instance. An external one without a source starts as a master,
-- any other as a slave; the members start as slaves.
def instantiate (template : Template) (external : Bool) (source : Option NodeId)
    (destinations : List NodeId) : NodeState × Forest NodeState :=
  let root := NodeState.ofShape ⟨.output, 0⟩
  let side := if external && source.isNone then .master else .slave
  ({ root with side, external, source, destinations }, template.members.map NodeState.ofShape)

end Template

end Rtl
