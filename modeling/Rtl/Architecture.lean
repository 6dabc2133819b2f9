import Rtl.Entity
import Rtl.Statement

namespace Rtl

-- What drives a signal. A component counts by its place among the instances.
inductive Driver where
  | port (id : PortId)
  | connection (source : SignalId)
  | statement (id : StatementId)
  | component (position : Nat)
deriving DecidableEq, Repr

inductive Reader where
  | port (id : PortId)
  | connection (destination : SignalId)
  | process (id : ProcessId)
  | component (position : Nat)
deriving DecidableEq, Repr

-- A signal. A hidden one is never declared and stands for its origin.
structure Signal where
  id : SignalId
  name : NameId
  type : TypeId
  default : Option Value
  drivers : List Driver
  readers : List Reader
  hidden : Bool
  origin : Option Expr
  leaf : Option NodeId
deriving Repr

namespace Signal

-- The expression that stands for a hidden signal.
def alias? (signal : Signal) : Option Expr :=
  if signal.hidden then signal.origin else none

def addDriver (driver : Driver) (signal : Signal) : Signal :=
  { signal with drivers := signal.drivers ++ [driver] }

def addReader (reader : Reader) (signal : Signal) : Signal :=
  { signal with readers := signal.readers ++ [reader] }

end Signal

structure Process where
  id : ProcessId
  name : NameId
  sensitivity : List SignalId
  body : List Statement
deriving Repr

namespace Process

-- The largest identifier in the body, if there is any statement.
def maxStatementId? (process : Process) : Option StatementId :=
  if process.body.isEmpty then none else some ⟨Statement.maxIdAll process.body⟩

end Process

-- Says that one signal always reads from another.
structure Connection where
  destination : SignalId
  source : SignalId
deriving DecidableEq, Repr

-- A unit used inside another one, with the signals on its ports.
structure Component where
  name : NameId
  entity : NameId
  portMap : List (NameId × SignalId)
deriving DecidableEq, Repr

structure Architecture where
  name : NameId
  entity : Entity
  signals : Arena .signal Signal
  processes : Arena .process Process
  connections : List Connection
  portBindings : List (PortId × SignalId)
  components : List Component
  nextStatement : Nat
deriving Repr

namespace Architecture

def ofEntity (name : NameId) (entity : Entity) : Architecture :=
  { name, entity, signals := .empty, processes := .empty, connections := [], portBindings := []
    components := [], nextStatement := 0 }

def hasSignal (arch : Architecture) (id : SignalId) : Bool := arch.signals.contains id

def freshStatement (arch : Architecture) : StatementId × Architecture :=
  (⟨arch.nextStatement⟩, { arch with nextStatement := arch.nextStatement + 1 })

def addDriver (arch : Architecture) (id : SignalId) (driver : Driver) : Architecture :=
  { arch with signals := arch.signals.modify id (Signal.addDriver driver) }

def addReader (arch : Architecture) (id : SignalId) (reader : Reader) : Architecture :=
  { arch with signals := arch.signals.modify id (Signal.addReader reader) }

def addSignal (arch : Architecture) (name : NameId) (type : TypeId) (default : Option Value) :
    SignalId × Architecture :=
  let (id, signals) := arch.signals.allocWith fun id =>
    { id, name, type, default, drivers := [], readers := [], hidden := false, origin := none
      leaf := none }
  (id, { arch with signals })

-- Adds a signal that stands for an expression; the signals of the expression
-- count as read by it.
def addHidden (arch : Architecture) (name : NameId) (type : TypeId) (origin : Expr) :
    SignalId × Architecture :=
  let (id, signals) := arch.signals.allocWith fun id =>
    { id, name, type, default := none, drivers := [], readers := [], hidden := true
      origin := some origin, leaf := none }
  (id, origin.signals.foldl (·.addReader · (.connection id)) { arch with signals })

def setHidden (arch : Architecture) (id : SignalId) (hidden : Bool) : Architecture :=
  { arch with signals := arch.signals.modify id fun signal => { signal with hidden } }

def setLeaf (arch : Architecture) (id : SignalId) (leaf : NodeId) : Architecture :=
  { arch with signals := arch.signals.modify id fun signal => { signal with leaf := some leaf } }

-- Adds a process: its assignments drive their destinations, and it reads what
-- it is sensitive to.
def addProcess (arch : Architecture) (name : NameId) (sensitivity : List SignalId)
    (body : List Statement) : ProcessId × Architecture :=
  let (id, processes) := arch.processes.allocWith fun id => { id, name, sensitivity, body }
  let driven := (Statement.targets body).foldl
    (fun arch (signal, statement) => arch.addDriver signal (.statement statement))
    { arch with processes }
  (id, sensitivity.foldl (·.addReader · (.process id)) driven)

def connect (arch : Architecture) (destination source : SignalId) : Architecture :=
  let link : Connection := { destination, source }
  let joined := { arch with connections := arch.connections ++ [link] }
  (joined.addDriver destination (.connection source)).addReader source (.connection destination)

def portDirection? (arch : Architecture) (port : PortId) : Option Direction :=
  (arch.entity.ports.get? port).map Port.direction

-- Puts a signal on a port: an input drives it, an output reads it.
def bindPort (arch : Architecture) (signal : SignalId) (port : PortId) : Architecture :=
  let bound := { arch with portBindings := arch.portBindings ++ [(port, signal)] }
  match arch.portDirection? port with
  | some .input => bound.addDriver signal (.port port)
  | some .output => bound.addReader signal (.port port)
  | some .inout => (bound.addDriver signal (.port port)).addReader signal (.port port)
  | none => bound

-- Adds a component. The directions of its ports are not known here, so every
-- signal on them counts as both driven and read.
def addComponent (arch : Architecture) (component : Component) : Architecture :=
  let position := arch.components.length
  let used := component.portMap.foldl
    (fun arch (_, signal) =>
      (arch.addDriver signal (.component position)).addReader signal (.component position)) arch
  { used with components := used.components ++ [component] }

-- The same operations for identifiers from outside: `none` if one of them does
-- not exist.

def addHidden? (arch : Architecture) (name : NameId) (type : TypeId) (origin : Expr) :
    Option (SignalId × Architecture) :=
  let (id, extended) := arch.addHidden name type origin
  if origin.signals.all extended.hasSignal then some (id, extended) else none

def setHidden? (arch : Architecture) (id : SignalId) (hidden : Bool) : Option Architecture :=
  if arch.hasSignal id then some (arch.setHidden id hidden) else none

def addProcess? (arch : Architecture) (name : NameId) (sensitivity : List SignalId)
    (body : List Statement) : Option (ProcessId × Architecture) :=
  if (Statement.targets body).all (arch.hasSignal ·.1) && sensitivity.all arch.hasSignal then
    some (arch.addProcess name sensitivity body)
  else none

def connect? (arch : Architecture) (destination source : SignalId) : Option Architecture :=
  if arch.hasSignal destination && arch.hasSignal source then
    some (arch.connect destination source)
  else none

def bindPort? (arch : Architecture) (signal : SignalId) (port : PortId) :
    Option Architecture :=
  if arch.hasSignal signal && arch.entity.ports.contains port then
    some (arch.bindPort signal port)
  else none

def addComponent? (arch : Architecture) (component : Component) : Option Architecture :=
  if component.portMap.all (arch.hasSignal ·.2) then some (arch.addComponent component)
  else none

end Architecture

end Rtl
