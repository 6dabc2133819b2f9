import Rtl.Architecture
import Rtl.NameTable

namespace Rtl

-- An architecture with the tables that its names and types point into.
structure Design where
  names : NameTable
  types : TypeTable
  arch : Architecture
deriving Repr

namespace Design

def intern (design : Design) (text : String) : NameId × Design :=
  let (id, names) := design.names.intern text
  (id, { design with names })

def internAll (design : Design) (texts : List String) : List NameId × Design :=
  let (ids, names) := design.names.internAll texts
  (ids, { design with names })

-- Adds a signal of the plain type of the given width.
def addWire (design : Design) (name : String) (width : Nat) : SignalId × Design :=
  let (type, types) := design.types.ofWidth width
  let (name, names) := design.names.intern name
  let (id, arch) := design.arch.addSignal name type none
  (id, { names, types, arch })

-- The name and the direction of every port of the entity.
def portNames (design : Design) : List (String × Direction) :=
  design.arch.entity.ports.toList.map fun port =>
    ((design.names.text? port.name).getD "", port.direction)

end Design

end Rtl
