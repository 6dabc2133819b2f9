namespace Rtl

-- What an identifier points at. Identifiers of different kinds never mix.
inductive Kind where
  | name
  | type
  | signal
  | process
  | port
  | statement
  | node
deriving DecidableEq, Repr

-- Identifiers, widths and sizes are numbers of 32 bits.
def wordLimit : Nat := 1 <<< 32

-- A position in the table that holds all things of one kind.
structure Id (kind : Kind) where
  index : Nat
deriving DecidableEq, Repr

abbrev NameId := Id .name

abbrev TypeId := Id .type

abbrev SignalId := Id .signal

abbrev ProcessId := Id .process

abbrev PortId := Id .port

abbrev StatementId := Id .statement

abbrev NodeId := Id .node

namespace Id

theorem index_injective {kind : Kind} {a b : Id kind} (h : a.index = b.index) : a = b := by
  cases a
  cases b
  simpa using h

end Id

end Rtl
