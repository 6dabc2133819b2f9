import Rtl.HwType
import Rtl.LogicVec

namespace Rtl

-- What a constant holds; `none` is an undefined value.
inductive Payload where
  | bits (vector : LogicVec)
  | boolean (value : Option Bool)
  | integer (value : Option Int)
  | text (value : Option String)
  | label (index : Option Nat)
deriving DecidableEq, Repr

-- A constant with its type. Nothing forces the two to fit.
structure Value where
  type : TypeId
  payload : Payload
deriving DecidableEq, Repr

namespace Value

-- The constant of the given width, with the plain type of that width.
def ofNat (table : TypeTable) (value width : Nat) : Value × TypeTable :=
  let (type, table) := table.ofWidth width
  (⟨type, .bits (.ofNat value width)⟩, table)

def bits? (value : Value) : Option LogicVec :=
  match value.payload with
  | .bits vector => some vector
  | _ => none

def anyDefined (value : Value) : Bool :=
  match value.payload with
  | .bits vector => vector.anyDefined
  | .boolean value => value.isSome
  | .integer value => value.isSome
  | .text value => value.isSome
  | .label index => index.isSome

def allDefined (value : Value) : Bool :=
  match value.payload with
  | .bits vector => vector.allDefined
  | _ => value.anyDefined

end Value

end Rtl
