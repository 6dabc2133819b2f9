import Rtl.Id

namespace Rtl

-- A vector of bits, each `0`, `1` or undefined. Bit `i` of `defined` says
-- whether bit `i` of the vector is defined, and then bit `i` of `value` is it.
structure LogicVec where
  width : Nat
  value : Nat
  defined : Nat
deriving DecidableEq, Repr

namespace LogicVec

-- The number whose lowest `width` bits are set.
def mask (width : Nat) : Nat := 1 <<< width - 1

-- Drops what lies above the width, and the value of every undefined bit, so
-- that two vectors with the same bits are equal.
def ofMasked (value defined width : Nat) : LogicVec :=
  let kept := defined &&& mask width
  ⟨width, value &&& kept, kept⟩

def ofNat (value width : Nat) : LogicVec := ofMasked value (mask width) width

def ofBool (bit : Bool) : LogicVec := ofNat bit.toNat 1

def zeros (width : Nat) : LogicVec := ofNat 0 width

def ones (width : Nat) : LogicVec := ofNat (mask width) width

def undefined (width : Nat) : LogicVec := ofMasked 0 0 width

-- Bit `index`; `none` is an undefined bit.
def bit (v : LogicVec) (index : Nat) : Option Bool :=
  if v.defined.testBit index then some (v.value.testBit index) else none

def get? (v : LogicVec) (index : Nat) : Option (Option Bool) :=
  if index < v.width then some (v.bit index) else none

-- All bits, the most significant one first.
def bits (v : LogicVec) : List (Option Bool) :=
  (List.range v.width).reverse.map v.bit

-- Shifts one bit in at the low end.
def snoc (v : LogicVec) (bit : Option Bool) : LogicVec :=
  ⟨v.width + 1, 2 * v.value + (bit.getD false).toNat, 2 * v.defined + bit.isSome.toNat⟩

-- The vector of the given bits, the most significant one first.
def ofBits (bits : List (Option Bool)) : LogicVec := bits.foldl snoc ⟨0, 0, 0⟩

def symbol : Option Bool → Char
  | some true => '1'
  | some false => '0'
  | none => 'X'

def ofSymbol? : Char → Option (Option Bool)
  | '0' => some (some false)
  | '1' => some (some true)
  | 'x' | 'X' => some none
  | _ => none

-- One symbol per bit, the most significant one first.
def toText (v : LogicVec) : String := String.ofList (v.bits.map symbol)

-- The vector of the given symbols, the most significant one first.
def ofSymbols? (symbols : List Char) : Option LogicVec := (symbols.mapM ofSymbol?).map ofBits

-- Reads what `toText` writes, and a small `x` for an undefined bit. The symbols are
-- counted in 32 bits, and what lies above that width is dropped.
def ofText? (text : String) : Option LogicVec :=
  (ofSymbols? text.toList).map fun v => ofMasked v.value v.defined (v.width % wordLimit)

def allDefined (v : LogicVec) : Bool := v.defined == mask v.width

def anyDefined (v : LogicVec) : Bool := v.defined != 0

-- The value of a vector without undefined bits that fits 64 bits.
def toWord? (v : LogicVec) : Option Nat :=
  if v.allDefined && v.value < 1 <<< 64 then some v.value else none

-- The value in two's complement.
def toInt (v : LogicVec) : Int :=
  if 0 < v.width ∧ v.value.testBit (v.width - 1) then (v.value : Int) - (1 <<< v.width : Nat)
  else v.value

def outOfBounds (v : LogicVec) (index : Nat) : String :=
  s!"index {index} out of bounds for width {v.width}"

theorem ofSymbol?_symbol (bit : Option Bool) : ofSymbol? (symbol bit) = some bit := by
  rcases bit with _ | _ | _ <;> rfl

end LogicVec

end Rtl
