import Rtl.LogicVec
import Rtl.Render.Error
import Rtl.Text.Numeral

namespace Rtl

namespace LogicVec

def quote (body : List Char) : String := String.ofList ('"' :: body ++ ['"'])

-- Hexadecimal digits, filled up with zeros on the left.
def hexDigits (count value : Nat) : List Char :=
  let digits := Text.numeral 16 value
  List.replicate (count - digits.length) '0' ++ digits

-- The most digits that a hexadecimal bit string is filled up to.
def maxHexDigits : Nat := 65535

-- A bit string: hexadecimal if no bit is undefined and the width allows it,
-- and otherwise one symbol per bit. Only the digits are limited in number.
def bitString (v : LogicVec) : Except RenderError String :=
  if v.width % 4 == 0 && v.allDefined then
    if v.width / 4 ≤ maxHexDigits then .ok ("X" ++ quote (hexDigits (v.width / 4) v.value))
    else .error (.tooManyDigits (v.width / 4))
  else .ok (quote (v.bits.map symbol))

-- A single bit.
def bitLiteral (bit : Option Bool) : String := String.ofList ['\'', symbol bit, '\'']

-- A number in two's complement with its width.
def signedLiteral (v : LogicVec) : Except RenderError String :=
  if v.allDefined then .ok s!"TO_SIGNED({Text.signedDecimal v.toInt}, {v.width})"
  else .error (.mismatch (.undefinedBits v.toText "signed"))

-- An unsigned number with its width.
def unsignedLiteral (v : LogicVec) : Except RenderError String :=
  if v.allDefined then .ok s!"TO_UNSIGNED({Text.decimal v.value}, {v.width})"
  else .error (.mismatch (.undefinedBits v.toText "unsigned"))

end LogicVec

end Rtl
