namespace Rtl

inductive Operator where
  | and
  | or
  | xor
  | not
  | call
  | concat
  | div
  | downto
  | eq
  | ne
  | event
  | risingEdge
  | fallingEdge
  | gt
  | ge
  | le
  | index
  | lt
  | sub
  | mul
  | add
  | ternary
  | asSigned
  | asUnsigned
  | asVector
  | pow
deriving DecidableEq, Repr

-- How many operands an operator takes.
inductive Arity where
  | exactly (count : Nat)
  | atLeast (count : Nat)
deriving DecidableEq, Repr

namespace Arity

def accepts : Arity → Nat → Bool
  | .exactly expected, count => count == expected
  | .atLeast least, count => least ≤ count

end Arity

namespace Operator

-- The tag under which an operator is stored and reported.
def tag : Operator → String
  | .and => "AndLog"
  | .or => "OrLog"
  | .xor => "Xor"
  | .not => "Not"
  | .call => "Call"
  | .concat => "Concat"
  | .div => "Div"
  | .downto => "DownTo"
  | .eq => "Eq"
  | .ne => "Neq"
  | .event => "Event"
  | .risingEdge => "RisingEdge"
  | .fallingEdge => "FallingEdge"
  | .gt => "GreaterThan"
  | .ge => "Ge"
  | .le => "Le"
  | .index => "Index"
  | .lt => "LowerThan"
  | .sub => "Sub"
  | .mul => "Mul"
  | .add => "Add"
  | .ternary => "Ternary"
  | .asSigned => "BitsAsSigned"
  | .asUnsigned => "BitsAsUnsigned"
  | .asVector => "BitsAsVec"
  | .pow => "Pow"

def all : List Operator :=
  [.and, .or, .xor, .not, .call, .concat, .div, .downto, .eq, .ne, .event, .risingEdge,
    .fallingEdge, .gt, .ge, .le, .index, .lt, .sub, .mul, .add, .ternary, .asSigned,
    .asUnsigned, .asVector, .pow]

def ofTag? (text : String) : Option Operator := all.find? (·.tag == text)

-- A lower number binds tighter. Casts and powers are written as calls and
-- have no number.
def precedence : Operator → Option Nat
  | .not | .event | .risingEdge | .fallingEdge | .index | .ternary | .call | .concat
  | .downto => some 1
  | .mul | .div => some 4
  | .add | .sub => some 5
  | .and => some 8
  | .xor => some 9
  | .or => some 10
  | .eq | .ne | .gt | .lt | .ge | .le => some 11
  | .asSigned | .asUnsigned | .asVector | .pow => none

-- Whether an operand built by `child` is parenthesized below `parent`.
def needsParens (child parent : Operator) : Bool :=
  match child.precedence, parent.precedence with
  | some inner, some outer => inner ≤ outer
  | _, _ => false

def arity : Operator → Arity
  | .not | .event | .risingEdge | .fallingEdge | .asSigned | .asUnsigned | .asVector =>
      .exactly 1
  | .concat | .eq | .index | .pow => .exactly 2
  | .ternary => .exactly 3
  | .call => .atLeast 1
  | .and | .or | .xor | .div | .downto | .ne | .gt | .ge | .le | .lt | .sub | .mul | .add =>
      .atLeast 2

theorem ofTag?_tag (op : Operator) : ofTag? op.tag = some op := by
  cases op <;> decide

end Operator

end Rtl
