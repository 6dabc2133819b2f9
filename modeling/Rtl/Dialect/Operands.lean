import Rtl.Render.Error
import Rtl.Text

namespace Rtl.Operands

-- The operands with an operator between them.
def infixText (symbol : String) (operands : List String) : Except RenderError String :=
  .ok (String.intercalate (" " ++ symbol ++ " ") operands)

-- A pattern over the first operand.
def unary (operands : List String) (write : String → String) : Except RenderError String :=
  match operands with
  | a :: _ => .ok (write a)
  | [] => .error (.missing (.operand 0))

-- A pattern over the first two operands.
def binary (operands : List String) (write : String → String → String) :
    Except RenderError String :=
  match operands with
  | a :: b :: _ => .ok (write a b)
  | few => .error (.missing (.operand few.length))

-- A pattern over the first three operands.
def ternary (operands : List String) (write : String → String → String → String) :
    Except RenderError String :=
  match operands with
  | a :: b :: c :: _ => .ok (write a b c)
  | few => .error (.missing (.operand few.length))

-- A call of the first operand on the others.
def call (operands : List String) : Except RenderError String :=
  match operands with
  | name :: arguments => .ok (name ++ "(" ++ String.intercalate ", " arguments ++ ")")
  | [] => .error (.missing (.operand 0))

end Rtl.Operands
