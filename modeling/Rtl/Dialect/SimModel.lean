import Rtl.Dialect.Operands
import Rtl.HwType

namespace Rtl.SimModel

-- The words of the model's language and the names it keeps for itself.
def keywords : List String :=
  ["False", "None", "True", "and", "as", "assert", "async", "await", "break", "class",
    "continue", "def", "del", "elif", "else", "except", "finally", "for", "from", "global",
    "if", "import", "in", "is", "lambda", "nonlocal", "not", "or", "pass", "raise", "return",
    "try", "while", "with", "yield", "sim", "self"]

-- A read sees the value that the signal had in the step before.
def signalRef (name : String) : String := "self." ++ name ++ "._oldVal"

def assignmentTarget (name : String) : String := "self." ++ name

-- An operator on operands that are written already.
def operator (op : Operator) (operands : List String) : Except RenderError String :=
  match op with
  | .and => Operands.infixText "&" operands
  | .or => Operands.infixText "|" operands
  | .xor => Operands.infixText "^" operands
  | .not => Operands.unary operands fun a => "~" ++ a
  | .call => Operands.call operands
  | .concat => Operands.binary operands fun a b => "Concat(" ++ a ++ ", " ++ b ++ ")"
  | .div => Operands.infixText "//" operands
  | .downto => Operands.infixText ":" operands
  | .eq => Operands.binary operands fun a b => "(" ++ a ++ ")._eq(" ++ b ++ ")"
  | .ne => Operands.infixText "!=" operands
  | .event => Operands.unary operands fun a => a ++ "._hasEvent(sim)"
  | .risingEdge => Operands.unary operands fun a => a ++ "._onRisingEdge(sim)"
  | .fallingEdge => Operands.unary operands fun a => a ++ "._onFallingEdge(sim)"
  | .gt => Operands.infixText ">" operands
  | .ge => Operands.infixText ">=" operands
  | .le => Operands.infixText "<=" operands
  | .index => Operands.binary operands fun a b => a ++ "[" ++ b ++ "]"
  | .lt => Operands.infixText "<" operands
  | .sub => Operands.infixText "-" operands
  | .mul => Operands.infixText "*" operands
  | .add => Operands.infixText "+" operands
  | .ternary => Operands.ternary operands fun c a b => a ++ " if " ++ c ++ " else " ++ b
  | .asSigned => Operands.unary operands fun a => a ++ "._signed()"
  | .asUnsigned => Operands.unary operands fun a => a ++ "._unsigned()"
  | .asVector => Operands.unary operands fun a => a ++ "._vec()"
  | .pow => Operands.binary operands fun a b => "pow(" ++ a ++ ", " ++ b ++ ")"

def boolean (value : Bool) : String := if value then "True" else "False"

-- A backslash goes before each backslash and each quote inside a string.
def escapeChar (c : Char) : List Char := if c = '\\' ∨ c = '"' then ['\\', c] else [c]

def stringLiteral (value : String) : String := "\"" ++ Text.escape escapeChar value ++ "\""

def signMark : Signedness → String
  | .plain => "None"
  | .signed => "True"
  | .unsigned => "False"

def vectorType (width : Nat) (signedness : Signedness) : String :=
  s!"vecT({width}, " ++ signMark signedness ++ ")"

def assignment (destination source : String) (onEvent : Bool) : String :=
  "yield (" ++ destination ++ ", mkUpdater(" ++ source ++ "), " ++ boolean onEvent ++ ")"

def connection (destination source : String) : String :=
  "self._connect(self." ++ destination ++ ", self." ++ source ++ ")"

def timedWait (amount : Nat) (unit : String) : String := s!"wait for {amount} {unit}"

def signalDeclaration (name type : String) (default : Option String) : String :=
  "self." ++ name ++ " = mkSig(sim, \"" ++ name ++ "\", " ++ type ++ ", " ++
    default.getD "None" ++ ")"

end Rtl.SimModel
