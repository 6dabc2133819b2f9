import Rtl.Dialect.Operands
import Rtl.HwType

namespace Rtl.Vhdl

-- The reserved words of VHDL-93 and VHDL-2008.
def keywords : List String :=
  ["abs", "access", "after", "alias", "all", "and", "architecture", "array", "assert",
    "assume", "attribute", "begin", "block", "body", "buffer", "bus", "case", "component",
    "configuration", "constant", "context", "cover", "default", "disconnect", "downto", "else",
    "elsif", "end", "entity", "exit", "fairness", "file", "for", "force", "function",
    "generate", "generic", "group", "guarded", "if", "impure", "in", "inertial", "inout", "is",
    "label", "library", "linkage", "literal", "loop", "map", "mod", "nand", "new", "next",
    "nor", "not", "null", "of", "on", "open", "or", "others", "out", "package", "parameter",
    "port", "postponed", "procedure", "process", "property", "protected", "pure", "range",
    "record", "register", "reject", "release", "rem", "report", "restrict", "return", "rol",
    "ror", "select", "sequence", "severity", "shared", "signal", "sla", "sll", "sra", "srl",
    "strong", "subtype", "then", "to", "transport", "type", "unaffected", "units", "until",
    "use", "variable", "vmode", "vprop", "vunit", "wait", "when", "while", "with", "xnor",
    "xor"]

-- An operator on operands that are written already. There is no conditional
-- expression.
def operator (op : Operator) (operands : List String) : Except RenderError String :=
  match op with
  | .and => Operands.infixText "AND" operands
  | .or => Operands.infixText "OR" operands
  | .xor => Operands.infixText "XOR" operands
  | .not => Operands.unary operands fun a => "NOT " ++ a
  | .call => Operands.call operands
  | .concat => Operands.infixText "&" operands
  | .div => Operands.infixText "/" operands
  | .downto => Operands.infixText "DOWNTO" operands
  | .eq => Operands.infixText "=" operands
  | .ne => Operands.infixText "/=" operands
  | .event => Operands.unary operands fun a => a ++ "'EVENT"
  | .risingEdge => Operands.unary operands fun a => "RISING_EDGE(" ++ a ++ ")"
  | .fallingEdge => Operands.unary operands fun a => "FALLING_EDGE(" ++ a ++ ")"
  | .gt => Operands.infixText ">" operands
  | .ge => Operands.infixText ">=" operands
  | .le => Operands.infixText "<=" operands
  | .index => Operands.binary operands fun a b => a ++ "(" ++ b ++ ")"
  | .lt => Operands.infixText "<" operands
  | .sub => Operands.infixText "-" operands
  | .mul => Operands.infixText "*" operands
  | .add => Operands.infixText "+" operands
  | .ternary => .error (.unsupported .ternary)
  | .asSigned => Operands.unary operands fun a => "SIGNED(" ++ a ++ ")"
  | .asUnsigned => Operands.unary operands fun a => "UNSIGNED(" ++ a ++ ")"
  | .asVector => Operands.unary operands fun a => "STD_LOGIC_VECTOR(" ++ a ++ ")"
  | .pow => Operands.infixText "**" operands

def boolean (value : Bool) : String := if value then "TRUE" else "FALSE"

-- A quote inside a string is written twice.
def escapeChar (c : Char) : List Char := if c = '"' then ['"', '"'] else [c]

def stringLiteral (value : String) : String := "\"" ++ Text.escape escapeChar value ++ "\""

def vectorBase : Signedness → String
  | .plain => "STD_LOGIC_VECTOR"
  | .signed => "SIGNED"
  | .unsigned => "UNSIGNED"

-- A vector type by its highest index. No width is below one bit here.
def vectorType (width : Nat) (signedness : Signedness) : String :=
  vectorBase signedness ++ s!"({width - 1} DOWNTO 0)"

def assignment (destination source : String) : String := destination ++ " <= " ++ source ++ ";"

def timedWait (amount : Nat) (unit : String) : String := s!"WAIT FOR {amount} {unit};"

end Rtl.Vhdl
