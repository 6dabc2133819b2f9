import Rtl.Operator
import Rtl.Id

namespace Rtl

-- What a design mentions although it is not there.
inductive Missing where
  | name (id : NameId)
  | type (id : TypeId)
  | signal (id : SignalId)
  | process (id : ProcessId)
  | port (id : PortId)
  | operand (index : Nat)
deriving DecidableEq, Repr

-- What a target language cannot say. Types and names are given as written.
inductive Unsupported where
  | operandCount (operator : Operator) (count : Nat)
  | unnamedCall
  | ternary
  | undefinedValue (type : String)
  | enumLabel (index : Nat) (type : String)
  | emptyCondition
  | conditionType (type : String)
  | indexedAssignment (target : String)
  | timedWithoutDuration
  | untimedWithDuration
  | typeDeclaration (type : String)
  | unusedSignal (name : String)
  | inoutBinding (signal port : String)
deriving DecidableEq, Repr

namespace Unsupported

def message : Unsupported → String
  | .operandCount operator count => s!"{operator.tag} with {count} operands"
  | .unnamedCall => "call without a function name"
  | .ternary => "ternary expression in vhdl dialect"
  | .undefinedValue type => s!"undefined {type} value in vhdl dialect"
  | .enumLabel index type => s!"enum label {index} of {type}"
  | .emptyCondition => "empty condition"
  | .conditionType type => s!"condition of type {type}"
  | .indexedAssignment target => s!"indexed assignment to {target}"
  | .timedWithoutDuration => "timed wait without a duration"
  | .untimedWithDuration => "duration on a wait that is not timed"
  | .typeDeclaration type => s!"declaration of type {type}"
  | .unusedSignal name => s!"signal {name} is declared but not used"
  | .inoutBinding signal port => s!"binding signal {signal} to inout port {port}"

end Unsupported

-- What does not fit together. Types, names and values are given as written.
inductive Mismatch where
  | literalWidth (width : Nat) (type : String)
  | labelOfOther (index : Nat) (type : String)
  | undefinedBits (bits kind : String)
  | assignment (target value targetType valueType : String)
deriving DecidableEq, Repr

namespace Mismatch

def message : Mismatch → String
  | .literalWidth width type => s!"{width}-bit literal for type {type}"
  | .labelOfOther index type => s!"enum label {index} on non-enum type {type}"
  | .undefinedBits bits kind =>
      s!"value {bits} can not be serialized as a {kind} literal because not all bits are valid"
  | .assignment target value targetType valueType =>
      s!"{target} <= {value} is not a valid assignment because types are different " ++
        s!"({targetType}; {valueType})"

end Mismatch

-- Why something cannot be written. A missing part is no fault of the target
-- language but of whoever built the design, and a bit string can have too many
-- digits in any language.
inductive RenderError where
  | unsupported (construct : Unsupported)
  | mismatch (cause : Mismatch)
  | missing (part : Missing)
  | tooManyDigits (count : Nat)
deriving DecidableEq, Repr

namespace RenderError

def message : RenderError → String
  | .unsupported construct => "unsupported construct: " ++ construct.message
  | .mismatch cause => "type mismatch: " ++ cause.message
  | .missing _ => "missing part"
  | .tooManyDigits count => s!"{count} hexadecimal digits"

end RenderError

end Rtl
