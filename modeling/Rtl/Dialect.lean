import Rtl.Dialect.SimModel
import Rtl.Dialect.Vhdl
import Rtl.Scope

namespace Rtl

-- How a declared signal is used: something drives it, or it is only read.
inductive SignalKind where
  | signal
  | constant
deriving DecidableEq, Repr

-- A signal declaration with its parts written already. A signal that is
-- neither driven nor read has no kind.
structure SignalDeclaration where
  name : String
  type : String
  default : Option String
  kind : Option SignalKind
deriving DecidableEq, Repr

-- The languages that a design can be written in: VHDL, or a model for an
-- event-driven simulator.
inductive Dialect where
  | vhdl
  | simModel
deriving DecidableEq, Repr

namespace Dialect

def name : Dialect → String
  | vhdl => "vhdl"
  | simModel => "sim_model"

def keywords : Dialect → List String
  | vhdl => Vhdl.keywords
  | simModel => SimModel.keywords

-- Whether names that differ only in case are the same.
def ignoreCase : Dialect → Bool
  | vhdl => true
  | simModel => false

def baseScope (dialect : Dialect) (reserved : List String) : Scope :=
  (Scope.ofWords dialect.keywords dialect.ignoreCase).reserve reserved

def signalRef : Dialect → String → String
  | vhdl, name => name
  | simModel, name => SimModel.signalRef name

def assignmentTarget : Dialect → String → String
  | vhdl, name => name
  | simModel, name => SimModel.assignmentTarget name

def operator : Dialect → Operator → List String → Except RenderError String
  | vhdl, op, operands => Vhdl.operator op operands
  | simModel, op, operands => SimModel.operator op operands

-- Whether the pattern of an operator already brackets an operand.
def wrapsOperand : Dialect → Operator → Nat → Bool
  | vhdl, _, _ => false
  | simModel, op, index => op == .eq && index == 0

def logicalAnd : Dialect → String
  | vhdl => " AND "
  | simModel => " and "

def boolean : Dialect → Bool → String
  | vhdl, value => Vhdl.boolean value
  | simModel, value => SimModel.boolean value

def stringLiteral : Dialect → String → String
  | vhdl, value => Vhdl.stringLiteral value
  | simModel, value => SimModel.stringLiteral value

def undefined : Dialect → String → Except RenderError String
  | vhdl, type => .error (.unsupported (.undefinedValue type))
  | simModel, _ => .ok "None"

def bitType : Dialect → String
  | vhdl => "STD_LOGIC"
  | simModel => "BIT"

def vectorType : Dialect → Nat → Signedness → String
  | vhdl, width, signedness => Vhdl.vectorType width signedness
  | simModel, width, signedness => SimModel.vectorType width signedness

def assignment : Dialect → String → String → Bool → String
  | vhdl, destination, source, _ => Vhdl.assignment destination source
  | simModel, destination, source, onEvent => SimModel.assignment destination source onEvent

-- Says that one named signal always reads from another.
def connection : Dialect → String → String → String
  | vhdl, destination, source => Vhdl.assignment destination source
  | simModel, destination, source => SimModel.connection destination source

def timedWait : Dialect → Nat → String → String
  | vhdl, amount, unit => Vhdl.timedWait amount unit
  | simModel, amount, unit => SimModel.timedWait amount unit

def waitForever : Dialect → String
  | vhdl => "WAIT;"
  | simModel => "wait"

-- Only VHDL asks for what a signal is used.
def signalDeclaration (dialect : Dialect) (declaration : SignalDeclaration) :
    Except RenderError String :=
  match dialect with
  | simModel =>
      .ok (SimModel.signalDeclaration declaration.name declaration.type declaration.default)
  | vhdl => do
      let keyword ← match declaration.kind with
        | some .signal => pure "SIGNAL"
        | some .constant => pure "CONSTANT"
        | none => throw (.unsupported (.unusedSignal declaration.name))
      let default := match declaration.default with
        | some value => " := " ++ value
        | none => ""
      return keyword ++ " " ++ declaration.name ++ " : " ++ declaration.type ++ default

end Dialect

end Rtl
