import Rtl.Json.Architecture

namespace Rtl

-- Everything that can be stored on its own.
inductive Stored where
  | vector (vector : LogicVec)
  | name (id : NameId)
  | signalId (id : SignalId)
  | type (type : HwType)
  | types (table : TypeTable)
  | value (value : Value)
  | expr (expr : Expr)
  | statement (statement : Statement)
  | signal (signal : Signal)
  | process (process : Process)
  | entity (entity : Entity)
  | architecture (arch : Architecture)

namespace Stored

def toJson : Stored → Json
  | .vector v => v.toJson
  | .name id => .ofId id
  | .signalId id => .ofId id
  | .type t => t.toJson
  | .types table => table.toJson
  | .value v => v.toJson
  | .expr e => e.toJson
  | .statement s => s.toJson
  | .signal s => s.toJson
  | .process p => p.toJson
  | .entity e => e.toJson
  | .architecture arch => arch.toJson

-- Reads a document as a thing of the given kind.
def ofJson? (kind : String) (json : Json) : Option Stored :=
  match kind with
  | "BitVec" => (LogicVec.ofJson? json).map vector
  | "Ident" => json.id?.map name
  | "SignalId" => json.id?.map signalId
  | "HdlType" => (HwType.ofJson? json).map type
  | "TypeDb" => (TypeTable.ofJson? json).map types
  | "Value" => (Value.ofJson? json).map value
  | "Expr" => (Expr.ofJson? json).map expr
  | "Statement" => (Statement.ofJson? json).map statement
  | "Signal" => (Signal.ofJson? json).map signal
  | "Process" => (Process.ofJson? json).map process
  | "Entity" => (Entity.ofJson? json).map entity
  | "Architecture" => (Architecture.ofJson? json).map architecture
  | _ => none

end Stored

end Rtl
