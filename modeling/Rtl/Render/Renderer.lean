import Rtl.Design
import Rtl.Layout
import Rtl.Render.Literal

namespace Rtl

-- Writes one design in one dialect. It keeps the names that it gave to
-- declared types and to signals.
structure Renderer where
  dialect : Dialect
  design : Design
  timeUnit : String
  scope : Scope
  typeNames : List (TypeId × String)
  signalNames : List (SignalId × String)

namespace Renderer

-- A renderer that has named nothing yet.
def ofDesign (dialect : Dialect) (design : Design) (timeUnit : String) (scope : Scope) :
    Renderer :=
  { dialect, design, timeUnit, scope, typeNames := [], signalNames := [] }

def text (r : Renderer) (id : NameId) : Except RenderError String :=
  match r.design.names.text? id with
  | some text => .ok text
  | none => .error (.missing (.name id))

def signal (r : Renderer) (id : SignalId) : Except RenderError Signal :=
  match r.design.arch.signals.get? id with
  | some signal => .ok signal
  | none => .error (.missing (.signal id))

def type (r : Renderer) (id : TypeId) : Except RenderError HwType :=
  match r.design.types.get? id with
  | some type => .ok type
  | none => .error (.missing (.type id))

-- The name a signal was given, or else its own.
def signalName (r : Renderer) (id : SignalId) : Except RenderError String :=
  match r.signalNames.lookup id with
  | some name => .ok name
  | none => do r.text (← r.signal id).name

-- A mention of a type. An enumeration or an array that was not declared has a
-- name made from its number.
def typeText (r : Renderer) (id : TypeId) : Except RenderError String := do
  match ← r.type id with
  | .bits width signedness force =>
      return if (HwType.bits width signedness force).isScalarBit then r.dialect.bitType
        else r.dialect.vectorType width signedness
  | .boolean => return "BOOLEAN"
  | .integer => return "INTEGER"
  | .text => return "STRING"
  | .enumeration .. => return (r.typeNames.lookup id).getD s!"enumT_{id.index}"
  | .array .. => return (r.typeNames.lookup id).getD s!"arrT_{id.index}"

def exprType (r : Renderer) : Expr → Except RenderError TypeId
  | .signal id => do return (← r.signal id).type
  | .literal value => .ok value.type
  | .apply _ _ type => .ok type

end Renderer

end Rtl
