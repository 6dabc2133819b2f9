import Rtl.Render.Renderer

namespace Rtl.Renderer

-- A bit vector of a type that has as many bits.
def bitsText (type : HwType) (vector : LogicVec) : Except RenderError String :=
  match type with
  | .bits _ .signed _ => vector.signedLiteral
  | .bits _ .unsigned _ => vector.unsignedLiteral
  | other =>
      if other.isScalarBit then .ok (LogicVec.bitLiteral (vector.bit 0)) else vector.bitString

def labelText (r : Renderer) (id : TypeId) (type : HwType) (index : Nat) :
    Except RenderError String := do
  match type with
  | .enumeration _ labels =>
      match labels[index]? with
      | some label => return label
      | none => throw (.unsupported (.enumLabel index (← r.typeText id)))
  | _ => throw (.mismatch (.labelOfOther index (← r.typeText id)))

-- A constant. Bits have to be as many as its type has.
def valueText (r : Renderer) (value : Value) : Except RenderError String := do
  let type ← r.type value.type
  match value.payload with
  | .bits vector =>
      match r.design.types.bitWidth? value.type with
      | none => throw (.missing (.type value.type))
      | some width =>
          if width = some vector.width then bitsText type vector
          else throw (.mismatch (.literalWidth vector.width (← r.typeText value.type)))
  | .boolean (some flag) => return r.dialect.boolean flag
  | .integer (some number) => return toString number
  | .text (some text) => return r.dialect.stringLiteral text
  | .label (some index) => r.labelText value.type type index
  | .boolean none | .integer none | .text none | .label none =>
      r.dialect.undefined (← r.typeText value.type)

-- A text that is worked out when it is asked for. What stands behind a fault is
-- never asked for: an expression can be far smaller than its text, since a
-- hidden signal is written out wherever it is read.
abbrev Pending := Unit → Except RenderError String

-- The operator at the top of an operand, also of one that is a hidden signal.
def operandOperator? (r : Renderer) : Expr → Option Operator
  | .apply op _ _ => some op
  | .literal _ => none
  | .signal id => ((r.design.arch.signals.get? id).bind Signal.alias?).bind Expr.operator?

def parenthesize (text : String) : String := "(" ++ text ++ ")"

-- An operand below an operator, in parentheses where the operators ask for them
-- and the pattern of the dialect has none.
def operandText (r : Renderer) (parent : Operator) (index : Nat) (operand : Expr)
    (text : Pending) : Except RenderError String := do
  let text ← text ()
  if r.dialect.wrapsOperand parent index then return text
  match r.operandOperator? operand with
  | some child => return if child.needsParens parent then parenthesize text else text
  | none => return text

-- One part of a condition. As a boolean, a single bit is compared with one and
-- a vector with zero.
def conditionPart (r : Renderer) (asBoolean : Bool) (part : Expr) (text : Pending) :
    Except RenderError String := do
  if !asBoolean then return ← text ()
  let id ← r.exprType part
  match ← r.type id with
  | .boolean => text ()
  | .bits width signedness force =>
      if (HwType.bits width signedness force).isScalarBit then
        r.dialect.operator .eq
          [← r.operandText .eq 0 part text, LogicVec.bitLiteral (some true)]
      else do
        let zeros ← (LogicVec.zeros width).bitString
        r.dialect.operator .ne [← r.operandText .ne 0 part text, zeros]
  | _ => throw (.unsupported (.conditionType (← r.typeText id)))

-- Whether a part of a longer condition is parenthesized.
def mixesWithAnd (part : Expr) : Bool :=
  part.operator? == some .or || part.operator? == some .xor

def conditionText (r : Renderer) (asBoolean : Bool) (parts : List (Expr × Pending)) :
    Except RenderError String := do
  if parts.isEmpty then throw (.unsupported .emptyCondition)
  let texts ← parts.mapM fun (part, text) => do
    let text ← r.conditionPart asBoolean part text
    return if 1 < parts.length && mixesWithAnd part then parenthesize text else text
  return String.intercalate r.dialect.logicalAnd texts

def applyText (r : Renderer) (op : Operator) (operands : List (Expr × Pending)) :
    Except RenderError String := do
  if !op.arity.accepts operands.length then
    throw (.unsupported (.operandCount op operands.length))
  let texts ← match op, operands with
    | .call, (.literal ⟨_, .text (some name)⟩, _) :: arguments => do
        pure (name :: (← arguments.mapM fun (_, text) => text ()))
    | .call, _ => throw (.unsupported .unnamedCall)
    | .index, _ => operands.mapM fun (_, text) => text ()
    | .ternary, condition :: branches => do
        let test ← r.conditionText true [condition]
        pure (test :: (← branches.zipIdx.mapM fun ((branch, text), index) =>
          r.operandText op (index + 1) branch text))
    | _, _ => operands.zipIdx.mapM fun ((operand, text), index) =>
        r.operandText op index operand text
  r.dialect.operator op texts

mutual

-- An expression, given how its signals are written.
def exprWith (r : Renderer) (signalText : SignalId → Except RenderError String) :
    Expr → Except RenderError String
  | .signal id => signalText id
  | .literal value => r.valueText value
  | .apply op operands _ => r.applyText op (r.exprsWith signalText operands)

def exprsWith (r : Renderer) (signalText : SignalId → Except RenderError String) :
    List Expr → List (Expr × Pending)
  | [] => []
  | e :: rest => (e, fun _ => r.exprWith signalText e) :: r.exprsWith signalText rest

end

-- A read of a signal. A hidden one is written as what it stands for, through at
-- most `depth` signals.
def signalText (r : Renderer) : Nat → SignalId → Except RenderError String
  | 0, id => .error (.missing (.signal id))
  | depth + 1, id => do
      match (← r.signal id).alias? with
      | some origin => r.exprWith (r.signalText depth) origin
      | none => return r.dialect.signalRef (← r.signalName id)

-- No chain of distinct hidden signals is longer than the list of signals.
def exprText (r : Renderer) (e : Expr) : Except RenderError String :=
  r.exprWith (r.signalText r.design.arch.signals.size) e

def withTexts (r : Renderer) (es : List Expr) : List (Expr × Pending) :=
  r.exprsWith (r.signalText r.design.arch.signals.size) es

def condition (r : Renderer) (asBoolean : Bool) (parts : List Expr) :
    Except RenderError String :=
  r.conditionText asBoolean (r.withTexts parts)

end Rtl.Renderer
