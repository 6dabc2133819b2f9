import Rtl.Render.Expr

namespace Rtl.Renderer

-- An assignment of a whole signal by an expression of the same type.
def assignmentText (r : Renderer) (destination : SignalId) (source : Expr)
    (indexes : Option (List Expr)) (onEvent : Bool) : Except RenderError String := do
  let targetType := (← r.signal destination).type
  let valueType ← r.exprType source
  let target := r.dialect.assignmentTarget (← r.signalName destination)
  let value ← r.exprText source
  if targetType ≠ valueType then
    throw (.mismatch (.assignment target value (← r.typeText targetType) (← r.typeText valueType)))
  if indexes.isSome then throw (.unsupported (.indexedAssignment target))
  return r.dialect.assignment target value onEvent

def waitText (r : Renderer) : Bool → Option Nat → Except RenderError String
  | true, some amount => .ok (r.dialect.timedWait amount r.timeUnit)
  | false, none => .ok r.dialect.waitForever
  | true, none => .error (.unsupported .timedWithoutDuration)
  | false, some _ => .error (.unsupported .untimedWithDuration)

mutual

def statement (r : Renderer) (layout : Layout) : Statement → Except RenderError String
  | .assign _ destination source indexes onEvent =>
      r.assignmentText destination source indexes onEvent
  | .branch _ condition body elifs otherwise => do
      let elifs ← r.elifs layout elifs
      let condition ← r.condition true condition
      let body ← r.statements layout body
      let otherwise ← r.statements layout otherwise
      return layout (.branch { condition, body, elifs, otherwise })
  | .select _ subject cases => do
      let cases ← r.cases layout cases
      let subject ← r.condition false [subject]
      return layout (.select { subject, cases })
  | .wait _ timed duration => r.waitText timed duration

def statements (r : Renderer) (layout : Layout) :
    List Statement → Except RenderError (List String)
  | [] => .ok []
  | s :: rest => do return (← r.statement layout s) :: (← r.statements layout rest)

def elifs (r : Renderer) (layout : Layout) :
    List (List Expr × List Statement) → Except RenderError (List (String × List String))
  | [] => .ok []
  | (condition, body) :: rest => do
      let condition ← r.condition true condition
      let body ← r.statements layout body
      return (condition, body) :: (← r.elifs layout rest)

def cases (r : Renderer) (layout : Layout) :
    List (Option Expr × List Statement) →
      Except RenderError (List (Option String × List String))
  | [] => .ok []
  | (none, body) :: rest => do
      let body ← r.statements layout body
      return (none, body) :: (← r.cases layout rest)
  | (some key, body) :: rest => do
      let key ← r.exprText key
      let body ← r.statements layout body
      return (some key, body) :: (← r.cases layout rest)

end

end Rtl.Renderer
