import Rtl.Json.Value
import Rtl.Statement

namespace Rtl

namespace Operator

def toJson (op : Operator) : Json := .text op.tag

def ofJson? (json : Json) : Option Operator := do
  let (name, content) ← json.variant?
  Json.unit? (← Operator.ofTag? name) content

end Operator

namespace Expr

mutual

def toJson : Expr → Json
  | .signal id => .ofVariant "Signal" (.ofId id)
  | .literal value => .ofVariant "Literal" value.toJson
  | .apply op operands type =>
      .ofVariant "Op" <| .object [("operator", op.toJson),
        ("operands", .array (toJsonAll operands)), ("ty", .ofId type)]

def toJsonAll : List Expr → List Json
  | [] => []
  | e :: rest => e.toJson :: toJsonAll rest

end

-- Reads an expression through at most `depth` levels of the document.
def ofJsonWithin? : Nat → Json → Option Expr
  | 0, _ => none
  | depth + 1, json => do
      match ← json.variant? with
      | ("Signal", some content) => return .signal (← content.id?)
      | ("Literal", some content) => return .literal (← Value.ofJson? content)
      | ("Op", some content) =>
          let [op, operands, type] ← content.fields? ["operator", "operands", "ty"] | none
          return .apply (← Json.required Operator.ofJson? op)
            (← Json.required (Json.list? (ofJsonWithin? depth)) operands)
            (← Json.required Json.id? type)
      | _ => none

def ofJson? (json : Json) : Option Expr := ofJsonWithin? json.depth json

end Expr

namespace Statement

mutual

def toJson : Statement → Json
  | .assign id destination source indexes onEvent =>
      .ofVariant "Assignment" <| .object [("id", .ofId id), ("dst", .ofId destination),
        ("src", source.toJson), ("indexes", .ofOption (.ofList Expr.toJson) indexes),
        ("is_event_dependent", .bool onEvent)]
  | .branch id condition body elifs otherwise =>
      .ofVariant "If" <| .object [("id", .ofId id), ("cond", .ofList Expr.toJson condition),
        ("if_true", .array (toJsonAll body)), ("elifs", .array (toJsonElifs elifs)),
        ("if_false", .array (toJsonAll otherwise))]
  | .select id subject cases =>
      .ofVariant "Switch" <| .object [("id", .ofId id), ("switch_on", subject.toJson),
        ("cases", .array (toJsonCases cases))]
  | .wait id timed duration =>
      .ofVariant "Wait" <| .object [("id", .ofId id), ("is_time_wait", .bool timed),
        ("wait_for", .ofOption .ofNat duration)]

def toJsonAll : List Statement → List Json
  | [] => []
  | s :: rest => s.toJson :: toJsonAll rest

def toJsonElifs : List (List Expr × List Statement) → List Json
  | [] => []
  | (condition, body) :: rest =>
      .array [.ofList Expr.toJson condition, .array (toJsonAll body)] :: toJsonElifs rest

def toJsonCases : List (Option Expr × List Statement) → List Json
  | [] => []
  | (key, body) :: rest =>
      .array [.ofOption Expr.toJson key, .array (toJsonAll body)] :: toJsonCases rest

end

-- Reads a statement through at most `depth` levels of the document.
def ofJsonWithin? : Nat → Json → Option Statement
  | 0, _ => none
  | depth + 1, json => do
      match ← json.variant? with
      | ("Assignment", some content) =>
          let [id, destination, source, indexes, onEvent] ←
            content.named? ["id", "dst", "src", "indexes", "is_event_dependent"] | none
          return .assign (← Json.required Json.id? id) (← Json.required Json.id? destination)
            (← Json.required Expr.ofJson? source)
            (← Json.optional (Json.list? Expr.ofJson?) indexes)
            (← Json.required Json.bool? onEvent)
      | ("If", some content) =>
          let [id, condition, body, elifs, otherwise] ←
            content.named? ["id", "cond", "if_true", "elifs", "if_false"] | none
          return .branch (← Json.required Json.id? id)
            (← Json.required (Json.list? Expr.ofJson?) condition)
            (← Json.required (Json.list? (ofJsonWithin? depth)) body)
            (← Json.required (Json.list? (Json.pair? (Json.list? Expr.ofJson?)
              (Json.list? (ofJsonWithin? depth)))) elifs)
            (← Json.required (Json.list? (ofJsonWithin? depth)) otherwise)
      | ("Switch", some content) =>
          let [id, subject, cases] ← content.named? ["id", "switch_on", "cases"] | none
          return .select (← Json.required Json.id? id) (← Json.required Expr.ofJson? subject)
            (← Json.required (Json.list? (Json.pair? (Json.option? Expr.ofJson?)
              (Json.list? (ofJsonWithin? depth)))) cases)
      | ("Wait", some content) =>
          let [id, timed, duration] ← content.named? ["id", "is_time_wait", "wait_for"] | none
          return .wait (← Json.required Json.id? id) (← Json.required Json.bool? timed)
            (← Json.optional Json.long? duration)
      | _ => none

def ofJson? (json : Json) : Option Statement := ofJsonWithin? json.depth json

end Statement

end Rtl
