import Rtl.Arena
import Rtl.Json.Basic
import Rtl.Value

namespace Rtl

namespace LogicVec

-- The digits of a number whose base is the word limit, the lowest one first,
-- without zeros at the high end.
def limbs (value : Nat) : List Nat :=
  if value = 0 then [] else value % wordLimit :: limbs (value / wordLimit)
termination_by value
decreasing_by
  apply Nat.div_lt_self
  · omega
  · decide

def ofLimbs : List Nat → Nat
  | [] => 0
  | limb :: rest => limb + wordLimit * ofLimbs rest

theorem ofLimbs_limbs (value : Nat) : ofLimbs (limbs value) = value := by
  induction value using limbs.induct with
  | case1 => simp [limbs, ofLimbs]
  | case2 value h ih =>
      rw [limbs, if_neg h, ofLimbs, ih]
      exact Nat.mod_add_div value wordLimit

def toJson (v : LogicVec) : Json :=
  .object [("width", .ofNat v.width), ("val", .ofList .ofNat (limbs v.value)),
    ("vld", .ofList .ofNat (limbs v.defined))]

-- Reads a vector as it stands; nothing is dropped from its numbers.
def ofJson? (json : Json) : Option LogicVec := do
  let [width, value, defined] ← json.fields? ["width", "val", "vld"] | none
  return {
    width := ← Json.required Json.word? width
    value := ofLimbs (← Json.required (Json.list? Json.word?) value)
    defined := ofLimbs (← Json.required (Json.list? Json.word?) defined) }

end LogicVec

namespace Arena

variable {kind : Kind} {α : Type}

def toJson (write : α → Json) (arena : Arena kind α) : Json :=
  .object [("items", .ofList write arena.toList)]

def ofJson? (read : Json → Option α) (json : Json) : Option (Arena kind α) := do
  let [items] ← json.fields? ["items"] | none
  return ⟨(← Json.required (Json.list? read) items).toArray⟩

end Arena

namespace Signedness

def toJson : Signedness → Json
  | .signed => .text "Signed"
  | .unsigned => .text "Unsigned"
  | .plain => .text "None"

def ofJson? (json : Json) : Option Signedness := do
  match ← json.variant? with
  | ("Signed", content) => Json.unit? .signed content
  | ("Unsigned", content) => Json.unit? .unsigned content
  | ("None", content) => Json.unit? .plain content
  | _ => none

end Signedness

namespace HwType

def toJson : HwType → Json
  | .bits width signedness force =>
      .ofVariant "Bits" <| .object [("width", .ofNat width), ("signedness", signedness.toJson),
        ("force_vector", .bool force)]
  | .enumeration name labels =>
      .ofVariant "Enum" <| .object
        [("name", .ofOption .text name), ("labels", .ofList .text labels)]
  | .array name element size =>
      .ofVariant "Array" <| .object [("name", .ofOption .text name), ("element", .ofId element),
        ("size", .ofNat size)]
  | .boolean => .text "Boolean"
  | .integer => .text "Integer"
  | .text => .text "String"

def ofJson? (json : Json) : Option HwType := do
  match ← json.variant? with
  | ("Bits", some content) =>
      let [width, signedness, force] ← content.named? ["width", "signedness", "force_vector"]
        | none
      return .bits (← Json.required Json.word? width)
        (← Json.required Signedness.ofJson? signedness) (← Json.required Json.bool? force)
  | ("Enum", some content) =>
      let [name, labels] ← content.named? ["name", "labels"] | none
      return .enumeration (← Json.optional Json.text? name)
        (← Json.required (Json.list? Json.text?) labels)
  | ("Array", some content) =>
      let [name, element, size] ← content.named? ["name", "element", "size"] | none
      return .array (← Json.optional Json.text? name) (← Json.required Json.id? element)
        (← Json.required Json.word? size)
  | ("Boolean", content) => Json.unit? .boolean content
  | ("Integer", content) => Json.unit? .integer content
  | ("String", content) => Json.unit? .text content
  | _ => none

end HwType

namespace TypeTable

def toJson (table : TypeTable) : Json :=
  .object [("types", .ofList HwType.toJson table.types.toList)]

def ofJson? (json : Json) : Option TypeTable := do
  let [types] ← json.fields? ["types"] | none
  return ⟨⟨(← Json.required (Json.list? HwType.ofJson?) types).toArray⟩⟩

end TypeTable

namespace Payload

def toJson : Payload → Json
  | .bits vector => .ofVariant "Bits" vector.toJson
  | .boolean value => .ofVariant "Bool" (.ofOption .bool value)
  | .integer value => .ofVariant "Int" (.ofOption .int value)
  | .text value => .ofVariant "Str" (.ofOption .text value)
  | .label index => .ofVariant "Enum" (.ofOption .ofNat index)

def ofJson? (json : Json) : Option Payload := do
  match ← json.variant? with
  | ("Bits", some content) => return .bits (← LogicVec.ofJson? content)
  | ("Bool", some content) => return .boolean (← Json.option? Json.bool? content)
  | ("Int", some content) => return .integer (← Json.option? Json.signed? content)
  | ("Str", some content) => return .text (← Json.option? Json.text? content)
  | ("Enum", some content) => return .label (← Json.option? Json.word? content)
  | _ => none

end Payload

namespace Value

def toJson (value : Value) : Json :=
  .object [("ty", .ofId value.type), ("data", value.payload.toJson)]

def ofJson? (json : Json) : Option Value := do
  let [type, payload] ← json.fields? ["ty", "data"] | none
  return ⟨← Json.required Json.id? type, ← Json.required Payload.ofJson? payload⟩

end Value

end Rtl
