import Rtl.Id

namespace Rtl

-- A document in the data format in which designs are stored. A number that is
-- not an integer is only known to be one.
inductive Json where
  | null
  | bool (value : Bool)
  | int (value : Int)
  | fraction
  | text (value : String)
  | array (items : List Json)
  | object (fields : List (String × Json))
deriving Repr

namespace Json

mutual

def depth : Json → Nat
  | array items => 1 + depthOfItems items
  | object fields => 1 + depthOfFields fields
  | _ => 1

def depthOfItems : List Json → Nat
  | [] => 0
  | item :: rest => max item.depth (depthOfItems rest)

def depthOfFields : List (String × Json) → Nat
  | [] => 0
  | (_, item) :: rest => max item.depth (depthOfFields rest)

end

-- The fields of an object, one entry for each name. Some may be missing, but none
-- may be there twice; others do not count.
def named? (names : List String) : Json → Option (List (Option Json))
  | object fields =>
      if names.all fun name => (fields.map (·.1)).count name ≤ 1 then
        some (names.map fun name => fields.lookup name)
      else none
  | _ => none

-- A record: its fields by name, or all of them in order in an array.
def fields? (names : List String) : Json → Option (List (Option Json))
  | array items => if items.length = names.length then some (items.map some) else none
  | other => other.named? names

-- A choice: its name alone, or the only field of an object with what it holds.
def variant? : Json → Option (String × Option Json)
  | text name => some (name, none)
  | object [(name, content)] => some (name, some content)
  | _ => none

-- A choice that holds nothing.
def unit? {α : Type} (value : α) : Option Json → Option α
  | none => some value
  | some null => some value
  | some _ => none

def nat? (limit : Nat) : Json → Option Nat
  | int value => if 0 ≤ value ∧ value < limit then some value.toNat else none
  | _ => none

def longLimit : Nat := 1 <<< 64

def signedLimit : Nat := 1 <<< 63

def word? : Json → Option Nat := nat? wordLimit

def long? : Json → Option Nat := nat? longLimit

def signed? : Json → Option Int
  | int value => if -(signedLimit : Int) ≤ value ∧ value < signedLimit then some value else none
  | _ => none

def bool? : Json → Option Bool
  | bool value => some value
  | _ => none

def text? : Json → Option String
  | text value => some value
  | _ => none

def list? {α : Type} (read : Json → Option α) : Json → Option (List α)
  | array items => items.mapM read
  | _ => none

def pair? {α β : Type} (first : Json → Option α) (second : Json → Option β) :
    Json → Option (α × β)
  | array [a, b] => do return (← first a, ← second b)
  | _ => none

-- What may be missing, also inside a document.
def option? {α : Type} (read : Json → Option α) : Json → Option (Option α)
  | null => some none
  | other => (read other).map some

def required {α : Type} (read : Json → Option α) (field : Option Json) : Option α :=
  field.bind read

def optional {α : Type} (read : Json → Option α) : Option Json → Option (Option α)
  | none => some none
  | some found => option? read found

def ofNat (value : Nat) : Json := int value

def ofOption {α : Type} (write : α → Json) : Option α → Json
  | none => null
  | some value => write value

def ofList {α : Type} (write : α → Json) (values : List α) : Json := array (values.map write)

def ofPair {α β : Type} (first : α → Json) (second : β → Json) (pair : α × β) : Json :=
  array [first pair.1, second pair.2]

-- A choice with what it holds.
def ofVariant (name : String) (content : Json) : Json := object [(name, content)]

def ofId {kind : Kind} (id : Id kind) : Json := ofNat id.index

def id? {kind : Kind} (json : Json) : Option (Id kind) := json.word?.map Id.mk

end Json

end Rtl
