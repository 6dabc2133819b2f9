import Rtl.Arena

namespace Rtl

-- How the bits of a vector count as a number.
inductive Signedness where
  | signed
  | unsigned
  | plain
deriving DecidableEq, Repr

-- A hardware type. A vector of one bit stays apart from a single bit by
-- `forceVector`.
inductive HwType where
  | bits (width : Nat) (signedness : Signedness) (forceVector : Bool)
  | enumeration (name : Option String) (labels : List String)
  | array (name : Option String) (element : TypeId) (size : Nat)
  | boolean
  | integer
  | text
deriving DecidableEq, Repr

namespace HwType

def bit : HwType := .bits 1 .plain false

def vector (width : Nat) : HwType := .bits width .plain (width == 1)

-- Enumerations and arrays are declared before they can be mentioned.
def needsDeclaration : HwType → Bool
  | .enumeration .. => true
  | .array .. => true
  | _ => false

def isScalarBit (type : HwType) : Bool := type == bit

end HwType

-- All types of a design. Scalar types are shared; every enumeration and every
-- array is a type of its own.
structure TypeTable where
  types : Arena .type HwType
deriving Repr

namespace TypeTable

def empty : TypeTable := ⟨.empty⟩

def size (table : TypeTable) : Nat := table.types.size

def get? (table : TypeTable) (id : TypeId) : Option HwType := table.types.get? id

-- Adds a type without looking for an equal one.
def declare (table : TypeTable) (type : HwType) : TypeId × TypeTable :=
  let (id, types) := table.types.alloc type
  (id, ⟨types⟩)

-- The identifier of a scalar type, added if it is new. A type that needs a
-- declaration is always added.
def intern (table : TypeTable) (type : HwType) : TypeId × TypeTable :=
  if type.needsDeclaration then table.declare type
  else match table.types.toList.findIdx? (· == type) with
    | some index => (⟨index⟩, table)
    | none => table.declare type

-- The plain type of the given width: a single bit for width one.
def ofWidth (table : TypeTable) (width : Nat) : TypeId × TypeTable :=
  table.intern (if width = 1 then .bit else .vector width)

-- The number of bits of a type, following at most `depth` types through array
-- elements. It is kept in 32 bits. The outer `none` is a type that does not exist
-- or contains itself.
def widthWithin (table : TypeTable) : Nat → TypeId → Option (Option Nat)
  | 0, _ => none
  | depth + 1, id =>
      match table.get? id with
      | none => none
      | some (.bits width _ _) => some (some width)
      | some .boolean => some (some 1)
      | some (.array _ element size) =>
          (table.widthWithin depth element).map (·.map (· * size % wordLimit))
      | some _ => some none

-- No chain of distinct types is longer than the table.
def bitWidth? (table : TypeTable) (id : TypeId) : Option (Option Nat) :=
  table.widthWithin table.size id

theorem get?_declare (table : TypeTable) (type : HwType) :
    (table.declare type).2.get? (table.declare type).1 = some type :=
  table.types.get?_allocWith_self fun _ => type

theorem get?_intern (table : TypeTable) (type : HwType) :
    (table.intern type).2.get? (table.intern type).1 = some type := by
  simp only [intern]
  split
  · exact table.get?_declare type
  · split
    · rename_i index found
      obtain ⟨h, hp, _⟩ := List.findIdx?_eq_some_iff_getElem.mp found
      simp only [Arena.toList, Array.length_toList] at h
      simp only [get?, Arena.get?, Array.getElem?_eq_getElem h, Option.some.injEq]
      simpa [Arena.toList] using hp
    · exact table.get?_declare type

end TypeTable

end Rtl
