import Rtl.Interface.Error

namespace Rtl

namespace Forest.Row

variable {α : Type}

-- Gives a number to the member of a name, which keeps its place if it is there already.
def number (name : String) (index : Nat) : List (String × Nat) → List (String × Nat)
  | [] => [(name, index)]
  | (other, place) :: rest =>
      if other = name then (name, index) :: rest else (other, place) :: number name index rest

def addMember (name : String) (index : Nat) (row : Row α) : Row α :=
  { row with members := number name index row.members }

end Forest.Row

-- A template as it is stored: its nodes one after the other, the class itself the first,
-- each with the numbers of its parent and of its members.
structure Blueprint where
  rows : List (Forest.Row Shape)

namespace Blueprint

-- The class without members.
def ofName (className : String) : Blueprint := ⟨[⟨className, ⟨.output, 0⟩, none, []⟩]⟩

-- Puts a member without members of its own behind all nodes and enters it in its parent.
def addMember (blueprint : Blueprint) (parent : Nat) (name : String) (shape : Shape) : Blueprint :=
  let index := blueprint.rows.length
  ⟨blueprint.rows.modify parent (Forest.Row.addMember name index) ++
    [⟨name, shape, some parent, []⟩]⟩

-- Copies what is below a node of another blueprint under one of this; `none` if this does
-- not come to an end on the given number of levels, or if a node does not exist.
def copyBelow (source : Blueprint) : Nat → Blueprint → Nat → Nat → Option Blueprint
  | 0, _, _, _ => none
  | levels + 1, blueprint, target, node => do
      let row ← source.rows[node]?
      row.members.foldlM (fun blueprint (name, number) => do
        let member ← source.rows[number]?
        let index := blueprint.rows.length
        source.copyBelow levels (blueprint.addMember target name member.item) index number)
        blueprint

-- The name of the first member, by which instances are looked for; empty for a class
-- without members. A nested interface cannot be first.
def firstMember? (blueprint : Blueprint) : Option (Except InterfaceError String) := do
  let root ← blueprint.rows[0]?
  match root.members with
  | [] => return .ok ""
  | (name, number) :: _ =>
      let member ← blueprint.rows[number]?
      if member.members.isEmpty then return .ok name
      else return .error (.misconfigured (.nestedFirst root.name name))

end Blueprint

-- The blueprints made so far, one for each class name.
structure Blueprints where
  filed : List (String × Blueprint)

namespace Blueprints

def empty : Blueprints := ⟨[]⟩

def size (blueprints : Blueprints) : Nat := blueprints.filed.length

def find? (blueprints : Blueprints) (className : String) : Option Blueprint :=
  blueprints.filed.lookup className

-- Files a blueprint under a class name, in place of an earlier one.
def insert (blueprints : Blueprints) (className : String) (blueprint : Blueprint) : Blueprints :=
  ⟨(className, blueprint) :: blueprints.filed.filter (·.1 != className)⟩

mutual

-- The blueprint of a class: the one on file for its name, or else one made now and filed,
-- after those of the classes nested in it; `none` if a copy has no end.
def build? (blueprints : Blueprints) (cls : InterfaceClass) : Option (Blueprint × Blueprints) :=
  match blueprints.find? cls.name with
  | some blueprint => some (blueprint, blueprints)
  | none => do
      let (blueprint, blueprints) ← blueprints.addMembers? (.ofName cls.name) cls.merged
      return (blueprint, blueprints.insert cls.name blueprint)
termination_by 2 * cls.weight
decreasing_by
  have := InterfaceClass.weightOfMembers_merged cls
  omega

-- Adds members to the first node of a blueprint.
def addMembers? (blueprints : Blueprints) (blueprint : Blueprint) (members : List Member) :
    Option (Blueprint × Blueprints) :=
  match members with
  | [] => some (blueprint, blueprints)
  | .leaf name direction width :: rest =>
      blueprints.addMembers? (blueprint.addMember 0 name ⟨direction, width⟩) rest
  | .nested name direction cls :: rest => do
      let (nested, blueprints) ← blueprints.build? cls
      let index := blueprint.rows.length
      let blueprint ← nested.copyBelow nested.rows.length
        (blueprint.addMember 0 name ⟨direction, 0⟩) index 0
      blueprints.addMembers? blueprint rest
termination_by 2 * InterfaceClass.weightOfMembers members + 1
decreasing_by
  all_goals
    simp only [InterfaceClass.weightOfMembers, InterfaceClass.weightOfMember]
    omega

end

end Blueprints

end Rtl
