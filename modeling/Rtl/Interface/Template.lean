import Rtl.Forest
import Rtl.Interface.Class

namespace Rtl

-- What a template says about a member. The width is zero above leaves.
structure Shape where
  masterDirection : Direction
  width : Nat
deriving DecidableEq, Repr

-- An interface class with everything inherited and nested written out.
structure Template where
  className : String
  members : Forest Shape
deriving DecidableEq, Repr

namespace Template

-- The whole tree with the class itself at the root.
def tree (template : Template) : Forest Shape :=
  .cons template.className ⟨.output, 0⟩ template.members .nil

end Template

-- The templates made so far, one for each class name.
structure Registry where
  templates : List (String × Template)
deriving Repr

namespace Registry

def empty : Registry := ⟨[]⟩

def size (registry : Registry) : Nat := registry.templates.length

def find? (registry : Registry) (className : String) : Option Template :=
  registry.templates.lookup className

-- Files a template under its class name, in place of an earlier one.
def insert (registry : Registry) (template : Template) : Registry :=
  let others := registry.templates.filter (·.1 != template.className)
  ⟨(template.className, template) :: others⟩

mutual

-- The template of a class: the one on file for its name, or else one made now
-- and filed, after those of the classes nested in it.
def build (registry : Registry) (cls : InterfaceClass) : Template × Registry :=
  match registry.find? cls.name with
  | some template => (template, registry)
  | none =>
      let (members, registry) := registry.buildMembers cls.merged
      let template := ⟨cls.name, members⟩
      (template, registry.insert template)
termination_by 2 * cls.weight
decreasing_by
  have := InterfaceClass.weightOfMembers_merged cls
  omega

def buildMembers (registry : Registry) (members : List Member) : Forest Shape × Registry :=
  match members with
  | [] => (.nil, registry)
  | .leaf name direction width :: rest =>
      let (after, registry) := registry.buildMembers rest
      (.cons name ⟨direction, width⟩ .nil after, registry)
  | .nested name direction cls :: rest =>
      let (template, registry) := registry.build cls
      let (after, registry) := registry.buildMembers rest
      (.cons name ⟨direction, 0⟩ template.members after, registry)
termination_by 2 * InterfaceClass.weightOfMembers members + 1
decreasing_by
  all_goals
    simp only [InterfaceClass.weightOfMembers, InterfaceClass.weightOfMember]
    omega

end

theorem find?_insert_self (registry : Registry) (template : Template) :
    (registry.insert template).find? template.className = some template := by
  simp [insert, find?]

theorem build_of_find? {registry : Registry} {cls : InterfaceClass} {template : Template}
    (h : registry.find? cls.name = some template) : registry.build cls = (template, registry) := by
  rw [build]
  simp only [h]

theorem find?_build (registry : Registry) (cls : InterfaceClass) :
    (registry.build cls).2.find? cls.name = some (registry.build cls).1 := by
  rw [build]
  split
  · rename_i hfound
    exact hfound
  · exact find?_insert_self _ ⟨cls.name, _⟩

-- A class that was built once is on file.
theorem build_build (registry : Registry) (cls : InterfaceClass) :
    (registry.build cls).2.build cls = registry.build cls :=
  build_of_find? (registry.find?_build cls)

end Registry

end Rtl
