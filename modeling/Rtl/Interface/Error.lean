import Rtl.Interface.Node

namespace Rtl

-- Why an interface does not fit the ports it was matched against.
inductive Incompatible where
  | missing (name : String)
  | ambiguous (count : Nat) (name : String)
  | mixedSides (name : String)
deriving DecidableEq, Repr

namespace Incompatible

def message : Incompatible → String
  | .missing name => s!"missing {name}"
  | .ambiguous count name => s!"{count} ports match {name}"
  | .mixedSides name => "direction mismatch in `" ++ name ++ "`"

end Incompatible

-- Why an interface cannot be synthesized as it is set up.
inductive Misconfigured where
  | nestedFirst (className member : String)
  | noMember (source member destination : String)
  | undirected (path : String) (side : Side) (direction : Direction)
  | externalMaster (name : String)
  | noSignal (name : String)
deriving DecidableEq, Repr

namespace Misconfigured

def message : Misconfigured → String
  | .nestedFirst className member =>
      "`" ++ className ++ "` starts with nested member `" ++ member ++
        "`; only one level can be matched by name"
  | .noMember source member destination =>
      "`" ++ source ++ "` has no member `" ++ member ++ "` to drive `" ++ destination ++ "`"
  | .undirected path side direction =>
      "`" ++ path ++ "` is " ++ side.tag ++ " with master direction " ++ direction.tag
  | .externalMaster name =>
      "external `" ++ name ++ "` is driven from inside but is not a slave"
  | .noSignal name => "no backing signal for `" ++ name ++ "`"

end Misconfigured

-- What goes wrong in interface synthesis.
inductive InterfaceError where
  | incompatible (cause : Incompatible)
  | misconfigured (cause : Misconfigured)
  | unknownNode (id : NodeId)
deriving DecidableEq, Repr

namespace InterfaceError

def message : InterfaceError → String
  | .incompatible cause => "incompatible interface: " ++ cause.message
  | .misconfigured cause => "interface configuration error: " ++ cause.message
  | .unknownNode id => s!"unknown interface node {id.index}"

end InterfaceError

namespace Template

-- The name of the first member, by which instances are looked for; empty for a
-- class without members. A nested interface cannot be first.
def firstMember (template : Template) : Except InterfaceError String :=
  match template.members with
  | .nil => .ok ""
  | .cons name _ .nil _ => .ok name
  | .cons name _ _ _ => .error (.misconfigured (.nestedFirst template.className name))

end Template

end Rtl
