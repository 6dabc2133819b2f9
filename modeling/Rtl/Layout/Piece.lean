import Rtl.Entity
import Rtl.Text

namespace Rtl

structure PortPiece where
  name : String
  direction : Direction
  type : String
deriving DecidableEq, Repr

-- A component with the names of its ports and of the signals on them.
structure ComponentPiece where
  name : String
  entity : String
  portMap : List (String × String)
deriving DecidableEq, Repr

structure UnitPiece where
  entity : String
  architecture : String
  ports : List PortPiece
  types : List String
  signals : List String
  connections : List String
  components : List ComponentPiece
  processes : List String
deriving DecidableEq, Repr

structure ProcessPiece where
  name : String
  sensitivity : List String
  lines : List String
deriving DecidableEq, Repr

structure BranchPiece where
  condition : String
  body : List String
  elifs : List (String × List String)
  otherwise : List String
deriving DecidableEq, Repr

-- A case without a key is the default.
structure SelectPiece where
  subject : String
  cases : List (Option String × List String)
deriving DecidableEq, Repr

-- A compound part of the text whose parts are written already.
inductive Piece where
  | unit (piece : UnitPiece)
  | process (piece : ProcessPiece)
  | branch (piece : BranchPiece)
  | select (piece : SelectPiece)
deriving DecidableEq, Repr

abbrev Layout := Piece → String

namespace Layout

def indentLine (indent line : String) : String :=
  if line.isEmpty then "" else indent ++ line

-- The lines of some texts, each further in. Empty lines stay empty.
def indentAll (indent : String) (texts : List String) : List String :=
  (texts.flatMap Text.lines).map (indentLine indent)

-- The lines of a body; an empty one gets a placeholder.
def body (placeholder indent : String) (texts : List String) : List String :=
  if texts.isEmpty then [indent ++ placeholder] else indentAll indent texts

def joinLines (lines : List String) : String := String.intercalate "\n" lines

-- The items with a separator after each but the last.
def separated (separator : String) : List String → List String
  | [] => []
  | [item] => [item]
  | item :: rest => (item ++ separator) :: separated separator rest

end Layout

end Rtl
