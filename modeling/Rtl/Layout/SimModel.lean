import Rtl.Dialect.SimModel
import Rtl.Layout.Piece

namespace Rtl.Layout.SimModel

variable (indent : String)

def statements (texts : List String) : List String := body "pass" indent texts

-- The name in the first line of a written process.
def processName? (text : String) : Option String :=
  match text.toList with
  | 'd' :: 'e' :: 'f' :: ' ' :: rest => some (String.ofList (rest.takeWhile (· != '(')))
  | _ => none

-- The inside of a tuple. One item alone needs a comma after it.
def tuple : List String → String
  | [] => ""
  | [item] => item ++ ","
  | items => String.intercalate ", " items

def component (piece : ComponentPiece) : List String :=
  let deeper := indent ++ indent
  (deeper ++ "self." ++ piece.name ++ " = " ++ piece.entity ++ "(sim)") ::
    piece.portMap.map fun (port, signal) =>
      deeper ++ "self._connect(self." ++ piece.name ++ "." ++ port ++ ", self." ++ signal ++ ")"

def unit (piece : UnitPiece) : String :=
  let deeper := indent ++ indent
  let names := (piece.processes.filterMap processName?).map ("self." ++ ·)
  joinLines <|
    ["class " ++ piece.entity ++ "(SimModel):",
        indent ++ "_name = \"" ++ piece.entity ++ "\"", "",
        indent ++ "def __init__(self, sim):",
        deeper ++ "super().__init__(sim)"] ++
      piece.ports.map (fun port =>
        deeper ++ Rtl.SimModel.signalDeclaration port.name port.type none) ++
      piece.types.map (fun declaration => deeper ++ "# " ++ declaration) ++
      (piece.signals ++ piece.connections).map (deeper ++ ·) ++
      piece.components.flatMap (component indent) ++
      [deeper ++ "self._processes = (" ++ tuple names ++ ")"] ++
      piece.processes.flatMap fun text => "" :: indentAll indent [text]

def process (piece : ProcessPiece) : String :=
  joinLines <|
    ["def " ++ piece.name ++ "(self, sim):"] ++
      (if piece.sensitivity.isEmpty then []
        else [indent ++ "# sensitivity: " ++ String.intercalate ", " piece.sensitivity]) ++
      statements indent piece.lines

def branch (piece : BranchPiece) : String :=
  joinLines <|
    ["if " ++ piece.condition ++ ":"] ++
      statements indent piece.body ++
      piece.elifs.flatMap (fun (condition, texts) =>
        ("elif " ++ condition ++ ":") :: statements indent texts) ++
      (if piece.otherwise.isEmpty then [] else "else:" :: statements indent piece.otherwise)

-- The cases that have a key.
def keyedCases (cases : List (Option String × List String)) : List (String × List String) :=
  cases.filterMap fun (key, texts) => key.map fun key => (key, texts)

-- The body of the first case without a key.
def defaultBody? (cases : List (Option String × List String)) : Option (List String) :=
  (cases.find? (·.1.isNone)).map (·.2)

def test (keyword subject key : String) : String :=
  keyword ++ " (" ++ subject ++ ")._eq(" ++ key ++ "):"

-- A selection is a chain of tests with the default at the end.
def select (piece : SelectPiece) : String :=
  let default? := defaultBody? piece.cases
  match keyedCases piece.cases with
  | [] =>
      match default? with
      | some (text :: texts) => joinLines (text :: texts)
      | _ => "pass"
  | (key, texts) :: rest =>
      joinLines <|
        (test "if" piece.subject key :: statements indent texts) ++
          rest.flatMap (fun (key, texts) =>
            test "elif" piece.subject key :: statements indent texts) ++
          (match default? with
            | some texts => "else:" :: statements indent texts
            | none => [])

-- A class of the simulator's model.
def layout : Layout
  | .unit piece => unit indent piece
  | .process piece => process indent piece
  | .branch piece => branch indent piece
  | .select piece => select indent piece

end Rtl.Layout.SimModel
