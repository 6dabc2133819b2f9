import Rtl.Layout.Piece

namespace Rtl.Layout.Vhdl

variable (indent : String)

def direction : Direction → String
  | .input => "IN"
  | .output => "OUT"
  | .inout => "INOUT"

def port (piece : PortPiece) : String :=
  indent ++ indent ++ piece.name ++ " : " ++ direction piece.direction ++ " " ++ piece.type

def ports (pieces : List PortPiece) : List String :=
  if pieces.isEmpty then []
  else [indent ++ "PORT ("] ++ separated ";" (pieces.map (port indent)) ++ [indent ++ ");"]

def component (piece : ComponentPiece) : List String :=
  let head := indent ++ piece.name ++ ": ENTITY work." ++ piece.entity
  let deeper := indent ++ indent
  if piece.portMap.isEmpty then [head ++ ";"]
  else
    [head, deeper ++ "PORT MAP ("] ++
      separated "," (piece.portMap.map fun (port, signal) =>
        deeper ++ indent ++ port ++ " => " ++ signal) ++
      [deeper ++ ");"]

def unit (piece : UnitPiece) : String :=
  joinLines <|
    ["ENTITY " ++ piece.entity ++ " IS"] ++
      ports indent piece.ports ++
      ["END ENTITY " ++ piece.entity ++ ";", "",
        "ARCHITECTURE " ++ piece.architecture ++ " OF " ++ piece.entity ++ " IS"] ++
      (piece.types ++ piece.signals).map (fun declaration => indent ++ declaration ++ ";") ++
      ["BEGIN"] ++
      indentAll indent piece.connections ++
      piece.components.flatMap (component indent) ++
      indentAll indent piece.processes ++
      ["END ARCHITECTURE " ++ piece.architecture ++ ";"]

def statements (texts : List String) : List String := body "NULL;" indent texts

def process (piece : ProcessPiece) : String :=
  let head :=
    if piece.sensitivity.isEmpty then piece.name ++ ": PROCESS"
    else piece.name ++ ": PROCESS (" ++ String.intercalate ", " piece.sensitivity ++ ")"
  joinLines ([head, "BEGIN"] ++ statements indent piece.lines ++ ["END PROCESS;"])

def branch (piece : BranchPiece) : String :=
  joinLines <|
    ["IF " ++ piece.condition ++ " THEN"] ++
      statements indent piece.body ++
      piece.elifs.flatMap (fun (condition, texts) =>
        ("ELSIF " ++ condition ++ " THEN") :: statements indent texts) ++
      (if piece.otherwise.isEmpty then [] else "ELSE" :: statements indent piece.otherwise) ++
      ["END IF;"]

def select (piece : SelectPiece) : String :=
  joinLines <|
    ["CASE " ++ piece.subject ++ " IS"] ++
      piece.cases.flatMap (fun (key, texts) =>
        (indent ++ "WHEN " ++ key.getD "OTHERS" ++ " =>") ::
          (statements indent texts).map (indentLine indent)) ++
      ["END CASE;"]

-- Entity and architecture in VHDL.
def layout : Layout
  | .unit piece => unit indent piece
  | .process piece => process indent piece
  | .branch piece => branch indent piece
  | .select piece => select indent piece

end Rtl.Layout.Vhdl
