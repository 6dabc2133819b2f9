import Rtl.Settings.Reader
import Rtl.Workbench

namespace Rtl

-- What can go wrong between a port list and a written unit.
inductive PipelineError where
  | settings (cause : SettingsError)
  | interface (cause : InterfaceError)
  | render (cause : RenderError)
deriving DecidableEq, Repr

namespace PipelineError

def message : PipelineError → String
  | .settings cause => "configuration: " ++ cause.message
  | .interface cause => "interface synthesis: " ++ cause.message
  | .render cause => "code generation: " ++ cause.message

end PipelineError

namespace Workbench

-- Makes the signals of instances, each under its own name.
def materializeAll (bench : Workbench) : List (String × NodeId) → Workbench
  | [] => bench
  | (name, root) :: rest =>
      match bench.materialize? root name with
      | some (_, bench) => bench.materializeAll rest
      | none => bench.materializeAll rest

-- Extracts and materializes every instance of each class, in the order given.
def extractEach (bench : Workbench) :
    List InterfaceClass → Except InterfaceError (List String × Workbench)
  | [] => .ok ([], bench)
  | cls :: rest =>
      match bench.extract cls with
      | (.error cause, _) => .error cause
      | (.ok found, bench) => do
          let (names, bench) ← (bench.materializeAll found).extractEach rest
          return (found.map (·.1) ++ names, bench)

end Workbench

-- Finds the interfaces of a unit among its ports, makes their signals, and
-- writes the unit. Returns the text and the names of the interfaces.
def synthesizeAndRender (settings : Settings) (entity : String) (ports : List PortRequest)
    (classes : List InterfaceClass) : Except PipelineError (String × List String) := do
  match (Workbench.ofPorts settings entity ports).extractEach classes with
  | .error cause => throw (.interface cause)
  | .ok (names, bench) =>
      match bench.render settings.output with
      | .error cause => throw (.render cause)
      | .ok text => return (text, names)

end Rtl
