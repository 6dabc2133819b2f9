import Rtl.Interface.Backing
import Rtl.Interface.Wiring
import Rtl.Render.Architecture
import Rtl.Settings.Basic

namespace Rtl

-- A port as it is asked for: name, direction and width.
structure PortRequest where
  name : String
  direction : Direction
  width : Nat
deriving DecidableEq, Repr

structure Workbench where
  design : Design
  synth : Synthesizer
  claims : Claims

namespace Workbench

def addPorts (design : Design) (entity : Entity) : List PortRequest → Entity × Design
  | [] => (entity, design)
  | port :: rest =>
      let (type, types) := design.types.ofWidth port.width
      let (name, names) := design.names.intern port.name
      let (_, entity) := entity.addPort name port.direction type
      addPorts { design with names, types } entity rest

def ofPorts (settings : Settings) (entity : String) (ports : List PortRequest) : Workbench :=
  let (name, names) := NameTable.empty.intern entity
  let unnamed : Design := ⟨names, .empty, .ofEntity name (.ofName name)⟩
  let (entity, design) := addPorts unnamed (.ofName name) ports
  let (rtl, design) := design.intern "rtl"
  let design := { design with arch := .ofEntity rtl entity }
  { design, synth := .ofSeparator settings.synthesis.separator
    claims := .ofPorts design.portNames }

-- Finds every instance of a class among the unclaimed ports.
def extract (bench : Workbench) (cls : InterfaceClass) :
    Except InterfaceError (List (String × NodeId)) × Workbench :=
  let (found, synth, claims) := bench.synth.extractAll cls bench.claims
  (found, { bench with synth, claims })

-- Makes the signals of an instance under the given name.
def materialize? (bench : Workbench) (node : NodeId) (name : String) :
    Option (List SignalId × Workbench) := do
  let (signals, synth, design) ← bench.synth.materialize node name bench.design
  return (signals, { bench with synth, design })

-- Makes the connections of a wiring, also those before its error; `none` if one
-- of the signals does not exist.
def wire? (bench : Workbench) (wiring : Wiring) : Option (Workbench × Option InterfaceError) := do
  let arch ← bench.design.arch.connectAll? wiring.links
  return ({ bench with design := { bench.design with arch } }, wiring.error)

-- The names of the ports that nothing claimed.
def unclaimed (bench : Workbench) : List String :=
  (bench.claims.owners.zip bench.design.portNames).filterMap fun (owner, (name, _)) =>
    if owner.isNone then some name else none

-- The unit in the dialect of the settings.
def render (bench : Workbench) (settings : OutputSettings) : Except RenderError String :=
  let renderer :=
    Renderer.ofDesign settings.dialect bench.design settings.timeUnit settings.scope
  (renderer.architecture settings.layout).1

end Workbench

end Rtl
