import Rtl.Architecture
import Rtl.Json.Statement

namespace Rtl

namespace Direction

def toJson (direction : Direction) : Json := .text direction.tag

def ofJson? (json : Json) : Option Direction := do
  match ← json.variant? with
  | ("In", content) => Json.unit? .input content
  | ("Out", content) => Json.unit? .output content
  | ("InOut", content) => Json.unit? .inout content
  | _ => none

end Direction

namespace Driver

def toJson : Driver → Json
  | .port id => .ofVariant "Port" (.ofId id)
  | .connection source => .ofVariant "Connection" (.ofId source)
  | .statement id => .ofVariant "Statement" (.ofId id)
  | .component position => .ofVariant "Instance" (.ofNat position)

def ofJson? (json : Json) : Option Driver := do
  match ← json.variant? with
  | ("Port", some content) => return .port (← content.id?)
  | ("Connection", some content) => return .connection (← content.id?)
  | ("Statement", some content) => return .statement (← content.id?)
  | ("Instance", some content) => return .component (← content.word?)
  | _ => none

end Driver

namespace Reader

def toJson : Reader → Json
  | .port id => .ofVariant "Port" (.ofId id)
  | .connection destination => .ofVariant "Connection" (.ofId destination)
  | .process id => .ofVariant "Process" (.ofId id)
  | .component position => .ofVariant "Instance" (.ofNat position)

def ofJson? (json : Json) : Option Reader := do
  match ← json.variant? with
  | ("Port", some content) => return .port (← content.id?)
  | ("Connection", some content) => return .connection (← content.id?)
  | ("Process", some content) => return .process (← content.id?)
  | ("Instance", some content) => return .component (← content.word?)
  | _ => none

end Reader

namespace Signal

def toJson (signal : Signal) : Json :=
  .object [("id", .ofId signal.id), ("name", .ofId signal.name), ("ty", .ofId signal.type),
    ("default", .ofOption Value.toJson signal.default),
    ("drivers", .ofList Driver.toJson signal.drivers),
    ("readers", .ofList Reader.toJson signal.readers), ("hidden", .bool signal.hidden),
    ("origin", .ofOption Expr.toJson signal.origin), ("interface", .ofOption .ofId signal.leaf)]

def ofJson? (json : Json) : Option Signal := do
  let [id, name, type, default, drivers, readers, hidden, origin, leaf] ←
    json.fields? ["id", "name", "ty", "default", "drivers", "readers", "hidden", "origin",
      "interface"] | none
  return {
    id := ← Json.required Json.id? id
    name := ← Json.required Json.id? name
    type := ← Json.required Json.id? type
    default := ← Json.optional Value.ofJson? default
    drivers := ← Json.required (Json.list? Driver.ofJson?) drivers
    readers := ← Json.required (Json.list? Reader.ofJson?) readers
    hidden := ← Json.required Json.bool? hidden
    origin := ← Json.optional Expr.ofJson? origin
    leaf := ← Json.optional Json.id? leaf }

end Signal

namespace Process

def toJson (process : Process) : Json :=
  .object [("id", .ofId process.id), ("name", .ofId process.name),
    ("sensitivity", .ofList .ofId process.sensitivity),
    ("body", .ofList Statement.toJson process.body)]

def ofJson? (json : Json) : Option Process := do
  let [id, name, sensitivity, body] ← json.fields? ["id", "name", "sensitivity", "body"] | none
  return {
    id := ← Json.required Json.id? id
    name := ← Json.required Json.id? name
    sensitivity := ← Json.required (Json.list? Json.id?) sensitivity
    body := ← Json.required (Json.list? Statement.ofJson?) body }

end Process

namespace Port

def toJson (port : Port) : Json :=
  .object [("id", .ofId port.id), ("name", .ofId port.name),
    ("direction", port.direction.toJson), ("ty", .ofId port.type)]

def ofJson? (json : Json) : Option Port := do
  let [id, name, direction, type] ← json.fields? ["id", "name", "direction", "ty"] | none
  return {
    id := ← Json.required Json.id? id
    name := ← Json.required Json.id? name
    direction := ← Json.required Direction.ofJson? direction
    type := ← Json.required Json.id? type }

end Port

namespace Entity

def toJson (entity : Entity) : Json :=
  .object [("name", .ofId entity.name), ("ports", entity.ports.toJson Port.toJson)]

def ofJson? (json : Json) : Option Entity := do
  let [name, ports] ← json.fields? ["name", "ports"] | none
  return {
    name := ← Json.required Json.id? name
    ports := ← Json.required (Arena.ofJson? Port.ofJson?) ports }

end Entity

namespace Connection

def toJson (connection : Connection) : Json :=
  .object [("dst", .ofId connection.destination), ("src", .ofId connection.source)]

def ofJson? (json : Json) : Option Connection := do
  let [destination, source] ← json.fields? ["dst", "src"] | none
  return {
    destination := ← Json.required Json.id? destination
    source := ← Json.required Json.id? source }

end Connection

namespace Component

def toJson (component : Component) : Json :=
  .object [("name", .ofId component.name), ("entity", .ofId component.entity),
    ("port_map", .ofList (.ofPair .ofId .ofId) component.portMap)]

def ofJson? (json : Json) : Option Component := do
  let [name, entity, portMap] ← json.fields? ["name", "entity", "port_map"] | none
  return {
    name := ← Json.required Json.id? name
    entity := ← Json.required Json.id? entity
    portMap := ← Json.required (Json.list? (Json.pair? Json.id? Json.id?)) portMap }

end Component

namespace Architecture

def toJson (arch : Architecture) : Json :=
  .object [("name", .ofId arch.name), ("entity", arch.entity.toJson),
    ("signals", arch.signals.toJson Signal.toJson),
    ("processes", arch.processes.toJson Process.toJson),
    ("connections", .ofList Connection.toJson arch.connections),
    ("port_bindings", .ofList (.ofPair .ofId .ofId) arch.portBindings),
    ("instances", .ofList Component.toJson arch.components),
    ("next_stmt", .ofNat arch.nextStatement)]

def ofJson? (json : Json) : Option Architecture := do
  let [name, entity, signals, processes, connections, portBindings, components, nextStatement] ←
    json.fields? ["name", "entity", "signals", "processes", "connections", "port_bindings",
      "instances", "next_stmt"] | none
  return {
    name := ← Json.required Json.id? name
    entity := ← Json.required Entity.ofJson? entity
    signals := ← Json.required (Arena.ofJson? Signal.ofJson?) signals
    processes := ← Json.required (Arena.ofJson? Process.ofJson?) processes
    connections := ← Json.required (Json.list? Connection.ofJson?) connections
    portBindings := ← Json.required (Json.list? (Json.pair? Json.id? Json.id?)) portBindings
    components := ← Json.required (Json.list? Component.ofJson?) components
    nextStatement := ← Json.required Json.word? nextStatement }

end Architecture

end Rtl
