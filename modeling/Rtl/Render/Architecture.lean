import Rtl.Render.Declaration
import Rtl.Render.Statement

namespace Rtl.Renderer

open Pass

-- Puts things in the order of a key, those of equal keys as they came.
def sortBy {α β : Type} (key : α → β) (le : β → β → Bool) (items : List α) : List α :=
  items.mergeSort fun a b => le (key a) (key b)

def textLe (a b : String) : Bool := !(b < a)

def pairLe (a b : String × String) : Bool :=
  a.1 < b.1 || (a.1 == b.1 && textLe a.2 b.2)

-- Nothing comes before any number.
def statementLe : Option StatementId → Option StatementId → Bool
  | none, _ => true
  | some _, none => false
  | some a, some b => a.index ≤ b.index

def processLe (a b : String × Option StatementId) : Bool :=
  a.1 < b.1 || (a.1 == b.1 && statementLe a.2 b.2)

def named {α : Type} (r : Renderer) (name : α → NameId) (items : List α) :
    Except RenderError (List (String × α)) :=
  items.mapM fun item => do return (← r.text (name item), item)

-- Neighbours that are equal count once.
def dropRepeats : List String → List String
  | [] => []
  | [item] => [item]
  | item :: next :: rest =>
      if item = next then dropRepeats (next :: rest) else item :: dropRepeats (next :: rest)

def namePorts : List Port → Pass (List (PortId × PortPiece))
  | [] => return []
  | port :: rest => do
      let candidate ← ask (·.text port.name)
      let name ← give (·.checkedName (.port port.id) candidate)
      let type ← ask (·.typeText port.type)
      let pieces ← namePorts rest
      return (port.id, ⟨name, port.direction, type⟩) :: pieces

def nameSignals : List (String × Signal) → Pass (List String)
  | [] => return []
  | (name, signal) :: rest => do
      let types ← declareAll signal.type
      let _ ← give (·.nameSignal signal.id name)
      let more ← nameSignals rest
      return types ++ more

def shownSignals (r : Renderer) : Except RenderError (List (String × Signal)) := do
  let shown := r.design.arch.signals.toList.filter fun signal => !signal.hidden
  return sortBy (·.1) textLe (← r.named Signal.name shown)

-- The two names of a connection, the driven one first.
def connectionNames (r : Renderer) (link : Connection) : Except RenderError (String × String) := do
  return (← r.signalName link.destination, ← r.signalName link.source)

-- The name of a port by the number that it has itself; of several with one number the
-- last has its name there.
def portName? (ports : List (PortId × PortPiece)) (id : PortId) : Option String :=
  (ports.reverse.lookup id).map PortPiece.name

-- The two names on a port that a signal is bound to, the driven one first. The direction
-- is that of the port at this place in the entity.
def bindingNames (r : Renderer) (ports : List (PortId × PortPiece))
    (binding : PortId × SignalId) : Except RenderError (String × String) := do
  match portName? ports binding.1 with
  | none => throw (.missing (.port binding.1))
  | some port =>
      let signal ← r.signalName binding.2
      match r.design.arch.portDirection? binding.1 with
      | none => throw (.missing (.port binding.1))
      | some .input => return (signal, port)
      | some .output => return (port, signal)
      | some .inout => throw (.unsupported (.inoutBinding signal port))

def connectionTexts (r : Renderer) (ports : List (PortId × PortPiece)) :
    Except RenderError (List String) := do
  let links ← r.design.arch.connections.mapM r.connectionNames
  let bindings ← r.design.arch.portBindings.mapM (r.bindingNames ports)
  return (sortBy id pairLe (links ++ bindings)).map fun (driven, driving) =>
    r.dialect.connection driven driving

-- The processes, sorted by name and then by their last statement.
def sortedProcesses (r : Renderer) : Except RenderError (List Process) := do
  let processes ← r.named Process.name r.design.arch.processes.toList
  return (sortBy (fun (name, process) => (name, process.maxStatementId?)) processLe
    processes).map (·.2)

def processText (r : Renderer) (layout : Layout) (name : String) (process : Process) :
    Except RenderError String := do
  let sensitivity ← process.sensitivity.mapM r.signalName
  let lines ← r.statements layout process.body
  return layout (.process
    { name, sensitivity := dropRepeats (sortBy id textLe sensitivity), lines })

def findProcess (r : Renderer) (id : ProcessId) : Except RenderError Process :=
  match r.design.arch.processes.get? id with
  | some process => .ok process
  | none => .error (.missing (.process id))

-- A process. It keeps its name also if the rest cannot be written.
def process (layout : Layout) (id : ProcessId) : Pass String := do
  let process ← ask (·.findProcess id)
  let candidate ← ask (·.text process.name)
  let name ← give (·.checkedName (.process id) candidate)
  ask (·.processText layout name process)

-- Processes one after the other; the first error ends them.
def processes (layout : Layout) : List Process → Pass (List String)
  | [] => return []
  | first :: rest => do
      let text ← process layout first.id
      let texts ← processes layout rest
      return text :: texts

def sortedComponents (r : Renderer) : Except RenderError (List (String × Component)) := do
  return sortBy (·.1) textLe (← r.named Component.name r.design.arch.components)

def portMapNames (r : Renderer) (portMap : List (NameId × SignalId)) :
    Except RenderError (List (String × String)) :=
  portMap.mapM fun (port, signal) => do return (← r.text port, ← r.signalName signal)

-- Names the components, counted from `position`.
def components (position : Nat) : List (String × Component) → Pass (List ComponentPiece)
  | [] => return []
  | (candidate, component) :: rest => do
      let name ← give (·.checkedName (.component position) candidate)
      let portMap ← ask (·.portMapNames component.portMap)
      let entity ← ask (·.text component.entity)
      let pieces ← components (position + 1) rest
      return { name, entity, portMap } :: pieces

structure Preamble where
  ports : List PortPiece
  types : List String
  signals : List String
  connections : List String

def nameAll : Pass (List (PortId × PortPiece) × List String) := do
  let ports ← namePorts (← look (·.design.arch.entity.ports.toList))
  let types ← nameSignals (← ask shownSignals)
  return (ports, types)

def preamble (r : Renderer) (ports : List (PortId × PortPiece)) (types : List String) :
    Except RenderError Preamble := do
  let signals ← (← r.shownSignals).mapM fun (_, signal) => r.declareSignal signal.id
  let connections ← r.connectionTexts ports
  return { ports := ports.map (·.2), types, signals, connections }

def unitText (layout : Layout) (preamble : Preamble) (processes : List String) :
    Pass String := do
  let components ← components 0 (← ask sortedComponents)
  let entity ← ask fun r => r.text r.design.arch.entity.name
  let architecture ← ask fun r => r.text r.design.arch.name
  return layout (.unit { preamble with entity, architecture, components, processes })

def writeUnit (layout : Layout) (ports : List (PortId × PortPiece)) (types : List String) :
    Pass String := do
  let preamble ← ask (·.preamble ports types)
  let sorted ← ask sortedProcesses
  let texts ← processes layout sorted
  unitText layout preamble texts

-- The unit, with all names given on the innermost level of the scope.
def body (layout : Layout) : Pass String := do
  let (ports, types) ← nameAll
  writeUnit layout ports types

-- The same passes step by step.

theorem outcome_namePorts_cons (r : Renderer) (port : Port) (rest : List Port) :
    (namePorts (port :: rest)).outcome r = (do
      let (name, r) := r.checkedName (.port port.id) (← r.text port.name)
      let type ← r.typeText port.type
      let (pieces, r) ← (namePorts rest).outcome r
      return ((port.id, ⟨name, port.direction, type⟩) :: pieces, r)) := by
  refine (outcome_ask_bind ..).trans (bind_congr fun candidate => ?_)
  refine (outcome_give_bind ..).trans ((outcome_ask_bind ..).trans (bind_congr fun type => ?_))
  exact outcome_bind ..

theorem outcome_nameSignals_cons (r : Renderer) (name : String) (signal : Signal)
    (rest : List (String × Signal)) :
    (nameSignals ((name, signal) :: rest)).outcome r = (do
      let (types, r) ← (declareAll signal.type).outcome r
      let (_, r) := r.nameSignal signal.id name
      let (more, r) ← (nameSignals rest).outcome r
      return (types ++ more, r)) := by
  refine (outcome_bind ..).trans (bind_congr fun types => ?_)
  exact (outcome_give_bind ..).trans (outcome_bind ..)

theorem outcome_components_cons (r : Renderer) (position : Nat) (candidate : String)
    (component : Component) (rest : List (String × Component)) :
    (components position ((candidate, component) :: rest)).outcome r = (do
      let (name, r) := r.checkedName (.component position) candidate
      let portMap ← r.portMapNames component.portMap
      let entity ← r.text component.entity
      let (pieces, r) ← (components (position + 1) rest).outcome r
      return ({ name, entity, portMap } :: pieces, r)) := by
  refine (outcome_give_bind ..).trans ((outcome_ask_bind ..).trans (bind_congr fun portMap => ?_))
  refine (outcome_ask_bind ..).trans (bind_congr fun entity => ?_)
  exact outcome_bind ..

theorem outcome_nameAll (r : Renderer) :
    nameAll.outcome r = (do
      let (ports, r) ← (namePorts r.design.arch.entity.ports.toList).outcome r
      let (types, r) ← (nameSignals (← r.shownSignals)).outcome r
      return ((ports, types), r)) := by
  refine (outcome_look_bind ..).trans ((outcome_bind ..).trans (bind_congr fun ports => ?_))
  refine (outcome_ask_bind ..).trans (bind_congr fun shown => ?_)
  exact outcome_bind ..

theorem outcome_process (r : Renderer) (layout : Layout) (id : ProcessId) :
    (process layout id).outcome r = (do
      let process ← r.findProcess id
      let (name, r) := r.checkedName (.process id) (← r.text process.name)
      let text ← r.processText layout name process
      return (text, r)) := by
  refine (outcome_ask_bind ..).trans (bind_congr fun process => ?_)
  refine (outcome_ask_bind ..).trans (bind_congr fun candidate => ?_)
  exact (outcome_give_bind ..).trans (outcome_ask ..)

theorem outcome_processes_cons (r : Renderer) (layout : Layout) (first : Process)
    (rest : List Process) :
    (processes layout (first :: rest)).outcome r = (do
      let (text, r) ← (process layout first.id).outcome r
      let (texts, r) ← (processes layout rest).outcome r
      return (text :: texts, r)) := by
  refine (outcome_bind ..).trans (bind_congr fun text => ?_)
  exact outcome_bind ..

theorem outcome_unitText (r : Renderer) (layout : Layout) (preamble : Preamble)
    (processes : List String) :
    (unitText layout preamble processes).outcome r = (do
      let (components, r) ← (components 0 (← r.sortedComponents)).outcome r
      let entity ← r.text r.design.arch.entity.name
      let architecture ← r.text r.design.arch.name
      return (layout (.unit
        { preamble with entity, architecture, components, processes }), r)) := by
  refine (outcome_ask_bind ..).trans (bind_congr fun sorted => ?_)
  refine (outcome_bind ..).trans (bind_congr fun components => ?_)
  refine (outcome_ask_bind ..).trans (bind_congr fun entity => ?_)
  exact outcome_ask_bind ..

theorem outcome_writeUnit (r : Renderer) (layout : Layout) (ports : List (PortId × PortPiece))
    (types : List String) :
    (writeUnit layout ports types).outcome r = (do
      let preamble ← r.preamble ports types
      let sorted ← r.sortedProcesses
      let (texts, r) ← (processes layout sorted).outcome r
      (unitText layout preamble texts).outcome r) := by
  refine (outcome_ask_bind ..).trans (bind_congr fun preamble => ?_)
  refine (outcome_ask_bind ..).trans (bind_congr fun sorted => ?_)
  exact outcome_bind ..

theorem outcome_body (r : Renderer) (layout : Layout) :
    (body layout).outcome r = (do
      let ((ports, types), r) ← nameAll.outcome r
      (writeUnit layout ports types).outcome r) := outcome_bind ..

theorem process_eq (r : Renderer) (layout : Layout) (id : ProcessId) :
    process layout id r =
      match r.findProcess id with
      | .error cause => (.error cause, r)
      | .ok process =>
          match r.text process.name with
          | .error cause => (.error cause, r)
          | .ok candidate =>
              let (name, r) := r.checkedName (.process id) candidate
              (r.processText layout name process, r) := by
  rw [process, run_ask_bind]
  cases r.findProcess id with
  | error cause => rfl
  | ok process =>
      simp only [run_ask_bind]
      cases r.text process.name <;> rfl

theorem processes_cons (r : Renderer) (layout : Layout) (first : Process) (rest : List Process) :
    processes layout (first :: rest) r =
      match process layout first.id r with
      | (.error cause, r) => (.error cause, r)
      | (.ok text, r) =>
          let (texts, r) := processes layout rest r
          (texts.map (text :: ·), r) := by
  rw [processes, run_bind]
  rcases process layout first.id r with ⟨cause | text, t⟩
  · rfl
  · simp only [run_bind]
    rcases processes layout rest t with ⟨cause | texts, u⟩ <;> rfl

theorem body_eq (r : Renderer) (layout : Layout) :
    body layout r =
      match nameAll r with
      | (.error cause, r) => (.error cause, r)
      | (.ok (ports, types), r) => writeUnit layout ports types r := by
  rw [body, run_bind]
  rcases nameAll r with ⟨cause | named, t⟩ <;> rfl

-- The whole architecture with its entity. Its names are on a level of their own,
-- which is closed again also after an error.
def architecture (r : Renderer) (layout : Layout) : Except RenderError String × Renderer :=
  let (text, r) := body layout { r with scope := r.scope.push }
  (text, { r with scope := r.scope.pop })

end Rtl.Renderer
