import Rtl.Interface.Match

namespace Rtl

-- All interface instances of a unit and the templates they were made from. A
-- node is known by its number in the forest.
structure Synthesizer where
  nodes : Forest NodeState
  registry : Registry
  separator : String
deriving Repr

namespace Synthesizer

def ofSeparator (separator : String) : Synthesizer := ⟨.nil, .empty, separator⟩

def size (synth : Synthesizer) : Nat := synth.nodes.size

def node? (synth : Synthesizer) (id : NodeId) : Option (Forest.Spot NodeState) :=
  synth.nodes.spot? id.index

def rows (synth : Synthesizer) : List (Forest.Row NodeState) := synth.nodes.rows none 0

def template (synth : Synthesizer) (cls : InterfaceClass) : Template × Synthesizer :=
  let (template, registry) := synth.registry.build cls
  (template, { synth with registry })

def add (synth : Synthesizer) (name : String) (root : NodeState) (members : Forest NodeState) :
    NodeId × Synthesizer :=
  (⟨synth.size⟩, { synth with nodes := synth.nodes.append (.cons name root members .nil) })

-- Makes an instance of a template, named after its class.
def instantiate (synth : Synthesizer) (template : Template) (external : Bool)
    (source : Option NodeId) (destinations : List NodeId) : NodeId × Synthesizer :=
  let (root, members) := template.instantiate external source destinations
  synth.add template.className root members

-- Changes a node and the nodes below it, but not their number.
def update (synth : Synthesizer) (id : NodeId)
    (change : NodeState → Forest NodeState → NodeState × Forest NodeState) : Synthesizer :=
  { synth with nodes := synth.nodes.update change id.index }

def updateState (synth : Synthesizer) (id : NodeId) (change : NodeState → NodeState) :
    Synthesizer :=
  synth.update id fun state inner => (change state, inner)

-- Enters a node in the list of what its source drives.
def propagateSource (synth : Synthesizer) (id : NodeId) : Except InterfaceError Synthesizer :=
  match synth.node? id with
  | none => .error (.unknownNode id)
  | some spot =>
      match spot.item.source with
      | none => .ok synth
      | some source =>
          match synth.node? source with
          | none => .error (.unknownNode source)
          | some _ =>
              .ok (synth.updateState source fun state =>
                { state with destinations := state.destinations ++ [id] })

-- Matches a node and all below it against the ports whose names begin with the
-- stem. A failure gives back the claims, but the sides found so far remain.
def matchByName (synth : Synthesizer) (id : NodeId) (stem : String) (claims : Claims) :
    Except InterfaceError NodeId × Synthesizer × Claims :=
  match synth.node? id with
  | none => (.error (.unknownNode id), synth, claims)
  | some spot =>
      let attempt := Match.node id stem spot.item spot.inner claims
      let synth := synth.update id fun state inner =>
        match attempt.nodes with
        | .nil => (state, inner)
        | .cons _ state inner _ => (state, inner)
      (match attempt.agreed with
        | .ok _ => .ok id
        | .error cause => .error (.incompatible cause), synth, attempt.claims)

-- The names under which instances of a template may be found: those of the
-- unclaimed ports that end with the stem and the first member, less that end.
def candidates (template : Template) (claims : Claims) (stem : String) :
    Except InterfaceError (List String) := do
  let first ← template.firstMember
  return claims.ports.entries.filterMap fun (port, _) => claims.candidate? port (stem ++ first)

-- The name of an instance: the candidate without one separator at its end.
def instanceName (synth : Synthesizer) (candidate : String) : String :=
  if synth.separator.toList.isSuffixOf candidate.toList then
    String.ofList (candidate.toList.take (candidate.length - synth.separator.length))
  else candidate

-- Tries one port as the first member of an external instance. What does not
-- fit leaves no trace.
def tryPort (synth : Synthesizer) (template : Template) (first : String) (claims : Claims)
    (port : PortId) : Option (String × NodeId) × Synthesizer × Claims :=
  match claims.candidate? port first with
  | none => (none, synth, claims)
  | some candidate =>
      let (root, members) := template.instantiate true none []
      let attempt := Match.node ⟨synth.size⟩ candidate root members claims
      match attempt.agreed, attempt.nodes with
      | .ok _, .cons _ root members _ =>
          let name := synth.instanceName candidate
          let (id, synth) := synth.add name root members
          (some (name, id), synth, attempt.claims)
      | _, _ => (none, synth, attempt.claims)

def tryPorts (synth : Synthesizer) (template : Template) (first : String) (claims : Claims) :
    List PortId → List (String × NodeId) × Synthesizer × Claims
  | [] => ([], synth, claims)
  | port :: rest =>
      let (found, synth, claims) := synth.tryPort template first claims port
      let (more, synth, claims) := synth.tryPorts template first claims rest
      (found.toList ++ more, synth, claims)

-- Finds every instance of a class among the unclaimed ports, in port order.
-- Each claims its ports before the next port is tried.
def extractAll (synth : Synthesizer) (cls : InterfaceClass) (claims : Claims) :
    Except InterfaceError (List (String × NodeId)) × Synthesizer × Claims :=
  let (template, synth) := synth.template cls
  match template.firstMember with
  | .error cause => (.error cause, synth, claims)
  | .ok first =>
      let (found, synth, claims) :=
        synth.tryPorts template first claims (claims.ports.entries.map (·.1))
      (.ok found, synth, claims)

-- Forgets the backing signals of a node and all below it, and the connections
-- too if asked.
def detachState (connections : Bool) (state : NodeState) : NodeState :=
  let bare := { state with signal := none }
  if connections then { bare with source := none, destinations := [] } else bare

def detachSignals (synth : Synthesizer) (id : NodeId) (connections : Bool) : Synthesizer :=
  synth.update id fun state inner =>
    (detachState connections state, inner.map (detachState connections))

def reverseState (state : NodeState) : NodeState := { state with side := state.side.opposite }

-- Turns a node and all below it to the other side.
def reverseDirection (synth : Synthesizer) (id : NodeId) : Synthesizer :=
  synth.update id fun state inner => (reverseState state, inner.map reverseState)

-- Gives back the port of a leaf, if the leaf is what holds it.
def releasePort (id : NodeId) (state : NodeState) (claims : Claims) : Claims :=
  match state.port with
  | some port => if claims.owner? port = some id then claims.release port else claims
  | none => claims

def releaseAll : Nat → Forest NodeState → Claims → Claims
  | _, .nil, claims => claims
  | id, .cons _ state inner rest, claims =>
      releaseAll (id + 1 + inner.size) rest
        (releaseAll (id + 1) inner (releasePort ⟨id⟩ state claims))

def unboundState (state : NodeState) : NodeState := { state with port := none }

def unExtract (synth : Synthesizer) (id : NodeId) (claims : Claims) : Synthesizer × Claims :=
  match synth.node? id with
  | none => (synth, claims)
  | some spot =>
      (synth.update id fun state inner => (unboundState state, inner.map unboundState),
        releaseAll (id.index + 1) spot.inner (releasePort id spot.item claims))

end Synthesizer

end Rtl
