import Rtl.Architecture
import Rtl.Interface.Synthesizer
import Rtl.Text

namespace Rtl

-- One end of a connection: a node with the member names that lead to it from
-- the root of its instance, outermost first.
structure Endpoint where
  path : List String
  name : String
  state : NodeState
  members : Forest NodeState

namespace Endpoint

def ofSpot (spot : Forest.Spot NodeState) : Endpoint :=
  { path := (spot.above ++ [spot.name]).drop 1, name := spot.name, state := spot.item
    members := spot.inner }

-- The member names with dots between them; empty for a root.
def fullName (endpoint : Endpoint) : String := String.intercalate "." endpoint.path

-- The full name, or the name of the node itself where that is empty.
def displayName (endpoint : Endpoint) : String :=
  if endpoint.fullName.isEmpty then endpoint.name else endpoint.fullName

def member (endpoint : Endpoint) (name : String) (state : NodeState)
    (members : Forest NodeState) : Endpoint :=
  { path := endpoint.path ++ [name], name, state, members }

def backing (endpoint : Endpoint) : Except InterfaceError SignalId :=
  match endpoint.state.signal with
  | some signal => .ok signal
  | none => .error (.misconfigured (.noSignal endpoint.displayName))

end Endpoint

-- The assignments that a connection makes, in order, each from a source to a
-- destination. If there is an error they are the ones made before it.
structure Wiring where
  links : List Connection
  error : Option InterfaceError
deriving DecidableEq, Repr

namespace Wiring

def none : Wiring := ⟨[], .none⟩

def fail (error : InterfaceError) : Wiring := ⟨[], some error⟩

-- One after the other; an error ends it all.
def andThen (first second : Wiring) : Wiring :=
  match first.error with
  | some _ => first
  | .none => ⟨first.links ++ second.links, second.error⟩

def leaf (destination : Endpoint) (source : Except InterfaceError SignalId) : Wiring :=
  if destination.state.external && destination.state.side != .slave then
    fail (.misconfigured (.externalMaster destination.name))
  else
    match destination.backing with
    | .error cause => fail cause
    | .ok driven =>
        match source with
        | .error cause => fail cause
        | .ok driving => ⟨[⟨driven, driving⟩], .none⟩

-- Which way a member of the destination is driven: toward its own interface,
-- or back to the other one.
inductive Flow where
  | forward
  | backward
deriving DecidableEq, Repr

def flow? (state : NodeState) : Option Flow :=
  match state.side, state.masterDirection with
  | .slave, .output => some .forward
  | .master, .input => some .forward
  | .master, .output => some .backward
  | .slave, .input => some .backward
  | _, .inout => .none

mutual

-- Connects two interfaces member by member. What a member's side and master
-- direction say decides which of the two drives the other there.
def nodes (destination source : Endpoint) : Wiring :=
  match _members : destination.members with
  | .nil => leaf destination source.backing
  | .cons name state inner rest => members destination (.cons name state inner rest) source
termination_by 2 * (destination.members.size + source.members.size) + 1
decreasing_by
  rw [_members]
  omega

def members (destination : Endpoint) (remaining : Forest NodeState) (source : Endpoint) :
    Wiring :=
  match remaining with
  | .nil => none
  | .cons name state inner rest =>
      let member := destination.member name state inner
      match h : source.members.find? name with
      | .none => fail (.misconfigured (.noMember source.fullName name member.fullName))
      | some (other, below) =>
          let counterpart := source.member name other below
          let step := match flow? state with
            | some .forward => nodes member counterpart
            | some .backward => nodes counterpart member
            | .none => fail (.misconfigured
                (.undirected member.fullName state.side state.masterDirection))
          step.andThen (members destination rest source)
termination_by 2 * (remaining.size + source.members.size)
decreasing_by
  all_goals
    try have := Forest.size_lt_of_find? h
    simp only [Endpoint.member, Forest.size]
    omega

end

end Wiring

namespace Synthesizer

def endpoint? (synth : Synthesizer) (id : NodeId) : Option Endpoint :=
  (synth.node? id).map Endpoint.ofSpot

-- How one node is connected to be driven by another, already found one.
def wiringTo (synth : Synthesizer) (source : Endpoint) (destination : NodeId) : Wiring :=
  match synth.endpoint? destination with
  | none => .fail (.unknownNode destination)
  | some endpoint => .nodes endpoint source

def wiring (synth : Synthesizer) (destination source : NodeId) : Wiring :=
  match synth.endpoint? source with
  | some endpoint => synth.wiringTo endpoint destination
  | none =>
      match synth.endpoint? destination with
      | some endpoint =>
          if endpoint.members.isEmpty then .leaf endpoint (.error (.unknownNode source))
          else .fail (.unknownNode source)
      | none => .fail (.unknownNode destination)

def wiringToAll (synth : Synthesizer) (source : Endpoint) : List NodeId → Wiring
  | [] => .none
  | destination :: rest =>
      (synth.wiringTo source destination).andThen (synth.wiringToAll source rest)

def wiringBelow (synth : Synthesizer) (above : Endpoint) : Forest NodeState → Wiring
  | .nil => .none
  | .cons name state inner rest =>
      let member := above.member name state inner
      ((synth.wiringBelow member inner).andThen
        (synth.wiringToAll member state.destinations)).andThen (synth.wiringBelow above rest)

-- How a node and all below it are connected to what they drive, members first.
def propagation (synth : Synthesizer) (root : NodeId) : Wiring :=
  match synth.endpoint? root with
  | none => .fail (.unknownNode root)
  | some endpoint =>
      (synth.wiringBelow endpoint endpoint.members).andThen
        (synth.wiringToAll endpoint endpoint.state.destinations)

-- The member names that lead from the root of the instance to the node, with
-- dots between them.
def fullName? (synth : Synthesizer) (id : NodeId) : Option String :=
  (synth.endpoint? id).map Endpoint.fullName

end Synthesizer

namespace Architecture

-- Makes the connections of a wiring; `none` if one of the signals does not exist.
def connectAll? (arch : Architecture) (links : List Connection) : Option Architecture :=
  links.foldlM (fun arch link => arch.connect? link.destination link.source) arch

end Architecture

end Rtl
