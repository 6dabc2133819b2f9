import Rtl.Design
import Rtl.Interface.Synthesizer

namespace Rtl

namespace Backing

-- The backing signal of a leaf. A new one gets the given name and the width of
-- the leaf, and is put on the port of the leaf if that has one.
def leaf (id : NodeId) (name : String) (state : NodeState) (design : Design) :
    SignalId × NodeState × Design :=
  match state.signal with
  | some signal => (signal, state, design)
  | none =>
      let (signal, design) := design.addWire name state.width
      let tagged := design.arch.setLeaf signal id
      let arch := match state.port with
        | some port => tagged.bindPort signal port
        | none => tagged
      (signal, { state with signal := some signal }, { design with arch })

-- The backing signals of all leaves. Names of members are joined by the
-- separator; the first node has number `id`.
def members (separator : String) (id : Nat) (stem : String) :
    Forest NodeState → Design → List SignalId × Forest NodeState × Design
  | .nil, design => ([], .nil, design)
  | .cons name state .nil rest, design =>
      let (signal, state, design) := leaf ⟨id⟩ (stem ++ separator ++ name) state design
      let (signals, rest, design) := members separator (id + 1) stem rest design
      (signal :: signals, .cons name state .nil rest, design)
  | .cons name state (.cons first item below beside) rest, design =>
      let inner := Forest.cons first item below beside
      let (within, changed, design) :=
        members separator (id + 1) (stem ++ separator ++ name) inner design
      let (signals, rest, design) := members separator (id + 1 + inner.size) stem rest design
      (within ++ signals, .cons name state changed rest, design)

end Backing

namespace Synthesizer

-- The backing signals of all leaves at and below a node, made where they are
-- missing and named after the stem and the members down to the leaf.
def materialize (synth : Synthesizer) (id : NodeId) (stem : String) (design : Design) :
    Option (List SignalId × Synthesizer × Design) :=
  match synth.node? id with
  | none => none
  | some spot =>
      match spot.inner with
      | .nil =>
          let (signal, state, design) := Backing.leaf id stem spot.item design
          some ([signal], synth.updateState id fun _ => state, design)
      | inner =>
          let (signals, inner, design) :=
            Backing.members synth.separator (id.index + 1) stem inner design
          some (signals, synth.update id fun state _ => (state, inner), design)

end Synthesizer

end Rtl
