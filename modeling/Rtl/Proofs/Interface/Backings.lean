import Rtl.Proofs.Interface.Abandoned
import Rtl.Proofs.Interface.Parity

namespace Rtl

open Forest

namespace Forest

-- The signals of all leaves, none of which is without one.
def Signed (leaves : List (List String × NodeState)) (signals : List SignalId) : Prop :=
  leaves.map (·.2.signal) = signals.map some

theorem Signed.append {front back : List (List String × NodeState)}
    {signals more : List SignalId} (hfront : Signed front signals) (hback : Signed back more) :
    Signed (front ++ back) (signals ++ more) := by
  rw [Signed, List.map_append, List.map_append, hfront, hback]

theorem Signed.exists_append {front back : List (List String × NodeState)}
    {signals : List SignalId} (h : Signed (front ++ back) signals) :
    ∃ first more, signals = first ++ more ∧ Signed front first ∧ Signed back more := by
  rw [Signed, List.map_append, eq_comm, List.map_eq_append_iff] at h
  obtain ⟨first, more, rfl, hfirst, hmore⟩ := h
  exact ⟨first, more, rfl, hfirst.symm, hmore.symm⟩

theorem Signed.exists_cons {leaf : List String × NodeState}
    {rest : List (List String × NodeState)} {signals : List SignalId}
    (h : Signed (leaf :: rest) signals) :
    ∃ first more, signals = first :: more ∧ leaf.2.signal = some first ∧ Signed rest more := by
  rw [Signed, List.map_cons, eq_comm, List.map_eq_cons_iff] at h
  obtain ⟨first, more, rfl, hfirst, hmore⟩ := h
  exact ⟨first, more, rfl, hfirst.symm, hmore.symm⟩

end Forest

namespace Backing

theorem leaf_of_signal (id : NodeId) (name : String) {state : NodeState} {signal : SignalId}
    (h : state.signal = some signal) (design : Design) :
    leaf id name state design = (signal, state, design) := by
  simp only [leaf, h]

theorem signal_leaf (id : NodeId) (name : String) (state : NodeState) (design : Design) :
    (leaf id name state design).2.1.signal = some (leaf id name state design).1 := by
  cases h : state.signal with
  | none => simp only [leaf, h]
  | some signal => simp only [leaf, h]

-- Where every leaf has its signal there is nothing to make.
theorem members_of_signed {separator stem : String} {id : Nat} {forest : Forest NodeState}
    {path : List String} {signals : List SignalId} (h : Signed (forest.leaves path) signals)
    (design : Design) : members separator id stem forest design = (signals, forest, design) := by
  induction forest generalizing id stem path signals with
  | nil =>
      obtain rfl := List.map_eq_nil_iff.mp h.symm
      rfl
  | cons name state inner rest ihi ihr =>
      cases inner with
      | nil =>
          obtain ⟨signal, more, rfl, hsignal, hmore⟩ := h.exists_cons
          simp only [members, leaf_of_signal _ _ hsignal, ihr hmore]
      | cons first item below beside =>
          obtain ⟨within, more, rfl, hwithin, hmore⟩ := h.exists_append
          simp only [members, ihi hwithin, ihr hmore]

-- What is returned is the signals of the leaves in their order, however many of them
-- were there before.
theorem signed_members (separator : String) (id : Nat) (stem : String)
    (forest : Forest NodeState) (design : Design) (path : List String) :
    Signed ((members separator id stem forest design).2.1.leaves path)
        (members separator id stem forest design).1 ∧
      ((members separator id stem forest design).2.1.leaves path).map (·.1) =
        (forest.leaves path).map (·.1) := by
  induction forest generalizing id stem design path with
  | nil => exact ⟨rfl, rfl⟩
  | cons name state inner rest ihi ihr =>
      cases inner with
      | nil =>
          obtain ⟨hrest, hpaths⟩ := ihr (id + 1) stem
            (leaf ⟨id⟩ (stem ++ separator ++ name) state design).2.2 path
          have hsignal := signal_leaf ⟨id⟩ (stem ++ separator ++ name) state design
          constructor
          · rw [Signed] at hrest ⊢
            simp only [members, leaves, List.map_cons, hsignal, hrest]
          · simp only [members, leaves, List.map_cons, hpaths]
      | cons first item below beside =>
          obtain ⟨hinner, hwithin⟩ :=
            ihi (id + 1) (stem ++ separator ++ name) design (path ++ [name])
          obtain ⟨hrest, hpaths⟩ := ihr (id + 1 + (Forest.cons first item below beside).size) stem
            (members separator (id + 1) (stem ++ separator ++ name)
              (.cons first item below beside) design).2.2 path
          obtain ⟨hsize, -⟩ := members_keeps separator (id + 1) (stem ++ separator ++ name)
            (.cons first item below beside) design
          simp only [members]
          generalize members separator (id + 1) (stem ++ separator ++ name)
            (.cons first item below beside) design = within at hinner hwithin hrest hpaths hsize ⊢
          obtain ⟨signals, changed, now⟩ := within
          obtain ⟨_, _, _, _, rfl⟩ := exists_cons_of_size_eq hsize
          refine ⟨hinner.append hrest, ?_⟩
          rw [leaves, leaves, List.map_append, List.map_append, hwithin, hpaths]

end Backing

namespace Synthesizer

open Backing

variable {synth : Synthesizer} {id : NodeId} {spot : Spot NodeState} {signals : List SignalId}

theorem materialize_of_signed (hspot : synth.node? id = some spot)
    (h : Signed spot.leaves signals) (stem : String) (design : Design) :
    synth.materialize id stem design = some (signals, synth, design) := by
  obtain ⟨above, name, state, inner⟩ := spot
  simp only [materialize, hspot]
  cases inner with
  | nil =>
      obtain ⟨signal, more, rfl, hsignal, hmore⟩ := h.exists_cons
      obtain rfl := List.map_eq_nil_iff.mp hmore.symm
      have hsame : synth.updateState id (fun _ => state) = synth := by
        rw [updateState, update, update_eq_self hspot]
        rfl
      simp only [leaf_of_signal _ _ hsignal, hsame]
  | cons first item below beside =>
      have hsame : synth.update id (fun state _ => (state, .cons first item below beside)) =
          synth := by
        rw [update, update_eq_self hspot]
        rfl
      simp only [members_of_signed h, hsame]

-- A node that exists has its signals made, one for each leaf in the order of the
-- members.
theorem exists_materialize (hspot : synth.node? id = some spot) (stem : String)
    (design : Design) :
    ∃ signals made last after, synth.materialize id stem design = some (signals, made, last) ∧
      made.node? id = some after ∧ Signed after.leaves signals ∧
      after.leaves.map (·.1) = spot.leaves.map (·.1) := by
  obtain ⟨above, name, state, inner⟩ := spot
  simp only [materialize, hspot]
  cases inner with
  | nil =>
      refine ⟨_, _, _, _, rfl, spot?_update_at hspot rfl, ?_, rfl⟩
      exact congrArg (fun signal => [signal]) (signal_leaf id stem state design)
  | cons first item below beside =>
      obtain ⟨hsigned, hpaths⟩ := signed_members synth.separator (id.index + 1) stem
        (.cons first item below beside) design []
      obtain ⟨hsize, -⟩ := members_keeps synth.separator (id.index + 1) stem
        (.cons first item below beside) design
      refine ⟨_, _, _, _, rfl, spot?_update_at hspot hsize, ?_⟩
      generalize members synth.separator (id.index + 1) stem (.cons first item below beside)
        design = result at hsigned hpaths hsize ⊢
      obtain ⟨signals, changed, last⟩ := result
      obtain ⟨_, _, _, _, rfl⟩ := exists_cons_of_size_eq hsize
      exact ⟨hsigned, hpaths⟩

end Synthesizer

end Rtl
