import Rtl.Interface.Synthesizer
import Rtl.Proofs.Interface.Claims

namespace Rtl

namespace Match

-- A leaf that is bound has claimed one free port.
theorem bindLeaf_grown {id : NodeId} {name : String} {leaf bound : NodeState}
    {claims now : Claims} (h : bindLeaf id name leaf claims = .ok (bound, now)) :
    ∃ port, bound.port = some port ∧ claims.Grown [(port, id)] now := by
  simp only [bindLeaf] at h
  split at h
  · cases h
  · rename_i port hfound
    simp only [Except.ok.injEq, Prod.mk.injEq] at h
    obtain ⟨rfl, rfl⟩ := h
    have hmem : port ∈ claims.findUnclaimed name := by
      rw [hfound]
      exact List.mem_singleton_self port
    exact ⟨port, rfl, .claim .none (Claims.free_of_mem_findUnclaimed hmem) id⟩
  · cases h

-- However an attempt ends, it claimed free ports only: what a failing member
-- claimed below it is given back in full, and the members before it claimed
-- free ports themselves.
theorem members_grown (id : Nat) (stem : String) (forest : Forest NodeState) (claims : Claims) :
    ∃ made, claims.Grown made (members id stem forest claims).claims := by
  induction forest generalizing id stem claims with
  | nil => exact ⟨[], .none⟩
  | cons name state inner rest ihi ihr =>
      cases inner with
      | nil =>
          simp only [members]
          split
          · exact ⟨[], .none⟩
          · rename_i bound now hbound
            obtain ⟨port, -, hport⟩ := bindLeaf_grown hbound
            obtain ⟨made, hrest⟩ := ihr (id + 1) stem now
            exact ⟨_, hport.trans hrest⟩
      | cons first item below beside =>
          obtain ⟨within, hwithin⟩ := ihi (id + 1) (stem ++ name) claims
          simp only [members]
          split
          · refine ⟨[], ?_⟩
            simp only [Attempt.undo, hwithin.rollback_eq]
            exact .none
          · obtain ⟨made, hrest⟩ := ihr _ stem _
            exact ⟨_, hwithin.trans hrest⟩

-- An attempt at a single node that fails leaves no claim.
theorem claims_node_of_error {id : NodeId} {stem : String} {state : NodeState}
    {inner : Forest NodeState} {claims : Claims} {cause : Incompatible}
    (h : (node id stem state inner claims).agreed = .error cause) :
    (node id stem state inner claims).claims = claims := by
  cases inner with
  | nil =>
      simp only [node, members] at h ⊢
      split at h
      · simp
      · simp [Attempt.after, Except.map] at h
  | cons first item below beside =>
      obtain ⟨made, hmade⟩ :=
        members_grown (id.index + 1) (stem ++ "") (.cons first item below beside) claims
      simp only [node, members] at h ⊢
      split at h
      · exact hmade.rollback_eq
      · simp [Attempt.after, Except.map] at h

end Match

namespace Synthesizer

-- A match that fails gives back every port and leaves the log as it was,
-- however deep it failed and whatever was claimed and given back on the way.
theorem claims_matchByName_of_error {synth : Synthesizer} {id : NodeId} {stem : String}
    {claims : Claims} {cause : InterfaceError}
    (h : (synth.matchByName id stem claims).1 = .error cause) :
    (synth.matchByName id stem claims).2.2 = claims := by
  simp only [matchByName] at h ⊢
  split at h
  · rfl
  · split at h
    · cases h
    · rename_i hfailed
      exact Match.claims_node_of_error hfailed

-- An instance with two leaves inside a nested member and one beside it.
def nestedInstance : Synthesizer :=
  let channel := Forest.cons "x" ⟨.output, 1⟩ .nil (.cons "y" ⟨.output, 1⟩ .nil .nil)
  let template := ⟨"link", .cons "ch_" ⟨.output, 0⟩ channel (.cons "z" ⟨.input, 1⟩ .nil .nil)⟩
  ((ofSeparator "_").instantiate template true none []).2

-- Ports for the nested member only, beside one that is held by another node.
def nestedPorts : Claims :=
  (Claims.ofPorts [("clk", .input), ("b_ch_x", .output), ("b_ch_y", .output)]).claim ⟨0⟩ ⟨9⟩

-- Two ports are claimed before the last member turns out to be missing.
theorem claims_matchByName_missing_last :
    (nestedInstance.matchByName ⟨0⟩ "b_" nestedPorts).1 =
        .error (.incompatible (.missing "b_z")) ∧
      (nestedInstance.matchByName ⟨0⟩ "b_" nestedPorts).2.2 = nestedPorts := by
  have h : (nestedInstance.matchByName ⟨0⟩ "b_" nestedPorts).1 =
      .error (.incompatible (.missing "b_z")) := by decide +kernel
  exact ⟨h, claims_matchByName_of_error h⟩

end Synthesizer

end Rtl
