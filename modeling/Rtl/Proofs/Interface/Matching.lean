import Rtl.Proofs.Interface.Bindings

namespace Rtl

open Forest

namespace Match

theorem size_unbind (undone : List NodeId) (id : Nat) (forest : Forest NodeState) :
    (unbind undone id forest).size = forest.size := by
  induction forest generalizing id with
  | nil => rfl
  | cons name state inner rest ihi ihr => simp only [unbind, Forest.size, ihi, ihr]

-- The leaves in the list lose their ports, the others keep them.
theorem bindings_unbind (undone : List NodeId) (id : Nat) (forest : Forest NodeState) :
    (unbind undone id forest).bindings id =
      (forest.bindings id).filter fun entry => !undone.contains entry.2 := by
  induction forest generalizing id with
  | nil => rfl
  | cons name state inner rest ihi ihr =>
      have hheld : held id (if undone.contains ⟨id⟩ then { state with port := none } else state)
          (unbind undone (id + 1) inner) =
            (held id state inner).filter fun entry => !undone.contains entry.2 := by
        by_cases hundone : undone.contains ⟨id⟩ = true
        · rw [if_pos hundone, held_of_port rfl, eq_comm, List.filter_eq_nil_iff]
          intro entry hmem
          have hnode : entry.2 = ⟨id⟩ := Id.index_injective (index_of_mem_held hmem)
          simp only [hnode, hundone, Bool.not_true, Bool.false_eq_true, not_false_eq_true]
        · rw [if_neg hundone, held_congr id rfl (size_unbind ..), eq_comm, List.filter_eq_self]
          intro entry hmem
          have hnode : entry.2 = ⟨id⟩ := Id.index_injective (index_of_mem_held hmem)
          simpa only [hnode, Bool.not_eq_true', Bool.not_eq_true] using hundone
      simp only [unbind, bindings, size_unbind, ihi, ihr, hheld, List.filter_append]

theorem size_members (id : Nat) (stem : String) (forest : Forest NodeState) (claims : Claims) :
    (members id stem forest claims).nodes.size = forest.size := by
  induction forest generalizing id stem claims with
  | nil => rfl
  | cons name state inner rest ihi ihr =>
      cases inner with
      | nil =>
          simp only [members]
          split
          · rfl
          · simp only [Attempt.after, Forest.size, ihr]
      | cons first item below beside =>
          simp only [members]
          split
          · simp only [Attempt.undo, Forest.size, size_unbind, ihi]
          · simp only [Attempt.after, Forest.size, ihi, ihr]

-- Leaves that gave back all their ports have none.
theorem bindings_unbind_eq_nil {id : Nat} {forest : Forest NodeState}
    {made : List (PortId × NodeId)} (h : (forest.bindings id).Perm made) :
    (unbind (made.map (·.2)) id forest).bindings id = [] := by
  rw [bindings_unbind, List.filter_eq_nil_iff]
  intro entry hmem
  have hundone : entry.2 ∈ made.map (·.2) := List.mem_map_of_mem (h.mem_iff.mp hmem)
  simpa using hundone

-- Among leaves without ports, an attempt binds those that it claims ports for.
theorem members_binds (id : Nat) (stem : String) {forest : Forest NodeState} (claims : Claims)
    (h : forest.bindings id = []) :
    ∃ made, claims.Grown made (members id stem forest claims).claims ∧
      ((members id stem forest claims).nodes.bindings id).Perm made := by
  induction forest generalizing id stem claims with
  | nil => exact ⟨[], .none, List.Perm.refl _⟩
  | cons name state inner rest ihi ihr =>
      obtain ⟨hfirst, hrest⟩ := List.append_eq_nil_iff.mp h
      obtain ⟨-, hinner⟩ := List.append_eq_nil_iff.mp hfirst
      cases inner with
      | nil =>
          simp only [members]
          split
          · exact ⟨[], .none, h ▸ List.Perm.refl _⟩
          · rename_i bound now hbound
            obtain ⟨port, hport, hnow⟩ := bindLeaf_grown hbound
            obtain ⟨made, hmade, hperm⟩ := ihr (id + 1) stem now hrest
            refine ⟨_, hnow.trans hmade, ?_⟩
            simp only [Attempt.after, bindings, held, hport, Option.toList_some, List.map_cons,
              List.map_nil, List.append_nil, Forest.size, Nat.add_zero, List.singleton_append]
            exact (hperm.cons _).trans (List.perm_append_singleton _ _).symm
      | cons first item below beside =>
          obtain ⟨made, hmade, hperm⟩ := ihi (id + 1) (stem ++ name) claims hinner
          have hsize := size_members (id + 1) (stem ++ name) (.cons first item below beside) claims
          have hpos : 0 < (Forest.cons first item below beside).size := by
            simp only [Forest.size]
            omega
          simp only [members]
          split
          · refine ⟨[], ?_, ?_⟩
            · simp only [Attempt.undo, hmade.rollback_eq]
              exact .none
            · have hundone := (size_unbind (made.map (·.2)) (id + 1) _).trans hsize
              simp only [Attempt.undo, hmade.since_eq, bindings, hundone, hrest,
                bindings_unbind_eq_nil hperm, held_of_size_pos (hundone ▸ hpos)]
              exact List.Perm.refl _
          · obtain ⟨later, hlater, hpermr⟩ := ihr (id + 1 + _) stem _ hrest
            refine ⟨_, hmade.trans hlater, ?_⟩
            simp only [Attempt.after, bindings, hsize, held_of_size_pos (hsize ▸ hpos),
              List.nil_append]
            exact (hperm.append hpermr).trans List.perm_append_comm

-- The same for a single node and what is below it.
theorem node_binds (id : NodeId) (stem : String) {state : NodeState} {inner : Forest NodeState}
    (claims : Claims) (h : bindingsBelow id.index state inner = []) :
    ∃ bound below made, (node id stem state inner claims).nodes = .cons "" bound below .nil ∧
      below.size = inner.size ∧ claims.Grown made (node id stem state inner claims).claims ∧
        (bindingsBelow id.index bound below).Perm made := by
  have hforest : (Forest.cons "" state inner .nil).bindings id.index = [] := by
    simpa only [bindings, bindingsBelow, List.append_nil] using h
  obtain ⟨made, hmade, hperm⟩ := members_binds id.index stem claims hforest
  have hsize := size_members id.index stem (.cons "" state inner .nil) claims
  obtain ⟨bound, below, hnodes⟩ : ∃ bound below,
      (members id.index stem (.cons "" state inner .nil) claims).nodes =
        .cons "" bound below .nil := by
    cases inner with
    | nil | cons =>
        simp only [members]
        split
        all_goals exact ⟨_, _, rfl⟩
  rw [hnodes] at hsize hperm
  simp only [Forest.size] at hsize
  refine ⟨bound, below, made, hnodes, by omega, hmade, ?_⟩
  simpa only [bindings, bindingsBelow, List.append_nil] using hperm

end Match

end Rtl
