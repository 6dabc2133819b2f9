import Rtl.Proofs.Interface.Planted
import Rtl.Proofs.Interface.Stores.Visits

namespace Rtl

open Forest

namespace Forest

variable (first : Nat) (stem : String) (forest : Forest NodeState)

theorem visit_change (change : NodeState → NodeState) (extend : String → String → String)
    (rest : Unit) : forest.visit (fun _ _ _ state rest => (change state, rest)) extend first stem
      rest = (forest.map change, rest) := by
  induction forest generalizing first stem with
  | nil => rfl
  | cons name item inner beside ihi ihr => simp only [visit, map, ihi, ihr]

theorem visit_release (extend : String → String → String) (claims : Claims) :
    forest.visit (fun id _ _ state claims =>
        (Synthesizer.unboundState state, Synthesizer.releasePort id state claims)) extend first stem
      claims =
        (forest.map Synthesizer.unboundState, Synthesizer.releaseAll first forest claims) := by
  induction forest generalizing first stem claims with
  | nil => rfl
  | cons name item inner beside ihi ihr => simp only [visit, map, Synthesizer.releaseAll, ihi, ihr]

theorem visit_materialize (separator : String) (made : List SignalId) (design : Design) :
    forest.visit Store.materializeNode (fun stem name => stem ++ separator ++ name) first stem
        (made, design) =
      let (signals, forest, design) := Backing.members separator first stem forest design
      (forest, made ++ signals, design) := by
  induction forest generalizing first stem made design with
  | nil => simp only [visit, Backing.members, List.append_nil]
  | cons name item inner beside ihi ihr =>
      cases inner with
      | nil =>
          simp only [visit, Store.materializeNode, isEmpty, if_true, Backing.members, size, ihr,
            Nat.add_zero, List.append_assoc, List.singleton_append]
      | cons other state below others =>
          rw [visit]
          simp only [Store.materializeNode, isEmpty, Bool.false_eq_true, if_false, ihi, ihr,
            Backing.members, List.append_assoc]

end Forest

namespace Synthesizer

variable {synth : Synthesizer} {id : NodeId} {spot : Spot NodeState}

theorem update_of_node? (h : synth.node? id = some spot)
    (change : NodeState → Forest NodeState → NodeState × Forest NodeState) :
    synth.update id change = synth.update id fun _ _ => change spot.item spot.inner :=
  congrArg (fun nodes => { synth with nodes }) (update_of_spot? h change)

theorem setState_store (h : synth.node? id = some spot) (item : NodeState) :
    synth.store.nodes.setState id item =
      (synth.update id fun _ inner => (item, inner)).store.nodes := by
  have hset := Nodes.modify_spot h [] [] none fun _ => item
  simp only [List.length_nil, Nat.zero_add, List.nil_append, List.append_nil] at hset
  exact hset

theorem changeAll?_store (h : synth.node? id = some spot) (change : NodeState → NodeState) :
    synth.store.changeAll? id change =
      some (synth.update id fun state inner => (change state, inner.map change)).store := by
  rw [Store.changeAll?, visit_store h]
  simp only [visit_change, Option.bind_eq_bind, Option.bind_some]
  rw [update_of_node? h fun state inner => (change state, inner.map change)]
  rfl

theorem unExtract?_store (h : synth.node? id = some spot) (claims : Claims) :
    synth.store.unExtract? id claims =
      some ((synth.unExtract id claims).1.store, (synth.unExtract id claims).2) := by
  rw [Store.unExtract?, visit_store h]
  simp only [visit_release, Option.bind_eq_bind, Option.bind_some, unExtract, h]
  rw [update_of_node? h fun state inner => (unboundState state, inner.map unboundState)]
  rfl

theorem materialize?_store (h : synth.node? id = some spot) (stem : String) (design : Design) :
    synth.store.materialize? id stem design = (synth.materialize id stem design).map
      fun (signals, synth, design) => (signals, synth.store, design) := by
  rw [Store.materialize?, visit_store h]
  simp only [materialize, h, store]
  cases hinner : spot.inner with
  | nil =>
      simp only [Store.materializeNode, isEmpty, if_true, visit, Option.bind_eq_bind,
        Option.bind_some, Option.map_some, List.nil_append]
      rw [updateState, update_of_node? h fun _ inner => (_, inner), hinner]
      rfl
  | cons name item below beside =>
      simp only [Store.materializeNode, isEmpty, Bool.false_eq_true, if_false, visit_materialize,
        Option.bind_eq_bind, Option.bind_some, Option.map_some, List.nil_append]
      rw [update_of_node? h fun state _ => (state, _)]
      rfl

theorem updateState?_store (h : synth.node? id = some spot) (change : NodeState → NodeState) :
    synth.store.updateState? id change = some (synth.updateState id change).store := by
  obtain ⟨row, hrow, -, hitem, -⟩ := get?_store_of_spot h
  simp only [Store.updateState?, hrow, Option.bind_eq_bind, Option.bind_some, hitem]
  rw [setState_store h, updateState,
    update_of_node? h fun state inner => (change state, inner), update_of_node? h]
  rfl

theorem propagateSource?_store (synth : Synthesizer) (id : NodeId) :
    synth.store.propagateSource? id = (synth.propagateSource id).toOption.map store := by
  rw [Store.propagateSource?, propagateSource]
  cases hspot : synth.node? id with
  | none =>
      rw [get?_store_of_none hspot]
      rfl
  | some spot =>
      obtain ⟨row, hrow, -, hitem, -⟩ := get?_store_of_spot hspot
      simp only [hrow, Option.bind_eq_bind, Option.bind_some, hitem]
      cases spot.item.source with
      | none => rfl
      | some source =>
          simp only
          cases hother : synth.node? source with
          | none =>
              rw [get?_store_of_none hother]
              rfl
          | some other =>
              obtain ⟨found, hfound, -, hfoundItem, -⟩ := get?_store_of_spot hother
              simp only [hfound, Option.bind_some, hfoundItem]
              rw [setState_store hother, updateState,
                update_of_node? hother fun state inner =>
                  ({ state with destinations := state.destinations ++ [id] }, inner),
                update_of_node? hother]
              rfl

theorem foldl_alloc {α : Type} (rows : List (Row NodeState)) (items : List α)
    (make : α → Row NodeState) :
    items.foldl (fun (nodes : Nodes) item => (nodes.alloc (make item)).2) (.ofRows rows) =
      .ofRows (rows ++ items.map make) := by
  induction items generalizing rows with
  | nil => rw [List.foldl_nil, List.map_nil, List.append_nil]
  | cons item rest ih =>
      rw [List.foldl_cons, Nodes.alloc_ofRows, ih, List.map_cons, List.append_assoc,
        List.singleton_append]

theorem instantiate_store (synth : Synthesizer) (template : Template) (external : Bool)
    (source : Option NodeId) (destinations : List NodeId) :
    synth.store.instantiate template.blueprint external source destinations =
      ((synth.instantiate template external source destinations).1,
        (synth.instantiate template external source destinations).2.store) := by
  rw [Store.instantiate, size_store]
  refine Prod.ext rfl (congrArg (fun nodes => ({ synth.store with nodes } : Store)) ?_)
  refine (foldl_alloc synth.rows _ _).trans (congrArg Nodes.ofRows ?_)
  rw [instantiate, rows_add]
  refine congrArg (synth.rows ++ ·) ?_
  -- All nodes of the blueprint but the first are those of its members.
  have hbelow (rows : List (Row Shape)) (first : Nat) (hfirst : first ≠ 0) :
      (rows.zipIdx first).map (fun entry =>
        Nodes.instanceRow synth.size external source destinations entry.2 entry.1) =
      (rows.map (Row.map NodeState.ofShape)).map (Row.shift synth.size) := by
    induction rows generalizing first with
    | nil => rfl
    | cons row rest ih =>
        rw [List.zipIdx_cons, List.map_cons, ih (first + 1) (Nat.succ_ne_zero first)]
        simp only [Nodes.instanceRow, if_neg hfirst]
        rfl
  have hmembers := rows_eq_shift synth.size (some 0) 1 (template.members.map NodeState.ofShape)
  have hentries := entries_shift synth.size 1 (template.members.map NodeState.ofShape)
  rw [Option.map_some, Nat.zero_add, Nat.add_comm 1] at hmembers
  rw [entries_map NodeState.ofShape 1, Nat.add_comm 1] at hentries
  rw [Template.blueprint, Template.tree, rows_cons_of_nil, rows_cons_of_nil, List.zipIdx_cons,
    List.map_cons, hbelow _ _ (Nat.succ_ne_zero 0), ← rows_map]
  refine congrArg₂ List.cons ?_ hmembers.symm
  exact congrArg (Row.mk template.className _ none) hentries.symm

theorem template?_store (synth : Synthesizer) (h : synth.registry.Distinct) (cls : InterfaceClass) :
    synth.store.template? cls =
      some ((synth.template cls).1.blueprint, (synth.template cls).2.store) := by
  have hbuild := synth.registry.build?_blueprints cls h
  rw [Store.template?, store, hbuild]
  rfl

end Synthesizer

end Rtl
