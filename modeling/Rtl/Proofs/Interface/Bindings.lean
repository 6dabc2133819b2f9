import Rtl.Interface.Backing
import Rtl.Proofs.Interface.Rollback
import Rtl.Proofs.Interface.Spots

namespace Rtl

-- The port of a node that has no members, with the node.
def held (id : Nat) (state : NodeState) : Forest NodeState → List (PortId × NodeId)
  | .nil => state.port.toList.map (·, ⟨id⟩)
  | .cons .. => []

namespace Forest

-- The ports of all leaves with the leaves, in the order of their numbers, the
-- first of which is given.
def bindings : Nat → Forest NodeState → List (PortId × NodeId)
  | _, nil => []
  | id, cons _ state inner rest =>
      held id state inner ++ inner.bindings (id + 1) ++ rest.bindings (id + 1 + inner.size)

-- The same for a single node and what is below it.
def bindingsBelow (id : Nat) (state : NodeState) (inner : Forest NodeState) :
    List (PortId × NodeId) :=
  held id state inner ++ inner.bindings (id + 1)

variable {α : Type} {forest front back : Forest NodeState}

theorem eq_nil_of_size_eq_zero {forest : Forest α} (h : forest.size = 0) : forest = nil := by
  cases forest with
  | nil => rfl
  | cons name item inner rest =>
      simp only [size] at h
      omega

theorem exists_cons_of_size_eq {forest inner rest : Forest α} {name : String} {item : α}
    (h : forest.size = (cons name item inner rest).size) :
    ∃ name item inner rest, forest = cons name item inner rest := by
  cases forest with
  | nil =>
      simp only [size] at h
      omega
  | cons => exact ⟨_, _, _, _, rfl⟩

-- Whether a node is a leaf shows in the number of nodes below it.
theorem held_congr (id : Nat) {a b : NodeState} {inner other : Forest NodeState}
    (hport : a.port = b.port) (hsize : inner.size = other.size) :
    held id a inner = held id b other := by
  cases inner with
  | nil =>
      obtain rfl := eq_nil_of_size_eq_zero hsize.symm
      simp only [held, hport]
  | cons name item below beside =>
      obtain ⟨_, _, _, _, rfl⟩ := exists_cons_of_size_eq hsize.symm
      rfl

theorem held_of_size_pos {id : Nat} {state : NodeState} {inner : Forest NodeState}
    (h : 0 < inner.size) : held id state inner = [] := by
  cases inner with
  | nil => simp [size] at h
  | cons => rfl

theorem held_of_port {id : Nat} {state : NodeState} {inner : Forest NodeState}
    (h : state.port = none) : held id state inner = [] := by
  cases inner with
  | nil => simp [held, h]
  | cons => rfl

theorem bindings_append (first : Nat) (front back : Forest NodeState) :
    (front.append back).bindings first =
      front.bindings first ++ back.bindings (first + front.size) := by
  induction front generalizing first with
  | nil => simp [append, bindings, size]
  | cons name state inner rest _ ih =>
      have hn : first + 1 + inner.size + rest.size = first + (1 + inner.size + rest.size) := by
        omega
      simp only [append, bindings, size, ih, hn, List.append_assoc]

theorem bindings_map {f : NodeState → NodeState} (h : ∀ state, (f state).port = state.port)
    (first : Nat) (forest : Forest NodeState) :
    (forest.map f).bindings first = forest.bindings first := by
  induction forest generalizing first with
  | nil => rfl
  | cons name state inner rest ihi ihr =>
      have hheld := held_congr first (h state) (size_map f inner)
      simp only [map, bindings, ihi, ihr, size_map, hheld]

theorem bindings_map_of_unbound {f : α → NodeState} (h : ∀ item, (f item).port = none)
    (first : Nat) (forest : Forest α) : (forest.map f).bindings first = [] := by
  induction forest generalizing first with
  | nil => rfl
  | cons name item inner rest ihi ihr =>
      simp only [map, bindings, ihi, ihr, held_of_port (h item), List.append_nil]

theorem index_of_mem_held {id : Nat} {state : NodeState} {inner : Forest NodeState}
    {entry : PortId × NodeId} (h : entry ∈ held id state inner) : entry.2.index = id := by
  cases inner with
  | nil =>
      simp only [held, List.mem_map] at h
      obtain ⟨port, -, rfl⟩ := h
      rfl
  | cons => simp [held] at h

theorem bindingsBelow_congr (id : Nat) {a b : NodeState} {inner other : Forest NodeState}
    (hport : a.port = b.port) (hsize : inner.size = other.size)
    (hinner : inner.bindings (id + 1) = other.bindings (id + 1)) :
    bindingsBelow id a inner = bindingsBelow id b other := by
  rw [bindingsBelow, bindingsBelow, held_congr id hport hsize, hinner]

-- Entries are numbered within their forest.
theorem range_of_mem_bindings {first : Nat} {entry : PortId × NodeId}
    (h : entry ∈ forest.bindings first) :
    first ≤ entry.2.index ∧ entry.2.index < first + forest.size := by
  induction forest generalizing first with
  | nil => simp [bindings] at h
  | cons name state inner rest ihi ihr =>
      simp only [size]
      rcases List.mem_append.mp h with h | hrest
      · rcases List.mem_append.mp h with hheld | hinner
        · have := index_of_mem_held hheld
          omega
        · have := ihi hinner
          omega
      · have := ihr hrest
        omega

theorem range_of_mem_bindingsBelow {id : Nat} {state : NodeState} {inner : Forest NodeState}
    {entry : PortId × NodeId} (h : entry ∈ bindingsBelow id state inner) :
    id ≤ entry.2.index ∧ entry.2.index ≤ id + inner.size := by
  rcases List.mem_append.mp h with hheld | hinner
  · have := index_of_mem_held hheld
    omega
  · have := range_of_mem_bindings hinner
    omega

theorem exists_spot?_of_mem_bindings {first : Nat} {port : PortId} {node : NodeId}
    (h : (port, node) ∈ forest.bindings first) :
    ∃ index spot, node.index = first + index ∧ forest.spot? index = some spot ∧
      spot.inner = nil ∧ spot.item.port = some port := by
  induction forest generalizing first with
  | nil => cases h
  | cons name state inner rest ihi ihr =>
      rcases List.mem_append.mp h with h | hrest
      · rcases List.mem_append.mp h with hheld | hinner
        · cases inner with
          | nil =>
              simp only [held, List.mem_map, Option.mem_toList, Prod.mk.injEq] at hheld
              obtain ⟨_, hport, rfl, rfl⟩ := hheld
              exact ⟨0, _, rfl, rfl, rfl, hport⟩
          | cons => cases hheld
        · obtain ⟨index, spot, hnode, hspot, hleaf⟩ := ihi hinner
          exact ⟨index + 1, _, by omega, spot?_within hspot, hleaf⟩
      · obtain ⟨index, spot, hnode, hspot, hleaf⟩ := ihr hrest
        exact ⟨index + 1 + inner.size, spot, by omega, spot?_later hspot, hleaf⟩

theorem mem_bindings_of_spot? {index : Nat} {spot : Spot NodeState}
    (h : forest.spot? index = some spot) (hleaf : spot.inner = nil) {port : PortId}
    (hport : spot.item.port = some port) {first : Nat} {node : NodeId}
    (hnode : node.index = first + index) : (port, node) ∈ forest.bindings first := by
  induction h using spot?_induction generalizing first with
  | here name state inner rest =>
      obtain rfl : inner = nil := hleaf
      have hheld : held first state nil = [(port, ⟨first⟩)] := by
        rw [held, show state.port = some port from hport]
        rfl
      rw [bindings, hheld]
      exact List.mem_cons.mpr (.inl (Prod.ext rfl (Id.index_injective hnode)))
  | within name state inner rest index spot hspot ih =>
      have hmem : (port, node) ∈ inner.bindings (first + 1) := ih hleaf hport (by omega)
      exact List.mem_append_left _ (List.mem_append_right _ hmem)
  | later name state inner rest index spot hspot ih =>
      exact List.mem_append_right _ (ih hleaf hport (by omega))

-- An entry is there exactly if its node is a leaf with its port.
theorem mem_bindings_iff {first : Nat} {port : PortId} {node : NodeId} :
    (port, node) ∈ forest.bindings first ↔
      ∃ index spot, node.index = first + index ∧ forest.spot? index = some spot ∧
        spot.inner = nil ∧ spot.item.port = some port := by
  refine ⟨exists_spot?_of_mem_bindings, ?_⟩
  rintro ⟨index, spot, hnode, hspot, hleaf, hport⟩
  exact mem_bindings_of_spot? hspot hleaf hport hnode

-- A change at one entry that keeps the number of entries below it.

variable {index : Nat} {change : NodeState → Forest NodeState → NodeState × Forest NodeState}

-- It changes the entries of that node and those below it in their place; all
-- other entries are of other nodes.
theorem exists_bindings_update {spot : Spot NodeState} (h : forest.spot? index = some spot)
    (first : Nat) :
    ∃ front back,
      forest.bindings first =
        front ++ bindingsBelow (first + index) spot.item spot.inner ++ back ∧
      (∀ entry ∈ front ++ back, entry.2.index < first + index ∨
        first + index + spot.inner.size < entry.2.index) ∧
      ∀ change : NodeState → Forest NodeState → NodeState × Forest NodeState,
        (change spot.item spot.inner).2.size = spot.inner.size →
          (forest.update change index).bindings first =
            front ++ bindingsBelow (first + index) (change spot.item spot.inner).1
              (change spot.item spot.inner).2 ++ back := by
  induction h using spot?_induction generalizing first with
  | here name state inner rest =>
      refine ⟨[], rest.bindings (first + 1 + inner.size), rfl, fun entry hmem => ?_,
        fun change hsize => ?_⟩
      · have := range_of_mem_bindings hmem
        right
        simp only
        omega
      · rw [update_zero, bindings, hsize]
        rfl
  | within name state inner rest index spot hspot ih =>
      obtain ⟨front, back, heq, hother, hupdate⟩ := ih (first + 1)
      have hindex : first + 1 + index = first + (index + 1) := by omega
      have hlt := size_inner_of_spot? hspot
      have hpos : 0 < inner.size := by omega
      rw [hindex] at heq hother hupdate
      refine ⟨front, back ++ rest.bindings (first + 1 + inner.size), ?_, fun entry hmem => ?_,
        fun change hsize => ?_⟩
      · simp only [bindings, held_of_size_pos hpos, heq, List.nil_append, List.append_assoc]
      · rw [← List.append_assoc] at hmem
        rcases List.mem_append.mp hmem with hmem | hmem
        · exact hother entry hmem
        · have := range_of_mem_bindings hmem
          right
          simp only
          omega
      · have hsizes := size_update_of_spot? hspot hsize
        simp only [update_within hspot, bindings, hsizes, hupdate change hsize,
          held_of_size_pos (hsizes ▸ hpos), List.nil_append, List.append_assoc]
  | later name state inner rest index spot hspot ih =>
      obtain ⟨front, back, heq, hother, hupdate⟩ := ih (first + 1 + inner.size)
      have hindex : first + 1 + inner.size + index = first + (index + 1 + inner.size) := by omega
      rw [hindex] at heq hother hupdate
      refine ⟨bindingsBelow first state inner ++ front, back, ?_, fun entry hmem => ?_,
        fun change hsize => ?_⟩
      · simp only [bindings, bindingsBelow, heq, List.append_assoc]
      · rw [List.append_assoc] at hmem
        rcases List.mem_append.mp hmem with hmem | hmem
        · have := range_of_mem_bindingsBelow hmem
          left
          omega
        · exact hother entry hmem
      · simp only [update_rest, bindings, bindingsBelow, hupdate change hsize, List.append_assoc]

theorem bindings_update_of_spot? {spot : Spot NodeState} (h : forest.spot? index = some spot)
    (first : Nat) (hsize : (change spot.item spot.inner).2.size = spot.inner.size)
    (hbelow : bindingsBelow (first + index) (change spot.item spot.inner).1
      (change spot.item spot.inner).2 = bindingsBelow (first + index) spot.item spot.inner) :
    (forest.update change index).bindings first = forest.bindings first := by
  obtain ⟨front, back, heq, -, hupdate⟩ := exists_bindings_update h first
  rw [hupdate change hsize, hbelow, heq]

end Forest

namespace Backing

open Forest

-- Backing signals come and go without a change to ports.
theorem port_leaf (id : NodeId) (name : String) (state : NodeState) (design : Design) :
    (leaf id name state design).2.1.port = state.port := by
  simp only [leaf]
  split
  · rfl
  · rfl

theorem members_keeps (separator : String) (id : Nat) (stem : String)
    (forest : Forest NodeState) (design : Design) :
    (members separator id stem forest design).2.1.size = forest.size ∧
      (members separator id stem forest design).2.1.bindings id = forest.bindings id := by
  induction forest generalizing id stem design with
  | nil => exact ⟨rfl, rfl⟩
  | cons name state inner rest ihi ihr =>
      cases inner with
      | nil =>
          obtain ⟨hsize, hrest⟩ := ihr (id + 1) stem
            (leaf ⟨id⟩ (stem ++ separator ++ name) state design).2.2
          have hport := port_leaf ⟨id⟩ (stem ++ separator ++ name) state design
          constructor
          · simp only [members, Forest.size, hsize]
          · simp only [members, bindings, held, Forest.size, Nat.add_zero, hrest, hport]
      | cons first item below beside =>
          obtain ⟨hsizei, hinner⟩ := ihi (id + 1) (stem ++ separator ++ name) design
          obtain ⟨hsizer, hrest⟩ := ihr (id + 1 + (Forest.cons first item below beside).size) stem
            (members separator (id + 1) (stem ++ separator ++ name)
              (.cons first item below beside) design).2.2
          have hheld := held_congr id (a := state) rfl hsizei
          constructor
          · simp only [members]
            rw [Forest.size, hsizei, hsizer]
            rfl
          · simp only [members]
            rw [bindings, hsizei, hinner, hrest, hheld]
            rfl

end Backing

end Rtl
