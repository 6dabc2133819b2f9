import Rtl.Interface.Store
import Rtl.Proofs.Interface.Stores.Blueprints
import Rtl.Proofs.Interface.Connections

namespace Rtl

open Forest

namespace Forest

variable {α : Type} {forest : Forest α} {index : Nat} {spot : Spot α}

theorem isEmpty_entries (first : Nat) (forest : Forest α) :
    (forest.entries first).isEmpty = forest.isEmpty := by
  cases forest <;> rfl

-- What a change leaves of the outermost level.
theorem entries_update (h : forest.spot? index = some spot) {change : α → Forest α → α × Forest α}
    (hsize : (change spot.item spot.inner).2.size = spot.inner.size) (first : Nat) :
    (forest.update change index).entries first = forest.entries first := by
  induction h using spot?_induction generalizing first with
  | here name item inner rest => simp only [update_zero, entries, hsize]
  | within name item inner rest index spot hspot ih =>
      simp only [update_within hspot, entries, size_update_of_spot? hspot hsize]
  | later name item inner rest index spot hspot ih => simp only [update_rest, entries, ih hsize]

-- A change at an entry that keeps the number of those inside it is one in the middle of the
-- rows, at the entry and those inside it.
theorem exists_rows_update (h : forest.spot? index = some spot) (parent : Option Nat)
    (first : Nat) :
    ∃ front back around, front.length = index ∧
      ∀ item inner, inner.size = spot.inner.size →
        (forest.update (fun _ _ => (item, inner)) index).rows parent first =
          front ++ (cons spot.name item inner nil).rows around (first + index) ++ back := by
  induction h using spot?_induction generalizing parent first with
  | here name item inner rest =>
      refine ⟨[], rest.rows parent (first + 1 + inner.size), parent, rfl,
        fun other below hsize => ?_⟩
      simp only [update_zero, rows, hsize, List.append_nil, List.nil_append, Nat.add_zero,
        List.cons_append]
  | within name item inner rest index spot hspot ih =>
      obtain ⟨front, back, around, hlength, hrows⟩ := ih (some first) (first + 1)
      refine ⟨⟨name, item, parent, inner.entries (first + 1)⟩ :: front,
        back ++ rest.rows parent (first + 1 + inner.size), around, congrArg (· + 1) hlength,
        fun other below hsize => ?_⟩
      rw [update_within hspot, rows, entries_update hspot hsize,
        size_update_of_spot? hspot hsize, hrows other below hsize, Nat.add_right_comm first 1]
      simp only [List.append_assoc, List.cons_append, Nat.add_assoc]
  | later name item inner rest index spot hspot ih =>
      obtain ⟨front, back, around, hlength, hrows⟩ := ih parent (first + 1 + inner.size)
      refine ⟨⟨name, item, parent, inner.entries (first + 1)⟩ ::
          (inner.rows (some first) (first + 1) ++ front), back, around, ?_,
        fun other below hsize => ?_⟩
      · rw [List.length_cons, List.length_append, length_rows, hlength]
        omega
      · have hnumber : first + 1 + inner.size + index = first + (index + 1 + inner.size) := by omega
        rw [update_rest, rows, hrows other below hsize, hnumber]
        simp only [List.append_assoc, List.cons_append]

-- A change at an entry is what it makes of what is there.
theorem update_of_spot? (h : forest.spot? index = some spot)
    (change : α → Forest α → α × Forest α) :
    forest.update change index = forest.update (fun _ _ => change spot.item spot.inner) index := by
  induction h using spot?_induction with
  | here name item inner rest => rfl
  | within name item inner rest index spot hspot ih =>
      rw [update_within hspot, update_within hspot, ih]
  | later name item inner rest index spot hspot ih => rw [update_rest, update_rest, ih]

-- The rows as they are.
theorem update_self (h : forest.spot? index = some spot) :
    forest.update (fun _ _ => (spot.item, spot.inner)) index = forest := update_eq_self h rfl

end Forest

namespace Nodes

variable {σ : Type} {rows front back : List (Row NodeState)}

-- The nodes of the given rows.
def ofRows (rows : List (Row NodeState)) : Nodes := ⟨rows.toArray⟩

theorem get?_ofRows (rows : List (Row NodeState)) (id : NodeId) :
    (ofRows rows).get? id = rows[id.index]? := List.getElem?_toArray ..

theorem modify_ofRows (rows : List (Row NodeState)) (id : NodeId)
    (change : Row NodeState → Row NodeState) :
    (ofRows rows).modify id change = ofRows (rows.modify id.index change) := by
  simp [ofRows, Arena.modify]

theorem size_ofRows (rows : List (Row NodeState)) : (ofRows rows).size = rows.length :=
  List.size_toArray ..

theorem truncate_ofRows (rows : List (Row NodeState)) (count : Nat) :
    (ofRows rows).truncate count = ofRows (rows.take count) := by
  simp [ofRows, Arena.truncate]

theorem alloc_ofRows (rows : List (Row NodeState)) (row : Row NodeState) :
    ((ofRows rows).alloc row).2 = ofRows (rows ++ [row]) := by
  simp [ofRows, Arena.alloc, Arena.allocWith]

-- A node in the middle.

theorem get?_middle (front : List (Row NodeState)) (row : Row NodeState)
    (back : List (Row NodeState)) :
    (ofRows (front ++ row :: back)).get? ⟨front.length⟩ = some row := by
  rw [get?_ofRows, List.getElem?_append_right (Nat.le_refl _), Nat.sub_self]
  rfl

theorem modify_middle (row : Row NodeState) (change : Row NodeState → Row NodeState) :
    (ofRows (front ++ row :: back)).modify ⟨front.length⟩ change =
      ofRows (front ++ change row :: back) := by
  rw [modify_ofRows, modify_append_length]

-- What stands behind a node has the number that the node had before it was changed.
theorem length_append_node (front : List (Row NodeState)) (name : String) (item : NodeState)
    (parent : Option Nat) {below inner : Forest NodeState} (h : below.size = inner.size) :
    (front ++ (cons name item below nil).rows parent front.length).length =
      front.length + 1 + inner.size := by
  rw [List.length_append, length_rows, Forest.size, h, Forest.size]
  omega

-- What is known about one node of a forest, wherever that stands.
theorem modify_spot {forest : Forest NodeState} {index : Nat} {spot : Spot NodeState}
    (h : forest.spot? index = some spot) (front back : List (Row NodeState)) (parent : Option Nat)
    (change : NodeState → NodeState) :
    (ofRows (front ++ (forest.rows parent front.length ++ back))).modify ⟨front.length + index⟩
        (fun row => { row with item := change row.item }) =
      ofRows (front ++ ((forest.update (fun item inner => (change item, inner)) index).rows parent
        front.length ++ back)) := by
  obtain ⟨before, after, around, rfl, hrows⟩ := exists_rows_update h parent front.length
  have hself := hrows spot.item spot.inner rfl
  have hchanged := hrows (change spot.item) spot.inner rfl
  rw [update_self h] at hself
  rw [rows_cons_of_nil, List.append_assoc, List.cons_append] at hself hchanged
  rw [update_of_spot? h, hself, hchanged, ← List.length_append]
  simp only [List.append_assoc, List.cons_append]
  rw [← List.append_assoc front before, ← List.append_assoc front before]
  exact modify_middle ..

end Nodes

end Rtl
