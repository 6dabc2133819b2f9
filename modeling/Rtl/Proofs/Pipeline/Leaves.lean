import Rtl.Proofs.Interface.Forests
import Rtl.Proofs.Interface.Sides

namespace Rtl.Forest

variable {α : Type}

-- The entries that contain no others, each with its number. The number of the
-- first entry is given.
def numberedLeaves : Nat → Forest α → List (NodeId × α)
  | _, nil => []
  | first, cons _ item nil rest => (⟨first⟩, item) :: rest.numberedLeaves (first + 1)
  | first, cons _ _ (cons name below inside beside) rest =>
      (cons name below inside beside).numberedLeaves (first + 1) ++
        rest.numberedLeaves (first + 1 + (cons name below inside beside).size)

theorem size_cons_pos (name : String) (item : α) (inner rest : Forest α) :
    0 < (cons name item inner rest).size := by
  rw [size]
  omega

theorem numberedLeaves_of_size_pos {inner : Forest α} (h : 0 < inner.size) (first : Nat)
    (name : String) (item : α) (rest : Forest α) :
    (cons name item inner rest).numberedLeaves first =
      inner.numberedLeaves (first + 1) ++ rest.numberedLeaves (first + 1 + inner.size) := by
  cases inner with
  | nil => cases h
  | cons => rfl

theorem numberedLeaves_append (first : Nat) (front back : Forest α) :
    (front.append back).numberedLeaves first =
      front.numberedLeaves first ++ back.numberedLeaves (first + front.size) := by
  induction front generalizing first with
  | nil => rfl
  | cons name item inner rest _ ih =>
      cases inner with
      | nil =>
          have hnext : first + 1 + rest.size = first + (1 + 0 + rest.size) := by omega
          simp only [append, numberedLeaves, size, ih, hnext, List.cons_append]
      | cons first' below inside beside =>
          have hnext : first + 1 + (cons first' below inside beside).size + rest.size =
              first + (1 + (cons first' below inside beside).size + rest.size) := by
            omega
          rw [append, numberedLeaves, numberedLeaves, ih, hnext, List.append_assoc]
          rfl

theorem exists_spot?_of_mem_numberedLeaves {forest : Forest α} {first : Nat} {leaf : NodeId × α}
    (h : leaf ∈ forest.numberedLeaves first) :
    ∃ index spot, leaf.1.index = first + index ∧ forest.spot? index = some spot ∧
      spot.inner = nil ∧ spot.item = leaf.2 := by
  induction forest generalizing first with
  | nil => cases h
  | cons name item inner rest ihi ihr =>
      have hrest (hmem : leaf ∈ rest.numberedLeaves (first + 1 + inner.size)) :
          ∃ index spot, leaf.1.index = first + index ∧
            (cons name item inner rest).spot? index = some spot ∧ spot.inner = nil ∧
              spot.item = leaf.2 := by
        obtain ⟨index, spot, hindex, hspot, hleaf⟩ := ihr hmem
        exact ⟨index + 1 + inner.size, spot, by omega, spot?_later hspot, hleaf⟩
      cases inner with
      | nil =>
          rcases List.mem_cons.mp h with rfl | hmem
          · exact ⟨0, _, rfl, rfl, rfl, rfl⟩
          · exact hrest hmem
      | cons first' below inside beside =>
          rcases List.mem_append.mp h with hmem | hmem
          · obtain ⟨index, spot, hindex, hspot, hleaf⟩ := ihi hmem
            exact ⟨index + 1, _, by omega, spot?_within hspot, hleaf⟩
          · exact hrest hmem

-- The ports that are held are those of the leaves.
theorem map_bindings (first : Nat) (forest : Forest NodeState) :
    (forest.bindings first).map (·.1) =
      (forest.numberedLeaves first).filterMap fun leaf => leaf.2.port := by
  induction forest generalizing first with
  | nil => rfl
  | cons name state inner rest ihi ihr =>
      cases inner with
      | nil =>
          simp only [bindings, numberedLeaves, held, List.map_append, ihr, List.filterMap_cons,
            size, Nat.add_zero]
          cases state.port with
          | none | some => rfl
      | cons first' below inside beside =>
          rw [bindings, numberedLeaves, held, List.map_append, List.map_append, ihi, ihr,
            List.filterMap_append]
          rfl

theorem Sided.numberedLeaves {leaf : NodeState → Prop} {side : Side} {forest : Forest NodeState}
    (h : forest.Sided leaf side) {first : Nat} :
    ∀ entry ∈ forest.numberedLeaves first, leaf entry.2 := by
  induction h generalizing first with
  | nil => exact nofun
  | leaf name hside hleaf hrest ih => exact List.forall_mem_cons.mpr ⟨hleaf, ih⟩
  | nested name hside hinner hrest ihi ihr => exact List.forall_mem_append.mpr ⟨ihi, ihr⟩

end Rtl.Forest
