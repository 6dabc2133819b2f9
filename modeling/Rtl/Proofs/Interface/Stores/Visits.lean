import Rtl.Proofs.Interface.Stores.Rows

namespace Rtl

open Forest

namespace Forest

variable {σ : Type} (act : NodeId → String → Bool → NodeState → σ → NodeState × σ)
  (extend : String → String → String)

-- A visit of all nodes of a forest, each before those inside it. The number of the first
-- is given.
def visit : Nat → String → Forest NodeState → σ → Forest NodeState × σ
  | _, _, nil, rest => (nil, rest)
  | first, stem, cons name item inner beside, rest =>
      let (item, rest) := act ⟨first⟩ (extend stem name) inner.isEmpty item rest
      let (below, rest) := visit (first + 1) (extend stem name) inner rest
      let (beside, rest) := visit (first + 1 + inner.size) stem beside rest
      (cons name item below beside, rest)

theorem size_visit (first : Nat) (stem : String) (forest : Forest NodeState) (rest : σ) :
    (forest.visit act extend first stem rest).1.size = forest.size := by
  induction forest generalizing first stem rest with
  | nil => rfl
  | cons name item inner beside ihi ihr => simp only [visit, size, ihi, ihr]

theorem entries_visit (first number : Nat) (stem : String) (forest : Forest NodeState) (rest : σ) :
    (forest.visit act extend first stem rest).1.entries number = forest.entries number := by
  induction forest generalizing first number stem rest with
  | nil => rfl
  | cons name item inner beside _ ih => simp only [visit, entries, size_visit, ih]

end Forest

theorem Forest.rows_split {α : Type} (name : String) (item : α) (inner beside : Forest α)
    (parent : Option Nat) (first : Nat) : (cons name item inner beside).rows parent first =
      (cons name item inner nil).rows parent first ++
        beside.rows parent (first + 1 + inner.size) := by
  simp only [rows, List.append_nil, List.cons_append]

namespace Nodes

variable {σ : Type} {act : NodeId → String → Bool → NodeState → σ → NodeState × σ}
  {extend : String → String → String}

-- Visits members one after the other.
def visitMembers (act : NodeId → String → Bool → NodeState → σ → NodeState × σ)
    (extend : String → String → String) (levels : Nat) (stem : String) (now : Nodes × σ)
    (members : List (String × Nat)) : Option (Nodes × σ) :=
  members.foldlM (fun now (name, number) =>
    visit act extend levels ⟨number⟩ (extend stem name) now) now

theorem visit_succ (levels : Nat) (id : NodeId) (stem : String) (nodes : Nodes) (rest : σ) :
    visit act extend (levels + 1) id stem (nodes, rest) = (nodes.get? id).bind fun row =>
      visitMembers act extend levels stem
        (nodes.setState id (act id stem row.members.isEmpty row.item rest).1,
          (act id stem row.members.isEmpty row.item rest).2) row.members := rfl

-- What is said about members of a node, at whatever place they stand.
def Visits (act : NodeId → String → Bool → NodeState → σ → NodeState × σ)
    (extend : String → String → String) (forest : Forest NodeState) : Prop :=
  ∀ (front back : List (Row NodeState)) (parent : Option Nat) (levels : Nat) (stem : String)
    (rest : σ), forest.size ≤ levels →
      visitMembers act extend levels stem
          (ofRows (front ++ (forest.rows parent front.length ++ back)), rest)
          (forest.entries front.length) =
        some (ofRows (front ++ ((forest.visit act extend front.length stem rest).1.rows parent
            front.length ++ back)), (forest.visit act extend front.length stem rest).2)

-- A node is visited before its members, which may be assumed to be visited as they should.
theorem visit_node {inner : Forest NodeState} (h : Visits act extend inner)
    (front back : List (Row NodeState)) (name : String) (item : NodeState) (parent : Option Nat)
    {levels : Nat} (hlevels : inner.size < levels) (stem : String) (rest : σ) :
    visit act extend levels ⟨front.length⟩ stem
        (ofRows (front ++ ((cons name item inner .nil).rows parent front.length ++ back)), rest) =
      let (item, rest) := act ⟨front.length⟩ stem inner.isEmpty item rest
      let (inner, rest) := inner.visit act extend (front.length + 1) stem rest
      some (ofRows (front ++ ((cons name item inner .nil).rows parent front.length ++ back)),
        rest) := by
  obtain ⟨levels, rfl⟩ : ∃ below, levels = below + 1 := ⟨levels - 1, by omega⟩
  rw [Forest.rows, Forest.rows, List.append_nil, List.cons_append, visit_succ, get?_middle,
    Option.bind_some, setState, modify_middle]
  simp only [isEmpty_entries]
  have hinner := h (front ++ [⟨name, (act ⟨front.length⟩ stem inner.isEmpty item rest).1, parent,
    inner.entries (front.length + 1)⟩]) back (some front.length) levels stem
    (act ⟨front.length⟩ stem inner.isEmpty item rest).2 (Nat.le_of_lt_succ hlevels)
  rw [List.length_append, List.length_singleton] at hinner
  simp only [List.append_assoc, List.singleton_append] at hinner
  rw [hinner]
  simp only [Forest.rows, entries_visit, List.append_nil, List.cons_append]

theorem visits (forest : Forest NodeState) : Visits act extend forest := by
  induction forest with
  | nil => exact fun _ _ _ _ _ _ _ => rfl
  | cons name item inner beside ihi ihr =>
      intro front back parent levels stem rest hlevels
      simp only [Forest.size] at hlevels
      have hfirst := visit_node ihi front
        (beside.rows parent (front.length + 1 + inner.size) ++ back) name item parent
        (show inner.size < levels by omega) (extend stem name) rest
      rw [rows_split, List.append_assoc, entries, visitMembers, List.foldlM_cons]
      simp only [hfirst, Option.bind_eq_bind, Option.bind_some]
      -- The members behind the first stand behind all that this one has.
      generalize hown : act ⟨front.length⟩ (extend stem name) inner.isEmpty item rest = own
      generalize hbelow : inner.visit act extend (front.length + 1) (extend stem name) own.2 = below
      have hsize : below.1.size = inner.size := hbelow ▸ size_visit ..
      have hbeside := ihr (front ++ (cons name own.1 below.1 .nil).rows parent front.length) back
        parent levels stem below.2 (by omega)
      rw [length_append_node front name own.1 parent hsize, List.append_assoc] at hbeside
      refine hbeside.trans ?_
      simp only [Forest.visit, hown, hbelow, Forest.rows, hsize, List.append_nil,
        List.cons_append, List.append_assoc]

end Nodes

namespace Synthesizer

-- How a synthesizer is stored.
def store (synth : Synthesizer) : Store :=
  ⟨.ofRows synth.rows, synth.registry.blueprints, synth.separator⟩

variable {synth : Synthesizer} {id : NodeId} {spot : Spot NodeState}

theorem size_store (synth : Synthesizer) : synth.store.size = synth.size :=
  (Nodes.size_ofRows _).trans (length_rows ..)

theorem get?_store_of_spot (h : synth.node? id = some spot) :
    ∃ row, synth.store.nodes.get? id = some row ∧ row.Shows id.index spot := by
  obtain ⟨row, hrow, hshows⟩ := exists_row_of_spot? none 0 h
  rw [Nat.zero_add] at hshows
  exact ⟨row, (Nodes.get?_ofRows ..).trans hrow, hshows⟩

theorem get?_store_of_none (h : synth.node? id = none) : synth.store.nodes.get? id = none := by
  cases hrow : synth.store.nodes.get? id with
  | none => rfl
  | some row =>
      obtain ⟨spot, hspot, -⟩ := exists_spot_of_row ((Nodes.get?_ofRows ..).symm.trans hrow)
      cases h.symm.trans hspot

-- A node stands between those before it and those that are not below it. A change that
-- keeps the number of nodes keeps these.
theorem exists_nodes_update (h : synth.node? id = some spot) :
    ∃ front back around, id = ⟨front.length⟩ ∧
      synth.store.nodes = .ofRows (front ++
        ((cons spot.name spot.item spot.inner nil).rows around front.length ++ back)) ∧
      ∀ item inner, inner.size = spot.inner.size →
        (synth.update id fun _ _ => (item, inner)).store.nodes = .ofRows (front ++
          ((cons spot.name item inner nil).rows around front.length ++ back)) := by
  obtain ⟨index⟩ := id
  obtain ⟨front, back, around, rfl, hrows⟩ := exists_rows_update h none 0
  have hnodes (item : NodeState) (inner : Forest NodeState)
      (hsize : inner.size = spot.inner.size) :
      (synth.update ⟨front.length⟩ fun _ _ => (item, inner)).store.nodes = .ofRows (front ++
        ((cons spot.name item inner nil).rows around front.length ++ back)) := by
    have hrow := hrows item inner hsize
    rw [Nat.zero_add, List.append_assoc] at hrow
    exact congrArg Nodes.ofRows hrow
  have hself := hnodes spot.item spot.inner rfl
  rw [update, update_self h] at hself
  exact ⟨front, back, around, rfl, hself, hnodes⟩

-- What a visit of a node and all below it comes to.
theorem visit_store {σ : Type} {act : NodeId → String → Bool → NodeState → σ → NodeState × σ}
    {extend : String → String → String} (h : synth.node? id = some spot) (stem : String)
    (rest : σ) :
    Nodes.visit act extend synth.store.size id stem (synth.store.nodes, rest) =
      let (item, rest) := act id stem spot.inner.isEmpty spot.item rest
      let (inner, rest) := spot.inner.visit act extend (id.index + 1) stem rest
      some ((synth.update id fun _ _ => (item, inner)).store.nodes, rest) := by
  obtain ⟨front, back, around, rfl, hself, hnodes⟩ := exists_nodes_update h
  have hlt : spot.inner.size < synth.store.size :=
    synth.size_store ▸ Nat.lt_of_le_of_lt (Nat.le_add_left ..) (size_inner_of_spot? h)
  rw [hself, Nodes.visit_node (Nodes.visits spot.inner) front back _ _ _ hlt]
  simp only [hnodes _ _ (size_visit ..)]

end Synthesizer

end Rtl
