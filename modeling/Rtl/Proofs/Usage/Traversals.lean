import Rtl.Architecture
import Rtl.Proofs.Usage.Nesting

namespace Rtl

namespace Statement

variable {s t : Statement} {body rest visited more : List Statement}

-- The statements directly inside a statement, one body after the other.
def nested (s : Statement) : List Statement := s.bodies.flatten

-- The statement at a place. A place is a list of numbers that each pick one of the
-- statements directly inside the one before.
def at? (s : Statement) : List Nat → Option Statement
  | [] => some s
  | index :: below => (s.nested[index]?).bind (·.at? below)

-- The same below a body, which is itself no statement.
def inside? (body : List Statement) : List Nat → Option Statement
  | [] => none
  | index :: below => (body[index]?).bind (·.at? below)

theorem walk_eq_nested (s : Statement) : s.walk = s :: s.nested.flatMap walk := by
  have hall : walkAll = fun body => body.flatMap walk := funext walkAll_eq_flatMap
  rw [walk_eq_cons, nested, hall, ← List.flatMap_id, List.flatMap_assoc]
  rfl

theorem sizeOf_lt_of_mem_nested (h : t ∈ s.nested) : sizeOf t < sizeOf s := by
  obtain ⟨inner, hinner, hmem⟩ := List.mem_flatten.mp h
  exact (List.sizeOf_lt_of_mem hmem).trans (sizeOf_lt_of_mem_bodies hinner)

theorem nested_induction {p : Statement → Prop} (h : ∀ s : Statement, (∀ t ∈ s.nested, p t) → p s)
    (s : Statement) : p s :=
  h s fun t _ => nested_induction h t
termination_by sizeOf s
decreasing_by exact sizeOf_lt_of_mem_nested ‹_›

-- All that can be found at places is there exactly once, in the order of the places. A
-- place comes before those below it and before those to the right of it.
structure InOrder (found? : List Nat → Option Statement) (places : List (List Nat))
    (visited : List Statement) : Prop where
  ordered : places.Pairwise (· < ·)
  complete : ∀ place, (found? place).isSome → place ∈ places
  found : visited.map some = places.map found?

theorem InOrder.mem_iff {found? : List Nat → Option Statement} {places : List (List Nat)}
    (h : InOrder found? places visited) (place : List Nat) :
    place ∈ places ↔ (found? place).isSome := by
  refine ⟨fun hmem => ?_, h.complete place⟩
  have hfound : found? place ∈ visited.map some := h.found ▸ List.mem_map_of_mem hmem
  obtain ⟨s, -, hs⟩ := List.mem_map.mp hfound
  rw [← hs, Option.isSome_some]

-- The place of what stands behind one more statement.
def later : List Nat → List Nat
  | [] => []
  | index :: below => (index + 1) :: below

theorem later_lt_later {a b : List Nat} (h : a < b) : later a < later b := by
  cases a with
  | nil =>
      cases b with
      | nil => exact absurd h (lt_irrefl _)
      | cons => exact List.nil_lt_cons ..
  | cons i a =>
      cases b with
      | nil => exact absurd h (List.not_lt_nil _)
      | cons j b =>
          rw [List.cons_lt_cons_iff] at h
          rw [later, later, List.cons_lt_cons_iff, Nat.add_lt_add_iff_right,
            Nat.add_right_cancel_iff]
          exact h

theorem inside?_later (s : Statement) (rest : List Statement) (place : List Nat) :
    inside? (s :: rest) (later place) = inside? rest place := by
  cases place with
  | nil | cons => rfl

theorem inOrder_nil : InOrder (inside? []) [] [] := by
  refine ⟨.nil, fun place hplace => ?_, rfl⟩
  cases place with
  | nil | cons => cases hplace

theorem InOrder.cons {first others : List (List Nat)}
    (hfirst : InOrder s.at? first visited) (hothers : InOrder (inside? rest) others more) :
    InOrder (inside? (s :: rest)) (first.map (0 :: ·) ++ others.map later)
      (visited ++ more) := by
  refine ⟨List.pairwise_append.mpr ⟨?_, ?_, ?_⟩, fun place hplace => ?_, ?_⟩
  · rw [List.pairwise_map]
    exact hfirst.ordered.imp fun hlt => List.cons_lt_cons_iff.mpr (.inr ⟨rfl, hlt⟩)
  · rw [List.pairwise_map]
    exact hothers.ordered.imp later_lt_later
  · intro one hone other hother
    obtain ⟨below, -, rfl⟩ := List.mem_map.mp hone
    obtain ⟨place, hplace, rfl⟩ := List.mem_map.mp hother
    cases place with
    | nil => cases (hothers.mem_iff []).mp hplace
    | cons => exact List.cons_lt_cons_iff.mpr (.inl (Nat.succ_pos _))
  · cases place with
    | nil => cases hplace
    | cons index below =>
        cases index with
        | zero =>
            exact List.mem_append_left _ (List.mem_map_of_mem (hfirst.complete below hplace))
        | succ index =>
            exact List.mem_append_right _
              (List.mem_map_of_mem (f := later) (hothers.complete (index :: below) hplace))
  · rw [List.map_append, List.map_append, List.map_map, List.map_map, hfirst.found,
      hothers.found]
    exact congrArg _ (List.map_congr_left fun place _ => (inside?_later s rest place).symm)

theorem exists_inOrder_flatMap {walked : Statement → List Statement}
    (h : ∀ s ∈ body, ∃ places, InOrder s.at? places (walked s)) :
    ∃ places, InOrder (inside? body) places (body.flatMap walked) := by
  induction body with
  | nil => exact ⟨[], inOrder_nil⟩
  | cons s rest ih =>
      obtain ⟨⟨first, hfirst⟩, hrest⟩ := List.forall_mem_cons.mp h
      obtain ⟨others, hothers⟩ := ih hrest
      exact ⟨_, hfirst.cons hothers⟩

-- A statement comes before all that is inside it.
theorem InOrder.around {places : List (List Nat)} (h : InOrder (inside? s.nested) places visited) :
    InOrder s.at? ([] :: places) (s :: visited) := by
  have hplaces {place : List Nat} (hmem : place ∈ places) : place ≠ [] := by
    rintro rfl
    cases (h.mem_iff []).mp hmem
  refine ⟨List.pairwise_cons.mpr ⟨fun place hmem => ?_, h.ordered⟩, fun place hplace => ?_, ?_⟩
  · obtain ⟨index, below, rfl⟩ := List.exists_cons_of_ne_nil (hplaces hmem)
    exact List.nil_lt_cons ..
  · cases place with
    | nil => exact List.mem_cons_self
    | cons index below => exact List.mem_cons_of_mem _ (h.complete (index :: below) hplace)
  · rw [List.map_cons, List.map_cons, h.found]
    refine congrArg _ (List.map_congr_left fun place hmem => ?_)
    obtain ⟨index, below, rfl⟩ := List.exists_cons_of_ne_nil (hplaces hmem)
    rfl

theorem exists_inOrder_walk (s : Statement) : ∃ places, InOrder s.at? places s.walk := by
  induction s using nested_induction with
  | h s ih =>
      obtain ⟨places, hplaces⟩ := exists_inOrder_flatMap ih
      rw [walk_eq_nested]
      exact ⟨_, hplaces.around⟩

-- Zero for a body without statements is never larger than an identifier.

theorem maxIdAll_append (front rest : List Statement) :
    maxIdAll (front ++ rest) = max (maxIdAll front) (maxIdAll rest) := by
  induction front with
  | nil => rw [List.nil_append, maxIdAll, Nat.zero_max]
  | cons s front ih => rw [List.cons_append, maxIdAll, maxIdAll, ih, Nat.max_assoc]

theorem maxIdElifs_eq (elifs : List (List Expr × List Statement)) :
    maxIdElifs elifs = maxIdAll (elifs.map (·.2)).flatten := by
  induction elifs with
  | nil => rfl
  | cons elif rest ih =>
      rw [maxIdElifs, ih, List.map_cons, List.flatten_cons, maxIdAll_append]

theorem maxIdCases_eq (cases : List (Option Expr × List Statement)) :
    maxIdCases cases = maxIdAll (cases.map (·.2)).flatten := by
  induction cases with
  | nil => rfl
  | cons case rest ih =>
      rw [maxIdCases, ih, List.map_cons, List.flatten_cons, maxIdAll_append]

theorem maxId_eq_nested (s : Statement) : s.maxId = max s.id.index (maxIdAll s.nested) := by
  cases s with
  | assign | wait => exact (Nat.max_zero _).symm
  | branch id condition body elifs otherwise =>
      simp only [maxId, nested, bodies, List.flatten_cons, List.flatten_append, List.flatten_nil,
        List.append_nil, maxIdAll_append, maxIdElifs_eq]
      rfl
  | select id subject cases => rw [maxId, nested, bodies, maxIdCases_eq, Statement.id]

theorem maxId_le_maxIdAll (h : s ∈ body) : s.maxId ≤ maxIdAll body := by
  induction body with
  | nil => cases h
  | cons t rest ih =>
      rw [maxIdAll]
      obtain rfl | hrest := List.mem_cons.mp h
      · exact Nat.le_max_left ..
      · exact (ih hrest).trans (Nat.le_max_right ..)

theorem exists_maxId_eq_maxIdAll (h : body ≠ []) : ∃ s ∈ body, s.maxId = maxIdAll body := by
  induction body with
  | nil => exact absurd rfl h
  | cons t rest ih =>
      rw [maxIdAll]
      by_cases hrest : rest = []
      · exact ⟨t, List.mem_cons_self, by rw [hrest, maxIdAll, Nat.max_zero]⟩
      · obtain ⟨s, hs, hmax⟩ := ih hrest
        obtain hle | hle := Nat.le_total t.maxId (maxIdAll rest)
        · exact ⟨s, List.mem_cons_of_mem _ hs, hmax.trans (Nat.max_eq_right hle).symm⟩
        · exact ⟨t, List.mem_cons_self, (Nat.max_eq_left hle).symm⟩

-- The largest identifier bounds all that the walk comes to.
theorem id_le_maxId_of_mem_walk (s : Statement) : ∀ t ∈ s.walk, t.id.index ≤ s.maxId := by
  induction s using nested_induction with
  | h s ih =>
      intro t ht
      rw [walk_eq_nested] at ht
      rw [maxId_eq_nested]
      obtain rfl | hbelow := List.mem_cons.mp ht
      · exact Nat.le_max_left ..
      · obtain ⟨inner, hinner, hmem⟩ := List.mem_flatMap.mp hbelow
        exact ((ih inner hinner t hmem).trans (maxId_le_maxIdAll hinner)).trans
          (Nat.le_max_right ..)

theorem exists_maxId_of_walk (s : Statement) : ∃ t ∈ s.walk, t.id.index = s.maxId := by
  induction s using nested_induction with
  | h s ih =>
      rw [walk_eq_nested, maxId_eq_nested]
      obtain hlt | hle := Nat.lt_or_ge s.id.index (maxIdAll s.nested)
      · have hne : s.nested ≠ [] := by
          intro hnone
          rw [hnone] at hlt
          exact Nat.not_lt_zero _ hlt
        obtain ⟨inner, hinner, hmax⟩ := exists_maxId_eq_maxIdAll hne
        obtain ⟨t, ht, hid⟩ := ih inner hinner
        refine ⟨t, List.mem_cons_of_mem _ (List.mem_flatMap.mpr ⟨inner, hinner, ht⟩), ?_⟩
        rw [hid, hmax, Nat.max_eq_right (Nat.le_of_lt hlt)]
      · exact ⟨s, List.mem_cons_self, (Nat.max_eq_left hle).symm⟩

theorem max?_ids_walk (s : Statement) : (s.walk.map (·.id.index)).max? = some s.maxId := by
  rw [List.max?_eq_some_iff, List.forall_mem_map, List.mem_map]
  exact ⟨s.exists_maxId_of_walk, s.id_le_maxId_of_mem_walk⟩

end Statement

namespace Process

open Statement

variable {process : Process} {largest : StatementId}

theorem maxStatementId?_eq_some_iff : process.maxStatementId? = some largest ↔
    process.body ≠ [] ∧ largest.index = maxIdAll process.body := by
  rw [maxStatementId?, Option.ite_none_left_eq_some, List.isEmpty_iff, Option.some_inj]
  exact and_congr_right fun _ => ⟨fun h => congrArg Id.index h.symm, fun h =>
    Id.index_injective h.symm⟩

theorem id_le_maxStatementId? (h : process.maxStatementId? = some largest) {s : Statement}
    (hs : s.Within process.body) : s.id.index ≤ largest.index := by
  rw [← mem_walkAll_iff, walkAll_eq_flatMap, List.mem_flatMap] at hs
  obtain ⟨t, ht, hs⟩ := hs
  rw [(maxStatementId?_eq_some_iff.mp h).2]
  exact (t.id_le_maxId_of_mem_walk s hs).trans (maxId_le_maxIdAll ht)

theorem exists_maxStatementId? (h : process.maxStatementId? = some largest) :
    ∃ s : Statement, s.Within process.body ∧ s.id = largest := by
  obtain ⟨hne, hlargest⟩ := maxStatementId?_eq_some_iff.mp h
  obtain ⟨t, ht, hmax⟩ := exists_maxId_eq_maxIdAll hne
  obtain ⟨s, hs, hid⟩ := t.exists_maxId_of_walk
  refine ⟨s, ?_, Id.index_injective (hid.trans (hmax.trans hlargest.symm))⟩
  rw [← mem_walkAll_iff, walkAll_eq_flatMap]
  exact List.mem_flatMap.mpr ⟨t, ht, hs⟩

end Process

-- The walk over a statement comes to each place in it exactly once, from the top to the
-- bottom and from the left to the right, and the largest identifier is that of all that it
-- comes to. So the one of a process belongs to a statement somewhere in its body, and no
-- statement there has a larger one.
theorem Statement.walk_in_order_and_maxId :
    (∀ s : Statement,
      (∃ places : List (List Nat), places.Pairwise (· < ·) ∧
        (∀ place, place ∈ places ↔ (s.at? place).isSome) ∧
        s.walk.map some = places.map s.at?) ∧
      (s.walk.map (·.id.index)).max? = some s.maxId) ∧
    ∀ process : Process,
      (process.maxStatementId? = none ↔ process.body = []) ∧
      ∀ largest, process.maxStatementId? = some largest →
        (∃ s : Statement, s.Within process.body ∧ s.id = largest) ∧
        ∀ s : Statement, s.Within process.body → s.id.index ≤ largest.index := by
  refine ⟨fun s => ⟨?_, s.max?_ids_walk⟩, fun process => ⟨?_, fun largest h => ?_⟩⟩
  · obtain ⟨places, hplaces⟩ := s.exists_inOrder_walk
    exact ⟨places, hplaces.ordered, hplaces.mem_iff, hplaces.found⟩
  · rw [Process.maxStatementId?, ite_eq_left_iff, ← List.isEmpty_iff]
    simp
  · exact ⟨Process.exists_maxStatementId? h, fun s hs => Process.id_le_maxStatementId? h hs⟩

-- The body comes first, then each branch after it, then what is left.
example :
    let wait (id : Nat) : Statement := .wait ⟨id⟩ false none
    let branch : Statement :=
      .branch ⟨4⟩ [] [wait 2, .select ⟨3⟩ (.signal ⟨0⟩) [(none, [wait 9]), (none, [wait 1])]]
        [([], []), ([], [wait 7])] [wait 5]
    branch.walk.map (·.id.index) = [4, 2, 3, 9, 1, 7, 5] ∧ branch.maxId = 9 ∧
      (branch.at? [1, 1]).map (·.id.index) = some 1 := by
  decide

end Rtl
