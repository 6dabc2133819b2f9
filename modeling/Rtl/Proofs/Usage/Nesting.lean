import Mathlib
import Rtl.Statement

namespace Rtl.Statement

-- The bodies directly inside a statement.
def bodies : Statement → List (List Statement)
  | .assign .. => []
  | .branch _ _ body elifs otherwise => body :: (elifs.map (·.2) ++ [otherwise])
  | .select _ _ cases => cases.map (·.2)
  | .wait .. => []

-- The statements of a body and those nested in them, at any depth.
inductive Within (s : Statement) : List Statement → Prop
  | here {body : List Statement} (h : s ∈ body) : Within s body
  | nested {body inner : List Statement} {t : Statement} (ht : t ∈ body)
      (hinner : inner ∈ t.bodies) (h : Within s inner) : Within s body

variable {s : Statement} {body : List Statement}

theorem walkAll_eq_flatMap (body : List Statement) : walkAll body = body.flatMap walk := by
  induction body with
  | nil => rfl
  | cons s rest ih => rw [walkAll, ih, List.flatMap_cons]

theorem walkElifs_eq_flatMap (elifs : List (List Expr × List Statement)) :
    walkElifs elifs = (elifs.map (·.2)).flatMap walkAll := by
  induction elifs with
  | nil => rfl
  | cons elif rest ih => rw [walkElifs, ih, List.map_cons, List.flatMap_cons]

theorem walkCases_eq_flatMap (cases : List (Option Expr × List Statement)) :
    walkCases cases = (cases.map (·.2)).flatMap walkAll := by
  induction cases with
  | nil => rfl
  | cons case rest ih => rw [walkCases, ih, List.map_cons, List.flatMap_cons]

theorem walk_eq_cons (s : Statement) : s.walk = s :: s.bodies.flatMap walkAll := by
  cases s with
  | assign | wait => rfl
  | branch id condition body elifs otherwise =>
      simp only [walk, bodies, walkElifs_eq_flatMap, List.flatMap_cons, List.flatMap_append,
        List.flatMap_nil, List.append_nil, List.append_assoc]
  | select id subject cases => simp only [walk, bodies, walkCases_eq_flatMap]

theorem sizeOf_lt_of_mem_bodies {inner : List Statement} (h : inner ∈ s.bodies) :
    sizeOf inner < sizeOf s := by
  have hpair {α : Type} [SizeOf α] {entries : List (α × List Statement)}
      (hmem : inner ∈ entries.map (·.2)) : sizeOf inner < sizeOf entries := by
    obtain ⟨⟨first, other⟩, hentry, rfl⟩ := List.mem_map.mp hmem
    have hlt := List.sizeOf_lt_of_mem hentry
    simp only [Prod.mk.sizeOf_spec] at hlt ⊢
    omega
  cases s with
  | assign | wait => cases h
  | branch id condition body elifs otherwise =>
      simp only [bodies, List.mem_cons, List.mem_append, List.not_mem_nil, or_false] at h
      simp only [branch.sizeOf_spec]
      rcases h with rfl | h | rfl
      · omega
      · have := hpair h
        omega
      · omega
  | select id subject cases =>
      have := hpair h
      simp only [select.sizeOf_spec]
      omega

theorem within_of_mem_walkAll (body : List Statement) (h : s ∈ walkAll body) : s.Within body := by
  rw [walkAll_eq_flatMap, List.mem_flatMap] at h
  obtain ⟨t, ht, h⟩ := h
  rw [walk_eq_cons, List.mem_cons, List.mem_flatMap] at h
  rcases h with rfl | ⟨inner, hinner, h⟩
  · exact .here ht
  · exact .nested ht hinner (within_of_mem_walkAll inner h)
termination_by sizeOf body
decreasing_by exact (sizeOf_lt_of_mem_bodies hinner).trans (List.sizeOf_lt_of_mem ht)

-- The walk over a body comes to everything that is nested in it.
theorem mem_walkAll_iff : s ∈ walkAll body ↔ s.Within body := by
  refine ⟨within_of_mem_walkAll body, fun h => ?_⟩
  induction h with
  | here h =>
      rw [walkAll_eq_flatMap]
      exact List.mem_flatMap.mpr ⟨s, h, mem_walk_self s⟩
  | @nested body inner t ht hinner h ih =>
      rw [walkAll_eq_flatMap]
      refine List.mem_flatMap.mpr ⟨t, ht, ?_⟩
      rw [walk_eq_cons]
      exact List.mem_cons_of_mem _ (List.mem_flatMap.mpr ⟨inner, hinner, ih⟩)

theorem mem_targets_iff {id : SignalId} {statement : StatementId} :
    (id, statement) ∈ targets body ↔
      ∃ source indexes onEvent, (assign statement id source indexes onEvent).Within body := by
  simp only [targets, List.mem_filterMap, mem_walkAll_iff]
  constructor
  · rintro ⟨s, hs, htarget⟩
    cases s with
    | assign other destination source indexes onEvent =>
        obtain ⟨rfl, rfl⟩ := Prod.mk.inj (Option.some.inj htarget)
        exact ⟨source, indexes, onEvent, hs⟩
    | branch | select | wait => cases htarget
  · rintro ⟨source, indexes, onEvent, hs⟩
    exact ⟨_, hs, rfl⟩

end Rtl.Statement
