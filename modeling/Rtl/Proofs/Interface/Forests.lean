import Rtl.Proofs.Interface.Bindings

namespace Rtl.Forest

variable {α β : Type}

-- The names on the outermost level.
def names : Forest α → List String
  | nil => []
  | cons name _ _ rest => name :: rest.names

-- No level has a name twice.
def Distinct : Forest α → Prop
  | nil => True
  | cons name _ inner rest => name ∉ rest.names ∧ inner.Distinct ∧ rest.Distinct

def All (p : α → Prop) : Forest α → Prop
  | nil => True
  | cons _ item inner rest => p item ∧ inner.All p ∧ rest.All p

-- The entries that contain no others, each with the names that lead to it, in
-- the order of their numbers.
def leaves (path : List String) : Forest α → List (List String × α)
  | nil => []
  | cons name item nil rest => (path ++ [name], item) :: rest.leaves path
  | cons name _ (cons first below inside beside) rest =>
      (cons first below inside beside).leaves (path ++ [name]) ++ rest.leaves path

-- The same for an entry and what is inside it; the path starts at the entry.
def Spot.leaves (spot : Spot α) : List (List String × α) :=
  match spot.inner with
  | nil => [([], spot.item)]
  | inner => inner.leaves []

theorem entries_append (first : Nat) (front back : Forest α) :
    (front.append back).entries first =
      front.entries first ++ back.entries (first + front.size) := by
  induction front generalizing first with
  | nil => rfl
  | cons name item inner rest _ ih =>
      have hnext : first + 1 + inner.size + rest.size = first + (1 + inner.size + rest.size) := by
        omega
      simp only [append, entries, size, ih, hnext, List.cons_append]

theorem names_map (f : α → β) (forest : Forest α) : (forest.map f).names = forest.names := by
  induction forest with
  | nil => rfl
  | cons name item inner rest _ ih => simp only [map, names, ih]

theorem distinct_map (f : α → β) {forest : Forest α} :
    (forest.map f).Distinct ↔ forest.Distinct := by
  induction forest with
  | nil => rfl
  | cons name item inner rest ihi ihr => simp only [map, Distinct, names_map, ihi, ihr]

theorem all_map (f : α → β) (p : β → Prop) {forest : Forest α} :
    (forest.map f).All p ↔ forest.All fun item => p (f item) := by
  induction forest with
  | nil => rfl
  | cons name item inner rest ihi ihr => simp only [map, All, ihi, ihr]

theorem all_of_forall {p : α → Prop} (h : ∀ item, p item) (forest : Forest α) : forest.All p := by
  induction forest with
  | nil => trivial
  | cons name item inner rest ihi ihr => exact ⟨h item, ihi, ihr⟩

theorem map_map {γ : Type} (f : α → β) (g : β → γ) (forest : Forest α) :
    (forest.map f).map g = forest.map fun item => g (f item) := by
  induction forest with
  | nil => rfl
  | cons name item inner rest ihi ihr => simp only [map, ihi, ihr]

theorem leaves_map (f : α → β) (path : List String) (forest : Forest α) :
    (forest.map f).leaves path = (forest.leaves path).map fun (path, item) => (path, f item) := by
  induction forest generalizing path with
  | nil => rfl
  | cons name item inner rest ihi ihr =>
      cases inner with
      | nil => simp only [map, leaves, ihr, List.map_cons]
      | cons first below inside beside =>
          have hinner := ihi (path ++ [name])
          simp only [map] at hinner
          simp only [map, leaves, hinner, ihr, List.map_append]

-- Every path to a leaf goes through a name of the outermost level.
theorem exists_name_of_mem_leaves {path : List String} {forest : Forest α}
    {entry : List String × α} (h : entry ∈ forest.leaves path) :
    ∃ name ∈ forest.names, (path ++ [name]) <+: entry.1 := by
  induction forest generalizing path with
  | nil => cases h
  | cons name item inner rest ihi ihr =>
      have hrest (hmem : entry ∈ rest.leaves path) :
          ∃ other ∈ (cons name item inner rest).names, (path ++ [other]) <+: entry.1 := by
        obtain ⟨other, hother, hbelow⟩ := ihr hmem
        exact ⟨other, List.mem_cons_of_mem _ hother, hbelow⟩
      cases inner with
      | nil =>
          rcases List.mem_cons.mp h with rfl | hmem
          · exact ⟨name, List.mem_cons_self, List.prefix_rfl⟩
          · exact hrest hmem
      | cons first below inside beside =>
          rcases List.mem_append.mp h with hmem | hmem
          · obtain ⟨other, -, hbelow⟩ := ihi hmem
            exact ⟨name, List.mem_cons_self, (List.prefix_append _ [other]).trans hbelow⟩
          · exact hrest hmem

-- Different leaves have different paths.
theorem nodup_leaves {forest : Forest α} (h : forest.Distinct) (path : List String) :
    ((forest.leaves path).map (·.1)).Nodup := by
  induction forest generalizing path with
  | nil => exact List.nodup_nil
  | cons name item inner rest ihi ihr =>
      obtain ⟨hname, hinner, hrest⟩ := h
      -- Paths that begin with this name and paths that begin with another.
      have hother {entry : List String × α} (hmem : entry ∈ rest.leaves path)
          (hbelow : (path ++ [name]) <+: entry.1) : False := by
        obtain ⟨other, hother, hbelow'⟩ := exists_name_of_mem_leaves hmem
        have heq := List.IsPrefix.eq_of_length
          (List.prefix_of_prefix_length_le hbelow hbelow' (by simp)) (by simp)
        obtain rfl : name = other := by simpa using heq
        exact hname hother
      cases inner with
      | nil =>
          refine List.nodup_cons.mpr ⟨?_, ihr hrest path⟩
          intro hmem
          obtain ⟨entry, hentry, heq⟩ := List.mem_map.mp hmem
          exact hother hentry (heq ▸ List.prefix_rfl)
      | cons first below inside beside =>
          simp only [leaves, List.map_append]
          refine List.Nodup.append (ihi hinner _) (ihr hrest path) ?_
          intro taken hinside hmem
          obtain ⟨entry, hentry, rfl⟩ := List.mem_map.mp hinside
          obtain ⟨entry', hentry', heq⟩ := List.mem_map.mp hmem
          obtain ⟨other, -, hbelow⟩ := exists_name_of_mem_leaves hentry
          exact hother hentry' (heq ▸ (List.prefix_append _ [other]).trans hbelow)

theorem find?_of_ne {name wanted : String} {item : α} {inner rest : Forest α} (h : name ≠ wanted) :
    (cons name item inner rest).find? wanted = rest.find? wanted := by
  simp only [find?, if_neg h]

end Rtl.Forest
