namespace Rtl

-- Ordered trees with named entries. An entry is numbered by its place in
-- preorder, where each entry comes before those inside it.
inductive Forest (α : Type) where
  | nil
  | cons (name : String) (item : α) (inner rest : Forest α)
deriving DecidableEq, Repr

namespace Forest

variable {α β : Type}

def isEmpty : Forest α → Bool
  | nil => true
  | cons .. => false

def size : Forest α → Nat
  | nil => 0
  | cons _ _ inner rest => 1 + inner.size + rest.size

def map (f : α → β) : Forest α → Forest β
  | nil => nil
  | cons name item inner rest => cons name (f item) (inner.map f) (rest.map f)

def append : Forest α → Forest α → Forest α
  | nil, other => other
  | cons name item inner rest, other => cons name item inner (rest.append other)

-- The first entry of a name on the outermost level, and what is inside it.
def find? (wanted : String) : Forest α → Option (α × Forest α)
  | nil => none
  | cons name item inner rest => if name = wanted then some (item, inner) else rest.find? wanted

-- An entry with the names of the entries around it, outermost first.
structure Spot (α : Type) where
  above : List String
  name : String
  item : α
  inner : Forest α

def spot? : Nat → Forest α → Option (Spot α)
  | _, nil => none
  | index, cons name item inner rest =>
      if index = 0 then some ⟨[], name, item, inner⟩
      else if index ≤ inner.size then
        (inner.spot? (index - 1)).map fun spot => { spot with above := name :: spot.above }
      else rest.spot? (index - 1 - inner.size)

-- Changes the item of an entry and the entries inside it. The change keeps the
-- number of entries.
def update (change : α → Forest α → α × Forest α) : Nat → Forest α → Forest α
  | _, nil => nil
  | index, cons name item inner rest =>
      if index = 0 then
        let (item, inner) := change item inner
        cons name item inner rest
      else if index ≤ inner.size then cons name item (inner.update change (index - 1)) rest
      else cons name item inner (rest.update change (index - 1 - inner.size))

-- The entries of the outermost level with their numbers, the first of which is
-- given.
def entries : Nat → Forest α → List (String × Nat)
  | _, nil => []
  | first, cons name _ inner rest => (name, first) :: rest.entries (first + 1 + inner.size)

structure Row (α : Type) where
  name : String
  item : α
  parent : Option Nat
  members : List (String × Nat)

-- All entries in the order of their numbers, the first of which is given.
def rows (parent : Option Nat) : Nat → Forest α → List (Row α)
  | _, nil => []
  | first, cons name item inner rest =>
      ⟨name, item, parent, inner.entries (first + 1)⟩ ::
        (inner.rows (some first) (first + 1) ++ rest.rows parent (first + 1 + inner.size))

theorem size_lt_of_find? {wanted : String} {forest : Forest α} {item : α} {inner : Forest α}
    (h : forest.find? wanted = some (item, inner)) : inner.size < forest.size := by
  induction forest with
  | nil => simp [find?] at h
  | cons name other below rest _ ih =>
      simp only [find?] at h
      split at h
      · simp only [Option.some.injEq, Prod.mk.injEq] at h
        rw [← h.2]
        simp only [size]
        omega
      · have := ih h
        simp only [size]
        omega

theorem length_rows (parent : Option Nat) (first : Nat) (forest : Forest α) :
    (forest.rows parent first).length = forest.size := by
  induction forest generalizing parent first with
  | nil => rfl
  | cons name item inner rest ihi ihr =>
      simp only [rows, size, List.length_cons, List.length_append, ihi, ihr]
      omega

theorem size_append (front back : Forest α) :
    (front.append back).size = front.size + back.size := by
  induction front with
  | nil => simp [append, size]
  | cons name item inner rest _ ih =>
      simp only [append, size, ih]
      omega

theorem size_map (f : α → β) (forest : Forest α) : (forest.map f).size = forest.size := by
  induction forest with
  | nil => rfl
  | cons name item inner rest ihi ihr => simp only [map, size, ihi, ihr]

theorem append_nil (forest : Forest α) : forest.append nil = forest := by
  induction forest with
  | nil => rfl
  | cons name item inner rest _ ih => simp only [append, ih]

theorem append_assoc (front middle back : Forest α) :
    (front.append middle).append back = front.append (middle.append back) := by
  induction front with
  | nil => rfl
  | cons name item inner rest _ ih => simp only [append, ih]

theorem rows_append (parent : Option Nat) (first : Nat) (front back : Forest α) :
    (front.append back).rows parent first =
      front.rows parent first ++ back.rows parent (first + front.size) := by
  induction front generalizing first with
  | nil => simp [append, rows, size]
  | cons name item inner rest _ ih =>
      have hn : first + 1 + inner.size + rest.size = first + (1 + inner.size + rest.size) := by
        omega
      simp only [append, rows, size, ih, hn, List.cons_append, List.append_assoc]

end Forest

end Rtl
