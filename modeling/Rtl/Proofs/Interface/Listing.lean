import Rtl.Proofs.Interface.Abandoned

namespace Rtl.Forest

variable {α β : Type}

def Row.map (f : α → β) (row : Row α) : Row β := { row with item := f row.item }

theorem map_id (forest : Forest α) : (forest.map fun item => item) = forest := by
  induction forest with
  | nil => rfl
  | cons name item inner rest ihi ihr => simp only [map, ihi, ihr]

theorem entries_map (f : α → β) (first : Nat) (forest : Forest α) :
    (forest.map f).entries first = forest.entries first := by
  induction forest generalizing first with
  | nil => rfl
  | cons name item inner rest _ ih => simp only [map, entries, size_map, ih]

theorem rows_map (f : α → β) (parent : Option Nat) (first : Nat) (forest : Forest α) :
    (forest.map f).rows parent first = (forest.rows parent first).map (Row.map f) := by
  induction forest generalizing parent first with
  | nil => rfl
  | cons name item inner rest ihi ihr =>
      simp only [map, rows, entries_map, size_map, ihi, ihr, List.map_cons, List.map_append]
      rfl

theorem entries_eq_nil_iff {first : Nat} {forest : Forest α} :
    forest.entries first = [] ↔ forest = nil := by
  cases forest with
  | nil => simp [entries]
  | cons name item inner rest => simp [entries]

-- The rows inside the first entry and those after it.

theorem getElem?_rows_inner {name : String} {item : α} {inner rest : Forest α} {index : Nat}
    (h : index < inner.size) (parent : Option Nat) (first : Nat) :
    ((cons name item inner rest).rows parent first)[index + 1]? =
      (inner.rows (some first) (first + 1))[index]? := by
  rw [rows, List.getElem?_cons_succ, List.getElem?_append_left (by rwa [length_rows])]

theorem getElem?_rows_rest {name : String} {item : α} {inner rest : Forest α} {index : Nat}
    (parent : Option Nat) (first : Nat) :
    ((cons name item inner rest).rows parent first)[index + 1 + inner.size]? =
      (rest.rows parent (first + 1 + inner.size))[index]? := by
  have hindex : index + 1 + inner.size = inner.size + index + 1 := by omega
  rw [rows, hindex, List.getElem?_cons_succ,
    List.getElem?_append_right (by rw [length_rows]; omega), length_rows, Nat.add_sub_cancel_left]

-- What the row of an entry says of it.
def Row.Shows (row : Row α) (number : Nat) (spot : Spot α) : Prop :=
  row.name = spot.name ∧ row.item = spot.item ∧ row.members = spot.inner.entries (number + 1)

theorem exists_row_of_spot? (parent : Option Nat) (first : Nat) {forest : Forest α} {index : Nat}
    {spot : Spot α} (h : forest.spot? index = some spot) :
    ∃ row, (forest.rows parent first)[index]? = some row ∧ row.Shows (first + index) spot := by
  induction h using spot?_induction generalizing parent first with
  | here name item inner rest => exact ⟨_, rfl, rfl, rfl, rfl⟩
  | within name item inner rest index spot hspot ih =>
      obtain ⟨row, hrow, hshows⟩ := ih (some first) (first + 1)
      have hnumber : first + 1 + index = first + (index + 1) := by omega
      exact ⟨row, (getElem?_rows_inner (lt_size_of_spot? hspot) ..).trans hrow, hnumber ▸ hshows⟩
  | later name item inner rest index spot hspot ih =>
      obtain ⟨row, hrow, hshows⟩ := ih parent (first + 1 + inner.size)
      have hnumber : first + 1 + inner.size + index = first + (index + 1 + inner.size) := by omega
      exact ⟨row, (getElem?_rows_rest ..).trans hrow, hnumber ▸ hshows⟩

-- Every row is that of the entry with its number.
theorem exists_spot_of_row {parent : Option Nat} {first index : Nat} {forest : Forest α}
    {row : Row α} (h : (forest.rows parent first)[index]? = some row) :
    ∃ spot, forest.spot? index = some spot ∧ row.Shows (first + index) spot := by
  have hlt : index < forest.size := by
    rw [← length_rows parent first]
    exact (List.getElem?_eq_some_iff.mp h).1
  obtain ⟨spot, hspot⟩ := exists_spot?_of_lt hlt
  obtain ⟨other, hother, hshows⟩ := exists_row_of_spot? parent first hspot
  obtain rfl := Option.some.inj (hother.symm.trans h)
  exact ⟨spot, hspot, hshows⟩

-- A row without the members that it names.
structure Line (α : Type) where
  name : String
  item : α
  parent : Option Nat
deriving DecidableEq, Repr

def Row.line (row : Row α) : Line α := ⟨row.name, row.item, row.parent⟩

namespace Line

-- The line of a tree that is put behind other ones.
def shift (offset : Nat) (line : Line α) : Line α :=
  { line with parent := line.parent.map (· + offset) }

-- The lines whose parent has the given number, with their own. The number of the first
-- line is given.
def below (lines : List (Line α)) (first above : Nat) : List (String × Nat) :=
  (lines.zipIdx first).filterMap fun (line, number) =>
    if line.parent = some above then some (line.name, number) else none

theorem below_cons (line : Line α) (rest : List (Line α)) (first above : Nat) :
    below (line :: rest) first above =
      (if line.parent = some above then [(line.name, first)] else []) ++
        below rest (first + 1) above := by
  by_cases h : line.parent = some above
  · simp [below, List.zipIdx_cons, h]
  · simp [below, List.zipIdx_cons, h]

theorem below_append (front back : List (Line α)) (first above : Nat) :
    below (front ++ back) first above =
      below front first above ++ below back (first + front.length) above := by
  rw [below, List.zipIdx_append, List.filterMap_append]
  rfl

theorem mem_below_iff {lines : List (Line α)} {first above number : Nat} {name : String} :
    (name, number) ∈ below lines first above ↔
      ∃ index line, number = first + index ∧ lines[index]? = some line ∧ line.name = name ∧
        line.parent = some above := by
  simp only [below, List.mem_filterMap, Prod.exists, List.mem_zipIdx_iff_le_and_getElem?_sub,
    Option.ite_none_right_eq_some, Option.some.injEq, Prod.mk.injEq]
  constructor
  · rintro ⟨line, at', ⟨hle, hline⟩, hparent, hname, rfl⟩
    exact ⟨at' - first, line, by omega, hline, hname, hparent⟩
  · rintro ⟨index, line, rfl, hline, hname, hparent⟩
    rw [← Nat.add_sub_cancel_left (n := first) (m := index)] at hline
    exact ⟨line, first + index, ⟨Nat.le_add_right .., hline⟩, hparent, hname, rfl⟩

end Line

theorem rows_shift (offset : Nat) (parent : Option Nat) (first : Nat) (forest : Forest α) :
    (forest.rows (parent.map (· + offset)) (first + offset)).map Row.line =
      ((forest.rows parent first).map Row.line).map (Line.shift offset) := by
  induction forest generalizing parent first with
  | nil => rfl
  | cons name item inner rest ihi ihr =>
      have hinner := ihi (some first) (first + 1)
      have hrest := ihr parent (first + 1 + inner.size)
      rw [Nat.add_right_comm first 1 offset] at hinner
      rw [show first + 1 + inner.size + offset = first + offset + 1 + inner.size by omega] at hrest
      simp only [rows, List.map_cons, List.map_append, hrest]
      rw [← hinner]
      rfl

-- Nothing but what is on the outermost level is below an earlier number.
theorem below_rows_of_lt {parent : Option Nat} {first above : Nat} (h : above < first)
    (forest : Forest α) :
    Line.below ((forest.rows parent first).map Row.line) first above =
      if parent = some above then forest.entries first else [] := by
  induction forest generalizing parent first with
  | nil => simp [rows, Line.below, entries]
  | cons name item inner rest ihi ihr =>
      have hne : some first ≠ some above := fun heq => Nat.ne_of_gt h (Option.some.inj heq)
      simp only [rows, List.map_cons, List.map_append, Line.below_cons, Line.below_append,
        List.length_map, length_rows, ihi (Nat.lt_succ_of_lt h), if_neg hne]
      rw [ihr (by omega), entries]
      by_cases hparent : parent = some above
      · simp [Row.line, hparent]
      · simp [Row.line, hparent]

theorem below_rows_of_le {parent : Option Nat} {first above : Nat} {forest : Forest α}
    (h : first + forest.size ≤ above) (hparent : parent ≠ some above) :
    Line.below ((forest.rows parent first).map Row.line) first above = [] := by
  induction forest generalizing parent first with
  | nil => rfl
  | cons name item inner rest ihi ihr =>
      simp only [size] at h
      have hne : some first ≠ some above := fun heq => by
        have := Option.some.inj heq
        omega
      simp only [rows, List.map_cons, List.map_append, Line.below_cons, Line.below_append,
        List.length_map, length_rows]
      rw [ihi (by omega) hne, ihr (by omega) hparent]
      simp [Row.line, hparent]

-- The members that a row names are those that name it as their parent.
theorem members_eq_below {parent : Option Nat} {first index : Nat} {forest : Forest α}
    {row : Row α} (h : (forest.rows parent first)[index]? = some row)
    (hparent : ∀ above, parent = some above → above < first) :
    row.members = Line.below ((forest.rows parent first).map Row.line) first (first + index) := by
  induction forest generalizing parent first index with
  | nil => cases h
  | cons name item inner rest ihi ihr =>
      have hnone (number : Nat) (hnumber : first ≤ number) : parent ≠ some number := fun heq =>
        absurd (hparent number heq) (Nat.not_lt.mpr hnumber)
      have hself : (Row.line (α := α) ⟨name, item, parent, inner.entries (first + 1)⟩).parent ≠
          some (first + index) := hnone _ (Nat.le_add_right ..)
      simp only [rows, List.map_cons, List.map_append, Line.below_cons, Line.below_append,
        List.length_map, length_rows, if_neg hself, List.nil_append]
      cases index with
      | zero =>
          obtain rfl := Option.some.inj h
          have hrest : first < first + 1 + inner.size := by omega
          simp only [Nat.add_zero]
          rw [below_rows_of_lt (Nat.lt_add_one first) inner, if_pos rfl,
            below_rows_of_lt hrest rest, if_neg (hnone first (Nat.le_refl first)),
            List.append_nil]
      | succ index =>
          rw [rows, List.getElem?_cons_succ] at h
          by_cases hinner : index < inner.size
          · rw [List.getElem?_append_left (by rwa [length_rows])] at h
            have hrest : first + (index + 1) < first + 1 + inner.size := by omega
            have hwithin := ihi h fun above heq => Option.some.inj heq ▸ Nat.lt_add_one _
            rw [below_rows_of_lt hrest rest, if_neg (hnone _ (Nat.le_add_right ..)),
              List.append_nil, hwithin]
            exact congrArg _ (by omega)
          · rw [List.getElem?_append_right (by rw [length_rows]; omega), length_rows] at h
            have hbeside := ihr h fun above heq => (hparent above heq).trans (by omega)
            have hne : some first ≠ some (first + (index + 1)) := fun heq => by
              have := Option.some.inj heq
              omega
            rw [below_rows_of_le (by omega) hne, List.nil_append, hbeside]
            exact congrArg _ (by omega)

-- A row on the outermost level has the parent that all of these have, any other one that
-- comes before it.
theorem parent_cases {parent : Option Nat} {first index : Nat} {forest : Forest α} {row : Row α}
    (h : (forest.rows parent first)[index]? = some row) :
    row.parent = parent ∨ ∃ above, row.parent = some above ∧ first ≤ above ∧
      above < first + index := by
  induction forest generalizing parent first index with
  | nil => cases h
  | cons name item inner rest ihi ihr =>
      cases index with
      | zero =>
          obtain rfl := Option.some.inj h
          exact .inl rfl
      | succ index =>
          rw [rows, List.getElem?_cons_succ] at h
          by_cases hinner : index < inner.size
          · rw [List.getElem?_append_left (by rwa [length_rows])] at h
            rcases ihi h with hfirst | ⟨above, habove, hle, hlt⟩
            · exact .inr ⟨first, hfirst, Nat.le_refl first, by omega⟩
            · exact .inr ⟨above, habove, by omega, by omega⟩
          · rw [List.getElem?_append_right (by rw [length_rows]; omega), length_rows] at h
            rcases ihr h with hparent | ⟨above, habove, hle, hlt⟩
            · exact .inl hparent
            · exact .inr ⟨above, habove, by omega, by omega⟩

theorem parent_eq_none_iff {first index : Nat} {name : String} {item : α} {inner : Forest α}
    {row : Row α} (h : ((cons name item inner nil).rows none first)[index]? = some row) :
    row.parent = none ↔ index = 0 := by
  cases index with
  | zero =>
      obtain rfl := Option.some.inj h
      exact iff_of_true rfl rfl
  | succ index =>
      rw [rows, List.getElem?_cons_succ, rows, List.append_nil] at h
      rcases parent_cases h with hparent | ⟨above, hparent, -, -⟩
      · simp [hparent]
      · simp [hparent]

theorem map_entries (first : Nat) (forest : Forest α) :
    (forest.entries first).map (·.1) = forest.names := by
  induction forest generalizing first with
  | nil => rfl
  | cons name item inner rest _ ih => simp only [entries, List.map_cons, ih, names]

theorem nodup_names {forest : Forest α} (h : forest.Distinct) : forest.names.Nodup := by
  induction forest with
  | nil => exact List.nodup_nil
  | cons name item inner rest _ ih => exact List.nodup_cons.mpr ⟨h.1, ih h.2.2⟩

theorem Distinct.of_spot? {forest : Forest α} (h : forest.Distinct) {index : Nat} {spot : Spot α}
    (hspot : forest.spot? index = some spot) : spot.inner.Distinct := by
  induction hspot using spot?_induction with
  | here name item inner rest => exact h.2.1
  | within name item inner rest index spot hspot ih => exact ih h.2.1
  | later name item inner rest index spot hspot ih => exact ih h.2.2

end Rtl.Forest
