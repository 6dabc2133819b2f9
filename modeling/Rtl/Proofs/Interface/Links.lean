import Rtl.Proofs.Interface.Listing
import Rtl.Proofs.Names.Given

namespace Rtl.Forest

variable {α : Type} {forest : Forest α} {rows : List (Row α)} {number index root : Nat}
  {path : List String}

-- A row with a number added to all the numbers in it.
def Row.shift (base : Nat) (row : Row α) : Row α :=
  { row with parent := row.parent.map (· + base)
             members := row.members.map fun (name, number) => (name, number + base) }

theorem entries_shift (base first : Nat) (forest : Forest α) :
    forest.entries (first + base) =
      (forest.entries first).map fun (name, number) => (name, number + base) := by
  induction forest generalizing first with
  | nil => rfl
  | cons name item inner rest _ ih =>
      have hnext : first + base + 1 + inner.size = first + 1 + inner.size + base := by omega
      rw [entries, entries, hnext, ih, List.map_cons]

-- Rows that are put behind others.
theorem rows_eq_shift (base : Nat) (parent : Option Nat) (first : Nat) (forest : Forest α) :
    forest.rows (parent.map (· + base)) (first + base) =
      (forest.rows parent first).map (Row.shift base) := by
  induction forest generalizing parent first with
  | nil => rfl
  | cons name item inner rest ihi ihr =>
      have hinner := ihi (some first) (first + 1)
      have hrest := ihr parent (first + 1 + inner.size)
      have hentries := entries_shift base (first + 1) inner
      rw [Nat.add_right_comm first 1 base] at hinner hentries
      rw [show first + 1 + inner.size + base = first + base + 1 + inner.size by omega] at hrest
      rw [rows, rows, List.map_cons, List.map_append, ← hinner, hrest, hentries]
      rfl

-- A row on the outermost level stands below no name, any other one below its parent.
theorem above_cases {parent : Option Nat} {first index : Nat} {forest : Forest α} {row : Row α}
    {spot : Spot α} (hrow : (forest.rows parent first)[index]? = some row)
    (hspot : forest.spot? index = some spot) :
    (row.parent = parent ∧ spot.above = []) ∨
      ∃ around top, row.parent = some (first + around) ∧ around < index ∧
        forest.spot? around = some top ∧ spot.above = top.path := by
  induction hspot using spot?_induction generalizing parent first with
  | here name item inner rest =>
      obtain rfl := Option.some.inj hrow
      exact .inl ⟨rfl, rfl⟩
  | within name item inner rest index below hbelow ih =>
      rw [getElem?_rows_inner (lt_size_of_spot? hbelow)] at hrow
      right
      obtain ⟨hparent, habove⟩ | ⟨around, top, hparent, haround, htop, habove⟩ := ih hrow
      · exact ⟨0, _, hparent, Nat.succ_pos index, rfl, congrArg (name :: ·) habove⟩
      · refine ⟨around + 1, _, ?_, by omega, spot?_within htop, congrArg (name :: ·) habove⟩
        rw [hparent]
        exact congrArg some (by omega)
  | later name item inner rest index below hbelow ih =>
      rw [getElem?_rows_rest] at hrow
      obtain ⟨hparent, habove⟩ | ⟨around, top, hparent, haround, htop, habove⟩ := ih hrow
      · exact .inl ⟨hparent, habove⟩
      · refine .inr ⟨around + 1 + inner.size, top, ?_, by omega, spot?_later htop, habove⟩
        rw [hparent]
        exact congrArg some (by omega)

-- A node has another one among its members, under whatever name.
def IsMember (rows : List (Row α)) (below above : Nat) : Prop :=
  ∃ (row : Row α) (name : String), rows[above]? = some row ∧ (name, below) ∈ row.members

-- Rows that name each other. A member comes after the node that it is a member of, and the
-- two name each other. No node has two members of one name.
structure Linked (rows : List (Row α)) : Prop where
  names : ∀ row ∈ rows, (row.members.map (·.1)).Nodup
  down : ∀ (number : Nat) (row : Row α) (name : String) (below : Nat),
    rows[number]? = some row → (name, below) ∈ row.members →
      number < below ∧ ∃ member, rows[below]? = some member ∧ member.parent = some number ∧
        member.name = name
  up : ∀ (number : Nat) (row : Row α), rows[number]? = some row → row.parent ≠ none →
    ∃! above, IsMember rows number above

theorem parent_lt {row : Row α} {above : Nat} (hrow : (forest.rows none 0)[number]? = some row)
    (hparent : row.parent = some above) : above < number := by
  obtain hnone | ⟨other, hother, -, hlt⟩ := parent_cases hrow
  · rw [hnone] at hparent
    cases hparent
  · obtain rfl := Option.some.inj (hother.symm.trans hparent)
    rwa [Nat.zero_add] at hlt

-- The members of a node are the nodes that have it as their parent.
theorem mem_members_iff {row : Row α} {name : String} {below : Nat}
    (hrow : (forest.rows none 0)[number]? = some row) :
    (name, below) ∈ row.members ↔ ∃ member, (forest.rows none 0)[below]? = some member ∧
      member.name = name ∧ member.parent = some number := by
  rw [members_eq_below hrow nofun, Nat.zero_add, Line.mem_below_iff]
  constructor
  · rintro ⟨index, line, hindex, hline, hname, hparent⟩
    obtain rfl := hindex.trans (Nat.zero_add index)
    rw [List.getElem?_map, Option.map_eq_some_iff] at hline
    obtain ⟨member, hmember, rfl⟩ := hline
    exact ⟨member, hmember, hname, hparent⟩
  · rintro ⟨member, hmember, hname, hparent⟩
    refine ⟨below, member.line, (Nat.zero_add below).symm, ?_, hname, hparent⟩
    rw [List.getElem?_map, hmember, Option.map_some]

-- What is listed of a forest is linked if no level of a tree has a name twice.
theorem linked_rows (h : ∀ index spot, forest.spot? index = some spot → spot.inner.Distinct) :
    Linked (forest.rows none 0) := by
  refine ⟨fun row hrow => ?_, fun number row name below hrow hbelow => ?_,
    fun number row hrow hparent => ?_⟩
  · obtain ⟨index, hindex⟩ := List.mem_iff_getElem?.mp hrow
    obtain ⟨spot, hspot, -, -, hmembers⟩ := exists_spot_of_row hindex
    rw [hmembers, map_entries]
    exact nodup_names (h index spot hspot)
  · obtain ⟨member, hmember, hname, hparent⟩ := (mem_members_iff hrow).mp hbelow
    exact ⟨parent_lt hmember hparent, member, hmember, hparent, hname⟩
  · obtain ⟨above, habove⟩ := Option.ne_none_iff_exists'.mp hparent
    have hlt := (parent_lt hrow habove).trans (List.getElem?_eq_some_iff.mp hrow).1
    refine ⟨above, ⟨_, row.name, List.getElem?_eq_getElem hlt,
      (mem_members_iff (List.getElem?_eq_getElem hlt)).mpr ⟨row, hrow, rfl, habove⟩⟩, ?_⟩
    rintro other ⟨around, name, haround, hmember⟩
    obtain ⟨member, hfound, -, hother⟩ := (mem_members_iff haround).mp hmember
    obtain rfl := Option.some.inj (hrow.symm.trans hfound)
    exact Option.some.inj (hother.symm.trans habove)

-- So there is an end to going from members to members.
theorem Linked.wellFounded (h : Linked rows) : WellFounded (IsMember rows) := by
  refine Subrelation.wf ?_ (measure fun number => rows.length - number).wf
  rintro below above ⟨row, name, hrow, hmember⟩
  obtain ⟨hlt, -⟩ := h.down above row name below hrow hmember
  have hbound := (List.getElem?_eq_some_iff.mp hrow).1
  change rows.length - below < rows.length - above
  omega

-- The way from a node up to the root, with the names on it, the root's not among them.
inductive Climbs (rows : List (Row α)) : Nat → List String → Nat → Prop
  | root {number : Nat} {row : Row α} (hrow : rows[number]? = some row)
      (hparent : row.parent = none) : Climbs rows number [] number
  | step {number above root : Nat} {row : Row α} {path : List String}
      (hrow : rows[number]? = some row) (hparent : row.parent = some above)
      (h : Climbs rows above path root) : Climbs rows number (path ++ [row.name]) root

theorem exists_climbs {spot : Spot α} (h : forest.spot? index = some spot) :
    ∃ root, Climbs (forest.rows none 0) index (spot.path.drop 1) root := by
  induction index using Nat.strong_induction_on generalizing spot with
  | h index ih =>
      obtain ⟨row, hrow, hname, -, -⟩ := exists_row_of_spot? none 0 h
      obtain ⟨hparent, habove⟩ | ⟨around, top, hparent, hlt, htop, habove⟩ := above_cases hrow h
      · rw [Spot.path, habove]
        exact ⟨index, .root hrow hparent⟩
      · obtain ⟨root, hroot⟩ := ih around hlt htop
        rw [Nat.zero_add] at hparent
        have hpath : spot.path.drop 1 = top.path.drop 1 ++ [row.name] := by
          rw [Spot.path, habove, hname, List.drop_append_of_le_length]
          simp [Spot.path]
        rw [hpath]
        exact ⟨root, .step hrow hparent hroot⟩

-- There is only one way up.
theorem Climbs.unique {other : List String} {top : Nat} (h : Climbs rows number path root)
    (hother : Climbs rows number other top) : other = path ∧ top = root := by
  induction h generalizing other with
  | root hrow hparent =>
      cases hother with
      | root => exact ⟨rfl, rfl⟩
      | step hfound habove =>
          obtain rfl := Option.some.inj (hrow.symm.trans hfound)
          cases hparent.symm.trans habove
  | step hrow hparent h ih =>
      cases hother with
      | root hfound hnone =>
          obtain rfl := Option.some.inj (hrow.symm.trans hfound)
          cases hparent.symm.trans hnone
      | step hfound habove hother =>
          obtain rfl := Option.some.inj (hrow.symm.trans hfound)
          obtain rfl := Option.some.inj (hparent.symm.trans habove)
          obtain ⟨rfl, rfl⟩ := ih hother
          exact ⟨rfl, rfl⟩

-- The node that is reached through members of the given names.
def follow (rows : List (Row α)) : Nat → List String → Option Nat
  | number, [] => some number
  | number, name :: path =>
      (rows[number]?.bind fun row => row.members.lookup name).bind (follow rows · path)

theorem follow_append (front back : List String) : follow rows number (front ++ back) =
    (follow rows number front).bind (follow rows · back) := by
  induction front generalizing number with
  | nil => rfl
  | cons name front ih =>
      simp only [List.cons_append, follow, ih, Option.bind_assoc]

-- The way down by the same names ends where the way up began.
theorem Linked.follow_eq (hlinked : Linked rows) (h : Climbs rows number path root) :
    follow rows root path = some number := by
  induction h with
  | root hrow hparent => rfl
  | @step number above root row path hrow hparent h ih =>
      obtain ⟨holder, ⟨around, name, haround, hmember⟩, -⟩ :=
        hlinked.up number row hrow (hparent ▸ Option.some_ne_none above)
      obtain ⟨-, member, hmemberRow, hholder, hname⟩ :=
        hlinked.down holder around name number haround hmember
      obtain rfl := Option.some.inj (hrow.symm.trans hmemberRow)
      obtain rfl := Option.some.inj (hparent.symm.trans hholder)
      have hlookup : around.members.lookup row.name = some number :=
        (lookup_eq_some_iff_mem (hlinked.names around (List.mem_of_getElem? haround))).mpr
          (hname ▸ hmember)
      rw [follow_append, ih, Option.bind_some, follow, haround, Option.bind_some, hlookup]
      rfl

theorem Climbs.eq_nil_iff {row : Row α} (h : Climbs rows number path root)
    (hrow : rows[number]? = some row) : path = [] ↔ row.parent = none := by
  cases h with
  | root hfound hparent =>
      obtain rfl := Option.some.inj (hfound.symm.trans hrow)
      exact iff_of_true rfl hparent
  | step hfound hparent h =>
      obtain rfl := Option.some.inj (hfound.symm.trans hrow)
      rw [hparent]
      exact iff_of_false (List.append_ne_nil_of_right_ne_nil _ (List.cons_ne_nil _ _))
        (Option.some_ne_none _)

end Rtl.Forest
