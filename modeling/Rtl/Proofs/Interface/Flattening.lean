import Rtl.Proofs.Interface.Inheritance
import Rtl.Proofs.Interface.Listing
import Rtl.Proofs.Interface.Unfolding

namespace Rtl

open Forest

namespace InterfaceClass

theorem weightOfMembers_settled (cls : InterfaceClass) :
    weightOfMembers (Member.settled cls.declared) < cls.weight :=
  cls.merged_eq_settled ▸ weightOfMembers_merged cls

mutual

-- A class written out line by line: the class itself, then each member, a nested one with
-- its own direction and behind it a copy of all lines of its class but the first.
def flattening (cls : InterfaceClass) : List (Line Shape) :=
  ⟨cls.name, ⟨.output, 0⟩, none⟩ :: flatteningOf 1 (Member.settled cls.declared)
termination_by 2 * cls.weight
decreasing_by
  have := weightOfMembers_settled cls
  omega

-- The lines of members, the first of which has the given number.
def flatteningOf (first : Nat) (members : List Member) : List (Line Shape) :=
  match members with
  | [] => []
  | .leaf name direction width :: rest =>
      ⟨name, ⟨direction, width⟩, some 0⟩ :: flatteningOf (first + 1) rest
  | .nested name direction cls :: rest =>
      let copy := cls.flattening.tail.map (Line.shift first)
      ⟨name, ⟨direction, 0⟩, some 0⟩ :: (copy ++ flatteningOf (first + 1 + copy.length) rest)
termination_by 2 * weightOfMembers members + 1
decreasing_by
  all_goals
    simp only [weightOfMembers, weightOfMember]
    omega

end

theorem lines_tree (cls : InterfaceClass) :
    (cls.template.tree.rows none 0).map Row.line = cls.flattening := by
  induction cls using fun motive => flattening.induct motive (fun first members =>
    ((unfoldedMembers members).rows (some 0) first).map Row.line = flatteningOf first members) with
  | case1 cls ih =>
      rw [flattening, ← ih, template, unfolded, merged_eq_settled]
      simp only [Template.tree, rows, List.append_nil, List.map_cons]
      rfl
  | case2 first =>
      rw [unfoldedMembers, flatteningOf]
      rfl
  | case3 first name direction width rest ih =>
      rw [unfoldedMembers, flatteningOf, ← ih]
      rfl
  | case4 first name direction cls rest copy ihCls ihRest =>
      have hcopy : (cls.unfolded.rows (some first) (first + 1)).map Row.line = copy := by
        have hshift := rows_shift first (some 0) 1 cls.unfolded
        simp only [template, Template.tree, rows, List.append_nil, List.map_cons] at ihCls
        rw [Option.map_some, Nat.zero_add, Nat.add_comm 1 first] at hshift
        simp only [copy, ← ihCls, List.tail_cons]
        exact hshift
      have hlength : copy.length = cls.unfolded.size := by
        rw [← hcopy, List.length_map, length_rows]
      rw [unfoldedMembers, flatteningOf, rows, List.map_cons, List.map_append, hcopy, ← hlength,
        ihRest]
      rfl

end InterfaceClass

namespace Registry

theorem build_empty {cls : InterfaceClass}
    (hnames : ∀ one other, cls.Within one → cls.Within other → one.name = other.name →
      one = other) : (empty.build cls).1 = cls.template := by
  refine (files_build empty cls ⟨nofun, nofun⟩ fun other hother inner hinner hsame => ?_).2
    (.self cls)
  exact hnames inner other hinner (within_of_mem_made hother) hsame

-- A class of which no two different parts have one name is built into its flattening,
-- which also says of each node what its members are: the nodes that name it as their
-- parent, in their order.
theorem rows_build {cls : InterfaceClass}
    (hnames : ∀ one other, cls.Within one → cls.Within other → one.name = other.name →
      one = other) :
    ((empty.build cls).1.tree.rows none 0).map Row.line = cls.flattening ∧
      ∀ (index : Nat) (row : Row Shape),
        ((empty.build cls).1.tree.rows none 0)[index]? = some row →
        row.members = Line.below cls.flattening 0 index ∧ (row.members.map (·.1)).Nodup ∧
        (row.parent = none ↔ index = 0) ∧
        ∀ above, row.parent = some above → above < index ∧
          ∀ (other : Nat) (found : Row Shape),
            ((empty.build cls).1.tree.rows none 0)[other]? = some found →
            ((row.name, index) ∈ found.members ↔ other = above) := by
  have hlines : ((empty.build cls).1.tree.rows none 0).map Row.line = cls.flattening := by
    rw [build_empty hnames, cls.lines_tree]
  refine ⟨hlines, fun index row hrow => ?_⟩
  have hmembers {other : Nat} {found : Row Shape}
      (hfound : ((empty.build cls).1.tree.rows none 0)[other]? = some found) :
      found.members = Line.below cls.flattening 0 other := by
    have hbelow := members_eq_below hfound nofun
    rwa [hlines, Nat.zero_add] at hbelow
  refine ⟨hmembers hrow, ?_, ?_, fun above habove => ⟨?_, fun other found hfound => ?_⟩⟩
  · obtain ⟨spot, hspot, -, -, hentries⟩ := exists_spot_of_row hrow
    have hdistinct : (empty.build cls).1.tree.Distinct :=
      ⟨List.not_mem_nil, (distinct_build empty cls nofun).1, trivial⟩
    rw [hentries, map_entries]
    exact nodup_names (hdistinct.of_spot? hspot)
  · exact parent_eq_none_iff hrow
  · rcases parent_cases hrow with hnone | ⟨parent, hparent, -, hlt⟩
    · rw [hnone] at habove
      cases habove
    · obtain rfl := Option.some.inj (hparent.symm.trans habove)
      rwa [Nat.zero_add] at hlt
  · have hline : cls.flattening[index]? = some row.line := by
      rw [← hlines, List.getElem?_map, hrow]
      rfl
    rw [hmembers hfound, Line.mem_below_iff]
    constructor
    · rintro ⟨number, line, hindex, hfoundLine, -, hparent⟩
      obtain rfl : index = number := hindex.trans (Nat.zero_add number)
      obtain rfl := Option.some.inj (hline.symm.trans hfoundLine)
      exact Option.some.inj (hparent.symm.trans habove)
    · rintro rfl
      exact ⟨index, row.line, (Nat.zero_add index).symm, hline, rfl, habove⟩

-- A class with two parents that have a parent in common. What the first one declares
-- again is declared as before by way of the second.

def clocked : InterfaceClass :=
  .mk "clocked" [] [.leaf "clock" .output 1, .leaf "data" .output 8]

def wideData : InterfaceClass := .mk "wide" [clocked] [.leaf "data" .output 16]

def withBus : InterfaceClass := .mk "bused" [clocked] [.nested "bus_" .input narrowBus]

def diamond : InterfaceClass :=
  .mk "diamond" [wideData, withBus] [.leaf "clock" .input 1, .nested "back_" .output narrowBus]

theorem rows_build_diamond :
    (∀ one other, diamond.Within one → diamond.Within other → one.name = other.name →
      one = other) ∧
    diamond.flattening =
      [⟨"diamond", ⟨.output, 0⟩, none⟩, ⟨"clock", ⟨.input, 1⟩, some 0⟩,
        ⟨"data", ⟨.output, 8⟩, some 0⟩, ⟨"bus_", ⟨.input, 0⟩, some 0⟩,
        ⟨"data", ⟨.output, 8⟩, some 3⟩, ⟨"back_", ⟨.output, 0⟩, some 0⟩,
        ⟨"data", ⟨.output, 8⟩, some 5⟩] ∧
    ((empty.build diamond).1.tree.rows none 0).map Row.line = diamond.flattening ∧
      ∀ (index : Nat) (row : Row Shape),
        ((empty.build diamond).1.tree.rows none 0)[index]? = some row →
        row.members = Line.below diamond.flattening 0 index ∧ (row.members.map (·.1)).Nodup ∧
        (row.parent = none ↔ index = 0) ∧
        ∀ above, row.parent = some above → above < index ∧
          ∀ (other : Nat) (found : Row Shape),
            ((empty.build diamond).1.tree.rows none 0)[other]? = some found →
            ((row.name, index) ∈ found.members ↔ other = above) := by
  have hmerged : diamond.merged = [.leaf "clock" .input 1, .leaf "data" .output 8,
      .nested "bus_" .input narrowBus, .nested "back_" .output narrowBus] := rfl
  have hbus : narrowBus.merged = [.leaf "data" .output 8] := rfl
  have hwithin (inner : InterfaceClass) (h : diamond.Within inner) :
      inner = diamond ∨ inner = narrowBus := by
    cases h with
    | self => exact .inl rfl
    | @member _ nested _ name direction hmem h =>
        have hnested : nested = narrowBus := by
          simp only [hmerged, List.mem_cons, List.not_mem_nil, or_false, reduceCtorEq, false_or,
            Member.nested.injEq] at hmem
          rcases hmem with ⟨-, -, hnested⟩ | ⟨-, -, hnested⟩
          · exact hnested
          · exact hnested
        subst hnested
        cases h with
        | self => exact .inr rfl
        | member hmem => simp [hbus] at hmem
  have hnames : ∀ one other, diamond.Within one → diamond.Within other →
      one.name = other.name → one = other := by
    intro one other hone hother hsame
    rcases hwithin one hone with rfl | rfl <;> rcases hwithin other hother with rfl | rfl
    · rfl
    · exact absurd hsame (by decide)
    · exact absurd hsame (by decide)
    · rfl
  exact ⟨hnames, by decide +kernel, rows_build hnames⟩

end Registry

end Rtl
