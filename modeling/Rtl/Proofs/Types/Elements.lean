import Mathlib
import Rtl.HwType

namespace Rtl.TypeTable

variable {table : TypeTable} {id element other : TypeId}

-- From an array to the type of its elements.
def Element (table : TypeTable) (id element : TypeId) : Prop :=
  ∃ name size, table.get? id = some (.array name element size)

-- The type itself, the type of its elements, the type of theirs and so on.
def Reaches (table : TypeTable) : TypeId → TypeId → Prop := Relation.ReflTransGen table.Element

-- No array is made of itself.
def Acyclic (table : TypeTable) : Prop := ∀ id, ¬ Relation.TransGen table.Element id id

-- All types of elements are there.
def Closed (table : TypeTable) : Prop :=
  ∀ id element, table.Element id element → ∃ type, table.get? element = some type

theorem element_iff_of_array {name : Option String} {size : Nat}
    (htype : table.get? id = some (.array name element size)) :
    table.Element id other ↔ other = element := by
  constructor
  · rintro ⟨_, _, hother⟩
    cases htype.symm.trans hother
    rfl
  · rintro rfl
    exact ⟨name, size, htype⟩

-- An array reaches itself and what its elements reach.
theorem reaches_iff_of_array {name : Option String} {size : Nat}
    (htype : table.get? id = some (.array name element size)) :
    table.Reaches id other ↔ other = id ∨ table.Reaches element other := by
  rw [Reaches, Relation.ReflTransGen.cases_head_iff, eq_comm]
  refine or_congr_right ⟨fun ⟨next, hnext, hreaches⟩ => ?_, fun h => ⟨element, ?_, h⟩⟩
  · obtain rfl := (element_iff_of_array htype).mp hnext
    exact hreaches
  · exact (element_iff_of_array htype).mpr rfl

theorem reaches_iff_of_not_array (h : ∀ element, ¬ table.Element id element) :
    table.Reaches id other ↔ other = id := by
  rw [Reaches, Relation.ReflTransGen.cases_head_iff, eq_comm]
  exact or_iff_left fun ⟨next, hnext, _⟩ => h next hnext

-- Types that differ are no more than there are types.
theorem length_le_size {path : List TypeId} (hnodup : path.Nodup)
    (hthere : ∀ id ∈ path, ∃ type, table.get? id = some type) : path.length ≤ table.size := by
  have hindexes : (path.map Id.index).Nodup := hnodup.map fun _ _ => Id.index_injective
  have hbound : path.map Id.index ⊆ List.range table.size := by
    intro index hindex
    obtain ⟨id, hid, rfl⟩ := List.mem_map.mp hindex
    obtain ⟨type, htype⟩ := hthere id hid
    exact List.mem_range.mpr (Array.getElem?_eq_some_iff.mp htype).1
  have hlength := (hindexes.subperm hbound).length_le
  rwa [List.length_map, List.length_range] at hlength

-- The induction is on what is left of the depth. The types on the way to this one differ from
-- each other and from it, so that the depth is never used up.
theorem exists_widthWithin (hacyclic : table.Acyclic) (hclosed : table.Closed) {depth : Nat}
    {path : List TypeId} (hpath : ∀ before ∈ path, Relation.TransGen table.Element before id)
    (hnodup : path.Nodup) (hroom : table.size ≤ path.length + depth)
    (hid : ∃ type, table.get? id = some type) :
    ∃ width, table.widthWithin depth id = some width := by
  have hnew : (id :: path).Nodup :=
    List.nodup_cons.mpr ⟨fun hmem => hacyclic id (hpath id hmem), hnodup⟩
  induction depth generalizing id path with
  | zero =>
      have hthere : ∀ before ∈ id :: path, ∃ type, table.get? before = some type := by
        refine List.forall_mem_cons.mpr ⟨hid, fun before hbefore => ?_⟩
        obtain ⟨next, ⟨name, size, htype⟩, -⟩ :=
          Relation.TransGen.head'_iff.mp (hpath before hbefore)
        exact ⟨_, htype⟩
      have hlength := length_le_size hnew hthere
      rw [List.length_cons] at hlength
      omega
  | succ depth ih =>
      obtain ⟨type, htype⟩ := hid
      rw [widthWithin, htype]
      cases type with
      | bits | boolean | enumeration | integer | text => exact ⟨_, rfl⟩
      | array name element size =>
          have helement : table.Element id element := ⟨name, size, htype⟩
          have hnext : ∀ before ∈ id :: path, Relation.TransGen table.Element before element :=
            List.forall_mem_cons.mpr
              ⟨.single helement, fun before hbefore => (hpath before hbefore).tail helement⟩
          obtain ⟨width, hwidth⟩ := ih hnext hnew (by rw [List.length_cons]; omega)
            (hclosed id element helement)
            (List.nodup_cons.mpr ⟨fun hmem => hacyclic element (hnext element hmem), hnew⟩)
          exact ⟨_, congrArg (Option.map _) hwidth⟩

-- The size of the table is depth enough for every type in it.
theorem exists_bitWidth? (hacyclic : table.Acyclic) (hclosed : table.Closed)
    (hid : ∃ type, table.get? id = some type) : ∃ width, table.bitWidth? id = some width := by
  have hpath : ∀ before ∈ ([] : List TypeId), Relation.TransGen table.Element before id := nofun
  exact exists_widthWithin hacyclic hclosed hpath List.nodup_nil (Nat.le_add_left ..) hid

-- Every array comes after the type of its elements.
def Ascending (table : TypeTable) : Prop :=
  ∀ id element, table.Element id element → element.index < id.index

theorem Ascending.lt (h : table.Ascending) (hpath : Relation.TransGen table.Element id other) :
    other.index < id.index := by
  induction hpath with
  | single hstep => exact h _ _ hstep
  | tail _ hstep ih => exact (h _ _ hstep).trans ih

theorem Ascending.acyclic (h : table.Ascending) : table.Acyclic := fun _ hpath =>
  (h.lt hpath).false

theorem Ascending.closed (h : table.Ascending) : table.Closed := by
  rintro id element ⟨name, size, htype⟩
  have hsize := (Array.getElem?_eq_some_iff.mp htype).1
  exact ⟨_, Array.getElem?_eq_getElem ((h id element ⟨name, size, htype⟩).trans hsize)⟩

-- Whether an entry comes after the type of its elements.
def comesLater : TypeId × HwType → Bool
  | (id, .array _ element _) => element.index < id.index
  | (_, .bits ..) | (_, .enumeration ..) | (_, .boolean) | (_, .integer) | (_, .text) => true

theorem ascending_iff : table.Ascending ↔ table.types.entries.all comesLater = true := by
  rw [List.all_eq_true]
  constructor
  · rintro h ⟨id, type⟩ hentry
    cases type with
    | bits | boolean | enumeration | integer | text => rfl
    | array name element size =>
        exact decide_eq_true (h id element ⟨name, size, Arena.mem_entries_iff.mp hentry⟩)
  · rintro h id element ⟨name, size, htype⟩
    exact of_decide_eq_true (h (id, .array name element size) (Arena.mem_entries_iff.mpr htype))

end Rtl.TypeTable
