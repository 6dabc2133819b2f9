import Rtl.Proofs.Interface.Templates

namespace Rtl

theorem eraseDups_concat {α : Type} [DecidableEq α] (front : List α) (last : α) :
    (front ++ [last]).eraseDups =
      if last ∈ front then front.eraseDups else front.eraseDups ++ [last] := by
  rw [List.eraseDups_append]
  by_cases h : last ∈ front
  · simp [List.removeAll, h]
  · simp [List.removeAll, h, List.eraseDups_cons]

theorem nodup_eraseDups {α : Type} [DecidableEq α] (items : List α) :
    items.eraseDups.Nodup := by
  induction items using List.reverseRecOn with
  | nil => exact List.nodup_nil
  | append_singleton front last ih =>
      rw [eraseDups_concat]
      split
      · exact ih
      · rename_i hnew
        refine List.nodup_append'.mpr ⟨ih, List.nodup_singleton last, ?_⟩
        simpa using hnew

namespace Member

-- The last declaration of a name.
def latest? (declared : List Member) (name : String) : Option Member :=
  declared.reverse.find? (·.name == name)

-- What remains of declarations one after the other: each name at its first place, with
-- its last definition.
def settled (declared : List Member) : List Member :=
  (declared.map name).eraseDups.filterMap (latest? declared)

variable {declared rest into : List Member} {member other : Member}

theorem name_of_latest? {name : String} (h : latest? declared name = some member) :
    member.name = name := eq_of_beq (List.find?_some h :)

theorem latest?_concat (declared : List Member) (member : Member) (name : String) :
    latest? (declared ++ [member]) name =
      if member.name = name then some member else latest? declared name := by
  simp only [latest?, List.reverse_append, List.reverse_singleton, List.singleton_append,
    List.find?_cons]
  by_cases h : member.name = name
  · rw [if_pos h, beq_iff_eq.mpr h]
  · rw [if_neg h, beq_false_of_ne h]

theorem exists_latest? {name : String} (h : name ∈ declared.map Member.name) :
    ∃ member, latest? declared name = some member := by
  obtain ⟨member, hmember, hname⟩ := List.mem_map.mp h
  refine Option.isSome_iff_exists.mp (List.find?_isSome.mpr ⟨member, ?_, ?_⟩)
  · exact List.mem_reverse.mpr hmember
  · exact beq_iff_eq.mpr hname

theorem map_name_filterMap (declared : List Member) {names : List String}
    (h : ∀ name ∈ names, name ∈ declared.map Member.name) :
    (names.filterMap (latest? declared)).map Member.name = names := by
  induction names with
  | nil => rfl
  | cons name rest ih =>
      obtain ⟨hname, hrest⟩ := List.forall_mem_cons.mp h
      obtain ⟨member, hmember⟩ := exists_latest? hname
      rw [List.filterMap_cons_some hmember, List.map_cons, ih hrest, name_of_latest? hmember]

theorem map_name_settled (declared : List Member) :
    (settled declared).map Member.name = (declared.map Member.name).eraseDups :=
  map_name_filterMap declared fun _ hmem => List.mem_eraseDups.mp hmem

theorem nodup_settled (declared : List Member) : ((settled declared).map Member.name).Nodup :=
  map_name_settled declared ▸ nodup_eraseDups _

theorem put_of_not_mem (h : member.name ∉ into.map Member.name) :
    member.put into = into ++ [member] := by
  induction into with
  | nil => rfl
  | cons other rest ih =>
      obtain ⟨hother, hrest⟩ := not_or.mp (List.mem_cons.not.mp h)
      rw [put, if_neg (Ne.symm hother), ih hrest, List.cons_append]

-- A name that is there already keeps its place and gets the new definition.
theorem filterMap_latest?_concat (declared : List Member) (member : Member) (names : List String)
    (hnames : ∀ name ∈ names, name ∈ declared.map Member.name) (hnodup : names.Nodup) :
    names.filterMap (latest? (declared ++ [member])) =
      if member.name ∈ names then member.put (names.filterMap (latest? declared))
      else names.filterMap (latest? declared) := by
  induction names with
  | nil => simp
  | cons name rest ih =>
      obtain ⟨hname, hrest⟩ := List.forall_mem_cons.mp hnames
      obtain ⟨hnew, hnodup⟩ := List.nodup_cons.mp hnodup
      obtain ⟨found, hfound⟩ := exists_latest? hname
      have hlater := latest?_concat declared member name
      rw [List.filterMap_cons_some hfound]
      by_cases hsame : member.name = name
      · rw [if_pos hsame] at hlater
        have hin : member.name ∈ name :: rest := hsame ▸ List.mem_cons_self
        rw [List.filterMap_cons_some hlater, ih hrest hnodup, if_neg (hsame ▸ hnew), if_pos hin,
          put, if_pos ((name_of_latest? hfound).trans hsame.symm)]
      · rw [if_neg hsame, hfound] at hlater
        have hother : found.name ≠ member.name := (name_of_latest? hfound) ▸ Ne.symm hsame
        rw [List.filterMap_cons_some hlater, ih hrest hnodup]
        by_cases hin : member.name ∈ rest
        · rw [if_pos hin, if_pos (List.mem_cons_of_mem _ hin), put, if_neg hother]
        · have hout : member.name ∉ name :: rest := List.mem_cons.not.mpr (not_or.mpr ⟨hsame, hin⟩)
          rw [if_neg hin, if_neg hout]

theorem settled_concat (declared : List Member) (member : Member) :
    settled (declared ++ [member]) = member.put (settled declared) := by
  have hfilter := filterMap_latest?_concat declared member (declared.map Member.name).eraseDups
    (fun _ hmem => List.mem_eraseDups.mp hmem) (nodup_eraseDups _)
  have hthere : member.name ∈ (declared.map Member.name).eraseDups ↔
      member.name ∈ declared.map Member.name := List.mem_eraseDups
  rw [settled, List.map_append, List.map_singleton, eraseDups_concat]
  by_cases h : member.name ∈ declared.map Member.name
  · rw [if_pos (hthere.mpr h)] at hfilter
    rw [if_pos h]
    exact hfilter
  · have hlast : latest? (declared ++ [member]) member.name = some member := by
      rw [latest?_concat, if_pos rfl]
    have hnew : member.name ∉ (settled declared).map Member.name := by
      rwa [map_name_settled, hthere]
    rw [if_neg (hthere.not.mpr h)] at hfilter
    rw [if_neg h, List.filterMap_append, hfilter, List.filterMap_cons_some hlast,
      put_of_not_mem hnew]
    rfl

theorem putAll_append (front back into : List Member) :
    putAll (front ++ back) into = putAll back (putAll front into) := List.foldl_append

theorem settled_append (front back : List Member) :
    settled (front ++ back) = putAll back (settled front) := by
  induction back generalizing front with
  | nil => rw [List.append_nil]; rfl
  | cons member rest ih =>
      rw [List.append_cons, ih, settled_concat]
      rfl

-- A definition that follows replaces the one before.
theorem put_put_of_name (h : member.name = other.name) (into : List Member) :
    member.put (other.put into) = member.put into := by
  induction into with
  | nil => simp only [put, if_pos h.symm]
  | cons first rest ih =>
      rw [put, put]
      by_cases hfirst : first.name = other.name
      · rw [if_pos hfirst, if_pos (hfirst.trans h.symm), put, if_pos h.symm]
      · have hne : first.name ≠ member.name := fun heq => hfirst (heq.trans h)
        rw [if_neg hfirst, if_neg hne, put, if_neg hne, ih]

-- Names that are different do not meet, if the place of one is settled.
theorem put_comm (hne : member.name ≠ other.name) (hin : member.name ∈ into.map Member.name) :
    member.put (other.put into) = other.put (member.put into) := by
  induction into with
  | nil => cases hin
  | cons first rest ih =>
      rw [put, put]
      by_cases hfirst : first.name = member.name
      · have hother : first.name ≠ other.name := fun heq => hne (hfirst.symm.trans heq)
        rw [if_neg hother, if_pos hfirst, put, if_pos hfirst, put, if_neg hne]
      · have hrest : member.name ∈ rest.map Member.name :=
          (List.mem_cons.mp hin).resolve_left (Ne.symm hfirst)
        by_cases hother : first.name = other.name
        · rw [if_pos hother, if_neg hfirst, put, if_neg (Ne.symm hne), put, if_pos hother]
        · rw [if_neg hother, if_neg hfirst, put, if_neg hfirst, put, if_neg hother, ih hrest]

theorem mem_names_put (h : member.name ∈ into.map Member.name) (other : Member) :
    member.name ∈ (other.put into).map Member.name := by
  induction into with
  | nil => cases h
  | cons first rest ih =>
      rw [put]
      split
      · rename_i hsame
        rw [List.map_cons, ← hsame]
        exact h
      · rcases List.mem_cons.mp h with hfirst | hrest
        · exact List.mem_cons.mpr (.inl hfirst)
        · exact List.mem_cons_of_mem _ (ih hrest)

theorem put_putAll_comm (hnew : member.name ∉ rest.map Member.name)
    (hin : member.name ∈ into.map Member.name) :
    member.put (putAll rest into) = putAll rest (member.put into) := by
  induction rest generalizing into with
  | nil => rfl
  | cons other rest ih =>
      obtain ⟨hne, hrest⟩ := not_or.mp (List.mem_cons.not.mp hnew)
      calc member.put (putAll rest (other.put into))
          = putAll rest (member.put (other.put into)) := ih hrest (mem_names_put hin other)
        _ = putAll rest (other.put (member.put into)) := by rw [put_comm hne hin]

theorem mem_names_put_self (member : Member) (into : List Member) :
    member.name ∈ (member.put into).map Member.name := by
  induction into with
  | nil => exact List.mem_singleton_self _
  | cons other rest ih =>
      rw [put]
      split
      · exact List.mem_cons_self
      · exact List.mem_cons_of_mem _ ih

theorem putAll_put (member : Member) {members : List Member}
    (hnodup : (members.map Member.name).Nodup) (into : List Member) :
    putAll (member.put members) into = member.put (putAll members into) := by
  induction members generalizing into with
  | nil => rfl
  | cons other rest ih =>
      obtain ⟨hother, hrest⟩ := List.nodup_cons.mp hnodup
      rw [put]
      by_cases hsame : other.name = member.name
      · rw [if_pos hsame]
        have hin : member.name ∈ (other.put into).map Member.name :=
          hsame ▸ mem_names_put_self other into
        calc putAll rest (member.put into)
            = putAll rest (member.put (other.put into)) := by rw [put_put_of_name hsame.symm]
          _ = member.put (putAll rest (other.put into)) :=
              (put_putAll_comm (hsame ▸ hother) hin).symm
      · rw [if_neg hsame]
        exact ih hrest _

-- What declarations come to when they are added does not change by settling them first.
theorem putAll_settled (declared into : List Member) :
    putAll (settled declared) into = putAll declared into := by
  induction declared using List.reverseRecOn with
  | nil => rfl
  | append_singleton front last ih =>
      rw [settled_concat, putAll_put last (nodup_settled front), ih, putAll_append]
      rfl

end Member

namespace InterfaceClass

mutual

-- All that a class declares, whatever is declared again later: first what its parents
-- declare in their order, then its own.
def declared : InterfaceClass → List Member
  | mk _ parents members => declaredAll parents ++ members

def declaredAll : List InterfaceClass → List Member
  | [] => []
  | cls :: rest => cls.declared ++ declaredAll rest

end

mutual

theorem merged_eq_settled (cls : InterfaceClass) : cls.merged = Member.settled cls.declared := by
  match cls with
  | mk name parents members =>
      rw [merged, declared, Member.settled_append, putAll_mergedAll,
        ← List.nil_append (declaredAll parents), Member.settled_append]
      rfl

theorem putAll_mergedAll (parents : List InterfaceClass) (into : List Member) :
    Member.putAll (mergedAll parents) into = Member.putAll (declaredAll parents) into := by
  match parents with
  | [] => rfl
  | cls :: rest =>
      rw [mergedAll, declaredAll, Member.putAll_append, Member.putAll_append,
        merged_eq_settled cls, Member.putAll_settled, putAll_mergedAll rest]

end

end InterfaceClass

end Rtl
