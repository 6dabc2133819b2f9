import Mathlib
import Rtl.Interface.Claims

namespace Rtl

namespace Claims

-- A port of the table that nobody holds.
def Free (claims : Claims) (port : PortId) : Prop :=
  ∃ entry, claims.ports.get? port = some entry ∧ entry.owner = none

-- `now` is what is left of `before` once free ports were claimed one after the
-- other. The entries made are listed with the newest first.
inductive Grown (before : Claims) : List (PortId × NodeId) → Claims → Prop
  | none : Grown before [] before
  | claim {made : List (PortId × NodeId)} {now : Claims} (h : Grown before made now)
      {port : PortId} (hfree : now.Free port) (leaf : NodeId) :
      Grown before ((port, leaf) :: made) (now.claim port leaf)

variable {before now : Claims} {made : List (PortId × NodeId)}

theorem ports_setOwner_twice (claims : Claims) (port : PortId) (first second : Option NodeId) :
    ((claims.setOwner port first).setOwner port second).ports =
      (claims.setOwner port second).ports := by
  simp only [setOwner, Arena.modify, Arena.mk.injEq]
  apply Array.ext_getElem?
  intro index
  simp only [Array.getElem?_modify]
  by_cases h : port.index = index
  · simp [h, Function.comp_def]
  · simp [h]

-- Taking a free port from nobody changes nothing.
theorem ports_setOwner_of_free {claims : Claims} {port : PortId} (h : claims.Free port) :
    (claims.setOwner port .none).ports = claims.ports := by
  obtain ⟨entry, hentry, howner⟩ := h
  obtain ⟨hlt, hget⟩ := Array.getElem?_eq_some_iff.mp hentry
  have hsame : { entry with owner := .none } = entry := by rw [← howner]
  have hitems : (claims.setOwner port .none).ports.items = claims.ports.items := by
    apply Array.ext_getElem?
    intro index
    simp only [setOwner, Arena.modify, Array.getElem?_modify]
    by_cases h : port.index = index
    · subst h
      simp only [if_true, Array.getElem?_eq_getElem hlt, hget, Option.map_some, hsame]
    · simp [h]
  exact congrArg Arena.mk hitems

-- Giving up ports reads and changes their owners only, never the log.
theorem ports_foldl_setOwner {a b : Claims} (h : a.ports = b.ports)
    (freed : List (PortId × NodeId)) :
    (freed.foldl (fun claims (port, _) => claims.setOwner port .none) a).ports =
      (freed.foldl (fun claims (port, _) => claims.setOwner port .none) b).ports := by
  induction freed generalizing a b with
  | nil => exact h
  | cons first rest ih =>
      obtain ⟨port, leaf⟩ := first
      apply ih
      simp only [setOwner, h]

namespace Grown

theorem log_eq (h : before.Grown made now) : now.log = made ++ before.log := by
  induction h with
  | none => rfl
  | claim h hfree leaf ih => exact congrArg (_ :: ·) ih

theorem since_eq (h : before.Grown made now) : now.since before.mark = made := by
  rw [since, mark, h.log_eq, List.length_append, Nat.add_sub_cancel, List.take_left]

theorem trans {last : Claims} {later : List (PortId × NodeId)} (h : before.Grown made now)
    (hlater : now.Grown later last) : before.Grown (later ++ made) last := by
  induction hlater with
  | none => exact h
  | claim hlater hfree leaf ih => exact ih.claim hfree leaf

-- What was claimed from free ports can be given up without a trace, the newest
-- first: each entry leaves its port as it was found.
theorem ports_foldl_setOwner (h : before.Grown made now) :
    (made.foldl (fun claims (port, _) => claims.setOwner port .none) now).ports =
      before.ports := by
  induction h with
  | none => rfl
  | claim h hfree leaf ih =>
      rw [List.foldl_cons, ← ih]
      apply Claims.ports_foldl_setOwner
      exact (ports_setOwner_twice ..).trans (ports_setOwner_of_free hfree)

theorem rollback_eq (h : before.Grown made now) : now.rollback before.mark = before := by
  have hports : (now.rollback before.mark).ports = before.ports := by
    rw [← h.ports_foldl_setOwner, ← h.since_eq]
    rfl
  have hlog : (now.rollback before.mark).log = before.log := by
    simp only [rollback, mark]
    rw [h.log_eq, List.length_append, Nat.add_sub_cancel, List.drop_left]
  exact congrArg₂ Claims.mk hports hlog

end Grown

-- Whatever is found for a name is a free port.
theorem free_of_mem_findUnclaimed {claims : Claims} {name : String} {port : PortId}
    (h : port ∈ claims.findUnclaimed name) : claims.Free port := by
  simp only [findUnclaimed, List.mem_filterMap, Arena.entries, List.mem_map] at h
  obtain ⟨⟨id, entry⟩, ⟨⟨item, index⟩, hmem, heq⟩, hcond⟩ := h
  obtain ⟨rfl, rfl⟩ := Prod.mk.inj heq
  have hitem := List.mem_zipIdx_iff_getElem?.mp hmem
  by_cases hfree : item.owner.isNone && item.name.toLower == name.toLower
  · rw [if_pos hfree] at hcond
    obtain rfl := Option.some.inj hcond
    simp only [Bool.and_eq_true, Option.isNone_iff_eq_none] at hfree
    refine ⟨item, ?_, hfree.1⟩
    simpa [Arena.get?, Arena.toList] using hitem
  · rw [if_neg hfree] at hcond
    simp at hcond

-- The log has the given holders in some order, no port twice, and says of each
-- port who owns it.
structure Holds (claims : Claims) (holders : List (PortId × NodeId)) : Prop where
  perm : claims.log.Perm holders
  nodup : (claims.log.map (·.1)).Nodup
  owner_iff : ∀ port node, claims.owner? port = some node ↔ (port, node) ∈ claims.log

variable {claims : Claims} {holders : List (PortId × NodeId)} {port : PortId}

theorem Free.owner? (h : claims.Free port) : claims.owner? port = none := by
  obtain ⟨entry, hentry, howner⟩ := h
  simp [Claims.owner?, hentry, howner]

theorem owner?_setOwner_self (h : (claims.ports.get? port).isSome) (owner : Option NodeId) :
    (claims.setOwner port owner).owner? port = owner := by
  obtain ⟨entry, hentry⟩ := Option.isSome_iff_exists.mp h
  simp only [Arena.get?] at hentry
  simp [owner?, setOwner, Arena.get?, Arena.modify, Array.getElem?_modify, hentry]

theorem owner?_setOwner_of_ne {other : PortId} (h : port ≠ other) (owner : Option NodeId) :
    (claims.setOwner port owner).owner? other = claims.owner? other := by
  have hindex : port.index ≠ other.index := fun he => h (Id.index_injective he)
  simp [owner?, setOwner, Arena.get?, Arena.modify, Array.getElem?_modify, hindex]

namespace Holds

theorem of_perm {other : List (PortId × NodeId)} (h : claims.Holds holders)
    (hperm : holders.Perm other) : claims.Holds other :=
  ⟨h.perm.trans hperm, h.nodup, h.owner_iff⟩

theorem owner?_eq_iff (h : claims.Holds holders) {node : NodeId} :
    claims.owner? port = some node ↔ (port, node) ∈ holders :=
  (h.owner_iff port node).trans h.perm.mem_iff

theorem claim (h : claims.Holds holders) (hfree : claims.Free port) (leaf : NodeId) :
    (claims.claim port leaf).Holds ((port, leaf) :: holders) := by
  have hnone := hfree.owner?
  refine ⟨h.perm.cons _, ?_, ?_⟩
  · refine List.nodup_cons.mpr ⟨?_, h.nodup⟩
    intro hmem
    obtain ⟨⟨_, node⟩, hentry, rfl⟩ := List.mem_map.mp hmem
    have howner := (h.owner_iff _ node).mpr hentry
    simp only [hnone] at howner
    cases howner
  · intro other node
    have hlog : (claims.claim port leaf).log = (port, leaf) :: claims.log := rfl
    have howner : (claims.claim port leaf).owner? other =
        (claims.setOwner port (some leaf)).owner? other := rfl
    rw [hlog, howner, List.mem_cons, Prod.mk.injEq, ← h.owner_iff]
    by_cases he : port = other
    · subst he
      obtain ⟨entry, hentry, -⟩ := hfree
      rw [owner?_setOwner_self (by simp [hentry]), hnone]
      simp [eq_comm]
    · rw [owner?_setOwner_of_ne he]
      simp [Ne.symm he]

-- New claims come on top of the old ones.
theorem grown {made : List (PortId × NodeId)} (h : claims.Holds holders)
    (hmade : claims.Grown made now) : now.Holds (made ++ holders) := by
  induction hmade with
  | none => exact h
  | claim hmade hfree leaf ih => exact ih.claim hfree leaf

theorem release {node : NodeId} (h : claims.Holds ((port, node) :: holders)) :
    (claims.release port).Holds holders := by
  have hports := (h.perm.map (·.1)).nodup_iff.mp h.nodup
  obtain ⟨hnot, -⟩ := List.nodup_cons.mp hports
  have hrest : holders.filter (·.1 != port) = holders := by
    refine List.filter_eq_self.mpr fun entry hmem => ?_
    have hne : entry.1 ≠ port := by
      intro he
      exact hnot (List.mem_map.mpr ⟨entry, hmem, he⟩)
    simpa using hne
  have hperm := h.perm.filter (·.1 != port)
  rw [List.filter_cons_of_neg (by simp), hrest] at hperm
  refine ⟨hperm, h.nodup.sublist (List.filter_sublist.map _), ?_⟩
  intro other leaf
  have hlog : (claims.release port).log = claims.log.filter (·.1 != port) := rfl
  have howner : (claims.release port).owner? other =
      (claims.setOwner port none).owner? other := rfl
  rw [hlog, howner, List.mem_filter, ← h.owner_iff]
  by_cases he : port = other
  · subst he
    have hheld := h.owner?_eq_iff.mpr List.mem_cons_self
    have hsome : (claims.ports.get? port).isSome := by
      cases hget : claims.ports.get? port with
      | none => simp [Claims.owner?, hget] at hheld
      | some entry => rfl
    rw [owner?_setOwner_self hsome]
    simp
  · rw [owner?_setOwner_of_ne he]
    simp [Ne.symm he]

end Holds

end Claims

end Rtl
