import Rtl.Proofs.Interface.Mirror

namespace Rtl

namespace Claims

variable {claims : Claims}

-- A table is given by its ports, who owns them and its log.
theorem eq_of_listing {a b : Claims} (hlisting : a.listing = b.listing)
    (howner : ∀ port, a.owner? port = b.owner? port) (hlog : a.log = b.log) : a = b := by
  refine congrArg₂ mk (congrArg Arena.mk (Array.ext_getElem? fun index => ?_)) hlog
  have hentry := congrArg (·[index]?) hlisting
  have hheld := howner ⟨index⟩
  simp only [listing, Arena.toList, List.getElem?_map, Array.getElem?_toList] at hentry
  simp only [owner?, Arena.get?] at hheld
  cases ha : a.ports.items[index]? with
  | none =>
      cases hb : b.ports.items[index]? with
      | none => rfl
      | some entry => simp [ha, hb] at hentry
  | some entry =>
      cases hb : b.ports.items[index]? with
      | none => simp [ha, hb] at hentry
      | some other =>
          obtain ⟨name, direction, owner⟩ := entry
          obtain ⟨name', direction', owner'⟩ := other
          simp only [ha, hb, Option.map_some, Option.bind_some, Option.some.injEq,
            Prod.mk.injEq] at hentry hheld
          rw [hentry.1, hentry.2, hheld]

theorem owner?_setOwner_none (claims : Claims) (port other : PortId) :
    (claims.setOwner port none).owner? other =
      if other = port then none else claims.owner? other := by
  split
  · rename_i he
    subst he
    cases hentry : claims.ports.get? other with
    | none =>
        have hnone : claims.ports.items[other.index]? = none := hentry
        simp [owner?, setOwner, Arena.get?, Arena.modify, Array.getElem?_modify, hnone]
    | some entry => exact owner?_setOwner_self (by simp [hentry]) none
  · rename_i hne
    exact owner?_setOwner_of_ne (Ne.symm hne) none

-- Giving up entries of a log takes every one of their ports from its owner.
theorem owner?_foldl_setOwner (freed : List (PortId × NodeId)) (claims : Claims) (port : PortId) :
    (freed.foldl (fun claims (port, _) => claims.setOwner port none) claims).owner? port =
      if port ∈ freed.map (·.1) then none else claims.owner? port := by
  induction freed generalizing claims with
  | nil => simp
  | cons first rest ih =>
      simp only [List.foldl_cons, ih, owner?_setOwner_none, List.map_cons, List.mem_cons]
      by_cases hrest : port ∈ rest.map (·.1)
      · rw [if_pos hrest, if_pos (.inr hrest)]
      · simp only [hrest, if_false, or_false]

theorem listing_foldl_setOwner (freed : List (PortId × NodeId)) (claims : Claims) :
    (freed.foldl (fun claims (port, _) => claims.setOwner port none) claims).listing =
      claims.listing := by
  induction freed generalizing claims with
  | nil => rfl
  | cons first rest ih => rw [List.foldl_cons, ih, listing_setOwner]

-- What a rollback does to owners, names and log.

theorem owner?_rollback (claims : Claims) (mark : Nat) (port : PortId) :
    (claims.rollback mark).owner? port =
      if port ∈ (claims.since mark).map (·.1) then none else claims.owner? port :=
  owner?_foldl_setOwner ..

theorem listing_rollback (claims : Claims) (mark : Nat) :
    (claims.rollback mark).listing = claims.listing :=
  listing_foldl_setOwner ..

theorem log_rollback (claims : Claims) (mark : Nat) :
    (claims.rollback mark).log = claims.log.drop (claims.log.length - mark) := rfl

theorem rollback?_eq_some_iff {mark : Nat} {undone : List (PortId × NodeId)} {next : Claims} :
    claims.rollback? mark = some (undone, next) ↔
      mark ≤ claims.mark ∧ undone = claims.since mark ∧ next = claims.rollback mark := by
  simp only [rollback?]
  split
  · rename_i h
    simp [h, eq_comm]
  · rename_i h
    simp [h]

-- Releases the ports of a list one after the other.
def releaseEach (claims : Claims) (ports : List PortId) : Claims := ports.foldl release claims

theorem releaseEach_append (claims : Claims) (front back : List PortId) :
    claims.releaseEach (front ++ back) = (claims.releaseEach front).releaseEach back :=
  List.foldl_append

theorem owner?_release (claims : Claims) (port other : PortId) :
    (claims.release port).owner? other = if other = port then none else claims.owner? other :=
  owner?_setOwner_none ..

theorem listing_release (claims : Claims) (port : PortId) :
    (claims.release port).listing = claims.listing :=
  listing_setOwner ..

theorem log_release (claims : Claims) (port : PortId) :
    (claims.release port).log = claims.log.filter (·.1 != port) := rfl

theorem owner?_releaseEach (claims : Claims) (ports : List PortId) (port : PortId) :
    (claims.releaseEach ports).owner? port = if port ∈ ports then none else claims.owner? port := by
  induction ports generalizing claims with
  | nil => simp [releaseEach]
  | cons first rest ih =>
      rw [releaseEach, List.foldl_cons, ← releaseEach, ih, owner?_release]
      simp only [List.mem_cons]
      by_cases hrest : port ∈ rest
      · rw [if_pos hrest, if_pos (.inr hrest)]
      · simp only [hrest, if_false, or_false]

theorem listing_releaseEach (claims : Claims) (ports : List PortId) :
    (claims.releaseEach ports).listing = claims.listing := by
  induction ports generalizing claims with
  | nil => rfl
  | cons first rest ih =>
      rw [releaseEach, List.foldl_cons, ← releaseEach, ih, listing_release]

theorem log_releaseEach (claims : Claims) (ports : List PortId) :
    (claims.releaseEach ports).log = claims.log.filter (·.1 ∉ ports) := by
  induction ports generalizing claims with
  | nil => simp [releaseEach]
  | cons first rest ih =>
      rw [releaseEach, List.foldl_cons, ← releaseEach, ih, log_release, List.filter_filter]
      apply List.filter_congr
      intro entry hentry
      by_cases he : entry.1 = first <;> simp [he]

end Claims

end Rtl
