import Rtl.Proofs.Interface.Rollback
import Rtl.Proofs.Outcome
import Rtl.Text

namespace Rtl

namespace Claims

-- What is left of the free ports once some were claimed by name. Each name has
-- the free ports it had, unless it had a single one, which is claimed now.
structure Narrowed (before now : Claims) : Prop where
  direction : ∀ port, (now.ports.get? port).map PortClaim.direction =
    (before.ports.get? port).map PortClaim.direction
  findUnclaimed : ∀ name, now.findUnclaimed name = before.findUnclaimed name ∨
    ∃ port, before.findUnclaimed name = [port] ∧ now.findUnclaimed name = []

variable {before now last : Claims} {name stem : String} {port : PortId} {leaf other : NodeId}

theorem findUnclaimed_congr (claims : Claims) {name other : String}
    (h : name.toLower = other.toLower) :
    claims.findUnclaimed name = claims.findUnclaimed other := by
  simp only [findUnclaimed, h]

theorem mem_findUnclaimed_iff {claims : Claims} :
    port ∈ claims.findUnclaimed name ↔
      ∃ entry, claims.ports.get? port = some entry ∧ entry.owner = none ∧
        entry.name.toLower = name.toLower := by
  simp only [findUnclaimed, List.mem_filterMap, Prod.exists, Arena.mem_entries_iff,
    Option.ite_none_right_eq_some, Bool.and_eq_true, Option.isNone_iff_eq_none, beq_iff_eq,
    Option.some.injEq]
  constructor
  · rintro ⟨_, entry, hentry, hfree, rfl⟩
    exact ⟨entry, hentry, hfree⟩
  · rintro ⟨entry, hentry, hfree⟩
    exact ⟨port, entry, hentry, hfree, rfl⟩

-- Two ports that are free under one name are free under the same names.
theorem findUnclaimed_eq_of_mem {claims : Claims} {other : String}
    (h : port ∈ claims.findUnclaimed name) (hother : port ∈ claims.findUnclaimed other) :
    claims.findUnclaimed name = claims.findUnclaimed other := by
  obtain ⟨entry, hentry, -, hname⟩ := mem_findUnclaimed_iff.mp h
  obtain ⟨_, hsame, -, hother⟩ := mem_findUnclaimed_iff.mp hother
  obtain rfl := Option.some.inj (hentry.symm.trans hsame)
  exact findUnclaimed_congr claims (hname.symm.trans hother)

theorem findUnclaimed_claim (claims : Claims) (port : PortId) (leaf : NodeId) (name : String) :
    (claims.claim port leaf).findUnclaimed name =
      (claims.findUnclaimed name).filter (· != port) := by
  simp only [claim, setOwner, findUnclaimed, Arena.entries_modify, List.filterMap_map,
    List.filter_filterMap]
  refine List.filterMap_congr fun pair _ => ?_
  obtain ⟨id, entry⟩ := pair
  by_cases h : id = port
  · simp only [Function.comp_apply, if_pos h, Option.isNone_some, Bool.false_and]
    by_cases hfree : entry.owner.isNone && entry.name.toLower == name.toLower
    · rw [if_pos hfree]
      simp [h, Option.filter]
    · rw [if_neg hfree]
      rfl
  · simp only [Function.comp_apply, if_neg h]
    split
    · simp [h, Option.filter]
    · rfl

theorem direction_claim (claims : Claims) (port : PortId) (leaf : NodeId) (other : PortId) :
    ((claims.claim port leaf).ports.get? other).map PortClaim.direction =
      (claims.ports.get? other).map PortClaim.direction := by
  simp only [claim, setOwner, Arena.get?, Arena.modify, Array.getElem?_modify]
  by_cases h : port.index = other.index
  · simp [h, Function.comp_def]
  · simp [h]

namespace Narrowed

theorem refl (claims : Claims) : claims.Narrowed claims := ⟨fun _ => rfl, fun _ => .inl rfl⟩

theorem trans (h : before.Narrowed now) (hnext : now.Narrowed last) : before.Narrowed last := by
  refine ⟨fun port => (hnext.direction port).trans (h.direction port), fun name => ?_⟩
  rcases hnext.findUnclaimed name with hsame | ⟨port, hsingle, hgone⟩
  · rw [hsame]
    exact h.findUnclaimed name
  · rcases h.findUnclaimed name with hold | ⟨_, -, hempty⟩
    · exact .inr ⟨port, hold ▸ hsingle, hgone⟩
    · rw [hsingle] at hempty
      cases hempty

-- The one free port of a name is claimed.
theorem claim {claims : Claims} (h : claims.findUnclaimed name = [port]) (leaf : NodeId) :
    claims.Narrowed (claims.claim port leaf) := by
  refine ⟨direction_claim claims port leaf, fun wanted => ?_⟩
  rw [findUnclaimed_claim]
  by_cases hmem : port ∈ claims.findUnclaimed wanted
  · have hname : port ∈ claims.findUnclaimed name := h ▸ List.mem_singleton_self port
    have hwanted := (findUnclaimed_eq_of_mem hmem hname).trans h
    refine .inr ⟨port, hwanted, ?_⟩
    simp [hwanted]
  · refine .inl (List.filter_eq_self.mpr fun other hother => ?_)
    have hne : other ≠ port := fun he => hmem (he ▸ hother)
    simpa using hne

theorem claim_claim (h : before.Narrowed now) (port : PortId) (leaf other : NodeId) :
    (before.claim port leaf).Narrowed (now.claim port other) := by
  refine ⟨fun wanted => ?_, fun name => ?_⟩
  · rw [direction_claim, direction_claim, h.direction]
  · rw [findUnclaimed_claim, findUnclaimed_claim]
    rcases h.findUnclaimed name with hsame | ⟨held, hsingle, hgone⟩
    · exact .inl (by rw [hsame])
    · by_cases he : held = port
      · exact .inl (by simp [hsingle, hgone, he])
      · exact .inr ⟨held, by simp [hsingle, he], by simp [hgone]⟩

-- A name with a single free port had no other one before.
theorem findUnclaimed_eq_of_singleton (h : before.Narrowed now)
    (hnow : now.findUnclaimed name = [port]) : before.findUnclaimed name = [port] := by
  rcases h.findUnclaimed name with hsame | ⟨_, -, hempty⟩
  · exact hsame ▸ hnow
  · rw [hnow] at hempty
    cases hempty

theorem findUnclaimed_eq_nil (h : before.Narrowed now)
    (hbefore : before.findUnclaimed name = []) : now.findUnclaimed name = [] := by
  rcases h.findUnclaimed name with hsame | ⟨_, -, hempty⟩
  · exact hsame ▸ hbefore
  · exact hempty

end Narrowed

-- A port whose name is the stem and the ending gives the stem, up to case.
theorem candidate?_of_mem_findUnclaimed {claims : Claims} {ending : String}
    (h : port ∈ claims.findUnclaimed (stem ++ ending)) :
    ∃ candidate, claims.candidate? port ending = some candidate ∧
      candidate.toLower = stem.toLower := by
  obtain ⟨⟨name, direction, owner⟩, hentry, hfree, hname⟩ := mem_findUnclaimed_iff.mp h
  simp only at hfree hname
  subst hfree
  have hlist : name.toList.map Char.toLower =
      stem.toList.map Char.toLower ++ ending.toList.map Char.toLower := by
    simpa only [Text.toList_toLower, String.toList_append, List.map_append] using
      congrArg String.toList hname
  have hlength : name.length - ending.length = stem.length := by
    have := congrArg List.length hlist
    simp only [List.length_map, List.length_append, String.length_toList] at this
    omega
  have hsuffix : ending.toLower.toList.isSuffixOf name.toLower.toList = true := by
    rw [List.isSuffixOf_iff_suffix, hname, Text.toLower_append, String.toList_append]
    exact List.suffix_append _ _
  refine ⟨String.ofList (name.toList.take stem.length), ?_, ?_⟩
  · simp only [candidate?, hentry, hsuffix, if_true, hlength]
  · apply String.toList_injective
    simp only [Text.toList_toLower, String.toList_ofList, List.map_take, hlist]
    rw [← String.length_toList, ← List.length_map (f := Char.toLower), List.take_left]

end Claims

namespace Match

variable {id : NodeId} {name : String} {leaf bound : NodeState} {claims before now : Claims}

theorem findUnclaimed_of_bindLeaf (h : bindLeaf id name leaf claims = .ok (bound, now)) :
    ∃ port, claims.findUnclaimed name = [port] ∧ now = claims.claim port id := by
  simp only [bindLeaf] at h
  split at h
  · cases h
  · rename_i port hfound
    obtain ⟨-, rfl⟩ := Prod.mk.inj (Except.ok.inj h)
    exact ⟨port, hfound, rfl⟩
  · cases h

-- However an attempt ends, it claimed only what was the one free port of a name.
theorem members_narrowed (id : Nat) (stem : String) (forest : Forest NodeState) (claims : Claims) :
    claims.Narrowed (members id stem forest claims).claims := by
  induction forest generalizing id stem claims with
  | nil => exact .refl claims
  | cons name state inner rest ihi ihr =>
      cases inner with
      | nil =>
          simp only [members]
          split
          · exact .refl claims
          · rename_i bound now hbound
            obtain ⟨port, hfound, rfl⟩ := findUnclaimed_of_bindLeaf hbound
            exact (Claims.Narrowed.claim hfound _).trans (ihr _ _ _)
      | cons first item below beside =>
          simp only [members]
          split
          · obtain ⟨made, hmade⟩ :=
              members_grown (id + 1) (stem ++ name) (.cons first item below beside) claims
            simp only [Attempt.undo, hmade.rollback_eq]
            exact .refl claims
          · exact (ihi _ _ _).trans (ihr _ _ _)

-- A leaf that can be bound could be bound, to the same port and on the same
-- side, when there were more free ports. The case of its name does not matter.
theorem bindLeaf_of_narrowed (other : NodeId) {wanted : String} {twin : NodeState}
    (hclaims : before.Narrowed claims) (hname : name.toLower = wanted.toLower)
    (hdirection : leaf.masterDirection = twin.masterDirection)
    (h : bindLeaf id name leaf claims = .ok (bound, now)) :
    ∃ bound' now', bindLeaf other wanted twin before = .ok (bound', now') ∧
      bound'.side = bound.side ∧ now'.Narrowed now := by
  obtain ⟨port, hfound, hnow⟩ := findUnclaimed_of_bindLeaf h
  have hbefore : before.findUnclaimed wanted = [port] := by
    rw [← before.findUnclaimed_congr hname]
    exact hclaims.findUnclaimed_eq_of_singleton hfound
  simp only [bindLeaf, hfound, hclaims.direction, hdirection] at h
  obtain ⟨rfl, rfl⟩ := Prod.mk.inj (Except.ok.inj h)
  simp only [bindLeaf, hbefore]
  exact ⟨_, _, rfl, rfl, hclaims.claim_claim port other id⟩

theorem agreed_after {rest : Attempt} {state : NodeState} {inner : Forest NodeState} {agrees : Bool}
    {agreed : List Bool} (h : (rest.after name state inner agrees).agreed = .ok agreed) :
    ∃ others, rest.agreed = .ok others ∧ agreed = agrees :: others := by
  obtain ⟨others, hothers, rfl⟩ := map_eq_ok.mp h
  exact ⟨others, hothers, rfl⟩

-- The name of an interface shows only in its error.
theorem settle_of_ok {name : String} {agreed : List Bool} {side : Side}
    (h : settle name agreed = .ok side) (other : String) : settle other agreed = .ok side := by
  simp only [settle] at h ⊢
  split at h
  · rename_i hall
    rw [if_pos hall, h]
  · rename_i hall
    rw [if_neg hall]
    split at h
    · rename_i hnone
      rw [if_pos hnone, h]
    · cases h

-- A match of members that succeeds: the members and the claims before it, what the members
-- agree on, and the members and the claims after it.
inductive Matched : Nat → String → Forest NodeState → Claims → List Bool → Forest NodeState →
    Claims → Prop
  | nil (id : Nat) (stem : String) (claims : Claims) : Matched id stem .nil claims [] .nil claims
  | leaf {id : Nat} {stem name : String} {state bound : NodeState} {rest later : Forest NodeState}
      {claims last : Claims} {port : PortId} {agreed : List Bool}
      (hfound : claims.findUnclaimed (stem ++ name) = [port])
      (hbound : bindLeaf ⟨id⟩ (stem ++ name) state claims = .ok (bound, claims.claim port ⟨id⟩))
      (hrest : Matched (id + 1) stem rest (claims.claim port ⟨id⟩) agreed later last) :
      Matched id stem (.cons name state .nil rest) claims ((bound.side == .master) :: agreed)
        (.cons name bound .nil later) last
  | nested {id : Nat} {stem name first : String} {state item root : NodeState}
      {below beside inside outside rest later : Forest NodeState} {claims between last : Claims}
      {within agreed : List Bool} {side : Side}
      (hinner : Matched (id + 1) (stem ++ name) (.cons first item below beside) claims within
        (.cons first root inside outside) between)
      (hside : settle (stem ++ name) within = .ok side)
      (hrest : Matched (id + 1 + (Forest.cons first item below beside).size) stem rest between
        agreed later last) :
      Matched id stem (.cons name state (.cons first item below beside) rest) claims
        (nestedAgrees side state.masterDirection :: agreed)
        (.cons name { state with side } (.cons first root inside outside) later) last

theorem matched_of_agreed {id : Nat} {stem : String} {forest : Forest NodeState}
    {agreed : List Bool} (h : (members id stem forest claims).agreed = .ok agreed) :
    Matched id stem forest claims agreed (members id stem forest claims).nodes
      (members id stem forest claims).claims := by
  induction forest generalizing id stem claims agreed with
  | nil =>
      obtain rfl := Except.ok.inj h
      exact .nil id stem claims
  | cons name state inner rest ihi ihr =>
      cases inner with
      | nil =>
          simp only [members] at h ⊢
          split at h
          · cases h
          · rename_i bound now hbound
            obtain ⟨others, hothers, rfl⟩ := agreed_after h
            obtain ⟨port, hfound, rfl⟩ := findUnclaimed_of_bindLeaf hbound
            exact .leaf hfound hbound (ihr hothers)
      | cons first item below beside =>
          simp only [members] at h ⊢
          split at h
          · cases h
          · rename_i side hsettled
            obtain ⟨within, hwithin, hside⟩ := bind_eq_ok.mp hsettled
            obtain ⟨others, hothers, rfl⟩ := agreed_after h
            have hrest := ihr hothers
            have hinner := ihi hwithin
            generalize members (id + 1) (stem ++ name) (.cons first item below beside) claims =
              attempt at hinner hrest ⊢
            obtain ⟨_, nodes, between⟩ := attempt
            cases hinner with
            | leaf hfound hbound hlater => exact .nested (.leaf hfound hbound hlater) hside hrest
            | nested hbelow hsettle hlater =>
                exact .nested (.nested hbelow hsettle hlater) hside hrest

namespace Matched

variable {id first : Nat} {stem : String} {forest later : Forest NodeState} {last : Claims}
  {agreed : List Bool}

-- What it did is all that an attempt does.
theorem members_eq (h : Matched id stem forest claims agreed later last) :
    members id stem forest claims = ⟨.ok agreed, later, last⟩ := by
  induction h with
  | nil id stem claims => rfl
  | leaf hfound hbound hrest ih =>
      simp only [members, hbound, ih, Attempt.after]
      rfl
  | nested hinner hside hrest ihi ihr =>
      simp only [members, ihi, Except.bind, hside, ihr, Attempt.after]
      rfl

theorem ne_nil {name : String} {state : NodeState} {inner rest : Forest NodeState}
    (h : Matched id stem (.cons name state inner rest) claims agreed later last) : agreed ≠ [] := by
  cases h with
  | leaf | nested => exact List.cons_ne_nil _ _

theorem narrowed (h : Matched id stem forest claims agreed later last) : claims.Narrowed last := by
  induction h with
  | nil id stem claims => exact .refl claims
  | leaf hfound hbound hrest ih => exact (Claims.Narrowed.claim hfound _).trans ih
  | nested hinner hside hrest ihi ihr => exact ihi.trans ihr

-- Members that can be matched could be matched, with the same sides, when there
-- were more free ports. Of the members only names and master directions matter.
theorem of_narrowed (h : Matched first stem forest now agreed later last) (second : Nat)
    {wanted : String} {twin : Forest NodeState} (hclaims : before.Narrowed now)
    (hstem : stem.toLower = wanted.toLower)
    (htwin : forest.map NodeState.masterDirection = twin.map NodeState.masterDirection) :
    (members second wanted twin before).agreed = .ok agreed ∧
      (members second wanted twin before).claims.Narrowed last := by
  have hlonger {stem wanted : String} (hstem : stem.toLower = wanted.toLower) (name : String) :
      (stem ++ name).toLower = (wanted ++ name).toLower := by
    rw [Text.toLower_append, Text.toLower_append, hstem]
  induction h generalizing second wanted twin before with
  | nil id stem claims =>
      cases twin with
      | nil => exact ⟨rfl, hclaims⟩
      | cons => cases htwin
  | @leaf id stem name state bound rest later claims last port agreed hfound hbound hrest ih =>
      cases twin with
      | nil => cases htwin
      | cons name' state' inner' rest' =>
          obtain ⟨rfl, hdirection, hinner, htwins⟩ := Forest.cons.inj htwin
          cases inner' with
          | cons => cases hinner
          | nil =>
              -- Both claim the same port, so there are still no fewer free ones.
              obtain ⟨bound', before', hbound', hside, hnext⟩ :=
                bindLeaf_of_narrowed ⟨second⟩ hclaims (hlonger hstem name) hdirection hbound
              obtain ⟨hagreed, hlast⟩ := ih (second + 1) hnext hstem htwins
              simp only [members, hbound', Attempt.after, hagreed, hside]
              exact ⟨rfl, hlast⟩
  | @nested id stem name first state item root below beside inside outside rest later claims
      between last within agreed side hinner hside hrest ihi ihr =>
      cases twin with
      | nil => cases htwin
      | cons name' state' inner' rest' =>
          obtain ⟨rfl, hdirection, htwini, htwins⟩ := Forest.cons.inj htwin
          cases inner' with
          | nil => cases htwini
          | cons first' item' below' beside' =>
              obtain ⟨hagreed, hnext⟩ := ihi (second + 1) hclaims (hlonger hstem name) htwini
              obtain ⟨hrests, hlast⟩ :=
                ihr (second + 1 + (Forest.cons first' item' below' beside').size) hnext hstem htwins
              have hsettle := settle_of_ok hside (wanted ++ name)
              simp only [members, hagreed, Except.bind, hsettle, Attempt.after, hrests, hdirection]
              exact ⟨rfl, hlast⟩

end Matched

end Match

end Rtl
