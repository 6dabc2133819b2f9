import Rtl.Proofs.Interface.Standing

namespace Rtl

open Forest

theorem Side.below_below (side : Side) (direction : Direction) :
    (side.below direction).below direction = side := by
  simp only [below]
  split
  · rfl
  · cases side <;> rfl

-- What a match finds out about a node.
def NodeState.resolved (state : NodeState) : Side × Option PortId := (state.side, state.port)

namespace Match

-- The side on which a match finds a node: that of the port of a leaf, else that of
-- the first member, seen from the node.
def sideFound (claims : Claims) (name : String) (state : NodeState) : Forest NodeState → Side
  | .nil =>
      match claims.findUnclaimed name with
      | [port] => if claims.direction? port = some state.masterDirection then .master else .slave
      | _ => .slave
  | .cons member item inner _ =>
      let side := sideFound claims (name ++ member) item inner
      if inner.isEmpty then side else side.below item.masterDirection

theorem sideFound_leaf (claims : Claims) (stem name : String) (around state : NodeState)
    (rest : Forest NodeState) :
    sideFound claims stem around (.cons name state .nil rest) =
      sideFound claims (stem ++ name) state .nil := rfl

theorem sideFound_nested (claims : Claims) (stem name first : String)
    (around state item : NodeState) (below beside rest : Forest NodeState) :
    sideFound claims stem around (.cons name state (.cons first item below beside) rest) =
      (sideFound claims (stem ++ name) state (.cons first item below beside)).below
        state.masterDirection := rfl

-- What an attempt that fails leaves of a node that it had matched: the side that
-- it found, and no port.
def leave (claims : Claims) (name : String) (state : NodeState) (inner : Forest NodeState) :
    NodeState :=
  { state with
    side := sideFound claims name state inner
    port := if inner.isEmpty then none else state.port }

theorem resolved_leave_iff (claims : Claims) (name : String) (state : NodeState)
    (inner : Forest NodeState) :
    (leave claims name state inner).resolved = state.resolved ↔
      state.side = sideFound claims name state inner ∧ (inner.isEmpty → state.port = none) := by
  rw [NodeState.resolved, NodeState.resolved, Prod.mk.injEq, leave]
  simp only
  cases inner.isEmpty with
  | false | true => simp [eq_comm]

def leaveAll (claims : Claims) (stem : String) : Forest NodeState → Forest NodeState
  | .nil => .nil
  | .cons name state inner rest =>
      .cons name (leave claims (stem ++ name) state inner) (leaveAll claims (stem ++ name) inner)
        (leaveAll claims stem rest)

-- What an attempt that fails leaves of all nodes: it had matched those before the
-- one that failed, except the ones around that, and the members of that one if it
-- was their sides that did not agree.
inductive Abandoned (claims : Claims) : String → Incompatible → Forest NodeState →
    Forest NodeState → Prop
  | missing (stem name : String) (state : NodeState) (rest : Forest NodeState) :
      Abandoned claims stem (.missing (stem ++ name)) (.cons name state .nil rest)
        (.cons name state .nil rest)
  | ambiguous (stem name : String) (count : Nat) (state : NodeState) (rest : Forest NodeState) :
      Abandoned claims stem (.ambiguous count (stem ++ name)) (.cons name state .nil rest)
        (.cons name state .nil rest)
  | mixed (stem name : String) (state : NodeState) {inner : Forest NodeState}
      (rest : Forest NodeState) (hinner : inner ≠ .nil) :
      Abandoned claims stem (.mixedSides (stem ++ name)) (.cons name state inner rest)
        (.cons name state (leaveAll claims (stem ++ name) inner) rest)
  | within {stem name : String} {cause : Incompatible} {inner left : Forest NodeState}
      (state : NodeState) (rest : Forest NodeState)
      (h : Abandoned claims (stem ++ name) cause inner left) :
      Abandoned claims stem cause (.cons name state inner rest) (.cons name state left rest)
  | later {stem : String} {cause : Incompatible} {rest left : Forest NodeState} (name : String)
      (state : NodeState) (inner : Forest NodeState) (h : Abandoned claims stem cause rest left) :
      Abandoned claims stem cause (.cons name state inner rest)
        (.cons name (leave claims (stem ++ name) state inner)
          (leaveAll claims (stem ++ name) inner) left)

-- The nodes behind an attempt when all that it claimed is given back.
def undone (id : Nat) (stem : String) (forest : Forest NodeState) (claims : Claims) :
    Forest NodeState :=
  ((members id stem forest claims).undo id claims.mark).nodes

theorem unbind_congr {one other : List NodeId} {id : Nat} {forest : Forest NodeState}
    (h : ∀ index, id ≤ index → index < id + forest.size →
      (one.contains ⟨index⟩ = other.contains ⟨index⟩)) :
    unbind one id forest = unbind other id forest := by
  induction forest generalizing id with
  | nil => rfl
  | cons name state inner rest ihi ihr =>
      simp only [Forest.size] at h
      have hstate := h id (Nat.le_refl _) (by omega)
      have hinner := @ihi (id + 1) fun index hfirst hlast => h index (by omega) (by omega)
      have hrest := @ihr (id + 1 + inner.size) fun index hfirst hlast =>
        h index (by omega) (by omega)
      simp only [unbind, hstate, hinner, hrest]

theorem unbind_nil (id : Nat) (forest : Forest NodeState) : unbind [] id forest = forest := by
  induction forest generalizing id with
  | nil => rfl
  | cons name state inner rest ihi ihr =>
      simp only [unbind, ihi, ihr, List.contains_nil, Bool.false_eq_true, if_false]

-- An attempt claims ports for its own nodes only.
theorem range_of_mem_since {id : Nat} {stem : String} {forest : Forest NodeState} {claims : Claims}
    {entry : PortId × NodeId}
    (h : entry ∈ (members id stem forest claims).claims.since claims.mark) :
    id ≤ entry.2.index ∧ entry.2.index < id + forest.size := by
  induction forest generalizing id stem claims with
  | nil =>
      rw [members, Claims.since_mark] at h
      cases h
  | cons name state inner rest ihi ihr =>
      cases inner with
      | nil =>
          simp only [members] at h
          split at h
          · rw [Claims.since_mark] at h
            cases h
          · rename_i bound now hbound
            obtain ⟨port, -, hport⟩ := bindLeaf_grown hbound
            obtain ⟨made, hmade⟩ := members_grown (id + 1) stem rest now
            simp only [Attempt.after, (hport.trans hmade).since_eq] at h
            simp only [Forest.size]
            rcases List.mem_append.mp h with hlater | hfirst
            · have := ihr (hmade.since_eq ▸ hlater)
              omega
            · obtain rfl := List.mem_singleton.mp hfirst
              simp only
              omega
      | cons first item below beside =>
          simp only [members] at h
          obtain ⟨within, hwithin⟩ :=
            members_grown (id + 1) (stem ++ name) (.cons first item below beside) claims
          rw [Forest.size]
          split at h
          · simp only [Attempt.undo, hwithin.rollback_eq, Claims.since_mark] at h
            cases h
          · obtain ⟨made, hmade⟩ :=
              members_grown (id + 1 + (Forest.cons first item below beside).size) stem rest
                (members (id + 1) (stem ++ name) (.cons first item below beside) claims).claims
            simp only [Attempt.after, (hwithin.trans hmade).since_eq] at h
            rcases List.mem_append.mp h with hlater | hfirst
            · have := ihr (hmade.since_eq ▸ hlater)
              omega
            · have := ihi (hwithin.since_eq ▸ hfirst)
              omega

section

variable {id : Nat} {stem name first : String} {state item bound : NodeState}
  {rest below beside : Forest NodeState} {claims now : Claims} {cause : Incompatible} {side : Side}

-- What is given back in a tree is what was claimed there.
theorem undone_eq {made : List (PortId × NodeId)} {forest : Forest NodeState}
    (h : claims.Grown made (members id stem forest claims).claims) :
    undone id stem forest claims =
      unbind (made.map (·.2)) id (members id stem forest claims).nodes := by
  simp only [undone, Attempt.undo, h.since_eq]

theorem contains_eq_false {apart : List (PortId × NodeId)} {index : Nat}
    (h : ∀ entry ∈ apart, entry.2.index ≠ index) :
    (apart.map (·.2)).contains ⟨index⟩ = false := by
  rw [Bool.eq_false_iff, ne_eq, List.contains_iff_mem, List.mem_map]
  rintro ⟨entry, hentry, hnode⟩
  exact h entry hentry (congrArg Id.index hnode)

-- A member and those after it give back what each of them claimed.
theorem undone_cons {forest nodes : Forest NodeState} {agrees : Bool}
    {here : List (PortId × NodeId)}
    (h : members id stem forest claims =
      (members (id + 1 + nodes.size) stem rest now).after name bound nodes agrees)
    (hhere : claims.Grown here now)
    (hrange : ∀ entry ∈ here, entry.2.index < id + 1 + nodes.size) :
    undone id stem forest claims =
      .cons name
        (if (here.map (·.2)).contains ⟨id⟩ then { bound with port := none } else bound)
        (unbind (here.map (·.2)) (id + 1) nodes) (undone (id + 1 + nodes.size) stem rest now) := by
  obtain ⟨made, hmade⟩ := members_grown (id + 1 + nodes.size) stem rest now
  have hall : claims.Grown (made ++ here) (members id stem forest claims).claims :=
    h ▸ hhere.trans hmade
  have hlater : ∀ index < id + 1 + nodes.size, (made.map (·.2)).contains ⟨index⟩ = false := by
    refine fun index hindex => contains_eq_false fun entry hentry heq => ?_
    have := range_of_mem_since (hmade.since_eq ▸ hentry)
    omega
  have hbefore : ∀ index, id + 1 + nodes.size ≤ index →
      (here.map (·.2)).contains ⟨index⟩ = false := by
    refine fun index hindex => contains_eq_false fun entry hentry heq => ?_
    have := hrange entry hentry
    omega
  have hinner : unbind ((made ++ here).map (·.2)) (id + 1) nodes =
      unbind (here.map (·.2)) (id + 1) nodes :=
    unbind_congr fun index _ hlast => by
      rw [List.map_append, List.contains_append, hlater index hlast, Bool.false_or]
  have hrest : unbind ((made ++ here).map (·.2)) (id + 1 + nodes.size)
      (members (id + 1 + nodes.size) stem rest now).nodes =
        unbind (made.map (·.2)) (id + 1 + nodes.size)
          (members (id + 1 + nodes.size) stem rest now).nodes :=
    unbind_congr fun index hfirst _ => by
      rw [List.map_append, List.contains_append, hbefore index hfirst, Bool.or_false]
  rw [undone_eq hall, undone_eq hmade, h, Attempt.after, unbind, hinner, hrest, List.map_append,
    List.contains_append, hlater id (by omega), Bool.false_or]

theorem undone_of_bindLeaf (h : bindLeaf ⟨id⟩ (stem ++ name) state claims = .ok (bound, now)) :
    undone id stem (.cons name state .nil rest) claims =
      .cons name { bound with port := none } .nil (undone (id + 1) stem rest now) := by
  obtain ⟨port, -, hport⟩ := bindLeaf_grown h
  have hmembers : members id stem (.cons name state .nil rest) claims =
      (members (id + 1 + (Forest.nil : Forest NodeState).size) stem rest now).after name bound .nil
        (bound.side == .master) := by
    simp only [members, h, size, Nat.add_zero]
  have hself : ([(port, (⟨id⟩ : NodeId))].map (·.2)).contains ⟨id⟩ = true := by
    simp
  have hundone := undone_cons hmembers hport (by simp [size])
  rw [hself, if_pos rfl] at hundone
  exact hundone

theorem undone_of_bindLeaf_error
    (h : bindLeaf ⟨id⟩ (stem ++ name) state claims = .error cause) :
    undone id stem (.cons name state .nil rest) claims = .cons name state .nil rest := by
  simp only [undone, members, h, Attempt.undo, Claims.since_mark, List.map_nil, unbind_nil]

theorem undone_of_settle
    (h : (members (id + 1) (stem ++ name) (.cons first item below beside) claims).agreed.bind
      (settle (stem ++ name)) = .ok side) :
    undone id stem (.cons name state (.cons first item below beside) rest) claims =
      .cons name { state with side }
        (undone (id + 1) (stem ++ name) (.cons first item below beside) claims)
        (undone (id + 1 + (Forest.cons first item below beside).size) stem rest
          (members (id + 1) (stem ++ name) (.cons first item below beside) claims).claims) := by
  obtain ⟨within, hwithin⟩ :=
    members_grown (id + 1) (stem ++ name) (.cons first item below beside) claims
  have hsize := size_members (id + 1) (stem ++ name) (.cons first item below beside) claims
  have hrange : ∀ entry ∈ within, id + 1 ≤ entry.2.index ∧
      entry.2.index < id + 1 + (Forest.cons first item below beside).size :=
    fun entry hentry => range_of_mem_since (hwithin.since_eq ▸ hentry)
  have hself : (within.map (·.2)).contains ⟨id⟩ = false := by
    refine contains_eq_false fun entry hentry heq => ?_
    have := hrange entry hentry
    omega
  have hmembers : members id stem (.cons name state (.cons first item below beside) rest) claims =
      (members (id + 1 + (Forest.cons first item below beside).size) stem rest
        (members (id + 1) (stem ++ name) (.cons first item below beside) claims).claims).after name
          { state with side } (members (id + 1) (stem ++ name) (.cons first item below beside)
            claims).nodes (nestedAgrees side state.masterDirection) := by
    simp only [members, h]
  rw [← hsize] at hrange hmembers ⊢
  rw [undone_cons hmembers hwithin fun entry hentry => (hrange entry hentry).2, hself,
    undone_eq hwithin]
  rfl

theorem undone_of_settle_error
    (h : (members (id + 1) (stem ++ name) (.cons first item below beside) claims).agreed.bind
      (settle (stem ++ name)) = .error cause) :
    undone id stem (.cons name state (.cons first item below beside) rest) claims =
      .cons name state (undone (id + 1) (stem ++ name) (.cons first item below beside) claims)
        rest := by
  obtain ⟨within, hwithin⟩ :=
    members_grown (id + 1) (stem ++ name) (.cons first item below beside) claims
  simp only [undone, members, h, Attempt.undo, hwithin.rollback_eq, Claims.since_mark,
    List.map_nil, unbind_nil]

variable {before : Claims}

theorem leave_of_side
    (h : sideFound before name state (.cons first item below beside) = side) :
    { state with side } = leave before name state (.cons first item below beside) := by
  rw [leave, h]
  rfl

-- A leaf finds its port in any earlier table.
theorem leave_of_bindLeaf {id : NodeId} (hclaims : before.Narrowed claims)
    (h : bindLeaf id name state claims = .ok (bound, now)) :
    bound.side = sideFound before name state .nil ∧
      { bound with port := none } = leave before name state .nil := by
  obtain ⟨port, hfound, rfl⟩ := findUnclaimed_of_bindLeaf h
  simp only [bindLeaf, hfound, hclaims.direction] at h
  obtain ⟨rfl, -⟩ := Prod.mk.inj (Except.ok.inj h)
  have hbefore := hclaims.findUnclaimed_eq_of_singleton hfound
  have hside : sideFound before name state .nil =
      if (before.ports.get? port).map PortClaim.direction = some state.masterDirection then
        .master else .slave := by
    simp only [sideFound, hbefore, Claims.direction?]
    rfl
  refine ⟨hside.symm, ?_⟩
  rw [leave, hside]
  rfl

theorem abandoned_of_bindLeaf_error {id : NodeId}
    (h : bindLeaf id (stem ++ name) state claims = .error cause) (rest : Forest NodeState) :
    Abandoned before stem cause (.cons name state .nil rest) (.cons name state .nil rest) := by
  simp only [bindLeaf] at h
  split at h
  · obtain rfl := Except.error.inj h
    exact .missing ..
  · cases h
  · obtain rfl := Except.error.inj h
    exact .ambiguous ..

theorem cause_of_settle_error {agreed : List Bool} (h : settle name agreed = .error cause) :
    cause = .mixedSides name := by
  simp only [settle] at h
  split at h
  · cases h
  · split at h
    · cases h
    · exact (Except.error.inj h).symm

-- An attempt that succeeds and is taken back leaves the sides that it found. When
-- all members agree with one side, that is the side of the node around them.
theorem Matched.undone {id : Nat} {forest later : Forest NodeState} {last : Claims}
    {agreed : List Bool} (h : Matched id stem forest claims agreed later last)
    (hclaims : before.Narrowed claims) :
    undone id stem forest claims = leaveAll before stem forest ∧
      ∀ side : Side, (∀ agrees ∈ agreed, agrees = (side == .master)) → forest.isEmpty = false →
        ∀ around, sideFound before stem around forest = side := by
  induction h with
  | nil id stem claims => exact ⟨rfl, fun _ _ hempty => nomatch hempty⟩
  | @leaf id stem name state bound rest later claims last port agreed hfound hbound hrest ih =>
      obtain ⟨hside, hleave⟩ := leave_of_bindLeaf hclaims hbound
      obtain ⟨hundone, -⟩ := ih (hclaims.trans (.claim hfound _))
      refine ⟨?_, fun side hagreed _ around => ?_⟩
      · rw [undone_of_bindLeaf hbound, hundone, hleave]
        rfl
      · have hfirst := hagreed _ List.mem_cons_self
        rw [hside] at hfirst
        rw [sideFound_leaf]
        revert hfirst
        generalize sideFound before (stem ++ name) state .nil = found
        cases found <;> cases side <;> decide
  | @nested id stem name first state item root below beside inside outside rest later claims
      between last within agreed settled hinner hsettle hrest ihi ihr =>
      obtain ⟨hundone, hinnerSide⟩ := ihi hclaims
      obtain ⟨hlater, -⟩ := ihr (hclaims.trans hinner.narrowed)
      have hside := hinnerSide settled (eq_of_settle hsettle) rfl state
      refine ⟨?_, fun side hagreed _ around => ?_⟩
      · rw [undone_of_settle (by rw [hinner.members_eq]; exact hsettle), hundone,
          hinner.members_eq, hlater, leave_of_side hside]
        rfl
      · have hbelow := eq_below_of_nestedAgrees (hagreed _ List.mem_cons_self)
        rw [sideFound_nested, hside, hbelow, Side.below_below]

theorem abandoned_of_error {id : Nat} {forest : Forest NodeState}
    (hclaims : before.Narrowed claims) (h : (members id stem forest claims).agreed = .error cause) :
    Abandoned before stem cause forest (undone id stem forest claims) := by
  have hfailed {attempt : Attempt} {name : String} {state : NodeState} {inner : Forest NodeState}
      {agrees : Bool} (h : (attempt.after name state inner agrees).agreed = .error cause) :
      attempt.agreed = .error cause := by
    cases hagreed : attempt.agreed with
    | error other =>
        simp only [Attempt.after, hagreed] at h
        exact congrArg _ (Except.error.inj h)
    | ok agreed =>
        simp only [Attempt.after, hagreed] at h
        cases h
  induction forest generalizing id stem claims with
  | nil => cases h
  | cons name state inner rest ihi ihr =>
      cases inner with
      | nil =>
          simp only [members] at h
          split at h
          · rename_i other hbound
            obtain rfl := Except.error.inj h
            rw [undone_of_bindLeaf_error hbound]
            exact abandoned_of_bindLeaf_error hbound rest
          · rename_i bound now hbound
            obtain ⟨port, hfound, hnow⟩ := findUnclaimed_of_bindLeaf hbound
            have hnarrowed : before.Narrowed now := hnow ▸ hclaims.trans (.claim hfound _)
            rw [undone_of_bindLeaf hbound, (leave_of_bindLeaf hclaims hbound).2]
            exact .later name state .nil (ihr hnarrowed (hfailed h))
      | cons first item below beside =>
          simp only [members] at h
          split at h
          · rename_i other hsettled
            obtain rfl := Except.error.inj h
            rw [undone_of_settle_error hsettled]
            cases hwithin : (members (id + 1) (stem ++ name) (.cons first item below beside)
                claims).agreed with
            | error reason =>
                rw [hwithin] at hsettled
                obtain rfl := Except.error.inj hsettled
                exact .within state rest (ihi hclaims hwithin)
            | ok agreed =>
                rw [hwithin] at hsettled
                rw [cause_of_settle_error hsettled, ((matched_of_agreed hwithin).undone hclaims).1]
                exact .mixed stem name state rest (by simp)
          · rename_i settled hsettled
            obtain ⟨within, hwithin, hsettle⟩ := bind_eq_ok.mp hsettled
            obtain ⟨hinner, hside⟩ := (matched_of_agreed hwithin).undone hclaims
            have hleave := leave_of_side (hside settled (eq_of_settle hsettle) rfl state)
            rw [undone_of_settle hsettled, hinner, hleave]
            exact .later name state _ (ihr (hclaims.trans (members_narrowed ..)) (hfailed h))

end

end Match

end Rtl
