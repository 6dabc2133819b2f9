import Rtl.Interface.Backing
import Rtl.Proofs.Interface.Forests
import Rtl.Proofs.Interface.Narrowing

namespace Rtl

namespace Side

-- The side that a nested member has in an interface of the given side.
def below (side : Side) (direction : Direction) : Side :=
  if direction = .output then side else side.opposite

theorem opposite_below (side : Side) (direction : Direction) :
    (side.below direction).opposite = side.opposite.below direction := by
  simp only [below]
  split <;> rfl

end Side

namespace NodeState

-- What stays as it was made: no match, reversal or backing signal changes it.
def fixed (state : NodeState) : Direction × Bool := (state.masterDirection, state.external)

-- A node as it was before any match.
def unresolved (state : NodeState) : NodeState := { state with side := .slave, port := none }

-- A leaf is on the agreeing side exactly if its port has its master direction.
def Bound (direction : PortId → Option Direction) (agreeing : Side) (state : NodeState) : Prop :=
  ∃ port found, state.port = some port ∧ direction port = some found ∧
    (state.side = agreeing ↔ found = state.masterDirection)

end NodeState

namespace Forest

-- All of one side: leaves are on the side of the interface around them, nested
-- members on the one that their master direction says.
inductive Sided (leaf : NodeState → Prop) : Side → Forest NodeState → Prop
  | nil (side : Side) : Sided leaf side nil
  | leaf (name : String) {state : NodeState} {side : Side} {rest : Forest NodeState}
      (hside : state.side = side) (hleaf : leaf state) (hrest : Sided leaf side rest) :
      Sided leaf side (cons name state nil rest)
  | nested (name : String) {state : NodeState} {side : Side} {rest : Forest NodeState}
      {first : String} {item : NodeState} {below beside : Forest NodeState}
      (hside : state.side = side.below state.masterDirection)
      (hinner : Sided leaf state.side (cons first item below beside))
      (hrest : Sided leaf side rest) :
      Sided leaf side (cons name state (cons first item below beside) rest)

theorem Sided.reverse {leaf reversed : NodeState → Prop} {side : Side} {forest : Forest NodeState}
    (h : forest.Sided leaf side)
    (hleaf : ∀ state, leaf state → reversed (Synthesizer.reverseState state)) :
    (forest.map Synthesizer.reverseState).Sided reversed side.opposite := by
  induction h with
  | nil side => exact .nil _
  | leaf name hside hl hrest ih => exact .leaf name (congrArg Side.opposite hside) (hleaf _ hl) ih
  | nested name hside hinner hrest ihi ihr =>
      refine .nested name ?_ ihi ihr
      simp only [Synthesizer.reverseState, hside, Side.opposite_below]

theorem Sided.imp_of_all {leaf other p : NodeState → Prop} {side : Side} {forest : Forest NodeState}
    (h : forest.Sided leaf side) (hall : forest.All p)
    (himp : ∀ state, leaf state → p state → other state) : forest.Sided other side := by
  induction h with
  | nil side => exact .nil side
  | leaf name hside hl hrest ih =>
      exact .leaf name hside (himp _ hl hall.1) (ih hall.2.2)
  | nested name hside hinner hrest ihi ihr => exact .nested name hside (ihi hall.2.1) (ihr hall.2.2)

theorem Sided.imp {leaf other : NodeState → Prop} {side : Side} {forest : Forest NodeState}
    (h : forest.Sided leaf side) (himp : ∀ state, leaf state → other state) :
    forest.Sided other side :=
  h.imp_of_all (all_of_forall (p := fun _ => True) (fun _ => trivial) forest)
    fun state hleaf _ => himp state hleaf

theorem Sided.rename {leaf : NodeState → Prop} {side : Side} {name : String} {state : NodeState}
    {inner rest : Forest NodeState} (h : (cons name state inner rest).Sided leaf side)
    (other : String) : (cons other state inner rest).Sided leaf side := by
  cases h with
  | leaf _ hside hleaf hrest => exact .leaf other hside hleaf hrest
  | nested _ hside hinner hrest => exact .nested other hside hinner hrest

-- The root of a template has master direction out, so its side is that of all.
theorem Sided.side_eq {leaf : NodeState → Prop} {side : Side} {name : String} {state : NodeState}
    {inner rest : Forest NodeState} (h : (cons name state inner rest).Sided leaf side)
    (hdirection : state.masterDirection = .output) : state.side = side := by
  cases h with
  | leaf _ hside => exact hside
  | nested _ hside => rw [hside, hdirection, Side.below, if_pos rfl]

end Forest

namespace Claims

def direction? (claims : Claims) (port : PortId) : Option Direction :=
  (claims.ports.get? port).map PortClaim.direction

theorem Narrowed.direction?_eq {before now : Claims} (h : before.Narrowed now) :
    now.direction? = before.direction? := funext h.direction

end Claims

namespace Match

open Forest

variable {id : NodeId} {name stem : String} {leaf bound : NodeState} {claims now : Claims}

-- A leaf that is bound keeps all but its side and its port.
theorem bound_of_bindLeaf (h : bindLeaf id name leaf claims = .ok (bound, now)) :
    bound.Bound claims.direction? .master ∧ bound.unresolved = leaf.unresolved := by
  simp only [bindLeaf] at h
  split at h
  · cases h
  · rename_i port hfound
    obtain ⟨entry, hentry, -⟩ :=
      Claims.mem_findUnclaimed_iff.mp (hfound ▸ List.mem_singleton_self port)
    obtain ⟨rfl, -⟩ := Prod.mk.inj (Except.ok.inj h)
    refine ⟨⟨port, entry.direction, rfl, ?_, ?_⟩, rfl⟩
    · simp only [Claims.direction?, hentry, Option.map_some]
    · simp only [hentry, Option.map_some, Option.some.injEq, ite_eq_left_iff, reduceCtorEq,
        imp_false, not_not]
  · cases h

-- The side of an interface from its members, read the other way round: members
-- that agree as one say which side it is.
theorem eq_of_settle {side : Side} {agreed : List Bool} (h : settle name agreed = .ok side) :
    ∀ agrees ∈ agreed, agrees = (side == .master) := by
  simp only [settle] at h
  split at h
  · rename_i hall
    obtain rfl := Except.ok.inj h
    simpa using hall
  · split at h
    · rename_i hnone
      obtain rfl := Except.ok.inj h
      simpa using hnone
    · cases h

theorem eq_below_of_nestedAgrees {side around : Side} {direction : Direction}
    (h : nestedAgrees side direction = (around == .master)) : side = around.below direction := by
  cases side <;> cases around <;> cases direction <;> first | rfl | cases h

-- What members agree on is the side of them all.
theorem Matched.sided {id : Nat} {stem : String} {forest later : Forest NodeState}
    {claims last : Claims} {agreed : List Bool} {side : Side}
    (h : Matched id stem forest claims agreed later last)
    (hside : ∀ agrees ∈ agreed, agrees = (side == .master)) :
    later.Sided (·.Bound claims.direction? .master) side ∧
      later.map NodeState.unresolved = forest.map NodeState.unresolved := by
  induction h generalizing side with
  | nil id stem claims => exact ⟨.nil side, rfl⟩
  | @leaf id stem name state bound rest later claims last port agreed hfound hbound hrest ih =>
      obtain ⟨hagrees, hothers⟩ := List.forall_mem_cons.mp hside
      obtain ⟨hleaf, hkept⟩ := bound_of_bindLeaf hbound
      obtain ⟨hsided, hframe⟩ := ih hothers
      have hfirst : bound.side = side := by
        revert hagrees
        cases bound.side <;> cases side <;> decide
      -- Later members are bound in a table that has more claims but the same ports.
      rw [(Claims.Narrowed.claim hfound ⟨id⟩).direction?_eq] at hsided
      simp only [map, hkept, hframe]
      exact ⟨.leaf name hfirst hleaf hsided, trivial⟩
  | @nested id stem name first state item root below beside inside outside rest later claims
      between last within agreed settled hinner hsettle hrest ihi ihr =>
      obtain ⟨hagrees, hothers⟩ := List.forall_mem_cons.mp hside
      obtain ⟨hbelow, hframei⟩ := ihi (eq_of_settle hsettle)
      obtain ⟨hsided, hframer⟩ := ihr hothers
      rw [hinner.narrowed.direction?_eq] at hsided
      refine ⟨.nested name (eq_below_of_nestedAgrees hagrees) hbelow hsided, ?_⟩
      rw [map, hframei, hframer]
      rfl

end Match

namespace Architecture

-- What an architecture keeps when signals are added and put on ports.
structure Grows (before now : Architecture) : Prop where
  entity : now.entity = before.entity
  signals : before.signals.size ≤ now.signals.size
  portBindings : ∀ binding ∈ before.portBindings, binding ∈ now.portBindings

variable {before now last : Architecture}

namespace Grows

theorem refl (arch : Architecture) : arch.Grows arch := ⟨rfl, Nat.le_refl _, fun _ h => h⟩

theorem trans (h : before.Grows now) (hnext : now.Grows last) : before.Grows last :=
  ⟨hnext.entity.trans h.entity, h.signals.trans hnext.signals,
    fun binding hmem => hnext.portBindings binding (h.portBindings binding hmem)⟩

theorem portDirection?_eq (h : before.Grows now) : now.portDirection? = before.portDirection? := by
  funext port
  rw [portDirection?, portDirection?, h.entity]

theorem hasSignal (h : before.Grows now) {id : SignalId} (hid : before.hasSignal id) :
    now.hasSignal id := by
  have hlt : id.index < before.signals.size := of_decide_eq_true hid
  exact decide_eq_true (hlt.trans_le h.signals)

end Grows

theorem grows_addSignal (arch : Architecture) (name : NameId) (type : TypeId)
    (default : Option Value) :
    arch.Grows (arch.addSignal name type default).2 ∧
      (arch.addSignal name type default).2.hasSignal (arch.addSignal name type default).1 := by
  have hsize := arch.signals.size_allocWith fun id =>
    { id, name, type, default, drivers := [], readers := [], hidden := false, origin := none
      leaf := none : Signal }
  refine ⟨⟨rfl, ?_, fun _ hmem => hmem⟩, decide_eq_true ?_⟩
  · exact (Nat.le_succ _).trans hsize.ge
  · exact (Nat.lt_succ_self _).trans_eq hsize.symm

theorem grows_modify (arch : Architecture) (id : SignalId) (change : Signal → Signal) :
    arch.Grows { arch with signals := arch.signals.modify id change } :=
  ⟨rfl, (arch.signals.size_modify id change).ge, fun _ hmem => hmem⟩

theorem grows_bindPort (arch : Architecture) (signal : SignalId) (port : PortId) :
    arch.Grows (arch.bindPort signal port) ∧
      (port, signal) ∈ (arch.bindPort signal port).portBindings := by
  have hbound : arch.Grows { arch with portBindings := arch.portBindings ++ [(port, signal)] } :=
    ⟨rfl, Nat.le_refl _, fun _ hmem => List.mem_append_left _ hmem⟩
  have hmem : (port, signal) ∈ arch.portBindings ++ [(port, signal)] :=
    List.mem_append_right _ (List.mem_singleton_self _)
  simp only [bindPort]
  cases arch.portDirection? port with
  | none => exact ⟨hbound, hmem⟩
  | some direction =>
      cases direction with
      | input | output => exact ⟨hbound.trans (grows_modify ..), hmem⟩
      | inout => exact ⟨(hbound.trans (grows_modify ..)).trans (grows_modify ..), hmem⟩

end Architecture

namespace NodeState

-- A bound leaf whose backing signal, if it has one, is on its port. Once the
-- signals are made it has one.
def Backed (arch : Architecture) (agreeing : Side) (made : Bool) (state : NodeState) : Prop :=
  ∃ port found, state.port = some port ∧ arch.portDirection? port = some found ∧
    (state.side = agreeing ↔ found = state.masterDirection) ∧
    (∀ signal, state.signal = some signal →
      arch.hasSignal signal ∧ (port, signal) ∈ arch.portBindings) ∧
    (made → state.signal.isSome)

variable {arch before now : Architecture} {state : NodeState} {agreeing : Side} {made : Bool}

theorem Bound.backed {direction : PortId → Option Direction} (h : state.Bound direction agreeing)
    (hdirection : direction = arch.portDirection?) (hnone : state.signal = none) :
    state.Backed arch agreeing false := by
  obtain ⟨port, found, hport, hfound, hagrees⟩ := h
  subst hdirection
  refine ⟨port, found, hport, hfound, hagrees, fun signal hsome => ?_, nofun⟩
  rw [hnone] at hsome
  cases hsome

theorem Backed.grows (hgrows : before.Grows now) (h : state.Backed before agreeing made) :
    state.Backed now agreeing made := by
  obtain ⟨port, found, hport, hfound, hagrees, hsignal, hmade⟩ := h
  refine ⟨port, found, hport, hgrows.portDirection?_eq ▸ hfound, hagrees, fun signal h => ?_, hmade⟩
  obtain ⟨hhas, hmem⟩ := hsignal signal h
  exact ⟨hgrows.hasSignal hhas, hgrows.portBindings _ hmem⟩

theorem Backed.reverse (h : state.Backed arch agreeing made) :
    (Synthesizer.reverseState state).Backed arch agreeing.opposite made := by
  obtain ⟨port, found, hport, hfound, hagrees, hsignal, hmade⟩ := h
  refine ⟨port, found, hport, hfound, ?_, hsignal, hmade⟩
  simp only [Synthesizer.reverseState, ← hagrees]
  cases state.side <;> cases agreeing <;> simp [Side.opposite]

end NodeState

namespace Backing

open Forest

variable {agreeing : Side} {made : Bool}

theorem grows_leaf (id : NodeId) (name : String) (state : NodeState) (design : Design) :
    design.arch.Grows (leaf id name state design).2.2.arch := by
  have hadded := (design.arch.grows_addSignal (design.names.intern name).1
    (design.types.ofWidth state.width).1 none).1
  have htagged := hadded.trans (Architecture.grows_modify _ (design.addWire name state.width).1
    fun signal => { signal with leaf := some id })
  simp only [leaf]
  split
  · exact .refl _
  · cases state.port with
    | none => exact htagged
    | some port => exact htagged.trans (Architecture.grows_bindPort ..).1

theorem grows_members (separator : String) (id : Nat) (stem : String) (forest : Forest NodeState)
    (design : Design) :
    design.arch.Grows (members separator id stem forest design).2.2.arch := by
  induction forest generalizing id stem design with
  | nil => exact .refl _
  | cons name state inner rest ihi ihr =>
      cases inner with
      | nil => exact (grows_leaf ..).trans (ihr ..)
      | cons first item below beside => exact (ihi ..).trans (ihr ..)

-- A leaf without a signal gets one, on its port.
theorem backed_leaf (id : NodeId) (name : String) {state : NodeState} {design : Design}
    (h : state.Backed design.arch agreeing made) :
    (leaf id name state design).2.1.Backed (leaf id name state design).2.2.arch agreeing true ∧
      (leaf id name state design).2.1.side = state.side ∧
      (leaf id name state design).2.1.fixed = state.fixed := by
  obtain ⟨port, found, hport, hfound, hagrees, hsignal, -⟩ := h
  cases hnone : state.signal with
  | some signal =>
      simp only [leaf, hnone]
      exact ⟨⟨port, found, hport, hfound, hagrees, hsignal, fun _ => hnone ▸ rfl⟩, trivial, trivial⟩
  | none =>
      have hgrows := grows_leaf id name state design
      have hadded := (design.arch.grows_addSignal (design.names.intern name).1
        (design.types.ofWidth state.width).1 none).2
      obtain ⟨hbind, hmem⟩ := ((design.addWire name state.width).2.arch.setLeaf
        (design.addWire name state.width).1 id).grows_bindPort (design.addWire name state.width).1
          port
      simp only [leaf, hnone, hport] at hgrows ⊢
      refine ⟨⟨port, found, rfl, ?_, hagrees, ?_, fun _ => rfl⟩, trivial, rfl⟩
      · rw [hgrows.portDirection?_eq, hfound]
      · intro signal hsome
        obtain rfl := Option.some.inj hsome
        exact ⟨hbind.hasSignal ((Architecture.grows_modify ..).hasSignal hadded), hmem⟩

theorem backed_members (separator : String) (id : Nat) (stem : String)
    {forest : Forest NodeState} {design : Design} {arch : Architecture} {side : Side}
    (h : forest.Sided (·.Backed arch agreeing made) side) (hgrows : arch.Grows design.arch) :
    (members separator id stem forest design).2.1.Sided
        (·.Backed (members separator id stem forest design).2.2.arch agreeing true) side ∧
      (members separator id stem forest design).2.1.map NodeState.fixed =
        forest.map NodeState.fixed := by
  induction h generalizing id stem design with
  | nil side => exact ⟨.nil side, rfl⟩
  | @leaf name state side rest hside hleaf hrest ih =>
      have hnow := grows_leaf ⟨id⟩ (stem ++ separator ++ name) state design
      have hlast := grows_members separator (id + 1) stem rest
        (leaf ⟨id⟩ (stem ++ separator ++ name) state design).2.2
      obtain ⟨hbacked, hkept, hfixed⟩ :=
        backed_leaf ⟨id⟩ (stem ++ separator ++ name) (hleaf.grows hgrows)
      obtain ⟨hlater, hframe⟩ := ih (id + 1) stem (hgrows.trans hnow)
      simp only [members, map, hfixed, hframe]
      exact ⟨.leaf name (hkept.trans hside) (hbacked.grows hlast) hlater, trivial⟩
  | @nested name state side rest first item below beside hside hinner hrest ihi ihr =>
      have hnow := grows_members separator (id + 1) (stem ++ separator ++ name)
        (.cons first item below beside) design
      have hlast := grows_members separator (id + 1 + (Forest.cons first item below beside).size)
        stem rest (members separator (id + 1) (stem ++ separator ++ name)
          (.cons first item below beside) design).2.2
      obtain ⟨hbacked, hframei⟩ :=
        ihi (id + 1) (stem ++ separator ++ name) hgrows
      obtain ⟨hlater, hframer⟩ :=
        ihr (id + 1 + (Forest.cons first item below beside).size) stem (hgrows.trans hnow)
      simp only [members, map, hframer]
      generalize (members separator (id + 1) (stem ++ separator ++ name)
        (.cons first item below beside) design).2.1 = nodes at hbacked hframei ⊢
      cases nodes with
      | nil => cases hframei
      | cons =>
          refine ⟨.nested name hside ?_ hlater, by rw [hframei]; rfl⟩
          exact hbacked.imp fun _ hstate => hstate.grows hlast

end Backing

end Rtl
