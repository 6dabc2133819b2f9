import Mathlib
import Rtl.Design
import Rtl.Scope

namespace Rtl

-- Other numbers for what an architecture numbers in the order of construction.
structure Renumbering where
  signal : Equiv.Perm SignalId
  process : Equiv.Perm ProcessId
  statement : StatementId → StatementId
  component : Nat → Nat

namespace Expr

mutual

def renumber (signal : SignalId → SignalId) : Expr → Expr
  | .signal id => .signal (signal id)
  | .literal value => .literal value
  | .apply op operands type => .apply op (renumberAll signal operands) type

def renumberAll (signal : SignalId → SignalId) : List Expr → List Expr
  | [] => []
  | e :: rest => e.renumber signal :: renumberAll signal rest

end

end Expr

namespace Statement

mutual

def renumber (ρ : Renumbering) : Statement → Statement
  | .assign id destination source indexes onEvent =>
      .assign (ρ.statement id) (ρ.signal destination) (source.renumber ρ.signal)
        (indexes.map (Expr.renumberAll ρ.signal)) onEvent
  | .branch id condition body elifs otherwise =>
      .branch (ρ.statement id) (Expr.renumberAll ρ.signal condition) (renumberAll ρ body)
        (renumberElifs ρ elifs) (renumberAll ρ otherwise)
  | .select id subject cases =>
      .select (ρ.statement id) (subject.renumber ρ.signal) (renumberCases ρ cases)
  | .wait id timed duration => .wait (ρ.statement id) timed duration

def renumberAll (ρ : Renumbering) : List Statement → List Statement
  | [] => []
  | s :: rest => s.renumber ρ :: renumberAll ρ rest

def renumberElifs (ρ : Renumbering) :
    List (List Expr × List Statement) → List (List Expr × List Statement)
  | [] => []
  | (condition, body) :: rest =>
      (Expr.renumberAll ρ.signal condition, renumberAll ρ body) :: renumberElifs ρ rest

def renumberCases (ρ : Renumbering) :
    List (Option Expr × List Statement) → List (Option Expr × List Statement)
  | [] => []
  | (key, body) :: rest =>
      (key.map (Expr.renumber ρ.signal), renumberAll ρ body) :: renumberCases ρ rest

end

end Statement

def Driver.renumber (ρ : Renumbering) : Driver → Driver
  | .port id => .port id
  | .connection source => .connection (ρ.signal source)
  | .statement id => .statement (ρ.statement id)
  | .component position => .component (ρ.component position)

def Reader.renumber (ρ : Renumbering) : Reader → Reader
  | .port id => .port id
  | .connection destination => .connection (ρ.signal destination)
  | .process id => .process (ρ.process id)
  | .component position => .component (ρ.component position)

def Connection.renumber (ρ : Renumbering) (link : Connection) : Connection :=
  ⟨ρ.signal link.destination, ρ.signal link.source⟩

def Component.renumber (ρ : Renumbering) (component : Component) : Component :=
  { component with portMap := component.portMap.map fun (port, id) => (port, ρ.signal id) }

-- The same signal under another number, driven and read by the same things.
structure SameSignal (ρ : Renumbering) (a b : Signal) : Prop where
  id : b.id = ρ.signal a.id
  name : b.name = a.name
  type : b.type = a.type
  default : b.default = a.default
  drivers : b.drivers.Perm (a.drivers.map (Driver.renumber ρ))
  readers : b.readers.Perm (a.readers.map (Reader.renumber ρ))
  hidden : b.hidden = a.hidden
  origin : b.origin = a.origin.map (Expr.renumber ρ.signal)
  leaf : b.leaf = a.leaf

-- The same process under another number, its sensitivity list in any order.
structure SameProcess (ρ : Renumbering) (a b : Process) : Prop where
  id : b.id = ρ.process a.id
  name : b.name = a.name
  sensitivity : b.sensitivity.Perm (a.sensitivity.map ρ.signal)
  body : b.body = Statement.renumberAll ρ a.body

-- The same architecture constructed in another order.
structure Reordered (ρ : Renumbering) (a b : Architecture) : Prop where
  name : b.name = a.name
  entity : b.entity = a.entity
  signals : ∀ id, Option.Rel (SameSignal ρ) (a.signals.get? id) (b.signals.get? (ρ.signal id))
  processes : ∀ id,
    Option.Rel (SameProcess ρ) (a.processes.get? id) (b.processes.get? (ρ.process id))
  connections : b.connections.Perm (a.connections.map (Connection.renumber ρ))
  portBindings : b.portBindings.Perm (a.portBindings.map fun (port, id) => (port, ρ.signal id))
  components : b.components.Perm (a.components.map (Component.renumber ρ))
  nextStatement : b.nextStatement = a.nextStatement

-- No two shown signals, no two processes and no two components have one name.
structure DistinctNames (names : NameTable) (arch : Architecture) : Prop where
  signals : ((arch.signals.toList.filter fun signal => !signal.hidden).filterMap
    fun signal => names.text? signal.name).Nodup
  processes : (arch.processes.toList.filterMap fun process => names.text? process.name).Nodup
  components : (arch.components.filterMap fun component => names.text? component.name).Nodup

namespace Arena

variable {kind : Kind} {α : Type} {R : α → α → Prop} {a b : Arena kind α}
  {number : Equiv.Perm (Id kind)}

def ids (arena : Arena kind α) : List (Id kind) := (List.range arena.items.size).map Id.mk

theorem mem_ids {arena : Arena kind α} {id : Id kind} :
    id ∈ arena.ids ↔ (arena.get? id).isSome := by
  rw [ids, List.mem_map, Option.isSome_iff_exists]
  constructor
  · rintro ⟨index, hmem, rfl⟩
    exact ⟨_, Array.getElem?_eq_getElem (List.mem_range.mp hmem)⟩
  · rintro ⟨item, hitem⟩
    obtain ⟨hlt, -⟩ := Array.getElem?_eq_some_iff.mp hitem
    exact ⟨id.index, List.mem_range.mpr hlt, rfl⟩

theorem nodup_ids (arena : Arena kind α) : arena.ids.Nodup :=
  List.nodup_range.map fun _ _ h => congrArg Id.index h

theorem toList_eq (arena : Arena kind α) : arena.toList = arena.ids.filterMap arena.get? := by
  have h : arena.toList.map some = arena.ids.map arena.get? := by
    apply List.ext_getElem
    · simp [ids, toList]
    · intro index hleft hright
      simp only [ids, List.length_map, List.length_range] at hright
      simp [ids, toList, get?, hright]
  have hsome := congrArg (List.filterMap id) h
  simpa [List.filterMap_map] using hsome

theorem isSome_eq_of_rel {x y : Option α} (h : Option.Rel R x y) : x.isSome = y.isSome := by
  cases h with
  | none => rfl
  | some hab => rfl

theorem filterMap_related {β : Type} {f g : β → Option α} (h : ∀ x, Option.Rel R (f x) (g x))
    (xs : List β) : List.Forall₂ R (xs.filterMap f) (xs.filterMap g) := by
  induction xs with
  | nil => exact .nil
  | cons x rest ih =>
      have hx := h x
      cases hf : f x with
      | none =>
          cases hg : g x with
          | none => simpa only [List.filterMap_cons, hf, hg] using ih
          | some b =>
              rw [hf, hg] at hx
              cases hx
      | some a =>
          cases hg : g x with
          | none =>
              rw [hf, hg] at hx
              cases hx
          | some b =>
              rw [hf, hg] at hx
              cases hx with
              | some hab => simpa only [List.filterMap_cons, hf, hg] using List.Forall₂.cons hab ih

-- Tables that are the same under other numbers have the same items, in another
-- order.
theorem exists_perm_toList (h : ∀ id, Option.Rel R (a.get? id) (b.get? (number id))) :
    ∃ items, List.Forall₂ R a.toList items ∧ items.Perm b.toList := by
  have hsome (id : Id kind) : (a.get? id).isSome = (b.get? (number id)).isSome :=
    isSome_eq_of_rel (h id)
  have hids : (a.ids.map number).Perm b.ids := by
    refine (List.perm_ext_iff_of_nodup (a.nodup_ids.map number.injective) b.nodup_ids).mpr ?_
    intro id
    rw [List.mem_map, mem_ids]
    constructor
    · rintro ⟨old, hold, rfl⟩
      rw [← hsome, ← mem_ids]
      exact hold
    · intro hid
      refine ⟨number.symm id, ?_, number.apply_symm_apply id⟩
      rw [mem_ids, hsome, number.apply_symm_apply]
      exact hid
  refine ⟨(a.ids.map number).filterMap b.get?, ?_, ?_⟩
  · rw [a.toList_eq, List.filterMap_map]
    exact filterMap_related h a.ids
  · rw [b.toList_eq]
    exact hids.filterMap _

theorem size_eq (h : ∀ id, Option.Rel R (a.get? id) (b.get? (number id))) :
    b.size = a.size := by
  obtain ⟨items, hsame, hperm⟩ := exists_perm_toList h
  have hlength := hperm.length_eq.symm.trans hsame.length_eq.symm
  rwa [toList, toList, Array.length_toList, Array.length_toList] at hlength

end Arena

end Rtl
