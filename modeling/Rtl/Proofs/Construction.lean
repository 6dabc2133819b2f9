import Mathlib
import Rtl.Architecture

namespace Rtl

namespace Arena

variable {kind : Kind} {α : Type} {arena : Arena kind α} {key : α → Id kind}

-- Everything says where it stands.
def Numbered (key : α → Id kind) (arena : Arena kind α) : Prop :=
  ∀ id item, arena.get? id = some item → key item = id

theorem numbered_empty : (Arena.empty : Arena kind α).Numbered key := by
  intro id item h
  simp [empty, get?] at h

theorem Numbered.push (h : arena.Numbered key) {item : α} (hitem : key item = arena.nextId) :
    (⟨arena.items.push item⟩ : Arena kind α).Numbered key := by
  intro id found hfound
  simp only [get?, Array.getElem?_push] at hfound
  split at hfound
  · rename_i hlast
    obtain rfl := Option.some.inj hfound
    exact hitem.trans (Id.index_injective hlast.symm)
  · exact h id found hfound

theorem Numbered.modify (h : arena.Numbered key) (id : Id kind) {change : α → α}
    (hchange : ∀ item, key (change item) = key item) : (arena.modify id change).Numbered key := by
  intro other found hfound
  simp only [Arena.modify, get?, Array.getElem?_modify] at hfound
  split at hfound
  · obtain ⟨item, hitem, rfl⟩ := Option.map_eq_some_iff.mp hfound
    rw [hchange]
    exact h other item hitem
  · exact h other found hfound

theorem Numbered.get?_of_mem (h : arena.Numbered key) {item : α} (hmem : item ∈ arena.toList) :
    arena.get? (key item) = some item := by
  obtain ⟨index, hindex⟩ := List.mem_iff_getElem?.mp hmem
  have hitem : arena.get? ⟨index⟩ = some item := by
    rwa [toList, Array.getElem?_toList] at hindex
  rw [h _ _ hitem, hitem]

theorem Numbered.nodup (h : arena.Numbered key) : (arena.toList.map key).Nodup := by
  -- The keys are the numbers in order.
  have hkeys : arena.toList.map key = (List.range arena.size).map Id.mk := by
    apply List.ext_getElem?
    intro index
    rw [List.getElem?_map, List.getElem?_map, toList, Array.getElem?_toList]
    by_cases hlt : index < arena.size
    · rw [List.getElem?_range hlt]
      obtain ⟨item, hitem⟩ : ∃ item, arena.items[index]? = some item :=
        ⟨_, Array.getElem?_eq_getElem hlt⟩
      rw [hitem, Option.map_some, Option.map_some, h ⟨index⟩ item hitem]
    · rw [Array.getElem?_eq_none (not_lt.mp hlt), List.getElem?_eq_none (by simpa using hlt)]
      rfl
  rw [hkeys]
  exact List.nodup_range.map fun a b heq => congrArg Id.index heq

end Arena

-- An entity whose ports were added one by one.
inductive Entity.Built : Entity → Prop
  | new (name : NameId) : Built (.ofName name)
  | addPort {entity : Entity} (h : Built entity) (name : NameId) (direction : Direction)
      (type : TypeId) : Built (entity.addPort name direction type).2

theorem Entity.Built.numbered {entity : Entity} (h : entity.Built) :
    entity.ports.Numbered Port.id := by
  induction h with
  | new name => exact Arena.numbered_empty
  | addPort h name direction type ih => exact ih.push rfl

namespace Architecture

-- What an architecture can become by its operations, in any order.
inductive Built : Architecture → Prop
  | new (name : NameId) {entity : Entity} (h : entity.Built) : Built (.ofEntity name entity)
  | freshStatement {arch : Architecture} (h : Built arch) : Built arch.freshStatement.2
  | addSignal {arch : Architecture} (h : Built arch) (name : NameId) (type : TypeId)
      (default : Option Value) : Built (arch.addSignal name type default).2
  | addHidden {arch next : Architecture} {id : SignalId} (h : Built arch) {name : NameId}
      {type : TypeId} {origin : Expr} (hnext : arch.addHidden? name type origin = some (id, next)) :
      Built next
  | setHidden {arch next : Architecture} (h : Built arch) {id : SignalId} {hidden : Bool}
      (hnext : arch.setHidden? id hidden = some next) : Built next
  | setLeaf {arch : Architecture} (h : Built arch) (id : SignalId) (leaf : NodeId) :
      Built (arch.setLeaf id leaf)
  | addProcess {arch next : Architecture} {id : ProcessId} (h : Built arch) {name : NameId}
      {sensitivity : List SignalId} {body : List Statement}
      (hnext : arch.addProcess? name sensitivity body = some (id, next)) : Built next
  | connect {arch next : Architecture} (h : Built arch) {destination source : SignalId}
      (hnext : arch.connect? destination source = some next) : Built next
  | bindPort {arch next : Architecture} (h : Built arch) {signal : SignalId} {port : PortId}
      (hnext : arch.bindPort? signal port = some next) : Built next
  | addComponent {arch next : Architecture} (h : Built arch) {component : Component}
      (hnext : arch.addComponent? component = some next) : Built next

-- Ports, signals and processes say where they stand.
structure Numbered (arch : Architecture) : Prop where
  ports : arch.entity.ports.Numbered Port.id
  signals : arch.signals.Numbered Signal.id
  processes : arch.processes.Numbered Process.id

variable {arch : Architecture}

namespace Numbered

theorem modify (h : arch.Numbered) (id : SignalId) {change : Signal → Signal}
    (hchange : ∀ signal, (change signal).id = signal.id) :
    Numbered { arch with signals := arch.signals.modify id change } :=
  { h with signals := h.signals.modify id hchange }

theorem addDriver (h : arch.Numbered) (id : SignalId) (driver : Driver) :
    (arch.addDriver id driver).Numbered := h.modify id fun _ => rfl

theorem addReader (h : arch.Numbered) (id : SignalId) (reader : Reader) :
    (arch.addReader id reader).Numbered := h.modify id fun _ => rfl

-- Driving and reading along a list.
theorem foldl {α : Type} {change : Architecture → α → Architecture} (h : arch.Numbered)
    (hchange : ∀ {arch : Architecture}, arch.Numbered → ∀ item, (change arch item).Numbered)
    (items : List α) : (items.foldl change arch).Numbered := by
  induction items generalizing arch with
  | nil => exact h
  | cons item rest ih => exact ih (hchange h item)

end Numbered

theorem Built.numbered (h : arch.Built) : arch.Numbered := by
  induction h with
  | new name h => exact ⟨h.numbered, Arena.numbered_empty, Arena.numbered_empty⟩
  | freshStatement h ih => exact ⟨ih.ports, ih.signals, ih.processes⟩
  | addSignal h name type default ih => exact ⟨ih.ports, ih.signals.push rfl, ih.processes⟩
  | addHidden h hnext ih =>
      simp only [addHidden?, Option.ite_none_right_eq_some] at hnext
      obtain ⟨-, rfl⟩ := Prod.mk.inj (Option.some.inj hnext.2)
      refine Numbered.foldl ?_ (fun h id => h.addReader id _) _
      exact ⟨ih.ports, ih.signals.push rfl, ih.processes⟩
  | setHidden h hnext ih =>
      simp only [setHidden?, Option.ite_none_right_eq_some] at hnext
      obtain rfl := Option.some.inj hnext.2
      exact ih.modify _ fun _ => rfl
  | setLeaf h id leaf ih => exact ih.modify _ fun _ => rfl
  | addProcess h hnext ih =>
      simp only [addProcess?, Option.ite_none_right_eq_some] at hnext
      obtain ⟨-, rfl⟩ := Prod.mk.inj (Option.some.inj hnext.2)
      refine Numbered.foldl (Numbered.foldl ?_ (fun h item => h.addDriver _ _) _)
        (fun h id => h.addReader id _) _
      exact ⟨ih.ports, ih.signals, ih.processes.push rfl⟩
  | @connect arch next h destination source hnext ih =>
      simp only [connect?, Option.ite_none_right_eq_some] at hnext
      obtain rfl := Option.some.inj hnext.2
      have hjoined : Numbered
          { arch with connections := arch.connections ++ [⟨destination, source⟩] } :=
        ⟨ih.ports, ih.signals, ih.processes⟩
      exact (hjoined.addDriver _ _).addReader _ _
  | @bindPort arch next h signal port hnext ih =>
      simp only [bindPort?, Option.ite_none_right_eq_some] at hnext
      obtain rfl := Option.some.inj hnext.2
      have hbound : Numbered { arch with portBindings := arch.portBindings ++ [(port, signal)] } :=
        ⟨ih.ports, ih.signals, ih.processes⟩
      rw [Architecture.bindPort]
      split
      · exact hbound.addDriver _ _
      · exact hbound.addReader _ _
      · exact (hbound.addDriver _ _).addReader _ _
      · exact hbound
  | @addComponent arch next h component hnext ih =>
      simp only [addComponent?, Option.ite_none_right_eq_some] at hnext
      obtain rfl := Option.some.inj hnext.2
      let use (at' : Architecture) (entry : NameId × SignalId) : Architecture :=
        (at'.addDriver entry.2 (.component arch.components.length)).addReader entry.2
          (.component arch.components.length)
      have hused : (component.portMap.foldl use arch).Numbered :=
        ih.foldl (fun h item => (h.addDriver _ _).addReader _ _) _
      exact ⟨hused.ports, hused.signals, hused.processes⟩

end Architecture

end Rtl
