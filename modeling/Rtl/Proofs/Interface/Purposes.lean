import Rtl.Proofs.Interface.LeafNames
import Rtl.Proofs.Interface.Standing
import Rtl.Proofs.Pipeline.Plain

namespace Rtl

-- What a signal was made for: a type and, if it backs one, a leaf.
def Signal.purpose (signal : Signal) : TypeId × Option NodeId := (signal.type, signal.leaf)

namespace TypeTable

variable {types later : TypeTable} {type : HwType} {id : TypeId}

-- A scalar type that is there is found at its first place and adds nothing.
theorem intern_eq_self_iff (h : type.needsDeclaration = false) :
    types.intern type = (id, types) ↔
      types.types.toList.findIdx? (· == type) = some id.index := by
  have hgrown : (types.declare type).2 ≠ types := by
    intro heq
    have hsize := types.types.size_allocWith fun _ => type
    rw [show (types.types.allocWith fun _ => type).2 = types.types from
      congrArg TypeTable.types heq] at hsize
    omega
  rw [intern, h, if_neg Bool.false_ne_true]
  split
  · rename_i index hindex
    simp only [Prod.mk.injEq, and_true, hindex, Option.some.injEq]
    exact ⟨congrArg Id.index, fun heq => Id.index_injective heq⟩
  · rename_i hnone
    simp only [hnone, reduceCtorEq, iff_false]
    exact fun heq => hgrown (congrArg Prod.snd heq)

theorem intern_of_growsTo (h : type.needsDeclaration = false) (hgrows : types.GrowsTo later)
    (htype : types.intern type = (id, types)) : later.intern type = (id, later) := by
  obtain ⟨more, hmore⟩ := hgrows
  rw [intern_eq_self_iff h] at htype ⊢
  rw [hmore, List.findIdx?_append, htype]
  rfl

theorem intern_of_intern (h : type.needsDeclaration = false)
    (hmade : types.intern type = (id, later)) : later.intern type = (id, later) := by
  refine (intern_eq_self_iff h).mpr ?_
  rw [intern, h, if_neg Bool.false_ne_true] at hmade
  split at hmade
  · rename_i index hindex
    obtain ⟨rfl, rfl⟩ := Prod.mk.inj hmade
    exact hindex
  · rename_i hnone
    obtain rfl : types.types.nextId = id := congrArg Prod.fst hmade
    obtain rfl : (types.declare type).2 = later := congrArg Prod.snd hmade
    have hlast : (types.declare type).2.types.toList = types.types.toList ++ [type] :=
      Array.toList_push ..
    rw [hlast, List.findIdx?_append, hnone]
    simp [Arena.nextId, Arena.size, Arena.toList]

theorem needsDeclaration_ofWidth (width : Nat) :
    (if width = 1 then HwType.bit else .vector width).needsDeclaration = false := by
  split
  · rfl
  · rfl

theorem ofWidth_of_growsTo {width : Nat} (hgrows : types.GrowsTo later)
    (h : types.ofWidth width = (id, types)) : later.ofWidth width = (id, later) :=
  intern_of_growsTo (needsDeclaration_ofWidth width) hgrows h

theorem ofWidth_ofWidth (types : TypeTable) (width : Nat) :
    (types.ofWidth width).2.ofWidth width = types.ofWidth width := by
  rcases hmade : types.ofWidth width with ⟨id, later⟩
  exact intern_of_intern (needsDeclaration_ofWidth width) hmade

theorem get?_of_ofWidth {width : Nat} (h : types.ofWidth width = (id, types)) :
    types.get? id = some (.bits width .plain false) := by
  have hfound := types.get?_intern (if width = 1 then .bit else .vector width)
  rw [show types.intern _ = (id, types) from h] at hfound
  refine hfound.trans (congrArg some ?_)
  by_cases hone : width = 1
  · rw [if_pos hone, hone]
    rfl
  · rw [if_neg hone, HwType.vector, beq_false_of_ne hone]

end TypeTable

namespace Architecture

variable {before now last : Architecture}

-- No signal goes or is given another purpose.
structure KeepsPurposes (before now : Architecture) : Prop where
  exists_signal : ∀ id signal, before.signals.get? id = some signal →
    ∃ found, now.signals.get? id = some found ∧ found.purpose = signal.purpose

namespace KeepsPurposes

theorem of_signals_eq (h : now.signals = before.signals) : before.KeepsPurposes now :=
  ⟨fun _ signal hsignal => ⟨signal, h ▸ hsignal, rfl⟩⟩

theorem refl (arch : Architecture) : arch.KeepsPurposes arch := of_signals_eq rfl

theorem trans (h : before.KeepsPurposes now) (hnext : now.KeepsPurposes last) :
    before.KeepsPurposes last := by
  refine ⟨fun id signal hsignal => ?_⟩
  obtain ⟨found, hfound, hsame⟩ := h.exists_signal id signal hsignal
  obtain ⟨other, hother, hsame'⟩ := hnext.exists_signal id found hfound
  exact ⟨other, hother, hsame'.trans hsame⟩

theorem modify (arch : Architecture) (id : SignalId) {change : Signal → Signal}
    (hchange : ∀ signal, (change signal).purpose = signal.purpose) :
    arch.KeepsPurposes { arch with signals := arch.signals.modify id change } := by
  refine ⟨fun other signal hsignal => ?_⟩
  have hsame := arch.signals.map_get?_modify id hchange other
  rw [hsignal] at hsame
  exact Option.map_eq_some_iff.mp hsame

theorem allocWith (arch : Architecture) (item : SignalId → Signal) :
    arch.KeepsPurposes { arch with signals := (arch.signals.allocWith item).2 } :=
  ⟨fun _ signal hsignal => ⟨signal, Arena.get?_allocWith_iff.mpr (.inl hsignal), rfl⟩⟩

theorem foldl {α : Type} {change : Architecture → α → Architecture}
    (hchange : ∀ (arch : Architecture) item, arch.KeepsPurposes (change arch item))
    (items : List α) (arch : Architecture) : arch.KeepsPurposes (items.foldl change arch) :=
  List.foldlRecOn items change (.refl arch) fun now hnow item _ => hnow.trans (hchange now item)

theorem addDriver (arch : Architecture) (id : SignalId) (driver : Driver) :
    arch.KeepsPurposes (arch.addDriver id driver) := modify arch id fun _ => rfl

theorem addReader (arch : Architecture) (id : SignalId) (reader : Reader) :
    arch.KeepsPurposes (arch.addReader id reader) := modify arch id fun _ => rfl

theorem bindPort (arch : Architecture) (signal : SignalId) (port : PortId) :
    arch.KeepsPurposes (arch.bindPort signal port) := by
  have hbound : arch.KeepsPurposes
      { arch with portBindings := arch.portBindings ++ [(port, signal)] } := of_signals_eq rfl
  simp only [Architecture.bindPort]
  cases arch.portDirection? port with
  | none => exact hbound
  | some direction =>
      cases direction with
      | input => exact hbound.trans (addDriver ..)
      | output => exact hbound.trans (addReader ..)
      | inout => exact (hbound.trans (addDriver ..)).trans (addReader ..)

theorem connect (arch : Architecture) (destination source : SignalId) :
    arch.KeepsPurposes (arch.connect destination source) := by
  have hjoined (links : List Connection) : arch.KeepsPurposes { arch with connections := links } :=
    of_signals_eq rfl
  exact ((hjoined _).trans (addDriver ..)).trans (addReader ..)

theorem connect? {destination source : SignalId}
    (h : before.connect? destination source = some now) : before.KeepsPurposes now := by
  simp only [Architecture.connect?, Option.ite_none_right_eq_some] at h
  obtain rfl := Option.some.inj h.2
  exact connect ..

theorem connectAll? {links : List Connection} (h : before.connectAll? links = some now) :
    before.KeepsPurposes now := Architecture.rel_connectAll? .refl .trans connect h

theorem addSignal (arch : Architecture) (name : NameId) (type : TypeId)
    (default : Option Value) : arch.KeepsPurposes (arch.addSignal name type default).2 := by
  have hadded := allocWith arch fun id =>
    { id, name, type, default, drivers := [], readers := [], hidden := false, origin := none
      leaf := none }
  exact hadded

theorem addHidden (arch : Architecture) (name : NameId) (type : TypeId) (origin : Expr) :
    arch.KeepsPurposes (arch.addHidden name type origin).2 := by
  have hadded := allocWith arch fun id =>
    { id, name, type, default := none, drivers := [], readers := [], hidden := true
      origin := some origin, leaf := none }
  exact hadded.trans (foldl (fun _ _ => addReader ..) ..)

theorem addProcess (arch : Architecture) (name : NameId) (sensitivity : List SignalId)
    (body : List Statement) : arch.KeepsPurposes (arch.addProcess name sensitivity body).2 := by
  have hprocess (processes : Arena .process Process) :
      arch.KeepsPurposes { arch with processes } := of_signals_eq rfl
  exact ((hprocess _).trans (foldl (fun _ _ => addDriver ..) ..)).trans
    (foldl (fun _ _ => addReader ..) ..)

theorem addComponent (arch : Architecture) (component : Component) :
    arch.KeepsPurposes (arch.addComponent component) := by
  have hstep (now : Architecture) (entry : NameId × SignalId) :
      now.KeepsPurposes ((now.addDriver entry.2 (.component arch.components.length)).addReader
        entry.2 (.component arch.components.length)) := (addDriver ..).trans (addReader ..)
  exact (foldl hstep component.portMap arch).trans (of_signals_eq rfl)

end KeepsPurposes

-- A signal that is added and tagged at once.
theorem keepsPurposes_tagged (arch : Architecture) (name : NameId) (type : TypeId)
    (leaf : NodeId) :
    arch.KeepsPurposes ((arch.addSignal name type none).2.setLeaf arch.signals.nextId leaf) ∧
      ∃ entry, ((arch.addSignal name type none).2.setLeaf arch.signals.nextId leaf).signals.get?
        arch.signals.nextId = some entry ∧ entry.purpose = (type, some leaf) := by
  let tag (signal : Signal) : Signal := { signal with leaf := some leaf }
  let added (id : SignalId) : Signal :=
    { id, name, type, default := none, drivers := [], readers := [], hidden := false
      origin := none, leaf := none }
  have hsignals : ((arch.addSignal name type none).2.setLeaf arch.signals.nextId leaf).signals =
      (arch.signals.allocWith fun id => tag (added id)).2 := arch.signals.modify_allocWith added tag
  constructor
  · exact (KeepsPurposes.allocWith arch fun id => tag (added id)).trans (.of_signals_eq hsignals)
  · refine ⟨tag (added arch.signals.nextId), ?_, rfl⟩
    rw [hsignals]
    exact arch.signals.get?_allocWith_self fun id => tag (added id)

end Architecture

end Rtl
