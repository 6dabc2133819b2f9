import Rtl.Proofs.Construction
import Rtl.Proofs.Names.Given
import Rtl.Render.Architecture

namespace Rtl

section

variable (r : Renderer) (naming : Naming) (layout : Layout)

def PortWritten (port : Port) (piece : PortPiece) : Prop :=
  piece.name = naming (.port port.id) ∧ piece.direction = port.direction

inductive TypeWritten (id : TypeId) : String → Prop
  | enumeration {name : Option String} {labels : List String}
      (htype : r.design.types.get? id = some (.enumeration name labels)) :
      TypeWritten id
        ("TYPE " ++ naming (.type id) ++ " IS (" ++ String.intercalate ", " labels ++ ")")
  | array {name : Option String} {element : TypeId} {size : Nat} (last : Int) (mention : String)
      (htype : r.design.types.get? id = some (.array name element size)) :
      TypeWritten id (s!"TYPE {naming (.type id)} IS ARRAY (({last}) DOWNTO 0) OF " ++ mention)

def ProcessWritten (process : Process) (text : String) : Prop :=
  ∃ (piece : ProcessPiece) (names : List String), text = layout (.process piece) ∧
    piece.name = naming (.process process.id) ∧
    List.Forall₂ (SignalNamed r naming) process.sensitivity names ∧
    (∀ name, name ∈ piece.sensitivity ↔ name ∈ names) ∧
    BodyWritten r naming layout process.body piece.lines

def ComponentWritten (component : Component) (position : Nat) (piece : ComponentPiece) : Prop :=
  piece.name = naming (.component position) ∧
    r.design.names.text? component.entity = some piece.entity ∧
    List.Forall₂ (fun entry names => r.design.names.text? entry.1 = some names.1 ∧
      SignalNamed r naming entry.2 names.2) component.portMap piece.portMap

end

namespace Renderer

variable {words : List String} {r s t : Renderer} {naming : Naming} {layout : Layout}

theorem namePorts_written {ports : List Port} {pieces : List (PortId × PortPiece)}
    (h : s.Orderly words) (hnodup : (ports.map Port.id).Nodup)
    (hnew : ∀ port ∈ ports, s.IsNew (.port port.id))
    (hok : (namePorts ports).outcome s = .ok (pieces, t)) :
    t.Orderly words ∧ s.Gives (ports.map fun port => .port port.id) t ∧
      ∀ naming, t.Agrees naming →
        List.Forall₂ (fun port entry => entry.1 = port.id ∧ PortWritten naming port entry.2) ports
          pieces := by
  induction ports generalizing s pieces with
  | nil =>
      obtain ⟨rfl, rfl⟩ := Prod.mk.inj (Except.ok.inj hok)
      exact ⟨h, .refl _, fun _ _ => .nil⟩
  | cons port rest ih =>
      obtain ⟨hport, hnodup⟩ := List.nodup_cons.mp hnodup
      obtain ⟨hfirst, hothers⟩ := List.forall_mem_cons.mp hnew
      simp only [outcome_namePorts_cons, bind_eq_ok] at hok
      obtain ⟨candidate, -, type, -, ⟨others, _⟩, hrest, hok⟩ := hok
      obtain ⟨rfl, rfl⟩ := Prod.mk.inj (Except.ok.inj hok)
      have hnames := h.checkedName hfirst candidate rfl rfl
      have hlater : ∀ other ∈ rest, (s.checkedName (.port port.id) candidate).2.IsNew
          (.port other.id) := by
        intro other hmem
        refine hnames.gives.isNew_iff.mpr ⟨fun he => hport ?_, hothers other hmem⟩
        exact List.mem_map.mpr ⟨other, hmem, Owner.port.inj (List.mem_singleton.mp he)⟩
      obtain ⟨horderly, hgives, hwritten⟩ := ih hnames.orderly hnodup hlater hrest
      refine ⟨horderly, hnames.gives.trans hgives, fun naming hnaming => ?_⟩
      have hname := hnames.naming_eq (hgives.agrees hnaming)
      exact .cons ⟨rfl, hname.symm, rfl⟩ (hwritten naming hnaming)

-- Nothing is declared if it is declared already.
theorem declareType_written {id : TypeId} {declaration : Option String} (h : s.Orderly words)
    (hdesign : s.design = r.design) (hok : (declareType id).outcome s = .ok (declaration, t)) :
    t.Orderly words ∧ ∃ ids : List TypeId, s.Gives (ids.map .type) t ∧
      ∀ naming, t.Agrees naming → List.Forall₂ (TypeWritten r naming) ids declaration.toList := by
  simp only [outcome_declareType] at hok
  split at hok
  · obtain ⟨rfl, rfl⟩ := Prod.mk.inj (Except.ok.inj hok)
    exact ⟨h, [], .refl _, fun _ _ => .nil⟩
  rename_i hdeclared
  have hnew := h.isNew_of_not_isDeclared (Bool.eq_false_of_not_eq_true hdeclared)
  obtain ⟨type, htype, hok⟩ := bind_eq_ok.mp hok
  rw [type_eq_ok, hdesign] at htype
  split at hok
  · rename_i name labels
    obtain ⟨rfl, rfl⟩ := Prod.mk.inj (Except.ok.inj hok)
    have hnames := h.nameType hnew (Text.toCapitals (name.getD "enumT_"))
    refine ⟨hnames.orderly, [id], hnames.gives, fun naming hnaming => .cons ?_ .nil⟩
    rw [← hnames.naming_eq hnaming]
    exact .enumeration htype
  · rename_i name element size
    obtain ⟨mention, -, hok⟩ := bind_eq_ok.mp hok
    obtain ⟨rfl, rfl⟩ := Prod.mk.inj (Except.ok.inj hok)
    have hnames := h.nameType hnew (name.getD "arrT_")
    refine ⟨hnames.orderly, [id], hnames.gives, fun naming hnaming => .cons ?_ .nil⟩
    rw [← hnames.naming_eq hnaming]
    exact .array _ mention htype
  · obtain ⟨_, -, hok⟩ := bind_eq_ok.mp hok
    cases hok

theorem declareWithin_written {depth : Nat} {id : TypeId} {declarations : List String}
    (h : s.Orderly words) (hdesign : s.design = r.design)
    (hok : (declareWithin depth id).outcome s = .ok (declarations, t)) :
    t.Orderly words ∧ ∃ ids : List TypeId, s.Gives (ids.map .type) t ∧
      ∀ naming, t.Agrees naming → List.Forall₂ (TypeWritten r naming) ids declarations := by
  induction depth generalizing id s t declarations with
  | zero => cases hok
  | succ depth ih =>
      rw [outcome_declareWithin_succ] at hok
      obtain ⟨type, -, hok⟩ := bind_eq_ok.mp hok
      split at hok
      · obtain ⟨⟨declaration, _⟩, hdeclared, hok⟩ := bind_eq_ok.mp hok
        obtain ⟨rfl, rfl⟩ := Prod.mk.inj (Except.ok.inj hok)
        exact declareType_written h hdesign hdeclared
      · obtain ⟨⟨before, middle⟩, hbefore, hok⟩ := bind_eq_ok.mp hok
        obtain ⟨⟨declaration, _⟩, hdeclared, hok⟩ := bind_eq_ok.mp hok
        obtain ⟨rfl, rfl⟩ := Prod.mk.inj (Except.ok.inj hok)
        obtain ⟨horderly, ids, hgives, hwritten⟩ := ih h hdesign hbefore
        obtain ⟨hlast, more, hmore, hnow⟩ :=
          declareType_written horderly (hgives.design.trans hdesign) hdeclared
        refine ⟨hlast, ids ++ more, List.map_append ▸ hgives.trans hmore, fun naming hnaming => ?_⟩
        exact List.rel_append (hwritten naming (hmore.agrees hnaming)) (hnow naming hnaming)
      · obtain ⟨rfl, rfl⟩ := Prod.mk.inj (Except.ok.inj hok)
        exact ⟨h, [], .refl _, fun _ _ => .nil⟩

-- Types and signals get their names in turns.
theorem nameSignals_written {shown : List (String × Signal)} {declarations : List String}
    (h : s.Orderly words) (hdesign : s.design = r.design)
    (hnodup : (shown.map fun entry => entry.2.id).Nodup)
    (hnew : ∀ entry ∈ shown, s.IsNew (.signal entry.2.id))
    (hok : (nameSignals shown).outcome s = .ok (declarations, t)) :
    t.Orderly words ∧ ∃ ids : List TypeId,
      s.Gives (ids.map .type ++ shown.map fun entry => .signal entry.2.id) t ∧
      ∀ naming, t.Agrees naming → List.Forall₂ (TypeWritten r naming) ids declarations := by
  induction shown generalizing s declarations with
  | nil =>
      obtain ⟨rfl, rfl⟩ := Prod.mk.inj (Except.ok.inj hok)
      exact ⟨h, [], .refl _, fun _ _ => .nil⟩
  | cons entry rest ih =>
      obtain ⟨name, signal⟩ := entry
      obtain ⟨hsignal, hnodup⟩ := List.nodup_cons.mp hnodup
      obtain ⟨hfirst, hothers⟩ := List.forall_mem_cons.mp hnew
      simp only [outcome_nameSignals_cons, bind_eq_ok] at hok
      obtain ⟨⟨types, middle⟩, htypes, ⟨more, _⟩, hmore, hok⟩ := hok
      obtain ⟨rfl, rfl⟩ := Prod.mk.inj (Except.ok.inj hok)
      obtain ⟨horderly, ids, hgives, hwritten⟩ := declareWithin_written h hdesign htypes
      have hstill {id : SignalId} (hid : s.IsNew (.signal id)) : middle.IsNew (.signal id) :=
        hgives.isNew_iff.mpr ⟨by simp, hid⟩
      have hnames := horderly.nameSignal (hstill hfirst) name
      have hlater : ∀ other ∈ rest,
          (middle.nameSignal signal.id name).2.IsNew (.signal other.2.id) := by
        intro other hmem
        refine hnames.gives.isNew_iff.mpr ⟨fun he => hsignal ?_, hstill (hothers other hmem)⟩
        exact List.mem_map.mpr ⟨other, hmem, Owner.signal.inj (List.mem_singleton.mp he)⟩
      have hdesignNext := hnames.gives.design.trans (hgives.design.trans hdesign)
      obtain ⟨hlast, last, hrest, hnow⟩ := ih hnames.orderly hdesignNext hnodup hlater hmore
      refine ⟨hlast, ids ++ last, ((hgives.trans hnames.gives).trans hrest).of_perm ?_, ?_⟩
      · rw [List.map_append, List.append_assoc, List.append_assoc, List.singleton_append]
        exact List.perm_middle.symm.append_left _
      · intro naming hnaming
        have hmiddle := hnames.gives.agrees (hrest.agrees hnaming)
        exact List.rel_append (hwritten naming hmiddle) (hnow naming hnaming)

-- Ports, shown signals and their types get their names one after the other.
theorem nameAll_eq_ok {entries : List (PortId × PortPiece)} {declarations : List String} :
    nameAll.outcome s = .ok ((entries, declarations), t) ↔ ∃ middle shown,
      (namePorts s.design.arch.entity.ports.toList).outcome s = .ok (entries, middle) ∧
      middle.shownSignals = .ok shown ∧
      (nameSignals shown).outcome middle = .ok (declarations, t) := by
  simp only [outcome_nameAll, bind_eq_ok]
  constructor
  · rintro ⟨⟨_, middle⟩, hports, shown, hshown, ⟨_, _⟩, hsignals, hok⟩
    obtain ⟨hparts, rfl⟩ := Prod.mk.inj (Except.ok.inj hok)
    obtain ⟨rfl, rfl⟩ := Prod.mk.inj hparts
    exact ⟨middle, shown, hports, hshown, hsignals⟩
  · rintro ⟨middle, shown, hports, hshown, hsignals⟩
    exact ⟨_, hports, shown, hshown, _, hsignals, rfl⟩

theorem mem_dropRepeats (name : String) : ∀ names, name ∈ dropRepeats names ↔ name ∈ names
  | [] => Iff.rfl
  | [_] => Iff.rfl
  | first :: next :: rest => by
      have ih := mem_dropRepeats name (next :: rest)
      rw [dropRepeats]
      split
      · rename_i hsame
        rw [ih, hsame]
        simp
      · rw [List.mem_cons, ih, ← List.mem_cons]

-- Each piece is filed under the number of its port.
theorem filed_of_namePorts {ports : List Port} {pieces : List (PortId × PortPiece)}
    (hok : (namePorts ports).outcome s = .ok (pieces, t)) :
    pieces.map (·.1) = ports.map Port.id := by
  induction ports generalizing s pieces with
  | nil =>
      obtain ⟨rfl, -⟩ := Prod.mk.inj (Except.ok.inj hok)
      rfl
  | cons port rest ih =>
      simp only [outcome_namePorts_cons, bind_eq_ok] at hok
      obtain ⟨candidate, -, type, -, ⟨others, _⟩, hrest, hok⟩ := hok
      obtain ⟨rfl, rfl⟩ := Prod.mk.inj (Except.ok.inj hok)
      exact congrArg (port.id :: ·) (ih hrest)

theorem exists_mem_of_portName? {ports : List (PortId × PortPiece)} {id : PortId} {name : String}
    (h : portName? ports id = some name) : ∃ entry ∈ ports, entry.1 = id ∧ entry.2.name = name := by
  obtain ⟨piece, hlookup, rfl⟩ := Option.map_eq_some_iff.mp h
  obtain ⟨front, back, hreverse, -⟩ := List.lookup_eq_some_iff.mp hlookup
  have hmem : (id, piece) ∈ ports.reverse := hreverse ▸ List.mem_append_right _ List.mem_cons_self
  exact ⟨(id, piece), List.mem_reverse.mp hmem, rfl, rfl⟩

theorem portName?_eq_none_iff {ports : List (PortId × PortPiece)} {id : PortId} :
    portName? ports id = none ↔ id ∉ ports.map (·.1) := by
  rw [portName?, Option.map_eq_none_iff, List.lookup_eq_none_iff, List.mem_map]
  simp only [List.mem_reverse, bne_iff_ne]
  exact ⟨fun h ⟨entry, hentry, hid⟩ => h entry hentry hid.symm,
    fun h entry hentry hid => h ⟨entry, hentry, hid.symm⟩⟩

theorem perm_sortBy {α β : Type} (key : α → β) (le : β → β → Bool) (items : List α) :
    (sortBy key le items).Perm items := List.mergeSort_perm ..

-- The renderer after all shown signals, and no others, were given names.
structure Continues (r s : Renderer) : Prop where
  dialect : s.dialect = r.dialect
  design : s.design = r.design
  timeUnit : s.timeUnit = r.timeUnit
  shown : ∀ id, s.IsNew (.signal id) ↔
    ∀ signal, r.design.arch.signals.get? id = some signal → signal.hidden = true

theorem Continues.gives (h : r.Continues s) (hgives : s.Gives owners t)
    (howners : ∀ id, Owner.signal id ∉ owners) : r.Continues t where
  dialect := hgives.dialect.trans h.dialect
  design := hgives.design.trans h.design
  timeUnit := hgives.timeUnit.trans h.timeUnit
  shown id := by
    rw [hgives.isNew_iff, ← h.shown]
    exact and_iff_right (howners id)

theorem Continues.named (h : r.Continues s) (horderly : s.Orderly words)
    (hnaming : s.Agrees naming) : r.Named naming s := by
  refine ⟨h.dialect, h.design, h.timeUnit, fun id => ?_⟩
  rw [horderly.signals, Owner.lookup_ofKind Owner.signal?_eq_some_iff]
  by_cases hnew : s.IsNew (.signal id)
  · have hnone : s.scope.given.lookup (.signal id) = none :=
      List.lookup_eq_none_iff.mpr fun entry hentry =>
        bne_iff_ne.mpr fun he => hnew (he ▸ List.mem_map_of_mem hentry)
    rw [hnone]
    cases hsignal : r.design.arch.signals.get? id with
    | none => rfl
    | some signal => simp [(h.shown id).mp hnew signal hsignal]
  · obtain ⟨⟨_, name⟩, hentry, rfl⟩ := List.mem_map.mp (not_not.mp hnew)
    obtain rfl : naming (.signal id) = name := hnaming _ hentry
    rw [(lookup_eq_some_iff_mem horderly.fair.owners).mpr hentry]
    rw [h.shown] at hnew
    push Not at hnew
    obtain ⟨signal, hsignal, hhidden⟩ := hnew
    simp [hsignal, hhidden]

theorem processText_written {process : Process} {name text : String} (hnamed : r.Named naming s)
    (hname : naming (.process process.id) = name)
    (hok : s.processText layout name process = .ok text) :
    ProcessWritten r naming layout process text := by
  simp only [processText, bind_eq_ok] at hok
  obtain ⟨names, hnames, lines, hlines, hok⟩ := hok
  obtain rfl := Except.ok.inj hok
  refine ⟨_, names, rfl, hname.symm, ?_, fun name => ?_, hnamed.statements _ _ hlines⟩
  · exact (mapM_eq_ok.mp hnames).imp fun id name h => hnamed.signalNamed h
  · rw [mem_dropRepeats, (perm_sortBy ..).mem_iff]

theorem findProcess_eq_ok {id : ProcessId} {process : Process} :
    s.findProcess id = .ok process ↔ s.design.arch.processes.get? id = some process := by
  cases h : s.design.arch.processes.get? id with
  | none | some => simp [findProcess, h]

-- A process gets its name before anything of it is written.
theorem exists_name_of_process {process : Process} {text : String} (h : s.Orderly words)
    (hnew : s.IsNew (.process process.id))
    (hfound : s.design.arch.processes.get? process.id = some process)
    (hok : Renderer.process layout process.id s = (.ok text, t)) :
    ∃ name, s.Names words (.process process.id) name t ∧
      t.processText layout name process = .ok text := by
  simp only [process_eq, findProcess, hfound] at hok
  split at hok
  · cases hok
  · rename_i candidate hcandidate
    obtain ⟨htext, rfl⟩ := Prod.mk.inj hok
    exact ⟨_, h.checkedName hnew candidate rfl rfl, htext⟩

theorem processes_written {sorted : List Process} {texts : List String} (h : s.Orderly words)
    (hr : r.Continues s) (hnodup : (sorted.map Process.id).Nodup)
    (hnew : ∀ process ∈ sorted, s.IsNew (.process process.id))
    (hfound : ∀ process ∈ sorted, r.design.arch.processes.get? process.id = some process)
    (hok : processes layout sorted s = (.ok texts, t)) :
    t.Orderly words ∧ s.Gives (sorted.map fun process => .process process.id) t ∧
      ∀ naming, t.Agrees naming →
        List.Forall₂ (ProcessWritten r naming layout) sorted texts := by
  induction sorted generalizing s texts with
  | nil =>
      obtain ⟨hnil, rfl⟩ := Prod.mk.inj hok
      obtain rfl := Except.ok.inj hnil
      exact ⟨h, .refl _, fun _ _ => .nil⟩
  | cons process rest ih =>
      obtain ⟨hprocess, hnodup⟩ := List.nodup_cons.mp hnodup
      obtain ⟨hfirst, hothers⟩ := List.forall_mem_cons.mp hnew
      obtain ⟨hhere, hthere⟩ := List.forall_mem_cons.mp hfound
      rw [processes_cons] at hok
      split at hok
      · cases hok
      · rename_i text middle hone
        obtain ⟨htexts, rfl⟩ := Prod.mk.inj hok
        obtain ⟨more, hmore, rfl⟩ := map_eq_ok.mp htexts
        obtain ⟨name, hnames, htext⟩ :=
          exists_name_of_process h hfirst (hr.design ▸ hhere) hone
        have hmiddle := hr.gives hnames.gives (by simp)
        have hlater : ∀ other ∈ rest, middle.IsNew (.process other.id) := by
          intro other hmem
          refine hnames.gives.isNew_iff.mpr ⟨fun he => hprocess ?_, hothers other hmem⟩
          exact List.mem_map.mpr ⟨other, hmem, Owner.process.inj (List.mem_singleton.mp he)⟩
        obtain ⟨hlast, hgives, hwritten⟩ :=
          ih hnames.orderly hmiddle hnodup hlater hthere (Prod.ext hmore rfl)
        refine ⟨hlast, hnames.gives.trans hgives, fun naming hnaming => ?_⟩
        have hagrees := hgives.agrees hnaming
        exact .cons (processText_written (hmiddle.named hnames.orderly hagrees)
          (hnames.naming_eq hagrees) htext) (hwritten naming hnaming)

theorem components_written {sorted : List (String × Component)} {position : Nat}
    {pieces : List ComponentPiece} (h : s.Orderly words) (hr : r.Continues s)
    (hnew : ∀ later, position ≤ later → s.IsNew (.component later))
    (hok : (components position sorted).outcome s = .ok (pieces, t)) :
    t.Orderly words ∧
      s.Gives ((List.range' position sorted.length).map .component) t ∧ r.Continues t ∧
      ∀ naming, t.Agrees naming →
        List.Forall₂ (fun entry piece => ComponentWritten r naming entry.1.2 entry.2 piece)
          (sorted.zipIdx position) pieces := by
  induction sorted generalizing s position pieces with
  | nil =>
      obtain ⟨rfl, rfl⟩ := Prod.mk.inj (Except.ok.inj hok)
      exact ⟨h, .refl _, hr, fun _ _ => .nil⟩
  | cons entry rest ih =>
      obtain ⟨candidate, component⟩ := entry
      simp only [outcome_components_cons, bind_eq_ok] at hok
      obtain ⟨portMap, hportMap, entity, hentity, ⟨more, _⟩, hmore, hok⟩ := hok
      obtain ⟨rfl, rfl⟩ := Prod.mk.inj (Except.ok.inj hok)
      have hnames := h.checkedName (hnew position (Nat.le_refl _)) candidate rfl rfl
      have hmiddle := hr.gives hnames.gives (by simp)
      have hlater : ∀ later, position + 1 ≤ later →
          (s.checkedName (.component position) candidate).2.IsNew (.component later) := by
        intro later hle
        refine hnames.gives.isNew_iff.mpr ⟨fun he => ?_, hnew later (by omega)⟩
        have hsame := Owner.component.inj (List.mem_singleton.mp he)
        omega
      obtain ⟨hlast, hgives, hcontinues, hwritten⟩ := ih hnames.orderly hmiddle hlater hmore
      refine ⟨hlast, hnames.gives.trans hgives, hcontinues, fun naming hnaming => ?_⟩
      have hagrees := hgives.agrees hnaming
      have hnamed := hmiddle.named hnames.orderly hagrees
      refine .cons ⟨(hnames.naming_eq hagrees).symm, ?_, ?_⟩ (hwritten naming hnaming)
      · rw [text_eq_ok, hmiddle.design] at hentity
        exact hentity
      · refine (mapM_eq_ok.mp hportMap).imp fun entry names hentry => ?_
        simp only [bind_eq_ok, text_eq_ok, hmiddle.design] at hentry
        obtain ⟨port, hport, signal, hsignal, hentry⟩ := hentry
        obtain rfl := Except.ok.inj hentry
        exact ⟨hport, hnamed.signalNamed hsignal⟩

end Renderer

end Rtl
