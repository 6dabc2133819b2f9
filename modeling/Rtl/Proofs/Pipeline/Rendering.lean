import Rtl.Proofs.Names.Theorems
import Rtl.Proofs.Pipeline.Plain

namespace Rtl.Renderer

variable {r s t : Renderer} {layout : Layout}

-- No signal is on a port that goes both ways.
def OneWay (arch : Architecture) : Prop :=
  ∀ binding ∈ arch.portBindings, arch.portDirection? binding.1 ≠ some .inout

theorem sortBy_nil {α β : Type} (key : α → β) (le : β → β → Bool) : sortBy key le [] = [] := by
  rw [sortBy, List.mergeSort_nil]

theorem exists_named {α : Type} (r : Renderer) {name : α → NameId} {items : List α}
    (h : ∀ item ∈ items, ∃ text, r.design.names.text? (name item) = some text) :
    ∃ entries, r.named name items = .ok entries := by
  refine exists_mapM_eq_ok fun item hmem => ?_
  obtain ⟨text, htext⟩ := h item hmem
  exact ⟨(text, item), bind_eq_ok.mpr ⟨text, text_eq_ok.mpr htext, rfl⟩⟩

theorem exists_namePorts {ports : List Port}
    (hnamed : ∀ port ∈ ports, ∃ text, r.design.names.text? port.name = some text)
    (htyped : ∀ port ∈ ports, ∃ type, r.design.types.get? port.type = some type) :
    ∃ entries s, (namePorts ports).outcome r = .ok (entries, s) ∧ s.design = r.design := by
  induction ports generalizing r with
  | nil => exact ⟨[], r, rfl, rfl⟩
  | cons port rest ih =>
      obtain ⟨⟨candidate, hcandidate⟩, hnamed⟩ := List.forall_mem_cons.mp hnamed
      obtain ⟨⟨type, htype⟩, htyped⟩ := List.forall_mem_cons.mp htyped
      let now := (r.checkedName (.port port.id) candidate).2
      obtain ⟨text, htext⟩ := exists_typeText (r := now) htype
      obtain ⟨entries, s, hrest, hdesign⟩ := ih (r := now) hnamed htyped
      let piece : PortPiece :=
        ⟨(r.checkedName (.port port.id) candidate).1, port.direction, text⟩
      refine ⟨(port.id, piece) :: entries, s, ?_, hdesign⟩
      simp only [outcome_namePorts_cons, bind_eq_ok, text_eq_ok]
      exact ⟨candidate, hcandidate, text, htext, _, hrest, rfl⟩

-- Signals of plain types need no declarations of types.
theorem exists_nameSignals {shown : List (String × Signal)}
    (h : ∀ entry ∈ shown, entry.2.Declarable r.design.names r.design.types) :
    ∃ s, (nameSignals shown).outcome r = .ok ([], s) ∧ s.design = r.design := by
  induction shown generalizing r with
  | nil => exact ⟨r, rfl, rfl⟩
  | cons entry rest ih =>
      obtain ⟨name, signal⟩ := entry
      obtain ⟨hfirst, hothers⟩ := List.forall_mem_cons.mp h
      obtain ⟨width, signedness, force, htype⟩ := hfirst.type
      obtain ⟨s, hrest, hdesign⟩ := ih (r := (r.nameSignal signal.id name).2) hothers
      have hdeclared : (declareAll signal.type).outcome r = .ok ([], r) := by
        have hlt : signal.type.index < r.design.types.size :=
          (Array.getElem?_eq_some_iff.mp htype).1
        obtain ⟨depth, hdepth⟩ := Nat.exists_eq_succ_of_ne_zero (Nat.ne_zero_of_lt hlt)
        rw [outcome_declareAll, hdepth, outcome_declareWithin_succ]
        exact bind_eq_ok.mpr ⟨_, type_eq_ok.mpr htype, rfl⟩
      refine ⟨s, ?_, hdesign⟩
      simp only [outcome_nameSignals_cons, bind_eq_ok]
      exact ⟨_, hdeclared, _, hrest, rfl⟩

theorem exists_signalName {id : SignalId} {signal : Signal}
    (hsignal : r.design.arch.signals.get? id = some signal)
    (hname : ∃ text, r.design.names.text? signal.name = some text) :
    ∃ name, r.signalName id = .ok name := by
  obtain ⟨text, htext⟩ := hname
  rw [signalName]
  split
  · exact ⟨_, rfl⟩
  · exact ⟨text, bind_eq_ok.mpr ⟨signal, signal_eq_ok.mpr hsignal, text_eq_ok.mpr htext⟩⟩

theorem exists_signalKind? {signal : Signal} (h : signal.drivers ≠ [] ∨ signal.readers ≠ []) :
    ∃ kind, signalKind? signal = some kind := by
  cases hdrivers : signal.drivers with
  | cons => exact ⟨.signal, by simp [signalKind?, hdrivers]⟩
  | nil =>
      cases hreaders : signal.readers with
      | cons => exact ⟨.constant, by simp [signalKind?, hdrivers, hreaders]⟩
      | nil => exact absurd h (by simp [hdrivers, hreaders])

-- Only a signal that is not in use cannot be declared.
theorem exists_signalDeclaration (dialect : Dialect) (name type : String)
    (default : Option String) (kind : SignalKind) :
    ∃ text, dialect.signalDeclaration ⟨name, type, default, some kind⟩ = .ok text := by
  cases dialect with
  | simModel => exact ⟨_, rfl⟩
  | vhdl =>
      cases kind with
      | signal | constant => exact ⟨_, rfl⟩

theorem exists_declareSignal {id : SignalId} {signal : Signal}
    (hsignal : r.design.arch.signals.get? id = some signal)
    (h : signal.Declarable r.design.names r.design.types) :
    ∃ text, r.declareSignal id = .ok text := by
  obtain ⟨width, signedness, force, htype⟩ := h.type
  obtain ⟨name, hname⟩ := exists_signalName hsignal h.name
  obtain ⟨type, htypeText⟩ := exists_typeText htype
  obtain ⟨kind, hkind⟩ := exists_signalKind? h.used
  obtain ⟨text, htext⟩ := exists_signalDeclaration r.dialect name type none kind
  have hdefault : r.defaultText signal.default = .ok none := by rw [h.default, defaultText]
  simp only [declareSignal, bind_eq_ok, signal_eq_ok]
  exact ⟨text, signal, hsignal, name, hname, type, htypeText, none, hdefault, hkind ▸ htext⟩

theorem exists_bindingNames {entries : List (PortId × PortPiece)} {binding : PortId × SignalId}
    {direction : Direction} {signal : Signal}
    (hfiled : binding.1 ∈ entries.map (·.1))
    (hdirection : r.design.arch.portDirection? binding.1 = some direction)
    (honeWay : direction ≠ .inout)
    (hsignal : r.design.arch.signals.get? binding.2 = some signal)
    (hname : ∃ text, r.design.names.text? signal.name = some text) :
    ∃ names, r.bindingNames entries binding = .ok names := by
  obtain ⟨name, hname⟩ := exists_signalName hsignal hname
  cases hport : portName? entries binding.1 with
  | none => exact absurd hfiled (portName?_eq_none_iff.mp hport)
  | some port =>
      simp only [bindingNames, hport, hdirection, bind_eq_ok]
      cases direction with
      | input | output => exact ⟨_, name, hname, rfl⟩
      | inout => exact absurd rfl honeWay

theorem exists_shownSignals (h : r.design.Plain) :
    ∃ shown, r.shownSignals = .ok shown ∧
      ∀ entry ∈ shown, r.design.arch.signals.get? entry.2.id = some entry.2 := by
  have hget {signal : Signal} (hmem : signal ∈ Rtl.shownSignals r.design.arch) :
      r.design.arch.signals.get? signal.id = some signal :=
    ((mem_shownSignals_iff h.numbered).mp hmem).1
  have hnames : ∀ signal ∈ Rtl.shownSignals r.design.arch,
      ∃ text, r.design.names.text? signal.name = some text :=
    fun signal hmem => (h.signals _ _ (hget hmem)).name
  obtain ⟨entries, hentries⟩ := exists_named r hnames
  have hshown : r.shownSignals = .ok (sortBy (·.1) textLe entries) :=
    bind_eq_ok.mpr ⟨entries, hentries, rfl⟩
  refine ⟨_, hshown, fun entry hmem => hget ?_⟩
  exact (perm_of_shownSignals hshown).mem_iff.mp (List.mem_map_of_mem hmem)

theorem exists_nameAll (h : r.design.Plain) :
    ∃ entries s, nameAll.outcome r = .ok ((entries, []), s) ∧ s.design = r.design ∧
      entries.map (·.1) = r.design.arch.entity.ports.toList.map Port.id := by
  have hget {port : Port} (hmem : port ∈ r.design.arch.entity.ports.toList) :
      r.design.arch.entity.ports.get? port.id = some port := h.numbered.ports.get?_of_mem hmem
  obtain ⟨entries, s, hports, hdesign⟩ := exists_namePorts (r := r)
    (fun port hmem => h.entity.ports _ _ (hget hmem))
    fun port hmem => ⟨_, Array.getElem?_eq_getElem (h.typed _ _ (hget hmem))⟩
  rw [← hdesign] at h
  obtain ⟨shown, hshown, hfound⟩ := exists_shownSignals h
  obtain ⟨t, hsignals, hlast⟩ := exists_nameSignals fun entry hmem =>
    h.signals _ _ (hfound entry hmem)
  exact ⟨entries, t, nameAll_eq_ok.mpr ⟨s, shown, hports, hshown, hsignals⟩, hlast.trans hdesign,
    filed_of_namePorts hports⟩

theorem exists_connectionTexts {entries : List (PortId × PortPiece)} (h : r.design.Plain)
    (hfiled : entries.map (·.1) = r.design.arch.entity.ports.toList.map Port.id)
    (hports : OneWay r.design.arch) :
    ∃ texts, r.connectionTexts entries = .ok texts := by
  have hbindings : ∀ binding ∈ r.design.arch.portBindings,
      ∃ names, r.bindingNames entries binding = .ok names := by
    intro binding hmem
    obtain ⟨hsignal, direction, hdirection⟩ := h.bindings binding hmem
    obtain ⟨signal, hsignal⟩ := Architecture.hasSignal_iff.mp hsignal
    obtain ⟨port, hport, rfl⟩ := Option.map_eq_some_iff.mp hdirection
    have hplace : binding.1 ∈ entries.map (·.1) := by
      rw [hfiled, ← h.numbered.ports _ _ hport]
      exact List.mem_map_of_mem (Arena.mem_toList_of_get? hport)
    refine exists_bindingNames hplace hdirection (fun hinout => ?_) hsignal
      (h.signals _ _ hsignal).name
    exact hports binding hmem (hinout ▸ hdirection)
  obtain ⟨names, hnames⟩ := exists_mapM_eq_ok hbindings
  have hlinks : r.design.arch.connections.mapM r.connectionNames = .ok [] := by
    rw [h.connections]
    rfl
  simp only [connectionTexts, bind_eq_ok]
  exact ⟨_, [], hlinks, names, hnames, rfl⟩

theorem exists_preamble {entries : List (PortId × PortPiece)} (h : r.design.Plain)
    (hfiled : entries.map (·.1) = r.design.arch.entity.ports.toList.map Port.id)
    (hports : OneWay r.design.arch) (types : List String) :
    ∃ preamble, r.preamble entries types = .ok preamble := by
  obtain ⟨shown, hshown, hfound⟩ := exists_shownSignals h
  have hdeclared : ∀ entry ∈ shown, ∃ text, r.declareSignal entry.2.id = .ok text :=
    fun entry hmem => exists_declareSignal (hfound entry hmem) (h.signals _ _ (hfound entry hmem))
  obtain ⟨signals, hsignals⟩ := exists_mapM_eq_ok hdeclared
  obtain ⟨connections, hconnections⟩ := exists_connectionTexts h hfiled hports
  simp only [preamble, bind_eq_ok]
  exact ⟨_, shown, hshown, signals, hsignals, connections, hconnections, rfl⟩

theorem exists_unitText (h : r.design.Plain) (layout : Layout) (preamble : Preamble)
    (processes : List String) :
    ∃ written, (unitText layout preamble processes).outcome r = .ok written := by
  obtain ⟨entity, hentity⟩ := h.entity.name
  obtain ⟨name, hname⟩ := h.name
  have hsorted : r.sortedComponents = .ok [] := by
    simp only [sortedComponents, h.components, bind_eq_ok]
    exact ⟨[], rfl, by rw [sortBy_nil]; rfl⟩
  simp only [outcome_unitText, bind_eq_ok, text_eq_ok]
  exact ⟨_, [], hsorted, ([], r), rfl, entity, hentity, name, hname, rfl⟩

-- A unit of ports and signals is written unless a signal is on a port that goes
-- both ways.
theorem exists_body_of_plain (h : r.design.Plain) (hports : OneWay r.design.arch)
    (layout : Layout) :
    ∃ text, (body layout r).1 = .ok text := by
  obtain ⟨entries, s, hnames, hdesign, hfiled⟩ := exists_nameAll h
  rw [← hdesign] at h hports hfiled
  obtain ⟨preamble, hpreamble⟩ := exists_preamble h hfiled hports []
  obtain ⟨⟨text, last⟩, hunit⟩ := exists_unitText h layout preamble []
  have hsorted : s.sortedProcesses = .ok [] := by
    simp only [sortedProcesses, h.processes, bind_eq_ok]
    exact ⟨[], rfl, by rw [sortBy_nil]; rfl⟩
  have hbody : body layout r = (.ok text, last) :=
    body_iff_passes.mpr ⟨_, _, s, preamble, [], [], s, hnames, hpreamble, hsorted, rfl, hunit⟩
  exact ⟨text, congrArg Prod.fst hbody⟩

end Rtl.Renderer
