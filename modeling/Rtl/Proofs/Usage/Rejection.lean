import Rtl.Proofs.Rendering.Causes
import Rtl.Proofs.Usage.Declarations

namespace Rtl

-- The expressions in a statement itself, also those of the indexes of its target.
def Statement.operands : Statement → List Expr
  | .assign _ _ source indexes _ => source :: indexes.getD []
  | .branch _ condition _ elifs _ => condition ++ elifs.flatMap (·.1)
  | .select _ subject cases => subject :: cases.filterMap (·.1)
  | .wait .. => []

namespace Architecture

-- A signal in an expression of some statement.
def Evaluates (arch : Architecture) (id : SignalId) : Prop :=
  ∃ process ∈ arch.processes.toList, ∃ s : Statement, s.Within process.body ∧
    ∃ e ∈ s.operands, id ∈ e.signals

-- A signal that is mentioned anywhere else.
inductive Used (arch : Architecture) (id : SignalId) : Prop
  | assigned {process : Process} {statement : StatementId} {source : Expr}
      {indexes : Option (List Expr)} {onEvent : Bool} (hprocess : process ∈ arch.processes.toList)
      (hwithin : (Statement.assign statement id source indexes onEvent).Within process.body) :
      Used arch id
  | sensitive {process : Process} (hprocess : process ∈ arch.processes.toList)
      (hid : id ∈ process.sensitivity) : Used arch id
  | connected {link : Connection} (hlink : link ∈ arch.connections)
      (hid : id = link.destination ∨ id = link.source) : Used arch id
  | bound {port : PortId} (hbinding : (port, id) ∈ arch.portBindings) : Used arch id
  | mapped {component : Component} {name : NameId} (hcomponent : component ∈ arch.components)
      (hport : (name, id) ∈ component.portMap) : Used arch id
  | origin {other : SignalId} {origin : Expr} (horigin : arch.origin? other = some origin)
      (hid : id ∈ origin.signals) : Used arch id

variable {arch : Architecture} {id : SignalId}

theorem Used.of_isDriver {driver : Driver} (h : arch.IsDriver driver id) : arch.Used id := by
  cases driver with
  | port port => exact .bound h.1
  | connection source => exact .connected h (.inl rfl)
  | statement statement =>
      obtain ⟨process, hprocess, htarget⟩ := h
      obtain ⟨source, indexes, onEvent, hwithin⟩ := Statement.mem_targets_iff.mp htarget
      exact .assigned hprocess hwithin
  | component position =>
      obtain ⟨component, hcomponent, name, hport⟩ := exists_maps_iff.mp ⟨position, h⟩
      exact .mapped hcomponent hport

theorem Used.of_isReader {reader : Reader} (h : arch.IsReader reader id) : arch.Used id := by
  cases reader with
  | port port => exact .bound h.1
  | connection destination =>
      obtain hlink | ⟨origin, horigin, hid⟩ := h
      · exact .connected hlink (.inr rfl)
      · exact .origin horigin hid
  | process pid =>
      obtain ⟨process, hprocess, -, hid⟩ := h
      exact .sensitive hprocess hid
  | component position =>
      obtain ⟨component, hcomponent, name, hport⟩ := exists_maps_iff.mp ⟨position, h⟩
      exact .mapped hcomponent hport

theorem Used.isDriver_or_isReader (h : arch.Used id) (htracked : arch.Tracked) :
    (∃ driver, arch.IsDriver driver id) ∨ ∃ reader, arch.IsReader reader id := by
  cases h with
  | assigned hprocess hwithin =>
      exact .inl ⟨.statement _, _, hprocess, Statement.mem_targets_iff.mpr ⟨_, _, _, hwithin⟩⟩
  | sensitive hprocess hid => exact .inr ⟨.process _, _, hprocess, rfl, hid⟩
  | @connected link hlink hid =>
      rcases hid with rfl | rfl
      · exact .inl ⟨.connection link.source, hlink⟩
      · exact .inr ⟨.connection link.destination, .inl hlink⟩
  | @bound port hbinding =>
      obtain ⟨direction, hdirection⟩ := htracked.ports _ hbinding
      cases direction with
      | input => exact .inl ⟨.port port, hbinding, .inl hdirection⟩
      | output => exact .inr ⟨.port port, hbinding, .inl hdirection⟩
      | inout => exact .inl ⟨.port port, hbinding, .inr hdirection⟩
  | mapped hcomponent hport =>
      obtain ⟨position, hmaps⟩ := exists_maps_iff.mpr ⟨_, hcomponent, _, hport⟩
      exact .inl ⟨.component position, hmaps⟩
  | origin horigin hid => exact .inr ⟨.connection _, .inr ⟨_, horigin, hid⟩⟩

theorem Tracked.signalKind?_eq_none_iff (h : arch.Tracked) {signal : Signal}
    (hsignal : arch.signals.get? signal.id = some signal) :
    Renderer.signalKind? signal = none ↔ ¬ arch.Used signal.id := by
  have hdrivers : arch.driversOf signal.id = signal.drivers := by rw [driversOf, hsignal]; rfl
  have hreaders : arch.readersOf signal.id = signal.readers := by rw [readersOf, hsignal]; rfl
  have hnone : Renderer.signalKind? signal = none ↔ signal.drivers = [] ∧ signal.readers = [] := by
    rw [Renderer.signalKind?]
    cases signal.drivers with
    | nil | cons =>
        cases signal.readers with
        | nil | cons => simp
  rw [hnone, ← hdrivers, ← hreaders, List.eq_nil_iff_forall_not_mem, List.eq_nil_iff_forall_not_mem]
  constructor
  · rintro ⟨hundriven, hunread⟩ hused
    rcases hused.isDriver_or_isReader h with ⟨driver, hdriver⟩ | ⟨reader, hreader⟩
    · exact hundriven driver ((h.drivers driver _).mpr hdriver)
    · exact hunread reader ((h.readers reader _).mpr hreader)
  · intro hunused
    exact ⟨fun driver hmem => hunused (.of_isDriver ((h.drivers driver _).mp hmem)),
      fun reader hmem => hunused (.of_isReader ((h.readers reader _).mp hmem))⟩

end Architecture

namespace Renderer

variable {r s : Renderer}

theorem spares_defaultText (r : Renderer) (default : Option Value) :
    Spares (r.defaultText default) := by
  rw [defaultText.eq_def]
  split
  · split
    · exact (r.spares_valueText _).map
    · exact .ok _
  · exact .ok _

theorem unused_of_declareSignal {id : SignalId} {name : String} (hvhdl : s.dialect = .vhdl)
    (h : s.declareSignal id = .error (.unsupported (.unusedSignal name))) :
    ∃ signal, s.design.arch.signals.get? id = some signal ∧ s.signalName id = .ok name ∧
      signalKind? signal = none := by
  rcases bind_eq_error.mp h with hsignal | ⟨signal, hsignal, h⟩
  · exact absurd hsignal ((s.spares_signal id).ne_error rfl)
  rcases bind_eq_error.mp h with hname | ⟨given, hname, h⟩
  · exact absurd hname ((s.spares_signalName id).ne_error rfl)
  rcases bind_eq_error.mp h with htype | ⟨type, -, h⟩
  · exact absurd htype ((s.spares_typeText _).ne_error rfl)
  rcases bind_eq_error.mp h with hdefault | ⟨default, -, h⟩
  · exact absurd hdefault ((s.spares_defaultText _).ne_error rfl)
  rw [hvhdl, Dialect.signalDeclaration] at h
  refine ⟨signal, signal_eq_ok.mp hsignal, ?_⟩
  split at h
  · cases h
  · cases h
  · rename_i hkind
    obtain rfl := Unsupported.unusedSignal.inj (RenderError.unsupported.inj (Except.error.inj h))
    exact ⟨hname, hkind⟩

theorem used_of_declareSignal {signal : Signal} {line : String} (hvhdl : s.dialect = .vhdl)
    (hsignal : s.design.arch.signals.get? signal.id = some signal)
    (h : s.declareSignal signal.id = .ok line) : signalKind? signal ≠ none := by
  simp only [declareSignal, bind_eq_ok, signal_eq_ok, hvhdl] at h
  obtain ⟨_, hfound, _, -, type, -, default, -, hline⟩ := h
  obtain rfl := Option.some.inj (hsignal.symm.trans hfound)
  intro hkind
  rw [hkind] at hline
  cases hline

-- Every shown signal is declared in a unit that was written.
theorem exists_line_of_architecture {layout : Layout} {text : String} {last : Renderer}
    (hok : r.architecture layout = (.ok text, last)) {signal : Signal}
    (hmem : signal ∈ Rtl.shownSignals r.design.arch) :
    ∃ (named : Renderer) (line : String), named.dialect = r.dialect ∧ named.design = r.design ∧
      named.declareSignal signal.id = .ok line := by
  obtain ⟨entries, types, named, preamble, -, hnames, hpreamble, -, -, -, -⟩ :=
    architecture_eq_ok hok
  obtain ⟨-, shown, hshown, -⟩ := shown_of_nameAll hnames
  obtain ⟨hdialect, hdesign, -, -, -⟩ := follows_nameAll.of_outcome hnames
  simp only [Renderer.preamble, bind_eq_ok, hshown] at hpreamble
  obtain ⟨_, hagain, lines, hlines, -⟩ := hpreamble
  obtain rfl := Except.ok.inj hagain
  have hperm := perm_of_shownSignals hshown
  rw [hdesign] at hperm
  obtain ⟨entry, hentry, rfl⟩ := List.mem_map.mp (hperm.mem_iff.mpr hmem)
  have hall : ∀ entry ∈ shown, ∃ line, named.declareSignal entry.2.id = .ok line :=
    forall_mem_of_forall₂ (mapM_eq_ok.mp hlines) fun entry line h => ⟨line, h⟩
  obtain ⟨line, hline⟩ := hall entry hentry
  exact ⟨named, line, hdialect, hdesign, hline⟩

-- The signal that a unit is rejected for, under the name it was given.
theorem exists_unused_of_architecture {layout : Layout} {name : String} {last : Renderer}
    (hvhdl : r.dialect = .vhdl) (hnumbered : r.design.arch.Numbered)
    (hrejected : r.architecture layout = (.error (.unsupported (.unusedSignal name)), last)) :
    ∃ signal ∈ Rtl.shownSignals r.design.arch, last.signalNames.lookup signal.id = some name ∧
      signalKind? signal = none := by
  rw [architecture_eq] at hrejected
  obtain ⟨hbody, rfl⟩ := Prod.mk.inj hrejected
  obtain ⟨entries, types, named, shown, hnames, hshown, entry, hentry, hcause⟩ :=
    r.opened.exists_declareSignal_of_body layout rfl hbody
  obtain ⟨-, _, hagain, hgiven⟩ := shown_of_nameAll hnames
  obtain rfl := Except.ok.inj (hagain.symm.trans hshown)
  obtain ⟨hdialect, hdesign, -, -, -⟩ := follows_nameAll.of_outcome hnames
  have hmem := (perm_of_shownSignals hshown).mem_iff.mp (List.mem_map_of_mem hentry)
  rw [hdesign] at hmem
  obtain ⟨hsignal, -⟩ := (mem_shownSignals_iff hnumbered).mp hmem
  obtain ⟨signal, hfound, hname, hkind⟩ := unused_of_declareSignal (hdialect.trans hvhdl) hcause
  rw [hdesign] at hfound
  obtain rfl := Option.some.inj (hsignal.symm.trans hfound)
  obtain ⟨given, hlookup⟩ := hgiven entry hentry
  rw [signalName, hlookup] at hname
  obtain rfl := Except.ok.inj hname
  refine ⟨entry.2, hmem, ?_, hkind⟩
  rw [body_of_nameAll hnames, (enters_writeUnit layout entries types named).signalNames]
  exact hlookup

end Renderer

open Renderer

-- A unit in VHDL is rejected for a signal that is not used only if nothing but
-- expressions of statements mentions that signal, and it is never written if there
-- is such a signal.
theorem unused_of_architecture {r : Renderer} (hvhdl : r.dialect = .vhdl)
    (hbuilt : r.design.arch.Built) (layout : Layout) :
    (∀ name last,
      r.architecture layout = (.error (.unsupported (.unusedSignal name)), last) →
      ∃ signal ∈ shownSignals r.design.arch, last.signalNames.lookup signal.id = some name ∧
        ¬ r.design.arch.Used signal.id) ∧
    ∀ signal ∈ shownSignals r.design.arch, ¬ r.design.arch.Used signal.id →
      ∀ text last, r.architecture layout ≠ (.ok text, last) := by
  constructor
  · intro name last hrejected
    obtain ⟨signal, hmem, hname, hkind⟩ :=
      exists_unused_of_architecture hvhdl hbuilt.numbered hrejected
    obtain ⟨hsignal, -⟩ := (mem_shownSignals_iff hbuilt.numbered).mp hmem
    exact ⟨signal, hmem, hname, (hbuilt.tracked.signalKind?_eq_none_iff hsignal).mp hkind⟩
  · intro signal hmem hunused text last hok
    obtain ⟨named, line, hdialect, hdesign, hline⟩ := exists_line_of_architecture hok hmem
    obtain ⟨hsignal, -⟩ := (mem_shownSignals_iff hbuilt.numbered).mp hmem
    refine used_of_declareSignal (hdialect.trans hvhdl) ?_ hline
      ((hbuilt.tracked.signalKind?_eq_none_iff hsignal).mpr hunused)
    rw [hdesign]
    exact hsignal

-- A clocked process that copies a signal when its clock rises. It is sensitive to the
-- clock alone.

def flipFlopSignals : Architecture :=
  let entity := ((Entity.ofName ⟨0⟩).addPort ⟨1⟩ .input ⟨0⟩).2
  let clock := ((Architecture.ofEntity ⟨0⟩ entity).addSignal ⟨1⟩ ⟨0⟩ none).2
  ((clock.addSignal ⟨2⟩ ⟨0⟩ none).2.addSignal ⟨3⟩ ⟨0⟩ none).2

def flipFlop : Architecture :=
  ((flipFlopSignals.bindPort ⟨0⟩ ⟨0⟩).addProcess ⟨4⟩ [⟨0⟩]
    [.branch ⟨0⟩ [.apply .risingEdge [.signal ⟨0⟩] ⟨1⟩]
      [.assign ⟨1⟩ ⟨2⟩ (.signal ⟨1⟩) none true] [] []]).2

theorem built_flipFlop : flipFlop.Built :=
  have hsignals : flipFlopSignals.Built :=
    .addSignal (.addSignal (.addSignal (.new _ (.addPort (.new _) ..)) ..) ..) ..
  .addProcess (.bindPort hsignals (if_pos (by decide))) (if_pos (by decide))

def flipFlopRenderer : Renderer :=
  ofDesign .vhdl ⟨⟨#["top", "clk", "d", "q", "copy"]⟩,
    ((TypeTable.empty.ofWidth 1).2.intern .boolean).2, flipFlop⟩ "ns" (Dialect.vhdl.baseScope [])

theorem unused_flipFlop :
    (∀ name last,
      flipFlopRenderer.architecture roster =
        (.error (.unsupported (.unusedSignal name)), last) →
      ∃ signal ∈ shownSignals flipFlop, last.signalNames.lookup signal.id = some name ∧
        ¬ flipFlop.Used signal.id) ∧
    ∀ signal ∈ shownSignals flipFlop, ¬ flipFlop.Used signal.id →
      ∀ text last, flipFlopRenderer.architecture roster ≠ (.ok text, last) :=
  unused_of_architecture (r := flipFlopRenderer) rfl built_flipFlop roster

-- What is copied counts as unused.
theorem error_flipFlop :
    (flipFlopRenderer.architecture roster).1 = .error (.unsupported (.unusedSignal "d")) ∧
    flipFlop.Built ∧ flipFlop.Evaluates ⟨1⟩ ∧
    (flipFlop.signals.get? ⟨1⟩).map Signal.hidden = some false := by
  refine ⟨by cbv, built_flipFlop, ?_, rfl⟩
  exact ⟨_, List.mem_singleton_self _, .assign ⟨1⟩ ⟨2⟩ (.signal ⟨1⟩) none true,
    .nested List.mem_cons_self List.mem_cons_self (.here List.mem_cons_self), _,
    List.mem_cons_self, List.mem_cons_self⟩

end Rtl
