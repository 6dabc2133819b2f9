import Rtl.Proofs.Rendering.Frames
import Rtl.Proofs.Types.Declared
import Rtl.Proofs.Usage.Bookkeeping
import Rtl.Proofs.Usage.Nesting

namespace Rtl

namespace Architecture

-- A signal that is assigned at some depth of a process, that reads from another one,
-- or that is on an input port or on a port of a component.
inductive Driven (arch : Architecture) (id : SignalId) : Prop
  | assigned {process : Process} {statement : StatementId} {source : Expr}
      {indexes : Option (List Expr)} {onEvent : Bool} (hprocess : process ∈ arch.processes.toList)
      (hwithin : (Statement.assign statement id source indexes onEvent).Within process.body) :
      Driven arch id
  | connected {source : SignalId} (hlink : ⟨id, source⟩ ∈ arch.connections) : Driven arch id
  | bound {port : PortId} (hbinding : (port, id) ∈ arch.portBindings)
      (hdirection : arch.portDirection? port = some .input) : Driven arch id
  | mapped {component : Component} {name : NameId} (hcomponent : component ∈ arch.components)
      (hport : (name, id) ∈ component.portMap) : Driven arch id

-- A signal that another one reads from, that is on an output port, that a process is
-- sensitive to, or that is in what some signal stands for.
inductive Read (arch : Architecture) (id : SignalId) : Prop
  | connected {destination : SignalId} (hlink : ⟨destination, id⟩ ∈ arch.connections) :
      Read arch id
  | bound {port : PortId} (hbinding : (port, id) ∈ arch.portBindings)
      (hdirection : arch.portDirection? port = some .output) : Read arch id
  | sensitive {process : Process} (hprocess : process ∈ arch.processes.toList)
      (hid : id ∈ process.sensitivity) : Read arch id
  | origin {other : SignalId} {origin : Expr} (horigin : arch.origin? other = some origin)
      (hid : id ∈ origin.signals) : Read arch id

-- No signal is on a port that is both input and output.
def Directed (arch : Architecture) : Prop :=
  ∀ binding ∈ arch.portBindings, arch.portDirection? binding.1 ≠ some .inout

variable {arch : Architecture} {id : SignalId}

theorem exists_maps_iff : (∃ position, arch.Maps position id) ↔
    ∃ component ∈ arch.components, ∃ name, (name, id) ∈ component.portMap := by
  constructor
  · rintro ⟨position, component, name, hcomponent, hport⟩
    exact ⟨component, List.mem_of_getElem? hcomponent, name, hport⟩
  · rintro ⟨component, hcomponent, name, hport⟩
    obtain ⟨position, hposition⟩ := List.mem_iff_getElem?.mp hcomponent
    exact ⟨position, component, name, hposition, hport⟩

theorem driven_of_maps {position : Nat} (h : arch.Maps position id) : arch.Driven id := by
  obtain ⟨component, hcomponent, name, hport⟩ := exists_maps_iff.mp ⟨position, h⟩
  exact .mapped hcomponent hport

theorem driven_iff (h : arch.Directed) : arch.Driven id ↔ ∃ driver, arch.IsDriver driver id := by
  constructor
  · intro hdriven
    cases hdriven with
    | assigned hprocess hwithin =>
        exact ⟨.statement _, _, hprocess, Statement.mem_targets_iff.mpr ⟨_, _, _, hwithin⟩⟩
    | connected hlink => exact ⟨.connection _, hlink⟩
    | bound hbinding hdirection => exact ⟨.port _, hbinding, .inl hdirection⟩
    | mapped hcomponent hport =>
        obtain ⟨position, hmaps⟩ := exists_maps_iff.mpr ⟨_, hcomponent, _, hport⟩
        exact ⟨.component position, hmaps⟩
  · rintro ⟨driver, hdriver⟩
    cases driver with
    | port port =>
        obtain ⟨hbinding, hdirection | hdirection⟩ := hdriver
        · exact .bound hbinding hdirection
        · exact absurd hdirection (h _ hbinding)
    | connection source => exact .connected hdriver
    | statement statement =>
        obtain ⟨process, hprocess, htarget⟩ := hdriver
        obtain ⟨source, indexes, onEvent, hwithin⟩ := Statement.mem_targets_iff.mp htarget
        exact .assigned hprocess hwithin
    | component position => exact driven_of_maps hdriver

-- A component counts as a reader too, but what is on it is driven.
theorem read_iff_of_not_driven (h : arch.Directed) (hdriven : ¬ arch.Driven id) :
    arch.Read id ↔ ∃ reader, arch.IsReader reader id := by
  constructor
  · intro hread
    cases hread with
    | connected hlink => exact ⟨.connection _, .inl hlink⟩
    | bound hbinding hdirection => exact ⟨.port _, hbinding, .inl hdirection⟩
    | sensitive hprocess hid => exact ⟨.process _, _, hprocess, rfl, hid⟩
    | origin horigin hid => exact ⟨.connection _, .inr ⟨_, horigin, hid⟩⟩
  · rintro ⟨reader, hreader⟩
    cases reader with
    | port port =>
        obtain ⟨hbinding, hdirection | hdirection⟩ := hreader
        · exact .bound hbinding hdirection
        · exact absurd hdirection (h _ hbinding)
    | connection destination =>
        obtain hlink | ⟨origin, horigin, hid⟩ := hreader
        · exact .connected hlink
        · exact .origin horigin hid
    | process pid =>
        obtain ⟨process, hprocess, -, hid⟩ := hreader
        exact .sensitive hprocess hid
    | component position => exact absurd (driven_of_maps hreader) hdriven

namespace Tracked

variable {signal : Signal}

theorem drivers_isEmpty_iff (h : arch.Tracked) (hdirected : arch.Directed)
    (hsignal : arch.signals.get? signal.id = some signal) :
    signal.drivers.isEmpty = false ↔ arch.Driven signal.id := by
  have hentered : arch.driversOf signal.id = signal.drivers := by rw [driversOf, hsignal]; rfl
  rw [driven_iff hdirected, List.isEmpty_eq_false_iff_exists_mem, ← hentered]
  simp only [h.drivers]

theorem readers_isEmpty_iff (h : arch.Tracked) (hdirected : arch.Directed)
    (hsignal : arch.signals.get? signal.id = some signal) (hdriven : ¬ arch.Driven signal.id) :
    signal.readers.isEmpty = false ↔ arch.Read signal.id := by
  have hentered : arch.readersOf signal.id = signal.readers := by rw [readersOf, hsignal]; rfl
  rw [read_iff_of_not_driven hdirected hdriven, List.isEmpty_eq_false_iff_exists_mem, ← hentered]
  simp only [h.readers]

-- What a signal is declared as.

theorem signalKind?_eq_signal_iff (h : arch.Tracked) (hdirected : arch.Directed)
    (hsignal : arch.signals.get? signal.id = some signal) :
    Renderer.signalKind? signal = some .signal ↔ arch.Driven signal.id := by
  rw [← h.drivers_isEmpty_iff hdirected hsignal, Renderer.signalKind?]
  cases signal.drivers.isEmpty with
  | false => simp
  | true =>
      cases signal.readers.isEmpty with
      | false | true => simp

theorem signalKind?_eq_constant_iff (h : arch.Tracked) (hdirected : arch.Directed)
    (hsignal : arch.signals.get? signal.id = some signal) :
    Renderer.signalKind? signal = some .constant ↔
      ¬ arch.Driven signal.id ∧ arch.Read signal.id := by
  by_cases hdriven : arch.Driven signal.id
  · simp [(h.signalKind?_eq_signal_iff hdirected hsignal).mpr hdriven, hdriven]
  · rw [← h.readers_isEmpty_iff hdirected hsignal hdriven, and_iff_right hdriven,
      Renderer.signalKind?]
    have hnone : signal.drivers.isEmpty = true := by
      simpa using (h.drivers_isEmpty_iff hdirected hsignal).not.mpr hdriven
    cases hreaders : signal.readers.isEmpty with
    | false | true => simp [hnone]

end Tracked

end Architecture

-- The declaration of a signal as a signal or as a constant.
def DeclaredAs (keyword name line : String) : Prop :=
  ∃ type default, line = keyword ++ " " ++ name ++ " : " ++ type ++ default

theorem not_declaredAs_both {name line : String} (hsignal : DeclaredAs "SIGNAL" name line) :
    ¬ DeclaredAs "CONSTANT" name line := by
  rintro ⟨type, default, hconstant⟩
  obtain ⟨_, _, rfl⟩ := hsignal
  have hfirst := congrArg (fun text => text.toList.head?) hconstant
  simp at hfirst

theorem declaredAs_of_signalDeclaration {declaration : SignalDeclaration} {line : String}
    (hok : Dialect.vhdl.signalDeclaration declaration = .ok line) :
    (DeclaredAs "SIGNAL" declaration.name line ↔ declaration.kind = some .signal) ∧
      (DeclaredAs "CONSTANT" declaration.name line ↔ declaration.kind = some .constant) := by
  obtain ⟨name, type, default, kind⟩ := declaration
  simp only [Dialect.signalDeclaration] at hok
  cases kind with
  | none => cases hok
  | some kind =>
      cases kind with
      | signal =>
          have h : DeclaredAs "SIGNAL" name line := ⟨_, _, (Except.ok.inj hok).symm⟩
          exact ⟨iff_of_true h rfl, iff_of_false (not_declaredAs_both h) (by simp)⟩
      | constant =>
          have h : DeclaredAs "CONSTANT" name line := ⟨_, _, (Except.ok.inj hok).symm⟩
          exact ⟨iff_of_false (fun hsignal => not_declaredAs_both hsignal h) (by simp),
            iff_of_true h rfl⟩

namespace Renderer

variable {s : Renderer}

-- A signal on a port that is both input and output cannot be written.
theorem directed_of_connectionTexts {entries : List (PortId × PortPiece)} {texts : List String}
    (hok : s.connectionTexts entries = .ok texts) : s.design.arch.Directed := by
  simp only [connectionTexts, bind_eq_ok] at hok
  obtain ⟨links, -, bindings, hbindings, -⟩ := hok
  refine forall_mem_of_forall₂ (mapM_eq_ok.mp hbindings) fun binding names h hinout => ?_
  simp only [bindingNames] at h
  split at h
  · cases h
  · obtain ⟨signal, -, h⟩ := bind_eq_ok.mp h
    rw [hinout] at h
    cases h

theorem declared_by_use_of_declareSignal {signal : Signal} {name line : String}
    (hvhdl : s.dialect = .vhdl) (htracked : s.design.arch.Tracked)
    (hdirected : s.design.arch.Directed)
    (hsignal : s.design.arch.signals.get? signal.id = some signal)
    (hname : s.signalNames.lookup signal.id = some name)
    (hok : s.declareSignal signal.id = .ok line) :
    (DeclaredAs "SIGNAL" name line ↔ s.design.arch.Driven signal.id) ∧
      (DeclaredAs "CONSTANT" name line ↔
        ¬ s.design.arch.Driven signal.id ∧ s.design.arch.Read signal.id) := by
  simp only [declareSignal, bind_eq_ok, signal_eq_ok, hvhdl] at hok
  obtain ⟨_, hfound, _, hgiven, type, -, default, -, hline⟩ := hok
  obtain rfl := Option.some.inj (hsignal.symm.trans hfound)
  rw [signalName, hname] at hgiven
  obtain rfl := Except.ok.inj hgiven
  obtain ⟨hdriven, hconstant⟩ := declaredAs_of_signalDeclaration hline
  exact ⟨hdriven.trans (htracked.signalKind?_eq_signal_iff hdirected hsignal),
    hconstant.trans (htracked.signalKind?_eq_constant_iff hdirected hsignal)⟩

end Renderer

open Renderer

-- In a unit in VHDL a signal is declared as a signal if something drives it, and as
-- a constant if it is only read.
theorem declared_by_use_of_architecture {r : Renderer} (hvhdl : r.dialect = .vhdl)
    (hbuilt : r.design.arch.Built) {layout : Layout} {text : String} {last : Renderer}
    (hok : r.architecture layout = (.ok text, last)) :
    ∃ (piece : UnitPiece) (signals : List Signal), text = layout (.unit piece) ∧
      signals.Perm (shownSignals r.design.arch) ∧
      List.Forall₂ (fun signal line => ∃ name,
        last.signalNames.lookup signal.id = some name ∧
        (DeclaredAs "SIGNAL" name line ↔ r.design.arch.Driven signal.id) ∧
        (DeclaredAs "CONSTANT" name line ↔
          ¬ r.design.arch.Driven signal.id ∧ r.design.arch.Read signal.id)) signals
        piece.signals := by
  obtain ⟨entries, types, named, preamble, piece, hnames, hpreamble, hlast, htext, -, hsignals⟩ :=
    architecture_eq_ok hok
  obtain ⟨-, shown, hshown, hgiven⟩ := shown_of_nameAll hnames
  obtain ⟨hdialect, hdesign, -, -, -⟩ := follows_nameAll.of_outcome hnames
  have hperm := perm_of_shownSignals hshown
  simp only [Renderer.preamble, bind_eq_ok, hshown] at hpreamble
  obtain ⟨_, hagain, lines, hlines, connections, hconnections, hpreamble⟩ := hpreamble
  obtain rfl := Except.ok.inj hagain
  obtain rfl := Except.ok.inj hpreamble
  -- Naming leaves the design as it is.
  have hdesign : r.design = named.design := hdesign.symm
  rw [hdesign] at hbuilt ⊢
  have hdirected := directed_of_connectionTexts hconnections
  refine ⟨piece, shown.map (·.2), htext, hperm, ?_⟩
  rw [hsignals, hlast, List.forall₂_map_left_iff]
  refine forall₂_of_forall_mem (mapM_eq_ok.mp hlines) fun entry hentry line hline => ?_
  obtain ⟨hsignal, -⟩ := (mem_shownSignals_iff hbuilt.numbered).mp
    (hperm.mem_iff.mp (List.mem_map_of_mem hentry))
  obtain ⟨name, hname⟩ := hgiven entry hentry
  exact ⟨name, hname, declared_by_use_of_declareSignal (hdialect.trans hvhdl) hbuilt.tracked
    hdirected hsignal hname hline⟩

-- A signal on an input port, one that is assigned inside a branch, and one that a
-- process is only sensitive to.

def blinkerSignals : Architecture :=
  let entity := ((Entity.ofName ⟨0⟩).addPort ⟨1⟩ .input ⟨0⟩).2
  let tick := ((Architecture.ofEntity ⟨0⟩ entity).addSignal ⟨2⟩ ⟨0⟩ none).2
  ((tick.addSignal ⟨3⟩ ⟨0⟩ none).2.addSignal ⟨4⟩ ⟨0⟩ none).2

def blinker : Architecture :=
  ((blinkerSignals.bindPort ⟨0⟩ ⟨0⟩).addProcess ⟨5⟩ [⟨0⟩, ⟨2⟩]
    [.branch ⟨0⟩ [.signal ⟨0⟩] [.assign ⟨1⟩ ⟨1⟩ (.signal ⟨0⟩) none false] [] []]).2

theorem built_blinker : blinker.Built :=
  have hsignals : blinkerSignals.Built :=
    .addSignal (.addSignal (.addSignal (.new _ (.addPort (.new _) ..)) ..) ..) ..
  .addProcess (.bindPort hsignals (if_pos (by decide))) (if_pos (by decide))

def blinkerDesign : Design :=
  ⟨⟨#["top", "clk", "tick", "lamp", "rate", "blink"]⟩, (TypeTable.empty.ofWidth 1).2, blinker⟩

def blinkerRenderer : Renderer := ofDesign .vhdl blinkerDesign "ns" (Dialect.vhdl.baseScope [])

theorem roster_blinker :
    ∃ (piece : UnitPiece) (signals : List Signal),
      "clk; SIGNAL lamp : STD_LOGIC; CONSTANT rate : STD_LOGIC; SIGNAL tick : STD_LOGIC; " ++
        "tick <= clk;; blink: rate, tick, " = roster (.unit piece) ∧
      signals.Perm (shownSignals blinker) ∧
      List.Forall₂ (fun signal line => ∃ name,
        (blinkerRenderer.architecture roster).2.signalNames.lookup signal.id = some name ∧
        (DeclaredAs "SIGNAL" name line ↔ blinker.Driven signal.id) ∧
        (DeclaredAs "CONSTANT" name line ↔ ¬ blinker.Driven signal.id ∧ blinker.Read signal.id))
        signals piece.signals :=
  declared_by_use_of_architecture (r := blinkerRenderer) rfl built_blinker (Prod.ext (by cbv) rfl)

end Rtl
