import Rtl.Proofs.Rendering.Modelled
import Rtl.Proofs.Rendering.Stopping
import Rtl.Workbench

namespace Rtl

namespace Renderer

open Pass

namespace Modelled

variable {r s r' s' : Renderer} {layout layout' : Layout}

-- Passes that give no names to signals.
theorem follow (h : Modelled r s) (hr : r.KeepsSignals r') (hs : s.KeepsSignals s') :
    Modelled r' s' := by
  refine ⟨hs.design.trans (h.design.trans hr.design.symm), hs.dialect.trans h.dialect, ?_⟩
  intro id name hname
  have hsame : s'.signalName id = s.signalName id := by
    simp only [Renderer.signalName, hs.signalNames, Renderer.signal, Renderer.text, hs.design]
  rw [hsame]
  exact h.names id name (hr.signalNames ▸ hname)

theorem checkedName (h : Modelled r s) (owner : Owner) (a b : String) :
    Modelled (r.checkedName owner a).2 (s.checkedName owner b).2 :=
  h.follow (enters_checkedName ..).toKeepsSignals (enters_checkedName ..).toKeepsSignals

theorem nameSignal (h : Modelled r s) (id : SignalId) (a b : String) :
    Modelled (r.nameSignal id a).2 (s.nameSignal id b).2 := by
  refine ⟨h.design, h.dialect, fun other name hname => ?_⟩
  rw [Renderer.nameSignal, List.lookup_cons] at hname
  rw [Renderer.signalName, Renderer.nameSignal, List.lookup_cons]
  cases hsame : other == id with
  | true => exact ⟨_, rfl⟩
  | false =>
      rw [hsame] at hname
      exact h.names other name hname

-- Whatever the two have declared before, the second one gets as far.
theorem declareAll (h : Modelled r s) (id : TypeId) :
    Admits (fun a b => Modelled a.2 b.2) ((Renderer.declareAll id).outcome r)
      ((Renderer.declareAll id).outcome s) := by
  refine ⟨fun ⟨texts, t⟩ ht => ?_⟩
  have hshows : Shows r.design r s := ⟨rfl, h.design⟩
  obtain ⟨texts', u, hu, -⟩ := (alike_declareAll id).exists_outcome hshows ht
  have hkept := keepsSignals_declareAll id
  exact ⟨(texts', u), hu, h.follow (hkept.of_outcome ht) (hkept.of_outcome hu)⟩

-- The pieces of the same ports.
def SamePorts (a b : List (PortId × PortPiece)) : Prop := b.map (·.1) = a.map (·.1)

theorem namePorts (h : Modelled r s) (ports : List Port) :
    Admits (fun a b => SamePorts a.1 b.1 ∧ Modelled a.2 b.2)
      ((Renderer.namePorts ports).outcome r) ((Renderer.namePorts ports).outcome s) := by
  induction ports generalizing r s with
  | nil => exact .ok ⟨rfl, h⟩
  | cons port rest ih =>
      rw [outcome_namePorts_cons, outcome_namePorts_cons, h.text]
      refine .bind_same fun candidate _ => ?_
      have hnext := h.checkedName (.port port.id) candidate candidate
      refine (hnext.typeText port.type).bind fun _ _ _ => (ih hnext).bind fun a b hab => ?_
      exact .ok ⟨congrArg (port.id :: ·) hab.1, hab.2⟩

theorem nameSignals (h : Modelled r s) (shown : List (String × Signal)) :
    Admits (fun a b => Modelled a.2 b.2) ((Renderer.nameSignals shown).outcome r)
      ((Renderer.nameSignals shown).outcome s) := by
  induction shown generalizing r s with
  | nil => exact .ok h
  | cons entry rest ih =>
      obtain ⟨name, signal⟩ := entry
      rw [outcome_nameSignals_cons, outcome_nameSignals_cons]
      refine (h.declareAll signal.type).bind fun a b hab => ?_
      exact (ih (hab.nameSignal signal.id name name)).bind fun c d hcd => .ok hcd

theorem shownSignals (h : Modelled r s) : s.shownSignals = r.shownSignals :=
  shownSignals_congr h.design

theorem nameAll (h : Modelled r s) :
    Admits (fun a b => SamePorts a.1.1 b.1.1 ∧ Modelled a.2 b.2) (Renderer.nameAll.outcome r)
      (Renderer.nameAll.outcome s) := by
  rw [outcome_nameAll, outcome_nameAll, h.design]
  refine (h.namePorts _).bind fun a b ⟨hports, hnext⟩ => ?_
  simp only [hnext.shownSignals]
  refine .bind_same fun shown _ => (hnext.nameSignals shown).bind fun _ _ hlast => ?_
  exact .ok ⟨hports, hlast⟩

-- Only VHDL asks for what a signal is used.
theorem declareSignal (h : Modelled r s) (id : SignalId) :
    Admits AnyTwo (r.declareSignal id) (s.declareSignal id) := by
  have hdefault (default : Option Value) :
      Admits AnyTwo (r.defaultText default) (s.defaultText default) := by
    cases default with
    | none => exact .ok trivial
    | some value =>
        simp only [defaultText]
        split
        · exact (h.valueText value).bind fun _ _ _ => .ok trivial
        · exact .ok trivial
  simp only [Renderer.declareSignal, h.signal, h.dialect]
  refine .bind_same fun signal _ => (h.signalName id).bind fun _ _ _ => ?_
  refine (h.typeText signal.type).bind fun _ _ _ => (hdefault signal.default).bind fun _ _ _ => ?_
  exact .of_ok ⟨_, rfl⟩

theorem connectionNames (h : Modelled r s) (link : Connection) :
    Admits AnyTwo (r.connectionNames link) (s.connectionNames link) :=
  (h.signalName link.destination).bind fun _ _ _ => (h.signalName link.source).bind fun _ _ _ =>
    .ok trivial

theorem bindingNames (h : Modelled r s) {ports ports' : List (PortId × PortPiece)}
    (hports : SamePorts ports ports') (binding : PortId × SignalId) :
    Admits AnyTwo (r.bindingNames ports binding) (s.bindingNames ports' binding) := by
  rw [Renderer.bindingNames, Renderer.bindingNames, h.design]
  cases hport : portName? ports binding.1 with
  | none => exact .error _ _
  | some port =>
      obtain ⟨entry, hentry, hid, -⟩ := exists_mem_of_portName? hport
      have hthere : binding.1 ∈ ports'.map (·.1) := by
        rw [hports, ← hid]
        exact List.mem_map_of_mem hentry
      cases hport' : portName? ports' binding.1 with
      | none => exact absurd hthere (portName?_eq_none_iff.mp hport')
      | some port' =>
          refine (h.signalName binding.2).bind fun _ _ _ => ?_
          cases r.design.arch.portDirection? binding.1 with
          | none => exact .error _ _
          | some direction =>
              cases direction with
              | input | output => exact .ok trivial
              | inout => exact .error _ _

theorem connectionTexts (h : Modelled r s) {ports ports' : List (PortId × PortPiece)}
    (hports : SamePorts ports ports') :
    Admits AnyTwo (r.connectionTexts ports) (s.connectionTexts ports') := by
  rw [Renderer.connectionTexts, Renderer.connectionTexts, h.design]
  refine (Admits.mapM_same h.connectionNames).bind fun _ _ _ => ?_
  exact (Admits.mapM_same (h.bindingNames hports)).bind fun _ _ _ => .ok trivial

theorem preamble (h : Modelled r s) {ports ports' : List (PortId × PortPiece)}
    (hports : SamePorts ports ports') (types types' : List String) :
    Admits AnyTwo (r.preamble ports types) (s.preamble ports' types') := by
  rw [Renderer.preamble, Renderer.preamble, h.shownSignals]
  refine .bind_same fun shown _ => ?_
  have hdeclared (entry : String × Signal) := h.declareSignal entry.2.id
  refine (Admits.mapM_same hdeclared).bind fun _ _ _ => ?_
  exact (h.connectionTexts hports).bind fun _ _ _ => .ok trivial

theorem named (h : Modelled r s) {α : Type} (name : α → NameId) (items : List α) :
    s.named name items = r.named name items := by
  simp only [Renderer.named, h.text]

theorem sortedProcesses (h : Modelled r s) : s.sortedProcesses = r.sortedProcesses := by
  simp only [Renderer.sortedProcesses, h.named, h.design]

theorem sortedComponents (h : Modelled r s) : s.sortedComponents = r.sortedComponents := by
  simp only [Renderer.sortedComponents, h.named, h.design]

theorem processText (h : Modelled r s) (name name' : String) (process : Process) :
    Admits AnyTwo (r.processText layout name process) (s.processText layout' name' process) :=
  (Admits.mapM_same h.signalName).bind fun _ _ _ => (h.statements process.body).bind fun _ _ _ =>
    .ok trivial

theorem process (h : Modelled r s) (id : ProcessId) :
    Admits (fun a b => Modelled a.2 b.2) ((Renderer.process layout id).outcome r)
      ((Renderer.process layout' id).outcome s) := by
  rw [outcome_process, outcome_process, findProcess, findProcess, h.design]
  refine .bind_same fun found _ => ?_
  rw [h.text]
  refine .bind_same fun candidate _ => ?_
  have hnext := h.checkedName (.process id) candidate candidate
  exact (hnext.processText _ _ found).bind fun _ _ _ => .ok hnext

theorem processes (h : Modelled r s) (sorted : List Process) :
    Admits (fun a b => Modelled a.2 b.2) ((Renderer.processes layout sorted).outcome r)
      ((Renderer.processes layout' sorted).outcome s) := by
  induction sorted generalizing r s with
  | nil => exact .ok h
  | cons first rest ih =>
      rw [outcome_processes_cons, outcome_processes_cons]
      exact (h.process first.id).bind fun a b hab => (ih hab).bind fun c d hcd => .ok hcd

theorem portMapNames (h : Modelled r s) (portMap : List (NameId × SignalId)) :
    Admits AnyTwo (r.portMapNames portMap) (s.portMapNames portMap) := by
  simp only [Renderer.portMapNames, h.text]
  refine (Admits.mapM_same (S := AnyTwo) fun entry => ?_).imp fun _ _ _ => trivial
  exact .bind_same fun port _ => (h.signalName entry.2).bind fun _ _ _ => .ok trivial

theorem components (h : Modelled r s) (position : Nat) (sorted : List (String × Component)) :
    Admits (fun a b => Modelled a.2 b.2) ((Renderer.components position sorted).outcome r)
      ((Renderer.components position sorted).outcome s) := by
  induction sorted generalizing r s position with
  | nil => exact .ok h
  | cons first rest ih =>
      obtain ⟨candidate, component⟩ := first
      have hnext := h.checkedName (.component position) candidate candidate
      simp only [outcome_components_cons, hnext.text]
      refine (hnext.portMapNames component.portMap).bind fun _ _ _ => .bind_same fun entity _ => ?_
      exact (ih hnext (position + 1)).bind fun a b hab => .ok hab

theorem unitText (h : Modelled r s) (preamble preamble' : Preamble)
    (processes processes' : List String) :
    Admits AnyTwo ((Renderer.unitText layout preamble processes).outcome r)
      ((Renderer.unitText layout' preamble' processes').outcome s) := by
  rw [outcome_unitText, outcome_unitText, h.sortedComponents]
  refine .bind_same fun sorted _ => ?_
  refine (h.components 0 sorted).bind fun a b hnext => ?_
  simp only [hnext.text, hnext.design]
  exact .bind_same fun entity _ => .bind_same fun architecture _ => .ok trivial

theorem writeUnit (h : Modelled r s) {ports ports' : List (PortId × PortPiece)}
    (hports : SamePorts ports ports') (types types' : List String) :
    Admits AnyTwo ((Renderer.writeUnit layout ports types).outcome r)
      ((Renderer.writeUnit layout' ports' types').outcome s) := by
  rw [outcome_writeUnit, outcome_writeUnit, h.sortedProcesses]
  refine (h.preamble hports types types').bind fun preamble preamble' _ => ?_
  refine .bind_same fun sorted _ => (h.processes sorted).bind fun a b hab => ?_
  exact hab.unitText ..

theorem body (h : Modelled r s) :
    Admits AnyTwo ((Renderer.body layout).outcome r) ((Renderer.body layout').outcome s) := by
  rw [outcome_body, outcome_body]
  exact h.nameAll.bind fun a b ⟨hports, hnext⟩ => hnext.writeUnit hports ..

theorem architecture (h : Modelled r s) :
    Admits AnyTwo (r.architecture layout).1 (s.architecture layout').1 := by
  have hopened : Modelled r.opened s.opened := ⟨h.design, h.dialect, h.names⟩
  rw [architecture_eq, architecture_eq]
  dsimp only
  rw [fst_eq_outcome, fst_eq_outcome]
  exact hopened.body.map _ _

end Modelled

end Renderer

open Renderer

-- Whatever can be written in some dialect, VHDL among them, can be written as a
-- simulator's model: a whole unit under the same settings, and every part of it by
-- renderers that have given whatever names to the parts of the one design.
theorem accepted_by_simModel :
    (∀ (bench : Workbench) (settings : OutputSettings),
      (bench.render settings).isOk = true →
        (bench.render { settings with dialect := .simModel }).isOk = true) ∧
    ∀ r s : Renderer, s.dialect = .simModel → s.design = r.design →
      (∀ id name, r.signalNames.lookup id = some name → ∃ text, s.signalName id = .ok text) →
      (∀ e : Expr, (r.exprText e).isOk = true → (s.exprText e).isOk = true) ∧
      (∀ asBoolean parts, (r.condition asBoolean parts).isOk = true →
        (s.condition asBoolean parts).isOk = true) ∧
      (∀ value : Value, (r.valueText value).isOk = true → (s.valueText value).isOk = true) ∧
      ∀ layout layout' : Layout,
        (∀ t : Statement, (r.statement layout t).isOk = true →
          (s.statement layout' t).isOk = true) ∧
        ((r.architecture layout).1.isOk = true → (s.architecture layout').1.isOk = true) := by
  constructor
  · intro bench settings hok
    have hfresh (scope scope' : Scope) :
        Modelled (ofDesign settings.dialect bench.design settings.timeUnit scope)
          (ofDesign .simModel bench.design settings.timeUnit scope') := ⟨rfl, rfl, nofun⟩
    exact (hfresh ..).architecture.isOk hok
  · intro r s hdialect hdesign hnames
    have h : Modelled r s := ⟨hdesign, hdialect, hnames⟩
    refine ⟨fun e => (h.exprText e).isOk, fun asBoolean parts => (h.condition asBoolean parts).isOk,
      fun value => (h.valueText value).isOk, fun layout layout' => ?_⟩
    exact ⟨fun t => (h.statement t).isOk, h.architecture.isOk⟩

-- A signal that is inverted when it rises.

def toggleStep : Statement :=
  .branch ⟨0⟩ [.apply .risingEdge [.signal ⟨0⟩] ⟨1⟩, .signal ⟨0⟩]
    [.assign ⟨1⟩ ⟨0⟩ (.apply .not [.signal ⟨0⟩] ⟨0⟩) none true] [] []

def toggle : Architecture :=
  let signals := ((Architecture.ofEntity ⟨0⟩ (.ofName ⟨0⟩)).addSignal ⟨1⟩ ⟨0⟩ none).2
  (signals.addProcess ⟨2⟩ [⟨0⟩] [toggleStep]).2

def toggleDesign : Design :=
  ⟨⟨#["top", "tick", "step"]⟩, ⟨⟨#[.bit, .boolean]⟩⟩, toggle⟩

def toggleBench : Workbench := ⟨toggleDesign, .ofSeparator "_", .ofPorts []⟩

theorem toggle_accepted_by_simModel :
    (toggleBench.render { OutputSettings.default with dialect := .simModel }).isOk = true ∧
    ((ofDesign .simModel toggleDesign "ns" (Dialect.simModel.baseScope [])).statement
      (Dialect.simModel.layout "  ") toggleStep).isOk = true := by
  constructor
  · exact accepted_by_simModel.1 toggleBench .default (by decide +kernel)
  · have hparts := accepted_by_simModel.2
      (ofDesign .vhdl toggleDesign "ns" (Dialect.vhdl.baseScope []))
      (ofDesign .simModel toggleDesign "ns" (Dialect.simModel.baseScope [])) rfl rfl nofun
    exact (hparts.2.2.2 (Dialect.vhdl.layout "  ") (Dialect.simModel.layout "  ")).1 toggleStep
      (by decide +kernel)

end Rtl
