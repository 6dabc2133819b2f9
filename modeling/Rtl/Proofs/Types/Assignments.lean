import Rtl.Proofs.Rendering.SameNames
import Rtl.Proofs.Types.Building

namespace Rtl

namespace Architecture

def typeOf? (arch : Architecture) : Expr → Option TypeId
  | .signal id => (arch.signals.get? id).map Signal.type
  | .literal value => some value.type
  | .apply _ _ type => some type

-- The types of the two sides of an assignment.
def sides? (arch : Architecture) : Statement → Option (TypeId × TypeId)
  | .assign _ destination source _ _ => do
      return ((← arch.signals.get? destination).type, ← arch.typeOf? source)
  | _ => none

def Assigns (arch : Architecture) (a b : TypeId) : Prop :=
  ∃ process ∈ arch.processes.toList, ∃ s ∈ Statement.walkAll process.body,
    arch.sides? s = some (a, b)

-- Whether the statement assigns nothing to something of another type.
def Agrees (arch : Architecture) (s : Statement) : Prop :=
  ∀ a b, arch.sides? s = some (a, b) → a = b

end Architecture

namespace Renderer

variable {r s t : Renderer} {layout : Layout}

theorem exprType_eq_ok {e : Expr} {type : TypeId} :
    r.exprType e = .ok type ↔ r.design.arch.typeOf? e = some type := by
  cases e with
  | signal id =>
      simp only [exprType, bind_eq_ok, signal_eq_ok, Architecture.typeOf?, Option.map_eq_some_iff]
      exact exists_congr fun _ => and_congr_right fun _ => ⟨Except.ok.inj, congrArg _⟩
  | literal | apply =>
      exact ⟨fun h => congrArg some (Except.ok.inj h), fun h => congrArg _ (Option.some.inj h)⟩

theorem assignmentText_agrees {id : StatementId} {destination : SignalId} {source : Expr}
    {indexes : Option (List Expr)} {onEvent : Bool} {text : String}
    (h : r.assignmentText destination source indexes onEvent = .ok text) :
    r.design.arch.Agrees (.assign id destination source indexes onEvent) := by
  simp only [assignmentText, bind_eq_ok, signal_eq_ok, exprType_eq_ok] at h
  obtain ⟨signal, hsignal, valueType, hvalue, target, -, value, -, h⟩ := h
  intro a b hsides
  simp only [Architecture.sides?, hsignal, hvalue] at hsides
  obtain ⟨rfl, rfl⟩ := Prod.mk.inj (Option.some.inj hsides)
  by_contra hne
  rw [if_pos hne] at h
  obtain ⟨_, -, h⟩ := bind_eq_ok.mp h
  obtain ⟨_, -, h⟩ := bind_eq_ok.mp h
  cases h

mutual

-- What is written of a statement was checked at every depth.
theorem statement_agrees : ∀ (u : Statement) (text : String), r.statement layout u = .ok text →
    ∀ inner ∈ u.walk, r.design.arch.Agrees inner
  | .assign .., _, h => List.forall_mem_singleton.mpr (assignmentText_agrees h)
  | .branch _ condition body elifs otherwise, _, h => by
      obtain ⟨_, helifs, h⟩ := bind_eq_ok.mp h
      obtain ⟨_, -, h⟩ := bind_eq_ok.mp h
      obtain ⟨_, hbody, h⟩ := bind_eq_ok.mp h
      obtain ⟨_, hother, -⟩ := bind_eq_ok.mp h
      refine List.forall_mem_cons.mpr ⟨nofun, List.forall_mem_append.mpr ⟨?_, ?_⟩⟩
      · exact List.forall_mem_append.mpr
          ⟨statements_agrees body _ hbody, elifs_agrees elifs _ helifs⟩
      · exact statements_agrees otherwise _ hother
  | .select _ subject cases, _, h => by
      obtain ⟨_, hcases, -⟩ := bind_eq_ok.mp h
      exact List.forall_mem_cons.mpr ⟨nofun, cases_agrees cases _ hcases⟩
  | .wait .., _, _ => List.forall_mem_singleton.mpr nofun

theorem statements_agrees : ∀ (body : List Statement) (texts : List String),
    r.statements layout body = .ok texts →
    ∀ inner ∈ Statement.walkAll body, r.design.arch.Agrees inner
  | [], _, _ => nofun
  | u :: rest, _, h => by
      obtain ⟨_, hfirst, h⟩ := bind_eq_ok.mp h
      obtain ⟨_, hrest, -⟩ := bind_eq_ok.mp h
      exact List.forall_mem_append.mpr
        ⟨statement_agrees u _ hfirst, statements_agrees rest _ hrest⟩

theorem elifs_agrees : ∀ (elifs : List (List Expr × List Statement))
    (texts : List (String × List String)), r.elifs layout elifs = .ok texts →
    ∀ inner ∈ Statement.walkElifs elifs, r.design.arch.Agrees inner
  | [], _, _ => nofun
  | (condition, body) :: rest, _, h => by
      obtain ⟨_, -, h⟩ := bind_eq_ok.mp h
      obtain ⟨_, hbody, h⟩ := bind_eq_ok.mp h
      obtain ⟨_, hrest, -⟩ := bind_eq_ok.mp h
      exact List.forall_mem_append.mpr
        ⟨statements_agrees body _ hbody, elifs_agrees rest _ hrest⟩

theorem cases_agrees : ∀ (cases : List (Option Expr × List Statement))
    (texts : List (Option String × List String)), r.cases layout cases = .ok texts →
    ∀ inner ∈ Statement.walkCases cases, r.design.arch.Agrees inner
  | [], _, _ => nofun
  | (none, body) :: rest, _, h => by
      obtain ⟨_, hbody, h⟩ := bind_eq_ok.mp h
      obtain ⟨_, hrest, -⟩ := bind_eq_ok.mp h
      exact List.forall_mem_append.mpr
        ⟨statements_agrees body _ hbody, cases_agrees rest _ hrest⟩
  | (some key, body) :: rest, _, h => by
      obtain ⟨_, -, h⟩ := bind_eq_ok.mp h
      obtain ⟨_, hbody, h⟩ := bind_eq_ok.mp h
      obtain ⟨_, hrest, -⟩ := bind_eq_ok.mp h
      exact List.forall_mem_append.mpr
        ⟨statements_agrees body _ hbody, cases_agrees rest _ hrest⟩

end

theorem body_agrees {text : String} (hprocesses : s.design.arch.processes.Numbered Process.id)
    (hok : body layout s = (.ok text, t)) {a b : TypeId} (h : s.design.arch.Assigns a b) :
    a = b := by
  obtain ⟨_, _, _, named, _, _, sorted, _, hnames, -, hsorted, hwritten, -⟩ := body_eq_ok hok
  have hdesign := design_nameAll hnames
  have hperm := perm_of_sortedProcesses hsorted
  rw [hdesign] at hperm
  have hwrites := writes_of_processes (fun process hmem =>
    hdesign ▸ hprocesses.get?_of_mem (hperm.mem_iff.mp hmem)) hwritten
  obtain ⟨process, hprocess, u, hu, hsides⟩ := h
  obtain ⟨_, -, _, name, -, -, htext⟩ :=
    exists_mem_of_forall₂ hwrites.flip (hperm.mem_iff.mpr hprocess)
  simp only [processText, bind_eq_ok] at htext
  obtain ⟨_, -, lines, hlines, -⟩ := htext
  exact statements_agrees process.body lines hlines u hu a b (hdesign ▸ hsides)

end Renderer

open Renderer

namespace Workbench

-- In a unit that was built and could be written the two sides of each assignment
-- have one type. Those of connections, of ports and of defaults have exactly if
-- each command that joined them was given what fits.
theorem uniform_iff_fits_of_architecture {design : Design} {name : NameId} {entity : Entity}
    (harch : design.arch = .ofEntity name entity) (htyped : entity.Typed design.types)
    {separator : String} {ports : List (String × Direction)} {bench : Workbench}
    (hbuilt : Building (fun _ _ => True) (unclaimedPorts design separator ports) bench)
    {dialect : Dialect} {scope : Scope} {timeUnit text : String} {layout : Layout}
    {last : Renderer}
    (hok : (ofDesign dialect bench.design timeUnit scope).architecture layout = (.ok text, last)) :
    (∀ a b, bench.design.arch.Assigns a b → a = b) ∧
      ((∀ a b, bench.design.arch.Joins a b → a = b) ↔
        Building Fits (unclaimedPorts design separator ports) bench) := by
  have hstart := sound_unclaimedPorts separator ports harch htyped
  have huniform := uniform_unclaimedPorts separator ports harch
  have hbody : (body layout (ofDesign dialect bench.design timeUnit scope.push)).1 = .ok text :=
    congrArg Prod.fst hok
  refine ⟨fun a b => ?_, uniform_iff_fits hbuilt hstart huniform⟩
  exact body_agrees (s := ofDesign dialect bench.design timeUnit scope.push)
    (sound_of_building hbuilt hstart).processes (Prod.ext hbody rfl)

-- A port of four bits that an interface with eight bits of data is found on. Ports
-- are found by name, and nothing compares the widths when the signal is bound.

def bus : InterfaceClass := .mk "bus" [] [.leaf "data" .output 8]

def busPort : Workbench := ofPorts .default "top" [⟨"m_data", .input, 4⟩]

def onBus : Workbench :=
  (busPort.obeyAll? [.interface (.extractAll bus), .interface (.materialize ⟨0⟩ "m")]).get
    (by decide +kernel)

theorem roster_onBus :
    (∀ a b, onBus.design.arch.Assigns a b → a = b) ∧
      ((∀ a b, onBus.design.arch.Joins a b → a = b) ↔ Building Fits busPort onBus) := by
  have hwritten : ((ofDesign .vhdl onBus.design "ns" (Dialect.vhdl.baseScope [])).architecture
      roster).1 =
      .ok "m_data; SIGNAL m_data_0 : STD_LOGIC_VECTOR(7 DOWNTO 0); m_data_0 <= m_data;" := by
    decide +kernel
  exact uniform_iff_fits_of_architecture rfl
    (typed_ofPorts .default "top" [⟨"m_data", .input, 4⟩])
    (building_obeyAll? .start (Option.some_get _).symm) (Prod.ext hwritten rfl)

theorem text_onBus :
    onBus.render .default = .ok (Layout.joinLines
      ["ENTITY top IS",
       "    PORT (",
       "        m_data : IN STD_LOGIC_VECTOR(3 DOWNTO 0)",
       "    );",
       "END ENTITY top;",
       "",
       "ARCHITECTURE rtl OF top IS",
       "    SIGNAL m_data_0 : STD_LOGIC_VECTOR(7 DOWNTO 0);",
       "BEGIN",
       "    m_data_0 <= m_data;",
       "END ARCHITECTURE rtl;"]) ∧
    ¬ ∀ a b, onBus.design.arch.Joins a b → a = b := by
  have hport : (onBus.design.arch.entity.ports.get? ⟨0⟩).map Port.type = some ⟨0⟩ := by
    decide +kernel
  have hsignal : (onBus.design.arch.signals.get? ⟨0⟩).map Signal.type = some ⟨1⟩ := by
    decide +kernel
  have hbinding : (⟨0⟩, ⟨0⟩) ∈ onBus.design.arch.portBindings := by decide +kernel
  obtain ⟨port, hport, hfour⟩ := Option.map_eq_some_iff.mp hport
  obtain ⟨signal, hsignal, height⟩ := Option.map_eq_some_iff.mp hsignal
  refine ⟨by decide +kernel, fun hall => ?_⟩
  have hsame := hall _ _ (.port hbinding hport hsignal)
  rw [hfour, height] at hsame
  exact absurd hsame (by decide)

end Workbench

end Rtl
