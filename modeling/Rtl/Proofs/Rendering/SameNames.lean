import Rtl.Proofs.Rendering.Frames

namespace Rtl.Renderer

open Pass

def withSignalNames (r : Renderer) (names : List (SignalId × String)) : Renderer :=
  { r with signalNames := names }

-- Two renderers that write a thing that has its name in the same way.
structure SameTexts (r s : Renderer) : Prop where
  dialect : s.dialect = r.dialect
  design : s.design = r.design
  timeUnit : s.timeUnit = r.timeUnit
  typeNames : s.typeNames = r.typeNames
  lookup : ∀ id, s.signalNames.lookup id = r.signalNames.lookup id

-- Two renderers between which there is no difference but in names that they
-- remember and never look up.
structure SameNames (r s : Renderer) : Prop extends SameTexts r s where
  scope : s.scope = r.scope

namespace SameTexts

variable {r s : Renderer}

theorem text (h : SameTexts r s) (id : NameId) : s.text id = r.text id := by
  simp only [Renderer.text, h.design]

theorem signal (h : SameTexts r s) (id : SignalId) : s.signal id = r.signal id := by
  simp only [Renderer.signal, h.design]

theorem type (h : SameTexts r s) (id : TypeId) : s.type id = r.type id := by
  simp only [Renderer.type, h.design]

theorem signalName (h : SameTexts r s) (id : SignalId) : s.signalName id = r.signalName id := by
  simp only [Renderer.signalName, h.lookup, h.signal, h.text]

theorem typeText (h : SameTexts r s) (id : TypeId) : s.typeText id = r.typeText id :=
  typeText_congr h.dialect h.design h.typeNames id

theorem exprType (h : SameTexts r s) (e : Expr) : s.exprType e = r.exprType e := by
  cases e with
  | signal id => simp only [Renderer.exprType, h.signal]
  | literal | apply => rfl

theorem valueText (h : SameTexts r s) (value : Value) : s.valueText value = r.valueText value := by
  simp only [Renderer.valueText, Renderer.labelText, h.type, h.typeText, h.design, h.dialect]

theorem operandText (h : SameTexts r s) (parent : Operator) (index : Nat) (operand : Expr)
    (pending : Pending) :
    s.operandText parent index operand pending = r.operandText parent index operand pending := by
  have hoperator : s.operandOperator? operand = r.operandOperator? operand := by
    cases operand with
    | signal id => simp only [operandOperator?, h.design]
    | literal | apply => rfl
  simp only [Renderer.operandText, h.dialect, hoperator]

theorem conditionPart (h : SameTexts r s) (asBoolean : Bool) (part : Expr) (pending : Pending) :
    s.conditionPart asBoolean part pending = r.conditionPart asBoolean part pending := by
  simp only [Renderer.conditionPart, h.exprType, h.type, h.typeText, h.operandText, h.dialect]

theorem conditionText (h : SameTexts r s) (asBoolean : Bool) (parts : List (Expr × Pending)) :
    s.conditionText asBoolean parts = r.conditionText asBoolean parts := by
  simp only [Renderer.conditionText, h.conditionPart, h.dialect]

theorem applyText (h : SameTexts r s) (op : Operator) (operands : List (Expr × Pending)) :
    s.applyText op operands = r.applyText op operands := by
  simp only [Renderer.applyText, h.conditionText, h.operandText, h.dialect]

mutual

theorem exprWith (h : SameTexts r s) {write write' : SignalId → Except RenderError String}
    (hwrite : ∀ id, write' id = write id) :
    ∀ e : Expr, s.exprWith write' e = r.exprWith write e
  | .signal id => hwrite id
  | .literal value => h.valueText value
  | .apply op operands _ => by
      simp only [Renderer.exprWith, h.exprsWith hwrite operands, h.applyText]

theorem exprsWith (h : SameTexts r s) {write write' : SignalId → Except RenderError String}
    (hwrite : ∀ id, write' id = write id) :
    ∀ es : List Expr, s.exprsWith write' es = r.exprsWith write es
  | [] => rfl
  | e :: rest => by simp only [Renderer.exprsWith, h.exprWith hwrite e, h.exprsWith hwrite rest]

end

theorem signalText (h : SameTexts r s) (depth : Nat) (id : SignalId) :
    s.signalText depth id = r.signalText depth id := by
  induction depth generalizing id with
  | zero => rfl
  | succ depth ih =>
      simp only [Renderer.signalText, h.signal, h.signalName, h.dialect, h.exprWith ih]

theorem exprText (h : SameTexts r s) (e : Expr) : s.exprText e = r.exprText e := by
  simp only [Renderer.exprText, h.design]
  exact h.exprWith (h.signalText _) e

theorem condition (h : SameTexts r s) (asBoolean : Bool) (parts : List Expr) :
    s.condition asBoolean parts = r.condition asBoolean parts := by
  simp only [Renderer.condition, withTexts, h.design, h.exprsWith (h.signalText _),
    h.conditionText]

theorem assignmentText (h : SameTexts r s) (destination : SignalId) (source : Expr)
    (indexes : Option (List Expr)) (onEvent : Bool) :
    s.assignmentText destination source indexes onEvent =
      r.assignmentText destination source indexes onEvent := by
  simp only [Renderer.assignmentText, h.signal, h.exprType, h.signalName, h.exprText, h.typeText,
    h.dialect]

theorem waitText (h : SameTexts r s) (timed : Bool) (duration : Option Nat) :
    s.waitText timed duration = r.waitText timed duration := by
  simp only [Renderer.waitText.eq_def, h.dialect, h.timeUnit]

mutual

theorem statement (h : SameTexts r s) (layout : Layout) :
    ∀ t : Statement, s.statement layout t = r.statement layout t
  | .assign .. => h.assignmentText ..
  | .branch _ condition body elifs otherwise => by
      simp only [Renderer.statement, h.elifs layout elifs, h.condition,
        h.statements layout body, h.statements layout otherwise]
  | .select _ subject cases => by
      simp only [Renderer.statement, h.cases layout cases, h.condition]
  | .wait _ timed duration => h.waitText timed duration

theorem statements (h : SameTexts r s) (layout : Layout) :
    ∀ body : List Statement, s.statements layout body = r.statements layout body
  | [] => rfl
  | t :: rest => by
      simp only [Renderer.statements, h.statement layout t, h.statements layout rest]

theorem elifs (h : SameTexts r s) (layout : Layout) :
    ∀ elifs : List (List Expr × List Statement), s.elifs layout elifs = r.elifs layout elifs
  | [] => rfl
  | (condition, body) :: rest => by
      simp only [Renderer.elifs, h.condition, h.statements layout body, h.elifs layout rest]

theorem cases (h : SameTexts r s) (layout : Layout) :
    ∀ cases : List (Option Expr × List Statement), s.cases layout cases = r.cases layout cases
  | [] => rfl
  | (none, body) :: rest => by
      simp only [Renderer.cases, h.statements layout body, h.cases layout rest]
  | (some key, body) :: rest => by
      simp only [Renderer.cases, h.exprText, h.statements layout body, h.cases layout rest]

end

theorem declareSignal (h : SameTexts r s) (id : SignalId) :
    s.declareSignal id = r.declareSignal id := by
  simp only [Renderer.declareSignal, defaultText, h.signal, h.signalName, h.typeText, h.valueText,
    h.dialect]

theorem named (h : SameTexts r s) {α : Type} (name : α → NameId) (items : List α) :
    s.named name items = r.named name items := by
  simp only [Renderer.named, h.text]

theorem shownSignals (h : SameTexts r s) : s.shownSignals = r.shownSignals :=
  shownSignals_congr h.design

theorem connectionTexts (h : SameTexts r s) (ports : List (PortId × PortPiece)) :
    s.connectionTexts ports = r.connectionTexts ports := by
  have hlinks : s.connectionNames = r.connectionNames := by
    funext link
    simp only [connectionNames, h.signalName]
  have hbindings : s.bindingNames ports = r.bindingNames ports := by
    funext binding
    simp only [bindingNames, h.signalName, h.design]
  simp only [Renderer.connectionTexts, hlinks, hbindings, h.design, h.dialect]

theorem preamble (h : SameTexts r s) (ports : List (PortId × PortPiece)) (types : List String) :
    s.preamble ports types = r.preamble ports types := by
  simp only [Renderer.preamble, h.shownSignals, h.declareSignal, h.connectionTexts]

theorem sortedProcesses (h : SameTexts r s) : s.sortedProcesses = r.sortedProcesses := by
  simp only [Renderer.sortedProcesses, h.named, h.design]

theorem sortedComponents (h : SameTexts r s) : s.sortedComponents = r.sortedComponents := by
  simp only [Renderer.sortedComponents, h.named, h.design]

theorem processText (h : SameTexts r s) (layout : Layout) (name : String) (process : Process) :
    s.processText layout name process = r.processText layout name process := by
  have hnames : s.signalName = r.signalName := funext h.signalName
  simp only [Renderer.processText, hnames, h.statements]

theorem portMapNames (h : SameTexts r s) (portMap : List (NameId × SignalId)) :
    s.portMapNames portMap = r.portMapNames portMap := by
  simp only [Renderer.portMapNames, h.text, h.signalName]

end SameTexts

namespace SameNames

variable {r s : Renderer}

-- The passes that give names to processes and to components.

theorem checkedName (h : SameNames r s) (owner : Owner) (candidate : String) :
    (s.checkedName owner candidate).1 = (r.checkedName owner candidate).1 ∧
      SameNames (r.checkedName owner candidate).2 (s.checkedName owner candidate).2 := by
  simp only [Renderer.checkedName, h.scope]
  exact ⟨trivial, ⟨h.dialect, h.design, h.timeUnit, h.typeNames, h.lookup⟩, rfl⟩

theorem processes (layout : Layout) (sorted : List Process) :
    Relates SameNames Eq (processes layout sorted) (processes layout sorted) := by
  induction sorted with
  | nil => exact relates_pure rfl
  | cons first rest ih =>
      have hfirst : Relates SameNames Eq (process layout first.id) (process layout first.id) := by
        refine .same (fun r s h => by rw [findProcess, findProcess, h.design]) fun found _ => ?_
        refine .same (fun r s h => h.text found.name) fun candidate _ => ?_
        refine .give (fun r s h => h.checkedName _ candidate) fun name => ?_
        exact relates_ask fun r s h => parallel_eq_iff.mpr (h.processText layout name found)
      refine hfirst.bind fun text _ hsame => ih.bind fun texts _ hrest => ?_
      exact relates_pure (congrArg₂ List.cons hsame hrest)

theorem components (position : Nat) (sorted : List (String × Component)) :
    Relates SameNames Eq (components position sorted) (components position sorted) := by
  induction sorted generalizing position with
  | nil => exact relates_pure rfl
  | cons first rest ih =>
      obtain ⟨candidate, component⟩ := first
      refine .give (fun r s h => h.checkedName _ candidate) fun name => ?_
      refine .same (fun r s h => h.portMapNames component.portMap) fun portMap _ => ?_
      refine .same (fun r s h => h.text component.entity) fun entity _ => ?_
      exact (ih _).bind fun pieces _ hsame => relates_pure (congrArg _ hsame)

theorem writeUnit (layout : Layout) (ports : List (PortId × PortPiece)) (types : List String) :
    Relates SameNames Eq (writeUnit layout ports types) (writeUnit layout ports types) := by
  refine .same (fun r s h => h.preamble ports types) fun preamble _ => ?_
  refine .same (fun r s h => h.sortedProcesses) fun sorted _ => ?_
  refine (processes layout sorted).bind fun texts _ htexts => htexts ▸ ?_
  refine .same (fun r s h => h.sortedComponents) fun listed _ => ?_
  refine (components 0 listed).bind fun pieces _ hpieces => hpieces ▸ ?_
  refine .same (fun r s h => ?_) fun entity _ => .same (fun r s h => ?_) fun name _ =>
    relates_pure rfl
  · rw [h.text, h.design]
  · rw [h.text, h.design]

end SameNames

variable {s t : Renderer} {layout : Layout}

theorem Enters.sameTexts (h : s.Enters t) : SameTexts s t :=
  ⟨h.dialect, h.design, h.timeUnit, h.typeNames, fun id => by rw [h.signalNames]⟩

-- What is written of a process, under a name that was made from its own if all were.
def WritesProcess (s : Renderer) (layout : Layout) (made : Prop) (process : Process)
    (text : String) : Prop :=
  ∃ candidate name, s.text process.name = .ok candidate ∧
    (made → Scope.MadeFrom candidate name) ∧ s.processText layout name process = .ok text

theorem WritesProcess.congr (hsame : SameTexts s t) {made later : Prop} (hmade : made → later)
    {process : Process} {text : String} (h : t.WritesProcess layout later process text) :
    s.WritesProcess layout made process text := by
  obtain ⟨candidate, name, hcandidate, hname, htext⟩ := h
  exact ⟨candidate, name, (hsame.text _).symm.trans hcandidate, fun h => hname (hmade h),
    (hsame.processText ..).symm.trans htext⟩

theorem writes_of_processes {sorted : List Process} {texts : List String}
    (hfound : ∀ process ∈ sorted, s.design.arch.processes.get? process.id = some process)
    (hok : processes layout sorted s = (.ok texts, t)) :
    List.Forall₂ (s.WritesProcess layout s.scope.Made) sorted texts := by
  induction sorted generalizing s texts with
  | nil =>
      obtain rfl := Except.ok.inj (Prod.mk.inj hok).1
      exact .nil
  | cons process rest ih =>
      obtain ⟨hhere, hthere⟩ := List.forall_mem_cons.mp hfound
      rw [processes_cons] at hok
      split at hok
      · cases hok
      rename_i text middle hone
      obtain ⟨htexts, rfl⟩ := Prod.mk.inj hok
      obtain ⟨more, hmore, rfl⟩ := map_eq_ok.mp htexts
      simp only [process_eq, findProcess, hhere] at hone
      split at hone
      · cases hone
      rename_i candidate hcandidate
      obtain ⟨htext, rfl⟩ := Prod.mk.inj hone
      have hnext := enters_checkedName (.process process.id) candidate s
      refine .cons ⟨candidate, (s.checkedName (.process process.id) candidate).1, hcandidate, ?_,
        ?_⟩ ?_
      · exact fun hmade => (hmade.checkedName (.process process.id) candidate).1
      · exact (hnext.sameTexts.processText ..).symm.trans htext
      · have hrest := ih (s := (s.checkedName (.process process.id) candidate).2) hthere
          (Prod.ext hmore rfl)
        exact hrest.imp fun _ _ => .congr hnext.sameTexts hnext.made

-- All processes of a unit, as the renderer has the names afterwards.
theorem writes_of_architecture (hprocesses : s.design.arch.processes.Numbered Process.id)
    {text : String} (hok : s.architecture layout = (.ok text, t)) :
    ∃ (piece : UnitPiece) (sorted : List Process), text = layout (.unit piece) ∧
      sorted.Perm s.design.arch.processes.toList ∧
      List.Forall₂ (t.WritesProcess layout s.scope.push.Made) sorted piece.processes := by
  rw [architecture_eq] at hok
  obtain ⟨htext, rfl⟩ := Prod.mk.inj hok
  obtain ⟨entries, types, texts, named, later, _, sorted, piece, hnames, -, hsorted, hwritten,
    hpiece, -, -, -, rfl⟩ := body_eq_ok (Prod.ext htext rfl)
  have hfollows := follows_nameAll.of_outcome hnames
  have hperm := perm_of_sortedProcesses hsorted
  rw [hfollows.design] at hperm
  have hwrites := writes_of_processes (fun process hmem =>
    hfollows.design ▸ hprocesses.get?_of_mem (hperm.mem_iff.mp hmem)) hwritten
  refine ⟨piece, sorted, hpiece, hperm, hwrites.imp fun _ _ => .congr ?_ hfollows.made⟩
  rw [body_of_nameAll hnames]
  have hsame := (enters_writeUnit layout entries types named).sameTexts
  exact ⟨hsame.dialect.symm, hsame.design.symm, hsame.timeUnit.symm, hsame.typeNames.symm,
    fun id => (hsame.lookup id).symm⟩

end Rtl.Renderer
