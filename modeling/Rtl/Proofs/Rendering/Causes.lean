import Rtl.Proofs.Outcome
import Rtl.Proofs.Rendering.Passes
import Rtl.Render.Architecture

namespace Rtl

def RenderError.isUnused : RenderError → Bool
  | .unsupported (.unusedSignal _) => true
  | _ => false

-- A computation that does not fail for a signal that is not used.
structure Spares {α : Type} (x : Except RenderError α) : Prop where
  isUnused : ∀ cause, x = .error cause → cause.isUnused = false

namespace Spares

variable {α β : Type} {x : Except RenderError α}

theorem ok (a : α) : Spares (.ok a : Except RenderError α) := ⟨nofun⟩

theorem error {cause : RenderError} (h : cause.isUnused = false) :
    Spares (.error cause : Except RenderError α) :=
  ⟨fun _ hcause => Except.error.inj hcause ▸ h⟩

theorem bind {f : α → Except RenderError β} (h : Spares x) (hnext : ∀ a, Spares (f a)) :
    Spares (x >>= f) := by
  cases x with
  | error cause => exact error (h.isUnused cause rfl)
  | ok a => exact hnext a

theorem map {f : α → β} (h : Spares x) : Spares (f <$> x) := by
  cases x with
  | error cause => exact error (h.isUnused cause rfl)
  | ok a => exact ok (f a)

theorem mapM {f : α → Except RenderError β} {items : List α} (h : ∀ item ∈ items, Spares (f item)) :
    Spares (items.mapM f) := by
  induction items with
  | nil => exact ok []
  | cons item rest ih =>
      obtain ⟨hfirst, hrest⟩ := List.forall_mem_cons.mp h
      rw [List.mapM_cons]
      exact hfirst.bind fun _ => (ih hrest).bind fun _ => ok _

end Spares

theorem Spares.ne_error {α : Type} {x : Except RenderError α} (h : Spares x) {cause : RenderError}
    (hunused : cause.isUnused = true) : x ≠ .error cause := by
  intro hx
  rw [h.isUnused cause hx] at hunused
  cases hunused

-- Where a failure came from.

theorem bind_eq_error {ε α β : Type} {x : Except ε α} {f : α → Except ε β} {cause : ε} :
    (x >>= f) = .error cause ↔ x = .error cause ∨ ∃ a, x = .ok a ∧ f a = .error cause := by
  cases x with
  | error other => simp [bind, Except.bind]
  | ok a => simp [bind, Except.bind]

theorem exists_mem_of_mapM_eq_error {ε α β : Type} {f : α → Except ε β} {items : List α} {cause : ε}
    (h : items.mapM f = .error cause) : ∃ item ∈ items, f item = .error cause := by
  induction items with
  | nil => cases h
  | cons item rest ih =>
      rw [List.mapM_cons, bind_eq_error] at h
      rcases h with hfirst | ⟨_, -, h⟩
      · exact ⟨item, List.mem_cons_self, hfirst⟩
      · rcases bind_eq_error.mp h with hrest | ⟨_, -, h⟩
        · obtain ⟨other, hother, hcause⟩ := ih hrest
          exact ⟨other, List.mem_cons_of_mem _ hother, hcause⟩
        · cases h

theorem LogicVec.spares_bitString (v : LogicVec) : Spares v.bitString := by
  rw [bitString]
  split
  · split
    · exact .ok _
    · exact .error rfl
  · exact .ok _

namespace Operands

variable (operands : List String)

theorem spares_unary (write : String → String) : Spares (unary operands write) := by
  cases operands with
  | nil => exact .error rfl
  | cons a rest => exact .ok _

theorem spares_call : Spares (call operands) := by
  cases operands with
  | nil => exact .error rfl
  | cons a rest => exact .ok _

theorem spares_binary (write : String → String → String) : Spares (binary operands write) := by
  rw [binary.eq_def]
  split
  · exact .ok _
  · exact .error rfl

theorem spares_ternary (write : String → String → String → String) :
    Spares (ternary operands write) := by
  rw [ternary.eq_def]
  split
  · exact .ok _
  · exact .error rfl

end Operands

theorem Dialect.spares_operator (dialect : Dialect) (op : Operator) (operands : List String) :
    Spares (dialect.operator op operands) := by
  cases dialect with
  | vhdl =>
      cases op with
      | not | event | risingEdge | fallingEdge | asSigned | asUnsigned | asVector =>
          exact Operands.spares_unary ..
      | index => exact Operands.spares_binary ..
      | call => exact Operands.spares_call _
      | ternary => exact .error rfl
      | _ => exact .ok _
  | simModel =>
      cases op with
      | not | event | risingEdge | fallingEdge | asSigned | asUnsigned | asVector =>
          exact Operands.spares_unary ..
      | concat | eq | index | pow => exact Operands.spares_binary ..
      | call => exact Operands.spares_call _
      | ternary => exact Operands.spares_ternary ..
      | _ => exact .ok _

theorem Dialect.spares_undefined (dialect : Dialect) (type : String) :
    Spares (dialect.undefined type) := by
  cases dialect with
  | vhdl => exact .error rfl
  | simModel => exact .ok _

namespace Renderer

variable (r : Renderer) (layout : Layout)

theorem spares_text (id : NameId) : Spares (r.text id) := by
  rw [text]
  split
  · exact .ok _
  · exact .error rfl

theorem spares_signal (id : SignalId) : Spares (r.signal id) := by
  rw [signal]
  split
  · exact .ok _
  · exact .error rfl

theorem spares_type (id : TypeId) : Spares (r.type id) := by
  rw [type]
  split
  · exact .ok _
  · exact .error rfl

theorem spares_signalName (id : SignalId) : Spares (r.signalName id) := by
  rw [signalName]
  split
  · exact .ok _
  · exact (r.spares_signal id).bind fun _ => r.spares_text _

theorem spares_typeText (id : TypeId) : Spares (r.typeText id) := by
  refine (r.spares_type id).bind fun type => ?_
  cases type with
  | bits | boolean | integer | text | enumeration | array => exact .ok _

theorem spares_exprType (e : Expr) : Spares (r.exprType e) := by
  cases e with
  | signal id => exact (r.spares_signal id).bind fun _ => .ok _
  | literal | apply => exact .ok _

-- A failure that mentions a type.
theorem spares_typeText_throw {α : Type} (id : TypeId) {cause : String → RenderError}
    (h : ∀ text, (cause text).isUnused = false) :
    Spares (do throw (cause (← r.typeText id)) : Except RenderError α) :=
  (r.spares_typeText id).bind fun text => .error (h text)

theorem spares_bitsText (type : HwType) (vector : LogicVec) : Spares (bitsText type vector) := by
  have hbits : Spares (if type.isScalarBit then .ok (LogicVec.bitLiteral (vector.bit 0))
      else vector.bitString) := by
    split
    · exact .ok _
    · exact vector.spares_bitString
  rw [bitsText.eq_def]
  split
  · rw [LogicVec.signedLiteral]
    split
    · exact .ok _
    · exact .error rfl
  · rw [LogicVec.unsignedLiteral]
    split
    · exact .ok _
    · exact .error rfl
  · exact hbits

theorem spares_labelText (id : TypeId) (type : HwType) (index : Nat) :
    Spares (r.labelText id type index) := by
  rw [labelText.eq_def]
  split
  · split
    · exact .ok _
    · exact r.spares_typeText_throw id fun _ => rfl
  · exact r.spares_typeText_throw id fun _ => rfl

theorem spares_valueText (value : Value) : Spares (r.valueText value) := by
  have hundefined : Spares (do r.dialect.undefined (← r.typeText value.type)) :=
    (r.spares_typeText _).bind fun text => r.dialect.spares_undefined text
  refine (r.spares_type value.type).bind fun type => ?_
  split
  · split
    · exact .error rfl
    · split
      · exact spares_bitsText ..
      · exact r.spares_typeText_throw _ fun _ => rfl
  · exact .ok _
  · exact .ok _
  · exact .ok _
  · exact r.spares_labelText ..
  · exact hundefined
  · exact hundefined
  · exact hundefined
  · exact hundefined

variable {parent : Operator} {part : Expr} {pending : Pending}

theorem spares_operandText (index : Nat) (h : Spares (pending ())) :
    Spares (r.operandText parent index part pending) := by
  refine h.bind fun text => ?_
  split
  · exact .ok _
  · split
    · exact .ok _
    · exact .ok _

theorem spares_conditionPart (asBoolean : Bool) (h : Spares (pending ())) :
    Spares (r.conditionPart asBoolean part pending) := by
  rw [conditionPart]
  split
  · exact h
  · refine (r.spares_exprType part).bind fun id => (r.spares_type id).bind fun type => ?_
    split
    · exact h
    · split
      · exact (r.spares_operandText 0 h).bind fun _ => r.dialect.spares_operator ..
      · refine (LogicVec.spares_bitString _).bind fun zeros => ?_
        exact (r.spares_operandText 0 h).bind fun _ => r.dialect.spares_operator ..
    · exact r.spares_typeText_throw id fun _ => rfl

variable {pairs : List (Expr × Pending)}

theorem spares_conditionText (asBoolean : Bool) (h : ∀ pair ∈ pairs, Spares (pair.2 ())) :
    Spares (r.conditionText asBoolean pairs) := by
  have htexts : Spares (do
      let texts ← pairs.mapM fun pair => do
        let text ← r.conditionPart asBoolean pair.1 pair.2
        return if 1 < pairs.length && mixesWithAnd pair.1 then parenthesize text else text
      return String.intercalate r.dialect.logicalAnd texts) := by
    refine Spares.bind (.mapM fun pair hpair => ?_) fun _ => .ok _
    exact (r.spares_conditionPart asBoolean (h pair hpair)).bind fun _ => .ok _
  rw [conditionText]
  split
  · exact .error rfl
  · exact htexts

theorem spares_applyText (op : Operator) (h : ∀ pair ∈ pairs, Spares (pair.2 ())) :
    Spares (r.applyText op pairs) := by
  have hplain {rest : List (Expr × Pending)} (hrest : ∀ pair ∈ rest, Spares (pair.2 ())) :
      Spares (rest.mapM fun pair => pair.2 ()) := .mapM hrest
  have hplaced (rest : List (Expr × Pending)) (position : Nat → Nat)
      (hrest : ∀ pair ∈ rest, Spares (pair.2 ())) :
      Spares (rest.zipIdx.mapM fun entry =>
        r.operandText op (position entry.2) entry.1.1 entry.1.2) :=
    .mapM fun entry hentry => r.spares_operandText _ (hrest _ (List.fst_mem_of_mem_zipIdx hentry))
  simp only [applyText]
  split
  · exact .error rfl
  have hlast (texts : List String) : Spares (r.dialect.operator op texts) :=
    r.dialect.spares_operator op texts
  split
  · exact (hplain (List.forall_mem_cons.mp h).2).bind fun _ => hlast _
  · exact .error rfl
  · exact (hplain h).bind hlast
  · obtain ⟨hfirst, hrest⟩ := List.forall_mem_cons.mp h
    refine (r.spares_conditionText true (List.forall_mem_singleton.mpr hfirst)).bind fun test => ?_
    exact (hplaced _ (· + 1) hrest).bind fun _ => hlast _
  · exact (hplaced pairs id h).bind hlast

mutual

theorem spares_exprWith {write : SignalId → Except RenderError String}
    (h : ∀ id, Spares (write id)) : ∀ e : Expr, Spares (r.exprWith write e)
  | .signal id => h id
  | .literal value => r.spares_valueText value
  | .apply op operands _ => r.spares_applyText op (spares_exprsWith h operands)

theorem spares_exprsWith {write : SignalId → Except RenderError String}
    (h : ∀ id, Spares (write id)) :
    ∀ (es : List Expr), ∀ pair ∈ r.exprsWith write es, Spares (pair.2 ())
  | [] => nofun
  | e :: rest => List.forall_mem_cons.mpr ⟨spares_exprWith h e, spares_exprsWith h rest⟩

end

theorem spares_signalText (depth : Nat) (id : SignalId) : Spares (r.signalText depth id) := by
  induction depth generalizing id with
  | zero => exact .error rfl
  | succ depth ih =>
      refine (r.spares_signal id).bind fun signal => ?_
      split
      · exact r.spares_exprWith ih _
      · exact (r.spares_signalName id).bind fun _ => .ok _

theorem spares_exprText (e : Expr) : Spares (r.exprText e) :=
  r.spares_exprWith (r.spares_signalText _) e

theorem spares_condition (asBoolean : Bool) (parts : List Expr) :
    Spares (r.condition asBoolean parts) :=
  r.spares_conditionText asBoolean (r.spares_exprsWith (r.spares_signalText _) parts)

theorem spares_assignmentText (destination : SignalId) (source : Expr)
    (indexes : Option (List Expr)) (onEvent : Bool) :
    Spares (r.assignmentText destination source indexes onEvent) := by
  refine (r.spares_signal destination).bind fun signal => ?_
  refine (r.spares_exprType source).bind fun type => ?_
  refine (r.spares_signalName destination).bind fun name => ?_
  refine (r.spares_exprText source).bind fun value => ?_
  by_cases hsame : signal.type ≠ type
  · rw [if_pos hsame]
    exact (r.spares_typeText _).bind fun _ => (r.spares_typeText _).bind fun _ => .error rfl
  · rw [if_neg hsame]
    split
    · exact .error rfl
    · exact .ok _

theorem spares_waitText (timed : Bool) (duration : Option Nat) :
    Spares (r.waitText timed duration) := by
  rw [waitText.eq_def]
  split
  · exact .ok _
  · exact .ok _
  · exact .error rfl
  · exact .error rfl

mutual

theorem spares_statement : ∀ s : Statement, Spares (r.statement layout s)
  | .assign .. => r.spares_assignmentText ..
  | .branch _ condition body elifs otherwise =>
      (spares_elifs elifs).bind fun _ => (r.spares_condition true condition).bind fun _ =>
        (spares_statements body).bind fun _ => (spares_statements otherwise).bind fun _ => .ok _
  | .select _ subject cases =>
      (spares_cases cases).bind fun _ => (r.spares_condition false [subject]).bind fun _ => .ok _
  | .wait _ timed duration => r.spares_waitText timed duration

theorem spares_statements : ∀ body : List Statement, Spares (r.statements layout body)
  | [] => .ok _
  | s :: rest => (spares_statement s).bind fun _ => (spares_statements rest).bind fun _ => .ok _

theorem spares_elifs : ∀ elifs : List (List Expr × List Statement), Spares (r.elifs layout elifs)
  | [] => .ok _
  | (condition, body) :: rest =>
      (r.spares_condition true condition).bind fun _ =>
        (spares_statements body).bind fun _ => (spares_elifs rest).bind fun _ => .ok _

theorem spares_cases : ∀ cases : List (Option Expr × List Statement), Spares (r.cases layout cases)
  | [] => .ok _
  | (none, body) :: rest =>
      (spares_statements body).bind fun _ => (spares_cases rest).bind fun _ => .ok _
  | (some key, body) :: rest =>
      (r.spares_exprText key).bind fun _ =>
        (spares_statements body).bind fun _ => (spares_cases rest).bind fun _ => .ok _

end

-- The passes over the parts of a unit.

theorem spares_named {α : Type} (name : α → NameId) (items : List α) :
    Spares (r.named name items) :=
  .mapM fun _ _ => (r.spares_text _).bind fun _ => .ok _

theorem spares_shownSignals : Spares r.shownSignals := (r.spares_named ..).bind fun _ => .ok _

theorem spares_sortedProcesses : Spares r.sortedProcesses :=
  (r.spares_named ..).bind fun _ => .ok _

theorem spares_sortedComponents : Spares r.sortedComponents :=
  (r.spares_named ..).bind fun _ => .ok _

theorem spares_namePorts (ports : List Port) : Spares ((namePorts ports).outcome r) := by
  induction ports generalizing r with
  | nil => exact .ok _
  | cons port rest ih =>
      rw [outcome_namePorts_cons]
      refine (r.spares_text port.name).bind fun candidate => ?_
      exact (spares_typeText _ _).bind fun _ => (ih _).bind fun _ => .ok _

theorem spares_declareType (id : TypeId) : Spares ((declareType id).outcome r) := by
  rw [outcome_declareType]
  split
  · exact .ok _
  · refine (r.spares_type id).bind fun type => ?_
    split
    · exact .ok _
    · exact (spares_typeText _ _).bind fun _ => .ok _
    · exact r.spares_typeText_throw id fun _ => rfl

theorem spares_declareWithin (depth : Nat) (id : TypeId) :
    Spares ((declareWithin depth id).outcome r) := by
  induction depth generalizing id r with
  | zero => exact .error rfl
  | succ depth ih =>
      rw [outcome_declareWithin_succ]
      refine (r.spares_type id).bind fun type => ?_
      split
      · exact (r.spares_declareType id).bind fun _ => .ok _
      · exact (ih r _).bind fun _ => (spares_declareType _ id).bind fun _ => .ok _
      · exact .ok _

theorem spares_nameSignals (shown : List (String × Signal)) :
    Spares ((nameSignals shown).outcome r) := by
  induction shown generalizing r with
  | nil => exact .ok _
  | cons entry rest ih =>
      rw [outcome_nameSignals_cons]
      exact (r.spares_declareWithin _ _).bind fun _ => (ih _).bind fun _ => .ok _

theorem spares_nameAll : Spares (nameAll.outcome r) := by
  rw [outcome_nameAll]
  exact (r.spares_namePorts _).bind fun _ => (spares_shownSignals _).bind fun _ =>
    (spares_nameSignals _ _).bind fun _ => .ok _

theorem spares_bindingNames (ports : List (PortId × PortPiece)) (binding : PortId × SignalId) :
    Spares (r.bindingNames ports binding) := by
  rw [bindingNames]
  split
  · exact .error rfl
  · refine (r.spares_signalName binding.2).bind fun signal => ?_
    split
    · exact .error rfl
    · exact .ok _
    · exact .ok _
    · exact .error rfl

theorem spares_connectionTexts (ports : List (PortId × PortPiece)) :
    Spares (r.connectionTexts ports) := by
  have hlinks : Spares (r.design.arch.connections.mapM r.connectionNames) :=
    .mapM fun _ _ => (r.spares_signalName _).bind fun _ =>
      (r.spares_signalName _).bind fun _ => .ok _
  exact hlinks.bind fun _ => (Spares.mapM fun _ _ => r.spares_bindingNames ..).bind fun _ => .ok _

theorem spares_process (id : ProcessId) : Spares ((process layout id).outcome r) := by
  have hfound : Spares (r.findProcess id) := by
    rw [findProcess]
    split
    · exact .ok _
    · exact .error rfl
  rw [outcome_process]
  refine hfound.bind fun found => (r.spares_text _).bind fun candidate => ?_
  refine Spares.bind ?_ fun _ => .ok _
  refine Spares.bind (.mapM fun _ _ => spares_signalName ..) fun _ => ?_
  exact (spares_statements ..).bind fun _ => .ok _

theorem spares_processes (sorted : List Process) :
    Spares ((processes layout sorted).outcome r) := by
  induction sorted generalizing r with
  | nil => exact .ok _
  | cons first rest ih =>
      rw [outcome_processes_cons]
      exact (r.spares_process layout first.id).bind fun _ => (ih _).bind fun _ => .ok _

theorem spares_components (position : Nat) (sorted : List (String × Component)) :
    Spares ((components position sorted).outcome r) := by
  induction sorted generalizing r position with
  | nil => exact .ok _
  | cons entry rest ih =>
      rw [outcome_components_cons]
      refine Spares.bind (.mapM fun _ _ => ?_) fun _ => ?_
      · exact (spares_text ..).bind fun _ => (spares_signalName ..).bind fun _ => .ok _
      · exact (spares_text ..).bind fun _ => (ih ..).bind fun _ => .ok _

theorem spares_unitText (preamble : Preamble) (processes : List String) :
    Spares ((unitText layout preamble processes).outcome r) := by
  rw [outcome_unitText]
  exact r.spares_sortedComponents.bind fun _ => (r.spares_components ..).bind fun _ =>
    (spares_text ..).bind fun _ => (spares_text ..).bind fun _ => .ok _

-- Only the declaration of a signal fails because the signal is not used.
theorem exists_declareSignal_of_body {cause : RenderError} (hunused : cause.isUnused = true)
    (h : (body layout r).1 = .error cause) :
    ∃ entries types named shown, nameAll.outcome r = .ok ((entries, types), named) ∧
      named.shownSignals = .ok shown ∧
      ∃ entry ∈ shown, named.declareSignal entry.2.id = .error cause := by
  rw [← Pass.outcome_eq_error, outcome_body] at h
  rcases bind_eq_error.mp h with hnames | ⟨⟨⟨entries, types⟩, named⟩, hnames, h⟩
  · exact absurd hnames (r.spares_nameAll.ne_error hunused)
  simp only [outcome_writeUnit] at h
  rcases bind_eq_error.mp h with hpreamble | ⟨preamble, -, h⟩
  · rcases bind_eq_error.mp hpreamble with hshown | ⟨shown, hshown, hpreamble⟩
    · exact absurd hshown (named.spares_shownSignals.ne_error hunused)
    rcases bind_eq_error.mp hpreamble with hsignals | ⟨_, -, hpreamble⟩
    · obtain ⟨entry, hentry, hcause⟩ := exists_mem_of_mapM_eq_error hsignals
      exact ⟨entries, types, named, shown, hnames, hshown, entry, hentry, hcause⟩
    · rcases bind_eq_error.mp hpreamble with hconnections | ⟨_, -, hpreamble⟩
      · exact absurd hconnections ((spares_connectionTexts ..).ne_error hunused)
      · cases hpreamble
  -- What follows the declarations does not ask for what a signal is used.
  · rcases bind_eq_error.mp h with hsorted | ⟨sorted, -, h⟩
    · exact absurd hsorted (named.spares_sortedProcesses.ne_error hunused)
    rcases bind_eq_error.mp h with hprocesses | ⟨⟨texts, later⟩, -, h⟩
    · exact absurd hprocesses ((named.spares_processes layout sorted).ne_error hunused)
    · exact absurd h ((spares_unitText ..).ne_error hunused)

end Renderer

end Rtl
