import Rtl.Proofs.ConstructionOrder.Agreement
import Rtl.Proofs.ConstructionOrder.Renumbering
import Rtl.Proofs.Outcome

namespace Rtl

variable {ρ : Renumbering}

def Owner.renumber (ρ : Renumbering) : Owner → Owner
  | .port id => .port id
  | .signal id => .signal (ρ.signal id)
  | .process id => .process (ρ.process id)
  | .type id => .type id
  | .component position => .component position

def NameRequest.renumber (ρ : Renumbering) (request : NameRequest) : NameRequest :=
  { request with owner := request.owner.renumber ρ }

def ScopeLevel.renumber (ρ : Renumbering) (level : ScopeLevel) : ScopeLevel :=
  { level with owned := level.owned.map fun (request, name) => (request.renumber ρ, name) }

def Scope.renumber (ρ : Renumbering) (scope : Scope) : Scope :=
  { scope with nested := scope.nested.map (ScopeLevel.renumber ρ), base := scope.base.renumber ρ }

-- Two renderers of the same architecture constructed in two orders, after the
-- same names were given on both sides.
structure Alike (ρ : Renumbering) (r s : Renderer) : Prop where
  dialect : s.dialect = r.dialect
  names : s.design.names = r.design.names
  types : s.design.types = r.design.types
  arch : Reordered ρ r.design.arch s.design.arch
  distinct : DistinctNames r.design.names r.design.arch
  timeUnit : s.timeUnit = r.timeUnit
  scope : s.scope = r.scope.renumber ρ
  typeNames : s.typeNames = r.typeNames
  signalNames : s.signalNames = r.signalNames.map fun (id, name) => (ρ.signal id, name)

theorem lookup_map_of_injective {α β γ : Type} [DecidableEq α] [DecidableEq β] {f : α → β}
    (hf : ∀ x y, f x = f y → x = y) (entries : List (α × γ)) (x : α) :
    (entries.map fun (y, c) => (f y, c)).lookup (f x) = entries.lookup x := by
  induction entries with
  | nil => rfl
  | cons entry rest ih =>
      obtain ⟨y, c⟩ := entry
      by_cases hxy : x = y
      · simp [hxy]
      · have hne : f x ≠ f y := fun h => hxy (hf x y h)
        simpa [List.lookup_cons, beq_eq_false_iff_ne.mpr hxy, beq_eq_false_iff_ne.mpr hne] using ih

namespace Alike

variable {r s : Renderer}

theorem text_eq (h : Alike ρ r s) (id : NameId) : s.text id = r.text id := by
  simp only [Renderer.text, h.names]

theorem type_eq (h : Alike ρ r s) (id : TypeId) : s.type id = r.type id := by
  simp only [Renderer.type, h.types]

theorem typeText_eq (h : Alike ρ r s) (id : TypeId) : s.typeText id = r.typeText id := by
  simp only [Renderer.typeText, h.type_eq, h.dialect, h.typeNames]

theorem valueText_eq (h : Alike ρ r s) (value : Value) : s.valueText value = r.valueText value := by
  simp only [Renderer.valueText, Renderer.labelText, h.type_eq, h.typeText_eq, h.types, h.dialect]

theorem signal (h : Alike ρ r s) (id : SignalId) :
    Agree (SameSignal ρ) (r.signal id) (s.signal (ρ.signal id)) := by
  have hid := h.arch.signals id
  simp only [Renderer.signal]
  generalize r.design.arch.signals.get? id = x at hid
  generalize s.design.arch.signals.get? (ρ.signal id) = y at hid
  cases hid with
  | none => exact .error _ _
  | some hab => exact .ok hab

theorem signalName (h : Alike ρ r s) (id : SignalId) :
    Agree Eq (r.signalName id) (s.signalName (ρ.signal id)) := by
  have hlookup := lookup_map_of_injective (f := ρ.signal)
    (fun x y hxy => ρ.signal.injective hxy) r.signalNames id
  simp only [Renderer.signalName, h.signalNames, hlookup]
  cases r.signalNames.lookup id with
  | some name => exact .refl _
  | none =>
      refine (h.signal id).bind fun a b hab => ?_
      rw [hab.name, h.text_eq]
      exact .refl _

theorem exprType (h : Alike ρ r s) (e : Expr) :
    Agree Eq (r.exprType e) (s.exprType (e.renumber ρ.signal)) := by
  cases e with
  | signal id => exact (h.signal id).bind fun a b hab => .ok hab.type.symm
  | literal value => exact .refl _
  | apply op operands type => exact .refl _

theorem alias?_eq {a b : Signal} (h : SameSignal ρ a b) :
    b.alias? = a.alias?.map (Expr.renumber ρ.signal) := by
  simp only [Signal.alias?, h.hidden, h.origin]
  cases a.hidden with
  | true => rfl
  | false => rfl

theorem operator?_renumber (e : Expr) (number : SignalId → SignalId) :
    (e.renumber number).operator? = e.operator? := by
  cases e with
  | signal | literal | apply => rfl

theorem operandOperator?_eq (h : Alike ρ r s) (e : Expr) :
    s.operandOperator? (e.renumber ρ.signal) = r.operandOperator? e := by
  cases e with
  | signal id =>
      have hid := h.arch.signals id
      simp only [Expr.renumber, Renderer.operandOperator?]
      generalize r.design.arch.signals.get? id = x at hid
      generalize s.design.arch.signals.get? (ρ.signal id) = y at hid
      cases hid with
      | none => rfl
      | @some a b hab =>
          simp only [Option.bind_some, alias?_eq hab]
          cases a.alias? with
          | none => rfl
          | some origin => exact operator?_renumber origin _
  | literal value => rfl
  | apply op operands type => rfl

-- An expression and its renumbered form, with texts that agree.
def Written (ρ : Renumbering) (a b : Expr × Renderer.Pending) : Prop :=
  b.1 = a.1.renumber ρ.signal ∧ Agree Eq (a.2 ()) (b.2 ())

theorem operandText (h : Alike ρ r s) (parent : Operator) (index : Nat)
    {a b : Expr × Renderer.Pending} (hab : Written ρ a b) :
    Agree Eq (r.operandText parent index a.1 a.2) (s.operandText parent index b.1 b.2) := by
  obtain ⟨e, text⟩ := a
  obtain ⟨_, text'⟩ := b
  obtain ⟨rfl, htext⟩ := hab
  refine htext.bind_eq fun text => ?_
  rw [h.dialect, h.operandOperator?_eq]
  exact .refl _

theorem conditionPart (h : Alike ρ r s) (asBoolean : Bool) {a b : Expr × Renderer.Pending}
    (hab : Written ρ a b) :
    Agree Eq (r.conditionPart asBoolean a.1 a.2) (s.conditionPart asBoolean b.1 b.2) := by
  cases asBoolean with
  | false =>
      simp only [Renderer.conditionPart, Bool.not_false, if_true]
      exact hab.2
  | true =>
      refine Agree.bind_eq (hab.1 ▸ h.exprType a.1) fun id => ?_
      rw [h.type_eq]
      refine (Agree.refl (r.type id)).bind_eq fun type => ?_
      rw [h.dialect]
      cases type with
      | boolean => exact hab.2
      | bits width signedness force =>
          simp only
          split
          · exact (h.operandText .eq 0 hab).bind_eq fun text => .refl _
          · refine (Agree.refl _).bind_eq fun zeros => ?_
            exact (h.operandText .ne 0 hab).bind_eq fun text => .refl _
      | integer | text | enumeration | array =>
          simp only [h.typeText_eq]
          exact .refl _

theorem conditionText (h : Alike ρ r s) (asBoolean : Bool)
    {as bs : List (Expr × Renderer.Pending)} (hab : List.Forall₂ (Written ρ) as bs) :
    Agree Eq (r.conditionText asBoolean as) (s.conditionText asBoolean bs) := by
  have hlength := hab.length_eq
  have htexts := Agree.mapM hab (S := Eq) (f := fun a => do
      let text ← r.conditionPart asBoolean a.1 a.2
      return if 1 < as.length && Renderer.mixesWithAnd a.1 then Renderer.parenthesize text
        else text)
    (g := fun b => do
      let text ← s.conditionPart asBoolean b.1 b.2
      return if 1 < bs.length && Renderer.mixesWithAnd b.1 then Renderer.parenthesize text
        else text) (by
    intro a b hwritten
    refine (h.conditionPart asBoolean hwritten).bind fun x y hxy => ?_
    have hmixes : Renderer.mixesWithAnd b.1 = Renderer.mixesWithAnd a.1 := by
      simp only [Renderer.mixesWithAnd, hwritten.1, operator?_renumber]
    rw [hxy, hmixes, hlength]
    exact .refl _)
  cases hab with
  | nil => exact .error _ _
  | cons hfirst hrest =>
      refine htexts.bind fun xs ys hxs => ?_
      rw [List.forall₂_eq_eq_eq] at hxs
      rw [hxs, h.dialect]
      exact .refl _

theorem mapM_written {as bs : List (Expr × Renderer.Pending)}
    (hab : List.Forall₂ (Written ρ) as bs) :
    Agree Eq (as.mapM fun (_, text) => text ()) (bs.mapM fun (_, text) => text ()) := by
  refine (Agree.mapM hab (S := Eq) fun a b hwritten => hwritten.2).imp fun xs ys hxs => ?_
  rwa [List.forall₂_eq_eq_eq] at hxs

theorem mapM_operandText (h : Alike ρ r s) (op : Operator) (position : Nat → Nat)
    {as bs : List (Expr × Renderer.Pending)} (hab : List.Forall₂ (Written ρ) as bs) :
    Agree Eq
      (as.zipIdx.mapM fun ((operand, text), index) =>
        r.operandText op (position index) operand text)
      (bs.zipIdx.mapM fun ((operand, text), index) =>
        s.operandText op (position index) operand text) := by
  refine (Agree.mapM (forall₂_zipIdx hab 0) (S := Eq) fun a b hwritten => ?_).imp
    fun xs ys hxs => ?_
  · obtain ⟨⟨e, text⟩, index⟩ := a
    obtain ⟨⟨e', text'⟩, _⟩ := b
    obtain ⟨hwritten, rfl⟩ := hwritten
    exact h.operandText op (position _) hwritten
  · rwa [List.forall₂_eq_eq_eq] at hxs

theorem applyText (h : Alike ρ r s) (op : Operator) {as bs : List (Expr × Renderer.Pending)}
    (hab : List.Forall₂ (Written ρ) as bs) :
    Agree Eq (r.applyText op as) (s.applyText op bs) := by
  simp only [Renderer.applyText, ← hab.length_eq, h.dialect]
  split
  · exact .error _ _
  cases op with
  | call =>
      cases hab with
      | nil => exact .error _ _
      | @cons a b as bs hfirst hrest =>
          obtain ⟨e, text⟩ := a
          obtain ⟨_, text'⟩ := b
          obtain ⟨rfl, htext⟩ := hfirst
          cases e with
          | signal id => exact .error _ _
          | apply op operands type => exact .error _ _
          | literal value =>
              obtain ⟨type, payload⟩ := value
              cases payload with
              | text content =>
                  cases content with
                  | none => exact .error _ _
                  | some name =>
                      exact (mapM_written hrest).bind_eq fun arguments => .refl _
              | bits | boolean | integer | label => exact .error _ _
  | index => exact (mapM_written hab).bind_eq fun texts => .refl _
  | ternary =>
      cases hab with
      | nil => exact .refl _
      | cons hfirst hrest =>
          refine (h.conditionText true (.cons hfirst .nil)).bind_eq fun test => ?_
          exact (h.mapM_operandText .ternary (· + 1) hrest).bind_eq fun branches => .refl _
  | _ => exact (h.mapM_operandText _ id hab).bind_eq fun texts => .refl _

mutual

theorem exprWith (h : Alike ρ r s) {write write' : SignalId → Except RenderError String}
    (hwrite : ∀ id, Agree Eq (write id) (write' (ρ.signal id))) :
    ∀ e : Expr, Agree Eq (r.exprWith write e) (s.exprWith write' (e.renumber ρ.signal))
  | .signal id => hwrite id
  | .literal value => by
      simp only [Renderer.exprWith, Expr.renumber, h.valueText_eq]
      exact .refl _
  | .apply op operands type => h.applyText op (exprsWith h hwrite operands)

theorem exprsWith (h : Alike ρ r s) {write write' : SignalId → Except RenderError String}
    (hwrite : ∀ id, Agree Eq (write id) (write' (ρ.signal id))) :
    ∀ es : List Expr, List.Forall₂ (Written ρ) (r.exprsWith write es)
      (s.exprsWith write' (Expr.renumberAll ρ.signal es))
  | [] => .nil
  | e :: rest => .cons ⟨rfl, exprWith h hwrite e⟩ (exprsWith h hwrite rest)

end

theorem signalText (h : Alike ρ r s) (depth : Nat) (id : SignalId) :
    Agree Eq (r.signalText depth id) (s.signalText depth (ρ.signal id)) := by
  induction depth generalizing id with
  | zero => exact .error _ _
  | succ depth ih =>
      refine (h.signal id).bind fun a b hab => ?_
      rw [alias?_eq hab, h.dialect]
      cases a.alias? with
      | none => exact (h.signalName id).bind_eq fun name => .refl _
      | some origin => exact h.exprWith ih origin

theorem signals_size_eq (h : Alike ρ r s) :
    s.design.arch.signals.size = r.design.arch.signals.size :=
  Arena.size_eq h.arch.signals

theorem exprText (h : Alike ρ r s) (e : Expr) :
    Agree Eq (r.exprText e) (s.exprText (e.renumber ρ.signal)) := by
  rw [Renderer.exprText, Renderer.exprText, h.signals_size_eq]
  exact h.exprWith (h.signalText _) e

theorem condition (h : Alike ρ r s) (asBoolean : Bool) (parts : List Expr) :
    Agree Eq (r.condition asBoolean parts)
      (s.condition asBoolean (Expr.renumberAll ρ.signal parts)) := by
  rw [Renderer.condition, Renderer.condition, Renderer.withTexts, Renderer.withTexts,
    h.signals_size_eq]
  exact h.conditionText asBoolean (h.exprsWith (h.signalText _) parts)

theorem assignmentText (h : Alike ρ r s) (destination : SignalId) (source : Expr)
    (indexes : Option (List Expr)) (onEvent : Bool) :
    Agree Eq (r.assignmentText destination source indexes onEvent)
      (s.assignmentText (ρ.signal destination) (source.renumber ρ.signal)
        (indexes.map (Expr.renumberAll ρ.signal)) onEvent) := by
  refine (h.signal destination).bind fun a b hab => ?_
  refine (h.exprType source).bind_eq fun valueType => ?_
  refine (h.signalName destination).bind_eq fun name => ?_
  refine (h.exprText source).bind_eq fun value => ?_
  simp only [hab.type, h.dialect, h.typeText_eq, Option.isSome_map]
  exact .refl _

theorem waitText_eq (h : Alike ρ r s) (timed : Bool) (duration : Option Nat) :
    s.waitText timed duration = r.waitText timed duration := by
  cases timed with
  | false | true =>
      cases duration with
      | none | some => simp only [Renderer.waitText, h.dialect, h.timeUnit]

mutual

theorem statement (h : Alike ρ r s) (layout : Layout) :
    ∀ t : Statement, Agree Eq (r.statement layout t) (s.statement layout (t.renumber ρ))
  | .assign _ destination source indexes onEvent =>
      h.assignmentText destination source indexes onEvent
  | .branch _ condition body elifs otherwise => by
      refine (h.elifs layout elifs).bind_eq fun elifs => ?_
      refine (h.condition true condition).bind_eq fun condition => ?_
      refine (h.statements layout body).bind_eq fun body => ?_
      exact (h.statements layout otherwise).bind_eq fun otherwise => .refl _
  | .select _ subject cases => by
      refine (h.cases layout cases).bind_eq fun cases => ?_
      exact (h.condition false [subject]).bind_eq fun subject => .refl _
  | .wait _ timed duration => .of_eq (h.waitText_eq timed duration).symm

theorem statements (h : Alike ρ r s) (layout : Layout) :
    ∀ body : List Statement,
      Agree Eq (r.statements layout body) (s.statements layout (Statement.renumberAll ρ body))
  | [] => .refl _
  | t :: rest => by
      refine (h.statement layout t).bind_eq fun first => ?_
      exact (h.statements layout rest).bind_eq fun texts => .refl _

theorem elifs (h : Alike ρ r s) (layout : Layout) :
    ∀ elifs : List (List Expr × List Statement),
      Agree Eq (r.elifs layout elifs) (s.elifs layout (Statement.renumberElifs ρ elifs))
  | [] => .refl _
  | (condition, body) :: rest => by
      refine (h.condition true condition).bind_eq fun condition => ?_
      refine (h.statements layout body).bind_eq fun body => ?_
      exact (h.elifs layout rest).bind_eq fun texts => .refl _

theorem cases (h : Alike ρ r s) (layout : Layout) :
    ∀ cases : List (Option Expr × List Statement),
      Agree Eq (r.cases layout cases) (s.cases layout (Statement.renumberCases ρ cases))
  | [] => .refl _
  | (none, body) :: rest => by
      refine (h.statements layout body).bind_eq fun body => ?_
      exact (h.cases layout rest).bind_eq fun texts => .refl _
  | (some key, body) :: rest => by
      refine (h.exprText key).bind_eq fun key => ?_
      refine (h.statements layout body).bind_eq fun body => ?_
      exact (h.cases layout rest).bind_eq fun texts => .refl _

end

end Alike

end Rtl
