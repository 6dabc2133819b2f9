import Rtl.Proofs.Hidden.Expansion

namespace Rtl

namespace Renderer

section

variable (r : Renderer)

-- Hidden signals have the types of what they stand for.
def AliasesTyped : Prop :=
  ∀ id signal origin, r.design.arch.signals.get? id = some signal →
    signal.alias? = some origin → r.exprType origin = .ok signal.type

-- Whether an operand is parenthesized.
def brackets (parent : Operator) (index : Nat) (operand : Expr) : Bool :=
  !r.dialect.wrapsOperand parent index &&
    (r.operandOperator? operand).any fun child => child.needsParens parent

-- The operator that compares a part of a condition with a constant, if one does.
def comparison? (asBoolean : Bool) (part : Expr) : Option Operator :=
  if asBoolean then
    match r.exprType part >>= r.type with
    | .ok (.bits width signedness force) =>
        some (if (HwType.bits width signedness force).isScalarBit then .eq else .ne)
    | _ => none
  else none

def functionName? : Expr → Option String
  | .literal ⟨_, .text (some name)⟩ => some name
  | _ => none

-- An operand that needs parentheses is not behind two hidden signals.
def KeepsBrackets (parent : Operator) (index : Nat) (operand : Expr) : Prop :=
  ∀ id next, operand = .signal id → r.design.arch.alias? id = some (.signal next) →
    r.brackets parent index (r.design.arch.expand (.signal next)) = false

def KeepsPart (asBoolean : Bool) (part : Expr) : Prop :=
  ∀ op, r.comparison? asBoolean part = some op → r.KeepsBrackets op 0 part

-- What needs parentheses among other parts is not behind a hidden signal.
def KeepsCondition (asBoolean : Bool) (parts : List Expr) : Prop :=
  (∀ part ∈ parts, r.KeepsPart asBoolean part) ∧
    (1 < parts.length → ∀ id, .signal id ∈ parts →
      mixesWithAnd (r.design.arch.expand (.signal id)) = false)

-- The name of a function is not behind a hidden signal.
def KeepsOperands : Operator → List Expr → Prop
  | .call, function :: _ =>
      ∀ id, function = .signal id → functionName? (r.design.arch.expand (.signal id)) = none
  | .index, _ => True
  | .ternary, condition :: branches =>
      r.KeepsCondition true [condition] ∧
        ∀ entry ∈ branches.zipIdx, r.KeepsBrackets .ternary (entry.2 + 1) entry.1
  | op, operands => ∀ entry ∈ operands.zipIdx, r.KeepsBrackets op entry.2 entry.1

-- Nothing gets lost anywhere in an expression, nor in what its hidden signals
-- stand for.
inductive Faithful : Expr → Prop
  | shown {id : SignalId} (h : r.design.arch.alias? id = none) : Faithful (.signal id)
  | hidden {id : SignalId} {origin : Expr} (h : r.design.arch.alias? id = some origin)
      (horigin : Faithful origin) : Faithful (.signal id)
  | literal (value : Value) : Faithful (.literal value)
  | apply {op : Operator} {operands : List Expr} {type : TypeId}
      (hoperands : ∀ e ∈ operands, Faithful e) (hkeeps : r.KeepsOperands op operands) :
      Faithful (.apply op operands type)

def FaithfulCondition (asBoolean : Bool) (parts : List Expr) : Prop :=
  (∀ part ∈ parts, r.Faithful part) ∧ r.KeepsCondition asBoolean parts

end

variable {r : Renderer}

theorem faithful_hidden_iff {id : SignalId} {origin : Expr}
    (h : r.design.arch.alias? id = some origin) :
    r.Faithful (.signal id) ↔ r.Faithful origin := by
  refine ⟨fun hfaithful => ?_, .hidden h⟩
  cases hfaithful with
  | shown hnone =>
      rw [h] at hnone
      cases hnone
  | hidden hother horigin =>
      obtain rfl := Option.some.inj (h.symm.trans hother)
      exact horigin

theorem faithful_apply_iff {op : Operator} {operands : List Expr} {type : TypeId} :
    r.Faithful (.apply op operands type) ↔
      (∀ e ∈ operands, r.Faithful e) ∧ r.KeepsOperands op operands := by
  refine ⟨fun hfaithful => ?_, fun h => .apply h.1 h.2⟩
  cases hfaithful with
  | apply hoperands hkeeps => exact ⟨hoperands, hkeeps⟩

theorem exprType_expand (hacyclic : r.design.arch.Acyclic) (htyped : r.AliasesTyped) (e : Expr) :
    r.exprType (r.design.arch.expand e) = r.exprType e := by
  induction e using hacyclic.induction with
  | shown id h => rw [Architecture.expand_shown h]
  | hidden id origin h ih =>
      obtain ⟨signal, hsignal, halias⟩ := Option.bind_eq_some_iff.mp h
      rw [hacyclic.expand_hidden h, ih, htyped id signal origin hsignal halias, exprType]
      simp [Renderer.signal, hsignal, bind, Except.bind, pure, Except.pure]
  | literal value => rfl
  | apply op operands type ih => rw [Architecture.expand_apply, exprType, exprType]

-- The operator that is found for an operand stays where it is.
theorem operandOperator?_expand (hacyclic : r.design.arch.Acyclic) {operand : Expr}
    {child : Operator} (h : r.operandOperator? operand = some child) :
    r.operandOperator? (r.design.arch.expand operand) = some child := by
  cases operand with
  | literal value => cases h
  | apply op operands type =>
      rw [Architecture.expand_apply]
      exact h
  | signal id =>
      obtain ⟨origin, halias, horigin⟩ := Option.bind_eq_some_iff.mp h
      rw [hacyclic.expand_hidden halias]
      cases origin with
      | signal | literal => cases horigin
      | apply op operands type =>
          rw [Architecture.expand_apply]
          exact horigin

theorem brackets_expand (hacyclic : r.design.arch.Acyclic) {parent : Operator} {index : Nat}
    {operand : Expr} (h : r.brackets parent index operand = true) :
    r.brackets parent index (r.design.arch.expand operand) = true := by
  simp only [brackets, Bool.and_eq_true, Option.any_eq_true] at h ⊢
  obtain ⟨hwraps, child, hchild, hparens⟩ := h
  exact ⟨hwraps, child, operandOperator?_expand hacyclic hchild, hparens⟩

theorem brackets_congr {parent : Operator} {index : Nat} {a b : Expr}
    (h : r.operandOperator? a = r.operandOperator? b) :
    r.brackets parent index a = r.brackets parent index b := by
  rw [brackets, brackets, h]

theorem operandOperator?_hidden {id : SignalId} {origin : Expr}
    (h : r.design.arch.alias? id = some origin) :
    r.operandOperator? (.signal id) = origin.operator? := congrArg (·.bind Expr.operator?) h

theorem keepsBrackets_signal_iff {parent : Operator} {index : Nat} {id : SignalId} :
    r.KeepsBrackets parent index (.signal id) ↔
      ∀ next, r.design.arch.alias? id = some (.signal next) →
        r.brackets parent index (r.design.arch.expand (.signal next)) = false := by
  refine ⟨fun h next => h id next rfl, fun h other next hid => ?_⟩
  obtain rfl := Expr.signal.inj hid
  exact h next

-- Only at those operands it makes a difference what they stand for.
theorem keepsBrackets_iff (hacyclic : r.design.arch.Acyclic) {parent : Operator} {index : Nat}
    {operand : Expr} : r.KeepsBrackets parent index operand ↔
      r.brackets parent index (r.design.arch.expand operand) = r.brackets parent index operand := by
  cases operand with
  | literal value => exact iff_of_true nofun rfl
  | apply op operands type =>
      rw [Architecture.expand_apply]
      exact iff_of_true nofun rfl
  | signal id =>
      rw [keepsBrackets_signal_iff]
      cases halias : r.design.arch.alias? id with
      | none =>
          rw [Architecture.expand_shown halias]
          exact iff_of_true nofun rfl
      | some origin =>
          rw [hacyclic.expand_hidden halias]
          cases origin with
          | literal value =>
              exact iff_of_true nofun (brackets_congr (operandOperator?_hidden halias).symm)
          | apply op operands type =>
              rw [Architecture.expand_apply]
              exact iff_of_true nofun (brackets_congr (operandOperator?_hidden halias).symm)
          | signal next =>
              have hoperator : r.operandOperator? (.signal id) = none :=
                operandOperator?_hidden halias
              have hnone : r.brackets parent index (.signal id) = false := by
                rw [brackets, hoperator, Option.any_none, Bool.and_false]
              rw [hnone]
              refine ⟨fun h => h next rfl, fun h other hother => ?_⟩
              obtain rfl := Expr.signal.inj (Option.some.inj hother)
              exact h

theorem mixesWithAnd_expand_of_ne_signal {arch : Architecture} {part : Expr}
    (h : ∀ id, part ≠ .signal id) : mixesWithAnd (arch.expand part) = mixesWithAnd part := by
  cases part with
  | signal id => exact absurd rfl (h id)
  | literal value => rfl
  | apply op operands type =>
      rw [Architecture.expand_apply]
      rfl

theorem functionName?_expand_of_ne_signal {arch : Architecture} {function : Expr}
    (h : ∀ id, function ≠ .signal id) :
    functionName? (arch.expand function) = functionName? function := by
  cases function with
  | signal id => exact absurd rfl (h id)
  | literal value => rfl
  | apply op operands type =>
      rw [Architecture.expand_apply]
      rfl

end Renderer

end Rtl
