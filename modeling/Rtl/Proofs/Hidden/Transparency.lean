import Rtl.Proofs.Hidden.Faithful
import Rtl.Proofs.Hidden.Lengths

namespace Rtl

namespace Renderer

-- An expression is written as what it stands for if it is faithful, and is
-- shorter or an error otherwise.
def Expands (r : Renderer) (e : Expr) : Prop :=
  ShorterUnless String.length (r.Faithful e) (r.exprText e) (r.exprText (r.design.arch.expand e))

variable {r : Renderer}

theorem withTexts_eq_map (es : List Expr) :
    r.withTexts es = es.map fun e => (e, fun _ => r.exprText e) := by
  induction es with
  | nil => rfl
  | cons e rest ih => exact congrArg (_ :: ·) ih

theorem length_withTexts (es : List Expr) : (r.withTexts es).length = es.length := by
  rw [withTexts_eq_map, List.length_map]

theorem operandText_eq (parent : Operator) (index : Nat) (operand : Expr) (text : Pending) :
    r.operandText parent index operand text = (do
      let text ← text ()
      return if r.brackets parent index operand then parenthesize text else text) := by
  refine congrArg (text () >>= ·) (funext fun text => ?_)
  by_cases hwraps : r.dialect.wrapsOperand parent index = true
  · have hnone : r.brackets parent index operand = false := by
      rw [brackets, hwraps, Bool.not_true, Bool.false_and]
    rw [if_pos hwraps, hnone, if_neg Bool.false_ne_true]
  · have hbrackets : r.brackets parent index operand =
        (r.operandOperator? operand).any fun child => child.needsParens parent := by
      rw [brackets, Bool.eq_false_of_not_eq_true hwraps, Bool.not_false, Bool.true_and]
    rw [if_neg hwraps, hbrackets]
    cases r.operandOperator? operand with
    | none => rfl
    | some child => rfl

theorem operandText_expand (hacyclic : r.design.arch.Acyclic) {e : Expr} (h : r.Expands e)
    (parent : Operator) (index : Nat) :
    ShorterUnless String.length (r.Faithful e ∧ r.KeepsBrackets parent index e)
      (r.operandText parent index e fun _ => r.exprText e)
      (r.operandText parent index (r.design.arch.expand e) fun _ =>
        r.exprText (r.design.arch.expand e)) := by
  rw [operandText_eq, operandText_eq, keepsBrackets_iff hacyclic]
  exact h.parenthesize (brackets_expand hacyclic)

-- A part of a condition is written plainly, compared with a constant, or an error.
theorem conditionPart_expand (hacyclic : r.design.arch.Acyclic) (htyped : r.AliasesTyped)
    {e : Expr} (h : r.Expands e) (asBoolean : Bool) :
    ShorterUnless String.length (r.Faithful e ∧ r.KeepsPart asBoolean e)
      (r.conditionPart asBoolean e fun _ => r.exprText e)
      (r.conditionPart asBoolean (r.design.arch.expand e) fun _ =>
        r.exprText (r.design.arch.expand e)) := by
  simp only [conditionPart, KeepsPart, comparison?, exprType_expand hacyclic htyped]
  cases asBoolean with
  | false => exact h.of_iff (by simp)
  | true =>
      simp only [Bool.not_true, Bool.false_eq_true, if_false, if_true]
      cases r.exprType e with
      | error cause => exact .error _ _ _
      | ok id =>
          simp only [bind, Except.bind]
          cases r.type id with
          | error cause => exact .error _ _ _
          | ok type =>
              cases type with
              | boolean => exact h.of_iff (by simp)
              | bits width signedness force =>
                  by_cases hbit : (HwType.bits width signedness force).isScalarBit = true
                  · simp only [hbit, if_true]
                    refine ShorterUnless.of_iff (.compare
                      (operandText_expand hacyclic h .eq 0) r.dialect rfl _) ?_
                    simp
                  · simp only [hbit]
                    cases (LogicVec.zeros width).bitString with
                    | error cause => exact .error _ _ _
                    | ok zeros =>
                        refine ShorterUnless.of_iff (.compare
                          (operandText_expand hacyclic h .ne 0) r.dialect rfl zeros) ?_
                        simp
              | integer | text | enumeration | array =>
                  cases r.typeText id with
                  | error | ok => exact .error _ _ _

theorem condition_expand (hacyclic : r.design.arch.Acyclic) (htyped : r.AliasesTyped)
    (asBoolean : Bool) {parts : List Expr} (h : ∀ part ∈ parts, r.Expands part) :
    ShorterUnless String.length (r.FaithfulCondition asBoolean parts)
      (r.condition asBoolean parts) (r.condition asBoolean (parts.map r.design.arch.expand)) := by
  simp only [condition, withTexts_eq_map, conditionText, List.isEmpty_map, List.length_map,
    List.mapM_map, Function.comp_def]
  cases hempty : parts.isEmpty with
  | true => exact .error _ _ _
  | false =>
      have hmixes (part : Expr) (hmixed : (decide (1 < parts.length) && mixesWithAnd part) = true) :
          (decide (1 < parts.length) && mixesWithAnd (r.design.arch.expand part)) = true := by
        rw [mixesWithAnd_expand_of_ne_signal]
        · exact hmixed
        · rintro id rfl
          rw [Bool.and_eq_true] at hmixed
          cases hmixed.2
      have hparts := ShorterUnless.mapM fun part hpart =>
        (conditionPart_expand hacyclic htyped (h part hpart) asBoolean).parenthesize (hmixes part)
      simp only [Bool.false_eq_true, if_false]
      refine (hparts.write (pads_intercalate r.dialect.logicalAnd parts.length) (counts_mapM _ _)
        (counts_mapM _ _)).of_iff ?_
      simp only [FaithfulCondition, KeepsCondition]
      constructor
      · intro hall
        refine ⟨fun part hpart => (hall part hpart).1.1, fun part hpart => (hall part hpart).1.2,
          fun hmany id hid => ?_⟩
        have hsame := (hall _ hid).2
        simp only [hmany, decide_true, Bool.true_and] at hsame
        exact hsame
      · rintro ⟨hfaithful, hkeeps, hshown⟩ part hpart
        refine ⟨⟨hfaithful part hpart, hkeeps part hpart⟩, ?_⟩
        by_cases hmany : 1 < parts.length
        · by_cases hsignal : ∃ id, part = .signal id
          · obtain ⟨id, rfl⟩ := hsignal
            exact congrArg _ (hshown hmany id hpart)
          · rw [mixesWithAnd_expand_of_ne_signal (not_exists.mp hsignal)]
        · simp only [hmany, decide_false, Bool.false_and]

-- The operands of most operators, counted from `first` for how they are wrapped.
theorem operandTexts_expand (hacyclic : r.design.arch.Acyclic) (parent : Operator) (first : Nat)
    {operands : List Expr} (h : ∀ e ∈ operands, r.Expands e) :
    ShorterUnless totalLength
      ((∀ e ∈ operands, r.Faithful e) ∧
        ∀ entry ∈ operands.zipIdx, r.KeepsBrackets parent (entry.2 + first) entry.1)
      ((r.withTexts operands).zipIdx.mapM fun ((operand, text), index) =>
        r.operandText parent (index + first) operand text)
      ((r.withTexts (operands.map r.design.arch.expand)).zipIdx.mapM fun ((operand, text), index) =>
        r.operandText parent (index + first) operand text) := by
  simp only [withTexts_eq_map, List.zipIdx_map, List.mapM_map, Function.comp_def, Prod.map]
  have hoperands := ShorterUnless.mapM fun entry (hentry : entry ∈ operands.zipIdx) =>
    operandText_expand hacyclic (h entry.1 (List.fst_mem_of_mem_zipIdx hentry)) parent
      (entry.2 + first)
  refine hoperands.of_iff ⟨fun hall => ⟨fun e he => ?_, fun entry hentry => (hall entry hentry).2⟩,
    fun hall entry hentry => ⟨hall.1 _ (List.fst_mem_of_mem_zipIdx hentry), hall.2 entry hentry⟩⟩
  rw [← List.zipIdx_map_fst 0 operands] at he
  obtain ⟨entry, hentry, rfl⟩ := List.mem_map.mp he
  exact (hall entry hentry).1

theorem argumentTexts_expand {arguments : List Expr} (h : ∀ e ∈ arguments, r.Expands e) :
    ShorterUnless totalLength (∀ e ∈ arguments, r.Faithful e)
      ((r.withTexts arguments).mapM fun (_, text) => text ())
      ((r.withTexts (arguments.map r.design.arch.expand)).mapM fun (_, text) => text ()) := by
  simp only [withTexts_eq_map, List.mapM_map, Function.comp_def]
  exact .mapM h

theorem counts_withTexts (es : List Expr) (f : Expr × Pending → Except RenderError String) :
    Counts es.length ((r.withTexts es).mapM f) := by
  rw [← length_withTexts (r := r)]
  exact counts_mapM f _

theorem counts_zipIdx_withTexts (es : List Expr)
    (f : (Expr × Pending) × Nat → Except RenderError String) :
    Counts es.length ((r.withTexts es).zipIdx.mapM f) := by
  rw [← length_withTexts (r := r), ← List.length_zipIdx]
  exact counts_mapM f _

theorem applyText_call_of_name (type : TypeId) (name : String) (arguments : List Expr) :
    r.applyText .call (r.withTexts (.literal ⟨type, .text (some name)⟩ :: arguments)) = (do
      let texts ← (r.withTexts arguments).mapM fun (_, text) => text ()
      r.dialect.operator .call (name :: texts)) := by
  simp [applyText, withTexts, exprsWith, Operator.arity, Arity.accepts]

theorem applyText_call_of_no_name {function : Expr} (h : functionName? function = none)
    (arguments : List Expr) :
    r.applyText .call (r.withTexts (function :: arguments)) =
      .error (.unsupported .unnamedCall) := by
  have haccepts : (!Operator.call.arity.accepts (r.withTexts (function :: arguments)).length) =
      false := by
    simp [length_withTexts, Operator.arity, Arity.accepts]
  simp only [applyText, haccepts, Bool.false_eq_true, if_false]
  cases function with
  | signal | apply => rfl
  | literal value =>
      obtain ⟨type, payload⟩ := value
      cases payload with
      | bits | boolean | integer | label => rfl
      | text content =>
          cases content with
          | none => rfl
          | some name => cases h

theorem eq_literal_of_functionName? {function : Expr} {name : String}
    (h : functionName? function = some name) :
    ∃ type, function = .literal ⟨type, .text (some name)⟩ := by
  simp only [functionName?] at h
  split at h
  · rename_i type found
    obtain rfl := Option.some.inj h
    exact ⟨type, rfl⟩
  · cases h

-- A call needs a name before its arguments are written.
theorem callText_expand {function : Expr} {arguments : List Expr}
    (h : ∀ e ∈ arguments, r.Expands e) :
    ShorterUnless String.length
      ((∀ e ∈ function :: arguments, r.Faithful e) ∧ r.KeepsOperands .call (function :: arguments))
      (r.applyText .call (r.withTexts (function :: arguments)))
      (r.applyText .call (r.withTexts ((function :: arguments).map r.design.arch.expand))) := by
  cases hname : functionName? function with
  | none =>
      rw [applyText_call_of_no_name hname]
      refine ⟨fun hp => (applyText_call_of_no_name ?_ _).symm, nofun⟩
      by_cases hsignal : ∃ id, function = .signal id
      · obtain ⟨id, rfl⟩ := hsignal
        exact hp.2 id rfl
      · rw [functionName?_expand_of_ne_signal (not_exists.mp hsignal), hname]
  | some name =>
      obtain ⟨type, rfl⟩ := eq_literal_of_functionName? hname
      have haccepts : Operator.call.arity.accepts (arguments.length + 1) = true := by
        simp [Operator.arity, Arity.accepts]
      obtain ⟨extra, hpads⟩ := r.dialect.exists_pads haccepts
      have hwritten := ((ShorterUnless.refl String.length (pure name)).cons
        (argumentTexts_expand h)).write hpads ((counts_withTexts _ _).cons _) (by
          rw [← List.length_map r.design.arch.expand]
          exact (counts_withTexts _ _).cons _)
      simp only [bind_assoc, pure_bind] at hwritten
      rw [List.map_cons, Architecture.expand_literal, applyText_call_of_name,
        applyText_call_of_name]
      refine hwritten.of_iff ?_
      simp [KeepsOperands, Faithful.literal]

theorem applyText_expand (hacyclic : r.design.arch.Acyclic) (htyped : r.AliasesTyped)
    (op : Operator) {operands : List Expr} (h : ∀ e ∈ operands, r.Expands e) :
    ShorterUnless String.length ((∀ e ∈ operands, r.Faithful e) ∧ r.KeepsOperands op operands)
      (r.applyText op (r.withTexts operands))
      (r.applyText op (r.withTexts (operands.map r.design.arch.expand))) := by
  -- The first operand of a call is a name and not written as an expression.
  by_cases hcall : op = .call
  · subst hcall
    cases operands with
    | nil => exact .error _ _ _
    | cons function arguments => exact callText_expand (List.forall_mem_cons.mp h).2
  simp only [applyText, length_withTexts, List.length_map]
  cases haccepts : op.arity.accepts operands.length with
  | false => exact .error _ _ _
  | true =>
      obtain ⟨extra, hpads⟩ := r.dialect.exists_pads haccepts
      simp only [Bool.not_true, Bool.false_eq_true, if_false]
      have hexpanded : operands.length = (operands.map r.design.arch.expand).length :=
        (List.length_map _).symm
      cases op with
      | call => exact absurd rfl hcall
      | index =>
          refine ((argumentTexts_expand h).write hpads (counts_withTexts _ _) ?_).of_iff
            (by simp [KeepsOperands])
          exact hexpanded ▸ counts_withTexts _ _
      | ternary =>
          cases operands with
          | nil => cases haccepts
          | cons condition branches =>
              obtain ⟨hcondition, hbranches⟩ := List.forall_mem_cons.mp h
              have htest := condition_expand hacyclic htyped true
                (List.forall_mem_singleton.mpr hcondition)
              have hothers := operandTexts_expand hacyclic .ternary 1 hbranches
              have hwritten := (htest.cons hothers).write hpads
                ((counts_zipIdx_withTexts _ _).cons _) (by
                  rw [← List.length_map r.design.arch.expand]
                  exact (counts_zipIdx_withTexts _ _).cons _)
              simp only [bind_assoc, pure_bind] at hwritten
              refine hwritten.of_iff ?_
              rw [FaithfulCondition, List.forall_mem_singleton, List.forall_mem_cons, and_assoc,
                and_assoc, and_left_comm (a := r.KeepsCondition true [condition])]
              rfl
      | _ =>
          refine (operandTexts_expand hacyclic _ 0 h).write hpads
            (counts_zipIdx_withTexts _ _) ?_
          exact hexpanded ▸ counts_zipIdx_withTexts _ _

theorem exprText_expand (hacyclic : r.design.arch.Acyclic) (htyped : r.AliasesTyped) (e : Expr) :
    r.Expands e := by
  induction e using hacyclic.induction with
  | shown id h =>
      rw [Expands, Architecture.expand_shown h]
      exact (ShorterUnless.refl _ _).of_iff (iff_of_true trivial (.shown h))
  | hidden id origin h ih =>
      rw [Expands, hacyclic.expand_hidden h, exprText_hidden hacyclic h]
      exact ih.of_iff (faithful_hidden_iff h).symm
  | literal value => exact (ShorterUnless.refl _ _).of_iff (iff_of_true trivial (.literal value))
  | apply op operands type ih =>
      rw [Expands, Architecture.expand_apply]
      exact (applyText_expand hacyclic htyped op ih).of_iff faithful_apply_iff.symm

-- A faithful expression is written as what it stands for, and is an error if
-- that is one. If what it stands for can be written, then it is written like that
-- only if it is faithful. The same goes for conditions.
theorem text_eq_expanded_iff_faithful (hacyclic : r.design.arch.Acyclic)
    (htyped : r.AliasesTyped) :
    (∀ e, (r.Faithful e → r.exprText e = r.exprText (r.design.arch.expand e)) ∧
      ∀ text, r.exprText (r.design.arch.expand e) = .ok text →
        (r.exprText e = .ok text ↔ r.Faithful e)) ∧
    ∀ asBoolean parts, (r.FaithfulCondition asBoolean parts → r.condition asBoolean parts =
        r.condition asBoolean (parts.map r.design.arch.expand)) ∧
      ∀ text, r.condition asBoolean (parts.map r.design.arch.expand) = .ok text →
        (r.condition asBoolean parts = .ok text ↔ r.FaithfulCondition asBoolean parts) := by
  have hexpr := exprText_expand hacyclic htyped
  refine ⟨fun e => ⟨(hexpr e).eq, fun text => (hexpr e).eq_ok_iff⟩, fun asBoolean parts => ?_⟩
  have hcondition := condition_expand hacyclic htyped asBoolean fun part (_ : part ∈ parts) =>
    hexpr part
  exact ⟨hcondition.eq, fun text => hcondition.eq_ok_iff⟩

end Renderer

-- A sum behind one hidden signal and behind two, and a disjunction behind one.

def relays : Design :=
  let empty : Design := ⟨.empty, .empty, .ofEntity ⟨0⟩ (.ofName ⟨0⟩)⟩
  let wires := (((empty.addWire "a" 8).2.addWire "b" 8).2.addWire "c" 8).2
  let sum := (wires.arch.addHidden ⟨0⟩ ⟨0⟩ (.apply .add [.signal ⟨0⟩, .signal ⟨1⟩] ⟨0⟩)).2
  let relay := (sum.addHidden ⟨0⟩ ⟨0⟩ (.signal ⟨3⟩)).2
  { wires with
    arch := (relay.addHidden ⟨0⟩ ⟨0⟩ (.apply .or [.signal ⟨0⟩, .signal ⟨1⟩] ⟨0⟩)).2 }

def ofRelays : Renderer := .ofDesign .vhdl relays "ns" (Dialect.vhdl.baseScope [])

theorem alias?_relays (id : SignalId) :
    relays.arch.alias? id = match id with
      | ⟨3⟩ => some (.apply .add [.signal ⟨0⟩, .signal ⟨1⟩] ⟨0⟩)
      | ⟨4⟩ => some (.signal ⟨3⟩)
      | ⟨5⟩ => some (.apply .or [.signal ⟨0⟩, .signal ⟨1⟩] ⟨0⟩)
      | _ => none := by
  obtain ⟨index⟩ := id
  match index with
  | 0 | 1 | 2 | 3 | 4 | 5 => rfl
  | index + 6 => rfl

theorem acyclic_relays : relays.arch.Acyclic := by
  refine Architecture.acyclic_of_index_lt fun id origin halias => ?_
  rw [alias?_relays] at halias
  split at halias
  · obtain rfl := Option.some.inj halias
    decide
  · obtain rfl := Option.some.inj halias
    decide
  · obtain rfl := Option.some.inj halias
    decide
  · cases halias

theorem aliasesTyped_relays : ofRelays.AliasesTyped := by
  intro ⟨index⟩ signal origin hsignal halias
  match index with
  | 0 | 1 | 2 =>
      obtain rfl := Option.some.inj hsignal
      cases halias
  | 3 | 4 | 5 =>
      obtain rfl := Option.some.inj hsignal
      obtain rfl := Option.some.inj halias
      rfl
  | index + 6 => cases hsignal

theorem faithful_relay :
    ofRelays.Faithful (.apply .sub [.signal ⟨2⟩, .signal ⟨3⟩] ⟨0⟩) := by
  have hshown (id : SignalId) (h : relays.arch.alias? id = none) :
      ofRelays.Faithful (.signal id) := .shown h
  have hkeeps {parent : Operator} {index : Nat} {operand : Expr}
      (h : ofRelays.brackets parent index (relays.arch.expand operand) =
        ofRelays.brackets parent index operand) : ofRelays.KeepsBrackets parent index operand :=
    (Renderer.keepsBrackets_iff acyclic_relays).mpr h
  have hsum : ofRelays.Faithful (.signal ⟨3⟩) := by
    refine .hidden (alias?_relays ⟨3⟩) (.apply ?_ ?_)
    · exact List.forall_mem_cons.mpr ⟨hshown _ rfl, List.forall_mem_singleton.mpr (hshown _ rfl)⟩
    · exact List.forall_mem_cons.mpr ⟨hkeeps rfl, List.forall_mem_singleton.mpr (hkeeps rfl)⟩
  refine .apply ?_ ?_
  · exact List.forall_mem_cons.mpr ⟨hshown _ rfl, List.forall_mem_singleton.mpr hsum⟩
  · exact List.forall_mem_cons.mpr ⟨hkeeps rfl, List.forall_mem_singleton.mpr (hkeeps rfl)⟩

theorem exprText_relay :
    ofRelays.exprText (.apply .sub [.signal ⟨2⟩, .signal ⟨3⟩] ⟨0⟩) = .ok "c - (a + b)" :=
  (((Renderer.text_eq_expanded_iff_faithful acyclic_relays aliasesTyped_relays).1 _).2 _
    (by decide +kernel)).mpr faithful_relay

theorem text_ne_expanded_relays :
    relays.arch.Acyclic ∧ ofRelays.AliasesTyped ∧
    ofRelays.exprText (.apply .sub [.signal ⟨2⟩, .signal ⟨4⟩] ⟨0⟩) = .ok "c - a + b" ∧
    ofRelays.exprText (relays.arch.expand (.apply .sub [.signal ⟨2⟩, .signal ⟨4⟩] ⟨0⟩)) =
      .ok "c - (a + b)" ∧
    ofRelays.condition false [.signal ⟨5⟩, .signal ⟨2⟩] = .ok "a OR b AND c" ∧
    ofRelays.condition false ([.signal ⟨5⟩, .signal ⟨2⟩].map relays.arch.expand) =
      .ok "(a OR b) AND c" :=
  ⟨acyclic_relays, aliasesTyped_relays, by decide +kernel, by decide +kernel, by decide +kernel,
    by decide +kernel⟩

end Rtl
