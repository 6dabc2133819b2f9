import Rtl.Proofs.Hidden.Transparency
import Rtl.Proofs.Pipeline.Rendering
import Rtl.Proofs.Types.Assignments

namespace Rtl

-- The type of an expression, found in the table.
def Design.typeOf? (design : Design) (e : Expr) : Option HwType :=
  (design.arch.typeOf? e).bind design.types.get?

def Design.NamesSignals (design : Design) : Prop :=
  ∀ signal ∈ design.arch.signals.toList, (design.names.text? signal.name).isSome = true

-- Whether the zeros that a vector of the type is compared with can be written. In
-- hexadecimal there are only so many digits.
def HwType.Comparable : HwType → Prop
  | .bits width _ _ => width % 4 = 0 → width / 4 ≤ LogicVec.maxHexDigits
  | _ => True

def HwType.IsTest : HwType → Prop
  | .boolean | .bits .. => True
  | _ => False

-- A single bit is never too wide.
theorem HwType.comparable_of_isScalarBit {type : HwType} (h : type.isScalarBit = true) :
    type.Comparable := by
  obtain rfl := eq_of_beq h
  exact nofun

namespace Renderer

section

variable (r : Renderer)

def Writable (e : Expr) : Prop := Succeeds (r.exprText e)

-- A part of a condition.
structure Tests (part : Expr) : Prop where
  writable : r.Writable part
  type : ∃ type, r.design.typeOf? part = some type ∧ type.IsTest

structure Conditions (parts : List Expr) : Prop where
  nonempty : parts ≠ []
  tests : ∀ part ∈ parts, r.Tests part

-- What a statement has to be like to be written, leaving out what is nested in it.
def Accepts : Statement → Prop
  | .assign _ destination source indexes _ =>
      r.Writable source ∧
        (∃ signal, r.design.arch.signals.get? destination = some signal ∧
          r.design.arch.typeOf? source = some signal.type) ∧
        indexes = none
  | .branch _ condition _ elifs _ => r.Conditions condition ∧ ∀ elif ∈ elifs, r.Conditions elif.1
  | .select _ subject cases =>
      r.Writable subject ∧ ∀ branch ∈ cases, ∀ key, branch.1 = some key → r.Writable key
  | .wait _ timed duration => timed = duration.isSome

def Comparable (part : Expr) : Prop :=
  ∀ type, r.design.typeOf? part = some type → type.Comparable

-- No part of a condition is too wide for the comparison with zero.
def Compares : Statement → Prop
  | .branch _ condition _ elifs _ =>
      (∀ part ∈ condition, r.Comparable part) ∧ ∀ elif ∈ elifs, ∀ part ∈ elif.1, r.Comparable part
  | .assign .. | .select .. | .wait .. => True

def Suits (s : Statement) : Prop := r.Accepts s ∧ r.Compares s

end

variable {r : Renderer} {layout : Layout}

-- What is done with the type of an expression.
theorem succeeds_type_bind {α : Type} {e : Expr} {f : TypeId → HwType → Except RenderError α}
    {P : HwType → Prop} (h : ∀ id type, Succeeds (f id type) ↔ P type) :
    Succeeds (r.exprType e >>= fun id => r.type id >>= f id) ↔
      ∃ type, r.design.typeOf? e = some type ∧ P type := by
  simp only [succeeds_bind_iff, exprType_eq_ok, type_eq_ok, h, Design.typeOf?,
    Option.bind_eq_some_iff]
  constructor
  · rintro ⟨id, hid, type, htype, hp⟩
    exact ⟨type, ⟨id, hid, htype⟩, hp⟩
  · rintro ⟨type, ⟨id, hid, htype⟩, hp⟩
    exact ⟨id, hid, type, htype, hp⟩

theorem succeeds_operandText {parent : Operator} {index : Nat} {operand : Expr} {text : Pending} :
    Succeeds (r.operandText parent index operand text) ↔ Succeeds (text ()) := by
  rw [operandText_eq]
  exact succeeds_bind_of_forall fun _ => succeeds_ok _

theorem succeeds_compare (dialect : Dialect) {op : Operator} (hop : op = .eq ∨ op = .ne)
    (a b : String) : Succeeds (dialect.operator op [a, b]) := by
  obtain rfl | rfl := hop <;> cases dialect <;> exact succeeds_ok _

theorem succeeds_bitString_zeros {width : Nat} :
    Succeeds (LogicVec.zeros width).bitString ↔
      (width % 4 = 0 → width / 4 ≤ LogicVec.maxHexDigits) := by
  have hwidth : (LogicVec.zeros width).width = width := rfl
  have hdefined : (LogicVec.zeros width).allDefined = true := by
    simp [LogicVec.zeros, LogicVec.ofNat, LogicVec.ofMasked, LogicVec.allDefined]
  simp only [LogicVec.bitString, hwidth, hdefined, Bool.and_true, beq_iff_eq]
  split
  · rename_i haligned
    split
    · rename_i hfits
      exact iff_of_true (succeeds_ok _) fun _ => hfits
    · rename_i hlong
      exact iff_of_false (not_succeeds_error _) fun h => hlong (h haligned)
  · rename_i hbinary
    exact iff_of_true (succeeds_ok _) fun haligned => absurd haligned hbinary

theorem succeeds_conditionPart {part : Expr} :
    Succeeds (r.conditionPart true part fun _ => r.exprText part) ↔
      r.Tests part ∧ r.Comparable part := by
  have hcompare {op : Operator} (hop : op = .eq ∨ op = .ne) (constant : String) :
      Succeeds (do
        let text ← r.operandText op 0 part fun _ => r.exprText part
        r.dialect.operator op [text, constant]) ↔ r.Writable part := by
    rw [succeeds_bind_of_forall fun _ => succeeds_compare _ hop _ _, succeeds_operandText, Writable]
  simp only [conditionPart, Bool.not_true, Bool.false_eq_true, if_false]
  refine (succeeds_type_bind
    (P := fun type => r.Writable part ∧ type.IsTest ∧ type.Comparable) fun id type => ?_).trans ?_
  · cases type with
    | boolean => exact (and_iff_left ⟨trivial, trivial⟩).symm
    | bits width signedness force =>
        simp only [HwType.IsTest, true_and]
        split
        · rename_i hbit
          rw [hcompare (.inl rfl), and_iff_left (HwType.comparable_of_isScalarBit hbit)]
        · rw [succeeds_bind fun zeros => hcompare (.inr rfl) zeros, succeeds_bitString_zeros,
            and_comm, HwType.Comparable]
    | integer | text | enumeration | array =>
        refine iff_of_false (fun h => ?_) fun h => h.2.1
        obtain ⟨_, -, h⟩ := succeeds_bind_iff.mp h
        exact not_succeeds_error _ h
  · constructor
    · rintro ⟨type, htype, hwritable, htest, hcomparable⟩
      refine ⟨⟨hwritable, type, htype, htest⟩, fun other hother => ?_⟩
      exact Option.some.inj (htype.symm.trans hother) ▸ hcomparable
    · rintro ⟨⟨hwritable, type, htype, htest⟩, hcomparable⟩
      exact ⟨type, htype, hwritable, htest, hcomparable type htype⟩

theorem succeeds_condition {asBoolean : Bool} {P : Expr → Prop}
    (hpart : ∀ part, Succeeds (r.conditionPart asBoolean part fun _ => r.exprText part) ↔ P part)
    {parts : List Expr} :
    Succeeds (r.condition asBoolean parts) ↔ parts ≠ [] ∧ ∀ part ∈ parts, P part := by
  rw [condition, withTexts_eq_map, conditionText, List.isEmpty_map]
  cases parts with
  | nil => exact iff_of_false (not_succeeds_error _) fun h => h.1 rfl
  | cons first rest =>
      simp only [List.isEmpty_cons, Bool.false_eq_true, if_false, List.mapM_map, Function.comp_def]
      refine (succeeds_bind_of_forall fun _ => succeeds_ok _).trans (succeeds_mapM.trans ?_)
      rw [and_iff_right (List.cons_ne_nil first rest)]
      exact forall₂_congr fun part _ =>
        (succeeds_bind_of_forall fun _ => succeeds_ok _).trans (hpart part)

theorem succeeds_test {parts : List Expr} :
    Succeeds (r.condition true parts) ↔ r.Conditions parts ∧ ∀ part ∈ parts, r.Comparable part := by
  rw [succeeds_condition fun _ => succeeds_conditionPart]
  constructor
  · rintro ⟨hnonempty, h⟩
    exact ⟨⟨hnonempty, fun part hmem => (h part hmem).1⟩, fun part hmem => (h part hmem).2⟩
  · rintro ⟨⟨hnonempty, htests⟩, hcomparable⟩
    exact ⟨hnonempty, fun part hmem => ⟨htests part hmem, hcomparable part hmem⟩⟩

theorem succeeds_subject {subject : Expr} :
    Succeeds (r.condition false [subject]) ↔ r.Writable subject := by
  have hpart (part : Expr) : Succeeds (r.conditionPart false part fun _ => r.exprText part) ↔
      r.Writable part := by
    rw [conditionPart, Bool.not_false, if_pos rfl, Writable]
  rw [succeeds_condition hpart, and_iff_right (List.cons_ne_nil subject []),
    List.forall_mem_singleton]

theorem succeeds_assignmentText (hnamed : r.design.NamesSignals) {id : StatementId}
    {destination : SignalId} {source : Expr} {indexes : Option (List Expr)} {onEvent : Bool} :
    Succeeds (r.assignmentText destination source indexes onEvent) ↔
      r.Accepts (.assign id destination source indexes onEvent) := by
  constructor
  · rintro ⟨text, h⟩
    have hagrees : r.design.arch.Agrees (.assign id destination source indexes onEvent) :=
      assignmentText_agrees h
    simp only [assignmentText, bind_eq_ok, signal_eq_ok, exprType_eq_ok] at h
    obtain ⟨signal, hsignal, type, htype, target, -, value, hvalue, h⟩ := h
    have hsame : signal.type = type := hagrees _ _ (by simp [Architecture.sides?, hsignal, htype])
    rw [if_neg (not_not.mpr hsame)] at h
    refine ⟨⟨value, hvalue⟩, ⟨signal, hsignal, hsame ▸ htype⟩, ?_⟩
    cases indexes with
    | none => rfl
    | some => cases h
  · rintro ⟨⟨value, hvalue⟩, ⟨signal, hsignal, htype⟩, rfl⟩
    obtain ⟨target, htarget⟩ := exists_signalName hsignal
      (Option.isSome_iff_exists.mp (hnamed signal (Arena.mem_toList_of_get? hsignal)))
    refine ⟨r.dialect.assignment (r.dialect.assignmentTarget target) value onEvent, ?_⟩
    simp only [assignmentText, bind_eq_ok, signal_eq_ok, exprType_eq_ok]
    exact ⟨signal, hsignal, _, htype, target, htarget, value, hvalue, if_neg (not_not.mpr rfl)⟩

theorem succeeds_waitText {id : StatementId} {timed : Bool} {duration : Option Nat} :
    Succeeds (r.waitText timed duration) ↔ r.Accepts (.wait id timed duration) := by
  match timed, duration with
  | true, some _ | false, none => exact iff_of_true (succeeds_ok _) rfl
  | true, none | false, some _ => exact iff_of_false (not_succeeds_error _) nofun

theorem suits_branch {id : StatementId} {condition : List Expr} {body otherwise : List Statement}
    {elifs : List (List Expr × List Statement)} :
    r.Suits (.branch id condition body elifs otherwise) ↔
      Succeeds (r.condition true condition) ∧
        ∀ elif ∈ elifs, Succeeds (r.condition true elif.1) := by
  simp only [succeeds_test]
  constructor
  · rintro ⟨⟨hcondition, helifs⟩, hcomparable, hothers⟩
    exact ⟨⟨hcondition, hcomparable⟩, fun elif hmem => ⟨helifs elif hmem, hothers elif hmem⟩⟩
  · rintro ⟨⟨hcondition, hcomparable⟩, helifs⟩
    exact ⟨⟨hcondition, fun elif hmem => (helifs elif hmem).1⟩, hcomparable,
      fun elif hmem => (helifs elif hmem).2⟩

mutual

-- A statement is written if all that is nested in it suits, at every depth.
theorem succeeds_statement (hnamed : r.design.NamesSignals) : ∀ u : Statement,
    Succeeds (r.statement layout u) ↔ ∀ inner ∈ u.walk, r.Suits inner
  | .assign .. => by
      rw [Statement.walk, List.forall_mem_singleton, Suits, Compares, and_true, statement]
      exact succeeds_assignmentText hnamed
  | .branch _ condition body elifs otherwise => by
      rw [statement, Statement.walk, List.forall_mem_cons, suits_branch, List.forall_mem_append,
        List.forall_mem_append]
      refine (succeeds_bind fun _ => succeeds_bind fun _ => succeeds_bind fun _ =>
        succeeds_bind_of_forall fun _ => succeeds_ok _).trans ?_
      rw [succeeds_elifs hnamed elifs, succeeds_statements hnamed body,
        succeeds_statements hnamed otherwise]
      tauto
  | .select _ subject cases => by
      rw [statement, Statement.walk, List.forall_mem_cons, Suits, Compares, and_true, Accepts]
      refine (succeeds_bind fun _ => succeeds_bind_of_forall fun _ => succeeds_ok _).trans ?_
      rw [succeeds_cases hnamed cases, succeeds_subject]
      tauto
  | .wait .. => by
      rw [Statement.walk, List.forall_mem_singleton, Suits, Compares, and_true, statement]
      exact succeeds_waitText

theorem succeeds_statements (hnamed : r.design.NamesSignals) : ∀ body : List Statement,
    Succeeds (r.statements layout body) ↔ ∀ inner ∈ Statement.walkAll body, r.Suits inner
  | [] => iff_of_true (succeeds_ok _) nofun
  | u :: rest => by
      rw [statements, Statement.walkAll, List.forall_mem_append, ← succeeds_statement hnamed u,
        ← succeeds_statements hnamed rest]
      exact succeeds_bind fun _ => succeeds_bind_of_forall fun _ => succeeds_ok _

theorem succeeds_elifs (hnamed : r.design.NamesSignals) :
    ∀ elifs : List (List Expr × List Statement), Succeeds (r.elifs layout elifs) ↔
      (∀ elif ∈ elifs, Succeeds (r.condition true elif.1)) ∧
        ∀ inner ∈ Statement.walkElifs elifs, r.Suits inner
  | [] => iff_of_true (succeeds_ok _) ⟨nofun, nofun⟩
  | (condition, body) :: rest => by
      rw [elifs, Statement.walkElifs, List.forall_mem_append, List.forall_mem_cons]
      refine (succeeds_bind fun _ => succeeds_bind fun _ =>
        succeeds_bind_of_forall fun _ => succeeds_ok _).trans ?_
      rw [succeeds_statements hnamed body, succeeds_elifs hnamed rest]
      tauto

theorem succeeds_cases (hnamed : r.design.NamesSignals) :
    ∀ cases : List (Option Expr × List Statement), Succeeds (r.cases layout cases) ↔
      (∀ branch ∈ cases, ∀ key, branch.1 = some key → r.Writable key) ∧
        ∀ inner ∈ Statement.walkCases cases, r.Suits inner
  | [] => iff_of_true (succeeds_ok _) ⟨nofun, nofun⟩
  | (none, body) :: rest => by
      rw [cases, Statement.walkCases, List.forall_mem_append, List.forall_mem_cons]
      refine (succeeds_bind fun _ => succeeds_bind_of_forall fun _ => succeeds_ok _).trans ?_
      rw [succeeds_statements hnamed body, succeeds_cases hnamed rest]
      have hkey : ∀ key, (none : Option Expr) = some key → r.Writable key := nofun
      tauto
  | (some key, body) :: rest => by
      rw [cases, Statement.walkCases, List.forall_mem_append, List.forall_mem_cons]
      refine (succeeds_bind fun _ => succeeds_bind fun _ =>
        succeeds_bind_of_forall fun _ => succeeds_ok _).trans ?_
      have hkey : (∀ other, some key = some other → r.Writable other) ↔
          Succeeds (r.exprText key) := by
        simp only [Option.some.injEq, forall_eq', Writable]
      rw [succeeds_statements hnamed body, succeeds_cases hnamed rest, hkey]
      tauto

end

end Renderer

open Renderer

-- What is given can be written exactly if every statement in it, at every depth, is
-- accepted and compares nothing that is too wide with zero. Nothing that is written
-- assigns to something of another type, however deep.
theorem Renderer.exists_statement_iff {r : Renderer} (hnamed : r.design.NamesSignals)
    (layout : Layout) (u : Statement) :
    ((∃ text, r.statement layout u = .ok text) ↔
      ∀ inner ∈ u.walk, r.Accepts inner ∧ r.Compares inner) ∧
    ∀ text, r.statement layout u = .ok text → ∀ inner ∈ u.walk, r.design.arch.Agrees inner :=
  ⟨succeeds_statement hnamed u, statement_agrees u⟩

-- An assignment below a case below an `elif`.

def holdDesign : Design :=
  let busy := (Architecture.ofEntity ⟨0⟩ (.ofName ⟨0⟩)).addSignal ⟨1⟩ ⟨0⟩ none
  ⟨⟨#["top", "busy", "count"]⟩, ⟨⟨#[.bit, .vector 8]⟩⟩, (busy.2.addSignal ⟨2⟩ ⟨1⟩ none).2⟩

def holdStep (source : SignalId) : Statement :=
  .branch ⟨0⟩ [.signal ⟨0⟩] [.wait ⟨1⟩ false none]
    [([.signal ⟨1⟩],
      [.select ⟨2⟩ (.signal ⟨1⟩) [(none, [.assign ⟨3⟩ ⟨1⟩ (.signal source) none false])]])] []

def holdRenderer : Renderer := ofDesign .vhdl holdDesign "ns" (Dialect.vhdl.baseScope [])

theorem exists_statement_holdStep :
    (∀ inner ∈ (holdStep ⟨1⟩).walk, holdRenderer.Accepts inner ∧ holdRenderer.Compares inner) ∧
    ¬ ∃ text, holdRenderer.statement (Dialect.vhdl.layout "  ") (holdStep ⟨0⟩) = .ok text := by
  have hnamed : holdRenderer.design.NamesSignals := by
    rw [Design.NamesSignals]
    decide +kernel
  have hiff (source : SignalId) := exists_statement_iff hnamed (Dialect.vhdl.layout "  ")
    (holdStep source)
  constructor
  · refine (hiff ⟨1⟩).1.mp ⟨Layout.joinLines
      ["IF busy = '1' THEN",
       "  WAIT;",
       "ELSIF count /= X\"00\" THEN",
       "  CASE count IS",
       "    WHEN OTHERS =>",
       "      count <= count;",
       "  END CASE;",
       "END IF;"], ?_⟩
    decide +kernel
  · rintro ⟨text, htext⟩
    have hassign : Statement.assign ⟨3⟩ ⟨1⟩ (.signal ⟨0⟩) none false ∈ (holdStep ⟨0⟩).walk := by
      simp [holdStep, Statement.walk, Statement.walkAll, Statement.walkElifs, Statement.walkCases]
    have hsame : (⟨1⟩ : TypeId) = ⟨0⟩ := (hiff ⟨0⟩).2 text htext _ hassign _ _ rfl
    exact absurd hsame (by decide)

-- A signal of so many bits that a test of it cannot be written, which is accepted
-- like any other.

def broadDesign : Design :=
  ⟨⟨#["top", "big"]⟩, ⟨⟨#[.bits 262144 .plain false]⟩⟩,
    ((Architecture.ofEntity ⟨0⟩ (.ofName ⟨0⟩)).addSignal ⟨1⟩ ⟨0⟩ none).2⟩

def broadStep : Statement := .branch ⟨0⟩ [.signal ⟨0⟩] [] [] []

def broadRenderer : Renderer := ofDesign .vhdl broadDesign "ns" (Dialect.vhdl.baseScope [])

theorem statement_broadStep :
    (∀ inner ∈ broadStep.walk, broadRenderer.Accepts inner) ∧
    broadRenderer.statement (Dialect.vhdl.layout "    ") broadStep =
      .error (.tooManyDigits 65536) := by
  refine ⟨List.forall_mem_singleton.mpr ⟨⟨nofun, List.forall_mem_singleton.mpr ?_⟩, nofun⟩, ?_⟩
  · exact ⟨⟨"big", by decide +kernel⟩, _, rfl, trivial⟩
  · decide +kernel

end Rtl
