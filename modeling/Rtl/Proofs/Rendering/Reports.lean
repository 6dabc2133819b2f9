import Rtl.Proofs.Rendering.Causes
import Rtl.Proofs.Rendering.Places
import Rtl.Proofs.Rendering.Writable
import Rtl.Proofs.Types.Reachable

namespace Rtl

-- A failure of what is asked for, and not of what is asked of: no part is missing. A number of
-- digits that is too large is one that constants and tests were allowed to take.
def RenderError.Reported (allowed : Nat → Prop) : RenderError → Prop
  | .unsupported _ | .mismatch _ => True
  | .missing _ => False
  | .tooManyDigits count => allowed count ∧ LogicVec.maxHexDigits < count

-- A computation that gives a result or reports why there is none.
structure Reports (allowed : Nat → Prop) {α : Type} (x : Except RenderError α) : Prop where
  reported : ∀ cause, x = .error cause → cause.Reported allowed

variable {allowed : Nat → Prop}

namespace Reports

variable {α β : Type} {x : Except RenderError α}

theorem ok (a : α) : Reports allowed (.ok a : Except RenderError α) := ⟨nofun⟩

theorem error {cause : RenderError} (h : cause.Reported allowed) :
    Reports allowed (.error cause : Except RenderError α) :=
  ⟨fun _ hcause => Except.error.inj hcause ▸ h⟩

theorem of_exists (h : ∃ a, x = .ok a) : Reports allowed x := by
  obtain ⟨a, rfl⟩ := h
  exact ok a

-- What follows is only asked of the results there are.
theorem bind {f : α → Except RenderError β} (h : Reports allowed x)
    (hnext : ∀ a, x = .ok a → Reports allowed (f a)) : Reports allowed (x >>= f) := by
  refine ⟨fun cause hcause => ?_⟩
  rcases bind_eq_error.mp hcause with hfirst | ⟨a, ha, hlater⟩
  · exact h.reported cause hfirst
  · exact (hnext a ha).reported cause hlater

theorem bind_exists {f : α → Except RenderError β} (h : ∃ a, x = .ok a)
    (hnext : ∀ a, x = .ok a → Reports allowed (f a)) : Reports allowed (x >>= f) :=
  (of_exists h).bind hnext

theorem mapM {f : α → Except RenderError β} {items : List α}
    (h : ∀ item ∈ items, Reports allowed (f item)) : Reports allowed (items.mapM f) := by
  refine ⟨fun cause hcause => ?_⟩
  obtain ⟨item, hitem, hfailed⟩ := exists_mem_of_mapM_eq_error hcause
  exact (h item hitem).reported cause hfailed

theorem map {f : α → β} (h : Reports allowed x) : Reports allowed (x.map f) := by
  cases x with
  | error cause => exact error (h.reported cause rfl)
  | ok a => exact ok (f a)

end Reports

-- What is asked of the number of hexadecimal digits of a vector, if it is written with any.
def LogicVec.Digits (allowed : Nat → Prop) (v : LogicVec) : Prop :=
  v.width % 4 = 0 → v.allDefined = true → allowed (v.width / 4)

theorem LogicVec.reports_bitString {v : LogicVec} (h : v.Digits allowed) :
    Reports allowed v.bitString := by
  rw [bitString]
  split
  · rename_i hhex
    obtain ⟨haligned, hdefined⟩ := Bool.and_eq_true_iff.mp hhex
    split
    · exact .ok _
    · exact .error ⟨h (beq_iff_eq.mp haligned) hdefined, Nat.lt_of_not_le ‹_›⟩
  · exact .ok _

-- The patterns of operators find the operands that they mention.

namespace Operands

variable {operands : List String}

theorem reports_unary (h : 1 ≤ operands.length) (write : String → String) :
    Reports allowed (unary operands write) := by
  cases operands with
  | nil => cases h
  | cons a rest => exact .ok _

theorem reports_call (h : 1 ≤ operands.length) : Reports allowed (call operands) := by
  cases operands with
  | nil => cases h
  | cons a rest => exact .ok _

theorem reports_binary (h : 2 ≤ operands.length) (write : String → String → String) :
    Reports allowed (binary operands write) := by
  match operands with
  | a :: b :: rest => exact .ok _
  | [_] | [] => exact absurd h (by simp)

theorem reports_ternary (h : 3 ≤ operands.length)
    (write : String → String → String → String) : Reports allowed (ternary operands write) := by
  match operands with
  | a :: b :: c :: rest => exact .ok _
  | [_, _] | [_] | [] => exact absurd h (by simp)

end Operands

def Arity.least : Arity → Nat
  | .exactly count | .atLeast count => count

theorem Arity.least_le {arity : Arity} {count : Nat} (h : arity.accepts count = true) :
    arity.least ≤ count := by
  cases arity with
  | exactly expected => exact (beq_iff_eq.mp h).ge
  | atLeast least => exact of_decide_eq_true h

theorem Dialect.reports_operator (dialect : Dialect) {op : Operator} {operands : List String}
    (h : op.arity.accepts operands.length = true) :
    Reports allowed (dialect.operator op operands) := by
  have hleast := Arity.least_le h
  cases dialect with
  | vhdl =>
      cases op with
      | not | event | risingEdge | fallingEdge | asSigned | asUnsigned | asVector =>
          exact Operands.reports_unary hleast _
      | index => exact Operands.reports_binary hleast _
      | call => exact Operands.reports_call hleast
      | ternary => exact .error trivial
      | _ => exact .ok _
  | simModel =>
      cases op with
      | not | event | risingEdge | fallingEdge | asSigned | asUnsigned | asVector =>
          exact Operands.reports_unary hleast _
      | concat | eq | index | pow => exact Operands.reports_binary hleast _
      | call => exact Operands.reports_call hleast
      | ternary => exact Operands.reports_ternary hleast _
      | _ => exact .ok _

theorem Dialect.reports_undefined (dialect : Dialect) (type : String) :
    Reports allowed (dialect.undefined type) := by
  cases dialect with
  | vhdl => exact .error trivial
  | simModel => exact .ok _

-- What it is for a design to be in range.

-- The bits of a signed or an unsigned type are written as a number.
def HwType.isNumber : HwType → Bool
  | .bits _ .signed _ | .bits _ .unsigned _ => true
  | _ => false

namespace Design

def hasName (design : Design) (id : NameId) : Bool := (design.names.text? id).isSome

def hasType (design : Design) (id : TypeId) : Bool := (design.types.get? id).isSome

theorem hasName_iff {design : Design} {id : NameId} :
    design.hasName id = true ↔ ∃ text, design.names.text? id = some text :=
  Option.isSome_iff_exists

theorem hasType_iff {design : Design} {id : TypeId} :
    design.hasType id = true ↔ ∃ type, design.types.get? id = some type :=
  Option.isSome_iff_exists

end Design

-- Only a constant that fits its type and is no number is written as a bit string.
structure Value.InRange (design : Design) (allowed : Nat → Prop) (value : Value) : Prop where
  type : design.hasType value.type = true
  digits : ∀ vector type, value.payload = .bits vector →
    design.types.get? value.type = some type → type.isNumber = false →
    design.types.bitWidth? value.type = some (some vector.width) → vector.Digits allowed

-- What a part of a condition is compared with, if it has bits.
def Expr.Tested (design : Design) (allowed : Nat → Prop) (part : Expr) : Prop :=
  ∀ width signedness force, design.typeOf? part = some (.bits width signedness force) →
    (LogicVec.zeros width).Digits allowed

-- An expression over the first `count` signals.
inductive Expr.InRange (design : Design) (allowed : Nat → Prop) (count : Nat) : Expr → Prop
  | signal {id : SignalId} (hid : id.index < count) : InRange design allowed count (.signal id)
  | literal {value : Value} (hvalue : value.InRange design allowed) :
      InRange design allowed count (.literal value)
  | apply {op : Operator} {operands : List Expr} {type : TypeId}
      (htype : design.hasType type = true)
      (hoperands : ∀ e ∈ operands, InRange design allowed count e)
      (htest : op = .ternary → ∀ test ∈ operands.head?, test.Tested design allowed) :
      InRange design allowed count (.apply op operands type)

-- A part of the condition of a branch.
structure Expr.TestInRange (design : Design) (allowed : Nat → Prop) (part : Expr) : Prop where
  inRange : part.InRange design allowed design.arch.signals.size
  tested : part.Tested design allowed

-- The indexes of an assignment are never written.
inductive Statement.InRange (design : Design) (allowed : Nat → Prop) : Statement → Prop
  | assign {id : StatementId} {destination : SignalId} {source : Expr}
      {indexes : Option (List Expr)} {onEvent : Bool}
      (hdestination : design.arch.hasSignal destination = true)
      (hsource : source.InRange design allowed design.arch.signals.size) :
      InRange design allowed (.assign id destination source indexes onEvent)
  | branch {id : StatementId} {condition : List Expr} {body otherwise : List Statement}
      {elifs : List (List Expr × List Statement)}
      (hcondition : ∀ part ∈ condition, part.TestInRange design allowed)
      (hbody : ∀ s ∈ body, InRange design allowed s)
      (htests : ∀ elif ∈ elifs, ∀ part ∈ elif.1, part.TestInRange design allowed)
      (helifs : ∀ elif ∈ elifs, ∀ s ∈ elif.2, InRange design allowed s)
      (hotherwise : ∀ s ∈ otherwise, InRange design allowed s) :
      InRange design allowed (.branch id condition body elifs otherwise)
  | select {id : StatementId} {subject : Expr} {cases : List (Option Expr × List Statement)}
      (hsubject : subject.InRange design allowed design.arch.signals.size)
      (hkeys : ∀ branch ∈ cases, ∀ key ∈ branch.1,
        key.InRange design allowed design.arch.signals.size)
      (hcases : ∀ branch ∈ cases, ∀ s ∈ branch.2, InRange design allowed s) :
      InRange design allowed (.select id subject cases)
  | wait {id : StatementId} {timed : Bool} {duration : Option Nat} :
      InRange design allowed (.wait id timed duration)

-- Names, types, signals, processes and ports that are mentioned are there, arrays come after the
-- types of their elements, and hidden signals after those that they stand for. What is bound to a
-- port finds one at its place and one that has its number.
structure Design.InRange (design : Design) (allowed : Nat → Prop) : Prop where
  types : design.types.Ascending
  entity : design.hasName design.arch.entity.name = true
  name : design.hasName design.arch.name = true
  ports : ∀ port ∈ design.arch.entity.ports.toList,
    design.hasName port.name = true ∧ design.hasType port.type = true
  signals : ∀ signal ∈ design.arch.signals.toList, design.arch.hasSignal signal.id = true ∧
    design.hasName signal.name = true ∧ design.hasType signal.type = true
  defaults : ∀ signal ∈ design.arch.signals.toList, ∀ value ∈ signal.default,
    value.InRange design allowed
  origins : ∀ entry ∈ design.arch.signals.entries, ∀ origin ∈ entry.2.alias?,
    origin.InRange design allowed entry.1.index
  processes : ∀ process ∈ design.arch.processes.toList,
    design.arch.processes.contains process.id = true ∧ design.hasName process.name = true ∧
      ∀ id ∈ process.sensitivity, design.arch.hasSignal id = true
  bodies : ∀ process ∈ design.arch.processes.toList, ∀ s ∈ process.body, s.InRange design allowed
  connections : ∀ link ∈ design.arch.connections,
    design.arch.hasSignal link.destination = true ∧ design.arch.hasSignal link.source = true
  bindings : ∀ binding ∈ design.arch.portBindings,
    (∃ port ∈ design.arch.entity.ports.toList, port.id = binding.1) ∧
      design.arch.entity.ports.contains binding.1 = true ∧
      design.arch.hasSignal binding.2 = true
  components : ∀ component ∈ design.arch.components,
    design.hasName component.name = true ∧ design.hasName component.entity = true ∧
      ∀ entry ∈ component.portMap,
        design.hasName entry.1 = true ∧ design.arch.hasSignal entry.2 = true

namespace Renderer

variable {r : Renderer} {layout : Layout}

theorem exists_text {id : NameId} (h : r.design.hasName id = true) :
    ∃ text, r.text id = .ok text := by
  obtain ⟨text, htext⟩ := Design.hasName_iff.mp h
  exact ⟨text, text_eq_ok.mpr htext⟩

theorem exists_type {id : TypeId} (h : r.design.hasType id = true) :
    ∃ type, r.type id = .ok type := by
  obtain ⟨type, htype⟩ := Design.hasType_iff.mp h
  exact ⟨type, type_eq_ok.mpr htype⟩

theorem exists_signal {id : SignalId} (hid : r.design.arch.hasSignal id = true) :
    ∃ signal, r.signal id = .ok signal := by
  obtain ⟨signal, hsignal⟩ := Architecture.hasSignal_iff.mp hid
  exact ⟨signal, signal_eq_ok.mpr hsignal⟩

theorem exists_mention {id : TypeId} (h : r.design.hasType id = true) :
    ∃ text, r.typeText id = .ok text := by
  obtain ⟨type, htype⟩ := Design.hasType_iff.mp h
  exact exists_typeText htype

-- A failure that mentions a type.
theorem reports_mention_throw {α : Type} {id : TypeId} (h : r.design.hasType id = true)
    {cause : String → RenderError} (hcause : ∀ text, (cause text).Reported allowed) :
    Reports allowed (do throw (cause (← r.typeText id)) : Except RenderError α) :=
  .bind_exists (exists_mention h) fun text _ => .error (hcause text)

theorem reports_bitsText {type : HwType} {vector : LogicVec}
    (h : type.isNumber = false → vector.Digits allowed) :
    Reports allowed (bitsText type vector) := by
  rw [bitsText.eq_def]
  split
  · rw [LogicVec.signedLiteral]
    split
    · exact .ok _
    · exact .error trivial
  · rw [LogicVec.unsignedLiteral]
    split
    · exact .ok _
    · exact .error trivial
  · rename_i hsigned hunsigned
    split
    · exact .ok _
    · refine LogicVec.reports_bitString (h ?_)
      rw [HwType.isNumber.eq_def]
      split
      · exact absurd rfl (hsigned _ _)
      · exact absurd rfl (hunsigned _ _)
      · rfl

theorem reports_labelText {id : TypeId} (h : r.design.hasType id = true) (type : HwType)
    (index : Nat) : Reports allowed (r.labelText id type index) := by
  rw [labelText.eq_def]
  split
  · split
    · exact .ok _
    · exact reports_mention_throw h fun _ => trivial
  · exact reports_mention_throw h fun _ => trivial

theorem reports_valueText {value : Value} (htypes : r.design.types.Ascending)
    (h : value.InRange r.design allowed) : Reports allowed (r.valueText value) := by
  have hundefined : Reports allowed (do r.dialect.undefined (← r.typeText value.type)) :=
    .bind_exists (exists_mention h.type) fun text _ => r.dialect.reports_undefined text
  refine .bind_exists (exists_type h.type) fun type htype => ?_
  rw [type_eq_ok] at htype
  split
  · rename_i vector hpayload
    obtain ⟨width, hwidth⟩ :=
      TypeTable.exists_bitWidth? htypes.acyclic htypes.closed (Design.hasType_iff.mp h.type)
    rw [hwidth]
    simp only
    split
    · rename_i hfits
      refine reports_bitsText fun hplain => h.digits vector type hpayload htype hplain ?_
      rw [hwidth, hfits]
    · exact reports_mention_throw h.type fun _ => trivial
  · exact .ok _
  · exact .ok _
  · exact .ok _
  · exact reports_labelText h.type ..
  · exact hundefined
  · exact hundefined
  · exact hundefined
  · exact hundefined

variable {parent : Operator} {part : Expr} {pending : Pending}

theorem reports_operandText (index : Nat) (h : Reports allowed (pending ())) :
    Reports allowed (r.operandText parent index part pending) := by
  rw [operandText_eq]
  exact h.bind fun _ _ => .ok _

theorem reports_conditionPart {asBoolean : Bool} (h : Reports allowed (pending ()))
    (htype : ∃ id type, r.exprType part = .ok id ∧ r.type id = .ok type)
    (htested : asBoolean = true → part.Tested r.design allowed) :
    Reports allowed (r.conditionPart asBoolean part pending) := by
  obtain ⟨id, type, hid, htype⟩ := htype
  rw [conditionPart]
  split
  · exact h
  rename_i hboolean
  refine .bind_exists ⟨id, hid⟩ fun _ hsame => ?_
  obtain rfl := Except.ok.inj (hid.symm.trans hsame)
  refine .bind_exists ⟨type, htype⟩ fun _ hsame => ?_
  obtain rfl := Except.ok.inj (htype.symm.trans hsame)
  split
  · exact h
  · rename_i width signedness force
    split
    · exact (reports_operandText 0 h).bind fun _ _ => r.dialect.reports_operator rfl
    · refine (LogicVec.reports_bitString (htested (by simpa using hboolean) width signedness force
        ?_)).bind fun zeros _ => ?_
      · rw [Design.typeOf?, exprType_eq_ok.mp hid, Option.bind_some, type_eq_ok.mp htype]
      · exact (reports_operandText 0 h).bind fun _ _ => r.dialect.reports_operator rfl
  · exact reports_mention_throw (Design.hasType_iff.mpr ⟨type, type_eq_ok.mp htype⟩)
      fun _ => trivial

theorem reports_conditionText {asBoolean : Bool} {pairs : List (Expr × Pending)}
    (h : ∀ pair ∈ pairs, Reports allowed (r.conditionPart asBoolean pair.1 pair.2)) :
    Reports allowed (r.conditionText asBoolean pairs) := by
  rw [conditionText]
  split
  · exact .error trivial
  · exact (Reports.mapM fun pair hpair => (h pair hpair).bind fun _ _ => .ok _).bind
      fun _ _ => .ok _

theorem reports_placeText {op : Operator} (place : Nat) (h : Reports allowed (pending ()))
    (htest : op = .ternary → place = 0 → Reports allowed (r.conditionPart true part pending)) :
    Reports allowed (r.placeText op place part pending) := by
  rw [placeText.eq_def]
  split
  · split
    · exact .ok _
    · exact .error trivial
  · exact h
  · exact h
  · exact reports_conditionText (List.forall_mem_singleton.mpr (htest rfl rfl))
  · exact reports_operandText _ h

-- The number of operands is checked before the pattern of the operator looks for them.
theorem reports_applyText {op : Operator} {pairs : List (Expr × Pending)}
    (h : ∀ pair ∈ pairs, Reports allowed (pair.2 ()))
    (htest : op = .ternary → ∀ pair ∈ pairs.head?,
      Reports allowed (r.conditionPart true pair.1 pair.2)) :
    Reports allowed (r.applyText op pairs) := by
  cases harity : op.arity.accepts pairs.length with
  | false =>
      simp only [applyText, harity, Bool.not_false, if_true]
      exact .error trivial
  | true =>
      rw [applyText_eq harity]
      refine (Reports.mapM fun entry hentry => ?_).bind fun texts htexts => ?_
      · refine reports_placeText _ (h _ (List.fst_mem_of_mem_zipIdx hentry)) fun hop hplace => ?_
        refine htest hop _ ?_
        rw [List.mem_zipIdx_iff_getElem?, hplace, ← List.head?_eq_getElem?] at hentry
        exact hentry
      · have hlength := (mapM_eq_ok.mp htexts).length_eq
        rw [List.length_zipIdx] at hlength
        exact r.dialect.reports_operator (hlength ▸ harity)

-- What needs the whole design to be in range.

theorem exists_ownName (h : r.design.InRange allowed) {id : SignalId}
    (hid : r.design.arch.hasSignal id = true) : ∃ name, r.signalName id = .ok name := by
  obtain ⟨signal, hsignal⟩ := Architecture.hasSignal_iff.mp hid
  obtain ⟨-, hname, -⟩ := h.signals signal (Arena.mem_toList_of_get? hsignal)
  exact exists_signalName hsignal (Design.hasName_iff.mp hname)

theorem exists_exprType (h : r.design.InRange allowed) {count : Nat} {e : Expr}
    (hcount : count ≤ r.design.arch.signals.size) (he : e.InRange r.design allowed count) :
    ∃ id type, r.exprType e = .ok id ∧ r.type id = .ok type := by
  cases he with
  | signal hid =>
      obtain ⟨signal, hsignal⟩ :=
        Architecture.hasSignal_iff.mp (decide_eq_true (hid.trans_le hcount))
      obtain ⟨-, -, htype⟩ := h.signals signal (Arena.mem_toList_of_get? hsignal)
      obtain ⟨type, htype⟩ := exists_type htype
      exact ⟨signal.type, type, bind_eq_ok.mpr ⟨signal, signal_eq_ok.mpr hsignal, rfl⟩, htype⟩
  | literal hvalue =>
      obtain ⟨type, htype⟩ := exists_type hvalue.type
      exact ⟨_, type, rfl, htype⟩
  | apply hfound =>
      obtain ⟨type, htype⟩ := exists_type hfound
      exact ⟨_, type, rfl, htype⟩

-- The induction is on the evidence that the expression is in range.
theorem reports_exprWith (h : r.design.InRange allowed) {count : Nat}
    (hcount : count ≤ r.design.arch.signals.size) {write : SignalId → Except RenderError String}
    (hwrite : ∀ id, id.index < count → Reports allowed (write id)) {e : Expr}
    (he : e.InRange r.design allowed count) : Reports allowed (r.exprWith write e) := by
  induction he with
  | signal hid => exact hwrite _ hid
  | literal hvalue => exact reports_valueText h.types hvalue
  | @apply op operands type _ hoperands htest ih =>
      rw [exprWith, exprsWith_eq_map]
      refine reports_applyText (List.forall_mem_map.mpr ih) fun hop pair hpair => ?_
      rw [List.head?_map, Option.mem_def, Option.map_eq_some_iff] at hpair
      obtain ⟨test, hfirst, rfl⟩ := hpair
      have hmem := List.mem_of_head? hfirst
      exact reports_conditionPart (ih test hmem)
        (exists_exprType h hcount (hoperands test hmem)) fun _ => htest hop test hfirst

-- A hidden signal is written from signals that come before it, so that the depth is never used up.
theorem reports_signalText (h : r.design.InRange allowed) {depth : Nat}
    (hdepth : depth ≤ r.design.arch.signals.size) {id : SignalId} (hid : id.index < depth) :
    Reports allowed (r.signalText depth id) := by
  induction depth generalizing id with
  | zero => exact absurd hid (Nat.not_lt_zero _)
  | succ depth ih =>
      have hthere : r.design.arch.hasSignal id = true := decide_eq_true (hid.trans_le hdepth)
      refine .bind_exists (exists_signal hthere) fun signal hsignal => ?_
      split
      · rename_i origin horigin
        have hentry := Arena.mem_entries_iff.mpr (signal_eq_ok.mp hsignal)
        have hbefore : id.index ≤ depth := Nat.le_of_lt_succ hid
        refine reports_exprWith h ((Nat.le_succ_of_le hbefore).trans hdepth)
          (fun other hother => ?_) (h.origins _ hentry origin horigin)
        exact ih ((Nat.le_succ _).trans hdepth) (hother.trans_le hbefore)
      · exact .bind_exists (exists_ownName h hthere) fun _ _ => .ok _

theorem reports_exprText (h : r.design.InRange allowed) {e : Expr}
    (he : e.InRange r.design allowed r.design.arch.signals.size) :
    Reports allowed (r.exprText e) :=
  reports_exprWith h le_rfl (fun _ => reports_signalText h le_rfl) he

theorem reports_condition (h : r.design.InRange allowed) {asBoolean : Bool} {parts : List Expr}
    (hparts : ∀ part ∈ parts, part.InRange r.design allowed r.design.arch.signals.size)
    (htested : asBoolean = true → ∀ part ∈ parts, part.Tested r.design allowed) :
    Reports allowed (r.condition asBoolean parts) := by
  rw [condition, withTexts_eq_map]
  refine reports_conditionText (List.forall_mem_map.mpr fun part hpart => ?_)
  exact reports_conditionPart (reports_exprText h (hparts part hpart))
    (exists_exprType h le_rfl (hparts part hpart)) fun hboolean => htested hboolean part hpart

theorem reports_test (h : r.design.InRange allowed) {parts : List Expr}
    (hparts : ∀ part ∈ parts, part.TestInRange r.design allowed) :
    Reports allowed (r.condition true parts) :=
  reports_condition h (fun part hpart => (hparts part hpart).inRange)
    fun _ part hpart => (hparts part hpart).tested

theorem reports_assignmentText (h : r.design.InRange allowed) {destination : SignalId}
    {source : Expr} {indexes : Option (List Expr)} {onEvent : Bool}
    (hdestination : r.design.arch.hasSignal destination = true)
    (hsource : source.InRange r.design allowed r.design.arch.signals.size) :
    Reports allowed (r.assignmentText destination source indexes onEvent) := by
  obtain ⟨type, found, htype, hfound⟩ := exists_exprType h le_rfl hsource
  refine .bind_exists (exists_signal hdestination) fun signal hsignal => ?_
  refine .bind_exists ⟨type, htype⟩ fun _ hsame => ?_
  obtain rfl := Except.ok.inj (htype.symm.trans hsame)
  refine .bind_exists (exists_ownName h hdestination) fun name _ => ?_
  refine (reports_exprText h hsource).bind fun value _ => ?_
  by_cases hdiffer : signal.type ≠ type
  · obtain ⟨-, -, htarget⟩ :=
      h.signals signal (Arena.mem_toList_of_get? (signal_eq_ok.mp hsignal))
    rw [if_pos hdiffer]
    refine .bind_exists (exists_mention htarget) fun _ _ => ?_
    exact .bind_exists (exists_typeText (type_eq_ok.mp hfound)) fun _ _ => .error trivial
  · rw [if_neg hdiffer]
    split
    · exact .error trivial
    · exact .ok _

theorem reports_waitText (timed : Bool) (duration : Option Nat) :
    Reports allowed (r.waitText timed duration) := by
  rw [waitText.eq_def]
  split
  · exact .ok _
  · exact .ok _
  · exact .error trivial
  · exact .error trivial

theorem reports_statements {body : List Statement}
    (h : ∀ s ∈ body, Reports allowed (r.statement layout s)) :
    Reports allowed (r.statements layout body) := by
  induction body with
  | nil => exact .ok _
  | cons s rest ih =>
      obtain ⟨hfirst, hrest⟩ := List.forall_mem_cons.mp h
      exact hfirst.bind fun _ _ => (ih hrest).bind fun _ _ => .ok _

theorem reports_elifs {elifs : List (List Expr × List Statement)}
    (htests : ∀ elif ∈ elifs, Reports allowed (r.condition true elif.1))
    (h : ∀ elif ∈ elifs, Reports allowed (r.statements layout elif.2)) :
    Reports allowed (r.elifs layout elifs) := by
  induction elifs with
  | nil => exact .ok _
  | cons elif rest ih =>
      obtain ⟨htest, htests⟩ := List.forall_mem_cons.mp htests
      obtain ⟨hfirst, hrest⟩ := List.forall_mem_cons.mp h
      exact htest.bind fun _ _ => hfirst.bind fun _ _ => (ih htests hrest).bind fun _ _ => .ok _

theorem reports_cases {cases : List (Option Expr × List Statement)}
    (hkeys : ∀ branch ∈ cases, ∀ key ∈ branch.1, Reports allowed (r.exprText key))
    (h : ∀ branch ∈ cases, Reports allowed (r.statements layout branch.2)) :
    Reports allowed (r.cases layout cases) := by
  induction cases with
  | nil => exact .ok _
  | cons branch rest ih =>
      obtain ⟨hkey, hothers⟩ := List.forall_mem_cons.mp hkeys
      obtain ⟨hfirst, hrest⟩ := List.forall_mem_cons.mp h
      obtain ⟨_ | key, body⟩ := branch
      · exact hfirst.bind fun _ _ => (ih hothers hrest).bind fun _ _ => .ok _
      · exact (hkey key rfl).bind fun _ _ => hfirst.bind fun _ _ =>
          (ih hothers hrest).bind fun _ _ => .ok _

theorem reports_statement (h : r.design.InRange allowed) {s : Statement}
    (hs : s.InRange r.design allowed) : Reports allowed (r.statement layout s) := by
  induction hs with
  | assign hdestination hsource => exact reports_assignmentText h hdestination hsource
  | branch hcondition _ htests _ _ ihbody ihelifs ihotherwise =>
      have helifs : Reports allowed (r.elifs layout _) :=
        reports_elifs (fun elif helif => reports_test h (htests elif helif))
          fun elif helif => reports_statements (ihelifs elif helif)
      exact helifs.bind fun _ _ => (reports_test h hcondition).bind fun _ _ =>
        (reports_statements ihbody).bind fun _ _ =>
          (reports_statements ihotherwise).bind fun _ _ => .ok _
  | select hsubject hkeys _ ihcases =>
      have hcases : Reports allowed (r.cases layout _) :=
        reports_cases
          (fun branch hbranch key hkey => reports_exprText h (hkeys branch hbranch key hkey))
          fun branch hbranch => reports_statements (ihcases branch hbranch)
      exact hcases.bind fun _ _ =>
        (reports_condition h (List.forall_mem_singleton.mpr hsubject)
          fun hfalse => absurd hfalse Bool.false_ne_true).bind fun _ _ => .ok _
  | wait => exact reports_waitText ..

end Renderer

end Rtl
