import Rtl.Proofs.Outcome
import Rtl.Render.Statement

namespace Rtl

-- What the parts of a unit are called.
abbrev Naming := Owner → String

-- How things are written under a naming. The renderer says what design is
-- written, and in which dialect; the names it gives do not matter.

variable (r : Renderer) (naming : Naming) (layout : Layout)

-- A signal where only a name can stand. A hidden one has its own there.
inductive SignalNamed (id : SignalId) : String → Prop
  | shown {signal : Signal} (hsignal : r.design.arch.signals.get? id = some signal)
      (hshown : signal.hidden = false) : SignalNamed id (naming (.signal id))
  | hidden {signal : Signal} {text : String}
      (hsignal : r.design.arch.signals.get? id = some signal) (hhidden : signal.hidden = true)
      (htext : r.design.names.text? signal.name = some text) : SignalNamed id text

mutual

inductive ExprWritten : Expr → String → Prop
  | signal {id : SignalId} {signal : Signal} {name : String}
      (hsignal : r.design.arch.signals.get? id = some signal) (halias : signal.alias? = none)
      (hname : SignalNamed r naming id name) : ExprWritten (.signal id) (r.dialect.signalRef name)
  | alias {id : SignalId} {signal : Signal} {origin : Expr} {text : String}
      (hsignal : r.design.arch.signals.get? id = some signal)
      (halias : signal.alias? = some origin) (horigin : ExprWritten origin text) :
      ExprWritten (.signal id) text
  | literal {value : Value} {text : String} (hvalue : r.valueText value = .ok text) :
      ExprWritten (.literal value) text
  | apply {op : Operator} {operands : List Expr} {texts : List String} {text : String}
      (type : TypeId) (hoperands : PartsWritten operands texts)
      (htext : r.dialect.operator op texts = .ok text) :
      ExprWritten (.apply op operands type) text

-- An expression as a part of a longer text: as it is, in parentheses, as the name
-- of what is called, or compared with one or zero.
inductive PartWritten : Expr → String → Prop
  | whole {e : Expr} {text : String} (h : ExprWritten e text) : PartWritten e text
  | bracketed {e : Expr} {text : String} (h : PartWritten e text) :
      PartWritten e (Renderer.parenthesize text)
  | function (type : TypeId) (name : String) : PartWritten (.literal ⟨type, .text (some name)⟩) name
  | isOne {e : Expr} {text test : String} (h : PartWritten e text)
      (htest : r.dialect.operator .eq [text, LogicVec.bitLiteral (some true)] = .ok test) :
      PartWritten e test
  | isNotZero {e : Expr} {width : Nat} {text zeros test : String} (h : PartWritten e text)
      (hzeros : (LogicVec.zeros width).bitString = .ok zeros)
      (htest : r.dialect.operator .ne [text, zeros] = .ok test) : PartWritten e test

inductive PartsWritten : List Expr → List String → Prop
  | nil : PartsWritten [] []
  | cons {e : Expr} {text : String} {rest : List Expr} {texts : List String}
      (h : PartWritten e text) (hrest : PartsWritten rest texts) :
      PartsWritten (e :: rest) (text :: texts)

end

def ConditionWritten (parts : List Expr) (text : String) : Prop :=
  ∃ texts, PartsWritten r naming parts texts ∧
    text = String.intercalate r.dialect.logicalAnd texts

mutual

inductive StatementWritten : Statement → String → Prop
  | assign (id : StatementId) {destination : SignalId} {source : Expr} {target value : String}
      (onEvent : Bool) (htarget : SignalNamed r naming destination target)
      (hvalue : ExprWritten r naming source value) :
      StatementWritten (.assign id destination source none onEvent)
        (r.dialect.assignment (r.dialect.assignmentTarget target) value onEvent)
  | branch (id : StatementId) {condition : List Expr} {body otherwise : List Statement}
      {elifs : List (List Expr × List Statement)} {piece : BranchPiece}
      (hcondition : ConditionWritten r naming condition piece.condition)
      (hbody : BodyWritten body piece.body) (helifs : ElifsWritten elifs piece.elifs)
      (hotherwise : BodyWritten otherwise piece.otherwise) :
      StatementWritten (.branch id condition body elifs otherwise) (layout (.branch piece))
  | select (id : StatementId) {subject : Expr} {cases : List (Option Expr × List Statement)}
      {piece : SelectPiece} (hsubject : ConditionWritten r naming [subject] piece.subject)
      (hcases : CasesWritten cases piece.cases) :
      StatementWritten (.select id subject cases) (layout (.select piece))
  | wait (id : StatementId) {timed : Bool} {duration : Option Nat} {text : String}
      (htext : r.waitText timed duration = .ok text) :
      StatementWritten (.wait id timed duration) text

inductive BodyWritten : List Statement → List String → Prop
  | nil : BodyWritten [] []
  | cons {s : Statement} {rest : List Statement} {text : String} {texts : List String}
      (h : StatementWritten s text) (hrest : BodyWritten rest texts) :
      BodyWritten (s :: rest) (text :: texts)

inductive ElifsWritten : List (List Expr × List Statement) → List (String × List String) → Prop
  | nil : ElifsWritten [] []
  | cons {condition : List Expr} {body : List Statement} {text : String} {texts : List String}
      {rest : List (List Expr × List Statement)} {more : List (String × List String)}
      (hcondition : ConditionWritten r naming condition text) (hbody : BodyWritten body texts)
      (hrest : ElifsWritten rest more) :
      ElifsWritten ((condition, body) :: rest) ((text, texts) :: more)

inductive CasesWritten :
    List (Option Expr × List Statement) → List (Option String × List String) → Prop
  | nil : CasesWritten [] []
  | default {body : List Statement} {texts : List String}
      {rest : List (Option Expr × List Statement)} {more : List (Option String × List String)}
      (hbody : BodyWritten body texts) (hrest : CasesWritten rest more) :
      CasesWritten ((none, body) :: rest) ((none, texts) :: more)
  | key {key : Expr} {body : List Statement} {text : String} {texts : List String}
      {rest : List (Option Expr × List Statement)} {more : List (Option String × List String)}
      (hkey : ExprWritten r naming key text) (hbody : BodyWritten body texts)
      (hrest : CasesWritten rest more) :
      CasesWritten ((some key, body) :: rest) ((some text, texts) :: more)

end

-- The same renderer after names were given to all shown signals.
structure Renderer.Named (r : Renderer) (naming : Naming) (s : Renderer) : Prop where
  dialect : s.dialect = r.dialect
  design : s.design = r.design
  timeUnit : s.timeUnit = r.timeUnit
  signals : ∀ id, s.signalNames.lookup id =
    (r.design.arch.signals.get? id).bind fun signal =>
      if signal.hidden then none else some (naming (.signal id))

variable {r s : Renderer} {naming : Naming} {layout : Layout}

namespace Renderer

theorem text_eq_ok {id : NameId} {text : String} :
    r.text id = .ok text ↔ r.design.names.text? id = some text := by
  cases h : r.design.names.text? id with
  | none | some => simp [Renderer.text, h]

theorem signal_eq_ok {id : SignalId} {signal : Signal} :
    r.signal id = .ok signal ↔ r.design.arch.signals.get? id = some signal := by
  cases h : r.design.arch.signals.get? id with
  | none | some => simp [Renderer.signal, h]

theorem type_eq_ok {id : TypeId} {type : HwType} :
    r.type id = .ok type ↔ r.design.types.get? id = some type := by
  cases h : r.design.types.get? id with
  | none | some => simp [Renderer.type, h]

-- Every type there is can be mentioned, also one that was not declared.
theorem exists_typeText {id : TypeId} {type : HwType} (h : r.design.types.get? id = some type) :
    ∃ text, r.typeText id = .ok text := by
  simp only [typeText, type_eq_ok.mpr h]
  cases type with
  | bits | boolean | integer | text | enumeration | array => exact ⟨_, rfl⟩

-- The names of types show in a value only where it cannot be written.
theorem valueText_eq_ok_of_design {value : Value} {text : String} (hdialect : s.dialect = r.dialect)
    (hdesign : s.design = r.design) (h : s.valueText value = .ok text) :
    r.valueText value = .ok text := by
  obtain ⟨type, payload⟩ := value
  simp only [valueText, bind_eq_ok, type_eq_ok, hdesign, hdialect] at h ⊢
  obtain ⟨found, hfound, h⟩ := h
  refine ⟨found, hfound, ?_⟩
  have hundefined {text : String} (h : (s.typeText type >>= r.dialect.undefined) = .ok text) :
      (r.typeText type >>= r.dialect.undefined) = .ok text := by
    obtain ⟨mention, hmention⟩ := exists_typeText hfound
    obtain ⟨_, -, h⟩ := bind_eq_ok.mp h
    refine bind_eq_ok.mpr ⟨mention, hmention, ?_⟩
    cases hd : r.dialect with
    | vhdl =>
        rw [hd] at h
        cases h
    | simModel =>
        rw [hd] at h
        exact h
  cases payload with
  | bits vector =>
      simp only at h ⊢
      split at h
      · cases h
      · split at h
        · rename_i hwidth
          rw [if_pos hwidth]
          exact h
        · obtain ⟨_, -, h⟩ := bind_eq_ok.mp h
          cases h
  | boolean content =>
      cases content with
      | some flag => exact h
      | none => exact hundefined h
  | integer content =>
      cases content with
      | some number => exact h
      | none => exact hundefined h
  | text content =>
      cases content with
      | some content => exact h
      | none => exact hundefined h
  | label content =>
      cases content with
      | some index =>
          simp only [labelText] at h ⊢
          split at h
          · split at h
            · exact h
            · obtain ⟨_, -, h⟩ := bind_eq_ok.mp h
              cases h
          · obtain ⟨_, -, h⟩ := bind_eq_ok.mp h
            cases h
      | none => exact hundefined h

end Renderer

theorem partWritten_of_operandText {parent : Operator} {index : Nat} {operand : Expr}
    {pending : Renderer.Pending} {text : String}
    (hpending : ∀ text, pending () = .ok text → ExprWritten r naming operand text)
    (h : s.operandText parent index operand pending = .ok text) :
    PartWritten r naming operand text := by
  simp only [Renderer.operandText, bind_eq_ok] at h
  obtain ⟨inner, hinner, h⟩ := h
  have hwhole := PartWritten.whole (hpending inner hinner)
  split at h
  · obtain rfl := Except.ok.inj h
    exact hwhole
  · split at h
    · split at h
      · obtain rfl := Except.ok.inj h
        exact .bracketed hwhole
      · obtain rfl := Except.ok.inj h
        exact hwhole
    · obtain rfl := Except.ok.inj h
      exact hwhole

-- Each part is written at last as what it was to be.
abbrev Pairs (r : Renderer) (naming : Naming) (pairs : List (Expr × Renderer.Pending)) : Prop :=
  ∀ pair ∈ pairs, ∀ text, pair.2 () = .ok text → ExprWritten r naming pair.1 text

theorem partsWritten_of_mapM {pairs : List (Expr × Renderer.Pending)} {texts : List String}
    {write : Expr × Renderer.Pending → Except RenderError String}
    (hwrite : ∀ pair ∈ pairs, ∀ text, write pair = .ok text → PartWritten r naming pair.1 text)
    (h : pairs.mapM write = .ok texts) : PartsWritten r naming (pairs.map (·.1)) texts := by
  rw [mapM_eq_ok] at h
  induction h with
  | nil => exact .nil
  | cons hfirst hrest ih =>
      obtain ⟨hhead, htail⟩ := List.forall_mem_cons.mp hwrite
      exact .cons (hhead _ hfirst) (ih htail)

theorem partsWritten_of_zipIdx {pairs : List (Expr × Renderer.Pending)} {texts : List String}
    {write : (Expr × Renderer.Pending) × Nat → Except RenderError String} (first : Nat)
    (hwrite : ∀ pair ∈ pairs, ∀ index text, write (pair, index) = .ok text →
      PartWritten r naming pair.1 text)
    (h : (pairs.zipIdx first).mapM write = .ok texts) :
    PartsWritten r naming (pairs.map (·.1)) texts := by
  induction pairs generalizing first texts with
  | nil =>
      obtain rfl := Except.ok.inj h
      exact .nil
  | cons pair rest ih =>
      obtain ⟨hhead, htail⟩ := List.forall_mem_cons.mp hwrite
      rw [List.zipIdx_cons, mapM_eq_ok, List.forall₂_cons_left_iff] at h
      obtain ⟨text, texts, hfirst, hrest, rfl⟩ := h
      exact .cons (hhead _ _ hfirst) (ih _ htail (mapM_eq_ok.mpr hrest))

namespace Renderer.Named

theorem signalNamed (hnamed : r.Named naming s) {id : SignalId} {text : String}
    (h : s.signalName id = .ok text) : SignalNamed r naming id text := by
  simp only [signalName, hnamed.signals] at h
  cases hsignal : r.design.arch.signals.get? id with
  | none =>
      simp only [hsignal, Option.bind_none, bind_eq_ok, signal_eq_ok, hnamed.design] at h
      obtain ⟨_, hnone, -⟩ := h
      cases hnone
  | some signal =>
      simp only [hsignal, Option.bind_some] at h
      cases hhidden : signal.hidden with
      | false =>
          rw [hhidden] at h
          obtain rfl := Except.ok.inj h
          exact .shown hsignal hhidden
      | true =>
          simp only [hhidden, if_true, bind_eq_ok, signal_eq_ok, text_eq_ok, hnamed.design,
            hsignal] at h
          obtain ⟨_, hsame, htext⟩ := h
          obtain rfl := Option.some.inj hsame
          exact .hidden hsignal hhidden htext

theorem conditionPart (hnamed : r.Named naming s) {asBoolean : Bool} {part : Expr}
    {pending : Pending} {text : String}
    (hpending : ∀ text, pending () = .ok text → ExprWritten r naming part text)
    (h : s.conditionPart asBoolean part pending = .ok text) : PartWritten r naming part text := by
  simp only [Renderer.conditionPart] at h
  split at h
  · exact .whole (hpending text h)
  · obtain ⟨id, -, h⟩ := bind_eq_ok.mp h
    obtain ⟨type, -, h⟩ := bind_eq_ok.mp h
    split at h
    · exact .whole (hpending text h)
    · split at h
      · obtain ⟨inner, hinner, htest⟩ := bind_eq_ok.mp h
        exact .isOne (partWritten_of_operandText hpending hinner) (hnamed.dialect ▸ htest)
      · obtain ⟨zeros, hzeros, h⟩ := bind_eq_ok.mp h
        obtain ⟨inner, hinner, htest⟩ := bind_eq_ok.mp h
        exact .isNotZero (partWritten_of_operandText hpending hinner) hzeros
          (hnamed.dialect ▸ htest)
    · obtain ⟨_, -, h⟩ := bind_eq_ok.mp h
      cases h

theorem conditionText (hnamed : r.Named naming s) {asBoolean : Bool}
    {pairs : List (Expr × Pending)} {text : String} (hpairs : Pairs r naming pairs)
    (h : s.conditionText asBoolean pairs = .ok text) :
    ConditionWritten r naming (pairs.map (·.1)) text := by
  simp only [Renderer.conditionText] at h
  split at h
  · cases h
  obtain ⟨-, -, h⟩ := bind_eq_ok.mp h
  obtain ⟨texts, htexts, h⟩ := bind_eq_ok.mp h
  obtain rfl := Except.ok.inj h
  refine ⟨texts, partsWritten_of_mapM ?_ htexts, by rw [hnamed.dialect]⟩
  intro pair hmem text hpart
  obtain ⟨inner, hinner, h⟩ := bind_eq_ok.mp hpart
  have hwritten := hnamed.conditionPart (hpairs pair hmem) hinner
  split at h
  · obtain rfl := Except.ok.inj h
    exact .bracketed hwritten
  · obtain rfl := Except.ok.inj h
    exact hwritten

theorem applyText (hnamed : r.Named naming s) {op : Operator} {pairs : List (Expr × Pending)}
    {text : String} (hpairs : Pairs r naming pairs) (h : s.applyText op pairs = .ok text) :
    ∃ texts, PartsWritten r naming (pairs.map (·.1)) texts ∧
      r.dialect.operator op texts = .ok text := by
  simp only [Renderer.applyText] at h
  split at h
  · cases h
  have hplain (rest : List (Expr × Pending)) (hrest : Pairs r naming rest) (texts : List String)
      (htexts : rest.mapM (fun pair => pair.2 ()) = .ok texts) :
      PartsWritten r naming (rest.map (·.1)) texts :=
    partsWritten_of_mapM (fun pair hmem text htext => .whole (hrest pair hmem text htext)) htexts
  have hoperands (position : Nat → Nat) (rest : List (Expr × Pending)) (hrest : Pairs r naming rest)
      (texts : List String)
      (htexts : rest.zipIdx.mapM (fun entry =>
        s.operandText op (position entry.2) entry.1.1 entry.1.2) = .ok texts) :
      PartsWritten r naming (rest.map (·.1)) texts :=
    partsWritten_of_zipIdx 0 (fun pair hmem index text htext =>
      partWritten_of_operandText (hrest pair hmem) htext) htexts
  split at h
  · obtain ⟨texts, htexts, h⟩ := bind_eq_ok.mp h
    have hrest := hplain _ (List.forall_mem_cons.mp hpairs).2 _ htexts
    exact ⟨_, .cons (.function ..) hrest, hnamed.dialect ▸ h⟩
  · obtain ⟨_, h, -⟩ := bind_eq_ok.mp h
    cases h
  · obtain ⟨texts, htexts, h⟩ := bind_eq_ok.mp h
    exact ⟨_, hplain _ hpairs _ htexts, hnamed.dialect ▸ h⟩
  · obtain ⟨hcondition, hbranches⟩ := List.forall_mem_cons.mp hpairs
    obtain ⟨test, htest, h⟩ := bind_eq_ok.mp h
    obtain ⟨texts, htexts, h⟩ := bind_eq_ok.mp h
    obtain ⟨tests, htests, rfl⟩ := hnamed.conditionText (List.forall_mem_singleton.mpr hcondition)
      htest
    cases htests with
    | cons hfirst hnone =>
        cases hnone
        exact ⟨_, .cons hfirst (hoperands (· + 1) _ hbranches _ htexts), hnamed.dialect ▸ h⟩
  · obtain ⟨texts, htexts, h⟩ := bind_eq_ok.mp h
    exact ⟨_, hoperands id _ hpairs _ htexts, hnamed.dialect ▸ h⟩

mutual

theorem exprWith (hnamed : r.Named naming s) {write : SignalId → Except RenderError String}
    (hwrite : ∀ id text, write id = .ok text → ExprWritten r naming (.signal id) text) :
    ∀ (e : Expr) (text : String), s.exprWith write e = .ok text → ExprWritten r naming e text
  | .signal id, text, h => hwrite id text h
  | .literal value, text, h => .literal (valueText_eq_ok_of_design hnamed.dialect hnamed.design h)
  | .apply op operands type, text, h => by
      obtain ⟨texts, htexts, htext⟩ := hnamed.applyText (hnamed.exprsWith hwrite operands).1 h
      rw [(hnamed.exprsWith hwrite operands).2] at htexts
      exact .apply type htexts htext

theorem exprsWith (hnamed : r.Named naming s) {write : SignalId → Except RenderError String}
    (hwrite : ∀ id text, write id = .ok text → ExprWritten r naming (.signal id) text) :
    ∀ es : List Expr, Pairs r naming (s.exprsWith write es) ∧
      (s.exprsWith write es).map (·.1) = es
  | [] => ⟨nofun, rfl⟩
  | e :: rest => by
      obtain ⟨hpairs, hsame⟩ := hnamed.exprsWith hwrite rest
      exact ⟨List.forall_mem_cons.mpr ⟨hnamed.exprWith hwrite e, hpairs⟩,
        congrArg (e :: ·) hsame⟩

end

theorem signalText (hnamed : r.Named naming s) (depth : Nat) (id : SignalId) (text : String)
    (h : s.signalText depth id = .ok text) : ExprWritten r naming (.signal id) text := by
  induction depth generalizing id text with
  | zero => cases h
  | succ depth ih =>
      obtain ⟨signal, hsignal, h⟩ := bind_eq_ok.mp h
      rw [signal_eq_ok, hnamed.design] at hsignal
      split at h
      · rename_i origin halias
        exact .alias hsignal halias (hnamed.exprWith ih origin text h)
      · rename_i halias
        obtain ⟨name, hname, h⟩ := bind_eq_ok.mp h
        obtain rfl := Except.ok.inj h
        rw [hnamed.dialect]
        exact .signal hsignal halias (hnamed.signalNamed hname)

theorem exprText (hnamed : r.Named naming s) {e : Expr} {text : String}
    (h : s.exprText e = .ok text) : ExprWritten r naming e text :=
  hnamed.exprWith (hnamed.signalText _) e text h

theorem condition (hnamed : r.Named naming s) {asBoolean : Bool} {parts : List Expr}
    {text : String} (h : s.condition asBoolean parts = .ok text) :
    ConditionWritten r naming parts text := by
  obtain ⟨hpairs, hsame⟩ := hnamed.exprsWith (hnamed.signalText s.design.arch.signals.size) parts
  have hwritten := hnamed.conditionText hpairs h
  rwa [hsame] at hwritten

theorem assignmentText (hnamed : r.Named naming s) {layout : Layout} (id : StatementId)
    {destination : SignalId} {source : Expr} {indexes : Option (List Expr)} {onEvent : Bool}
    {text : String} (h : s.assignmentText destination source indexes onEvent = .ok text) :
    StatementWritten r naming layout (.assign id destination source indexes onEvent) text := by
  simp only [Renderer.assignmentText, bind_eq_ok] at h
  obtain ⟨signal, -, valueType, -, name, hname, value, hvalue, h⟩ := h
  by_cases htype : signal.type = valueType
  · rw [if_neg (not_not.mpr htype)] at h
    cases indexes with
    | some indexes => cases h
    | none =>
        obtain rfl := Except.ok.inj h
        rw [hnamed.dialect]
        exact .assign id onEvent (hnamed.signalNamed hname) (hnamed.exprText hvalue)
  · rw [if_pos htype] at h
    obtain ⟨_, -, h⟩ := bind_eq_ok.mp h
    obtain ⟨_, -, h⟩ := bind_eq_ok.mp h
    cases h

theorem waitText_eq (hnamed : r.Named naming s) (timed : Bool) (duration : Option Nat) :
    s.waitText timed duration = r.waitText timed duration := by
  cases timed with
  | false | true =>
      cases duration with
      | none | some => simp only [Renderer.waitText, hnamed.dialect, hnamed.timeUnit]

mutual

theorem statement (hnamed : r.Named naming s) {layout : Layout} :
    ∀ (t : Statement) (text : String), s.statement layout t = .ok text →
      StatementWritten r naming layout t text
  | .assign id destination source indexes onEvent, text, h => hnamed.assignmentText id h
  | .branch id condition body elifs otherwise, text, h => by
      obtain ⟨elifTexts, helifs, h⟩ := bind_eq_ok.mp h
      obtain ⟨test, htest, h⟩ := bind_eq_ok.mp h
      obtain ⟨bodyTexts, hbody, h⟩ := bind_eq_ok.mp h
      obtain ⟨otherTexts, hother, h⟩ := bind_eq_ok.mp h
      obtain rfl := Except.ok.inj h
      exact .branch id (hnamed.condition htest) (hnamed.statements body _ hbody)
        (hnamed.elifs elifs _ helifs) (hnamed.statements otherwise _ hother)
  | .select id subject cases, text, h => by
      obtain ⟨caseTexts, hcases, h⟩ := bind_eq_ok.mp h
      obtain ⟨subjectText, hsubject, h⟩ := bind_eq_ok.mp h
      obtain rfl := Except.ok.inj h
      exact .select id (hnamed.condition hsubject) (hnamed.cases cases _ hcases)
  | .wait id timed duration, text, h => .wait id (hnamed.waitText_eq timed duration ▸ h)

theorem statements (hnamed : r.Named naming s) {layout : Layout} :
    ∀ (body : List Statement) (texts : List String), s.statements layout body = .ok texts →
      BodyWritten r naming layout body texts
  | [], texts, h => by
      obtain rfl := Except.ok.inj h
      exact .nil
  | t :: rest, texts, h => by
      obtain ⟨text, htext, h⟩ := bind_eq_ok.mp h
      obtain ⟨more, hmore, h⟩ := bind_eq_ok.mp h
      obtain rfl := Except.ok.inj h
      exact .cons (hnamed.statement t text htext) (hnamed.statements rest more hmore)

theorem elifs (hnamed : r.Named naming s) {layout : Layout} :
    ∀ (elifs : List (List Expr × List Statement)) (texts : List (String × List String)),
      s.elifs layout elifs = .ok texts → ElifsWritten r naming layout elifs texts
  | [], texts, h => by
      obtain rfl := Except.ok.inj h
      exact .nil
  | (condition, body) :: rest, texts, h => by
      obtain ⟨test, htest, h⟩ := bind_eq_ok.mp h
      obtain ⟨bodyTexts, hbody, h⟩ := bind_eq_ok.mp h
      obtain ⟨more, hmore, h⟩ := bind_eq_ok.mp h
      obtain rfl := Except.ok.inj h
      exact .cons (hnamed.condition htest) (hnamed.statements body _ hbody)
        (hnamed.elifs rest more hmore)

theorem cases (hnamed : r.Named naming s) {layout : Layout} :
    ∀ (cases : List (Option Expr × List Statement)) (texts : List (Option String × List String)),
      s.cases layout cases = .ok texts → CasesWritten r naming layout cases texts
  | [], texts, h => by
      obtain rfl := Except.ok.inj h
      exact .nil
  | (none, body) :: rest, texts, h => by
      obtain ⟨bodyTexts, hbody, h⟩ := bind_eq_ok.mp h
      obtain ⟨more, hmore, h⟩ := bind_eq_ok.mp h
      obtain rfl := Except.ok.inj h
      exact .default (hnamed.statements body _ hbody) (hnamed.cases rest more hmore)
  | (some key, body) :: rest, texts, h => by
      obtain ⟨keyText, hkey, h⟩ := bind_eq_ok.mp h
      obtain ⟨bodyTexts, hbody, h⟩ := bind_eq_ok.mp h
      obtain ⟨more, hmore, h⟩ := bind_eq_ok.mp h
      obtain rfl := Except.ok.inj h
      exact .key (hnamed.exprText hkey) (hnamed.statements body _ hbody)
        (hnamed.cases rest more hmore)

end

end Renderer.Named

end Rtl
