import Rtl.Proofs.Names.Written

namespace Rtl

-- Two results of which nothing is asked but that they are there.
def AnyTwo {α β : Type} (_ : α) (_ : β) : Prop := True

-- The second computation succeeds at least where the first one does, and then
-- with a result that stands in the relation.
structure Admits {α β : Type} (R : α → β → Prop) (x : Except RenderError α)
    (y : Except RenderError β) : Prop where
  exists_ok : ∀ a, x = .ok a → ∃ b, y = .ok b ∧ R a b

namespace Admits

variable {α β γ δ : Type} {R : α → β → Prop} {S : γ → δ → Prop}
  {x : Except RenderError α} {y : Except RenderError β}

theorem ok {a : α} {b : β} (h : R a b) : Admits R (.ok a) (.ok b) :=
  ⟨fun _ ha => ⟨b, rfl, Except.ok.inj ha ▸ h⟩⟩

theorem error (cause : RenderError) (y : Except RenderError β) : Admits R (.error cause) y :=
  ⟨nofun⟩

theorem refl (x : Except RenderError α) : Admits Eq x x := ⟨fun a h => ⟨a, h, rfl⟩⟩

theorem of_ok (h : ∃ b, y = .ok b) : Admits AnyTwo x y :=
  ⟨fun _ _ => h.imp fun _ hb => ⟨hb, trivial⟩⟩

theorem imp {T : α → β → Prop} (h : Admits R x y) (himp : ∀ a b, R a b → T a b) :
    Admits T x y := by
  refine ⟨fun a ha => ?_⟩
  obtain ⟨b, hb, hab⟩ := h.exists_ok a ha
  exact ⟨b, hb, himp a b hab⟩

theorem isOk (h : Admits R x y) (hok : x.isOk = true) : y.isOk = true := by
  cases x with
  | error cause => cases hok
  | ok a =>
      obtain ⟨b, rfl, -⟩ := h.exists_ok a rfl
      rfl

theorem bind {f : α → Except RenderError γ} {g : β → Except RenderError δ} (h : Admits R x y)
    (hnext : ∀ a b, R a b → Admits S (f a) (g b)) : Admits S (x >>= f) (y >>= g) := by
  refine ⟨fun c hc => ?_⟩
  obtain ⟨a, ha, hc⟩ := bind_eq_ok.mp hc
  obtain ⟨b, hb, hab⟩ := h.exists_ok a ha
  obtain ⟨d, hd, hcd⟩ := (hnext a b hab).exists_ok c hc
  exact ⟨d, bind_eq_ok.mpr ⟨b, hb, hd⟩, hcd⟩

-- Both begin with the same computation.
theorem bind_same {f : α → Except RenderError γ} {g : α → Except RenderError δ}
    (hnext : ∀ a, x = .ok a → Admits S (f a) (g a)) : Admits S (x >>= f) (x >>= g) := by
  refine ⟨fun c hc => ?_⟩
  obtain ⟨a, ha, hc⟩ := bind_eq_ok.mp hc
  obtain ⟨d, hd, hcd⟩ := (hnext a ha).exists_ok c hc
  exact ⟨d, bind_eq_ok.mpr ⟨a, ha, hd⟩, hcd⟩

theorem map (h : Admits AnyTwo x y) (f : α → γ) (g : β → δ) :
    Admits AnyTwo (x.map f) (y.map g) := by
  cases x with
  | error cause => exact .error _ _
  | ok a =>
      obtain ⟨b, rfl, -⟩ := h.exists_ok a rfl
      exact .ok trivial

-- The first one fails in the end.
theorem bind_fails {f : α → Except RenderError γ} {y : Except RenderError δ}
    (hnext : ∀ a, Admits S (f a) y) : Admits S (x >>= f) y := by
  refine ⟨fun c hc => ?_⟩
  obtain ⟨a, -, hc⟩ := bind_eq_ok.mp hc
  exact (hnext a).exists_ok c hc

theorem mapM {f : α → Except RenderError γ} {g : β → Except RenderError δ} {as : List α}
    {bs : List β} (h : List.Forall₂ R as bs) (hnext : ∀ a b, R a b → Admits S (f a) (g b)) :
    Admits (List.Forall₂ S) (as.mapM f) (bs.mapM g) := by
  induction h with
  | nil => exact .ok .nil
  | cons hfirst hrest ih =>
      rw [List.mapM_cons, List.mapM_cons]
      refine (hnext _ _ hfirst).bind fun c d hcd => ih.bind fun cs ds hcds => ?_
      exact .ok (.cons hcd hcds)

-- The results are as many as the items.
theorem mapM_length {f : α → Except RenderError γ} {g : β → Except RenderError δ} {as : List α}
    {bs : List β} (h : List.Forall₂ R as bs) (hnext : ∀ a b, R a b → Admits S (f a) (g b)) :
    Admits (fun _ ds => ds.length = as.length) (as.mapM f) (bs.mapM g) := by
  refine ⟨fun cs hcs => ?_⟩
  obtain ⟨ds, hds, hcds⟩ := (mapM h hnext).exists_ok cs hcs
  exact ⟨ds, hds, hcds.length_eq.symm.trans (mapM_eq_ok.mp hcs).length_eq.symm⟩

theorem mapM_same {f : α → Except RenderError γ} {g : α → Except RenderError δ} {as : List α}
    (hnext : ∀ a, Admits S (f a) (g a)) : Admits (List.Forall₂ S) (as.mapM f) (as.mapM g) :=
  mapM (List.forall₂_same.mpr fun _ _ => rfl) fun a _ hab => hab ▸ hnext a

end Admits

-- A pattern has its operands if they are as many as the operator takes.

namespace Operands

variable {operands : List String}

theorem exists_unary (h : 0 < operands.length) (write : String → String) :
    ∃ text, unary operands write = .ok text := by
  cases operands with
  | nil => cases h
  | cons a rest => exact ⟨_, rfl⟩

theorem exists_call (h : 0 < operands.length) : ∃ text, call operands = .ok text := by
  cases operands with
  | nil => cases h
  | cons name arguments => exact ⟨_, rfl⟩

theorem exists_binary (h : operands.length = 2) (write : String → String → String) :
    ∃ text, binary operands write = .ok text := by
  obtain ⟨a, b, rfl⟩ := List.length_eq_two.mp h
  exact ⟨_, rfl⟩

theorem exists_ternary (h : operands.length = 3) (write : String → String → String → String) :
    ∃ text, ternary operands write = .ok text := by
  obtain ⟨a, b, c, rfl⟩ := List.length_eq_three.mp h
  exact ⟨_, rfl⟩

end Operands

theorem SimModel.exists_operator {op : Operator} {operands : List String}
    (h : op.arity.accepts operands.length = true) :
    ∃ text, SimModel.operator op operands = .ok text := by
  cases op with
  | not | event | risingEdge | fallingEdge | asSigned | asUnsigned | asVector =>
      exact Operands.exists_unary (by simp_all [Operator.arity, Arity.accepts]) _
  | concat | eq | index | pow =>
      exact Operands.exists_binary (by simpa [Operator.arity, Arity.accepts] using h) _
  | call => exact Operands.exists_call (by simp_all [Operator.arity, Arity.accepts]; omega)
  | ternary => exact Operands.exists_ternary (by simpa [Operator.arity, Arity.accepts] using h) _
  | _ => exact ⟨_, rfl⟩

namespace Renderer

-- The second renderer writes the design of the first one as a simulator's
-- model, and can name every signal that the first one gave a name.
structure Modelled (r s : Renderer) : Prop where
  design : s.design = r.design
  dialect : s.dialect = .simModel
  names : ∀ id name, r.signalNames.lookup id = some name → ∃ text, s.signalName id = .ok text

namespace Modelled

variable {r s r' s' : Renderer}

theorem text (h : Modelled r s) (id : NameId) : s.text id = r.text id := by
  simp only [Renderer.text, h.design]

theorem signal (h : Modelled r s) (id : SignalId) : s.signal id = r.signal id := by
  simp only [Renderer.signal, h.design]

theorem type (h : Modelled r s) (id : TypeId) : s.type id = r.type id := by
  simp only [Renderer.type, h.design]

theorem exprType (h : Modelled r s) (e : Expr) : s.exprType e = r.exprType e := by
  cases e with
  | signal id => simp only [Renderer.exprType, h.signal]
  | literal | apply => rfl

theorem signalName (h : Modelled r s) (id : SignalId) :
    Admits AnyTwo (r.signalName id) (s.signalName id) := by
  refine ⟨fun name hname => ?_⟩
  cases hown : r.signalNames.lookup id with
  | some given =>
      obtain ⟨text, htext⟩ := h.names id given hown
      exact ⟨text, htext, trivial⟩
  | none =>
      simp only [Renderer.signalName, hown] at hname
      simp only [Renderer.signalName, h.signal, h.text]
      cases s.signalNames.lookup id with
      | some given => exact ⟨given, rfl, trivial⟩
      | none => exact ⟨name, hname, trivial⟩

theorem typeText (h : Modelled r s) (id : TypeId) :
    Admits AnyTwo (r.typeText id) (s.typeText id) := by
  refine ⟨fun mention hmention => ?_⟩
  obtain ⟨type, htype, -⟩ := bind_eq_ok.mp hmention
  obtain ⟨text, htext⟩ := exists_typeText (r := s) (h.design ▸ type_eq_ok.mp htype)
  exact ⟨text, htext, trivial⟩

theorem labelText (id : TypeId) (type : HwType) (index : Nat) :
    Admits AnyTwo (r.labelText id type index) (s.labelText id type index) := by
  rw [labelText.eq_def, labelText.eq_def]
  split
  · split
    · exact .ok trivial
    · exact .bind_fails fun _ => .error _ _
  · exact .bind_fails fun _ => .error _ _

theorem valueText (h : Modelled r s) (value : Value) :
    Admits AnyTwo (r.valueText value) (s.valueText value) := by
  have hundefined : Admits AnyTwo (do r.dialect.undefined (← r.typeText value.type))
      (do s.dialect.undefined (← s.typeText value.type)) := by
    rw [h.dialect]
    exact (h.typeText value.type).bind fun _ _ _ => .of_ok ⟨_, rfl⟩
  simp only [Renderer.valueText, h.type, h.design]
  refine .bind_same fun type _ => ?_
  split
  · split
    · exact .error _ _
    · split
      · exact (Admits.refl _).imp fun _ _ _ => trivial
      · exact .bind_fails fun _ => .error _ _
  · exact .ok trivial
  · exact .ok trivial
  · exact .ok trivial
  · exact labelText ..
  · exact hundefined
  · exact hundefined
  · exact hundefined
  · exact hundefined

-- One expression, with a second way to write it that succeeds where the first
-- one does.
def Rewritten (a b : Expr × Pending) : Prop := b.1 = a.1 ∧ Admits AnyTwo (a.2 ()) (b.2 ())

variable {as bs : List (Expr × Pending)}

theorem operandText (parent : Operator) (index : Nat) {a b : Expr × Pending}
    (hab : Rewritten a b) :
    Admits AnyTwo (r.operandText parent index a.1 a.2) (s.operandText parent index b.1 b.2) := by
  refine hab.2.bind fun _ text _ => .of_ok ?_
  split
  · exact ⟨_, rfl⟩
  · split
    · exact ⟨_, rfl⟩
    · exact ⟨_, rfl⟩

theorem operator (h : Modelled r s) {op : Operator} {texts : List String}
    (haccepts : op.arity.accepts texts.length = true) (x : Except RenderError String) :
    Admits AnyTwo x (s.dialect.operator op texts) := by
  rw [h.dialect]
  exact .of_ok (SimModel.exists_operator haccepts)

theorem conditionPart (h : Modelled r s) (asBoolean : Bool) {a b : Expr × Pending}
    (hab : Rewritten a b) :
    Admits AnyTwo (r.conditionPart asBoolean a.1 a.2) (s.conditionPart asBoolean b.1 b.2) := by
  cases asBoolean with
  | false =>
      simp only [Renderer.conditionPart, Bool.not_false, if_true]
      exact hab.2
  | true =>
      simp only [Renderer.conditionPart, Bool.not_true, Bool.false_eq_true, if_false, hab.1,
        h.exprType, h.type]
      refine .bind_same fun id _ => .bind_same fun type _ => ?_
      cases type with
      | boolean => exact hab.2
      | bits width signedness force =>
          have hoperand (parent : Operator) := operandText (r := r) (s := s) parent 0 hab
          rw [hab.1] at hoperand
          simp only
          split
          · exact (hoperand .eq).bind fun _ _ _ => h.operator rfl _
          · exact .bind_same fun zeros _ => (hoperand .ne).bind fun _ _ _ => h.operator rfl _
      | integer | text | enumeration | array => exact .bind_fails fun _ => .error _ _

theorem conditionText (h : Modelled r s) (asBoolean : Bool)
    (hab : List.Forall₂ Rewritten as bs) :
    Admits AnyTwo (r.conditionText asBoolean as) (s.conditionText asBoolean bs) := by
  have hparts (m n : Nat) := Admits.mapM hab (S := AnyTwo) (f := fun a => do
      let text ← r.conditionPart asBoolean a.1 a.2
      return if 1 < m && mixesWithAnd a.1 then parenthesize text else text)
    (g := fun b => do
      let text ← s.conditionPart asBoolean b.1 b.2
      return if 1 < n && mixesWithAnd b.1 then parenthesize text else text)
    fun a b hrewritten => (h.conditionPart asBoolean hrewritten).bind fun _ _ _ => .ok trivial
  cases hab with
  | nil => exact .error _ _
  | cons hfirst hrest => exact (hparts _ _).bind fun _ _ _ => .ok trivial

-- The texts of operands below an operator are as many as the operands.
theorem operandTexts (op : Operator) (position : Nat → Nat)
    (hab : List.Forall₂ Rewritten as bs) :
    Admits (fun _ texts => texts.length = as.length)
      (as.zipIdx.mapM fun entry => r.operandText op (position entry.2) entry.1.1 entry.1.2)
      (bs.zipIdx.mapM fun entry => s.operandText op (position entry.2) entry.1.1 entry.1.2) := by
  have htexts := Admits.mapM_length (forall₂_zipIdx hab 0) (S := AnyTwo)
    (f := fun entry => r.operandText op (position entry.2) entry.1.1 entry.1.2)
    (g := fun entry => s.operandText op (position entry.2) entry.1.1 entry.1.2)
    fun a b hrewritten => by
      rw [hrewritten.2]
      exact operandText op _ hrewritten.1
  rwa [List.length_zipIdx] at htexts

theorem pendingTexts (hab : List.Forall₂ Rewritten as bs) :
    Admits (fun _ texts => texts.length = as.length) (as.mapM fun pair => pair.2 ())
      (bs.mapM fun pair => pair.2 ()) :=
  .mapM_length hab fun _ _ hrewritten => hrewritten.2

theorem applyText (h : Modelled r s) (op : Operator) (hab : List.Forall₂ Rewritten as bs) :
    Admits AnyTwo (r.applyText op as) (s.applyText op bs) := by
  simp only [Renderer.applyText, ← hab.length_eq]
  split
  · exact .error _ _
  rename_i haccepts
  rw [Bool.not_eq_true', Bool.not_eq_false] at haccepts
  have hlast {x : Except RenderError String} {texts : List String}
      (hlength : texts.length = as.length) : Admits AnyTwo x (s.dialect.operator op texts) :=
    h.operator (hlength ▸ haccepts) x
  cases op with
  | call =>
      cases hab with
      | nil => exact .error _ _
      | @cons a b as bs hfirst hrest =>
          obtain ⟨_, text⟩ := a
          obtain ⟨e, text'⟩ := b
          obtain ⟨rfl, htext⟩ := hfirst
          cases e with
          | signal id => exact .error _ _
          | apply op operands type => exact .error _ _
          | literal value =>
              obtain ⟨type, payload⟩ := value
              cases payload with
              | text content =>
                  cases content with
                  | none => exact .error _ _
                  | some name =>
                      exact (pendingTexts hrest).bind fun _ arguments hlength =>
                        hlast (congrArg (· + 1) hlength)
              | bits | boolean | integer | label => exact .error _ _
  | index => exact (pendingTexts hab).bind fun _ _ hlength => hlast hlength
  | ternary =>
      cases hab with
      | nil => cases haccepts
      | cons hfirst hrest =>
          refine (h.conditionText true (.cons hfirst .nil)).bind fun _ test _ => ?_
          exact (operandTexts .ternary (· + 1) hrest).bind fun _ branches hlength =>
            hlast (congrArg (· + 1) hlength)
  | _ => exact (operandTexts _ id hab).bind fun _ _ hlength => hlast hlength

mutual

theorem exprWith (h : Modelled r s) {write write' : SignalId → Except RenderError String}
    (hwrite : ∀ id, Admits AnyTwo (write id) (write' id)) :
    ∀ e : Expr, Admits AnyTwo (r.exprWith write e) (s.exprWith write' e)
  | .signal id => hwrite id
  | .literal value => h.valueText value
  | .apply op operands _ => h.applyText op (exprsWith h hwrite operands)

theorem exprsWith (h : Modelled r s) {write write' : SignalId → Except RenderError String}
    (hwrite : ∀ id, Admits AnyTwo (write id) (write' id)) :
    ∀ es : List Expr, List.Forall₂ Rewritten (r.exprsWith write es) (s.exprsWith write' es)
  | [] => .nil
  | e :: rest => .cons ⟨rfl, exprWith h hwrite e⟩ (exprsWith h hwrite rest)

end

theorem signalText (h : Modelled r s) (depth : Nat) (id : SignalId) :
    Admits AnyTwo (r.signalText depth id) (s.signalText depth id) := by
  induction depth generalizing id with
  | zero => exact .error _ _
  | succ depth ih =>
      simp only [Renderer.signalText, h.signal]
      refine .bind_same fun signal _ => ?_
      cases signal.alias? with
      | some origin => exact h.exprWith ih origin
      | none => exact (h.signalName id).bind fun _ _ _ => .ok trivial

theorem exprText (h : Modelled r s) (e : Expr) :
    Admits AnyTwo (r.exprText e) (s.exprText e) := by
  simp only [Renderer.exprText, h.design]
  exact h.exprWith (h.signalText _) e

theorem condition (h : Modelled r s) (asBoolean : Bool) (parts : List Expr) :
    Admits AnyTwo (r.condition asBoolean parts) (s.condition asBoolean parts) := by
  simp only [Renderer.condition, withTexts, h.design]
  exact h.conditionText asBoolean (h.exprsWith (h.signalText _) parts)

theorem assignmentText (h : Modelled r s) (destination : SignalId) (source : Expr)
    (indexes : Option (List Expr)) (onEvent : Bool) :
    Admits AnyTwo (r.assignmentText destination source indexes onEvent)
      (s.assignmentText destination source indexes onEvent) := by
  simp only [Renderer.assignmentText, h.signal, h.exprType]
  refine .bind_same fun signal _ => .bind_same fun valueType _ => ?_
  refine (h.signalName destination).bind fun _ _ _ => (h.exprText source).bind fun _ _ _ => ?_
  split
  · exact .bind_fails fun _ => .bind_fails fun _ => .error _ _
  · cases indexes with
    | none => exact .ok trivial
    | some indexes => exact .error _ _

theorem waitText (timed : Bool) (duration : Option Nat) :
    Admits AnyTwo (r.waitText timed duration) (s.waitText timed duration) := by
  cases timed with
  | true =>
      cases duration with
      | some amount => exact .ok trivial
      | none => exact .error _ _
  | false =>
      cases duration with
      | some amount => exact .error _ _
      | none => exact .ok trivial

variable {layout layout' : Layout}

mutual

theorem statement (h : Modelled r s) :
    ∀ t : Statement, Admits AnyTwo (r.statement layout t) (s.statement layout' t)
  | .assign .. => h.assignmentText ..
  | .branch _ condition body elifs otherwise =>
      (h.elifs elifs).bind fun _ _ _ => (h.condition true condition).bind fun _ _ _ =>
        (h.statements body).bind fun _ _ _ => (h.statements otherwise).bind fun _ _ _ =>
          .ok trivial
  | .select _ subject cases =>
      (h.cases cases).bind fun _ _ _ => (h.condition false [subject]).bind fun _ _ _ =>
        .ok trivial
  | .wait _ timed duration => waitText timed duration

theorem statements (h : Modelled r s) :
    ∀ body : List Statement, Admits AnyTwo (r.statements layout body) (s.statements layout' body)
  | [] => .ok trivial
  | t :: rest =>
      (h.statement t).bind fun _ _ _ => (h.statements rest).bind fun _ _ _ => .ok trivial

theorem elifs (h : Modelled r s) :
    ∀ elifs : List (List Expr × List Statement),
      Admits AnyTwo (r.elifs layout elifs) (s.elifs layout' elifs)
  | [] => .ok trivial
  | (condition, body) :: rest =>
      (h.condition true condition).bind fun _ _ _ => (h.statements body).bind fun _ _ _ =>
        (h.elifs rest).bind fun _ _ _ => .ok trivial

theorem cases (h : Modelled r s) :
    ∀ cases : List (Option Expr × List Statement),
      Admits AnyTwo (r.cases layout cases) (s.cases layout' cases)
  | [] => .ok trivial
  | (none, body) :: rest =>
      (h.statements body).bind fun _ _ _ => (h.cases rest).bind fun _ _ _ => .ok trivial
  | (some key, body) :: rest =>
      (h.exprText key).bind fun _ _ _ => (h.statements body).bind fun _ _ _ =>
        (h.cases rest).bind fun _ _ _ => .ok trivial

end

end Modelled

end Renderer

end Rtl
