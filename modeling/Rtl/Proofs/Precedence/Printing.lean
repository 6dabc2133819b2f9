import Rtl.Proofs.Precedence.Words
import Rtl.Render.Expr

namespace Rtl.Precedence

-- An expression over shown signals whose operators are written between operands
-- or in front of one, with the tree it stands for. Types do not matter.
inductive Denotes (r : Renderer) : Expr → Tree → Prop
  | name {id : SignalId} {signal : Signal} {name : String}
      (hsignal : r.design.arch.signals.get? id = some signal) (hshown : signal.hidden = false)
      (hname : r.signalName id = .ok name) (hidentifier : isName r.dialect name = true) :
      Denotes r (.signal id) (.name name)
  | negation {operand : Expr} {t : Tree} (h : Denotes r operand t) (type : TypeId) :
      Denotes r (.apply .not [operand] type) (.negation t)
  | binary (op : BinaryOperator) {a b : Expr} {left right : Tree} (ha : Denotes r a left)
      (hb : Denotes r b right) (type : TypeId) :
      Denotes r (.apply op.val [a, b] type) (.binary op left right)

variable {r : Renderer} {e : Expr} {t : Tree}

theorem Denotes.isName (h : Denotes r e t) : ∀ name ∈ t.names, isName r.dialect name := by
  induction h with
  | name hsignal hshown hname hidentifier => simpa [Tree.names] using hidentifier
  | negation h type ih => exact ih
  | binary op ha hb type iha ihb =>
      intro name hmem
      exact (List.mem_append.mp hmem).elim (iha name) (ihb name)

-- There is a signal, so the search through hidden ones does not end at once.
theorem Denotes.size_pos (h : Denotes r e t) : 0 < r.design.arch.signals.size := by
  induction h with
  | name hsignal hshown hname hidentifier =>
      obtain ⟨hlt, -⟩ := Array.getElem?_eq_some_iff.mp hsignal
      exact Nat.lt_of_le_of_lt (Nat.zero_le _) hlt
  | negation h type ih => exact ih
  | binary op ha hb type iha ihb => exact iha

theorem Denotes.operandOperator?_eq (h : Denotes r e t) :
    r.operandOperator? e = t.operator? := by
  cases h with
  | name hsignal hshown hname hidentifier =>
      simp [Renderer.operandOperator?, hsignal, Signal.alias?, hshown, Tree.operator?]
  | negation h type => rfl
  | binary op ha hb type => rfl

theorem wrapsOperand_eq_false {op : Operator} (h : op ≠ .eq) (dialect : Dialect) (index : Nat) :
    dialect.wrapsOperand op index = false := by
  cases dialect <;> simp [Dialect.wrapsOperand, h]

theorem Denotes.operandText_eq (h : Denotes r e t) {parent : Operator} (hparent : parent ≠ .eq)
    (index : Nat) {text : Except RenderError String} (htext : text = .ok (t.text r.dialect)) :
    r.operandText parent index e (fun _ => text) = .ok (t.operandText r.dialect parent) := by
  simp only [Renderer.operandText, htext, wrapsOperand_eq_false hparent, h.operandOperator?_eq,
    Tree.operandText]
  cases hop : t.operator? with
  | none =>
      rw [Tree.wrapped_of_none hop]
      rfl
  | some child =>
      rw [Tree.wrapped_of_some hop]
      cases hparens : child.needsParens parent with
      | false | true =>
          simp only [hparens]
          rfl

theorem operator_not (dialect : Dialect) (text : String) :
    dialect.operator .not [text] = .ok (Tree.negationHead dialect ++ text) := by
  cases dialect <;> rfl

theorem operator_between (dialect : Dialect) (op : BinaryOperator) (texts : List String) :
    dialect.operator op.val texts =
      .ok (String.intercalate (" " ++ op.word dialect ++ " ") texts) := by
  obtain ⟨op, h⟩ := op
  cases op with
  | mul | div | add | sub | and | xor | or | ne | gt | lt | ge | le => cases dialect <;> rfl
  | _ => exact absurd h (by decide)

theorem operator_binary (dialect : Dialect) (op : BinaryOperator) (left right : String) :
    dialect.operator op.val [left, right] =
      .ok (left ++ (" " ++ op.word dialect ++ " ") ++ right) :=
  operator_between dialect op [left, right]

theorem applyText_binary (r : Renderer) (op : BinaryOperator) (a b : Expr × Renderer.Pending) :
    r.applyText op.val [a, b] = (do
      let left ← r.operandText op.val 0 a.1 a.2
      let right ← r.operandText op.val 1 b.1 b.2
      r.dialect.operator op.val [left, right]) := by
  obtain ⟨op, h⟩ := op
  cases op with
  | mul | div | add | sub | and | xor | or | ne | gt | lt | ge | le =>
      simp [Renderer.applyText, Operator.arity, Arity.accepts]
  | _ => exact absurd h (by decide)

theorem applyText_not (r : Renderer) (a : Expr × Renderer.Pending) :
    r.applyText .not [a] = (do
      let text ← r.operandText .not 0 a.1 a.2
      r.dialect.operator .not [text]) := by
  simp [Renderer.applyText, Operator.arity, Arity.accepts]

theorem Denotes.exprWith_eq (h : Denotes r e t) (depth : Nat) :
    r.exprWith (r.signalText (depth + 1)) e = .ok (t.text r.dialect) := by
  induction h with
  | name hsignal hshown hname hidentifier =>
      simp [Renderer.exprWith, Renderer.signalText, Renderer.signal, hsignal, Signal.alias?, hshown,
        hname, Tree.text, bind, Except.bind]
      rfl
  | negation h type ih =>
      have hne : Operator.not ≠ .eq := by decide
      simp only [Renderer.exprWith, Renderer.exprsWith, applyText_not, h.operandText_eq hne 0 ih]
      exact operator_not _ _
  | binary op ha hb type iha ihb =>
      have hne : op.val ≠ .eq := by
        intro he
        have hmem := op.property
        rw [he] at hmem
        revert hmem
        decide
      simp only [Renderer.exprWith, Renderer.exprsWith, applyText_binary,
        ha.operandText_eq hne 0 iha, hb.operandText_eq hne 1 ihb]
      exact operator_binary _ _ _ _

theorem Denotes.exprText_eq (h : Denotes r e t) : r.exprText e = .ok (t.text r.dialect) := by
  obtain ⟨depth, hdepth⟩ := Nat.exists_eq_succ_of_ne_zero (Nat.ne_of_gt h.size_pos)
  rw [Renderer.exprText, hdepth]
  exact h.exprWith_eq depth

-- An expression is written in every case, and its text is read back as it was
-- meant exactly if no operand binds looser than the operator above it: such an
-- operand is the one that gets no parentheses.
theorem read?_exprText_eq_iff_tidy (h : Denotes r e t) :
    ∃ text, r.exprText e = .ok text ∧ (read? r.dialect text = some t ↔ t.Tidy) := by
  refine ⟨t.text r.dialect, h.exprText_eq, ?_⟩
  rw [read?_text h.isName]
  exact group?_tokens_eq_iff_tidy t

def threeVectors : Design :=
  let empty : Design := ⟨.empty, .empty, .ofEntity ⟨0⟩ (.ofName ⟨0⟩)⟩
  (((empty.addWire "a" 8).2.addWire "b" 8).2.addWire "c" 8).2

def ofThreeVectors (dialect : Dialect) : Renderer :=
  .ofDesign dialect threeVectors "ns" (dialect.baseScope [])

theorem denotes_a (dialect : Dialect) :
    Denotes (ofThreeVectors dialect) (.signal ⟨0⟩) (.name "a") := by
  cases dialect <;> exact .name rfl rfl rfl (by decide +kernel)

theorem denotes_b (dialect : Dialect) :
    Denotes (ofThreeVectors dialect) (.signal ⟨1⟩) (.name "b") := by
  cases dialect <;> exact .name rfl rfl rfl (by decide +kernel)

theorem denotes_c (dialect : Dialect) :
    Denotes (ofThreeVectors dialect) (.signal ⟨2⟩) (.name "c") := by
  cases dialect <;> exact .name rfl rfl rfl (by decide +kernel)

def product : BinaryOperator := ⟨.mul, by decide⟩

def sum : BinaryOperator := ⟨.add, by decide⟩

def difference : BinaryOperator := ⟨.sub, by decide⟩

-- The operand on the right of a difference keeps its parentheses.
theorem read?_difference :
    ∃ text, (ofThreeVectors .vhdl).exprText
        (.apply .sub [.signal ⟨0⟩, .apply .sub [.signal ⟨1⟩, .signal ⟨2⟩] ⟨0⟩] ⟨0⟩) = .ok text ∧
      (read? .vhdl text =
          some (.binary difference (.name "a") (.binary difference (.name "b") (.name "c"))) ↔
        Tree.Tidy (.binary difference (.name "a")
          (.binary difference (.name "b") (.name "c")))) :=
  read?_exprText_eq_iff_tidy (.binary difference (denotes_a .vhdl)
    (.binary difference (denotes_b .vhdl) (denotes_c .vhdl) ⟨0⟩) ⟨0⟩)

-- A sum below a product gets none and is torn apart.
theorem read?_product_of_sum :
    Denotes (ofThreeVectors .vhdl)
      (.apply .mul [.signal ⟨0⟩, .apply .add [.signal ⟨1⟩, .signal ⟨2⟩] ⟨0⟩] ⟨0⟩)
      (.binary product (.name "a") (.binary sum (.name "b") (.name "c"))) ∧
    (ofThreeVectors .vhdl).exprText
      (.apply .mul [.signal ⟨0⟩, .apply .add [.signal ⟨1⟩, .signal ⟨2⟩] ⟨0⟩] ⟨0⟩) =
        .ok "a * b + c" ∧
    read? .vhdl "a * b + c" =
      some (.binary sum (.binary product (.name "a") (.name "b")) (.name "c")) := by
  have h := Denotes.binary product (denotes_a .vhdl)
    (.binary sum (denotes_b .vhdl) (denotes_c .vhdl) ⟨0⟩) ⟨0⟩
  exact ⟨h, h.exprText_eq, by decide +kernel⟩

end Rtl.Precedence
