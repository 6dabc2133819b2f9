import Rtl.Proofs.Hidden.Transparency

namespace Rtl.Renderer

variable {r : Renderer}

theorem exprsWith_eq_map (write : SignalId → Except RenderError String) (es : List Expr) :
    r.exprsWith write es = es.map fun e => (e, fun _ => r.exprWith write e) := by
  induction es with
  | nil => rfl
  | cons e rest ih => exact congrArg (_ :: ·) ih

-- An operand at its place below an operator.
def placeText (r : Renderer) (op : Operator) (place : Nat) (operand : Expr) (text : Pending) :
    Except RenderError String :=
  match op, place with
  | .call, 0 =>
      match functionName? operand with
      | some name => .ok name
      | none => .error (.unsupported .unnamedCall)
  | .call, _ | .index, _ => text ()
  | .ternary, 0 => r.conditionText true [(operand, text)]
  | op, place => r.operandText op place operand text

theorem mapM_zipIdx_fst {α β : Type} (write : α → Except RenderError β) (items : List α) :
    (items.zipIdx.mapM fun entry => write entry.1) = items.mapM write := by
  conv_rhs => rw [← List.zipIdx_map_fst 0 items, List.mapM_map]
  rfl

-- The first item apart from the others.
theorem mapM_zipIdx_cons {α β : Type} (write : α × Nat → Except RenderError β) (first : α)
    (rest : List α) :
    (first :: rest).zipIdx.mapM write = (do
      let text ← write (first, 0)
      let texts ← rest.zipIdx.mapM fun entry => write (entry.1, entry.2 + 1)
      return text :: texts) := by
  rw [List.zipIdx_cons, List.mapM_cons, List.zipIdx_succ, List.mapM_map]
  rfl

theorem functionName?_eq_some {e : Expr} {name : String} (h : functionName? e = some name) :
    ∃ type, e = .literal ⟨type, .text (some name)⟩ := by
  rw [functionName?.eq_def] at h
  split at h
  · rename_i type text
    obtain rfl := Option.some.inj h
    exact ⟨type, rfl⟩
  · cases h

-- An application is written from its operands at their places.
theorem applyText_eq {op : Operator} {operands : List (Expr × Pending)}
    (h : op.arity.accepts operands.length = true) :
    r.applyText op operands = (do
      let texts ← operands.zipIdx.mapM fun ((operand, text), place) =>
        r.placeText op place operand text
      r.dialect.operator op texts) := by
  have hplain (operands : List (Expr × Pending)) :
      (operands.zipIdx.mapM fun entry => entry.1.2 ()) = operands.mapM fun entry => entry.2 () :=
    mapM_zipIdx_fst (fun operand => operand.2 ()) operands
  simp only [applyText, h, Bool.not_true, Bool.false_eq_true, if_false]
  cases op with
  | call =>
      cases operands with
      | nil => cases h
      | cons function arguments =>
          refine Eq.trans ?_ (congrArg (· >>= _) (mapM_zipIdx_cons _ function arguments).symm)
          obtain ⟨function, text⟩ := function
          cases hname : functionName? function with
          | some name =>
              obtain ⟨type, rfl⟩ := functionName?_eq_some hname
              simp only [placeText, functionName?]
              rw [hplain]
              cases arguments.mapM fun entry => entry.2 () with
              | error | ok => rfl
          | none =>
              simp only [placeText, hname]
              split
              · rename_i hsame
                obtain ⟨hfunction, -⟩ := List.cons.inj hsame
                rw [(Prod.mk.inj hfunction).1] at hname
                cases hname
              · rfl
              · exact absurd ‹Operator.call = .index› (by decide)
              · exact absurd ‹Operator.call = .ternary› (by decide)
              · exact absurd rfl ‹Operator.call = .call → False›
  | index => exact congrArg (· >>= _) (hplain _).symm
  | ternary =>
      cases operands with
      | nil => cases h
      | cons condition branches =>
          refine Eq.trans ?_ (congrArg (· >>= _) (mapM_zipIdx_cons _ condition branches).symm)
          simp only [placeText, bind_assoc, pure_bind]
  | _ => rfl

theorem applyText_eq_ok {op : Operator} {operands : List (Expr × Pending)} {text : String}
    (h : r.applyText op operands = .ok text) :
    op.arity.accepts operands.length = true ∧
      ∃ texts, List.Forall₂ (fun entry text =>
          r.placeText op entry.2 entry.1.1 entry.1.2 = .ok text) operands.zipIdx texts ∧
        r.dialect.operator op texts = .ok text := by
  cases harity : op.arity.accepts operands.length with
  | false =>
      simp only [applyText, harity, Bool.not_false, if_true] at h
      cases h
  | true =>
      rw [applyText_eq harity] at h
      obtain ⟨texts, htexts, htext⟩ := bind_eq_ok.mp h
      exact ⟨rfl, texts, mapM_eq_ok.mp htexts, htext⟩

end Rtl.Renderer
