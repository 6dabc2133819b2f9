import Rtl.Proofs.Hidden.Transparency
import Rtl.Proofs.Layout.Lines
import Rtl.Render.Statement
import Rtl.Settings.Basic

namespace Rtl

-- Texts without line feeds. What is written of several expressions is on one line
-- if each of them is.

theorem newline_not_mem_toString (n : Nat) : '\n' ∉ (toString n).toList := by
  intro h
  have hdigits : '\n' ∈ Nat.toDigits 10 n := by simpa using h
  exact absurd (Nat.isDigit_of_mem_toDigits (by decide) (by decide) hdigits) (by decide)

theorem newline_not_mem_intercalate {separator : String} (hseparator : '\n' ∉ separator.toList)
    {texts : List String} (h : ∀ text ∈ texts, '\n' ∉ text.toList) :
    '\n' ∉ (String.intercalate separator texts).toList := by
  induction texts with
  | nil => simp
  | cons first rest ih =>
      obtain ⟨hfirst, hrest⟩ := List.forall_mem_cons.mp h
      cases rest with
      | nil => simpa using hfirst
      | cons next rest =>
          rw [String.intercalate_cons_cons, newline_not_mem_append, newline_not_mem_append]
          exact ⟨⟨hfirst, hseparator⟩, ih hrest⟩

theorem newline_not_mem_timeUnits : ∀ unit ∈ Settings.timeUnits, '\n' ∉ unit.toList := by decide

namespace LogicVec

theorem newline_not_mem_quote {body : List Char} (h : '\n' ∉ body) :
    '\n' ∉ (quote body).toList := by
  simpa [quote] using h

theorem newline_not_mem_bitString_zeros {width : Nat} {text : String}
    (h : (zeros width).bitString = .ok text) : '\n' ∉ text.toList := by
  have hvalue : (zeros width).value = 0 := by simp [zeros, ofNat, ofMasked]
  have hdigits (count : Nat) : '\n' ∉ hexDigits count 0 := by
    have hzero : Text.numeral 16 0 = ['0'] := by decide
    simp [hexDigits, hzero]
  have hsymbol (bit : Option Bool) : symbol bit ≠ '\n' := by
    rcases bit with _ | _ | _ <;> decide
  rw [bitString, hvalue] at h
  split at h
  · split at h
    · obtain rfl := Except.ok.inj h
      exact newline_not_mem_append.mpr ⟨by decide, newline_not_mem_quote (hdigits _)⟩
    · cases h
  · obtain rfl := Except.ok.inj h
    refine newline_not_mem_quote fun hmem => ?_
    obtain ⟨bit, -, hbit⟩ := List.mem_map.mp hmem
    exact hsymbol bit hbit

end LogicVec

namespace Renderer

variable {r : Renderer}

-- What holds of a text if there is one.
def IfWritten (P : String → Prop) (x : Except RenderError String) : Prop :=
  ∀ text, x = .ok text → P text

instance (P : String → Prop) [DecidablePred P] (x : Except RenderError String) :
    Decidable (IfWritten P x) :=
  match x with
  | .ok text =>
      decidable_of_iff (P text) ⟨fun h _ heq => Except.ok.inj heq ▸ h, fun h => h text rfl⟩
  | .error _ => .isTrue nofun

abbrev OnOneLine (x : Except RenderError String) : Prop :=
  IfWritten (fun text => '\n' ∉ text.toList) x

theorem onOneLine_parenthesize {x : Except RenderError String} (h : OnOneLine x)
    (bracketed : Bool) :
    OnOneLine (do
      let text ← x
      return if bracketed then parenthesize text else text) := by
  intro text hok
  obtain ⟨inner, hinner, hok⟩ := bind_eq_ok.mp hok
  obtain rfl := Except.ok.inj hok
  have hinner := h inner hinner
  cases bracketed with
  | false => exact hinner
  | true => simpa [parenthesize] using hinner

theorem onOneLine_comparison {op : Operator} (hop : op = .eq ∨ op = .ne) {a b : String}
    (ha : '\n' ∉ a.toList) (hb : '\n' ∉ b.toList) (dialect : Dialect) :
    OnOneLine (dialect.operator op [a, b]) := by
  intro text hok
  have hsides : ∀ side ∈ [a, b], '\n' ∉ side.toList := by simp [ha, hb]
  have hinfix {symbol : String} (hsymbol : '\n' ∉ (" " ++ symbol ++ " ").toList)
      (hok : Operands.infixText symbol [a, b] = .ok text) : '\n' ∉ text.toList := by
    obtain rfl := Except.ok.inj hok
    exact newline_not_mem_intercalate hsymbol hsides
  rcases hop with rfl | rfl
  · cases dialect with
    | vhdl => exact hinfix (by decide) hok
    | simModel =>
        obtain rfl := Except.ok.inj hok
        simp [ha, hb]
  · cases dialect with
    | vhdl | simModel => exact hinfix (by decide) hok

theorem onOneLine_conditionPart (asBoolean : Bool) {part : Expr}
    (h : OnOneLine (r.exprText part)) :
    OnOneLine (r.conditionPart asBoolean part fun _ => r.exprText part) := by
  have hoperand (parent : Operator) (index : Nat) :
      OnOneLine (r.operandText parent index part fun _ => r.exprText part) := by
    rw [operandText_eq]
    exact onOneLine_parenthesize h _
  intro text hok
  cases asBoolean with
  | false => exact h text (by simpa [conditionPart] using hok)
  | true =>
      simp only [conditionPart, Bool.not_true, Bool.false_eq_true, if_false, bind_eq_ok] at hok
      obtain ⟨id, -, type, -, hok⟩ := hok
      split at hok
      · exact h text hok
      · split at hok
        · obtain ⟨value, hvalue, hok⟩ := bind_eq_ok.mp hok
          exact onOneLine_comparison (.inl rfl) (hoperand _ _ value hvalue) (by decide) _ text hok
        · obtain ⟨zeros, hzeros, hok⟩ := bind_eq_ok.mp hok
          obtain ⟨value, hvalue, hok⟩ := bind_eq_ok.mp hok
          exact onOneLine_comparison (.inr rfl) (hoperand _ _ value hvalue)
            (LogicVec.newline_not_mem_bitString_zeros hzeros) _ text hok
      · obtain ⟨_, -, hok⟩ := bind_eq_ok.mp hok
        cases hok

theorem onOneLine_condition (asBoolean : Bool) {parts : List Expr}
    (h : ∀ part ∈ parts, OnOneLine (r.exprText part)) :
    OnOneLine (r.condition asBoolean parts) := by
  intro text hok
  simp only [condition, withTexts_eq_map, conditionText, List.mapM_map] at hok
  split at hok
  · cases hok
  obtain ⟨texts, htexts, hok⟩ := bind_eq_ok.mp hok
  obtain rfl := Except.ok.inj hok
  have hand (dialect : Dialect) : '\n' ∉ dialect.logicalAnd.toList := by
    cases dialect with
    | vhdl | simModel => decide
  refine newline_not_mem_intercalate (hand _) fun text htext => ?_
  obtain ⟨part, hpart, hwritten⟩ := exists_mem_of_forall₂ (mapM_eq_ok.mp htexts) htext
  exact onOneLine_parenthesize (onOneLine_conditionPart asBoolean (h part hpart)) _ text
    hwritten

theorem onOneLine_waitText (hunit : '\n' ∉ r.timeUnit.toList) (timed : Bool)
    (duration : Option Nat) : OnOneLine (r.waitText timed duration) := by
  intro text hok
  cases timed with
  | true =>
      cases duration with
      | none => cases hok
      | some amount =>
          obtain rfl := Except.ok.inj hok
          have hamount := newline_not_mem_toString amount
          cases r.dialect with
          | vhdl =>
              simp only [Dialect.timedWait, Vhdl.timedWait, newline_not_mem_append]
              exact ⟨⟨⟨⟨by decide, hamount⟩, by decide⟩, hunit⟩, by decide⟩
          | simModel =>
              simp only [Dialect.timedWait, SimModel.timedWait, newline_not_mem_append]
              exact ⟨⟨⟨by decide, hamount⟩, by decide⟩, hunit⟩
  | false =>
      cases duration with
      | none =>
          obtain rfl := Except.ok.inj hok
          cases r.dialect with
          | vhdl | simModel => decide
      | some amount => cases hok

end Renderer

end Rtl
