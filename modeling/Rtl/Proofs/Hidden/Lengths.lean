import Rtl.Proofs.Outcome
import Rtl.Render.Expr

namespace Rtl

-- How long a text is next to its parts. An operator writes every operand exactly
-- once, and what it adds to them does not depend on what they are.

def totalLength (texts : List String) : Nat := (texts.map String.length).sum

theorem totalLength_cons (text : String) (rest : List String) :
    totalLength (text :: rest) = text.length + totalLength rest := rfl

theorem length_intercalate (separator : String) (texts : List String) :
    (String.intercalate separator texts).length =
      totalLength texts + (texts.length - 1) * separator.length := by
  induction texts with
  | nil => simp [totalLength]
  | cons first rest ih =>
      cases rest with
      | nil => simp [totalLength]
      | cons next rest =>
          have hcount : (first :: next :: rest).length - 1 = (next :: rest).length - 1 + 1 := rfl
          rw [String.intercalate_cons_cons, String.length_append, String.length_append, ih,
            totalLength_cons first, hcount, Nat.add_mul]
          omega

-- Texts that are as many as `count` get `extra` characters more.
def Pads (count extra : Nat) (write : List String → Except RenderError String) : Prop :=
  ∀ texts text, texts.length = count → write texts = .ok text →
    text.length = totalLength texts + extra

theorem pads_intercalate (separator : String) (count : Nat) :
    Pads count ((count - 1) * separator.length) fun texts =>
      .ok (String.intercalate separator texts) := by
  intro texts text hcount h
  obtain rfl := Except.ok.inj h
  rw [length_intercalate, hcount]

namespace Operands

theorem pads_infixText (symbol : String) (count : Nat) :
    Pads count ((count - 1) * (" " ++ symbol ++ " ").length) (infixText symbol) :=
  pads_intercalate _ count

theorem pads_unary {write : String → String}
    (hwrite : ∀ a, (write a).length = (write "").length + a.length) :
    Pads 1 (write "").length (unary · write) := by
  intro texts text hcount h
  obtain ⟨a, rfl⟩ := List.length_eq_one_iff.mp hcount
  obtain rfl := Except.ok.inj h
  rw [hwrite, Nat.add_comm]
  rfl

theorem pads_binary {write : String → String → String}
    (hwrite : ∀ a b, (write a b).length = (write "" "").length + a.length + b.length) :
    Pads 2 (write "" "").length (binary · write) := by
  intro texts text hcount h
  obtain ⟨a, b, rfl⟩ := List.length_eq_two.mp hcount
  obtain rfl := Except.ok.inj h
  rw [hwrite, Nat.add_assoc, Nat.add_comm]
  rfl

theorem pads_ternary {write : String → String → String → String}
    (hwrite : ∀ a b c,
      (write a b c).length = (write "" "" "").length + a.length + b.length + c.length) :
    Pads 3 (write "" "" "").length (ternary · write) := by
  intro texts text hcount h
  obtain ⟨a, b, c, rfl⟩ := List.length_eq_three.mp hcount
  obtain rfl := Except.ok.inj h
  rw [hwrite, Nat.add_assoc, Nat.add_assoc, Nat.add_comm]
  rfl

theorem pads_call (count : Nat) :
    Pads count ((count - 2) * ", ".length + "(".length + ")".length) call := by
  intro texts text hlength h
  cases texts with
  | nil => cases h
  | cons name arguments =>
      obtain rfl := Except.ok.inj h
      have hrest : arguments.length - 1 = count - 2 := by
        rw [← hlength, List.length_cons]
        omega
      simp only [String.length_append, length_intercalate, totalLength_cons, hrest]
      omega

end Operands

open Operands

theorem Vhdl.exists_pads {op : Operator} {count : Nat} (h : op.arity.accepts count = true) :
    ∃ extra, Pads count extra (Vhdl.operator op) := by
  cases op with
  | and | or | xor | div | downto | eq | ne | gt | ge | le | lt | sub | mul | add | concat | pow =>
      exact ⟨_, pads_infixText _ _⟩
  | call => exact ⟨_, pads_call count⟩
  | not | event | risingEdge | fallingEdge | asSigned | asUnsigned | asVector =>
      obtain rfl : count = 1 := beq_iff_eq.mp h
      exact ⟨_, pads_unary fun a => by
        simp only [String.length_append, String.length_empty]; omega⟩
  | index =>
      obtain rfl : count = 2 := beq_iff_eq.mp h
      exact ⟨_, pads_binary fun a b => by
        simp only [String.length_append, String.length_empty]; omega⟩
  | ternary => exact ⟨0, fun _ _ _ h => nomatch h⟩

theorem SimModel.exists_pads {op : Operator} {count : Nat} (h : op.arity.accepts count = true) :
    ∃ extra, Pads count extra (SimModel.operator op) := by
  cases op with
  | and | or | xor | div | downto | ne | gt | ge | le | lt | sub | mul | add =>
      exact ⟨_, pads_infixText _ _⟩
  | call => exact ⟨_, pads_call count⟩
  | not | event | risingEdge | fallingEdge | asSigned | asUnsigned | asVector =>
      obtain rfl : count = 1 := beq_iff_eq.mp h
      exact ⟨_, pads_unary fun a => by
        simp only [String.length_append, String.length_empty]; omega⟩
  | index | eq | concat | pow =>
      obtain rfl : count = 2 := beq_iff_eq.mp h
      exact ⟨_, pads_binary fun a b => by
        simp only [String.length_append, String.length_empty]; omega⟩
  | ternary =>
      obtain rfl : count = 3 := beq_iff_eq.mp h
      exact ⟨_, pads_ternary fun a b c => by
        simp only [String.length_append, String.length_empty]; omega⟩

theorem Dialect.exists_pads (dialect : Dialect) {op : Operator} {count : Nat}
    (h : op.arity.accepts count = true) : ∃ extra, Pads count extra (dialect.operator op) := by
  cases dialect with
  | vhdl => exact Vhdl.exists_pads h
  | simModel => exact SimModel.exists_pads h

-- Of two outcomes the first is the second if `p` holds, and a shorter text or an
-- error otherwise.
structure ShorterUnless {α : Type} (length : α → Nat) (p : Prop)
    (x y : Except RenderError α) : Prop where
  eq : p → x = y
  le : ∀ a b, x = .ok a → y = .ok b → length a ≤ length b ∧ (length a = length b → p)

namespace ShorterUnless

variable {α β : Type} {length : α → Nat} {length' : β → Nat} {p q : Prop}
  {x y : Except RenderError α}

theorem refl (length : α → Nat) (x : Except RenderError α) : ShorterUnless length True x x where
  eq _ := rfl
  le a b ha hb := by
    rw [ha] at hb
    obtain rfl := Except.ok.inj hb
    exact ⟨Nat.le_refl _, fun _ => trivial⟩

theorem error (length : α → Nat) (p : Prop) (cause : RenderError) :
    ShorterUnless length p (.error cause) (.error cause) := ⟨fun _ => rfl, nofun⟩

theorem of_iff (h : ShorterUnless length p x y) (hpq : p ↔ q) : ShorterUnless length q x y where
  eq hq := h.eq (hpq.mpr hq)
  le a b ha hb := (h.le a b ha hb).imp_right fun hp hlength => hpq.mp (hp hlength)

theorem eq_ok_iff (h : ShorterUnless length p x y) {b : α} (hy : y = .ok b) : x = .ok b ↔ p where
  mp hx := (h.le b b hx hy).2 rfl
  mpr hp := (h.eq hp).trans hy

-- What is done with the texts makes both longer by as much.
theorem bind {f : α → Except RenderError β} {extra : Nat} (h : ShorterUnless length p x y)
    (hf : ∀ a b, x = .ok a ∨ y = .ok a → f a = .ok b → length' b = length a + extra) :
    ShorterUnless length' p (x >>= f) (y >>= f) where
  eq hp := congrArg (· >>= f) (h.eq hp)
  le c d hc hd := by
    obtain ⟨a, ha, hac⟩ := bind_eq_ok.mp hc
    obtain ⟨b, hb, hbd⟩ := bind_eq_ok.mp hd
    rw [hf a c (.inl ha) hac, hf b d (.inr hb) hbd]
    exact ⟨Nat.add_le_add_right (h.le a b ha hb).1 extra,
      fun hsame => (h.le a b ha hb).2 (Nat.add_right_cancel hsame)⟩

-- Parentheses that are missing make a text shorter.
theorem parenthesize {x y : Except RenderError String} {b b' : Bool}
    (h : ShorterUnless String.length p x y) (hb : b = true → b' = true) :
    ShorterUnless String.length (p ∧ b' = b)
      (do let text ← x; return if b then Renderer.parenthesize text else text)
      (do let text ← y; return if b' then Renderer.parenthesize text else text) where
  eq hp := by rw [h.eq hp.1, hp.2]
  le c d hc hd := by
    obtain ⟨a, ha, hc⟩ := bind_eq_ok.mp hc
    obtain ⟨a', ha', hd⟩ := bind_eq_ok.mp hd
    obtain rfl := Except.ok.inj hc
    obtain rfl := Except.ok.inj hd
    obtain ⟨hle, hsame⟩ := h.le a a' ha ha'
    have hlength (text : String) : (Renderer.parenthesize text).length = text.length + 2 := by
      rw [Renderer.parenthesize, String.length_append, String.length_append, Nat.add_right_comm,
        Nat.add_comm]
      rfl
    cases b with
    | true =>
        rw [hb rfl, if_pos rfl, if_pos rfl, hlength, hlength]
        exact ⟨by omega, fun heq => ⟨hsame (by omega), rfl⟩⟩
    | false =>
        cases b' with
        | true =>
            rw [if_pos rfl, if_neg Bool.false_ne_true, hlength]
            exact ⟨by omega, fun heq => absurd heq (by omega)⟩
        | false =>
            rw [if_neg Bool.false_ne_true, if_neg Bool.false_ne_true]
            exact ⟨hle, fun heq => ⟨hsame heq, rfl⟩⟩

theorem compare {x y : Except RenderError String} (h : ShorterUnless String.length p x y)
    (dialect : Dialect) {op : Operator} (hop : op.arity.accepts 2 = true) (constant : String) :
    ShorterUnless String.length p (do dialect.operator op [← x, constant])
      (do dialect.operator op [← y, constant]) := by
  obtain ⟨extra, hpads⟩ := dialect.exists_pads hop
  have hlength (a b : String) (hb : dialect.operator op [a, constant] = .ok b) :
      b.length = a.length + (totalLength [constant] + extra) := by
    rw [hpads _ b rfl hb, totalLength_cons, Nat.add_assoc]
  exact h.bind fun a b _ hb => hlength a b hb

theorem cons {x y : Except RenderError String} {xs ys : Except RenderError (List String)}
    (h : ShorterUnless String.length p x y) (hrest : ShorterUnless totalLength q xs ys) :
    ShorterUnless totalLength (p ∧ q) (do return (← x) :: (← xs)) (do return (← y) :: (← ys)) where
  eq hp := by rw [h.eq hp.1, hrest.eq hp.2]
  le := by
    intro texts texts' htexts htexts'
    obtain ⟨text, htext, htexts⟩ := bind_eq_ok.mp htexts
    obtain ⟨more, hmore, htexts⟩ := bind_eq_ok.mp htexts
    obtain ⟨text', htext', htexts'⟩ := bind_eq_ok.mp htexts'
    obtain ⟨more', hmore', htexts'⟩ := bind_eq_ok.mp htexts'
    obtain rfl := Except.ok.inj htexts
    obtain rfl := Except.ok.inj htexts'
    obtain ⟨hle, hsame⟩ := h.le _ _ htext htext'
    obtain ⟨hles, hsames⟩ := hrest.le _ _ hmore hmore'
    rw [totalLength_cons, totalLength_cons]
    exact ⟨by omega, fun heq => ⟨hsame (by omega), hsames (by omega)⟩⟩

theorem mapM {as : List α} {p : α → Prop} {f g : α → Except RenderError String}
    (h : ∀ a ∈ as, ShorterUnless String.length (p a) (f a) (g a)) :
    ShorterUnless totalLength (∀ a ∈ as, p a) (as.mapM f) (as.mapM g) := by
  induction as with
  | nil => exact (refl _ _).of_iff (by simp)
  | cons a rest ih =>
      obtain ⟨hfirst, hothers⟩ := List.forall_mem_cons.mp h
      rw [List.mapM_cons, List.mapM_cons, List.forall_mem_cons]
      exact hfirst.cons (ih hothers)

end ShorterUnless

-- Texts that are as many as `count`, if there are any.
def Counts (count : Nat) (texts : Except RenderError (List String)) : Prop :=
  ∀ found, texts = .ok found → found.length = count

theorem counts_mapM {α : Type} (f : α → Except RenderError String) (as : List α) :
    Counts as.length (as.mapM f) := fun _ h => (mapM_eq_ok.mp h).length_eq.symm

theorem Counts.cons {count : Nat} {texts : Except RenderError (List String)}
    (h : Counts count texts) (text : Except RenderError String) :
    Counts (count + 1) (do return (← text) :: (← texts)) := by
  intro found hfound
  obtain ⟨first, -, hfound⟩ := bind_eq_ok.mp hfound
  obtain ⟨rest, hrest, hfound⟩ := bind_eq_ok.mp hfound
  obtain rfl := Except.ok.inj hfound
  exact congrArg (· + 1) (h rest hrest)

theorem ShorterUnless.write {p : Prop} {xs ys : Except RenderError (List String)}
    {count extra : Nat}
    {write : List String → Except RenderError String} (h : ShorterUnless totalLength p xs ys)
    (hpads : Pads count extra write) (hxs : Counts count xs) (hys : Counts count ys) :
    ShorterUnless String.length p (xs >>= write) (ys >>= write) :=
  h.bind fun texts text htexts => hpads texts text (htexts.elim (hxs texts) (hys texts))

end Rtl
