import Mathlib

namespace Rtl.Brackets

inductive Bracket where
  | round
  | square
deriving DecidableEq, Repr

-- What a symbol is to the brackets of a text.
inductive Role where
  | opening (bracket : Bracket)
  | closing (bracket : Bracket)
  | inner
deriving DecidableEq, Repr

variable {α : Type} (role : α → Role)

-- Texts in which every bracket has its partner.
inductive Closed : List α → Prop
  | nil : Closed []
  | inner {symbol : α} {rest : List α} (h : role symbol = .inner) (hrest : Closed rest) :
      Closed (symbol :: rest)
  | group {first last : α} {bracket : Bracket} {body rest : List α}
      (hfirst : role first = .opening bracket) (hlast : role last = .closing bracket)
      (hbody : Closed body) (hrest : Closed rest) : Closed (first :: (body ++ last :: rest))

-- The symbols of a text, each with the number of brackets that it stands in. A
-- bracket stands in itself.
def levels : Nat → List α → List (Nat × α)
  | _, [] => []
  | depth, symbol :: rest =>
      match role symbol with
      | .opening _ => (depth + 1, symbol) :: levels (depth + 1) rest
      | .closing _ => (depth, symbol) :: levels (depth - 1) rest
      | .inner => (depth, symbol) :: levels depth rest

-- The symbols that stand in no brackets.
def outside (text : List α) : List α :=
  ((levels role 0 text).filter fun entry => entry.1 == 0).map (·.2)

variable {role} {text more : List α} {symbol : α}

theorem Closed.append (h : Closed role text) (hmore : Closed role more) :
    Closed role (text ++ more) := by
  induction h with
  | nil => exact hmore
  | inner hsymbol _ ih => exact .inner hsymbol ih
  | group hfirst hlast hbody _ _ ih =>
      simp only [List.cons_append, List.append_assoc]
      exact .group hfirst hlast hbody ih

theorem Closed.singleton (h : role symbol = .inner) : Closed role [symbol] := .inner h .nil

theorem Closed.of_inner (h : ∀ symbol ∈ text, role symbol = .inner) : Closed role text := by
  induction text with
  | nil => exact .nil
  | cons symbol rest ih =>
      obtain ⟨hfirst, hrest⟩ := List.forall_mem_cons.mp h
      exact .inner hfirst (ih hrest)

theorem Closed.bracketed (h : Closed role text) {first last : α} {bracket : Bracket}
    (hfirst : role first = .opening bracket) (hlast : role last = .closing bracket) :
    Closed role (first :: (text ++ [last])) :=
  .group hfirst hlast h .nil

theorem Closed.intercalate {separator : List α} (hseparator : Closed role separator)
    {parts : List (List α)} (h : ∀ part ∈ parts, Closed role part) :
    Closed role (separator.intercalate parts) := by
  induction parts with
  | nil => exact .nil
  | cons first rest ih =>
      obtain ⟨hfirst, hrest⟩ := List.forall_mem_cons.mp h
      cases rest with
      | nil =>
          rw [List.intercalate_singleton]
          exact hfirst
      | cons next rest =>
          rw [List.intercalate_cons_cons]
          exact (hfirst.append hseparator).append (ih hrest)

theorem map_snd_levels (depth : Nat) (text : List α) :
    (levels role depth text).map (·.2) = text := by
  induction text generalizing depth with
  | nil => rfl
  | cons symbol rest ih =>
      simp only [levels]
      split
      · exact congrArg _ (ih _)
      · exact congrArg _ (ih _)
      · exact congrArg _ (ih _)

-- What follows a closed text is as deep as if the text were not there.
theorem Closed.levels_append (h : Closed role text) (depth : Nat) (rest : List α) :
    levels role depth (text ++ rest) = levels role depth text ++ levels role depth rest := by
  induction h generalizing depth rest with
  | nil => rfl
  | inner hsymbol _ ih => simp only [List.cons_append, levels, hsymbol, ih]
  | group hfirst hlast _ _ ihbody ihrest =>
      simp only [List.cons_append, List.append_assoc, levels, hfirst, hlast, ihbody, ihrest,
        Nat.add_sub_cancel]

theorem Closed.le_of_mem_levels (h : Closed role text) {depth : Nat} {entry : Nat × α}
    (hentry : entry ∈ levels role depth text) : depth ≤ entry.1 := by
  induction h generalizing depth with
  | nil => cases hentry
  | inner hsymbol _ ih =>
      simp only [levels, hsymbol, List.mem_cons] at hentry
      rcases hentry with rfl | hentry
      · exact Nat.le_refl _
      · exact ih hentry
  | group hfirst hlast hbody _ ihbody ihrest =>
      simp only [levels, hfirst, hbody.levels_append, hlast, Nat.add_sub_cancel, List.mem_cons,
        List.mem_append] at hentry
      rcases hentry with rfl | hentry | rfl | hentry
      · exact Nat.le_succ _
      · exact (Nat.le_succ _).trans (ihbody hentry)
      · exact Nat.le_succ _
      · exact ihrest hentry

theorem mem_outside_iff : symbol ∈ outside role text ↔ (0, symbol) ∈ levels role 0 text := by
  simp [outside]

theorem mem_of_mem_outside (h : symbol ∈ outside role text) : symbol ∈ text := by
  have hsymbols : (levels role 0 text).map (·.2) = text := map_snd_levels 0 text
  rw [← hsymbols]
  exact List.mem_map.mpr ⟨_, mem_outside_iff.mp h, rfl⟩

theorem Closed.outside_append (h : Closed role text) (rest : List α) :
    outside role (text ++ rest) = outside role text ++ outside role rest := by
  rw [outside, h.levels_append, List.filter_append, List.map_append]
  rfl

theorem outside_inner (h : role symbol = .inner) (rest : List α) :
    outside role (symbol :: rest) = symbol :: outside role rest := by
  simp [outside, levels, h]

-- Nothing between two brackets is outside.
theorem Closed.outside_bracketed (h : Closed role text) {first last : α} {bracket : Bracket}
    (hfirst : role first = .opening bracket) (hlast : role last = .closing bracket)
    (rest : List α) :
    outside role (first :: (text ++ last :: rest)) = outside role rest := by
  have hdeep : (levels role 1 text).filter (fun entry => entry.1 == 0) = [] := by
    refine List.filter_eq_nil_iff.mpr fun entry hentry => ?_
    have hdepth := h.le_of_mem_levels hentry
    simp only [beq_iff_eq]
    omega
  simp only [outside, levels, hfirst, h.levels_append, hlast, List.filter_cons, List.filter_append]
  simp [hdeep]

theorem mem_outside_intercalate_iff {separator : α} (hseparator : role separator = .inner)
    {parts : List (List α)} (h : ∀ part ∈ parts, Closed role part) :
    symbol ∈ outside role ([separator].intercalate parts) ↔
      symbol = separator ∧ 2 ≤ parts.length ∨ ∃ part ∈ parts, symbol ∈ outside role part := by
  induction parts with
  | nil => exact iff_of_false nofun (by simp)
  | cons first rest ih =>
      obtain ⟨hfirst, hrest⟩ := List.forall_mem_cons.mp h
      cases rest with
      | nil => simp [List.intercalate_singleton]
      | cons next rest =>
          have hcount : 2 ≤ (first :: next :: rest).length := Nat.le_add_left 2 rest.length
          rw [List.intercalate_cons_cons, List.append_assoc, hfirst.outside_append,
            List.singleton_append, outside_inner hseparator, List.mem_append, List.mem_cons,
            ih hrest, and_iff_left hcount]
          simp only [List.exists_mem_cons_iff]
          tauto

-- The parts of a text between the symbols outside of all brackets at which it is cut.
def parts (role : α → Role) (cut : α → Bool) (text : List α) : List (List α) :=
  ((levels role 0 text).splitOnP fun entry => entry.1 == 0 && cut entry.2).map (List.map (·.2))

variable {cut : α → Bool}

theorem Closed.parts_append_cons (h : Closed role text) {separator : α}
    (hseparator : role separator = .inner) (hcut : cut separator = true) (rest : List α) :
    parts role cut (text ++ separator :: rest) = parts role cut text ++ parts role cut rest := by
  simp only [parts, h.levels_append, levels, hseparator]
  rw [List.splitOnP_append_cons _ _ (by simp [hcut]), List.map_append]

theorem parts_of_uncut (h : ∀ symbol ∈ outside role text, cut symbol = false) :
    parts role cut text = [text] := by
  have huncut : ∀ entry ∈ levels role 0 text, (entry.1 == 0 && cut entry.2) = false := by
    rintro ⟨depth, symbol⟩ hentry
    rw [Bool.and_eq_false_iff, beq_eq_false_iff_ne]
    by_cases hdepth : depth = 0
    · subst hdepth
      exact .inr (h symbol (mem_outside_iff.mpr hentry))
    · exact .inl hdepth
  rw [parts, List.splitOnP_eq_singleton huncut, List.map_singleton, map_snd_levels]

theorem parts_ne_nil (cut : α → Bool) (text : List α) : parts role cut text ≠ [] := by
  rw [parts, ne_eq, List.map_eq_nil_iff]
  exact List.splitOnP_ne_nil _ _

-- A text is cut if there is something to cut it at.
theorem two_le_length_parts (hsymbol : symbol ∈ outside role text) (hcut : cut symbol = true) :
    2 ≤ (parts role cut text).length := by
  obtain ⟨before, after, hlevels⟩ := List.append_of_mem (mem_outside_iff.mp hsymbol)
  have hpos (entries : List (Nat × α)) :
      0 < (entries.splitOnP fun entry => entry.1 == 0 && cut entry.2).length :=
    List.length_pos_of_ne_nil (List.splitOnP_ne_nil _ _)
  rw [parts, List.length_map, hlevels, List.splitOnP_append_cons _ _ (by simp [hcut]),
    List.length_append]
  exact Nat.add_le_add (hpos before) (hpos after)

theorem parts_intercalate {separator : α} (hseparator : role separator = .inner)
    (hcut : cut separator = true) {texts : List (List α)} (hne : texts ≠ [])
    (h : ∀ text ∈ texts, Closed role text) :
    parts role cut ([separator].intercalate texts) = texts.flatMap (parts role cut) := by
  induction texts with
  | nil => exact absurd rfl hne
  | cons first rest ih =>
      obtain ⟨hfirst, hrest⟩ := List.forall_mem_cons.mp h
      cases rest with
      | nil => simp [List.intercalate_singleton]
      | cons next rest =>
          rw [List.intercalate_cons_cons, List.append_assoc, List.singleton_append,
            hfirst.parts_append_cons hseparator hcut, ih (List.cons_ne_nil _ _) hrest]
          exact List.flatMap_cons.symm

end Rtl.Brackets
