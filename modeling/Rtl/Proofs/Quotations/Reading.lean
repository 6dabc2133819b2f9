import Mathlib
import Rtl.Dialect

namespace Rtl

-- A string literal as the reader of a language sees it from behind its opening quote: the
-- characters that it stands for and what follows the closing quote.

namespace Vhdl

def string? : List Char → Option (List Char × List Char)
  | [] => none
  | '"' :: '"' :: rest => (string? rest).map fun (s, behind) => ('"' :: s, behind)
  | '"' :: rest => some ([], rest)
  | c :: rest => (string? rest).map fun (s, behind) => (c :: s, behind)

theorem string?_cons {c : Char} (h : c ≠ '"') (rest : List Char) :
    string? (c :: rest) = (string? rest).map fun (s, behind) => (c :: s, behind) := by
  rw [string?]
  · exact fun _ hc _ => h hc
  · exact h

theorem string?_of_head {rest : List Char} (h : rest.head? ≠ some '"') :
    string? ('"' :: rest) = some ([], rest) := by
  rw [string?]
  rintro _ rfl
  exact h rfl

theorem string?_escape {behind : List Char} (h : behind.head? ≠ some '"') (s : List Char) :
    string? (s.flatMap escapeChar ++ '"' :: behind) = some (s, behind) := by
  induction s with
  | nil => exact string?_of_head h
  | cons c s ih =>
      rw [List.flatMap_cons, List.append_assoc]
      by_cases hc : c = '"'
      · subst hc
        exact congrArg (Option.map _) ih
      · rw [escapeChar, if_neg hc, List.singleton_append, string?_cons hc, ih, Option.map_some]

theorem eq_of_string? {text s behind : List Char} (h : string? text = some (s, behind)) :
    text = s.flatMap escapeChar ++ '"' :: behind := by
  fun_induction string? text generalizing s with
  | case1 => cases h
  | case2 rest ih =>
      obtain ⟨⟨s, _⟩, hrest, hsame⟩ := Option.map_eq_some_iff.mp h
      obtain ⟨rfl, rfl⟩ := Prod.mk.inj hsame
      rw [ih hrest]
      rfl
  | case3 rest _ =>
      obtain ⟨rfl, rfl⟩ := Prod.mk.inj (Option.some.inj h)
      rfl
  | case4 c rest hc hc' ih =>
      obtain ⟨⟨s, _⟩, hrest, hsame⟩ := Option.map_eq_some_iff.mp h
      obtain ⟨rfl, rfl⟩ := Prod.mk.inj hsame
      have hplain : escapeChar c = [c] := if_neg hc'
      rw [ih hrest, List.flatMap_cons, hplain]
      rfl

end Vhdl

namespace SimModel

def string? : List Char → Option (List Char × List Char)
  | [] => none
  | '"' :: rest => some ([], rest)
  | '\\' :: c :: rest =>
      if c = '\\' ∨ c = '"' then (string? rest).map fun (s, behind) => (c :: s, behind) else none
  | c :: rest => (string? rest).map fun (s, behind) => (c :: s, behind)

theorem string?_cons {c : Char} (hquote : c ≠ '"') (hescape : c ≠ '\\') (rest : List Char) :
    string? (c :: rest) = (string? rest).map fun (s, behind) => (c :: s, behind) := by
  rw [string?]
  · exact hquote
  · exact fun _ _ hc _ => hescape hc

theorem string?_escape (behind s : List Char) :
    string? (s.flatMap escapeChar ++ '"' :: behind) = some (s, behind) := by
  induction s with
  | nil => rfl
  | cons c s ih =>
      rw [List.flatMap_cons, List.append_assoc, escapeChar]
      split
      · rename_i hc
        rw [List.cons_append, List.singleton_append, string?, if_pos hc, ih, Option.map_some]
      · rename_i hc
        obtain ⟨hescape, hquote⟩ := not_or.mp hc
        rw [List.singleton_append, string?_cons hquote hescape, ih, Option.map_some]

theorem eq_of_string? {text s behind : List Char} (h : string? text = some (s, behind)) :
    text = s.flatMap escapeChar ++ '"' :: behind := by
  fun_induction string? text generalizing s with
  | case1 => cases h
  | case2 rest =>
      obtain ⟨rfl, rfl⟩ := Prod.mk.inj (Option.some.inj h)
      rfl
  | case3 c rest hc ih =>
      obtain ⟨⟨s, _⟩, hrest, hsame⟩ := Option.map_eq_some_iff.mp h
      obtain ⟨rfl, rfl⟩ := Prod.mk.inj hsame
      have hescaped : escapeChar c = ['\\', c] := if_pos hc
      rw [ih hrest, List.flatMap_cons, hescaped]
      rfl
  | case4 => cases h
  | case5 c rest hquote hescape ih =>
      obtain ⟨⟨s, _⟩, hrest, hsame⟩ := Option.map_eq_some_iff.mp h
      obtain ⟨rfl, rfl⟩ := Prod.mk.inj hsame
      have hplain : escapeChar c = [c] := by
        refine if_neg (not_or.mpr ⟨?_, hquote⟩)
        rintro rfl
        -- A lone backslash at the end is followed by no quote.
        cases rest with
        | nil => cases hrest
        | cons next rest => exact hescape next rest rfl rfl
      rw [ih hrest, List.flatMap_cons, hplain]
      rfl

end SimModel

namespace Dialect

def string? : Dialect → List Char → Option (List Char × List Char)
  | vhdl => Vhdl.string?
  | simModel => SimModel.string?

def escapeChar : Dialect → Char → List Char
  | vhdl => Vhdl.escapeChar
  | simModel => SimModel.escapeChar

def escape (dialect : Dialect) (s : List Char) : List Char := s.flatMap dialect.escapeChar

variable {dialect : Dialect}

theorem toList_stringLiteral (s : String) :
    (dialect.stringLiteral s).toList = '"' :: (dialect.escape s.toList ++ ['"']) := by
  cases dialect with
  | vhdl | simModel =>
      simp [stringLiteral, Vhdl.stringLiteral, SimModel.stringLiteral, Text.escape, escape,
        escapeChar]

-- A literal reads as what it was made from, and as nothing else.
theorem string?_eq_some_iff {body s behind : List Char} (h : behind.head? ≠ some '"') :
    dialect.string? (body ++ '"' :: behind) = some (s, behind) ↔ body = dialect.escape s := by
  constructor
  · intro hread
    have hsame : body ++ '"' :: behind = dialect.escape s ++ '"' :: behind := by
      cases dialect with
      | vhdl => exact Vhdl.eq_of_string? hread
      | simModel => exact SimModel.eq_of_string? hread
    exact List.append_cancel_right hsame
  · rintro rfl
    cases dialect with
    | vhdl => exact Vhdl.string?_escape h s
    | simModel => exact SimModel.string?_escape behind s

end Dialect

end Rtl
