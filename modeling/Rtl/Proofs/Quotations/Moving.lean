import Rtl.Proofs.Quotations.Reading

namespace Rtl

namespace Layout

-- What indentation makes of characters, wherever the lines begin. A carriage return before a
-- line feed is lost, and `close` is what stands at the end.
def further (indent : List Char) (close : Bool → List Char) : Bool → List Char → List Char
  | begun, [] => close begun
  | begun, c :: rest =>
      if c = '\r' ∧ rest.head? = some '\n' then further indent close begun rest
      else if c = '\n' then '\n' :: further indent close false rest
      else (if begun then [] else indent) ++ c :: further indent close true rest

-- The end of the inside of a literal: the quote behind it is not at the beginning of a line.
def inside (indent : List Char) (begun : Bool) : List Char := if begun then [] else indent

-- What becomes of the inside of a literal.
def moved (indent t : List Char) : List Char := further indent (inside indent) true t

variable {indent : List Char} {close : Bool → List Char} {begun : Bool} {t rest : List Char}
  {c : Char}

theorem further_crlf (h : rest.head? = some '\n') :
    further indent close begun ('\r' :: rest) = further indent close begun rest := by
  rw [further, if_pos ⟨rfl, h⟩]

theorem further_newline : further indent close begun ('\n' :: rest) =
    '\n' :: further indent close false rest := by
  rw [further, if_neg (by simp), if_pos rfl]

theorem further_cons (hreturn : ¬ (c = '\r' ∧ rest.head? = some '\n')) (hnewline : c ≠ '\n') :
    further indent close begun (c :: rest) =
      inside indent begun ++ c :: further indent close true rest := by
  rw [further, if_neg hreturn, if_neg hnewline, inside]

-- A literal is moved by itself: neither of its quotes ends a line.
theorem further_append_quote (begun : Bool) (t rest : List Char) :
    further indent close begun (t ++ '"' :: rest) =
      further indent (inside indent) begun t ++ '"' :: further indent close true rest := by
  have hhead (t : List Char) : (t ++ '"' :: rest).head? = some '\n' ↔ t.head? = some '\n' := by
    cases t with
    | nil => exact iff_of_false (by simp) nofun
    | cons => exact Iff.rfl
  fun_induction further indent (inside indent) begun t with
  | case1 begun => exact further_cons (by simp) (by decide)
  | case2 begun c t hreturn ih =>
      obtain ⟨rfl, hnext⟩ := hreturn
      rw [List.cons_append, further_crlf ((hhead t).mpr hnext), ih]
  | case3 begun t _ ih => rw [List.cons_append, further_newline, ih, List.cons_append]
  | case4 begun c t hreturn hnewline ih =>
      rw [List.cons_append, further_cons (by rwa [hhead]) hnewline, ih]
      simp only [inside, List.append_assoc, List.cons_append]

theorem not_crlf_of_line (h : '\n' ∉ c :: t)
    (hnext : (c :: t).getLast? = some '\r' → rest.head? ≠ some '\n') :
    ¬ (c = '\r' ∧ (t ++ rest).head? = some '\n') := by
  rintro ⟨rfl, hhead⟩
  cases t with
  | nil => exact hnext rfl hhead
  | cons d t =>
      obtain rfl := Option.some.inj hhead
      exact h (by simp)

-- The rest of a line stays as it is.
theorem further_line (h : '\n' ∉ t) (hnext : t.getLast? = some '\r' → rest.head? ≠ some '\n') :
    further indent close true (t ++ rest) = t ++ further indent close true rest := by
  induction t with
  | nil => rfl
  | cons c t ih =>
      obtain ⟨hc, ht⟩ := not_or.mp (mt List.mem_cons.mpr h)
      have hlast (hlast : t.getLast? = some '\r') : rest.head? ≠ some '\n' := by
        refine hnext ?_
        rw [List.getLast?_cons, hlast]
        rfl
      rw [List.cons_append, further_cons (not_crlf_of_line h hnext) (Ne.symm hc), ih ht hlast]
      rfl

theorem moved_eq_self (h : '\n' ∉ t) : moved indent t = t := by
  have hline : further indent (inside indent) true (t ++ []) =
      t ++ further indent (inside indent) true [] := further_line h nofun
  rwa [List.append_nil, further, inside, if_pos rfl, List.append_nil] at hline

-- The number of characters that are line feeds or on the last line.
def reach : List Char → Nat
  | [] => 0
  | c :: rest => reach rest + if c = '\n' ∨ '\n' ∉ rest then 1 else 0

theorem reach_append_of_newline_not_mem (h : '\n' ∉ rest) (t : List Char) :
    reach (t ++ rest) = reach t + reach rest := by
  induction t with
  | nil => simp [reach]
  | cons c t ih =>
      simp only [List.cons_append, reach, ih, List.mem_append, h, or_false]
      omega

theorem reach_le_append (t rest : List Char) : reach rest ≤ reach (t ++ rest) := by
  induction t with
  | nil => exact le_rfl
  | cons c t ih => exact ih.trans (Nat.le_add_right ..)

theorem reach_pos (h : t ≠ []) : 0 < reach t := by
  rw [← List.dropLast_append_getLast h]
  refine Nat.lt_of_lt_of_le ?_ (reach_le_append ..)
  simp [reach]

theorem reach_inside (begun : Bool) :
    (if indent ≠ [] ∧ begun = false then 1 else 0) ≤ reach (inside indent begun) := by
  split
  · rename_i hmoves
    obtain ⟨hindent, rfl⟩ := hmoves
    exact reach_pos hindent
  · exact Nat.zero_le _

-- Indentation adds to the reach wherever a line begins.
theorem reach_further (begun : Bool) (t : List Char) :
    reach t + (if indent ≠ [] ∧ (begun = false ∨ '\n' ∈ t) then 1 else 0) ≤
      reach (further indent (inside indent) begun t) := by
  fun_induction further indent (inside indent) begun t with
  | case1 begun => simpa [reach] using reach_inside begun
  | case2 begun c t hreturn ih =>
      obtain ⟨rfl, hhead⟩ := hreturn
      have hmem : '\n' ∈ t := List.mem_of_mem_head? hhead
      simpa [reach, hmem] using ih
  | case3 begun t _ ih =>
      simp only [true_or, and_true] at ih
      simp only [reach, List.mem_cons, true_or, or_true, and_true, if_true]
      omega
  | case4 begun c t hreturn hnewline ih =>
      change _ ≤ reach (inside indent begun ++ _)
      by_cases hmem : '\n' ∈ t
      · have hmore := reach_le_append (inside indent begun ++ [c])
          (further indent (inside indent) true t)
        rw [List.append_assoc, List.singleton_append] at hmore
        refine le_trans ?_ hmore
        simpa [reach, hmem, hnewline] using ih
      · -- Nothing changes behind the first character of the last line.
        have hsame : further indent (inside indent) true t = t := moved_eq_self hmem
        have hline : '\n' ∉ c :: t := List.not_mem_cons_of_ne_of_not_mem (Ne.symm hnewline) hmem
        have hfirst : (if indent ≠ [] ∧ begun = false then 1 else 0) ≤
            reach (inside indent begun) := reach_inside begun
        rw [hsame, reach_append_of_newline_not_mem hline]
        simp only [hline, or_false]
        omega

theorem newline_mem_further (h : '\n' ∈ t) : '\n' ∈ further indent close begun t := by
  fun_induction further indent close begun t with
  | case1 => cases h
  | case2 begun c t hreturn ih => exact ih (List.mem_of_mem_head? hreturn.2)
  | case3 => exact List.mem_cons_self
  | case4 begun c t hreturn hnewline ih =>
      have hrest := (List.mem_cons.mp h).resolve_left (Ne.symm hnewline)
      exact List.mem_append_right _ (List.mem_cons_of_mem c (ih hrest))

theorem crlf_infix_cons_iff :
    ['\r', '\n'] <:+: c :: t ↔ (c = '\r' ∧ t.head? = some '\n') ∨ ['\r', '\n'] <:+: t := by
  rw [List.infix_cons_iff, List.cons_prefix_cons, eq_comm]
  refine or_congr (and_congr_right fun _ => ?_) Iff.rfl
  cases t with
  | nil => simp
  | cons d t => simp [List.cons_prefix_cons, eq_comm]

-- Without indentation only the carriage returns before line feeds are lost.
theorem length_further_nil (begun : Bool) (t : List Char) :
    (further [] (inside []) begun t).length + (if ['\r', '\n'] <:+: t then 1 else 0) ≤
      t.length := by
  fun_induction further [] (inside []) begun t with
  | case1 begun => cases begun with | false | true => decide
  | case2 begun c t hreturn ih =>
      rw [if_pos (crlf_infix_cons_iff.mpr (.inl hreturn)), List.length_cons]
      omega
  | case3 begun t hreturn ih =>
      simp only [crlf_infix_cons_iff, hreturn, false_or, List.length_cons]
      omega
  | case4 begun c t hreturn hnewline ih =>
      simp only [crlf_infix_cons_iff, hreturn, false_or, List.length_append, List.length_cons]
      have hnothing : (if begun = true then ([] : List Char) else []).length = 0 := by simp
      omega

theorem further_nil_eq_self (h : ¬ ['\r', '\n'] <:+: t) : further [] (inside []) begun t = t := by
  fun_induction further [] (inside []) begun t with
  | case1 begun => cases begun with | false | true => rfl
  | case2 begun c t hreturn ih => exact absurd (crlf_infix_cons_iff.mpr (.inl hreturn)) h
  | case3 begun t _ ih => rw [ih (fun hrest => h (crlf_infix_cons_iff.mpr (.inr hrest)))]
  | case4 begun c t hreturn hnewline ih =>
      rw [ih (fun hrest => h (crlf_infix_cons_iff.mpr (.inr hrest))), ite_self, List.nil_append]

-- What becomes of the inside of a literal that is moved several times.
def movedBy (moves : List String) (t : List Char) : List Char :=
  moves.foldl (fun t indent => moved indent.toList t) t

variable {moves : List String}

theorem reach_le_movedBy (moves : List String) (t : List Char) :
    reach t ≤ reach (movedBy moves t) := by
  induction moves generalizing t with
  | nil => exact le_rfl
  | cons indent moves ih =>
      have hstep : reach t + _ ≤ reach (moved indent.toList t) := reach_further true t
      exact ((Nat.le_add_right ..).trans hstep).trans (ih (moved indent.toList t))

theorem reach_lt_movedBy (h : '\n' ∈ t) (hmoves : ∃ indent ∈ moves, indent ≠ "") :
    reach t < reach (movedBy moves t) := by
  induction moves generalizing t with
  | nil => simp at hmoves
  | cons indent moves ih =>
      have hstep : reach t + (if indent.toList ≠ [] ∧ (true = false ∨ '\n' ∈ t) then 1 else 0) ≤
          reach (moved indent.toList t) := reach_further true t
      have hmem : '\n' ∈ moved indent.toList t := newline_mem_further h
      rw [List.exists_mem_cons_iff] at hmoves
      by_cases hindent : indent = ""
      · have hrest := ih hmem (hmoves.resolve_left (not_not.mpr hindent))
        exact ((Nat.le_add_right ..).trans hstep).trans_lt hrest
      · have hmoved : indent.toList ≠ [] := fun hnil => hindent (String.toList_eq_nil_iff.mp hnil)
        rw [if_pos ⟨hmoved, .inr h⟩] at hstep
        exact (Nat.lt_of_succ_le hstep).trans_le (reach_le_movedBy moves _)

theorem movedBy_eq_self_of_newline_not_mem (h : '\n' ∉ t) : movedBy moves t = t := by
  induction moves with
  | nil => rfl
  | cons indent moves ih => rw [movedBy, List.foldl_cons, moved_eq_self h]; exact ih

theorem length_movedBy_le (hmoves : ∀ indent ∈ moves, indent = "") (t : List Char) :
    (movedBy moves t).length ≤ t.length := by
  induction moves generalizing t with
  | nil => exact le_rfl
  | cons indent moves ih =>
      obtain ⟨rfl, hrest⟩ := List.forall_mem_cons.mp hmoves
      exact (ih hrest _).trans ((Nat.le_add_right ..).trans (length_further_nil true t))

theorem movedBy_eq_self_of_empty (hmoves : ∀ indent ∈ moves, indent = "")
    (h : ¬ ['\r', '\n'] <:+: t) : movedBy moves t = t := by
  induction moves with
  | nil => rfl
  | cons indent moves ih =>
      obtain ⟨rfl, hrest⟩ := List.forall_mem_cons.mp hmoves
      have hsame : moved "".toList t = t := further_nil_eq_self h
      rw [movedBy, List.foldl_cons, hsame]
      exact ih hrest

theorem movedBy_eq_self_iff : movedBy moves t = t ↔
    moves = [] ∨ '\n' ∉ t ∨ (∀ indent ∈ moves, indent = "") ∧ ¬ ['\r', '\n'] <:+: t := by
  constructor
  · intro hsame
    by_contra hnot
    obtain ⟨hmoves, hnewline, hrest⟩ := by simpa only [not_or] using hnot
    have hnewline := not_not.mp hnewline
    by_cases hempty : ∀ indent ∈ moves, indent = ""
    · -- The first step takes a carriage return away, and none puts anything there.
      obtain ⟨indent, moves, rfl⟩ := List.exists_cons_of_ne_nil hmoves
      obtain ⟨rfl, hothers⟩ := List.forall_mem_cons.mp hempty
      have hcrlf := not_not.mp (not_and.mp hrest hempty)
      have hfirst := length_further_nil true t
      have hafter := length_movedBy_le hothers (moved [] t)
      have hlength := congrArg List.length hsame
      rw [if_pos hcrlf] at hfirst
      change (movedBy moves (moved [] t)).length = t.length at hlength
      change (moved [] t).length + 1 ≤ t.length at hfirst
      omega
    · have hlt := reach_lt_movedBy hnewline (by simpa using hempty)
      rw [hsame] at hlt
      exact absurd hlt (Nat.lt_irrefl _)
  · rintro (rfl | hnewline | ⟨hempty, hcrlf⟩)
    · rfl
    · exact movedBy_eq_self_of_newline_not_mem hnewline
    · exact movedBy_eq_self_of_empty hempty hcrlf

end Layout

namespace Dialect

variable {dialect : Dialect} {c : Char}

-- A character that is escaped is no part of a line break.
theorem escapeChar_cases (dialect : Dialect) (c : Char) : dialect.escapeChar c = [c] ∨
    ∃ mark, dialect.escapeChar c = [mark, c] ∧ mark ≠ '\r' ∧ mark ≠ '\n' ∧ c ≠ '\r' ∧ c ≠ '\n' := by
  cases dialect with
  | vhdl =>
      by_cases hc : c = '"'
      · subst hc
        exact .inr ⟨'"', rfl, by decide⟩
      · exact .inl (if_neg hc)
  | simModel =>
      by_cases hc : c = '\\' ∨ c = '"'
      · refine .inr ⟨'\\', if_pos hc, by decide, by decide, ?_⟩
        rcases hc with rfl | rfl <;> decide
      · exact .inl (if_neg hc)

theorem newline_mem_escape_iff {s : List Char} : '\n' ∈ dialect.escape s ↔ '\n' ∈ s := by
  induction s with
  | nil => exact Iff.rfl
  | cons c s ih =>
      rw [escape, List.flatMap_cons, List.mem_append, List.mem_cons]
      refine or_congr ?_ ih
      rcases dialect.escapeChar_cases c with hc | ⟨mark, hc, -, hmark, -, hplain⟩
      · rw [hc, List.mem_singleton]
      · rw [hc]
        exact iff_of_false (by simp [hmark.symm, hplain.symm]) hplain.symm

theorem head?_escape_iff {s : List Char} :
    (dialect.escape s).head? = some '\n' ↔ s.head? = some '\n' := by
  cases s with
  | nil => exact Iff.rfl
  | cons c s =>
      rw [escape, List.flatMap_cons]
      rcases dialect.escapeChar_cases c with hc | ⟨mark, hc, -, hmark, -, hplain⟩
      · rw [hc]
        rfl
      · rw [hc]
        exact iff_of_false (hmark <| Option.some.inj ·) (hplain <| Option.some.inj ·)

theorem crlf_infix_escape_iff {s : List Char} :
    ['\r', '\n'] <:+: dialect.escape s ↔ ['\r', '\n'] <:+: s := by
  induction s with
  | nil => exact Iff.rfl
  | cons c s ih =>
      rw [escape, List.flatMap_cons]
      rcases dialect.escapeChar_cases c with hc | ⟨mark, hc, hmark, -, hplain, -⟩
      · rw [hc, List.singleton_append, Layout.crlf_infix_cons_iff, Layout.crlf_infix_cons_iff]
        exact or_congr (and_congr_right fun _ => head?_escape_iff) ih
      · rw [hc, List.cons_append, List.singleton_append, Layout.crlf_infix_cons_iff,
          Layout.crlf_infix_cons_iff, Layout.crlf_infix_cons_iff]
        simp only [hmark, hplain, false_and, false_or]
        exact ih

end Dialect

-- A string constant in a text, with the indentations that its lines got one after the other.
structure Quotation where
  content : String
  moves : List String
deriving DecidableEq, Repr

namespace Quotation

variable {dialect : Dialect} {q : Quotation}

-- What stands between the quotes.
def body (dialect : Dialect) (q : Quotation) : List Char :=
  Layout.movedBy q.moves (dialect.escape q.content.toList)

-- No indentation got between the characters: it is nowhere, there is no line feed, or all of
-- it is empty and there is no carriage return before a line feed.
def Kept (q : Quotation) : Prop :=
  q.moves = [] ∨ '\n' ∉ q.content.toList ∨
    (∀ indent ∈ q.moves, indent = "") ∧ ¬ ['\r', '\n'] <:+: q.content.toList

theorem body_eq_iff : q.body dialect = dialect.escape q.content.toList ↔ q.Kept := by
  rw [body, Layout.movedBy_eq_self_iff, Dialect.newline_mem_escape_iff,
    Dialect.crlf_infix_escape_iff, Kept]

-- Where no quote follows, just the constants that were kept are read back.
theorem string?_eq_some_iff {behind : List Char} (h : behind.head? ≠ some '"') :
    dialect.string? (q.body dialect ++ '"' :: behind) = some (q.content.toList, behind) ↔ q.Kept :=
  (Dialect.string?_eq_some_iff h).trans body_eq_iff

end Quotation

end Rtl
