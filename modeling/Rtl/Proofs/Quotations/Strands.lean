import Rtl.Layout.Piece
import Rtl.Proofs.Quotations.Moving

namespace Rtl

namespace Quotation

-- A constant in a text that is further in.
def deeper (indent : String) (q : Quotation) : Quotation := { q with moves := q.moves ++ [indent] }

theorem body_deeper (dialect : Dialect) (indent : String) (q : Quotation) :
    (q.deeper indent).body dialect = Layout.moved indent.toList (q.body dialect) := by
  simp only [body, deeper, Layout.movedBy, List.foldl_append, List.foldl_cons, List.foldl_nil]

end Quotation

-- A text with its constants in the order in which they stand there. What is between them can be
-- anything, but no quote comes right behind a literal.
inductive Quotes (dialect : Dialect) : List Char → List Quotation → Prop
  | nil : Quotes dialect [] []
  | plain (c : Char) {rest : List Char} {qs : List Quotation} (h : Quotes dialect rest qs) :
      Quotes dialect (c :: rest) qs
  | literal (q : Quotation) {rest : List Char} {qs : List Quotation}
      (hnext : rest.head? ≠ some '"') (h : Quotes dialect rest qs) :
      Quotes dialect ('"' :: (q.body dialect ++ '"' :: rest)) (q :: qs)

namespace Quotes

variable {dialect : Dialect} {a b text : List Char} {qs qs' : List Quotation} {indent : String}

theorem prepend (before : List Char) (h : Quotes dialect text qs) :
    Quotes dialect (before ++ text) qs := by
  induction before with
  | nil => exact h
  | cons c before ih => exact .plain c ih

theorem of_plain (text : List Char) : Quotes dialect text [] := by
  have h : Quotes dialect (text ++ []) [] := Quotes.nil.prepend text
  rwa [List.append_nil] at h

-- Behind a text that ends in a quote there is none.
theorem append (h : Quotes dialect a qs) (h' : Quotes dialect b qs')
    (hnext : a.getLast? = some '"' → b.head? ≠ some '"') :
    Quotes dialect (a ++ b) (qs ++ qs') := by
  induction h with
  | nil => exact h'
  | @plain c rest qs h ih =>
      refine .plain c (ih fun hlast => hnext ?_)
      rw [List.getLast?_cons, hlast]
      rfl
  | @literal q rest qs hhead h ih =>
      have hlast : ('"' :: (q.body dialect ++ '"' :: rest)).getLast? =
          rest.getLast?.or (some '"') := by
        rw [← List.cons_append, List.getLast?_append, List.getLast?_cons]
        cases rest.getLast? with
        | none | some => rfl
      rw [hlast] at hnext
      rw [List.cons_append, List.append_assoc, List.cons_append]
      refine .literal q ?_ (ih fun hsame => hnext (by rw [hsame]; rfl))
      cases rest with
      | nil => exact hnext rfl
      | cons => exact hhead

-- Without its last character, if that is no quote.
theorem of_append_newline (h : Quotes dialect (text ++ ['\n']) qs) : Quotes dialect text qs := by
  generalize hwhole : text ++ ['\n'] = whole at h
  induction h generalizing text with
  | nil => exact absurd hwhole (by simp)
  | @plain c rest qs h ih =>
      cases text with
      | nil =>
          obtain ⟨-, rfl⟩ := List.cons.inj hwhole
          exact h
      | cons d text =>
          obtain ⟨rfl, hrest⟩ := List.cons.inj hwhole
          exact .plain d (ih hrest)
  | @literal q rest qs hhead h ih =>
      -- The literal ends in a quote, so that the line feed is behind it.
      rcases List.eq_nil_or_concat rest with rfl | ⟨front, last, rfl⟩
      · rw [← List.cons_append] at hwhole
        exact absurd (List.append_inj' hwhole rfl).2 (by decide)
      · rw [List.concat_eq_append, ← List.cons_append, ← List.cons_append,
          ← List.append_assoc] at hwhole
        obtain ⟨rfl, hlast⟩ := List.append_inj' hwhole rfl
        refine .literal q ?_ (ih (by rw [List.concat_eq_append, hlast]))
        cases front with
        | nil => exact nofun
        | cons => exact hhead

-- On the line on which a literal ends, what follows it stays in its place.
theorem head?_further_ne {close : Bool → List Char} (hclose : (close true).head? ≠ some '"')
    (h : text.head? ≠ some '"') :
    (Layout.further indent.toList close true text).head? ≠ some '"' := by
  cases text with
  | nil => exact hclose
  | cons c rest =>
      by_cases hreturn : c = '\r' ∧ rest.head? = some '\n'
      · obtain ⟨rfl, hhead⟩ := hreturn
        obtain ⟨rest, rfl⟩ := List.head?_eq_some_iff.mp hhead
        rw [Layout.further_crlf rfl, Layout.further_newline]
        simp
      · by_cases hnewline : c = '\n'
        · subst hnewline
          rw [Layout.further_newline]
          simp
        · rw [Layout.further_cons hreturn hnewline]
          exact h

-- The constants of a text go further in with it.
theorem further {close : Bool → List Char} (hclose : (close true).head? ≠ some '"')
    (h : Quotes dialect text qs) (begun : Bool) :
    Quotes dialect (Layout.further indent.toList close begun text)
      (qs.map (Quotation.deeper indent)) := by
  induction h generalizing begun with
  | nil => exact of_plain _
  | @plain c rest qs h ih =>
      rw [Layout.further]
      split
      · exact ih begun
      · split
        · exact .plain _ (ih false)
        · exact prepend _ (.plain c (ih true))
  | @literal q rest qs hnext h ih =>
      rw [Layout.further_cons (by simp) (by decide), Layout.further_append_quote]
      have hmoved : Layout.further indent.toList (Layout.inside indent.toList) true
          (q.body dialect) = (q.deeper indent).body dialect := (q.body_deeper dialect indent).symm
      rw [hmoved]
      exact prepend _ (.literal _ (head?_further_ne hclose hnext) (ih true))

end Quotes

namespace Layout

-- The lines of a text, each with a line feed behind it.
def terminated (lines : List String) : List Char :=
  lines.flatMap fun line => line.toList ++ ['\n']

theorem terminated_cons (line : String) (lines : List String) :
    terminated (line :: lines) = line.toList ++ '\n' :: terminated lines := by
  simp [terminated]

theorem terminated_append (lines lines' : List String) :
    terminated (lines ++ lines') = terminated lines ++ terminated lines' := List.flatMap_append

theorem terminated_joinLines {lines : List String} (h : lines ≠ []) :
    terminated lines = (joinLines lines).toList ++ ['\n'] := by
  induction lines with
  | nil => exact absurd rfl h
  | cons line rest ih =>
      rw [terminated_cons]
      cases rest with
      | nil => simp [joinLines, terminated]
      | cons next rest =>
          rw [ih nofun, joinLines, joinLines, String.intercalate_cons_cons]
          simp [String.toList_append]

variable {indent : String} {line rest text : List Char}

-- The end of a text of which each line is ended.
def lastEnd (begun : Bool) : List Char := if begun then ['\n'] else []

-- A line goes further in, if there is anything on it.
theorem further_indentLine {close : Bool → List Char} (h : '\n' ∉ line)
    (hnext : line.getLast? = some '\r' → rest.head? ≠ some '\n') :
    further indent.toList close false (line ++ rest) =
      (indentLine indent (String.ofList line)).toList ++
        further indent.toList close (!line.isEmpty) rest := by
  cases line with
  | nil => simp [indentLine]
  | cons c line =>
      have hc : c ≠ '\n' := fun hc => h (hc ▸ List.mem_cons_self)
      have hreturn := not_crlf_of_line h hnext
      have hline : further indent.toList close true ((c :: line) ++ rest) =
          (c :: line) ++ further indent.toList close true rest := further_line h hnext
      rw [List.cons_append, further_cons hreturn hc] at hline ⊢
      have hsame : c :: further indent.toList close true (line ++ rest) = _ := hline
      rw [hsame]
      simp [indentLine, inside, String.toList_append]

-- What is taken off the end of a line is lost also where it is further in.
theorem exists_lineEnd (indent : String) (close : Bool → List Char) (begun rest : List Char) :
    ∃ behind, begun.reverse ++ '\n' :: rest = Text.endLine begun ++ behind ∧
      ((Text.endLine begun).getLast? = some '\r' → behind.head? ≠ some '\n') ∧
      ∀ started, further indent.toList close started behind =
        '\n' :: further indent.toList close false rest := by
  rw [Text.endLine.eq_def]
  split
  · rename_i begun
    refine ⟨'\r' :: '\n' :: rest, by simp, fun _ => by simp, fun started => ?_⟩
    rw [further_crlf rfl, further_newline]
  · rename_i hlast
    refine ⟨'\n' :: rest, rfl, fun hreturn => ?_, fun started => further_newline⟩
    rw [List.getLast?_reverse] at hreturn
    obtain ⟨before, rfl⟩ := List.head?_eq_some_iff.mp hreturn
    exact absurd rfl (hlast before)

theorem newline_not_mem_endLine {begun : List Char} (h : '\n' ∉ begun) :
    '\n' ∉ Text.endLine begun := by
  rw [Text.endLine.eq_def]
  split
  · exact fun hmem => h (List.mem_cons_of_mem _ (List.mem_reverse.mp hmem))
  · exact fun hmem => h (List.mem_reverse.mp hmem)

theorem terminated_splitLines (begun text : List Char) (h : '\n' ∉ begun) :
    terminated (((Text.splitLines begun text).map String.ofList).map (indentLine indent)) =
      further indent.toList lastEnd false (begun.reverse ++ text) := by
  induction text generalizing begun with
  | nil =>
      rw [further_indentLine (by rwa [List.mem_reverse]) (fun _ => by simp), Text.splitLines]
      cases begun with
      | nil => rfl
      | cons c begun => simp [terminated, further, lastEnd]
  | cons c rest ih =>
      by_cases hc : c = '\n'
      · subst hc
        obtain ⟨behind, hsame, hnext, hbehind⟩ := exists_lineEnd indent lastEnd begun rest
        rw [hsame, further_indentLine (newline_not_mem_endLine h) hnext, hbehind, Text.splitLines,
          List.map_cons, List.map_cons, terminated_cons, ih [] List.not_mem_nil]
        rfl
      · have hplain : Text.splitLines begun (c :: rest) = Text.splitLines (c :: begun) rest := by
          rw [Text.splitLines]
          exact hc
        rw [hplain, ih (c :: begun) (List.not_mem_cons_of_ne_of_not_mem (Ne.symm hc) h)]
        simp

theorem terminated_lines (text : String) :
    terminated ((Text.lines text).map (indentLine indent)) =
      further indent.toList lastEnd false text.toList :=
  terminated_splitLines [] text.toList List.not_mem_nil

end Layout

-- Texts one after the other with all their constants.
inductive QuotesTexts (dialect : Dialect) : List String → List Quotation → Prop
  | nil : QuotesTexts dialect [] []
  | cons {text : String} {texts : List String} {qs qs' : List Quotation}
      (h : Quotes dialect text.toList qs) (hrest : QuotesTexts dialect texts qs') :
      QuotesTexts dialect (text :: texts) (qs ++ qs')

namespace QuotesTexts

variable {dialect : Dialect} {texts : List String} {qs : List Quotation}

theorem of_plain (texts : List String) : QuotesTexts dialect texts [] := by
  induction texts with
  | nil => exact .nil
  | cons text texts ih => exact .cons (.of_plain text.toList) ih

theorem append {texts' : List String} {qs' : List Quotation} (h : QuotesTexts dialect texts qs)
    (h' : QuotesTexts dialect texts' qs') : QuotesTexts dialect (texts ++ texts') (qs ++ qs') := by
  induction h with
  | nil => exact h'
  | cons hfirst _ ih =>
      rw [List.cons_append, List.append_assoc]
      exact .cons hfirst ih

-- Texts to which something without a constant is added.
theorem map {write : String → String}
    (hwrite : ∀ {text qs}, Quotes dialect text.toList qs → Quotes dialect (write text).toList qs)
    (h : QuotesTexts dialect texts qs) : QuotesTexts dialect (texts.map write) qs := by
  induction h with
  | nil => exact .nil
  | cons hfirst _ ih => exact .cons (hwrite hfirst) ih

theorem of_forall₂ {α : Type} {items : List α} {quote : α → List Quotation}
    (h : List.Forall₂ (fun item text => Quotes dialect text.toList (quote item)) items texts) :
    QuotesTexts dialect texts (items.flatMap quote) := by
  induction h with
  | nil => exact .nil
  | cons hfirst _ ih => exact .cons hfirst ih

end QuotesTexts

-- Constants of which each goes further in.
def inset (indent : String) (qs : List Quotation) : List Quotation :=
  qs.map (Quotation.deeper indent)

-- Lines with their constants. A constant can begin on one of them and end on another.
def QuotesLines (dialect : Dialect) (lines : List String) (qs : List Quotation) : Prop :=
  Quotes dialect (Layout.terminated lines) qs

namespace QuotesLines

variable {dialect : Dialect} {lines lines' : List String} {line : String} {qs qs' : List Quotation}
  {indent : String}

theorem of_plain (lines : List String) : QuotesLines dialect lines [] := Quotes.of_plain _

theorem singleton (h : Quotes dialect line.toList qs) : QuotesLines dialect [line] qs := by
  have hended := h.append (Quotes.of_plain ['\n']) fun _ => by decide
  rw [List.append_nil] at hended
  rwa [QuotesLines, Layout.terminated_cons]

theorem append (h : QuotesLines dialect lines qs) (h' : QuotesLines dialect lines' qs') :
    QuotesLines dialect (lines ++ lines') (qs ++ qs') := by
  rw [QuotesLines, Layout.terminated_append]
  refine Quotes.append h h' fun hlast => ?_
  rcases List.eq_nil_or_concat lines with rfl | ⟨front, line, rfl⟩
  · cases hlast
  · simp [Layout.terminated] at hlast

theorem prepend (before : List String) (h : QuotesLines dialect lines qs) :
    QuotesLines dialect (before ++ lines) qs := (of_plain before).append h

theorem append_plain (h : QuotesLines dialect lines qs) (lines' : List String) :
    QuotesLines dialect (lines ++ lines') qs := by
  have hmore := h.append (of_plain lines')
  rwa [List.append_nil] at hmore

theorem cons (h : Quotes dialect line.toList qs) (h' : QuotesLines dialect lines qs') :
    QuotesLines dialect (line :: lines) (qs ++ qs') := (singleton h).append h'

theorem joinLines (h : QuotesLines dialect lines qs) :
    Quotes dialect (Layout.joinLines lines).toList qs := by
  cases lines with
  | nil => exact h
  | cons line lines =>
      rw [QuotesLines, Layout.terminated_joinLines (List.cons_ne_nil _ _)] at h
      exact h.of_append_newline

theorem flatMap {α β : Type} {R : α → β → Prop} {items : List α} {parts : List β}
    {write : α → List String} {quote : β → List Quotation} (h : List.Forall₂ R items parts)
    (hlines : ∀ item part, R item part → QuotesLines dialect (write item) (quote part)) :
    QuotesLines dialect (items.flatMap write) (parts.flatMap quote) := by
  induction h with
  | nil => exact of_plain []
  | cons hfirst _ ih => exact (hlines _ _ hfirst).append ih

-- Texts as they are.
theorem of_texts {texts : List String} (h : QuotesTexts dialect texts qs) :
    QuotesLines dialect texts qs := by
  induction h with
  | nil => exact of_plain []
  | cons hfirst _ ih => exact cons hfirst ih

theorem indentAll {texts : List String} (h : QuotesTexts dialect texts qs) :
    QuotesLines dialect (Layout.indentAll indent texts) (inset indent qs) := by
  induction h with
  | nil => exact of_plain []
  | cons hfirst _ ih =>
      rw [Layout.indentAll, List.flatMap_cons, List.map_append, inset, List.map_append]
      refine append ?_ ih
      rw [QuotesLines, Layout.terminated_lines]
      exact hfirst.further (by decide) false

theorem body {texts : List String} (indent placeholder : String)
    (h : QuotesTexts dialect texts qs) :
    QuotesLines dialect (Layout.body placeholder indent texts) (inset indent qs) := by
  cases h with
  | nil => exact of_plain _
  | cons hfirst hrest => exact indentAll (.cons hfirst hrest)

end QuotesLines

end Rtl
