import Mathlib

namespace Rtl

-- What the lines of a statement in VHDL say, with each line as it stands. A body
-- without statements is a placeholder, which is not the same as no body, and a case
-- without a key is the default.
inductive Outline where
  | leaf (line : String)
  | branch (condition : String) (body : List Outline) (elifs : List (String × List Outline))
      (otherwise : Option (List Outline))
  | select (subject : String) (cases : List (Option String × List Outline))

namespace Outline

def opening (condition : String) : String := "IF " ++ condition ++ " THEN"

def nextOpening (condition : String) : String := "ELSIF " ++ condition ++ " THEN"

def selection (subject : String) : String := "CASE " ++ subject ++ " IS"

def caseLine (key : Option String) : String := "WHEN " ++ key.getD "OTHERS" ++ " =>"

mutual

def lines : Outline → List String
  | leaf line => [line]
  | branch condition body elifs otherwise =>
      opening condition ::
        (bodyLines body ++ (elifLines elifs ++ (elseLines otherwise ++ ["END IF;"])))
  | select subject cases => selection subject :: (caseLines cases ++ ["END CASE;"])

def bodyLines : List Outline → List String
  | [] => ["NULL;"]
  | first :: rest => first.lines ++ linesOf rest

def linesOf : List Outline → List String
  | [] => []
  | first :: rest => first.lines ++ linesOf rest

def elifLines : List (String × List Outline) → List String
  | [] => []
  | (condition, body) :: rest => nextOpening condition :: (bodyLines body ++ elifLines rest)

def elseLines : Option (List Outline) → List String
  | none => []
  | some body => "ELSE" :: bodyLines body

def caseLines : List (Option String × List Outline) → List String
  | [] => []
  | (key, body) :: rest => caseLine key :: (bodyLines body ++ caseLines rest)

end

-- A line that is a statement by itself.
def IsLeaf (line : String) : Prop :=
  line.toList.getLast? = some ';' ∧ line ≠ "NULL;" ∧ line ≠ "END IF;" ∧ line ≠ "END CASE;"

instance (line : String) : Decidable (IsLeaf line) :=
  inferInstanceAs (Decidable (line.toList.getLast? = some ';' ∧ line ≠ "NULL;" ∧
    line ≠ "END IF;" ∧ line ≠ "END CASE;"))

mutual

-- The leaves are lines by themselves, and only the default is called like it.
def WellFormed : Outline → Prop
  | leaf line => IsLeaf line
  | branch _ body elifs otherwise => WellFormedAll body ∧ WellFormedElifs elifs ∧
      WellFormedElse otherwise
  | select _ cases => WellFormedCases cases

def WellFormedAll : List Outline → Prop
  | [] => True
  | first :: rest => first.WellFormed ∧ WellFormedAll rest

def WellFormedElifs : List (String × List Outline) → Prop
  | [] => True
  | (_, body) :: rest => WellFormedAll body ∧ WellFormedElifs rest

def WellFormedElse : Option (List Outline) → Prop
  | none => True
  | some body => WellFormedAll body

def WellFormedCases : List (Option String × List Outline) → Prop
  | [] => True
  | (key, body) :: rest => key ≠ some "OTHERS" ∧ WellFormedAll body ∧ WellFormedCases rest

end

-- The first and the last character of a line.
def edges (line : String) : Option Char × Option Char :=
  (line.toList.head?, line.toList.getLast?)

theorem edges_append {before after : String} (hbefore : before.toList ≠ [])
    (hafter : after.toList ≠ []) (inner : String) :
    edges (before ++ inner ++ after) = (before.toList.head?, after.toList.getLast?) := by
  simp only [edges, String.toList_append]
  rw [List.getLast?_append_of_ne_nil _ hafter, List.append_assoc,
    List.head?_append_of_ne_nil _ hbefore]

theorem ne_of_edges {a b : String} (h : edges a ≠ edges b) : a ≠ b :=
  fun heq => h (congrArg edges heq)

theorem edges_opening (condition : String) : edges (opening condition) = (some 'I', some 'N') :=
  edges_append (by decide) (by decide) condition

theorem edges_nextOpening (condition : String) :
    edges (nextOpening condition) = (some 'E', some 'N') :=
  edges_append (by decide) (by decide) condition

theorem edges_selection (subject : String) : edges (selection subject) = (some 'C', some 'S') :=
  edges_append (by decide) (by decide) subject

theorem edges_caseLine (key : Option String) : edges (caseLine key) = (some 'W', some '>') :=
  edges_append (by decide) (by decide) (key.getD "OTHERS")

theorem inner_inj {before after a b : String} (h : before ++ a ++ after = before ++ b ++ after) :
    a = b := by
  have hlists := congrArg String.toList h
  simp only [String.toList_append, List.append_cancel_right_eq, List.append_cancel_left_eq]
    at hlists
  exact String.toList_injective hlists

theorem caseLine_inj {a b : Option String} (ha : a ≠ some "OTHERS") (hb : b ≠ some "OTHERS")
    (h : caseLine a = caseLine b) : a = b := by
  have hkeys := inner_inj h
  cases a with
  | none =>
      cases b with
      | none => rfl
      | some key => exact absurd (congrArg some hkeys.symm) hb
  | some key =>
      cases b with
      | none => exact absurd (congrArg some hkeys) ha
      | some other => exact congrArg some hkeys

-- A line that a statement begins with.
inductive Begins : String → Prop
  | leaf {line : String} (h : IsLeaf line) : Begins line
  | opening (condition : String) : Begins (opening condition)
  | selection (subject : String) : Begins (selection subject)

theorem not_begins {line : String} (hleaf : ¬ IsLeaf line)
    (hopening : edges line ≠ (some 'I', some 'N'))
    (hselection : edges line ≠ (some 'C', some 'S')) : ¬ Begins line := by
  intro h
  cases h with
  | leaf h => exact hleaf h
  | opening condition => exact hopening (edges_opening condition)
  | selection subject => exact hselection (edges_selection subject)

theorem not_isLeaf_of_edges {line : String} {first last : Option Char}
    (h : edges line = (first, last)) (hlast : last ≠ some ';') : ¬ IsLeaf line :=
  fun hleaf => hlast ((congrArg Prod.snd h).symm.trans hleaf.1)

theorem not_begins_of_edges {line : String} {first last : Option Char}
    (h : edges line = (first, last)) (hlast : last ≠ some ';')
    (hopening : (first, last) ≠ (some 'I', some 'N'))
    (hselection : (first, last) ≠ (some 'C', some 'S')) : ¬ Begins line :=
  not_begins (not_isLeaf_of_edges h hlast) (h ▸ hopening) (h ▸ hselection)

theorem not_begins_nextOpening (condition : String) : ¬ Begins (nextOpening condition) :=
  not_begins_of_edges (edges_nextOpening condition) (by decide) (by decide) (by decide)

theorem not_begins_caseLine (key : Option String) : ¬ Begins (caseLine key) :=
  not_begins_of_edges (edges_caseLine key) (by decide) (by decide) (by decide)

theorem not_begins_else : ¬ Begins "ELSE" := not_begins (by decide) (by decide) (by decide)

theorem not_begins_placeholder : ¬ Begins "NULL;" := not_begins (by decide) (by decide) (by decide)

theorem not_begins_closing : ¬ Begins "END IF;" ∧ ¬ Begins "END CASE;" :=
  ⟨not_begins (by decide) (by decide) (by decide), not_begins (by decide) (by decide) (by decide)⟩

theorem exists_lines_eq_cons {o : Outline} (h : o.WellFormed) :
    ∃ line rest, o.lines = line :: rest ∧ Begins line := by
  cases o with
  | leaf line => exact ⟨line, [], rfl, .leaf h⟩
  | branch condition body elifs otherwise => exact ⟨_, _, rfl, .opening condition⟩
  | select subject cases => exact ⟨_, _, rfl, .selection subject⟩

-- Lines in front of which a body ends.
def Ends (rest : List String) : Prop := ∀ line ∈ rest.head?, ¬ Begins line

theorem ends_cons {line : String} (h : ¬ Begins line) (rest : List String) :
    Ends (line :: rest) := by
  intro other hother
  rwa [← Option.some.inj hother]

theorem Ends.ne_lines {u : List String} (h : Ends u) {o : Outline} (ho : o.WellFormed)
    (rest : List String) : u ≠ o.lines ++ rest := by
  rintro rfl
  obtain ⟨line, more, hlines, hbegins⟩ := exists_lines_eq_cons ho
  refine h line ?_ hbegins
  rw [hlines]
  rfl

theorem ends_elseLines (otherwise : Option (List Outline)) (u : List String) :
    Ends (elseLines otherwise ++ "END IF;" :: u) := by
  cases otherwise with
  | none => exact ends_cons not_begins_closing.1 u
  | some body => exact ends_cons not_begins_else _

theorem ends_elifLines (elifs : List (String × List Outline)) {u : List String} (h : Ends u) :
    Ends (elifLines elifs ++ u) := by
  cases elifs with
  | nil => exact h
  | cons elif rest => exact ends_cons (not_begins_nextOpening elif.1) _

theorem ends_caseLines (cases : List (Option String × List Outline)) (u : List String) :
    Ends (caseLines cases ++ "END CASE;" :: u) := by
  cases cases with
  | nil => exact ends_cons not_begins_closing.2 u
  | cons case rest => exact ends_cons (not_begins_caseLine case.1) _

-- What comes after the last of several conditions is no condition.
theorem nextOpening_ne_elseLines (condition : String) (rest : List String)
    (otherwise : Option (List Outline)) (u : List String) :
    nextOpening condition :: rest ≠ elseLines otherwise ++ "END IF;" :: u := by
  intro h
  have hne {line : String} (hline : edges line ≠ (some 'E', some 'N')) :
      nextOpening condition ≠ line :=
    ne_of_edges ((edges_nextOpening condition).symm ▸ hline.symm)
  cases otherwise with
  | none => exact hne (by decide) (List.cons.inj h).1
  | some body => exact hne (by decide) (List.cons.inj h).1

theorem caseLine_ne_closing (key : Option String) : caseLine key ≠ "END CASE;" := by
  refine ne_of_edges ?_
  rw [edges_caseLine]
  decide

theorem opening_ne_selection (condition subject : String) :
    opening condition ≠ selection subject := by
  refine ne_of_edges ?_
  rw [edges_opening, edges_selection]
  decide

theorem IsLeaf.ne_opening {line : String} (h : IsLeaf line) (condition : String) :
    line ≠ opening condition := by
  rintro rfl
  exact not_isLeaf_of_edges (edges_opening condition) (by decide) h

theorem IsLeaf.ne_selection {line : String} (h : IsLeaf line) (subject : String) :
    line ≠ selection subject := by
  rintro rfl
  exact not_isLeaf_of_edges (edges_selection subject) (by decide) h

-- A part of the lines determines both itself and the lines that follow it. Bodies
-- are read as far as statements begin.

mutual

theorem lines_append_inj : ∀ (a b : Outline) (u v : List String), a.WellFormed → b.WellFormed →
    a.lines ++ u = b.lines ++ v → a = b ∧ u = v
  | leaf line, b, u, v, ha, hb, h => by
      cases b with
      | leaf other =>
          obtain ⟨rfl, hrest⟩ := List.cons.inj h
          exact ⟨rfl, hrest⟩
      | branch condition => exact absurd (List.cons.inj h).1 (ha.ne_opening condition)
      | select subject => exact absurd (List.cons.inj h).1 (ha.ne_selection subject)
  | branch condition body elifs otherwise, b, u, v, ha, hb, h => by
      cases b with
      | leaf line => exact absurd (List.cons.inj h).1.symm (hb.ne_opening condition)
      | select subject => exact absurd (List.cons.inj h).1 (opening_ne_selection condition subject)
      | branch condition' body' elifs' otherwise' =>
          simp only [lines, List.cons_append, List.append_assoc, List.nil_append] at h
          obtain ⟨hcondition, hbody⟩ := List.cons.inj h
          obtain ⟨rfl, helifs⟩ := bodyLines_append_inj body body' _ _ ha.1 hb.1
            (ends_elifLines elifs (ends_elseLines otherwise u))
            (ends_elifLines elifs' (ends_elseLines otherwise' v)) hbody
          obtain ⟨rfl, helse⟩ := elifLines_append_inj elifs elifs' otherwise otherwise' u v ha.2.1
            hb.2.1 helifs
          obtain ⟨rfl, hrest⟩ := elseLines_append_inj otherwise otherwise' u v ha.2.2 hb.2.2 helse
          exact ⟨by rw [inner_inj hcondition], hrest⟩
  | select subject cases, b, u, v, ha, hb, h => by
      cases b with
      | leaf line => exact absurd (List.cons.inj h).1.symm (hb.ne_selection subject)
      | branch condition =>
          exact absurd (List.cons.inj h).1.symm (opening_ne_selection condition subject)
      | select subject' cases' =>
          simp only [lines, List.cons_append, List.append_assoc, List.nil_append] at h
          obtain ⟨hsubject, hcases⟩ := List.cons.inj h
          obtain ⟨rfl, hrest⟩ := caseLines_append_inj cases cases' u v ha hb hcases
          exact ⟨by rw [inner_inj hsubject], hrest⟩

theorem bodyLines_append_inj : ∀ (as bs : List Outline) (u v : List String), WellFormedAll as →
    WellFormedAll bs → Ends u → Ends v → bodyLines as ++ u = bodyLines bs ++ v → as = bs ∧ u = v
  | [], bs, u, v, _, hbs, hu, hv, h => by
      cases bs with
      | nil => exact ⟨rfl, (List.cons.inj h).2⟩
      | cons b bs =>
          simp only [bodyLines, List.append_assoc] at h
          exact absurd h ((ends_cons not_begins_placeholder u).ne_lines hbs.1 _)
  | a :: as, bs, u, v, has, hbs, hu, hv, h => by
      cases bs with
      | nil =>
          simp only [bodyLines, List.append_assoc] at h
          exact absurd h.symm ((ends_cons not_begins_placeholder v).ne_lines has.1 _)
      | cons b bs =>
          simp only [bodyLines, List.append_assoc] at h
          obtain ⟨rfl, hmore⟩ := lines_append_inj a b _ _ has.1 hbs.1 h
          obtain ⟨rfl, hrest⟩ := linesOf_append_inj as bs u v has.2 hbs.2 hu hv hmore
          exact ⟨rfl, hrest⟩

theorem linesOf_append_inj : ∀ (as bs : List Outline) (u v : List String), WellFormedAll as →
    WellFormedAll bs → Ends u → Ends v → linesOf as ++ u = linesOf bs ++ v → as = bs ∧ u = v
  | [], bs, u, v, _, hbs, hu, hv, h => by
      cases bs with
      | nil => exact ⟨rfl, h⟩
      | cons b bs =>
          simp only [linesOf, List.append_assoc] at h
          exact absurd h (hu.ne_lines hbs.1 _)
  | a :: as, bs, u, v, has, hbs, hu, hv, h => by
      cases bs with
      | nil =>
          simp only [linesOf, List.append_assoc] at h
          exact absurd h.symm (hv.ne_lines has.1 _)
      | cons b bs =>
          simp only [linesOf, List.append_assoc] at h
          obtain ⟨rfl, hmore⟩ := lines_append_inj a b _ _ has.1 hbs.1 h
          obtain ⟨rfl, hrest⟩ := linesOf_append_inj as bs u v has.2 hbs.2 hu hv hmore
          exact ⟨rfl, hrest⟩

theorem elifLines_append_inj : ∀ (as bs : List (String × List Outline))
    (x y : Option (List Outline)) (u v : List String), WellFormedElifs as → WellFormedElifs bs →
    elifLines as ++ (elseLines x ++ "END IF;" :: u) =
      elifLines bs ++ (elseLines y ++ "END IF;" :: v) →
    as = bs ∧ elseLines x ++ "END IF;" :: u = elseLines y ++ "END IF;" :: v
  | [], bs, x, y, u, v, _, hbs, h => by
      cases bs with
      | nil => exact ⟨rfl, h⟩
      | cons b bs => exact absurd h.symm (nextOpening_ne_elseLines _ _ x u)
  | (condition, body) :: as, bs, x, y, u, v, has, hbs, h => by
      cases bs with
      | nil => exact absurd h (nextOpening_ne_elseLines _ _ y v)
      | cons b bs =>
          obtain ⟨condition', body'⟩ := b
          simp only [elifLines, List.cons_append, List.append_assoc] at h
          obtain ⟨hcondition, hbody⟩ := List.cons.inj h
          obtain ⟨rfl, hmore⟩ := bodyLines_append_inj body body' _ _ has.1 hbs.1
            (ends_elifLines as (ends_elseLines x u)) (ends_elifLines bs (ends_elseLines y v)) hbody
          obtain ⟨rfl, hrest⟩ := elifLines_append_inj as bs x y u v has.2 hbs.2 hmore
          exact ⟨by rw [inner_inj hcondition], hrest⟩

theorem elseLines_append_inj : ∀ (x y : Option (List Outline)) (u v : List String),
    WellFormedElse x → WellFormedElse y →
    elseLines x ++ "END IF;" :: u = elseLines y ++ "END IF;" :: v → x = y ∧ u = v
  | none, y, u, v, _, hy, h => by
      cases y with
      | none => exact ⟨rfl, (List.cons.inj h).2⟩
      | some body => exact absurd (List.cons.inj h).1 (by decide)
  | some body, y, u, v, hx, hy, h => by
      cases y with
      | none => exact absurd (List.cons.inj h).1 (by decide)
      | some body' =>
          obtain ⟨rfl, hrest⟩ := bodyLines_append_inj body body' ("END IF;" :: u) ("END IF;" :: v)
            hx hy (ends_cons not_begins_closing.1 u) (ends_cons not_begins_closing.1 v)
            (List.cons.inj h).2
          exact ⟨rfl, (List.cons.inj hrest).2⟩

theorem caseLines_append_inj : ∀ (as bs : List (Option String × List Outline))
    (u v : List String), WellFormedCases as → WellFormedCases bs →
    caseLines as ++ "END CASE;" :: u = caseLines bs ++ "END CASE;" :: v → as = bs ∧ u = v
  | [], bs, u, v, _, hbs, h => by
      cases bs with
      | nil => exact ⟨rfl, (List.cons.inj h).2⟩
      | cons b bs => exact absurd (List.cons.inj h).1.symm (caseLine_ne_closing b.1)
  | (key, body) :: as, bs, u, v, has, hbs, h => by
      cases bs with
      | nil => exact absurd (List.cons.inj h).1 (caseLine_ne_closing key)
      | cons b bs =>
          obtain ⟨key', body'⟩ := b
          simp only [caseLines, List.cons_append, List.append_assoc] at h
          obtain ⟨hkey, hbody⟩ := List.cons.inj h
          obtain ⟨rfl, hmore⟩ := bodyLines_append_inj body body' _ _ has.2.1 hbs.2.1
            (ends_caseLines as u) (ends_caseLines bs v) hbody
          obtain ⟨rfl, hrest⟩ := caseLines_append_inj as bs u v has.2.2 hbs.2.2 hmore
          exact ⟨by rw [caseLine_inj has.1 hbs.1 hkey], hrest⟩

end

-- No two statements are written by the same lines.
theorem lines_inj {a b : Outline} (ha : a.WellFormed) (hb : b.WellFormed)
    (h : a.lines = b.lines) : a = b :=
  (lines_append_inj a b [] [] ha hb (congrArg (· ++ []) h)).1

end Outline

end Rtl
