import Rtl.Proofs.Layout.Lines

namespace Rtl

-- Lines on one margin, each with the lines under it.
inductive Blocks where
  | nil
  | cons (head : String) (body rest : Blocks)
deriving DecidableEq, Repr

namespace Blocks

def append : Blocks → Blocks → Blocks
  | nil, other => other
  | cons head body rest, other => cons head body (rest.append other)

-- The lines as they are written where what is under a line is further in.
def lines (indent : String) : Blocks → List String
  | nil => []
  | cons head body rest => head :: ((body.lines indent).map (indent ++ ·) ++ rest.lines indent)

def All (p : String → Prop) : Blocks → Prop
  | nil => True
  | cons head body rest => p head ∧ body.All p ∧ rest.All p

variable {p : String → Prop} {indent : String} {a b : Blocks}

theorem lines_append (indent : String) (a b : Blocks) :
    (a.append b).lines indent = a.lines indent ++ b.lines indent := by
  induction a with
  | nil => rfl
  | cons head body rest _ ih =>
      simp only [append, lines, ih, List.cons_append, List.append_assoc]

theorem All.append (ha : a.All p) (hb : b.All p) : (a.append b).All p := by
  induction a with
  | nil => exact hb
  | cons head body rest _ ih => exact ⟨ha.1, ha.2.1, ih ha.2.2⟩

theorem All.imp {q : String → Prop} (h : b.All p) (himp : ∀ line, p line → q line) : b.All q := by
  induction b with
  | nil => trivial
  | cons head body rest ihb ihr => exact ⟨himp head h.1, ihb h.2.1, ihr h.2.2⟩

-- What holds of every line under which others can stand holds of all lines.
theorem All.lines (h : b.All p) (hindent : ∀ line, p line → p (indent ++ line)) :
    ∀ line ∈ b.lines indent, p line := by
  induction b with
  | nil => exact nofun
  | cons head body rest ihb ihr =>
      refine List.forall_mem_cons.mpr ⟨h.1, List.forall_mem_append.mpr ⟨?_, ihr h.2.2⟩⟩
      intro line hline
      obtain ⟨inner, hinner, rfl⟩ := List.mem_map.mp hline
      exact hindent inner (ihb h.2.1 inner hinner)

end Blocks

-- How far in a line is: the column that it begins in, with tabs that go on to the next
-- multiple of eight, and the number of its blanks.
structure Margin where
  column : Nat
  blanks : Nat
deriving DecidableEq, Repr

namespace Margin

def advance (column : Nat) (c : Char) : Nat :=
  if c = '\t' then (column / 8 + 1) * 8 else column + 1

def ofBlanks (blanks : List Char) : Margin := ⟨blanks.foldl advance 0, blanks.length⟩

def ofLine (line : String) : Margin := ofBlanks (line.toList.takeWhile isIndent)

-- Whether a margin is further in than another one, however wide the tabs are.
def Within (inner outer : Margin) : Prop :=
  outer.column < inner.column ∧ outer.blanks < inner.blanks

instance (inner outer : Margin) : Decidable (inner.Within outer) :=
  inferInstanceAs (Decidable (outer.column < inner.column ∧ outer.blanks < inner.blanks))

theorem not_within_self (margin : Margin) : ¬ margin.Within margin := fun h => absurd h.1 (by simp)

theorem Within.trans {a b c : Margin} (h : a.Within b) (hnext : b.Within c) : a.Within c :=
  ⟨Nat.lt_trans hnext.1 h.1, Nat.lt_trans hnext.2 h.2⟩

theorem lt_advance (column : Nat) (c : Char) : column < advance column c := by
  simp only [advance]
  split
  · omega
  · exact Nat.lt_succ_self column

theorem lt_foldl_advance {blanks : List Char} (h : blanks ≠ []) (column : Nat) :
    column < blanks.foldl advance column := by
  induction blanks generalizing column with
  | nil => exact absurd rfl h
  | cons c rest ih =>
      rw [List.foldl_cons]
      by_cases hrest : rest = []
      · rw [hrest]
        exact lt_advance column c
      · exact Nat.lt_trans (lt_advance column c) (ih hrest _)

theorem within_append (base : List Char) {more : List Char} (h : more ≠ []) :
    (ofBlanks (base ++ more)).Within (ofBlanks base) := by
  refine ⟨?_, ?_⟩
  · rw [ofBlanks, ofBlanks, List.foldl_append]
    exact lt_foldl_advance h _
  · rw [ofBlanks, ofBlanks, List.length_append]
    exact Nat.lt_add_of_pos_right (List.length_pos_iff.mpr h)

end Margin

-- A line with no indentation that says something.
def IsHead (line : String) : Prop :=
  ∃ c ∈ line.toList.head?, isIndent c = false ∧ c ≠ '#'

theorem isHead_append {before : String} (h : IsHead before) (after : String) :
    IsHead (before ++ after) := by
  obtain ⟨c, hc, hfirst⟩ := h
  refine ⟨c, ?_, hfirst⟩
  rw [String.toList_append, List.head?_append, Option.mem_def.mp hc]
  rfl

-- Whether a line says something. Empty lines and remarks do not count.
def isCode (line : String) : Bool :=
  match (unindent line).toList.head? with
  | some c => c != '#'
  | none => false

-- A line that was read with the lines under it.
structure Reading where
  margin : Margin
  head : String
  body : Blocks

namespace Blocks

-- The lines on one margin; `none` if they are not on one.
def level? : List Reading → Option Blocks
  | [] => some .nil
  | first :: rest =>
      if rest.all (·.margin = first.margin) then (level? rest).map (.cons first.head first.body)
      else none

-- A line in front of others takes those under it that are further in, up to the first one
-- that is not.
def nest (line : Margin × String) (later : List Reading) : Option (List Reading) :=
  (level? (later.takeWhile (·.margin.Within line.1))).map fun body =>
    ⟨line.1, line.2, body⟩ :: later.dropWhile (·.margin.Within line.1)

def mark (line : String) : Margin × String := (.ofLine line, unindent line)

-- Reads what is under what from the indentation alone; `none` if it is not consistent.
def read? (lines : List String) : Option Blocks :=
  (((lines.filter isCode).map mark).foldrM nest []).bind level?

-- The readings of what is on one margin.
def readings (margin : Margin) : Blocks → List Reading
  | nil => []
  | cons head body rest => ⟨margin, head, body⟩ :: rest.readings margin

variable {margin : Margin} {base indent : String} {b : Blocks} {later : List Reading}

theorem margin_of_mem_readings {entry : Reading} (h : entry ∈ b.readings margin) :
    entry.margin = margin := by
  induction b with
  | nil => cases h
  | cons head body rest _ ih =>
      rcases List.mem_cons.mp h with rfl | hrest
      · rfl
      · exact ih hrest

theorem level?_readings (margin : Margin) (b : Blocks) : level? (b.readings margin) = some b := by
  induction b with
  | nil => rfl
  | cons head body rest _ ih =>
      have hsame : (rest.readings margin).all (·.margin = margin) = true := by
        simpa using fun entry h => margin_of_mem_readings h
      rw [readings, level?, if_pos hsame, ih, Option.map_some]

theorem span_of_not_within (hlater : ∀ entry ∈ later.head?, ¬ entry.margin.Within margin) :
    later.takeWhile (·.margin.Within margin) = [] ∧
      later.dropWhile (·.margin.Within margin) = later := by
  cases later with
  | nil => exact ⟨rfl, rfl⟩
  | cons first rest =>
      have hfirst : ¬ decide (first.margin.Within margin) = true :=
        mt of_decide_eq_true (hlater first rfl)
      exact ⟨List.takeWhile_cons_of_neg hfirst, List.dropWhile_cons_of_neg hfirst⟩

theorem nest_append {inner : Blocks} {deeper : Margin} (hdeeper : deeper.Within margin)
    (hlater : ∀ entry ∈ later.head?, ¬ entry.margin.Within margin) (head : String) :
    nest (margin, head) (inner.readings deeper ++ later) =
      some (⟨margin, head, inner⟩ :: later) := by
  have hinner : ∀ entry ∈ inner.readings deeper, decide (entry.margin.Within margin) = true := by
    intro entry hentry
    rw [margin_of_mem_readings hentry]
    exact decide_eq_true hdeeper
  obtain ⟨htake, hdrop⟩ := span_of_not_within hlater
  simp only [nest, List.takeWhile_append_of_pos hinner, List.dropWhile_append_of_pos hinner,
    htake, hdrop, List.append_nil, level?_readings, Option.map_some]

theorem mark_append (hbase : ∀ c ∈ base.toList, isIndent c = true) {head : String}
    (h : IsHead head) : mark (base ++ head) = (.ofBlanks base.toList, head) := by
  obtain ⟨c, hc, hblank, -⟩ := h
  have hstop : head.toList.takeWhile isIndent = [] := by
    obtain ⟨rest, hhead⟩ := List.head?_eq_some_iff.mp (Option.mem_def.mp hc)
    rw [hhead, List.takeWhile_cons_of_neg (by simp [hblank])]
  rw [mark, Margin.ofLine, String.toList_append, List.takeWhile_append_of_pos hbase, hstop,
    List.append_nil, unindent_append hbase, unindent_of_head (Option.mem_def.mp hc) hblank]

-- By induction on the blocks: those under a line are read from a margin further in, and
-- what follows them ends them.
theorem foldrM_nest (hindent : ∀ c ∈ indent.toList, isIndent c = true) (hne : indent ≠ "")
    (hbase : ∀ c ∈ base.toList, isIndent c = true) (hheads : b.All IsHead)
    (hlater : ∀ entry ∈ later.head?, ¬ entry.margin.Within (.ofBlanks base.toList)) :
    ((b.lines indent).map fun line => mark (base ++ line)).foldrM nest later =
      some (b.readings (.ofBlanks base.toList) ++ later) := by
  induction b generalizing base later with
  | nil => rfl
  | cons head body rest ihb ihr =>
      obtain ⟨hhead, hbody, hrest⟩ := hheads
      have hdeeper : (Margin.ofBlanks (base ++ indent).toList).Within (.ofBlanks base.toList) := by
        rw [String.toList_append]
        refine Margin.within_append _ fun hnil => hne ?_
        exact String.toList_injective hnil
      have hinner : ∀ c ∈ (base ++ indent).toList, isIndent c = true := by
        rw [String.toList_append]
        exact List.forall_mem_append.mpr ⟨hbase, hindent⟩
      have hfollows : ∀ entry ∈ (rest.readings (.ofBlanks base.toList) ++ later).head?,
          ¬ entry.margin.Within (.ofBlanks base.toList) := by
        intro entry hentry
        cases rest with
        | nil => exact hlater entry hentry
        | cons =>
            obtain rfl := Option.some.inj hentry
            exact Margin.not_within_self _
      have hends : ∀ entry ∈ (rest.readings (.ofBlanks base.toList) ++ later).head?,
          ¬ entry.margin.Within (.ofBlanks (base ++ indent).toList) :=
        fun entry hentry hwithin => hfollows entry hentry (hwithin.trans hdeeper)
      have hshift (line : String) : mark (base ++ (indent ++ line)) =
          mark (base ++ indent ++ line) := by
        rw [String.append_assoc]
      simp only [lines, List.map_cons, List.map_append, List.map_map, Function.comp_def, hshift,
        List.foldrM_cons, List.foldrM_append, ihr hbase hrest hlater, Option.bind_eq_bind,
        Option.bind_some, ihb hinner hbody hends, mark_append hbase hhead,
        nest_append hdeeper hfollows, readings, List.cons_append]

-- Blocks are read from their lines, on whatever margin these are.
theorem read?_lines (hindent : ∀ c ∈ indent.toList, isIndent c = true) (hne : indent ≠ "")
    (hbase : ∀ c ∈ base.toList, isIndent c = true) (hheads : b.All IsHead) {lines : List String}
    (hlines : lines.filter isCode = (b.lines indent).map (base ++ ·)) : read? lines = some b := by
  have hnothing : ∀ entry ∈ ([] : List Reading).head?,
      ¬ entry.margin.Within (.ofBlanks base.toList) := nofun
  have hread := foldrM_nest hindent hne hbase hheads hnothing
  rw [List.append_nil] at hread
  rw [read?, hlines, List.map_map]
  simp only [Function.comp_def, hread, Option.bind_some, level?_readings]

-- Lines that are all on one margin have nothing under them.
theorem foldrM_nest_flat (margin : Margin) (heads : List String) :
    (heads.map fun head => (margin, head)).foldrM nest [] =
      some (heads.map fun head => ⟨margin, head, nil⟩) := by
  induction heads with
  | nil => rfl
  | cons head rest ih =>
      have hlater : ∀ entry ∈ (rest.map fun head => Reading.mk margin head nil).head?,
          ¬ entry.margin.Within margin := by
        intro entry hentry
        obtain ⟨_, -, rfl⟩ := List.mem_map.mp (List.mem_of_mem_head? hentry)
        exact Margin.not_within_self margin
      obtain ⟨htake, hdrop⟩ := span_of_not_within hlater
      rw [List.map_cons, List.foldrM_cons, ih, Option.bind_eq_bind, Option.bind_some]
      simp only [nest, htake, hdrop, level?, Option.map_some, List.map_cons]

theorem body_eq_nil_of_read?_flat {heads lines : List String} {head : String} {body rest : Blocks}
    (hbase : ∀ c ∈ base.toList, isIndent c = true) (hheads : ∀ head ∈ heads, IsHead head)
    (hlines : lines.filter isCode = heads.map (base ++ ·))
    (hread : read? lines = some (cons head body rest)) : body = nil := by
  have hmarks : (heads.map (base ++ ·)).map mark =
      heads.map fun head => (Margin.ofBlanks base.toList, head) := by
    rw [List.map_map]
    exact List.map_congr_left fun head hhead => mark_append hbase (hheads head hhead)
  rw [read?, hlines, hmarks, foldrM_nest_flat, Option.bind_some] at hread
  cases heads with
  | nil => cases hread
  | cons first others =>
      rw [List.map_cons, level?] at hread
      split at hread
      · obtain ⟨_, -, heq⟩ := Option.map_eq_some_iff.mp hread
        exact (cons.inj heq).2.1.symm
      · cases hread

-- What is under a line can be told from its indentation exactly if there is any.
theorem read?_lines_iff (hindent : ∀ c ∈ indent.toList, isIndent c = true)
    (hbase : ∀ c ∈ base.toList, isIndent c = true) {head : String} {body rest : Blocks}
    (hheads : (cons head body rest).All IsHead) (hbody : body ≠ nil) {lines : List String}
    (hlines : lines.filter isCode = ((cons head body rest).lines indent).map (base ++ ·)) :
    read? lines = some (cons head body rest) ↔ indent ≠ "" := by
  refine ⟨?_, fun hne => read?_lines hindent hne hbase hheads hlines⟩
  rintro hread rfl
  have hflat : ∀ line ∈ (cons head body rest).lines "", IsHead line :=
    hheads.lines fun line hline => String.empty_append.symm ▸ hline
  exact hbody (body_eq_nil_of_read?_flat hbase hflat hlines hread)

end Blocks

end Rtl
