import Rtl.Proofs.Layout.Drawing

namespace Rtl

open Layout.Vhdl

-- A line of its own that is not taken for a part of another statement.
theorem leaf_of_line {line : String} {first : Char} (other : Char)
    (hnewline : '\n' ∉ line.toList) (hedges : Outline.edges line = (some first, some ';'))
    (hfirst : isIndent first = false) (hother : other ∈ line.toList)
    (hnot : other ∉ "NULL; END IF; END CASE;".toList) :
    Outline.IsLeaf line ∧ Shows (Text.lines line) [line] := by
  have hlast : line.toList.getLast? = some ';' := congrArg Prod.snd hedges
  have hline : IsLine line := ⟨hnewline, ';', hlast, by decide⟩
  have hne {word : String} (hword : word.toList ⊆ "NULL; END IF; END CASE;".toList) :
      line ≠ word := by
    rintro rfl
    exact hnot (hword hother)
  refine ⟨⟨hlast, hne (by decide), hne (by decide), hne (by decide)⟩, ?_⟩
  rw [hline.lines_eq_singleton]
  exact .cons hline (unindent_of_head (congrArg Prod.fst hedges) hfirst) .nil

-- A name that a line can begin with.
def StartsLine (name : String) : Prop :=
  '\n' ∉ name.toList ∧ name.toList.head?.map isIndent = some false

instance (name : String) : Decidable (StartsLine name) :=
  inferInstanceAs (Decidable ('\n' ∉ name.toList ∧ name.toList.head?.map isIndent = some false))

namespace Renderer

variable {r : Renderer} {indent : String}

-- What is asked of the names and expressions in a statement, apart from the bodies
-- in it.
def Readable (r : Renderer) : Statement → Prop
  | .assign _ destination source _ _ =>
      IfWritten StartsLine (r.signalName destination) ∧ OnOneLine (r.exprText source)
  | .branch _ condition _ elifs _ =>
      (∀ part ∈ condition, OnOneLine (r.exprText part)) ∧
        ∀ elif ∈ elifs, ∀ part ∈ elif.1, OnOneLine (r.exprText part)
  | .select _ subject cases =>
      OnOneLine (r.exprText subject) ∧
        ∀ case ∈ cases, ∀ key ∈ case.1,
          OnOneLine (r.exprText key) ∧ IfWritten (· ≠ "OTHERS") (r.exprText key)
  | .wait .. => True

instance (r : Renderer) (s : Statement) : Decidable (r.Readable s) := by
  cases s with
  | assign | branch | select | wait =>
      unfold Readable
      infer_instance

theorem leaf_of_assignmentText (hvhdl : r.dialect = .vhdl) {destination : SignalId}
    {source : Expr} {indexes : Option (List Expr)} {onEvent : Bool} {text : String}
    (hname : IfWritten StartsLine (r.signalName destination))
    (hsource : OnOneLine (r.exprText source))
    (hok : r.assignmentText destination source indexes onEvent = .ok text) :
    Outline.IsLeaf text ∧ Shows (Text.lines text) [text] := by
  simp only [assignmentText, bind_eq_ok, hvhdl] at hok
  obtain ⟨_, -, _, -, name, hwritten, value, hvalue, hok⟩ := hok
  split at hok
  · obtain ⟨_, -, hok⟩ := bind_eq_ok.mp hok
    obtain ⟨_, -, hok⟩ := bind_eq_ok.mp hok
    cases hok
  split at hok
  · cases hok
  obtain rfl : name ++ " <= " ++ value ++ ";" = text := Except.ok.inj hok
  obtain ⟨hnewline, hhead⟩ := hname name hwritten
  obtain ⟨first, hfirst, hindent⟩ := Option.map_eq_some_iff.mp hhead
  have hne : name.toList ≠ [] := by
    rintro hnil
    rw [hnil] at hfirst
    cases hfirst
  have hedges : Outline.edges (name ++ (" <= " ++ value) ++ ";") = (some first, some ';') := by
    rw [Outline.edges_append hne (by decide), hfirst]
    rfl
  rw [← String.append_assoc] at hedges
  refine leaf_of_line '<' ?_ hedges hindent (by simp) (by decide)
  simp [hnewline, hsource value hvalue]

theorem leaf_of_waitText (hvhdl : r.dialect = .vhdl) (hunit : '\n' ∉ r.timeUnit.toList)
    {timed : Bool} {duration : Option Nat} {text : String}
    (hok : r.waitText timed duration = .ok text) :
    Outline.IsLeaf text ∧ Shows (Text.lines text) [text] := by
  have hnewline := onOneLine_waitText hunit timed duration text hok
  suffices hparts : Outline.edges text = (some 'W', some ';') ∧ 'W' ∈ text.toList from
    leaf_of_line 'W' hnewline hparts.1 (by decide) hparts.2 (by decide)
  cases timed with
  | true =>
      cases duration with
      | none => cases hok
      | some amount =>
          simp only [waitText, hvhdl] at hok
          obtain rfl := Except.ok.inj hok
          have htext : Vhdl.timedWait amount r.timeUnit =
              "WAIT FOR " ++ (toString amount ++ (" " ++ r.timeUnit)) ++ ";" := by
            simp only [Vhdl.timedWait, String.append_assoc]
            rfl
          simp only [Dialect.timedWait, htext]
          exact ⟨Outline.edges_append (by decide) (by decide) _, by simp⟩
  | false =>
      cases duration with
      | none =>
          simp only [waitText, hvhdl] at hok
          obtain rfl := Except.ok.inj hok
          decide
      | some amount => cases hok

theorem wellFormed_present {body : List Outline} (h : Outline.WellFormedAll body) :
    Outline.WellFormedElse (present body) := by
  cases body with
  | nil => trivial
  | cons => exact h

-- A statement in VHDL with the outline that its lines are those of.
def Pictures (text : String) (o : Outline) : Prop := o.WellFormed ∧ Shows (Text.lines text) o.lines

theorem pictures_all {texts : List String} {outlines : List Outline}
    (h : List.Forall₂ Pictures texts outlines) :
    Outline.WellFormedAll outlines ∧ ShowsAll texts outlines := by
  refine ⟨?_, h.imp fun _ _ hfirst => hfirst.2⟩
  induction h with
  | nil => trivial
  | cons hfirst _ ih => exact ⟨hfirst.1, ih⟩

theorem pictures_elifs {elifs : List (String × List String)}
    {outlines : List (String × List Outline)}
    (h : List.Forall₂ (DrawnElif Pictures) elifs outlines) :
    Outline.WellFormedElifs outlines ∧ List.Forall₂ ShowsElif elifs outlines := by
  refine ⟨?_, h.imp fun _ _ ⟨hsame, hline, hbody⟩ => ⟨hsame, hline, (pictures_all hbody).2⟩⟩
  induction h with
  | nil => trivial
  | cons hfirst _ ih => exact ⟨(pictures_all hfirst.2.2).1, ih⟩

-- A key on one line that is not called like the default.
def IsKey (text : String) : Prop := '\n' ∉ text.toList ∧ text ≠ "OTHERS"

theorem pictures_cases {cases : List (Option String × List String)}
    {outlines : List (Option String × List Outline)}
    (h : List.Forall₂ (DrawnCase IsKey Pictures) cases outlines) :
    Outline.WellFormedCases outlines ∧ List.Forall₂ ShowsCase cases outlines := by
  refine ⟨?_, h.imp fun _ _ ⟨hsame, hkey, hbody⟩ =>
    ⟨hsame, fun key hmem => (hkey key hmem).1, (pictures_all hbody).2⟩⟩
  induction h with
  | nil => trivial
  | cons hfirst _ ih =>
      obtain ⟨hsame, hkey, hbody⟩ := hfirst
      exact ⟨fun heq => (hkey "OTHERS" (hsame.symm.trans heq)).2 rfl, (pictures_all hbody).1, ih⟩

theorem draws_vhdl (hvhdl : r.dialect = .vhdl) (hunit : '\n' ∉ r.timeUnit.toList)
    (hindent : ∀ c ∈ indent.toList, isIndent c = true) :
    Draws r (Layout.Vhdl.layout indent) r.Readable IsKey Pictures where
  assign hreadable hok := leaf_of_assignmentText hvhdl hreadable.1 hreadable.2 hok
  wait hok := leaf_of_waitText hvhdl hunit hok
  conditions hreadable := hreadable
  keys hreadable := ⟨hreadable.1, fun case hcase key hkey text hok =>
    ⟨(hreadable.2 case hcase key hkey).1 text hok, (hreadable.2 case hcase key hkey).2 text hok⟩⟩
  branch piece _ _ _ hcondition hbody helifs hotherwise := by
    obtain ⟨hbodyFormed, hbodyShown⟩ := pictures_all hbody
    obtain ⟨helifsFormed, helifsShown⟩ := pictures_elifs helifs
    obtain ⟨hotherFormed, hotherShown⟩ := pictures_all hotherwise
    exact ⟨⟨hbodyFormed, helifsFormed, wellFormed_present hotherFormed⟩,
      shows_branch hindent piece hcondition hbodyShown helifsShown hotherShown⟩
  select piece _ hsubject hcases := by
    obtain ⟨hformed, hshown⟩ := pictures_cases hcases
    exact ⟨hformed, shows_select hindent piece hsubject hshown⟩

-- The lines of a statement in VHDL, whatever their indentation, are those of one
-- outline alone, and it is that of the statement.
theorem statement_read_back (r : Renderer) (hvhdl : r.dialect = .vhdl)
    (hunit : '\n' ∉ r.timeUnit.toList) (indent : String)
    (hindent : ∀ c ∈ indent.toList, c = ' ' ∨ c = '\t') (t : Statement)
    (hreadable : ∀ s ∈ t.walk, r.Readable s) (text : String)
    (hok : r.statement (Layout.Vhdl.layout indent) t = .ok text) :
    ∃ o, r.outline t = .ok o ∧
      ∀ p : Outline, p.WellFormed ∧ p.lines = (Text.lines text).map unindent ↔ p = o := by
  have hblank : ∀ c ∈ indent.toList, isIndent c = true := by
    intro c hc
    rcases hindent c hc with rfl | rfl <;> rfl
  obtain ⟨o, ho, hformed, hshows⟩ :=
    (draws_vhdl hvhdl hunit hblank).statement t text hreadable hok
  refine ⟨o, ho, fun p => ⟨fun ⟨hp, hlines⟩ => ?_, ?_⟩⟩
  · exact Outline.lines_inj hp hformed (hlines.trans hshows.unindent)
  · rintro rfl
    exact ⟨hformed, hshows.unindent.symm⟩

-- A selection with a default between two waits, in a branch without an else.

def lampStep : Statement :=
  .branch ⟨0⟩ [.signal ⟨0⟩]
    [.wait ⟨1⟩ true (some 5),
      .select ⟨2⟩ (.signal ⟨0⟩)
        [(some (.literal ⟨⟨0⟩, .bits (.ofNat 0 1)⟩), []),
          (none, [.assign ⟨3⟩ ⟨0⟩ (.literal ⟨⟨0⟩, .bits (.ofNat 1 1)⟩) none false])],
      .wait ⟨4⟩ false none]
    [([.signal ⟨0⟩], [])] []

def lampDesign : Design :=
  ⟨⟨#["top", "lamp"]⟩, ⟨⟨#[.bit]⟩⟩,
    ((Architecture.ofEntity ⟨0⟩ (.ofName ⟨0⟩)).addSignal ⟨1⟩ ⟨0⟩ none).2⟩

def lampRenderer : Renderer := ofDesign .vhdl lampDesign "ns" (Dialect.vhdl.baseScope [])

def lampText : String :=
  Layout.joinLines
    ["IF lamp = '1' THEN",
     "  WAIT FOR 5 ns;",
     "  CASE lamp IS",
     "    WHEN '0' =>",
     "      NULL;",
     "    WHEN OTHERS =>",
     "      lamp <= '1';",
     "  END CASE;",
     "  WAIT;",
     "ELSIF lamp = '1' THEN",
     "  NULL;",
     "END IF;"]

theorem lampStep_read_back :
    ∃ o, lampRenderer.outline lampStep = .ok o ∧
      ∀ p : Outline, p.WellFormed ∧ p.lines = (Text.lines lampText).map unindent ↔ p = o :=
  statement_read_back lampRenderer rfl (newline_not_mem_timeUnits "ns" (by decide)) "  " (by simp)
    lampStep (by decide +kernel) lampText (by decide +kernel)

end Renderer

end Rtl
