import Rtl.Layout
import Rtl.Proofs.Layout.ReadingBack
import Rtl.Proofs.Layout.Units

namespace Rtl

namespace Selection

section

variable {κ β : Type} {cases : List (Option κ × β)} {equals : κ → Bool}

-- No case in front of another one is a default.
def DefaultLast (cases : List (Option κ × β)) : Prop :=
  ∀ case ∈ cases.dropLast, case.1.isSome = true

instance (cases : List (Option κ × β)) : Decidable (DefaultLast cases) :=
  inferInstanceAs (Decidable (∀ case ∈ cases.dropLast, case.1.isSome = true))

-- The body of the first case whose key is equal, else that of the first default.
def chosen (equals : κ → Bool) (cases : List (Option κ × β)) : Option β :=
  ((cases.find? fun case => case.1.any equals).or (cases.find? fun case => case.1.isNone)).map (·.2)

-- The body of the first alternative that is taken. A default always is.
def taken (equals : κ → Bool) (cases : List (Option κ × β)) : Option β :=
  (cases.find? fun case => case.1.all equals).map (·.2)

-- The cases with keys, and behind them the first default.
def settled (cases : List (Option κ × β)) : List (Option κ × β) :=
  cases.filter (fun case => case.1.isSome) ++ (cases.find? fun case => case.1.isNone).toList

theorem key_of_find? {case : Option κ × β}
    (h : (cases.find? fun case => case.1.isNone) = some case) : case.1 = none :=
  Option.isNone_iff_eq_none.mp (List.find?_some (p := fun case : Option κ × β => case.1.isNone) h)

theorem defaultLast_concat {front : List (Option κ × β)} {last : Option κ × β} :
    DefaultLast (front ++ [last]) ↔ ∀ case ∈ front, case.1.isSome = true := by
  rw [DefaultLast, List.dropLast_concat]

theorem defaultLast_settled (cases : List (Option κ × β)) : DefaultLast (settled cases) := by
  have hkeyed : ∀ case ∈ cases.filter (fun case => case.1.isSome), case.1.isSome = true :=
    fun case hcase => (List.mem_filter.mp hcase).2
  rw [settled]
  cases cases.find? fun case => case.1.isNone with
  | none =>
      rw [Option.toList_none, List.append_nil]
      exact fun case hcase => hkeyed case (List.mem_of_mem_dropLast hcase)
  | some last => exact defaultLast_concat.mpr hkeyed

theorem settled_eq_self_iff : settled cases = cases ↔ DefaultLast cases := by
  refine ⟨fun heq => heq ▸ defaultLast_settled cases, fun h => ?_⟩
  obtain rfl | ⟨front, last, rfl⟩ := List.eq_nil_or_concat' cases
  · rfl
  have hkeyed := defaultLast_concat.mp h
  have hfilter : front.filter (fun case => case.1.isSome) = front := List.filter_eq_self.mpr hkeyed
  have hnone : front.find? (fun case => case.1.isNone) = none :=
    List.find?_eq_none.mpr fun case hcase => by
      simp [Option.isSome_iff_ne_none.mp (hkeyed case hcase)]
  obtain ⟨key, body⟩ := last
  rw [settled, List.filter_append, hfilter, List.find?_append, hnone, Option.none_or]
  cases key with
  | none => simp
  | some key => simp

theorem defaultLast_congr {κ' β' : Type} {others : List (Option κ' × β')}
    (h : (cases.map fun case => case.1.isSome) = others.map fun case => case.1.isSome) :
    DefaultLast cases ↔ DefaultLast others := by
  have hkinds {κ β : Type} (cases : List (Option κ × β)) : DefaultLast cases ↔
      ∀ keyed ∈ (cases.map fun case => case.1.isSome).dropLast, keyed = true := by
    rw [← List.map_dropLast, List.forall_mem_map]
    rfl
  rw [hkinds, hkinds, h]

-- Cases that are paired with others of the same kind are so when they are settled.
theorem forall₂_settled {κ' β' : Type} {R : Option κ × β → Option κ' × β' → Prop}
    {others : List (Option κ' × β')} (h : List.Forall₂ R cases others)
    (hkind : ∀ case other, R case other → case.1.isSome = other.1.isSome) :
    List.Forall₂ R (settled cases) (settled others) := by
  suffices hboth : List.Forall₂ R (cases.filter fun case => case.1.isSome)
        (others.filter fun case => case.1.isSome) ∧
      List.Forall₂ R (cases.find? fun case => case.1.isNone).toList
        (others.find? fun case => case.1.isNone).toList from List.rel_append hboth.1 hboth.2
  induction h with
  | nil => exact ⟨.nil, .nil⟩
  | @cons case other _ _ hfirst _ ih =>
      have hsame := hkind case other hfirst
      obtain ⟨key, body⟩ := case
      obtain ⟨key', body'⟩ := other
      cases key with
      | none =>
          cases key' with
          | none => exact ⟨ih.1, .cons hfirst .nil⟩
          | some => cases hsame
      | some =>
          cases key' with
          | none => cases hsame
          | some => exact ⟨.cons hfirst ih.1, ih.2⟩

-- Whoever goes through the settled cases takes the chosen one.
theorem taken_settled (equals : κ → Bool) (cases : List (Option κ × β)) :
    taken equals (settled cases) = chosen equals cases := by
  have hkeyed : (fun case : Option κ × β => case.1.isSome && case.1.all equals) =
      fun case => case.1.any equals := by
    funext case
    cases case.1 <;> rfl
  have hdefault : (cases.find? fun case => case.1.isNone).toList.find?
      (fun case => case.1.all equals) = cases.find? fun case => case.1.isNone := by
    cases hfound : cases.find? fun case => case.1.isNone with
    | none => rfl
    | some case =>
        rw [Option.toList_some, List.find?_cons_of_pos (by rw [key_of_find? hfound]; rfl)]
  rw [taken, settled, List.find?_append, List.find?_filter, hdefault, chosen, ← hkeyed]
  simp only [Bool.decide_and, Bool.decide_eq_true]

theorem taken_of_defaultLast (h : DefaultLast cases) (equals : κ → Bool) :
    taken equals cases = chosen equals cases := by
  rw [← taken_settled, settled_eq_self_iff.mpr h]

end

end Selection

open Selection

namespace Blocks

def testBegin (keyword subject : String) : String := keyword ++ " (" ++ subject ++ ")._eq("

-- The key that a test compares the subject with.
def key? (keyword subject head : String) : Option String :=
  let key := String.ofList ((head.toList.drop (testBegin keyword subject).length).dropLast.dropLast)
  if Layout.SimModel.test keyword subject key = head then some key else none

-- The alternatives of a chain of tests; `none` if something else is in it, or something
-- stands behind the default.
def alternatives? (subject : String) : String → Blocks → Option (List (Option String × Blocks))
  | _, nil => some []
  | keyword, cons head body rest =>
      if head = "else:" then if rest = nil then some [(none, body)] else none
      else do
        let key ← key? keyword subject head
        let others ← alternatives? subject "elif" rest
        return (some key, body) :: others

theorem key?_test (keyword subject key : String) :
    key? keyword subject (Layout.SimModel.test keyword subject key) = some key := by
  have hchars : (Layout.SimModel.test keyword subject key).toList =
      (testBegin keyword subject).toList ++ (key.toList ++ [')', ':']) := by
    simp [Layout.SimModel.test, testBegin]
  have hkey : String.ofList (((Layout.SimModel.test keyword subject key).toList.drop
      (testBegin keyword subject).length).dropLast.dropLast) = key := by
    rw [hchars, ← String.length_toList, List.drop_left]
    simp
  rw [key?, hkey, if_pos rfl]

theorem test_ne_else {keyword : String} (hkeyword : keyword = "if" ∨ keyword = "elif")
    (subject key : String) : Layout.SimModel.test keyword subject key ≠ "else:" := by
  intro heq
  have hchars := congrArg String.toList heq
  rcases hkeyword with rfl | rfl
  · simp [Layout.SimModel.test] at hchars
  · simp [Layout.SimModel.test] at hchars

end Blocks

namespace Layout.SimModel

theorem keyedCases_settled (cases : List (Option String × List String)) :
    keyedCases (settled cases) = keyedCases cases := by
  have hkeyed : keyedCases (cases.filter fun case => case.1.isSome) = keyedCases cases := by
    induction cases with
    | nil => rfl
    | cons case rest ih =>
        obtain ⟨key, texts⟩ := case
        cases key with
        | none => exact ih
        | some key => exact congrArg ((key, texts) :: ·) ih
  have hdefault : keyedCases (cases.find? fun case => case.1.isNone).toList = [] := by
    cases hfound : cases.find? fun case => case.1.isNone with
    | none => rfl
    | some case =>
        obtain ⟨key, texts⟩ := case
        obtain rfl : key = none := key_of_find? hfound
        rfl
  rw [settled, keyedCases, List.filterMap_append, ← keyedCases, ← keyedCases, hkeyed, hdefault,
    List.append_nil]

theorem defaultBody?_settled (cases : List (Option String × List String)) :
    defaultBody? (settled cases) = defaultBody? cases := by
  have hkeyed : (cases.filter fun case => case.1.isSome).find? (fun case => case.1.isNone) =
      none :=
    List.find?_eq_none.mpr fun case hcase => by
      simpa [Option.isSome_iff_ne_none] using (List.mem_filter.mp hcase).2
  rw [defaultBody?, settled, List.find?_append, hkeyed, Option.none_or, defaultBody?]
  cases hfound : cases.find? (fun case => case.1.isNone) with
  | none => rfl
  | some case => rw [Option.toList_some, List.find?_cons_of_pos (by rw [key_of_find? hfound]; rfl)]

-- A selection is written as that of its settled cases.
theorem select_settled (indent subject : String) (cases : List (Option String × List String)) :
    select indent ⟨subject, settled cases⟩ = select indent ⟨subject, cases⟩ := by
  simp only [select, keyedCases_settled, defaultBody?_settled]

end Layout.SimModel

namespace Outline

-- A body as it stands under a test.
def bodyBlocks (body : List Outline) : Blocks := (blocksOf body).orPass

-- A case with its body as it stands under a test.
def caseBlocks (case : Option String × List Outline) : Option String × Blocks :=
  (case.1, bodyBlocks case.2)

theorem defaultBlocks?_eq (cases : List (Option String × List Outline)) :
    defaultBlocks? cases =
      (cases.find? fun case => case.1.isNone).map fun case => blocksOf case.2 := by
  induction cases with
  | nil => rfl
  | cons case rest ih =>
      obtain ⟨key, body⟩ := case
      cases key with
      | none => rfl
      | some key => exact ih

theorem alternatives?_elseBlock (subject : String) (cases : List (Option String × List Outline)) :
    (Blocks.elseBlock (defaultBlocks? cases)).alternatives? subject "elif" =
      some ((cases.find? fun case => case.1.isNone).toList.map caseBlocks) := by
  rw [defaultBlocks?_eq]
  cases hfound : cases.find? fun case => case.1.isNone with
  | none => rfl
  | some case =>
      obtain ⟨key, body⟩ := case
      obtain rfl : key = none := key_of_find? hfound
      rfl

-- A chain of tests with a default behind it says what the settled cases say. By induction
-- on the cases: those without keys leave no test.
theorem alternatives?_tests (subject : String) {keyword : String}
    (hkeyword : keyword = "if" ∨ keyword = "elif") {default : Blocks}
    {others : List (Option String × Blocks)}
    (hdefault : default.alternatives? subject "elif" = some others)
    (cases : List (Option String × List Outline))
    (hkeyed : keyword = "if" → testBlocks subject keyword cases ≠ .nil) :
    ((testBlocks subject keyword cases).append default).alternatives? subject keyword =
      some ((cases.filter fun case => case.1.isSome).map caseBlocks ++ others) := by
  induction cases generalizing keyword with
  | nil =>
      rcases hkeyword with rfl | rfl
      · exact absurd rfl (hkeyed rfl)
      · exact hdefault
  | cons case rest ih =>
      obtain ⟨key, body⟩ := case
      cases key with
      | none => exact ih hkeyword hkeyed
      | some key =>
          have hrest := ih (.inr rfl) nofun
          rw [testBlocks, Blocks.append, Blocks.alternatives?,
            if_neg (Blocks.test_ne_else hkeyword subject key), Blocks.key?_test, hrest]
          rfl

theorem testBlocks_eq_nil_iff (subject keyword : String)
    (cases : List (Option String × List Outline)) :
    testBlocks subject keyword cases = .nil ↔ cases.any (fun case => case.1.isSome) = false := by
  induction cases generalizing keyword with
  | nil => exact iff_of_true rfl rfl
  | cons case rest ih =>
      obtain ⟨key, body⟩ := case
      cases key with
      | none => exact ih keyword
      | some key => exact iff_of_false nofun nofun

-- With a key there are just the settled cases.
theorem alternatives?_select (subject : String) {cases : List (Option String × List Outline)}
    (h : cases.any (fun case => case.1.isSome) = true) :
    (select subject cases).blocks.alternatives? subject "if" =
      some ((settled cases).map caseBlocks) := by
  have hne : testBlocks subject "if" cases ≠ .nil := by
    rw [Ne, testBlocks_eq_nil_iff, h]
    exact nofun
  rw [blocks_select hne, alternatives?_tests subject (.inl rfl)
    (alternatives?_elseBlock subject cases) cases fun _ => hne, settled, List.map_append]

theorem defaultLast_settledBlocks (cases : List (Option String × List Outline)) :
    DefaultLast ((settled cases).map caseBlocks) := by
  refine (defaultLast_congr ?_).mpr (defaultLast_settled cases)
  rw [List.map_map]
  rfl

theorem taken_settledBlocks (cases : List (Option String × List Outline))
    (equals : String → Bool) :
    taken equals ((settled cases).map caseBlocks) = (chosen equals cases).map bodyBlocks := by
  rw [← taken_settled, taken, taken, List.find?_map, Option.map_map, Option.map_map]
  rfl

-- With none there is but the body of the first default.
theorem blocks_select_of_default (subject : String) {cases : List (Option String × List Outline)}
    (h : cases.any (fun case => case.1.isSome) = false) (equals : String → Bool) :
    (select subject cases).blocks = ((chosen equals cases).map bodyBlocks).getD (.line "pass") := by
  have hnone : cases.find? (fun case => case.1.any equals) = none := by
    refine List.find?_eq_none.mpr fun case hcase => ?_
    have hkey := List.any_eq_false.mp h case hcase
    rw [Bool.not_eq_true, Option.isSome_eq_false_iff, Option.isNone_iff_eq_none] at hkey
    simp [hkey]
  rw [blocks, (testBlocks_eq_nil_iff subject "if" cases).mpr h, chosen, hnone, Option.none_or,
    defaultBlocks?_eq]
  cases cases.find? fun case => case.1.isNone with
  | none => rfl
  | some case => rfl

end Outline

-- The lines of a text are read back from their indentation.
theorem Nests.read? {indent text : String} {o : Outline} (h : Nests indent text o)
    (hindent : ∀ c ∈ indent.toList, isIndent c = true) (hne : indent ≠ "") :
    Blocks.read? (o.blocks.lines indent) = some o.blocks := by
  have hheads : o.blocks.All IsHead := h.plain.imp fun _ hplain => hplain.2
  have hcode : ∀ line ∈ o.blocks.lines indent, isCode line = true :=
    (hheads.imp fun _ => IsHead.isCode).lines fun line hline =>
      (isCode_indent hindent line).trans hline
  have hbase : ∀ c ∈ "".toList, isIndent c = true := nofun
  have hlines : (o.blocks.lines indent).filter isCode = (o.blocks.lines indent).map ("" ++ ·) := by
    rw [List.filter_eq_self.mpr hcode]
    simp
  exact Blocks.read?_lines hindent hne hbase hheads hlines

namespace Renderer

variable {r : Renderer} {id : StatementId} {subject : Expr}
  {cases : List (Option Expr × List Statement)}

-- A case with its key as it is written and its body as it is outlined.
structure OutlinesCase (r : Renderer) (case : Option Expr × List Statement)
    (o : Option String × List Outline) : Prop where
  key : Option.Rel (fun e text => r.exprText e = .ok text) case.1 o.1
  body : r.outlineAll case.2 = .ok o.2

theorem forall₂_outlinesCase {os : List (Option String × List Outline)}
    (h : r.outlineCases cases = .ok os) : List.Forall₂ r.OutlinesCase cases os := by
  induction cases generalizing os with
  | nil =>
      obtain rfl := Except.ok.inj h
      exact .nil
  | cons case rest ih =>
      obtain ⟨key, body⟩ := case
      cases key with
      | none =>
          simp only [outlineCases, bind_eq_ok] at h
          obtain ⟨bs, hbs, more, hmore, h⟩ := h
          obtain rfl := Except.ok.inj h
          exact .cons ⟨.none, hbs⟩ (ih hmore)
      | some key =>
          simp only [outlineCases, bind_eq_ok] at h
          obtain ⟨text, htext, bs, hbs, more, hmore, h⟩ := h
          obtain rfl := Except.ok.inj h
          exact .cons ⟨.some htext, hbs⟩ (ih hmore)

-- A case as it is written.
def caseTexts (r : Renderer) (layout : Layout) (case : Option Expr × List Statement) :
    Except RenderError (Option String × List String) := do
  match case.1 with
  | none => return (none, ← r.statements layout case.2)
  | some key =>
      let key ← r.exprText key
      return (some key, ← r.statements layout case.2)

theorem cases_eq_mapM (layout : Layout) (cases : List (Option Expr × List Statement)) :
    r.cases layout cases = cases.mapM (r.caseTexts layout) := by
  induction cases with
  | nil => rfl
  | cons case rest ih =>
      obtain ⟨key, body⟩ := case
      cases key with
      | none => simp only [Renderer.cases, List.mapM_cons, caseTexts, ih, bind_assoc, pure_bind]
      | some key => simp only [Renderer.cases, List.mapM_cons, caseTexts, ih, bind_assoc, pure_bind]

theorem isSome_of_caseTexts {layout : Layout} {case : Option Expr × List Statement}
    {written : Option String × List String} (h : r.caseTexts layout case = .ok written) :
    case.1.isSome = written.1.isSome := by
  obtain ⟨key, body⟩ := case
  cases key with
  | none =>
      obtain ⟨_, -, h⟩ := bind_eq_ok.mp h
      rw [← Except.ok.inj h]
      rfl
  | some key =>
      obtain ⟨_, -, h⟩ := bind_eq_ok.mp h
      obtain ⟨_, -, h⟩ := bind_eq_ok.mp h
      rw [← Except.ok.inj h]
      rfl

-- In a simulator's model a selection is written as that of its settled cases.
theorem statement_settled {indent text : String}
    (h : r.statement (Layout.SimModel.layout indent) (.select id subject cases) = .ok text) :
    r.statement (Layout.SimModel.layout indent) (.select id subject (settled cases)) =
      .ok text := by
  simp only [Renderer.statement, bind_eq_ok, cases_eq_mapM, mapM_eq_ok] at h ⊢
  obtain ⟨texts, htexts, s, hs, h⟩ := h
  obtain rfl := Except.ok.inj h
  refine ⟨settled texts, forall₂_settled htexts fun _ _ => isSome_of_caseTexts, s, hs, ?_⟩
  exact congrArg Except.ok (Layout.SimModel.select_settled indent s texts)

theorem exists_outline_select {o : Outline} (h : r.outline (.select id subject cases) = .ok o) :
    ∃ s os, o = .select s os ∧ r.condition false [subject] = .ok s ∧
      List.Forall₂ r.OutlinesCase cases os := by
  simp only [outline, bind_eq_ok] at h
  obtain ⟨os, hos, s, hs, h⟩ := h
  exact ⟨s, os, (Except.ok.inj h).symm, hs, forall₂_outlinesCase hos⟩

theorem keyed_eq {os : List (Option String × List Outline)}
    (h : List.Forall₂ r.OutlinesCase cases os) :
    (os.map fun case => case.1.isSome) = cases.map fun case => case.1.isSome := by
  induction h with
  | nil => rfl
  | @cons case o _ _ hfirst _ ih =>
      obtain ⟨key, body⟩ := case
      obtain ⟨text, outlines⟩ := o
      have hkey : text.isSome = key.isSome := by
        obtain ⟨hkey, -⟩ := hfirst
        cases hkey with
        | none | some => rfl
      rw [List.map_cons, List.map_cons, ih, hkey]

theorem any_isSome_iff {os : List (Option String × List Outline)}
    (h : List.Forall₂ r.OutlinesCase cases os) :
    os.any (fun case => case.1.isSome) = true ↔ ∃ case ∈ cases, case.1.isSome = true := by
  have hsame := congrArg (fun kinds => kinds.any fun keyed => keyed) (keyed_eq h)
  simp only [List.any_map, Function.comp_def] at hsame
  rw [hsame, List.any_eq_true]

-- What is written of a selection. In VHDL the alternatives are the cases as they are
-- given, so that a default is alone and at the end exactly if it is among these; then
-- everybody takes the chosen body. A simulator's model is in any event that of the settled
-- cases, and says these, or with no key among them is but the body itself.
theorem alternatives_of_select {indent text : String} (id : StatementId) (subject : Expr)
    (cases : List (Option Expr × List Statement))
    (hindent : ∀ c ∈ indent.toList, c = ' ' ∨ c = '\t')
    (hok : r.statement (r.dialect.layout indent) (.select id subject cases) = .ok text) :
    (r.dialect = .vhdl → '\n' ∉ r.timeUnit.toList →
      (∀ s ∈ (Statement.select id subject cases).walk, r.Readable s) →
      ∃ s os, r.condition false [subject] = .ok s ∧ List.Forall₂ r.OutlinesCase cases os ∧
        (∀ p : Outline, p.WellFormed ∧ p.lines = (Text.lines text).map unindent ↔
          p = .select s os) ∧
        (DefaultLast os ↔ DefaultLast cases) ∧
        (DefaultLast cases → ∀ equals, taken equals os = chosen equals os)) ∧
    (r.dialect = .simModel →
      r.statement (r.dialect.layout indent) (.select id subject (settled cases)) = .ok text ∧
      (IsLine r.timeUnit → (∀ s ∈ (Statement.select id subject cases).walk, r.Unbroken s) →
      ∃ s os b, r.condition false [subject] = .ok s ∧ List.Forall₂ r.OutlinesCase cases os ∧
        Text.lines text = b.lines indent ∧
        (indent ≠ "" → Blocks.read? (Text.lines text) = some b) ∧
        ((∃ case ∈ cases, case.1.isSome = true) → ∃ alternatives,
          b.alternatives? s "if" = some alternatives ∧ DefaultLast alternatives ∧
          ∀ equals, taken equals alternatives = (chosen equals os).map Outline.bodyBlocks) ∧
        ((¬ ∃ case ∈ cases, case.1.isSome = true) → ∀ equals,
          b = ((chosen equals os).map Outline.bodyBlocks).getD (.line "pass")))) := by
  have hblank : ∀ c ∈ indent.toList, isIndent c = true := by
    intro c hc
    rcases hindent c hc with rfl | rfl <;> rfl
  constructor
  · intro hvhdl hunit hreadable
    rw [hvhdl] at hok
    obtain ⟨o, ho, hread⟩ := statement_read_back r hvhdl hunit indent hindent _ hreadable text hok
    obtain ⟨s, os, rfl, hs, hos⟩ := exists_outline_select ho
    have hlast := defaultLast_congr (keyed_eq hos)
    exact ⟨s, os, hs, hos, hread, hlast, fun h => taken_of_defaultLast (hlast.mpr h)⟩
  · intro hsim
    rw [hsim] at hok ⊢
    refine ⟨statement_settled hok, fun hunit hunbroken => ?_⟩
    obtain ⟨o, ho, hnests⟩ := (draws_simModel hsim hunit hblank).statement _ text hunbroken hok
    obtain ⟨s, os, rfl, hs, hos⟩ := exists_outline_select ho
    have hlines : Text.lines text = (Outline.select s os).blocks.lines indent := by
      rw [hnests.text, hnests.writes.lines_joinLines hblank]
    have hkeyed := any_isSome_iff hos
    refine ⟨s, os, _, hs, hos, hlines, fun hne => ?_, fun hsome => ?_, fun hnone => ?_⟩
    · rw [hlines]
      exact hnests.read? hblank hne
    · exact ⟨_, Outline.alternatives?_select s (hkeyed.mpr hsome),
        Outline.defaultLast_settledBlocks os, Outline.taken_settledBlocks os⟩
    · exact Outline.blocks_select_of_default s (Bool.eq_false_iff.mpr (mt hkeyed.mp hnone))

-- A lamp that is switched on unless it is off, with the default in front of the key and
-- another one behind it, and the same with the default where it belongs.

def ofLamp (dialect : Dialect) : Renderer :=
  ofDesign dialect lampDesign "ns" (dialect.baseScope [])

def switchOn : Statement := .assign ⟨1⟩ ⟨0⟩ (.literal ⟨⟨0⟩, .bits (.ofNat 1 1)⟩) none false

def off : Expr := .literal ⟨⟨0⟩, .bits (.ofNat 0 1)⟩

def unsettledCases : List (Option Expr × List Statement) :=
  [(none, [switchOn]), (some off, []), (none, [.wait ⟨2⟩ false none])]

def settledCases : List (Option Expr × List Statement) := [(some off, []), (none, [switchOn])]

def lampCase : String :=
  Layout.joinLines
    ["CASE lamp IS", "  WHEN '0' =>", "    NULL;", "  WHEN OTHERS =>", "    lamp <= '1';",
      "END CASE;"]

def lampChain : String :=
  Layout.joinLines
    ["if (self.lamp._oldVal)._eq('0'):", "  pass", "else:",
      "  yield (self.lamp, mkUpdater('1'), False)"]

theorem alternatives_of_lamp :
    (∃ s os, (∀ p : Outline, p.WellFormed ∧ p.lines = (Text.lines lampCase).map unindent ↔
        p = .select s os) ∧ DefaultLast os ∧ ∀ equals, taken equals os = chosen equals os) ∧
    ∃ s b alternatives, Blocks.read? (Text.lines lampChain) = some b ∧
      b.alternatives? s "if" = some alternatives ∧ DefaultLast alternatives := by
  constructor
  · have hwritten : (ofLamp .vhdl).statement (Layout.Vhdl.layout "  ")
        (.select ⟨0⟩ (.signal ⟨0⟩) settledCases) = .ok lampCase := by decide +kernel
    have hlast : DefaultLast settledCases := by decide
    obtain ⟨s, os, -, -, hread, hlasts, htaken⟩ :=
      (alternatives_of_select ⟨0⟩ (.signal ⟨0⟩) settledCases (by simp) hwritten).1 rfl
        (newline_not_mem_timeUnits "ns" (by decide)) (by decide +kernel)
    exact ⟨s, os, hread, hlasts.mpr hlast, htaken hlast⟩
  · have hwritten : (ofLamp .simModel).statement (Layout.SimModel.layout "  ")
        (.select ⟨0⟩ (.signal ⟨0⟩) unsettledCases) = .ok lampChain := by decide +kernel
    obtain ⟨s, os, b, -, -, -, hread, halternatives, -⟩ :=
      ((alternatives_of_select ⟨0⟩ (.signal ⟨0⟩) unsettledCases (by simp) hwritten).2 rfl).2
        ⟨by decide, 's', rfl, by decide⟩ (by decide +kernel)
    obtain ⟨alternatives, hsays, hlast, -⟩ :=
      halternatives ⟨(some off, []), List.mem_cons_of_mem _ List.mem_cons_self, rfl⟩
    exact ⟨s, b, alternatives, hread (by decide), hsays, hlast⟩

-- In VHDL a default that is given in front of a key stays there, and one that is given
-- twice is written twice.
theorem case_of_unsettledCases :
    let outlines : List (Option String × List Outline) :=
      [(none, [.leaf "lamp <= '1';"]), (some "'0'", []), (none, [.leaf "WAIT;"])]
    (ofLamp .vhdl).statement (Layout.Vhdl.layout "  ")
        (.select ⟨0⟩ (.signal ⟨0⟩) unsettledCases) = .ok (Layout.joinLines
      ["CASE lamp IS", "  WHEN OTHERS =>", "    lamp <= '1';", "  WHEN '0' =>", "    NULL;",
        "  WHEN OTHERS =>", "    WAIT;", "END CASE;"]) ∧
    (Outline.select "lamp" outlines).lines =
      ["CASE lamp IS", "WHEN OTHERS =>", "lamp <= '1';", "WHEN '0' =>", "NULL;",
        "WHEN OTHERS =>", "WAIT;", "END CASE;"] ∧
    ¬ DefaultLast outlines ∧ taken (· == "'0'") outlines = some [.leaf "lamp <= '1';"] ∧
    chosen (· == "'0'") outlines = some [] := by
  refine ⟨by decide +kernel, by decide, by decide, rfl, rfl⟩

end Renderer

end Rtl
