import Rtl.Proofs.Connectives.Exposure

namespace Rtl

namespace Connectives

open Brackets

def isConjunction (dialect : Dialect) (word : String) : Bool :=
  connective? dialect word == some .conjunction

-- The parts of a text at its conjunctions, each as its words, whatever else is in it.
def conjunctsOf (dialect : Dialect) (text : String) : List (List String) :=
  parts role (isConjunction dialect) (lexemes dialect text)

-- The conjuncts of a text. It is no conjunction if something in it binds looser or may
-- not stand beside one.
def conjuncts? (dialect : Dialect) (text : String) : Option (List (List String)) :=
  if (outside role (lexemes dialect text)).any fun word => connective? dialect word == some .looser
  then none
  else some (conjunctsOf dialect text)

variable {dialect : Dialect} {text word : String} {seen : Connective → Prop}

theorem Reveals.conjuncts?_eq_none (h : Reveals dialect text seen) (hlooser : seen .looser) :
    conjuncts? dialect text = none := by
  obtain ⟨word, hword, hconnective⟩ := (h.sees_iff .looser).mpr hlooser
  rw [conjuncts?, if_pos]
  exact List.any_eq_true.mpr ⟨word, hword, beq_iff_eq.mpr hconnective⟩

theorem Reveals.conjuncts?_eq_some (h : Reveals dialect text seen) (hlooser : ¬ seen .looser) :
    conjuncts? dialect text = some (conjunctsOf dialect text) := by
  rw [conjuncts?, if_neg]
  · rw [List.any_eq_true]
    rintro ⟨word, hword, hconnective⟩
    exact hlooser ((h.sees_iff .looser).mp ⟨word, hword, beq_iff_eq.mp hconnective⟩)

theorem Reveals.conjunctsOf_eq (h : Reveals dialect text seen)
    (hconjunction : ¬ seen .conjunction) :
    conjunctsOf dialect text = [lexemes dialect text] := by
  refine parts_of_uncut fun word hword => ?_
  rw [isConjunction, beq_eq_false_iff_ne]
  exact fun hconnective => hconjunction ((h.sees_iff .conjunction).mp ⟨word, hword, hconnective⟩)

theorem Reveals.two_le_length_conjunctsOf (h : Reveals dialect text seen)
    (hconjunction : seen .conjunction) : 2 ≤ (conjunctsOf dialect text).length := by
  obtain ⟨word, hword, hconnective⟩ := (h.sees_iff .conjunction).mpr hconjunction
  exact two_le_length_parts hword (beq_iff_eq.mpr hconnective)

theorem length_conjunctsOf_pos (dialect : Dialect) (text : String) :
    0 < (conjunctsOf dialect text).length :=
  List.length_pos_of_ne_nil (parts_ne_nil _ _)

-- Texts with a conjunction between them have each their own conjuncts.
theorem conjunctsOf_intercalate {separator : String} (hseparator : Separates dialect separator word)
    (hword : connective? dialect word = some .conjunction) {texts : List String} (hne : texts ≠ [])
    {seens : List (Connective → Prop)} (h : List.Forall₂ (Reveals dialect) texts seens) :
    conjunctsOf dialect (String.intercalate separator texts) =
      (texts.map (conjunctsOf dialect)).flatten := by
  have hwhole : ∀ text ∈ texts, Whole dialect text :=
    forall_mem_of_forall₂ h fun _ _ htext => htext.whole
  have hclosed : ∀ words ∈ texts.map (lexemes dialect), Closed role words := by
    rw [List.forall_mem_map]
    exact forall_mem_of_forall₂ h fun _ _ htext => htext.closed
  have hcut : isConjunction dialect word = true := beq_iff_eq.mpr hword
  rw [conjunctsOf, lexemes_intercalate hseparator hwhole,
    parts_intercalate hseparator.role_eq hcut (by simpa using hne) hclosed, List.flatMap_map,
    List.flatMap_def]
  rfl

theorem separates_logicalAnd (dialect : Dialect) : ∃ word,
    Separates dialect dialect.logicalAnd word ∧ connective? dialect word = some .conjunction := by
  cases dialect with
  | vhdl => exact ⟨"AND", ⟨fun _ => rfl, breaks_blank _, rfl, rfl⟩, by decide +kernel⟩
  | simModel => exact ⟨"and", ⟨fun _ => rfl, breaks_blank _, rfl, rfl⟩, by decide⟩

end Connectives

namespace Renderer

open Connectives

section

variable (r : Renderer)

-- An application of an operator, also behind hidden signals.
inductive StandsFor (op : Operator) : Expr → Prop
  | apply (operands : List Expr) (type : TypeId) : StandsFor op (.apply op operands type)
  | hidden {id : SignalId} {origin : Expr} (h : r.design.arch.alias? id = some origin)
      (horigin : StandsFor op origin) : StandsFor op (.signal id)

-- What becomes of a part of a condition among others: it is one conjunct as it is
-- written on its own, with parentheses or without, or several if it is an AND.
inductive Conjoins (part : Expr) : List (List String) → Prop
  | whole {own : String} (h : r.condition true [part] = .ok own) :
      Conjoins part [lexemes r.dialect own]
  | bracketed {own : String} (h : r.condition true [part] = .ok own) :
      Conjoins part ["(" :: (lexemes r.dialect own ++ [")"])]
  | flattened {own : String} {conjuncts : List (List String)}
      (h : r.condition true [part] = .ok own) (hand : r.StandsFor .and part)
      (huncompared : r.comparison? true part = none)
      (hconjuncts : conjuncts? r.dialect own = some conjuncts) : Conjoins part conjuncts

-- A part that may stand beside an AND: one that gets parentheses for it, or one that
-- exposes nothing as a boolean, unless it is an AND itself.
def Sheltered (part : Expr) : Prop :=
  mixesWithAnd part = true ∨ (r.bareAsBoolean part = true → ¬ r.Exposes .looser part ∧
    (r.Exposes .conjunction part → r.comparison? true part = none ∧ r.StandsFor .and part))

end

variable {r : Renderer} {part : Expr} {parts : List Expr} {text : String}

-- A part with its text on its own and its text among others.
def PartTexts (r : Renderer) (part : Expr) (text : String) : Prop :=
  ∃ own, r.condition true [part] = .ok own ∧
    text = if mixesWithAnd part then parenthesize own else own

theorem condition_singleton (part : Expr) :
    r.condition true [part] = r.conditionPart true part fun _ => r.exprText part := by
  rw [condition, withTexts_eq_map]
  exact conditionText_singleton part _

theorem partTexts_of_condition (hmany : 2 ≤ parts.length) (h : r.condition true parts = .ok text) :
    ∃ texts, List.Forall₂ r.PartTexts parts texts ∧
      text = String.intercalate r.dialect.logicalAnd texts := by
  have hlength : decide (1 < parts.length) = true := decide_eq_true hmany
  simp only [condition, withTexts_eq_map, conditionText, List.isEmpty_map, List.length_map,
    List.mapM_map, Function.comp_def, hlength, Bool.true_and] at h
  split at h
  · cases h
  obtain ⟨texts, htexts, h⟩ := bind_eq_ok.mp h
  obtain rfl := Except.ok.inj h
  refine ⟨texts, (mapM_eq_ok.mp htexts).imp fun part text hpart => ?_, rfl⟩
  obtain ⟨own, hown, hpart⟩ := bind_eq_ok.mp hpart
  exact ⟨own, (condition_singleton part).trans hown, (Except.ok.inj hpart).symm⟩

theorem reveals_own (hlegible : r.Legible part) {own : String}
    (h : r.condition true [part] = .ok own) :
    Reveals r.dialect own fun connective =>
      r.bareAsBoolean part = true ∧ r.Exposes connective part := by
  rw [condition_singleton] at h
  exact reveals_conditionPart (hlegible.reveals _) h

-- What is seen of a part beside the others.
def ExposesAmong (r : Renderer) (part : Expr) (connective : Connective) : Prop :=
  mixesWithAnd part = false ∧ r.bareAsBoolean part = true ∧ r.Exposes connective part

theorem reveals_partText (hlegible : r.Legible part) (h : r.PartTexts part text) :
    Reveals r.dialect text (r.ExposesAmong part) := by
  obtain ⟨own, hown, rfl⟩ := h
  exact (reveals_own hlegible hown).parenthesize _

theorem mixesWithAnd_of_standsFor (h : r.StandsFor .and part) : mixesWithAnd part = false := by
  cases h with
  | apply | hidden => rfl

theorem Sheltered.not_exposesAmong (h : r.Sheltered part) : ¬ r.ExposesAmong part .looser := by
  rintro ⟨hmixes, hbare, hlooser⟩
  rcases h with hmixed | hkept
  · exact absurd (hmixes.symm.trans hmixed) Bool.false_ne_true
  · exact (hkept hbare).1 hlooser

-- A sheltered part is kept.
theorem Sheltered.conjoins (hlegible : r.Legible part) (h : r.Sheltered part)
    (htext : r.PartTexts part text) : r.Conjoins part (conjunctsOf r.dialect text) := by
  have hplaced := reveals_partText hlegible htext
  obtain ⟨own, hown, rfl⟩ := htext
  have howns := reveals_own hlegible hown
  cases hmixes : mixesWithAnd part with
  | true =>
      have hconjuncts := hplaced.conjunctsOf_eq fun hand =>
        absurd (hand.1.symm.trans hmixes) Bool.false_ne_true
      rw [hmixes, if_pos rfl] at hconjuncts
      rw [if_pos rfl, hconjuncts, parenthesize, lexemes_enclosed howns.whole (by decide)]
      exact .bracketed hown
  | false =>
      rw [if_neg Bool.false_ne_true]
      by_cases hconjunction : r.bareAsBoolean part = true ∧ r.Exposes .conjunction part
      · have hkept := h.resolve_left (by rw [hmixes]; exact Bool.false_ne_true)
        obtain ⟨hlooser, hand⟩ := hkept hconjunction.1
        obtain ⟨huncompared, hand⟩ := hand hconjunction.2
        exact .flattened hown hand huncompared (howns.conjuncts?_eq_some fun h => hlooser h.2)
      · rw [howns.conjunctsOf_eq hconjunction]
        exact .whole hown

theorem conjunctsOf_eq_of_conjuncts? {dialect : Dialect} {conjuncts : List (List String)}
    (h : conjuncts? dialect text = some conjuncts) : conjuncts = conjunctsOf dialect text := by
  rw [conjuncts?] at h
  split at h
  · cases h
  · exact (Option.some.inj h).symm

-- A part is never more conjuncts than its text has, and more than one only if it is
-- flattened.
theorem Conjoins.length_le (htext : r.PartTexts part text) {conjuncts : List (List String)}
    (h : r.Conjoins part conjuncts) :
    conjuncts.length ≤ (conjunctsOf r.dialect text).length ∧
      (2 ≤ conjuncts.length → r.comparison? true part = none ∧ r.StandsFor .and part) := by
  cases h with
  | whole | bracketed =>
      exact ⟨length_conjunctsOf_pos _ _, fun hmany => absurd hmany (Nat.not_succ_le_self 1)⟩
  | flattened hown hand huncompared hconjuncts =>
      obtain ⟨other, hother, rfl⟩ := htext
      obtain rfl := Except.ok.inj (hown.symm.trans hother)
      rw [mixesWithAnd_of_standsFor hand, if_neg Bool.false_ne_true,
        conjunctsOf_eq_of_conjuncts? hconjuncts]
      exact ⟨Nat.le_refl _, fun _ => ⟨huncompared, hand⟩⟩

-- A part that is as many conjuncts as its text has is sheltered if the text reveals
-- nothing that binds looser.
theorem Conjoins.sheltered (hlegible : r.Legible part) (htext : r.PartTexts part text)
    {conjuncts : List (List String)} (h : r.Conjoins part conjuncts)
    (hlength : conjuncts.length = (conjunctsOf r.dialect text).length)
    (hlooser : ¬ r.ExposesAmong part .looser) : r.Sheltered part := by
  cases hmixes : mixesWithAnd part with
  | true => exact .inl hmixes
  | false =>
      refine .inr fun hbare =>
        ⟨fun hexposes => hlooser ⟨hmixes, hbare, hexposes⟩, fun hexposes => ?_⟩
      have hmany :=
        (reveals_partText hlegible htext).two_le_length_conjunctsOf ⟨hmixes, hbare, hexposes⟩
      exact (h.length_le htext).2 (hlength ▸ hmany)

section

variable {texts : List String}

theorem forall₂_reveals (hlegible : ∀ part ∈ parts, r.Legible part)
    (htexts : List.Forall₂ r.PartTexts parts texts) :
    List.Forall₂ (Reveals r.dialect) texts (parts.map r.ExposesAmong) :=
  List.forall₂_map_right_iff.mpr (forall₂_of_forall_mem htexts fun part hpart _ htext =>
    reveals_partText (hlegible part hpart) htext).flip

-- Among parts nothing binds looser but what is seen of one of them.
theorem reveals_parts (hlegible : ∀ part ∈ parts, r.Legible part)
    (htexts : List.Forall₂ r.PartTexts parts texts) :
    ∃ seen, Reveals r.dialect (String.intercalate r.dialect.logicalAnd texts) seen ∧
      (seen .looser ↔ ∃ part ∈ parts, r.ExposesAmong part .looser) := by
  obtain ⟨word, hseparator, hword⟩ := separates_logicalAnd r.dialect
  refine ⟨_, .intercalate hseparator (forall₂_reveals hlegible htexts), ?_⟩
  have hnever : connective? r.dialect word ≠ some .looser := by
    rw [hword]
    decide
  rw [or_iff_right fun h => hnever h.2]
  simp only [List.mem_map, exists_exists_and_eq_and]

theorem conjuncts?_parts_eq_none (hlegible : ∀ part ∈ parts, r.Legible part)
    (htexts : List.Forall₂ r.PartTexts parts texts) (hpart : part ∈ parts)
    (hlooser : r.ExposesAmong part .looser) :
    conjuncts? r.dialect (String.intercalate r.dialect.logicalAnd texts) = none := by
  obtain ⟨seen, hreveals, hseen⟩ := reveals_parts hlegible htexts
  exact hreveals.conjuncts?_eq_none (hseen.mpr ⟨part, hpart, hlooser⟩)

-- Else the conjuncts are those of the parts.
theorem conjuncts?_parts_eq_some (hne : parts ≠ []) (hlegible : ∀ part ∈ parts, r.Legible part)
    (htexts : List.Forall₂ r.PartTexts parts texts)
    (hnone : ∀ part ∈ parts, ¬ r.ExposesAmong part .looser) :
    conjuncts? r.dialect (String.intercalate r.dialect.logicalAnd texts) =
      some (texts.map (conjunctsOf r.dialect)).flatten := by
  obtain ⟨seen, hreveals, hseen⟩ := reveals_parts hlegible htexts
  obtain ⟨word, hseparator, hword⟩ := separates_logicalAnd r.dialect
  have htextsNe : texts ≠ [] := by
    rintro rfl
    exact hne (List.forall₂_nil_right_iff.mp htexts)
  rw [hreveals.conjuncts?_eq_some, conjunctsOf_intercalate hseparator hword htextsNe
    (forall₂_reveals hlegible htexts)]
  rw [hseen]
  rintro ⟨part, hpart, hlooser⟩
  exact hnone part hpart hlooser

-- Parts are never more conjuncts together than their texts have, and if they are as many,
-- each is as many as its own text has, and so it is sheltered.
theorem sheltered_of_conjoins (hlegible : ∀ part ∈ parts, r.Legible part)
    (htexts : List.Forall₂ r.PartTexts parts texts)
    (hnone : ∀ part ∈ parts, ¬ r.ExposesAmong part .looser) {conjuncts : List (List (List String))}
    (hconjoins : List.Forall₂ r.Conjoins parts conjuncts) :
    conjuncts.flatten.length ≤ (texts.map (conjunctsOf r.dialect)).flatten.length ∧
      (conjuncts.flatten.length = (texts.map (conjunctsOf r.dialect)).flatten.length →
        ∀ part ∈ parts, r.Sheltered part) := by
  induction htexts generalizing conjuncts with
  | nil =>
      cases hconjoins with
      | nil => exact ⟨Nat.le_refl _, fun _ => List.forall_mem_nil _⟩
  | cons htext _ ih =>
      cases hconjoins with
      | cons hfirst hrest =>
          rw [List.forall_mem_cons] at hlegible hnone
          obtain ⟨hle, hsheltered⟩ := ih hlegible.2 hnone.2 hrest
          have hfew := (hfirst.length_le htext).1
          simp only [List.map_cons, List.flatten_cons, List.length_append]
          refine ⟨Nat.add_le_add hfew hle, fun hsum => List.forall_mem_cons.mpr ⟨?_, ?_⟩⟩
          · exact hfirst.sheltered hlegible.1 htext (by omega) hnone.1
          · exact hsheltered (by omega)

end

-- A condition of two or more legible parts is the conjunction of what its parts are on
-- their own exactly if every part is sheltered. Otherwise a part falls apart, or the
-- whole is no conjunction.
theorem conjunction_iff_sheltered (hmany : 2 ≤ parts.length)
    (hlegible : ∀ part ∈ parts, r.Legible part) (h : r.condition true parts = .ok text) :
    (∀ part ∈ parts, ∃ own, r.condition true [part] = .ok own) ∧
    ((∃ conjuncts, List.Forall₂ r.Conjoins parts conjuncts ∧
        conjuncts? r.dialect text = some conjuncts.flatten) ↔
      ∀ part ∈ parts, r.Sheltered part) := by
  obtain ⟨texts, htexts, rfl⟩ := partTexts_of_condition hmany h
  have hne : parts ≠ [] := List.ne_nil_of_length_pos (Nat.lt_of_lt_of_le (by decide) hmany)
  refine ⟨forall_mem_of_forall₂ htexts fun _ _ ⟨own, hown, _⟩ => ⟨own, hown⟩, ?_, ?_⟩
  · rintro ⟨conjuncts, hconjoins, hread⟩
    have hnone (part : Expr) (hpart : part ∈ parts) : ¬ r.ExposesAmong part .looser := by
      intro hlooser
      rw [conjuncts?_parts_eq_none hlegible htexts hpart hlooser] at hread
      cases hread
    rw [conjuncts?_parts_eq_some hne hlegible htexts hnone] at hread
    exact (sheltered_of_conjoins hlegible htexts hnone hconjoins).2
      (congrArg List.length (Option.some.inj hread).symm)
  · intro hsheltered
    refine ⟨texts.map (conjunctsOf r.dialect), ?_, ?_⟩
    · exact List.forall₂_map_right_iff.mpr (forall₂_of_forall_mem htexts fun part hpart _ htext =>
        (hsheltered part hpart).conjoins (hlegible part hpart) htext)
    · exact conjuncts?_parts_eq_some hne hlegible htexts fun part hpart =>
        (hsheltered part hpart).not_exposesAmong

end Renderer

-- Three flags, and a hidden signal that stands for a disjunction of two.

def flags : Design :=
  let arch := Architecture.ofEntity ⟨0⟩ (.ofName ⟨0⟩)
  let wires := (((arch.addSignal ⟨1⟩ ⟨0⟩ none).2.addSignal ⟨2⟩ ⟨0⟩ none).2.addSignal ⟨3⟩ ⟨0⟩ none).2
  ⟨⟨#["top", "a", "b", "c"]⟩, ⟨⟨#[.boolean]⟩⟩,
    (wires.addHidden ⟨0⟩ ⟨0⟩ (.apply .or [.signal ⟨0⟩, .signal ⟨1⟩] ⟨0⟩)).2⟩

def ofFlags (dialect : Dialect) : Renderer :=
  .ofDesign dialect flags "ns" (dialect.baseScope [])

theorem legible_flag (dialect : Dialect) {id : SignalId} (h : id ∈ [⟨0⟩, ⟨1⟩, ⟨2⟩]) :
    (ofFlags dialect).Legible (.signal id) := by
  have hname (id : SignalId) (hnone : flags.arch.alias? id = none)
      (hinert : (match (ofFlags dialect).signalName id with
        | .ok name => decide (Connectives.Inert dialect name)
        | .error _ => true) = true) : (ofFlags dialect).Legible (.signal id) := by
    refine .shown hnone fun name hname => ?_
    rw [hname] at hinert
    exact of_decide_eq_true hinert
  simp only [List.mem_cons, List.not_mem_nil, or_false] at h
  rcases h with rfl | rfl | rfl
  · cases dialect <;> exact hname _ rfl (by decide +kernel)
  · cases dialect <;> exact hname _ rfl (by decide +kernel)
  · cases dialect <;> exact hname _ rfl (by decide +kernel)

theorem legible_both (dialect : Dialect) (op : Operator) (hop : op ≠ .call) {a b : SignalId}
    (ha : a ∈ [⟨0⟩, ⟨1⟩, ⟨2⟩]) (hb : b ∈ [⟨0⟩, ⟨1⟩, ⟨2⟩]) :
    (ofFlags dialect).Legible (.apply op [.signal a, .signal b] ⟨0⟩) :=
  .apply (fun h => absurd h hop) (List.forall_mem_cons.mpr
    ⟨legible_flag dialect ha, List.forall_mem_singleton.mpr (legible_flag dialect hb)⟩)

theorem not_exposes_flag (dialect : Dialect) {connective : Connectives.Connective} {id : SignalId}
    (h : id ∈ [⟨0⟩, ⟨1⟩, ⟨2⟩]) : ¬ (ofFlags dialect).Exposes connective (.signal id) := by
  simp only [List.mem_cons, List.not_mem_nil, or_false] at h
  rcases h with rfl | rfl | rfl
  · exact Renderer.not_exposes_shown rfl
  · exact Renderer.not_exposes_shown rfl
  · exact Renderer.not_exposes_shown rfl

-- A disjunction gets parentheses, and a conjunction needs none.
theorem conjuncts_of_flags :
    ∃ conjuncts, List.Forall₂ (ofFlags .vhdl).Conjoins
        [.apply .or [.signal ⟨0⟩, .signal ⟨1⟩] ⟨0⟩, .apply .and [.signal ⟨2⟩, .signal ⟨0⟩] ⟨0⟩]
        conjuncts ∧
      Connectives.conjuncts? .vhdl "(a OR b) AND c AND a" = some conjuncts.flatten := by
  have hlegible : ∀ part ∈ [Expr.apply .or [.signal ⟨0⟩, .signal ⟨1⟩] ⟨0⟩,
      .apply .and [.signal ⟨2⟩, .signal ⟨0⟩] ⟨0⟩], (ofFlags .vhdl).Legible part :=
    List.forall_mem_cons.mpr ⟨legible_both .vhdl .or nofun (by decide) (by decide),
      List.forall_mem_singleton.mpr (legible_both .vhdl .and nofun (by decide) (by decide))⟩
  refine ((Renderer.conjunction_iff_sheltered (by decide) hlegible (by decide +kernel)).2).mpr ?_
  refine List.forall_mem_cons.mpr ⟨.inl rfl, List.forall_mem_singleton.mpr (.inr fun _ => ⟨?_, ?_⟩)⟩
  · rw [Renderer.exposes_apply_iff]
    rintro (hown | ⟨place, operand, hplace, -, -, h⟩)
    · exact absurd hown (by decide +kernel)
    · have hmem := List.mem_of_getElem? hplace
      simp only [List.mem_cons, List.not_mem_nil, or_false] at hmem
      rcases hmem with rfl | rfl
      · exact not_exposes_flag .vhdl (by decide) h
      · exact not_exposes_flag .vhdl (by decide) h
  · exact fun _ => ⟨by decide +kernel, .apply _ _⟩

-- A conditional expression takes what follows it for its last branch, and a disjunction
-- behind a hidden signal stands beside an AND.
theorem condition_of_flags_torn :
    ((ofFlags .simModel).condition true
        [.apply .ternary [.signal ⟨0⟩, .signal ⟨1⟩, .signal ⟨2⟩] ⟨0⟩, .signal ⟨0⟩] =
      .ok "self.b._oldVal if self.a._oldVal else self.c._oldVal and self.a._oldVal" ∧
    ¬ ∃ conjuncts, List.Forall₂ (ofFlags .simModel).Conjoins
        [.apply .ternary [.signal ⟨0⟩, .signal ⟨1⟩, .signal ⟨2⟩] ⟨0⟩, .signal ⟨0⟩] conjuncts ∧
      Connectives.conjuncts? .simModel
        "self.b._oldVal if self.a._oldVal else self.c._oldVal and self.a._oldVal" =
          some conjuncts.flatten) ∧
    (ofFlags .vhdl).condition true [.signal ⟨3⟩, .signal ⟨2⟩] = .ok "a OR b AND c" ∧
    ¬ ∃ conjuncts, List.Forall₂ (ofFlags .vhdl).Conjoins [.signal ⟨3⟩, .signal ⟨2⟩] conjuncts ∧
      Connectives.conjuncts? .vhdl "a OR b AND c" = some conjuncts.flatten := by
  have hchoice : Connectives.conjuncts? .simModel
      "self.b._oldVal if self.a._oldVal else self.c._oldVal and self.a._oldVal" = none := by
    decide +kernel
  have hhidden : Connectives.conjuncts? .vhdl "a OR b AND c" = none := by decide +kernel
  refine ⟨⟨by decide +kernel, ?_⟩, by decide +kernel, ?_⟩
  · rw [hchoice]
    rintro ⟨_, -, h⟩
    cases h
  · rw [hhidden]
    rintro ⟨_, -, h⟩
    cases h

end Rtl
