import Mathlib
import Rtl.Render.Expr

namespace Rtl

namespace Expr

mutual

-- An expression with another one in the place of each signal.
def substitute (put : SignalId → Expr) : Expr → Expr
  | .signal id => put id
  | .literal value => .literal value
  | .apply op operands type => .apply op (substituteAll put operands) type

def substituteAll (put : SignalId → Expr) : List Expr → List Expr
  | [] => []
  | e :: rest => e.substitute put :: substituteAll put rest

end

mutual

theorem substitute_congr {put put' : SignalId → Expr} : ∀ e : Expr,
    (∀ id ∈ e.signals, put id = put' id) → e.substitute put = e.substitute put'
  | .signal id, h => h id List.mem_cons_self
  | .literal _, _ => rfl
  | .apply op operands type, h =>
      congrArg (Expr.apply op · type) (substituteAll_congr operands h)

theorem substituteAll_congr {put put' : SignalId → Expr} : ∀ es : List Expr,
    (∀ id ∈ signalsOf es, put id = put' id) → substituteAll put es = substituteAll put' es
  | [], _ => rfl
  | e :: rest, h => by
      obtain ⟨hfirst, hrest⟩ := List.forall_mem_append.mp h
      rw [substituteAll, substituteAll, substitute_congr e hfirst, substituteAll_congr rest hrest]

end

theorem substituteAll_eq_map (put : SignalId → Expr) (es : List Expr) :
    substituteAll put es = es.map (substitute put) := by
  induction es with
  | nil => rfl
  | cons e rest ih => rw [substituteAll, ih, List.map_cons]

theorem mem_signalsOf_iff {id : SignalId} {es : List Expr} :
    id ∈ signalsOf es ↔ ∃ e ∈ es, id ∈ e.signals := by
  induction es with
  | nil => simp [signalsOf]
  | cons e rest ih => rw [signalsOf, List.mem_append, ih, List.exists_mem_cons_iff]

mutual

-- What holds of all signals of an expression holds of it, if it carries over to
-- constants and from operands to applications.
theorem of_signals {P : Expr → Prop} (literal : ∀ value, P (.literal value))
    (apply : ∀ op es type, (∀ e ∈ es, P e) → P (.apply op es type)) :
    ∀ e : Expr, (∀ id ∈ e.signals, P (.signal id)) → P e
  | .signal id, h => h id List.mem_cons_self
  | .literal value, _ => literal value
  | .apply op operands type, h => apply op operands type (of_signalsOf literal apply operands h)

theorem of_signalsOf {P : Expr → Prop} (literal : ∀ value, P (.literal value))
    (apply : ∀ op es type, (∀ e ∈ es, P e) → P (.apply op es type)) :
    ∀ es : List Expr, (∀ id ∈ signalsOf es, P (.signal id)) → ∀ e ∈ es, P e
  | [], _ => nofun
  | e :: rest, h => by
      obtain ⟨hfirst, hrest⟩ := List.forall_mem_append.mp h
      exact List.forall_mem_cons.mpr
        ⟨of_signals literal apply e hfirst, of_signalsOf literal apply rest hrest⟩

end

end Expr

namespace Architecture

variable {arch : Architecture}

-- What a signal stands for if it is hidden.
def alias? (arch : Architecture) (id : SignalId) : Option Expr :=
  (arch.signals.get? id).bind Signal.alias?

-- A hidden signal reads the signals of what it stands for.
def Reads (arch : Architecture) (id next : SignalId) : Prop :=
  ∃ origin, arch.alias? id = some origin ∧ next ∈ origin.signals

def Acyclic (arch : Architecture) : Prop := ∀ id, ¬ Relation.TransGen arch.Reads id id

-- Hidden signals that only stand for what was there before them go in no circle.
theorem acyclic_of_index_lt (h : ∀ id origin, arch.alias? id = some origin →
    ∀ next ∈ origin.signals, next.index < id.index) : arch.Acyclic := by
  intro id hcycle
  have hread {id next : SignalId} : arch.Reads id next → next.index < id.index :=
    fun ⟨origin, halias, hnext⟩ => h id origin halias next hnext
  have hlt {next : SignalId} (hpath : Relation.TransGen arch.Reads id next) :
      next.index < id.index := by
    induction hpath with
    | single hlast => exact hread hlast
    | tail _ hlast ih => exact (hread hlast).trans ih
  exact Nat.lt_irrefl _ (hlt hcycle)

open Classical in
-- How many signals can be reached from a signal, itself included.
noncomputable def rank (arch : Architecture) (id : SignalId) : Nat :=
  ((Finset.range arch.signals.size).filter fun index =>
    Relation.ReflTransGen arch.Reads id ⟨index⟩).card

theorem rank_le_size (arch : Architecture) (id : SignalId) : arch.rank id ≤ arch.signals.size := by
  classical
  exact (Finset.card_filter_le _ _).trans (Finset.card_range _).le

theorem rank_pos {id : SignalId} {signal : Signal} (h : arch.signals.get? id = some signal) :
    0 < arch.rank id := by
  classical
  obtain ⟨hlt, -⟩ := Array.getElem?_eq_some_iff.mp h
  exact Finset.card_pos.mpr ⟨id.index, Finset.mem_filter.mpr ⟨Finset.mem_range.mpr hlt, .refl⟩⟩

theorem rank_pos_of_alias {id : SignalId} {origin : Expr} (h : arch.alias? id = some origin) :
    0 < arch.rank id := by
  obtain ⟨signal, hsignal, -⟩ := Option.bind_eq_some_iff.mp h
  exact rank_pos hsignal

theorem alias?_eq_none_of_rank {id : SignalId} (h : arch.rank id = 0) : arch.alias? id = none := by
  cases halias : arch.alias? id with
  | none => rfl
  | some origin =>
      have hpos := rank_pos_of_alias halias
      omega

-- From a signal that is read the one that reads it cannot be reached.
theorem Acyclic.rank_lt (hacyclic : arch.Acyclic) {id next : SignalId} (h : arch.Reads id next) :
    arch.rank next < arch.rank id := by
  classical
  refine Finset.card_lt_card (Finset.ssubset_iff_of_subset ?_ |>.mpr ⟨id.index, ?_, ?_⟩)
  · exact Finset.monotone_filter_right _ fun index _ hnext => .head h hnext
  · obtain ⟨origin, halias, -⟩ := h
    obtain ⟨signal, hsignal, -⟩ := Option.bind_eq_some_iff.mp halias
    obtain ⟨hlt, -⟩ := Array.getElem?_eq_some_iff.mp hsignal
    exact Finset.mem_filter.mpr ⟨Finset.mem_range.mpr hlt, .refl⟩
  · -- What is read does not reach what reads it.
    intro hmem
    exact hacyclic id (.head' h (Finset.mem_filter.mp hmem).2)

-- A search through hidden signals finds the same at any depth that is not below
-- the rank.
theorem Acyclic.eq_of_rank_le {β : Type} (hacyclic : arch.Acyclic) {search : Nat → SignalId → β}
    (hbase : ∀ id, arch.rank id = 0 → ∀ depth, search 0 id = search depth id)
    (hstep : ∀ id depth depth',
      (∀ next, arch.Reads id next → search depth next = search depth' next) →
        search (depth + 1) id = search (depth' + 1) id)
    {id : SignalId} {depth depth' : Nat} (h : arch.rank id ≤ depth) (h' : arch.rank id ≤ depth') :
    search depth id = search depth' id := by
  induction depth generalizing id depth' with
  | zero => exact hbase id (Nat.le_zero.mp h) depth'
  | succ depth ih =>
      cases depth' with
      | zero => exact (hbase id (Nat.le_zero.mp h') _).symm
      | succ depth' =>
          refine hstep id depth depth' fun next hnext => ?_
          have hlt := hacyclic.rank_lt hnext
          exact ih (by omega) (by omega)

-- Hidden signals are well founded: what holds of shown signals and of constants
-- and carries over from an origin to its hidden signal and from operands to
-- applications holds of all expressions.
theorem Acyclic.induction {P : Expr → Prop} (hacyclic : arch.Acyclic)
    (shown : ∀ id, arch.alias? id = none → P (.signal id))
    (hidden : ∀ id origin, arch.alias? id = some origin → P origin → P (.signal id))
    (literal : ∀ value, P (.literal value))
    (apply : ∀ op es type, (∀ e ∈ es, P e) → P (.apply op es type)) (e : Expr) : P e := by
  suffices hsignal : ∀ id, P (.signal id) from
    Expr.of_signals literal apply e fun id _ => hsignal id
  intro id
  induction hrank : arch.rank id using Nat.strong_induction_on generalizing id with
  | _ rank ih =>
      subst hrank
      cases halias : arch.alias? id with
      | none => exact shown id halias
      | some origin =>
          refine hidden id origin halias (Expr.of_signals literal apply origin fun next hnext => ?_)
          exact ih _ (hacyclic.rank_lt ⟨origin, halias, hnext⟩) next rfl

-- A signal as what it stands for, through at most `depth` hidden signals.
def expandSignal (arch : Architecture) : Nat → SignalId → Expr
  | 0, id => .signal id
  | depth + 1, id =>
      match arch.alias? id with
      | some origin => origin.substitute (arch.expandSignal depth)
      | none => .signal id

-- An expression with everything in the place of the hidden signals that they
-- stand for.
def expand (arch : Architecture) (e : Expr) : Expr :=
  e.substitute (arch.expandSignal arch.signals.size)

theorem expand_literal (arch : Architecture) (value : Value) :
    arch.expand (.literal value) = .literal value := rfl

theorem expand_apply (arch : Architecture) (op : Operator) (operands : List Expr) (type : TypeId) :
    arch.expand (.apply op operands type) = .apply op (operands.map arch.expand) type := by
  rw [expand, Expr.substitute, Expr.substituteAll_eq_map]
  rfl

theorem expand_shown {id : SignalId} (h : arch.alias? id = none) :
    arch.expand (.signal id) = .signal id := by
  rw [expand, Expr.substitute]
  cases arch.signals.size with
  | zero => rfl
  | succ depth => rw [expandSignal, h]

theorem Acyclic.expandSignal_eq (hacyclic : arch.Acyclic) {id : SignalId} {depth depth' : Nat}
    (h : arch.rank id ≤ depth) (h' : arch.rank id ≤ depth') :
    arch.expandSignal depth id = arch.expandSignal depth' id := by
  refine hacyclic.eq_of_rank_le (fun id hrank depth => ?_) (fun id depth depth' hnext => ?_) h h'
  · cases depth with
    | zero => rfl
    | succ depth => simp only [expandSignal, alias?_eq_none_of_rank hrank]
  · simp only [expandSignal]
    split
    · rename_i origin halias
      exact Expr.substitute_congr origin fun next hmem => hnext next ⟨origin, halias, hmem⟩
    · rfl

theorem Acyclic.expand_hidden (hacyclic : arch.Acyclic) {id : SignalId} {origin : Expr}
    (h : arch.alias? id = some origin) : arch.expand (.signal id) = arch.expand origin := by
  have hsize := arch.rank_le_size id
  obtain ⟨depth, hdepth⟩ := Nat.exists_eq_succ_of_ne_zero
    (Nat.ne_of_gt ((rank_pos_of_alias h).trans_le hsize))
  rw [hdepth] at hsize
  rw [expand, expand, Expr.substitute, hdepth, expandSignal, h]
  refine Expr.substitute_congr origin fun next hmem => ?_
  have hlt := hacyclic.rank_lt ⟨origin, h, hmem⟩
  exact hacyclic.expandSignal_eq (by omega) (by omega)

end Architecture

namespace Renderer

variable {r : Renderer}

mutual

theorem exprWith_congr {write write' : SignalId → Except RenderError String} : ∀ e : Expr,
    (∀ id ∈ e.signals, write id = write' id) → r.exprWith write e = r.exprWith write' e
  | .signal id, h => h id List.mem_cons_self
  | .literal _, _ => rfl
  | .apply op operands _, h => congrArg (r.applyText op) (exprsWith_congr operands h)

theorem exprsWith_congr {write write' : SignalId → Except RenderError String} : ∀ es : List Expr,
    (∀ id ∈ Expr.signalsOf es, write id = write' id) →
      r.exprsWith write es = r.exprsWith write' es
  | [], _ => rfl
  | e :: rest, h => by
      obtain ⟨hfirst, hrest⟩ := List.forall_mem_append.mp h
      rw [exprsWith, exprsWith, exprWith_congr e hfirst, exprsWith_congr rest hrest]

end

theorem signalText_zero_of_rank {id : SignalId} (hrank : r.design.arch.rank id = 0) (depth : Nat) :
    r.signalText 0 id = r.signalText depth id := by
  cases depth with
  | zero => rfl
  | succ depth =>
      cases hsignal : r.design.arch.signals.get? id with
      | none => simp [signalText, signal, hsignal, bind, Except.bind]
      | some signal =>
          have hpos := Architecture.rank_pos hsignal
          omega

theorem signalText_succ_of_alias {id : SignalId} {origin : Expr}
    (h : r.design.arch.alias? id = some origin) (depth : Nat) :
    r.signalText (depth + 1) id = r.exprWith (r.signalText depth) origin := by
  obtain ⟨signal, hsignal, halias⟩ := Option.bind_eq_some_iff.mp h
  simp [signalText, Renderer.signal, hsignal, halias, bind, Except.bind]

theorem signalText_eq (hacyclic : r.design.arch.Acyclic) {id : SignalId} {depth depth' : Nat}
    (h : r.design.arch.rank id ≤ depth) (h' : r.design.arch.rank id ≤ depth') :
    r.signalText depth id = r.signalText depth' id := by
  refine hacyclic.eq_of_rank_le (fun id hrank depth => signalText_zero_of_rank hrank depth)
    (fun id depth depth' hnext => ?_) h h'
  cases halias : r.design.arch.alias? id with
  | none =>
      simp only [signalText, signal]
      cases hsignal : r.design.arch.signals.get? id with
      | none => rfl
      | some signal =>
          have hshown : signal.alias? = none := by
            simpa only [Architecture.alias?, hsignal, Option.bind_some] using halias
          simp only [hshown, bind, Except.bind]
  | some origin =>
      rw [signalText_succ_of_alias halias, signalText_succ_of_alias halias]
      exact exprWith_congr origin fun next hmem => hnext next ⟨origin, halias, hmem⟩

-- A hidden signal is written as what it stands for.
theorem exprText_hidden (hacyclic : r.design.arch.Acyclic) {id : SignalId} {origin : Expr}
    (h : r.design.arch.alias? id = some origin) :
    r.exprText (.signal id) = r.exprText origin := by
  have hsize := r.design.arch.rank_le_size id
  obtain ⟨depth, hdepth⟩ := Nat.exists_eq_succ_of_ne_zero
    (Nat.ne_of_gt ((Architecture.rank_pos_of_alias h).trans_le hsize))
  rw [hdepth] at hsize
  rw [exprText, exprText, exprWith, hdepth, signalText_succ_of_alias h]
  refine exprWith_congr origin fun next hmem => ?_
  have hlt := hacyclic.rank_lt ⟨origin, h, hmem⟩
  exact signalText_eq hacyclic (by omega) (by omega)

end Renderer

end Rtl
