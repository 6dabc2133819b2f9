import Rtl.Proofs.Precedence.Reader

namespace Rtl.Precedence

namespace Tree

-- Whether an operand stands in parentheses below an operator.
def wrapped (parent : Operator) (operand : Tree) : Bool :=
  match operand.operator? with
  | some child => child.needsParens parent
  | none => false

theorem wrapped_of_none {operand : Tree} (h : operand.operator? = none) (parent : Operator) :
    operand.wrapped parent = false := by
  simp only [wrapped, h]

theorem wrapped_of_some {operand : Tree} {child : Operator} (h : operand.operator? = some child)
    (parent : Operator) : operand.wrapped parent = child.needsParens parent := by
  simp only [wrapped, h]

-- The tokens of an expression, each operand in parentheses where its operator
-- binds as tight as the one above it or tighter.
def tokens : Tree → List Token
  | name text => [.name text]
  | negation operand =>
      .negation ::
        if operand.wrapped .not then .opening :: operand.tokens ++ [.closing] else operand.tokens
  | binary op left right =>
      (if left.wrapped op.val then .opening :: left.tokens ++ [.closing] else left.tokens) ++
        .binary op ::
          if right.wrapped op.val then .opening :: right.tokens ++ [.closing] else right.tokens

def operandTokens (parent : Operator) (operand : Tree) : List Token :=
  if operand.wrapped parent then .opening :: operand.tokens ++ [.closing] else operand.tokens

theorem tokens_negation (operand : Tree) :
    (negation operand).tokens = .negation :: operand.operandTokens .not := rfl

theorem tokens_binary (op : BinaryOperator) (left right : Tree) :
    (binary op left right).tokens =
      left.operandTokens op.val ++ .binary op :: right.operandTokens op.val := rfl

end Tree

theorem precedence_eq_level (op : BinaryOperator) : op.val.precedence = some op.level := by
  obtain ⟨op, h⟩ := op
  revert h
  cases op <;> decide

theorem one_le_level (op : BinaryOperator) : 1 ≤ op.level := by
  obtain ⟨op, h⟩ := op
  revert h
  cases op <;> decide

theorem precedence_not : Operator.not.precedence = some Pending.negation.level := rfl

theorem negation_level_le (waiting : Pending) : Pending.negation.level ≤ waiting.level := by
  cases waiting with
  | negation => exact Nat.le_refl _
  | binary left op => exact one_le_level op

theorem wrapped_eq_true_iff {parent : Operator} {limit : Nat}
    (h : parent.precedence = some limit) (operand : Tree) :
    operand.wrapped parent = true ↔ operand.operator? ≠ none ∧ operand.level ≤ limit := by
  cases operand with
  | name text => simp [Tree.wrapped, Tree.operator?]
  | negation operand =>
      simp [Tree.wrapped, Tree.level, Tree.operator?, Operator.needsParens, h, precedence_not]
  | binary op left right =>
      simp [Tree.wrapped, Tree.level, Tree.operator?, Operator.needsParens, h,
        precedence_eq_level op]

namespace State

theorem run_append (state : State) (front back : List Token) :
    state.run (front ++ back) = (state.run front).bind (·.run back) := by
  simp [run, List.foldlM_append, Option.bind_eq_bind]

-- What is open further out does not matter to a step that stays inside it.
theorem step_outer {state next : State} {token : Token} (h : state.step token = some next)
    (further : List (List Pending)) :
    State.step ⟨state.outer ++ further, state.pending, state.operand⟩ token =
      some ⟨next.outer ++ further, next.pending, next.operand⟩ := by
  obtain ⟨outer, pending, operand⟩ := state
  cases token with
  | closing =>
      cases operand with
      | none => simp [step] at h
      | some operand =>
          cases outer with
          | nil => simp [step] at h
          | cons inner outer =>
              simp only [step, Option.some.injEq] at h
              subst h
              simp [step]
  | name | negation | binary | opening =>
      cases operand <;> simp only [step, Option.some.injEq, reduceCtorEq] at h
      all_goals
        subst h
        rfl

theorem run_outer {state next : State} {tokens : List Token} (h : state.run tokens = some next)
    (further : List (List Pending)) :
    State.run ⟨state.outer ++ further, state.pending, state.operand⟩ tokens =
      some ⟨next.outer ++ further, next.pending, next.operand⟩ := by
  induction tokens generalizing state with
  | nil =>
      simp only [run, List.foldlM_nil, Option.pure_def, Option.some.injEq] at h ⊢
      subst h
      rfl
  | cons token rest ih =>
      simp only [run, List.foldlM_cons, Option.bind_eq_bind, Option.bind_eq_some_iff] at h ⊢
      obtain ⟨middle, hstep, hrest⟩ := h
      exact ⟨_, step_outer hstep further, ih hrest⟩

-- A group in parentheses is one operand.
theorem run_wrapped {tokens : List Token} {t : Tree} (h : group? tokens = some t)
    (outer : List (List Pending)) (pending : List Pending) :
    State.run ⟨outer, pending, none⟩ (.opening :: tokens ++ [.closing]) =
      some ⟨outer, pending, some t⟩ := by
  simp only [group?] at h
  split at h
  · rename_i waiting operand hrun
    simp only [Option.some.injEq] at h
    have hinside := run_outer hrun (pending :: outer)
    simp only [start, List.nil_append] at hinside
    have hopen : State.run ⟨outer, pending, none⟩ (.opening :: tokens) =
        some ⟨pending :: outer, waiting, some operand⟩ := hinside
    rw [run_append, hopen]
    simp [run, step, h]
  · simp at h

-- An operand that is a name or stands in parentheses leaves nothing pending.
theorem run_operandTokens {parent : Operator} {limit : Nat} {operand t : Tree}
    (hparent : parent.precedence = some limit) (htight : operand.level ≤ limit)
    (h : group? operand.tokens = some t) (outer : List (List Pending)) (pending : List Pending) :
    State.run ⟨outer, pending, none⟩ (operand.operandTokens parent) =
      some ⟨outer, pending, some t⟩ := by
  by_cases hw : operand.wrapped parent = true
  · simp only [Tree.operandTokens, hw, ite_true]
    exact run_wrapped h outer pending
  · cases operand with
    | name text =>
        simp only [Tree.operandTokens, hw, Tree.tokens]
        obtain rfl : Tree.name text = t := Option.some.inj h
        rfl
    | negation | binary =>
        exact absurd ((wrapped_eq_true_iff hparent _).mpr ⟨by simp [Tree.operator?], htight⟩) hw

end State

theorem group?_negation {operand t : Tree} (htight : operand.level ≤ Pending.negation.level)
    (h : group? operand.tokens = some t) :
    group? (Tree.negation operand).tokens = some (.negation t) := by
  have hrun : State.start.run (Tree.negation operand).tokens =
      State.run ⟨[], [.negation], none⟩ (operand.operandTokens .not) := rfl
  simp only [group?, hrun, State.run_operandTokens precedence_not htight h]
  rfl

theorem group?_binary {op : BinaryOperator} {left right l r : Tree}
    (hleft : left.level ≤ op.level) (hright : right.level ≤ op.level)
    (hl : group? left.tokens = some l) (hr : group? right.tokens = some r) :
    group? (Tree.binary op left right).tokens = some (.binary op l r) := by
  have hop := precedence_eq_level op
  have hrun : State.start.run (Tree.binary op left right).tokens =
      State.run ⟨[], [.binary l op], none⟩ (right.operandTokens op.val) := by
    rw [Tree.tokens_binary, State.run_append, State.start,
      State.run_operandTokens hop hleft hl]
    rfl
  simp only [group?, hrun, State.run_operandTokens hop hright hr]
  rfl

-- Where no operand binds looser than the operator above it, every operand that
-- is not a name stands in parentheses.
theorem group?_tokens_of_tidy {t : Tree} (h : t.Tidy) : group? t.tokens = some t := by
  induction t with
  | name text => rfl
  | negation operand ih => exact group?_negation h.1 (ih h.2)
  | binary op left right ihl ihr =>
      obtain ⟨hleft, hright, hl, hr⟩ := h
      exact group?_binary hleft hright (ihl hl) (ihr hr)

-- The level of the loosest pending operator.
def loosest : List Pending → Nat
  | [] => 0
  | waiting :: rest => max waiting.level (loosest rest)

-- Pending operators bind looser the further out they stand.
def Sorted (pending : List Pending) : Prop := pending.Pairwise (·.level ≤ ·.level)

theorem loosest_le_dropWhile (pending : List Pending) (limit : Nat) :
    loosest pending ≤ max limit (loosest (pending.dropWhile (·.level ≤ limit))) := by
  induction pending with
  | nil => simp [loosest]
  | cons waiting rest ih =>
      by_cases hw : waiting.level ≤ limit
      · rw [List.dropWhile_cons_of_pos (by simpa using hw), loosest]
        omega
      · rw [List.dropWhile_cons_of_neg (by simpa using hw)]
        exact Nat.le_max_right ..

theorem sorted_binary {pending : List Pending} (h : Sorted pending) (left : Tree)
    (op : BinaryOperator) :
    Sorted (.binary left op :: pending.dropWhile (·.level ≤ op.level)) := by
  induction pending with
  | nil => exact List.pairwise_singleton ..
  | cons waiting rest ih =>
      obtain ⟨hfirst, hrest⟩ := List.pairwise_cons.mp h
      by_cases hw : waiting.level ≤ op.level
      · rw [List.dropWhile_cons_of_pos (by simpa using hw)]
        exact ih hrest
      · rw [List.dropWhile_cons_of_neg (by simpa using hw)]
        refine List.pairwise_cons.mpr ⟨?_, h⟩
        have hle : op.level ≤ waiting.level := by omega
        intro other hmem
        cases List.mem_cons.mp hmem with
        | inl he => exact he ▸ hle
        | inr hm => exact Nat.le_trans hle (hfirst other hm)

theorem level_apply (operand : Tree) (waiting : Pending) :
    (waiting.apply operand).level = waiting.level := by
  cases waiting <;> rfl

-- The operator that is applied last is the loosest of all.
theorem loosest_le_level_finish {pending : List Pending} (h : Sorted pending) (operand : Tree) :
    loosest pending ≤ (State.finish operand pending).level := by
  induction pending generalizing operand with
  | nil => exact Nat.zero_le _
  | cons waiting rest ih =>
      obtain ⟨hfirst, hrest⟩ := List.pairwise_cons.mp h
      have hi := ih hrest (waiting.apply operand)
      cases rest with
      | nil => simp [loosest, State.finish, level_apply]
      | cons next further =>
          have hnext := hfirst next List.mem_cons_self
          simp only [loosest] at hi ⊢
          simp only [State.finish, List.foldl_cons] at hi ⊢
          omega

namespace Tree

-- The level of the loosest operator that stands outside parentheses.
def exposed : Tree → Nat
  | name _ => 0
  | negation operand =>
      max Pending.negation.level (if operand.wrapped .not then 0 else operand.exposed)
  | binary op left right =>
      max op.level (max (if left.wrapped op.val then 0 else left.exposed)
        (if right.wrapped op.val then 0 else right.exposed))

-- The same for an operand with its parentheses.
def exposedBelow (parent : Operator) (operand : Tree) : Nat :=
  if operand.wrapped parent then 0 else operand.exposed

theorem exposed_negation (operand : Tree) :
    (negation operand).exposed = max Pending.negation.level (operand.exposedBelow .not) := rfl

theorem exposed_binary (op : BinaryOperator) (left right : Tree) :
    (binary op left right).exposed =
      max op.level (max (left.exposedBelow op.val) (right.exposedBelow op.val)) := rfl

theorem level_le_exposed (t : Tree) : t.level ≤ t.exposed := by
  cases t with
  | name text => exact Nat.le_refl _
  | negation | binary => exact Nat.le_max_left ..

-- An operand is no looser than the operator above it if nothing looser shows.
theorem level_le_of_exposedBelow {parent : Operator} {limit : Nat} {operand : Tree}
    (hparent : parent.precedence = some limit) (h : operand.exposedBelow parent ≤ limit) :
    operand.level ≤ limit := by
  by_cases hw : operand.wrapped parent = true
  · exact ((wrapped_eq_true_iff hparent operand).mp hw).2
  · rw [exposedBelow, if_neg hw] at h
    exact Nat.le_trans operand.level_le_exposed h

end Tree

-- Reading the tokens from any place where an operand is due ends behind one, with
-- something pending that is at least as loose as before and as `shown`.
def Runs (tokens : List Token) (shown : Nat) : Prop :=
  ∀ (outer : List (List Pending)) (pending : List Pending), Sorted pending →
    ∃ later operand, State.run ⟨outer, pending, none⟩ tokens = some ⟨outer, later, some operand⟩ ∧
      Sorted later ∧ loosest pending ≤ loosest later ∧ shown ≤ loosest later

theorem Runs.exists_group {tokens : List Token} {shown : Nat} (h : Runs tokens shown) :
    ∃ read, group? tokens = some read ∧ shown ≤ read.level := by
  obtain ⟨later, operand, hrun, hsorted, -, hshown⟩ := h [] [] List.Pairwise.nil
  have hlevel := Nat.le_trans hshown (loosest_le_level_finish hsorted operand)
  refine ⟨State.finish operand later, ?_, hlevel⟩
  simp only [group?, State.start, hrun]

theorem Runs.operandTokens {operand : Tree} (h : Runs operand.tokens operand.exposed)
    (parent : Operator) : Runs (operand.operandTokens parent) (operand.exposedBelow parent) := by
  intro outer pending hsorted
  by_cases hw : operand.wrapped parent = true
  · obtain ⟨t, ht, -⟩ := h.exists_group
    rw [Tree.operandTokens, Tree.exposedBelow, if_pos hw, if_pos hw]
    exact ⟨pending, t, State.run_wrapped ht outer pending, hsorted, Nat.le_refl _, Nat.zero_le _⟩
  · rw [Tree.operandTokens, Tree.exposedBelow, if_neg hw, if_neg hw]
    exact h outer pending hsorted

theorem runs_tokens (t : Tree) : Runs t.tokens t.exposed := by
  induction t with
  | name text =>
      intro outer pending hsorted
      exact ⟨pending, .name text, rfl, hsorted, Nat.le_refl _, Nat.zero_le _⟩
  | negation operand ih =>
      intro outer pending hsorted
      have hpushed : Sorted (.negation :: pending) :=
        List.pairwise_cons.mpr ⟨fun waiting _ => negation_level_le waiting, hsorted⟩
      obtain ⟨later, read, hrun, hs, hp, hshown⟩ := ih.operandTokens .not outer _ hpushed
      simp only [loosest] at hp
      refine ⟨later, read, hrun, hs, by omega, ?_⟩
      rw [Tree.exposed_negation]
      omega
  | binary op left right ihl ihr =>
      intro outer pending hsorted
      obtain ⟨middle, l, hl, hsl, hpl, hshownl⟩ := ihl.operandTokens op.val outer _ hsorted
      -- the operator takes what binds at least as tight and waits in its place
      let binds (waiting : Pending) : Bool := waiting.level ≤ op.level
      let taken := State.finish l (middle.takeWhile binds)
      obtain ⟨later, r, hr, hsr, hpr, hshownr⟩ :=
        ihr.operandTokens op.val outer _ (sorted_binary hsl taken op)
      have hmiddle := loosest_le_dropWhile middle op.level
      have hwaiting : (Pending.binary taken op).level = op.level := rfl
      simp only [loosest] at hpr
      refine ⟨later, r, ?_, hsr, by omega, ?_⟩
      · rw [Tree.tokens_binary, State.run_append, hl]
        exact hr
      · rw [Tree.exposed_binary]
        omega

-- Parentheses are read back as they were meant exactly if no operand binds
-- looser than the operator above it. What is read has an operator on top that is
-- no tighter than any outside parentheses.
theorem group?_tokens_eq_iff_tidy (t : Tree) : group? t.tokens = some t ↔ t.Tidy := by
  refine ⟨fun h => ?_, group?_tokens_of_tidy⟩
  induction t with
  | name text => trivial
  | negation operand ih =>
      obtain ⟨read, hread, hle⟩ := (runs_tokens (.negation operand)).exists_group
      obtain rfl : read = .negation operand := Option.some.inj (hread.symm.trans h)
      obtain ⟨-, hshown⟩ := Nat.max_le.mp hle
      have htight := Tree.level_le_of_exposedBelow precedence_not hshown
      obtain ⟨l, hl, -⟩ := (runs_tokens operand).exists_group
      have hsame := Option.some.inj ((group?_negation htight hl).symm.trans h)
      obtain rfl : l = operand := Tree.negation.inj hsame
      exact ⟨htight, ih hl⟩
  | binary op left right ihl ihr =>
      obtain ⟨read, hread, hle⟩ := (runs_tokens (.binary op left right)).exists_group
      obtain rfl : read = .binary op left right := Option.some.inj (hread.symm.trans h)
      obtain ⟨-, hshown⟩ := Nat.max_le.mp hle
      obtain ⟨hshownl, hshownr⟩ := Nat.max_le.mp hshown
      have hleft := Tree.level_le_of_exposedBelow (precedence_eq_level op) hshownl
      have hright := Tree.level_le_of_exposedBelow (precedence_eq_level op) hshownr
      obtain ⟨l, hl, -⟩ := (runs_tokens left).exists_group
      obtain ⟨r, hr, -⟩ := (runs_tokens right).exists_group
      have hsame := Option.some.inj ((group?_binary hleft hright hl hr).symm.trans h)
      obtain ⟨-, rfl, rfl⟩ := Tree.binary.inj hsame
      exact ⟨hleft, hright, ihl hl, ihr hr⟩

end Rtl.Precedence
