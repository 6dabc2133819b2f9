import Rtl.Proofs.Storage.Ranges
import Rtl.Proofs.Usage.Rejection
import Rtl.Proofs.Vectors.Unmade

namespace Rtl

open Json

-- The constants that are vectors, and where they stand.

inductive Expr.Holds (v : LogicVec) : Expr → Prop
  | literal {type : TypeId} : Holds v (.literal ⟨type, .bits v⟩)
  | operand {op : Operator} {operands : List Expr} {type : TypeId} {e : Expr} (hmem : e ∈ operands)
      (he : Holds v e) : Holds v (.apply op operands type)

def Statement.Holds (v : LogicVec) (s : Statement) : Prop :=
  ∃ inner : Statement, inner.Within [s] ∧ ∃ e ∈ inner.operands, e.Holds v

def Signal.Holds (v : LogicVec) (signal : Signal) : Prop :=
  (∃ value, signal.default = some value ∧ value.payload = .bits v) ∨
    ∃ origin, signal.origin = some origin ∧ origin.Holds v

def Process.Holds (v : LogicVec) (process : Process) : Prop := ∃ s ∈ process.body, s.Holds v

def Architecture.Holds (v : LogicVec) (arch : Architecture) : Prop :=
  (∃ signal ∈ arch.signals.toList, signal.Holds v) ∨
    ∃ process ∈ arch.processes.toList, process.Holds v

def Stored.Holds (v : LogicVec) : Stored → Prop
  | .vector w => w = v
  | .value constant => constant.payload = .bits v
  | .expr e => e.Holds v
  | .statement s => s.Holds v
  | .signal s => Signal.Holds v s
  | .process p => Process.Holds v p
  | .architecture arch => Architecture.Holds v arch
  | .name .. | .signalId .. | .type .. | .types .. | .entity .. => False

-- The kinds of things that can hold a vector.
def Stored.vectorKinds : List String :=
  ["BitVec", "Value", "Expr", "Statement", "Signal", "Process", "Architecture"]

variable {v : LogicVec}

theorem Value.isStorable_of_holds {value : Value} (hstorable : value.isStorable = true)
    (h : value.payload = .bits v) : v.isStorable = true := by
  have hpayload := (Bool.and_eq_true_iff.mp hstorable).2
  rwa [h] at hpayload

theorem Expr.Holds.isStorable {e : Expr} (h : e.Holds v) (hstorable : e.isStorable = true) :
    v.isStorable = true := by
  induction h with
  | literal => exact Value.isStorable_of_holds hstorable rfl
  | operand hmem he ih =>
      rw [Expr.isStorable, allStorable_eq, Bool.and_eq_true, List.all_eq_true] at hstorable
      exact ih (hstorable.1 _ hmem)

namespace Statement

theorem isStorable_of_mem_operands {s : Statement} (hstorable : s.isStorable = true) {e : Expr}
    (he : e ∈ s.operands) : e.isStorable = true := by
  cases s with
  | assign id destination source indexes onEvent =>
      simp only [isStorable, Bool.and_eq_true] at hstorable
      obtain ⟨⟨-, hsource⟩, hindexes⟩ := hstorable
      rcases List.mem_cons.mp he with rfl | he
      · exact hsource
      · cases indexes with
        | none => cases he
        | some indexes => exact List.all_eq_true.mp hindexes e he
  | branch id condition body elifs otherwise =>
      simp only [isStorable, elifsStorable_eq, Bool.and_eq_true] at hstorable
      obtain ⟨⟨⟨⟨-, hcondition⟩, -⟩, helifs⟩, -⟩ := hstorable
      rcases List.mem_append.mp he with he | he
      · exact List.all_eq_true.mp hcondition e he
      · obtain ⟨elif, helif, he⟩ := List.mem_flatMap.mp he
        have hboth := List.all_eq_true.mp helifs elif helif
        exact List.all_eq_true.mp (Bool.and_eq_true_iff.mp hboth).1 e he
  | select id subject cases =>
      simp only [isStorable, casesStorable_eq, Bool.and_eq_true] at hstorable
      obtain ⟨⟨-, hsubject⟩, hcases⟩ := hstorable
      rcases List.mem_cons.mp he with rfl | he
      · exact hsubject
      · obtain ⟨case, hcase, hkey⟩ := List.mem_filterMap.mp he
        have hboth := List.all_eq_true.mp hcases case hcase
        have hall := (Bool.and_eq_true_iff.mp hboth).1
        rwa [hkey] at hall
  | wait => cases he

theorem all_isStorable_of_mem_bodies {s : Statement} (hstorable : s.isStorable = true)
    {inner : List Statement} (hinner : inner ∈ s.bodies) : inner.all isStorable = true := by
  cases s with
  | assign | wait => cases hinner
  | branch id condition body elifs otherwise =>
      simp only [isStorable, allStorable_eq, elifsStorable_eq, Bool.and_eq_true] at hstorable
      obtain ⟨⟨⟨-, hbody⟩, helifs⟩, hotherwise⟩ := hstorable
      simp only [bodies, List.mem_cons, List.mem_append, List.not_mem_nil, or_false] at hinner
      rcases hinner with rfl | hinner | rfl
      · exact hbody
      · obtain ⟨elif, helif, rfl⟩ := List.mem_map.mp hinner
        exact (Bool.and_eq_true_iff.mp (List.all_eq_true.mp helifs elif helif)).2
      · exact hotherwise
  | select id subject cases =>
      simp only [isStorable, casesStorable_eq, Bool.and_eq_true] at hstorable
      obtain ⟨case, hcase, rfl⟩ := List.mem_map.mp hinner
      exact (Bool.and_eq_true_iff.mp (List.all_eq_true.mp hstorable.2 case hcase)).2

theorem Within.isStorable {s : Statement} {body : List Statement} (h : s.Within body)
    (hstorable : body.all Statement.isStorable = true) : s.isStorable = true := by
  induction h with
  | here hmem => exact List.all_eq_true.mp hstorable _ hmem
  | nested ht hinner _ ih =>
      exact ih (all_isStorable_of_mem_bodies (List.all_eq_true.mp hstorable _ ht) hinner)

theorem Holds.isStorable {s : Statement} (h : s.Holds v) (hstorable : s.isStorable = true) :
    v.isStorable = true := by
  obtain ⟨inner, hinner, e, he, hv⟩ := h
  have hfits : inner.isStorable = true := hinner.isStorable (by simpa using hstorable)
  exact hv.isStorable (isStorable_of_mem_operands hfits he)

end Statement

theorem Signal.Holds.isStorable {signal : Signal} (h : signal.Holds v)
    (hstorable : signal.isStorable = true) : v.isStorable = true := by
  simp only [Signal.isStorable, Bool.and_eq_true] at hstorable
  obtain ⟨⟨⟨⟨⟨-, hdefault⟩, -⟩, -⟩, horigin⟩, -⟩ := hstorable
  rcases h with ⟨value, hvalue, hv⟩ | ⟨origin, hsome, hv⟩
  · rw [hvalue] at hdefault
    exact Value.isStorable_of_holds hdefault hv
  · rw [hsome] at horigin
    exact hv.isStorable horigin

theorem Process.Holds.isStorable {process : Process} (h : process.Holds v)
    (hstorable : process.isStorable = true) : v.isStorable = true := by
  obtain ⟨s, hs, hv⟩ := h
  exact hv.isStorable (List.all_eq_true.mp (Bool.and_eq_true_iff.mp hstorable).2 s hs)

theorem Architecture.Holds.isStorable {arch : Architecture} (h : arch.Holds v)
    (hstorable : arch.isStorable = true) : v.isStorable = true := by
  simp only [Architecture.isStorable, Bool.and_eq_true] at hstorable
  obtain ⟨⟨⟨⟨⟨⟨-, hsignals⟩, hprocesses⟩, -⟩, -⟩, -⟩, -⟩ := hstorable
  rcases h with ⟨signal, hsignal, hv⟩ | ⟨process, hprocess, hv⟩
  · exact hv.isStorable (List.all_eq_true.mp hsignals signal hsignal)
  · exact hv.isStorable (List.all_eq_true.mp hprocesses process hprocess)

namespace Stored

theorem Holds.isStorable {stored : Stored} (h : stored.Holds v)
    (hstorable : stored.isStorable = true) : v.isStorable = true := by
  cases stored with
  | vector w =>
      obtain rfl : w = v := h
      exact hstorable
  | value value => exact Value.isStorable_of_holds hstorable h
  | expr e => exact Expr.Holds.isStorable h hstorable
  | statement s => exact Statement.Holds.isStorable h hstorable
  | signal signal => exact Signal.Holds.isStorable h hstorable
  | process process => exact Process.Holds.isStorable h hstorable
  | architecture arch => exact Architecture.Holds.isStorable h hstorable
  | name | signalId | type | types | entity => cases h

-- The least things that hold a vector, one of each kind.
def around (v : LogicVec) : List Stored :=
  let value : Value := ⟨⟨0⟩, .bits v⟩
  let assignment : Statement := .assign ⟨0⟩ ⟨0⟩ (.literal value) none false
  let process : Process := ⟨⟨0⟩, ⟨0⟩, [], [assignment]⟩
  [.vector v, .value value, .expr (.literal value), .statement assignment,
    .signal ⟨⟨0⟩, ⟨0⟩, ⟨0⟩, some value, [], [], false, none, none⟩, .process process,
    .architecture ⟨⟨0⟩, ⟨⟨0⟩, ⟨#[]⟩⟩, ⟨#[]⟩, ⟨#[process]⟩, [], [], [], 0⟩]

theorem kinds_around (v : LogicVec) : (around v).map kind = vectorKinds := rfl

theorem holds_of_mem_around {stored : Stored} (h : stored ∈ around v) : stored.Holds v := by
  have hassignment : (Statement.assign ⟨0⟩ ⟨0⟩ (.literal ⟨⟨0⟩, .bits v⟩) none false).Holds v :=
    ⟨_, .here List.mem_cons_self, _, List.mem_cons_self, .literal⟩
  simp only [around, List.mem_cons, List.not_mem_nil, or_false] at h
  obtain rfl | rfl | rfl | rfl | rfl | rfl | rfl := h
  · exact rfl
  · exact rfl
  · exact .literal
  · exact hassignment
  · exact .inl ⟨_, rfl, rfl⟩
  · exact ⟨_, List.mem_cons_self, hassignment⟩
  · exact .inr ⟨_, List.mem_cons_self, _, List.mem_cons_self, hassignment⟩

theorem isStorable_of_mem_around {stored : Stored} (h : stored ∈ around v)
    (hv : v.isStorable = true) : stored.isStorable = true := by
  have hzero {kind : Kind} : fitsId (⟨0⟩ : Id kind) = true := rfl
  have hword : fitsWord 0 = true := rfl
  have hvalue : (⟨⟨0⟩, .bits v⟩ : Value).isStorable = true := by
    rw [Value.isStorable, hzero, Bool.true_and]
    exact hv
  have hassignment :
      (Statement.assign ⟨0⟩ ⟨0⟩ (.literal ⟨⟨0⟩, .bits v⟩) none false).isStorable = true := by
    rw [Statement.isStorable, hzero, hzero, Expr.isStorable, hvalue]
    rfl
  have hprocess : (⟨⟨0⟩, ⟨0⟩, [], [.assign ⟨0⟩ ⟨0⟩ (.literal ⟨⟨0⟩, .bits v⟩) none false]⟩ :
      Process).isStorable = true := by
    rw [Process.isStorable, hzero, hzero, List.all_cons, hassignment]
    rfl
  simp only [around, List.mem_cons, List.not_mem_nil, or_false] at h
  obtain rfl | rfl | rfl | rfl | rfl | rfl | rfl := h
  · exact hv
  · exact hvalue
  · exact hvalue
  · exact hassignment
  · simp [isStorable, Signal.isStorable, hvalue, hzero]
  · exact hprocess
  · simp [isStorable, Architecture.isStorable, Entity.isStorable, hprocess, hzero, hword,
      Arena.toList]

-- Just the vectors of a width of 32 bits can be read, whatever their numbers are.
theorem exists_holds_iff {kind : String} (hkind : kind ∈ vectorKinds) :
    (∃ json stored, ofJson? kind json = some stored ∧ stored.Holds v) ↔ v.width < 2 ^ 32 := by
  constructor
  · rintro ⟨json, stored, hread, hholds⟩
    have hfits := ((exists_ofJson?_iff kind stored).mp ⟨json, hread⟩).2
    exact of_decide_eq_true (hholds.isStorable hfits)
  · intro hwidth
    rw [← kinds_around v] at hkind
    obtain ⟨stored, hstored, rfl⟩ := List.mem_map.mp hkind
    obtain ⟨json, hread⟩ := (exists_ofJson?_iff stored.kind stored).mpr
      ⟨rfl, isStorable_of_mem_around hstored (decide_eq_true hwidth)⟩
    exact ⟨json, stored, hread, holds_of_mem_around hstored⟩

-- A vector may be read with any numbers, alone or inside other things. Only where it is normal
-- is it treated throughout as the vector that a constructor gives for its bits.
theorem read_vectors (v : LogicVec) :
    (∀ kind ∈ ["BitVec", "Value", "Expr", "Statement", "Signal", "Process", "Architecture"],
      (∃ json stored, ofJson? kind json = some stored ∧ stored.Holds v) ↔ v.width < 2 ^ 32) ∧
    ∃ twin, v.Beside twin :=
  ⟨fun _ hkind => exists_holds_iff hkind, v.normalized, v.beside_normalized⟩

-- Eight ones with a ninth bit that is defined, and two bits of which the undefined one has a
-- value: neither is normal, nor is it the vector that a constructor gives for its bits.
theorem read_vectors_unmade :
    (LogicVec.ofJson? (.object [("width", .int 8), ("val", .array [.int 255]),
        ("vld", .array [.int 511])]) = some ⟨8, 255, 511⟩ ∧
      ¬ (⟨8, 255, 511⟩ : LogicVec).Normal ∧
      (∀ i < 8, (⟨8, 255, 511⟩ : LogicVec).get? i = (LogicVec.ofNat 255 8).get? i) ∧
      (⟨8, 255, 511⟩ : LogicVec) ≠ .ofNat 255 8 ∧
      (⟨8, 255, 511⟩ : LogicVec).allDefined = false ∧
      (LogicVec.ofNat 255 8).allDefined = true ∧
      (⟨8, 255, 511⟩ : LogicVec).toWord? = none ∧ (LogicVec.ofNat 255 8).toWord? = some 255 ∧
      (⟨8, 255, 511⟩ : LogicVec).bitString = .ok "\"11111111\"" ∧
      (LogicVec.ofNat 255 8).bitString = .ok "X\"ff\"") ∧
    LogicVec.ofJson? (.object [("width", .int 2), ("val", .array [.int 2]),
        ("vld", .array [.int 1])]) = some ⟨2, 2, 1⟩ ∧
      ¬ (⟨2, 2, 1⟩ : LogicVec).Normal ∧
      (∀ i < 2, (⟨2, 2, 1⟩ : LogicVec).get? i = (LogicVec.ofMasked 0 1 2).get? i) ∧
      (⟨2, 2, 1⟩ : LogicVec) ≠ .ofMasked 0 1 2 := by
  have hwide : ¬ (⟨8, 255, 511⟩ : LogicVec).Normal := fun h =>
    absurd h.defined_lt (by decide)
  have hstray : ¬ (⟨2, 2, 1⟩ : LogicVec).Normal := fun h =>
    absurd (h.defined_of_value 1 (by decide)) (by decide)
  exact ⟨⟨by decide +kernel, hwide, by decide, by decide, by decide, by decide, by decide,
    by decide, by decide +kernel, by decide +kernel⟩, by decide +kernel, hstray, by decide,
    by decide⟩

end Stored

end Rtl
