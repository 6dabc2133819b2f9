import Rtl.Proofs.Outcome
import Rtl.Proofs.Storage.RoundTrip

namespace Rtl

namespace Json

-- Whatever is read fits.
def Yields {α : Type} (read : Json → Option α) (fits : α → Bool) : Prop :=
  ∀ json value, read json = some value → fits value = true

section Atoms

theorem yields_nat (limit : Nat) : Yields (nat? limit) (· < limit) := by
  intro json value h
  rw [nat?.eq_def] at h
  split at h
  · split at h
    · rename_i hrange
      obtain rfl := Option.some.inj h
      exact decide_eq_true (by omega)
    · cases h
  · cases h

theorem yields_word : Yields word? fitsWord := yields_nat wordLimit

theorem yields_long : Yields long? fitsLong := yields_nat longLimit

theorem yields_signed : Yields signed? fitsSigned := by
  intro json value h
  rw [signed?.eq_def] at h
  split at h
  · split at h
    · rename_i hrange
      obtain rfl := Option.some.inj h
      exact Bool.and_eq_true_iff.mpr ⟨decide_eq_true hrange.1, decide_eq_true hrange.2⟩
    · cases h
  · cases h

theorem yields_id (kind : Kind) : Yields (@id? kind) fitsId := by
  intro json id h
  obtain ⟨index, hindex, rfl⟩ := Option.map_eq_some_iff.mp h
  exact yields_word json index hindex

theorem eq_of_unit? {α : Type} {value other : α} {content : Option Json}
    (h : unit? value content = some other) : other = value := by
  rw [unit?.eq_def] at h
  split at h
  · exact (Option.some.inj h).symm
  · exact (Option.some.inj h).symm
  · cases h

end Atoms

section Combinators

variable {α β : Type} {read : Json → Option α} {fits : α → Bool} {read' : Json → Option β}
  {fits' : β → Bool}

theorem all_of_mapM (h : Yields read fits) {items : List Json} {values : List α}
    (hread : items.mapM read = some values) : values.all fits = true := by
  refine List.all_eq_true.mpr fun value hvalue => ?_
  obtain ⟨item, -, hitem⟩ := exists_mem_of_forall₂ (mapM_eq_some.mp hread) hvalue
  exact h item value hitem

theorem Yields.list (h : Yields read fits) : Yields (list? read) fun values => values.all fits := by
  intro json values hread
  rw [list?.eq_def] at hread
  split at hread
  · exact all_of_mapM h hread
  · cases hread

theorem Yields.option (h : Yields read fits) :
    Yields (option? read) fun value => value.all fits := by
  intro json value hread
  rw [option?.eq_def] at hread
  split at hread
  · obtain rfl := Option.some.inj hread
    rfl
  · obtain ⟨found, hfound, rfl⟩ := Option.map_eq_some_iff.mp hread
    exact h _ found hfound

theorem Yields.pair (h : Yields read fits) (h' : Yields read' fits') :
    Yields (pair? read read') fun pair => fits pair.1 && fits' pair.2 := by
  intro json pair hread
  rw [pair?.eq_def] at hread
  split at hread
  · obtain ⟨first, hfirst, hread⟩ := Option.bind_eq_some_iff.mp hread
    obtain ⟨second, hsecond, hread⟩ := Option.bind_eq_some_iff.mp hread
    obtain rfl := Option.some.inj hread
    exact Bool.and_eq_true_iff.mpr ⟨h _ first hfirst, h' _ second hsecond⟩
  · cases hread

theorem Yields.required (h : Yields read fits) {field : Option Json} {value : α}
    (hread : required read field = some value) : fits value = true := by
  obtain ⟨json, -, hvalue⟩ := Option.bind_eq_some_iff.mp hread
  exact h json value hvalue

theorem Yields.optional (h : Yields read fits) {field : Option Json} {value : Option α}
    (hread : optional read field = some value) : value.all fits = true := by
  cases field with
  | none =>
      obtain rfl := Option.some.inj hread
      rfl
  | some json => exact h.option json value hread

end Combinators

end Json

open Json

-- Everything that is read is in the range of the form in which it is stored.

namespace LogicVec

theorem yields : Yields ofJson? isStorable := by
  intro json v h
  simp only [ofJson?, Option.bind_eq_bind, Option.bind_eq_some_iff] at h
  obtain ⟨fields, -, h⟩ := h
  split at h
  · simp only [Option.pure_def, Option.bind_eq_some_iff, Option.some.injEq] at h
    obtain ⟨width, hwidth, _, -, _, -, rfl⟩ := h
    exact yields_word.required hwidth
  · cases h

end LogicVec

namespace Arena

variable {kind : Kind} {α : Type} {read : Json → Option α} {fits : α → Bool}

theorem yields (h : Yields read fits) :
    Yields (@ofJson? kind α read) fun arena => arena.toList.all fits := by
  intro json arena hread
  simp only [ofJson?, Option.bind_eq_bind, Option.bind_eq_some_iff] at hread
  obtain ⟨fields, -, hread⟩ := hread
  split at hread
  · simp only [Option.pure_def, Option.bind_eq_some_iff, Option.some.injEq] at hread
    obtain ⟨items, hitems, rfl⟩ := hread
    exact h.list.required hitems
  · cases hread

end Arena

namespace HwType

theorem yields : Yields ofJson? isStorable := by
  intro json type h
  simp only [ofJson?, Option.bind_eq_bind, Option.bind_eq_some_iff] at h
  obtain ⟨variant, -, h⟩ := h
  split at h
  · simp only [Option.bind_eq_some_iff] at h
    obtain ⟨fields, -, h⟩ := h
    split at h
    · simp only [Option.pure_def, Option.bind_eq_some_iff, Option.some.injEq] at h
      obtain ⟨width, hwidth, _, -, _, -, rfl⟩ := h
      exact yields_word.required hwidth
    · cases h
  · simp only [Option.bind_eq_some_iff] at h
    obtain ⟨fields, -, h⟩ := h
    split at h
    · simp only [Option.pure_def, Option.bind_eq_some_iff, Option.some.injEq] at h
      obtain ⟨_, -, _, -, rfl⟩ := h
      rfl
    · cases h
  · simp only [Option.bind_eq_some_iff] at h
    obtain ⟨fields, -, h⟩ := h
    split at h
    · simp only [Option.pure_def, Option.bind_eq_some_iff, Option.some.injEq] at h
      obtain ⟨_, -, element, helement, size, hsize, rfl⟩ := h
      exact Bool.and_eq_true_iff.mpr
        ⟨(yields_id .type).required helement, yields_word.required hsize⟩
    · cases h
  · obtain rfl := eq_of_unit? h
    rfl
  · obtain rfl := eq_of_unit? h
    rfl
  · obtain rfl := eq_of_unit? h
    rfl
  · cases h

end HwType

namespace TypeTable

theorem yields : Yields ofJson? isStorable := by
  intro json table h
  simp only [ofJson?, Option.bind_eq_bind, Option.bind_eq_some_iff] at h
  obtain ⟨fields, -, h⟩ := h
  split at h
  · simp only [Option.pure_def, Option.bind_eq_some_iff, Option.some.injEq] at h
    obtain ⟨types, htypes, rfl⟩ := h
    exact HwType.yields.list.required htypes
  · cases h

end TypeTable

namespace Payload

theorem yields : Yields ofJson? isStorable := by
  intro json payload h
  simp only [ofJson?, Option.bind_eq_bind, Option.bind_eq_some_iff] at h
  obtain ⟨variant, -, h⟩ := h
  split at h
  · obtain ⟨vector, hvector, ⟨⟩⟩ := Option.bind_eq_some_iff.mp h
    exact LogicVec.yields _ vector hvector
  · obtain ⟨value, -, ⟨⟩⟩ := Option.bind_eq_some_iff.mp h
    rfl
  · obtain ⟨value, hvalue, ⟨⟩⟩ := Option.bind_eq_some_iff.mp h
    exact yields_signed.option _ value hvalue
  · obtain ⟨value, -, ⟨⟩⟩ := Option.bind_eq_some_iff.mp h
    rfl
  · obtain ⟨index, hindex, ⟨⟩⟩ := Option.bind_eq_some_iff.mp h
    exact yields_word.option _ index hindex
  · cases h

end Payload

namespace Value

theorem yields : Yields ofJson? isStorable := by
  intro json value h
  simp only [ofJson?, Option.bind_eq_bind, Option.bind_eq_some_iff] at h
  obtain ⟨fields, -, h⟩ := h
  split at h
  · simp only [Option.pure_def, Option.bind_eq_some_iff, Option.some.injEq] at h
    obtain ⟨type, htype, payload, hpayload, rfl⟩ := h
    exact Bool.and_eq_true_iff.mpr
      ⟨(yields_id .type).required htype, Payload.yields.required hpayload⟩
  · cases h

end Value

namespace Expr

-- By induction on the levels that may be read.
theorem yields_ofJsonWithin? (depth : Nat) : Yields (ofJsonWithin? depth) isStorable := by
  induction depth with
  | zero => nofun
  | succ depth ih =>
      intro json e h
      simp only [ofJsonWithin?, Option.bind_eq_bind, Option.bind_eq_some_iff] at h
      obtain ⟨variant, -, h⟩ := h
      split at h
      · simp only [Option.pure_def, Option.bind_eq_some_iff, Option.some.injEq] at h
        obtain ⟨id, hid, rfl⟩ := h
        exact yields_id .signal _ id hid
      · simp only [Option.pure_def, Option.bind_eq_some_iff, Option.some.injEq] at h
        obtain ⟨value, hvalue, rfl⟩ := h
        exact Value.yields _ value hvalue
      · simp only [Option.bind_eq_some_iff] at h
        obtain ⟨fields, -, h⟩ := h
        split at h
        · simp only [Option.pure_def, Option.bind_eq_some_iff, Option.some.injEq] at h
          obtain ⟨op, -, operands, hoperands, type, htype, rfl⟩ := h
          rw [isStorable, allStorable_eq]
          exact Bool.and_eq_true_iff.mpr
            ⟨ih.list.required hoperands, (yields_id .type).required htype⟩
        · cases h
      · cases h

theorem yields : Yields ofJson? isStorable :=
  fun json e h => yields_ofJsonWithin? json.depth json e h

end Expr

namespace Statement

theorem yields_ofJsonWithin? (depth : Nat) : Yields (ofJsonWithin? depth) isStorable := by
  induction depth with
  | zero => nofun
  | succ depth ih =>
      intro json s h
      simp only [ofJsonWithin?, Option.bind_eq_bind, Option.bind_eq_some_iff] at h
      obtain ⟨variant, -, h⟩ := h
      split at h
      · simp only [Option.bind_eq_some_iff] at h
        obtain ⟨fields, -, h⟩ := h
        split at h
        · simp only [Option.pure_def, Option.bind_eq_some_iff, Option.some.injEq] at h
          obtain ⟨id, hid, destination, hdestination, source, hsource, indexes, hindexes, _, -,
            rfl⟩ := h
          simp only [isStorable, Bool.and_eq_true]
          exact ⟨⟨⟨(yields_id .statement).required hid, (yields_id .signal).required hdestination⟩,
            Expr.yields.required hsource⟩, Expr.yields.list.optional hindexes⟩
        · cases h
      · simp only [Option.bind_eq_some_iff] at h
        obtain ⟨fields, -, h⟩ := h
        split at h
        · simp only [Option.pure_def, Option.bind_eq_some_iff, Option.some.injEq] at h
          obtain ⟨id, hid, condition, hcondition, body, hbody, elifs, helifs, otherwise,
            hotherwise, rfl⟩ := h
          simp only [isStorable, allStorable_eq, elifsStorable_eq, Bool.and_eq_true]
          exact ⟨⟨⟨⟨(yields_id .statement).required hid, Expr.yields.list.required hcondition⟩,
            ih.list.required hbody⟩, (Expr.yields.list.pair ih.list).list.required helifs⟩,
            ih.list.required hotherwise⟩
        · cases h
      · simp only [Option.bind_eq_some_iff] at h
        obtain ⟨fields, -, h⟩ := h
        split at h
        · simp only [Option.pure_def, Option.bind_eq_some_iff, Option.some.injEq] at h
          obtain ⟨id, hid, subject, hsubject, cases, hcases, rfl⟩ := h
          simp only [isStorable, casesStorable_eq, Bool.and_eq_true]
          exact ⟨⟨(yields_id .statement).required hid, Expr.yields.required hsubject⟩,
            (Expr.yields.option.pair ih.list).list.required hcases⟩
        · cases h
      · simp only [Option.bind_eq_some_iff] at h
        obtain ⟨fields, -, h⟩ := h
        split at h
        · simp only [Option.pure_def, Option.bind_eq_some_iff, Option.some.injEq] at h
          obtain ⟨id, hid, _, -, duration, hduration, rfl⟩ := h
          exact Bool.and_eq_true_iff.mpr
            ⟨(yields_id .statement).required hid, yields_long.optional hduration⟩
        · cases h
      · cases h

theorem yields : Yields ofJson? isStorable :=
  fun json s h => yields_ofJsonWithin? json.depth json s h

end Statement

namespace Driver

theorem yields : Yields ofJson? isStorable := by
  intro json driver h
  simp only [ofJson?, Option.bind_eq_bind, Option.bind_eq_some_iff] at h
  obtain ⟨variant, -, h⟩ := h
  split at h
  · obtain ⟨id, hid, ⟨⟩⟩ := Option.bind_eq_some_iff.mp h
    exact yields_id .port _ id hid
  · obtain ⟨source, hsource, ⟨⟩⟩ := Option.bind_eq_some_iff.mp h
    exact yields_id .signal _ source hsource
  · obtain ⟨id, hid, ⟨⟩⟩ := Option.bind_eq_some_iff.mp h
    exact yields_id .statement _ id hid
  · obtain ⟨position, hposition, ⟨⟩⟩ := Option.bind_eq_some_iff.mp h
    exact yields_word _ position hposition
  · cases h

end Driver

namespace Reader

theorem yields : Yields ofJson? isStorable := by
  intro json reader h
  simp only [ofJson?, Option.bind_eq_bind, Option.bind_eq_some_iff] at h
  obtain ⟨variant, -, h⟩ := h
  split at h
  · obtain ⟨id, hid, ⟨⟩⟩ := Option.bind_eq_some_iff.mp h
    exact yields_id .port _ id hid
  · obtain ⟨destination, hdestination, ⟨⟩⟩ := Option.bind_eq_some_iff.mp h
    exact yields_id .signal _ destination hdestination
  · obtain ⟨id, hid, ⟨⟩⟩ := Option.bind_eq_some_iff.mp h
    exact yields_id .process _ id hid
  · obtain ⟨position, hposition, ⟨⟩⟩ := Option.bind_eq_some_iff.mp h
    exact yields_word _ position hposition
  · cases h

end Reader

namespace Signal

theorem yields : Yields ofJson? isStorable := by
  intro json signal h
  simp only [ofJson?, Option.bind_eq_bind, Option.bind_eq_some_iff] at h
  obtain ⟨fields, -, h⟩ := h
  split at h
  · simp only [Option.pure_def, Option.bind_eq_some_iff, Option.some.injEq] at h
    obtain ⟨id, hid, name, hname, type, htype, default, hdefault, drivers, hdrivers, readers,
      hreaders, hidden, -, origin, horigin, leaf, hleaf, rfl⟩ := h
    simp only [isStorable, Bool.and_eq_true]
    exact ⟨⟨⟨⟨⟨⟨⟨(yields_id .signal).required hid, (yields_id .name).required hname⟩,
      (yields_id .type).required htype⟩, Value.yields.optional hdefault⟩,
      Driver.yields.list.required hdrivers⟩, Reader.yields.list.required hreaders⟩,
      Expr.yields.optional horigin⟩, (yields_id .node).optional hleaf⟩
  · cases h

end Signal

namespace Process

theorem yields : Yields ofJson? isStorable := by
  intro json process h
  simp only [ofJson?, Option.bind_eq_bind, Option.bind_eq_some_iff] at h
  obtain ⟨fields, -, h⟩ := h
  split at h
  · simp only [Option.pure_def, Option.bind_eq_some_iff, Option.some.injEq] at h
    obtain ⟨id, hid, name, hname, sensitivity, hsensitivity, body, hbody, rfl⟩ := h
    simp only [isStorable, Bool.and_eq_true]
    exact ⟨⟨⟨(yields_id .process).required hid, (yields_id .name).required hname⟩,
      (yields_id .signal).list.required hsensitivity⟩, Statement.yields.list.required hbody⟩
  · cases h

end Process

namespace Port

theorem yields : Yields ofJson? isStorable := by
  intro json port h
  simp only [ofJson?, Option.bind_eq_bind, Option.bind_eq_some_iff] at h
  obtain ⟨fields, -, h⟩ := h
  split at h
  · simp only [Option.pure_def, Option.bind_eq_some_iff, Option.some.injEq] at h
    obtain ⟨id, hid, name, hname, _, -, type, htype, rfl⟩ := h
    simp only [isStorable, Bool.and_eq_true]
    exact ⟨⟨(yields_id .port).required hid, (yields_id .name).required hname⟩,
      (yields_id .type).required htype⟩
  · cases h

end Port

namespace Entity

theorem yields : Yields ofJson? isStorable := by
  intro json entity h
  simp only [ofJson?, Option.bind_eq_bind, Option.bind_eq_some_iff] at h
  obtain ⟨fields, -, h⟩ := h
  split at h
  · simp only [Option.pure_def, Option.bind_eq_some_iff, Option.some.injEq] at h
    obtain ⟨name, hname, ports, hports, rfl⟩ := h
    exact Bool.and_eq_true_iff.mpr
      ⟨(yields_id .name).required hname, (Arena.yields Port.yields).required hports⟩
  · cases h

end Entity

namespace Connection

theorem yields : Yields ofJson? isStorable := by
  intro json connection h
  simp only [ofJson?, Option.bind_eq_bind, Option.bind_eq_some_iff] at h
  obtain ⟨fields, -, h⟩ := h
  split at h
  · simp only [Option.pure_def, Option.bind_eq_some_iff, Option.some.injEq] at h
    obtain ⟨destination, hdestination, source, hsource, rfl⟩ := h
    exact Bool.and_eq_true_iff.mpr
      ⟨(yields_id .signal).required hdestination, (yields_id .signal).required hsource⟩
  · cases h

end Connection

namespace Component

theorem yields : Yields ofJson? isStorable := by
  intro json component h
  simp only [ofJson?, Option.bind_eq_bind, Option.bind_eq_some_iff] at h
  obtain ⟨fields, -, h⟩ := h
  split at h
  · simp only [Option.pure_def, Option.bind_eq_some_iff, Option.some.injEq] at h
    obtain ⟨name, hname, entity, hentity, portMap, hportMap, rfl⟩ := h
    simp only [isStorable, Bool.and_eq_true]
    exact ⟨⟨(yields_id .name).required hname, (yields_id .name).required hentity⟩,
      ((yields_id .name).pair (yields_id .signal)).list.required hportMap⟩
  · cases h

end Component

namespace Architecture

theorem yields : Yields ofJson? isStorable := by
  intro json arch h
  simp only [ofJson?, Option.bind_eq_bind, Option.bind_eq_some_iff] at h
  obtain ⟨fields, -, h⟩ := h
  split at h
  · simp only [Option.pure_def, Option.bind_eq_some_iff, Option.some.injEq] at h
    obtain ⟨name, hname, entity, hentity, signals, hsignals, processes, hprocesses, connections,
      hconnections, bindings, hbindings, components, hcomponents, next, hnext, rfl⟩ := h
    simp only [isStorable, Bool.and_eq_true]
    exact ⟨⟨⟨⟨⟨⟨⟨(yields_id .name).required hname, Entity.yields.required hentity⟩,
      (Arena.yields Signal.yields).required hsignals⟩,
      (Arena.yields Process.yields).required hprocesses⟩,
      Connection.yields.list.required hconnections⟩,
      ((yields_id .port).pair (yields_id .signal)).list.required hbindings⟩,
      Component.yields.list.required hcomponents⟩, yields_word.required hnext⟩
  · cases h

end Architecture

namespace Stored

-- What is read as a thing of some kind is of that kind, and in range.
theorem kind_and_isStorable_of_ofJson? {kind : String} {json : Json} {stored : Stored}
    (h : ofJson? kind json = some stored) : stored.kind = kind ∧ stored.isStorable = true := by
  rw [ofJson?.eq_def] at h
  split at h
  all_goals first | cases h | obtain ⟨content, hcontent, rfl⟩ := Option.map_eq_some_iff.mp h
  · exact ⟨rfl, LogicVec.yields json content hcontent⟩
  · exact ⟨rfl, yields_id .name json content hcontent⟩
  · exact ⟨rfl, yields_id .signal json content hcontent⟩
  · exact ⟨rfl, HwType.yields json content hcontent⟩
  · exact ⟨rfl, TypeTable.yields json content hcontent⟩
  · exact ⟨rfl, Value.yields json content hcontent⟩
  · exact ⟨rfl, Expr.yields json content hcontent⟩
  · exact ⟨rfl, Statement.yields json content hcontent⟩
  · exact ⟨rfl, Signal.yields json content hcontent⟩
  · exact ⟨rfl, Process.yields json content hcontent⟩
  · exact ⟨rfl, Entity.yields json content hcontent⟩
  · exact ⟨rfl, Architecture.yields json content hcontent⟩

-- Just what is in range can be read.
theorem exists_ofJson?_iff (kind : String) (stored : Stored) :
    (∃ json, ofJson? kind json = some stored) ↔ stored.kind = kind ∧ stored.isStorable = true := by
  constructor
  · rintro ⟨json, h⟩
    exact kind_and_isStorable_of_ofJson? h
  · rintro ⟨rfl, h⟩
    exact ⟨stored.toJson, ofJson?_toJson stored h⟩

end Stored

end Rtl
