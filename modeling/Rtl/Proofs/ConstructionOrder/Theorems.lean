import Rtl.Proofs.ConstructionOrder.Naming

namespace Rtl

variable {ρ : Renumbering}

-- No name of the scope was given to anyone yet.
def Scope.Fresh (scope : Scope) : Prop := ∀ level ∈ scope.levels, level.owned = []

theorem Scope.Fresh.renumber_eq {scope : Scope} (h : scope.Fresh) (ρ : Renumbering) :
    scope.renumber ρ = scope := by
  have hlevel : ∀ level ∈ scope.levels, level.renumber ρ = level := by
    intro level hmem
    simp only [ScopeLevel.renumber, h level hmem, List.map_nil]
    rw [← h level hmem]
  have hbase := hlevel scope.base (by simp [levels])
  have hnested : scope.nested.map (ScopeLevel.renumber ρ) = scope.nested := by
    have hmap := List.map_congr_left (f := ScopeLevel.renumber ρ) (g := id) (l := scope.nested)
      fun level hmem => hlevel level (by simp [levels, hmem])
    rw [hmap, List.map_id]
  simp only [renumber, hbase, hnested]

theorem Scope.Fresh.push {scope : Scope} (h : scope.Fresh) : scope.push.Fresh := by
  intro level hmem
  cases List.mem_cons.mp hmem with
  | inl hempty => exact hempty ▸ rfl
  | inr houter => exact h level houter

namespace Renderer

theorem text?_of_text {r : Renderer} {id : NameId} {text : String} (h : r.text id = .ok text) :
    r.design.names.text? id = some text := by
  simp only [Renderer.text] at h
  split at h
  · rename_i found hfound
    obtain rfl := Except.ok.inj h
    exact hfound
  · cases h

theorem named_cons {α : Type} (r : Renderer) (name : α → NameId) (item : α) (rest : List α) :
    r.named name (item :: rest) = (do
      let text ← r.text (name item)
      let others ← r.named name rest
      return (text, item) :: others) := by
  simp only [named, List.mapM_cons, bind_assoc, pure_bind]

theorem map_fst_of_named {α : Type} {r : Renderer} {name : α → NameId} {items : List α}
    {result : List (String × α)} (h : r.named name items = .ok result) :
    result.map (·.1) = items.filterMap fun item => r.design.names.text? (name item) := by
  induction items generalizing result with
  | nil =>
      obtain rfl := Except.ok.inj h
      rfl
  | cons item rest ih =>
      rw [named_cons] at h
      cases htext : r.text (name item) with
      | error cause =>
          rw [htext] at h
          cases h
      | ok text =>
          cases hrest : r.named name rest with
          | error cause =>
              rw [htext, hrest] at h
              cases h
          | ok others =>
              rw [htext, hrest] at h
              obtain rfl := Except.ok.inj h
              rw [List.map_cons, List.filterMap_cons, text?_of_text htext, ih hrest]

end Renderer

namespace Alike

variable {r s : Renderer}

-- Named things are the same on both sides, in the order of their names.
theorem sorted_named (h : Alike ρ r s) {α : Type} {R : α → α → Prop} {name : α → NameId}
    (hname : ∀ a b, R a b → name b = name a) {as bs bs' : List α} (hab : List.Forall₂ R as bs)
    (hperm : bs.Perm bs')
    (hnodup : (as.filterMap fun item => r.design.names.text? (name item)).Nodup) :
    Agree (fun xs ys => (xs.map (·.1)).Nodup ∧ (ys.map (·.1)).Nodup ∧
        List.Forall₂ (fun x y => x.1 = y.1 ∧ R x.2 y.2) (Renderer.sortBy (·.1) Renderer.textLe xs)
          (Renderer.sortBy (·.1) Renderer.textLe ys))
      (r.named name as) (s.named name bs') := by
  have hsame : Agree (List.Forall₂ fun x y => x.1 = y.1 ∧ R x.2 y.2) (r.named name as)
      (s.named name bs) := by
    refine Agree.mapM hab fun a b hR => ?_
    rw [hname a b hR, h.text_eq]
    exact (Agree.refl _).bind_eq fun text => .ok ⟨rfl, hR⟩
  have hboth : Agree _ (r.named name as) (s.named name bs') :=
    hsame.comp (Agree.mapM_perm _ hperm)
  generalize hnamed : r.named name as = x at hboth ⊢
  generalize s.named name bs' = y at hboth ⊢
  cases hboth with
  | error cause cause' => exact .error cause cause'
  | @ok xs ys hxy =>
      obtain ⟨zs, hxz, hzy⟩ := hxy
      have hxs : (xs.map (·.1)).Nodup := Renderer.map_fst_of_named hnamed ▸ hnodup
      have hys : (ys.map (·.1)).Nodup := by
        rw [← (hzy.map (·.1)).nodup_iff, ← Renderer.map_fst_eq_of_forall₂ hxz]
        exact hxs
      exact .ok ⟨hxs, hys, Renderer.sortBy_textLe_related hxz hzy hxs⟩

theorem shownSignals (h : Alike ρ r s) :
    Agree (List.Forall₂ fun x y => x.1 = y.1 ∧ SameSignal ρ x.2 y.2) r.shownSignals
      s.shownSignals := by
  obtain ⟨items, hsame, hperm⟩ := Arena.exists_perm_toList h.arch.signals
  have hshown : List.Forall₂ (SameSignal ρ)
      (r.design.arch.signals.toList.filter fun signal => !signal.hidden)
      (items.filter fun signal => !signal.hidden) := by
    refine List.rel_filter (fun a b hab => ?_) hsame
    simp only [hab.hidden]
  have hsorted := h.sorted_named (fun a b hab => hab.name) hshown (hperm.filter _)
    h.distinct.signals
  refine hsorted.map ?_
  intro xs ys hxy
  exact hxy.2.2

theorem sortedComponents (h : Alike ρ r s) :
    Agree (List.Forall₂ fun x y => x.1 = y.1 ∧ y.2 = x.2.renumber ρ) r.sortedComponents
      s.sortedComponents := by
  have hsame : List.Forall₂ (fun a b => b = Component.renumber ρ a) r.design.arch.components
      (r.design.arch.components.map (Component.renumber ρ)) :=
    List.forall₂_map_right_iff.mpr (List.forall₂_same.mpr fun _ _ => rfl)
  refine (h.sorted_named (fun a b hab => hab ▸ rfl) hsame h.arch.components.symm
    h.distinct.components).map ?_
  intro xs ys hxy
  exact hxy.2.2

theorem sortedProcesses (h : Alike ρ r s) :
    Agree (List.Forall₂ (SameProcess ρ)) r.sortedProcesses s.sortedProcesses := by
  obtain ⟨items, hsame, hperm⟩ := Arena.exists_perm_toList h.arch.processes
  refine (h.sorted_named (fun a b hab => hab.name) hsame hperm h.distinct.processes).map ?_
  intro xs ys ⟨hxs, hys, hxy⟩
  rw [Renderer.sortBy_processLe hxs, Renderer.sortBy_processLe hys, List.forall₂_map_left_iff,
    List.forall₂_map_right_iff]
  exact hxy.imp fun _ _ hpair => hpair.2

theorem connectionTexts (h : Alike ρ r s) (ports : List (PortId × PortPiece)) :
    Agree Eq (r.connectionTexts ports) (s.connectionTexts ports) := by
  have hlinks : Agree List.Perm (r.design.arch.connections.mapM r.connectionNames)
      (s.design.arch.connections.mapM s.connectionNames) := by
    refine Agree.mapM_perm_map h.arch.connections fun link => ?_
    refine (h.signalName link.destination).bind_eq fun driven => ?_
    exact (h.signalName link.source).bind_eq fun driving => .refl _
  have hbindings : Agree List.Perm (r.design.arch.portBindings.mapM (r.bindingNames ports))
      (s.design.arch.portBindings.mapM (s.bindingNames ports)) := by
    refine Agree.mapM_perm_map h.arch.portBindings fun binding => ?_
    simp only [Renderer.bindingNames, Architecture.portDirection?, h.arch.entity]
    split
    · exact .error _ _
    · exact (h.signalName binding.2).bind_eq fun signal => .refl _
  refine hlinks.bind fun links links' hperm => ?_
  refine hbindings.bind fun bindings bindings' hperm' => ?_
  rw [Renderer.sortBy_pairLe_perm (hperm.append hperm'), h.dialect]
  exact .refl _

theorem processText (h : Alike ρ r s) (layout : Layout) (name : String) {a b : Process}
    (hab : SameProcess ρ a b) :
    Agree Eq (r.processText layout name a) (s.processText layout name b) := by
  refine (Agree.mapM_perm_map hab.sensitivity h.signalName).bind fun names names' hperm => ?_
  rw [Renderer.sortBy_textLe_perm hperm, hab.body]
  exact (h.statements layout a.body).bind_eq fun lines => .refl _

theorem process (h : Alike ρ r s) (layout : Layout) (id : ProcessId) :
    Agree (Carries ρ) ((Renderer.process layout id).outcome r)
      ((Renderer.process layout (ρ.process id)).outcome s) := by
  have hfound : Agree (SameProcess ρ) (r.findProcess id) (s.findProcess (ρ.process id)) := by
    have hid := h.arch.processes id
    simp only [Renderer.findProcess]
    generalize r.design.arch.processes.get? id = x at hid
    generalize s.design.arch.processes.get? (ρ.process id) = y at hid
    cases hid with
    | none => exact .error _ _
    | some hab => exact .ok hab
  rw [Renderer.outcome_process, Renderer.outcome_process]
  refine hfound.bind fun a b hab => ?_
  rw [h.text_eq, hab.name]
  refine (Agree.refl _).bind_eq fun candidate => ?_
  obtain ⟨hname, hnext⟩ := h.checkedName (.process id) candidate
  simp only [Owner.renumber] at hname hnext
  simp only [← hname]
  exact (hnext.processText layout _ hab).bind_eq fun text => .ok ⟨rfl, hnext⟩

theorem processes (h : Alike ρ r s) (layout : Layout) {as bs : List Process}
    (hab : List.Forall₂ (SameProcess ρ) as bs) :
    Agree (Carries ρ) ((Renderer.processes layout as).outcome r)
      ((Renderer.processes layout bs).outcome s) := by
  induction hab generalizing r s with
  | nil => exact .ok ⟨rfl, h⟩
  | @cons a b as bs hfirst hrest ih =>
      rw [Renderer.outcome_processes_cons, Renderer.outcome_processes_cons, hfirst.id]
      refine (h.process layout a.id).bind fun c d hcd => ?_
      refine (ih hcd.2).bind fun e f hef => ?_
      exact .ok ⟨congrArg₂ List.cons hcd.1 hef.1, hef.2⟩

theorem portMapNames (h : Alike ρ r s) (portMap : List (NameId × SignalId)) :
    Agree Eq (r.portMapNames portMap)
      (s.portMapNames (portMap.map fun (port, id) => (port, ρ.signal id))) := by
  induction portMap with
  | nil => exact .refl _
  | cons entry rest ih =>
      simp only [Renderer.portMapNames, List.map_cons, List.mapM_cons] at ih ⊢
      refine Agree.bind_eq ?_ fun first => ih.bind_eq fun others => .refl _
      rw [h.text_eq]
      refine (Agree.refl _).bind_eq fun port => ?_
      exact (h.signalName entry.2).bind_eq fun name => .refl _

theorem components (h : Alike ρ r s) (position : Nat) {as bs : List (String × Component)}
    (hab : List.Forall₂ (fun a b => a.1 = b.1 ∧ b.2 = a.2.renumber ρ) as bs) :
    Agree (Carries ρ) ((Renderer.components position as).outcome r)
      ((Renderer.components position bs).outcome s) := by
  induction hab generalizing r s position with
  | nil => exact .ok ⟨rfl, h⟩
  | @cons a b as bs hfirst hrest ih =>
      obtain ⟨candidate, component⟩ := a
      obtain ⟨_, component'⟩ := b
      obtain ⟨hcandidate, hcomponent⟩ := hfirst
      simp only at hcandidate hcomponent
      subst hcandidate hcomponent
      obtain ⟨hname, hnext⟩ := h.checkedName (.component position) candidate
      simp only [Owner.renumber] at hname hnext
      simp only [Renderer.outcome_components_cons, ← hname]
      refine (hnext.portMapNames component.portMap).bind_eq fun portMap => ?_
      rw [hnext.text_eq]
      refine (Agree.refl _).bind_eq fun entity => ?_
      refine (ih hnext (position + 1)).bind fun a b hab => ?_
      exact .ok ⟨congrArg (_ :: ·) hab.1, hab.2⟩

theorem nameAll (h : Alike ρ r s) :
    Agree (Carries ρ) (Renderer.nameAll.outcome r) (Renderer.nameAll.outcome s) := by
  rw [Renderer.outcome_nameAll, Renderer.outcome_nameAll, h.arch.entity]
  refine (h.namePorts _).bind fun a b ⟨hports, hnext⟩ => ?_
  refine hnext.shownSignals.bind fun xs ys hxy => ?_
  refine (hnext.nameSignals hxy).bind fun c d ⟨htypes, hlast⟩ => ?_
  exact .ok ⟨congrArg₂ Prod.mk hports htypes, hlast⟩

theorem preamble (h : Alike ρ r s)
    (ports : List (PortId × PortPiece)) (types : List String) :
    Agree Eq (r.preamble ports types) (s.preamble ports types) := by
  refine h.shownSignals.bind fun xs ys hxy => ?_
  refine (Agree.mapM hxy (S := Eq) fun x y hsignal => ?_).bind fun signals signals' hsame => ?_
  · simp only [hsignal.2.id]
    exact h.declareSignal x.2.id
  rw [List.forall₂_eq_eq_eq] at hsame
  rw [hsame]
  exact (h.connectionTexts ports).bind_eq fun connections => .refl _

theorem unitText (h : Alike ρ r s)
    (layout : Layout) (preamble : Renderer.Preamble) (processes : List String) :
    Agree (Carries ρ) ((Renderer.unitText layout preamble processes).outcome r)
      ((Renderer.unitText layout preamble processes).outcome s) := by
  rw [Renderer.outcome_unitText, Renderer.outcome_unitText]
  refine h.sortedComponents.bind fun xs ys hxy => ?_
  refine (h.components 0 hxy).bind fun a b ⟨hpieces, hnext⟩ => ?_
  simp only [hpieces, hnext.text_eq, hnext.arch.entity, hnext.arch.name]
  refine (Agree.refl _).bind_eq fun entity => (Agree.refl _).bind_eq fun architecture => ?_
  exact .ok ⟨rfl, hnext⟩

theorem writeUnit (h : Alike ρ r s) (layout : Layout) (ports : List (PortId × PortPiece))
    (types : List String) :
    Agree (Carries ρ) ((Renderer.writeUnit layout ports types).outcome r)
      ((Renderer.writeUnit layout ports types).outcome s) := by
  rw [Renderer.outcome_writeUnit, Renderer.outcome_writeUnit]
  refine (h.preamble ports types).bind_eq fun preamble => ?_
  refine h.sortedProcesses.bind fun as bs hab => ?_
  refine (h.processes layout hab).bind fun (texts, _) _ ⟨htexts, hnext⟩ => ?_
  subst htexts
  exact hnext.unitText layout preamble _

theorem body (h : Alike ρ r s) (layout : Layout) :
    Agree Eq (Renderer.body layout r).1 (Renderer.body layout s).1 := by
  have hbody : Agree (Carries ρ) ((Renderer.body layout).outcome r)
      ((Renderer.body layout).outcome s) := by
    rw [Renderer.outcome_body, Renderer.outcome_body]
    refine h.nameAll.bind fun ((ports, types), _) (_, _) ⟨hnamed, hnext⟩ => ?_
    subst hnamed
    exact hnext.writeUnit layout ports types
  rw [Pass.fst_eq_outcome, Pass.fst_eq_outcome]
  exact hbody.map fun a b hab => hab.1

end Alike

-- An architecture is written in the same way, or cannot be written, in whatever
-- order it was constructed.
theorem architecture_eq_of_reordered {names : NameTable} {a b : Architecture}
    (h : Reordered ρ a b) (hdistinct : DistinctNames names a) {scope : Scope}
    (hfresh : scope.Fresh) (types : TypeTable) (dialect : Dialect) (timeUnit : String)
    (layout : Layout) :
    ((Renderer.ofDesign dialect ⟨names, types, a⟩ timeUnit scope).architecture layout).1.toOption =
      ((Renderer.ofDesign dialect ⟨names, types, b⟩ timeUnit scope).architecture
        layout).1.toOption := by
  have hpush := hfresh.push.renumber_eq ρ
  have halike : Alike ρ
      { Renderer.ofDesign dialect ⟨names, types, a⟩ timeUnit scope with scope := scope.push }
      { Renderer.ofDesign dialect ⟨names, types, b⟩ timeUnit scope with scope := scope.push } := {
    dialect := rfl, names := rfl, types := rfl, arch := h, distinct := hdistinct
    timeUnit := rfl, scope := hpush.symm, typeNames := rfl, signalNames := rfl }
  exact (halike.body layout).toOption_eq

theorem fresh_baseScope (dialect : Dialect) (reserved : List String) :
    (dialect.baseScope reserved).Fresh := by
  intro level hmem
  obtain rfl := List.mem_singleton.mp hmem
  rfl

-- Two signals that are driven from each other by two processes, and the same
-- constructed in the other order.

def drivenWire (id name statement : Nat) (processes : List ProcessId) : Signal :=
  { id := ⟨id⟩, name := ⟨name⟩, type := ⟨0⟩, default := none, drivers := [.statement ⟨statement⟩]
    readers := processes.map .process, hidden := false, origin := none, leaf := none }

def copying (id name statement : Nat) (destination source : SignalId)
    (sensitivity : List SignalId) : Process :=
  { id := ⟨id⟩, name := ⟨name⟩, sensitivity
    body := [.assign ⟨statement⟩ destination (.signal source) none false] }

def oneWay : Architecture :=
  { Architecture.ofEntity ⟨0⟩ (.ofName ⟨0⟩) with
    signals := ⟨#[drivenWire 0 1 1 [⟨0⟩], drivenWire 1 2 0 [⟨0⟩, ⟨1⟩]]⟩
    processes := ⟨#[copying 0 3 0 ⟨1⟩ ⟨0⟩ [⟨0⟩, ⟨1⟩], copying 1 4 1 ⟨0⟩ ⟨1⟩ [⟨1⟩]]⟩ }

def otherWay : Architecture :=
  { Architecture.ofEntity ⟨0⟩ (.ofName ⟨0⟩) with
    signals := ⟨#[drivenWire 0 2 1 [⟨0⟩, ⟨1⟩], drivenWire 1 1 0 [⟨1⟩]]⟩
    processes := ⟨#[copying 0 4 0 ⟨1⟩ ⟨0⟩ [⟨0⟩], copying 1 3 1 ⟨0⟩ ⟨1⟩ [⟨0⟩, ⟨1⟩]]⟩ }

def exchange : Renumbering :=
  { signal := Equiv.swap ⟨0⟩ ⟨1⟩, process := Equiv.swap ⟨0⟩ ⟨1⟩
    statement := Equiv.swap ⟨0⟩ ⟨1⟩, component := id }

theorem reordered_exchange : Reordered exchange oneWay otherWay := by
  have hbeyond {kind : Kind} (index : Nat) :
      Equiv.swap (⟨0⟩ : Id kind) ⟨1⟩ ⟨index + 2⟩ = ⟨index + 2⟩ :=
    Equiv.swap_apply_of_ne_of_ne (by simp) (by simp)
  refine ⟨rfl, rfl, ?_, ?_, List.Perm.refl _, List.Perm.refl _, List.Perm.refl _, rfl⟩
  · intro ⟨index⟩
    match index with
    | 0 | 1 => exact .some ⟨by decide, rfl, rfl, rfl, by decide, by decide, rfl, rfl, rfl⟩
    | index + 2 =>
        rw [exchange, hbeyond]
        exact .none
  · intro ⟨index⟩
    match index with
    | 0 | 1 => exact .some ⟨by decide, rfl, by decide, rfl⟩
    | index + 2 =>
        rw [exchange, hbeyond]
        exact .none

def wireNames : NameTable := ⟨#["top", "x", "y", "p", "q"]⟩

theorem distinctNames_oneWay : DistinctNames wireNames oneWay :=
  ⟨by decide, by decide, by decide⟩

-- The names and what belongs to them on one line.
def listing : Layout
  | .unit piece => String.intercalate "; " (piece.signals ++ piece.processes)
  | .process piece =>
      piece.name ++ ": " ++ String.intercalate ", " (piece.sensitivity ++ piece.lines)
  | .branch _ | .select _ => ""

def writtenOf (arch : Architecture) : Option String :=
  ((Renderer.ofDesign .vhdl ⟨wireNames, (TypeTable.empty.ofWidth 1).2, arch⟩ "ns"
    (Dialect.vhdl.baseScope [])).architecture listing).1.toOption

theorem architecture_exchange :
    writtenOf oneWay = some
      "SIGNAL x : STD_LOGIC; SIGNAL y : STD_LOGIC; p: x, y, y <= x;; q: y, x <= y;" ∧
    writtenOf oneWay = writtenOf otherWay :=
  ⟨by cbv, architecture_eq_of_reordered reordered_exchange distinctNames_oneWay
    (fresh_baseScope .vhdl []) _ .vhdl "ns" listing⟩

end Rtl
