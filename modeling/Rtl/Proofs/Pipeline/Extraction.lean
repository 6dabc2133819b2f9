import Rtl.Pipeline
import Rtl.Proofs.Interface.DataFlow
import Rtl.Proofs.Interface.Ownership
import Rtl.Proofs.Pipeline.Plain

namespace Rtl

open Forest Backing

-- The trees of the outermost level, with their numbers as nodes.
def Forest.roots {α : Type} (first : Nat) (forest : Forest α) : List (String × NodeId) :=
  (forest.entries first).map fun (name, index) => (name, ⟨index⟩)

theorem Forest.roots_append {α : Type} (first : Nat) (front back : Forest α) :
    (front.append back).roots first = front.roots first ++ back.roots (first + front.size) := by
  simp only [roots, entries_append, List.map_append]

namespace Synthesizer

-- What is found comes as new trees behind the others, all of whose leaves have
-- ports and wait for signals.
def Finds (arch : Architecture) (synth next : Synthesizer) (found : List (String × NodeId)) :
    Prop :=
  ∃ made : Forest NodeState, next = { synth with nodes := synth.nodes.append made } ∧
    found = made.roots synth.size ∧ ∀ leaf ∈ made.numberedLeaves synth.size, Waiting arch leaf.2

variable {synth next last : Synthesizer} {template : Template} {first : String}
  {claims now : Claims} {arch : Architecture} {found more : List (String × NodeId)}

theorem Finds.refl (arch : Architecture) (synth : Synthesizer) : Finds arch synth synth [] := by
  refine ⟨.nil, ?_, rfl, List.forall_mem_nil _⟩
  rw [append_nil]

theorem Finds.trans (h : Finds arch synth next found) (hnext : Finds arch next last more) :
    Finds arch synth last (found ++ more) := by
  obtain ⟨made, rfl, rfl, hmade⟩ := h
  obtain ⟨others, rfl, rfl, hothers⟩ := hnext
  have hsize : (synth.nodes.append made).size = synth.size + made.size := size_append ..
  simp only [size] at hsize hothers ⊢
  rw [hsize] at hothers ⊢
  refine ⟨made.append others, by rw [append_assoc], (roots_append ..).symm, ?_⟩
  rw [size, numberedLeaves_append]
  exact List.forall_mem_append.mpr ⟨hmade, hothers⟩

theorem finds_tryPort (hdirection : claims.direction? = arch.portDirection?) (port : PortId) :
    Finds arch synth (synth.tryPort template first claims port).2.1
      (synth.tryPort template first claims port).1.toList := by
  simp only [tryPort]
  split
  · exact .refl arch synth
  · rename_i candidate hcandidate
    split
    · rename_i agreed _ root below rest hagreed hnodes
      refine ⟨.cons (synth.instanceName candidate) root below .nil, rfl, rfl, ?_⟩
      obtain ⟨side, hsided, hroot, hbelow⟩ :=
        Match.sided_of_agreed hagreed hnodes (synth.instanceName candidate)
      have hunsigned := Match.unsigned_of_unresolved hroot hbelow (synth.instanceName candidate)
      refine (hsided.imp_of_all hunsigned ?_).numberedLeaves
      rintro state ⟨port, direction, hport, hfound, -⟩ hsignal
      exact ⟨⟨port, direction, hport, hdirection ▸ hfound⟩, hsignal⟩
    · exact .refl arch synth

theorem finds_tryPorts (hdirection : claims.direction? = arch.portDirection?)
    (ports : List PortId) :
    Finds arch synth (synth.tryPorts template first claims ports).2.1
      (synth.tryPorts template first claims ports).1 := by
  induction ports generalizing synth claims with
  | nil => exact .refl arch synth
  | cons port rest ih =>
      have hnow := (narrowed_tryPort synth template first claims port).direction?_eq
      exact (finds_tryPort hdirection port).trans (ih (hnow.trans hdirection))

end Synthesizer

namespace Template

-- The first member has members of its own.
def StartsNested (template : Template) : Prop :=
  ∃ name shape inner rest, template.members = .cons name shape inner rest ∧ inner ≠ .nil

theorem firstMember_cases (template : Template) :
    (template.StartsNested ∧ ∃ cause, template.firstMember = .error (.misconfigured cause)) ∨
      ¬ template.StartsNested ∧ ∃ name, template.firstMember = .ok name := by
  obtain ⟨className, members⟩ := template
  cases members with
  | nil =>
      refine .inr ⟨?_, "", rfl⟩
      rintro ⟨_, _, _, _, hcons, -⟩
      cases hcons
  | cons name shape inner rest =>
      cases inner with
      | nil =>
          refine .inr ⟨?_, name, rfl⟩
          rintro ⟨_, _, _, _, hcons, hinner⟩
          obtain ⟨-, -, rfl, -⟩ := Forest.cons.inj hcons
          exact hinner rfl
      | cons first item below beside =>
          exact .inl ⟨⟨name, shape, .cons first item below beside, rest, rfl, by simp⟩, _, rfl⟩

end Template

namespace Synthesizer

variable {synth : Synthesizer} {claims : Claims} {arch : Architecture}

-- Extraction fails only for a template that starts with a nested member.
theorem extractAll_cases (cls : InterfaceClass)
    (hdirection : claims.direction? = arch.portDirection?) :
    ((synth.registry.build cls).1.StartsNested ∧
      ∃ cause, (synth.extractAll cls claims).1 = .error (.misconfigured cause)) ∨
    (¬ (synth.registry.build cls).1.StartsNested ∧
      ∃ found, (synth.extractAll cls claims).1 = .ok found ∧
        Finds arch { synth with registry := (synth.registry.build cls).2 }
          (synth.extractAll cls claims).2.1 found) := by
  simp only [extractAll, template]
  rcases (synth.registry.build cls).1.firstMember_cases with
    ⟨hnested, cause, hfirst⟩ | ⟨hplain, name, hfirst⟩
  · simp only [hfirst]
    exact .inl ⟨hnested, cause, rfl⟩
  · simp only [hfirst]
    exact .inr ⟨hplain, _, rfl, finds_tryPorts hdirection _⟩

end Synthesizer

namespace Workbench

variable {bench next : Workbench} {front waiting rest : Forest NodeState}

theorem materialize_of_materialize? {id : NodeId} {stem : String} {signals : List SignalId}
    (h : bench.materialize? id stem = some (signals, next)) :
    bench.synth.materialize id stem bench.design = some (signals, next.synth, next.design) ∧
      next.claims = bench.claims := by
  simp only [materialize?, Option.bind_eq_bind, Option.bind_eq_some_iff] at h
  obtain ⟨⟨_, synth, design⟩, hmade, heq⟩ := h
  obtain ⟨rfl, rfl⟩ := Prod.mk.inj (Option.some.inj heq)
  exact ⟨hmade, rfl⟩

-- Signals come without a change to claims, templates and ports.
theorem materializeAll_keeps (bench : Workbench) (found : List (String × NodeId)) :
    (bench.materializeAll found).claims = bench.claims ∧
      (bench.materializeAll found).synth.registry = bench.synth.registry ∧
      (bench.materializeAll found).design.arch.entity = bench.design.arch.entity := by
  induction found generalizing bench with
  | nil => exact ⟨rfl, rfl, rfl⟩
  | cons entry rest ih =>
      obtain ⟨name, root⟩ := entry
      rw [materializeAll]
      split
      · rename_i signals next hnext
        obtain ⟨hmade, hclaims⟩ := materialize_of_materialize? hnext
        obtain ⟨hgrows, hregistry⟩ := grows_of_materialize hmade
        obtain ⟨hc, hr, he⟩ := ih next
        exact ⟨hc.trans hclaims, hr.trans hregistry, he.trans hgrows.entity⟩
      · exact ih bench

-- Some trees have their signals, in the order of the bindings; the ones behind
-- them wait for theirs.
structure Underway (bench : Workbench) (front waiting : Forest NodeState) : Prop where
  plain : bench.design.Plain
  consistent : bench.Consistent
  nodes : bench.synth.nodes = front.append waiting
  waiting : ∀ leaf ∈ waiting.numberedLeaves front.size, Waiting bench.design.arch leaf.2
  carried : List.Forall₂ (Carried bench.design.arch) (front.numberedLeaves 0)
    bench.design.arch.portBindings

-- The first tree that waits gets its signals.
theorem exists_materialize_tree {name : String} {state : NodeState} {inner : Forest NodeState}
    (hnodes : bench.synth.nodes = front.append (.cons name state inner rest))
    (hwaiting : ∀ leaf ∈ (Forest.cons name state inner .nil).numberedLeaves front.size,
      Waiting bench.design.arch leaf.2) (stem : String) :
    ∃ signals next after below made, bench.materialize? ⟨front.size⟩ stem = some (signals, next) ∧
      next.synth.nodes = front.append (.cons name after below rest) ∧ below.size = inner.size ∧
      Backs bench.design next.design ((Forest.cons name after below .nil).numberedLeaves front.size)
        made := by
  have hspot : bench.synth.node? ⟨front.size⟩ = some ⟨[], name, state, inner⟩ := by
    rw [Synthesizer.node?, hnodes]
    exact spot?_append front (.cons name state inner rest) 0
  have hupdate (change : NodeState → Forest NodeState → NodeState × Forest NodeState) :
      (bench.synth.update ⟨front.size⟩ change).nodes =
        front.append (.cons name (change state inner).1 (change state inner).2 rest) := by
    rw [Synthesizer.update, hnodes]
    exact update_append change front (.cons name state inner rest) 0
  simp only [materialize?, Synthesizer.materialize, hspot]
  cases inner with
  | nil =>
      have hleaf : Waiting bench.design.arch state := hwaiting _ List.mem_cons_self
      obtain ⟨made, hmade⟩ := backs_leaf ⟨front.size⟩ stem hleaf
      exact ⟨_, _, _, .nil, made, rfl, hupdate _, rfl, hmade⟩
  | cons first item below beside =>
      have hpos := size_cons_pos first item below beside
      rw [numberedLeaves_of_size_pos hpos] at hwaiting
      obtain ⟨made, hmade⟩ := backs_members bench.synth.separator (front.size + 1) stem
        (.cons first item below beside) bench.design
        fun leaf hmem => hwaiting leaf (List.mem_append_left _ hmem)
      obtain ⟨hsize, -⟩ := members_keeps bench.synth.separator (front.size + 1) stem
        (.cons first item below beside) bench.design
      refine ⟨_, _, _, _, made, rfl, hupdate _, hsize, ?_⟩
      rw [numberedLeaves_of_size_pos (hsize ▸ hpos)]
      simp only [numberedLeaves, List.append_nil]
      exact hmade

-- Then it stands with those that have theirs.
theorem Underway.step {name : String} {state : NodeState} {inner : Forest NodeState}
    (h : bench.Underway front (.cons name state inner rest)) (stem : String) :
    ∃ signals next after below, bench.materialize? ⟨front.size⟩ stem = some (signals, next) ∧
      below.size = inner.size ∧
      next.Underway (front.append (.cons name after below .nil)) rest := by
  have hleaves : (Forest.cons name state inner rest).numberedLeaves front.size = _ :=
    numberedLeaves_append front.size (.cons name state inner .nil) rest
  -- Only the leaves of the first tree change; the others stay at their places.
  obtain ⟨hfirst, hothers⟩ := List.forall_mem_append.mp (hleaves ▸ h.waiting)
  obtain ⟨signals, next, after, below, made, hnext, hnodes, hsize, hbacks⟩ :=
    exists_materialize_tree h.nodes hfirst stem
  obtain ⟨hmade, hclaims⟩ := materialize_of_materialize? hnext
  refine ⟨signals, next, after, below, hnext, hsize, hbacks.plain h.plain, ?_, ?_, ?_, ?_⟩
  · exact h.consistent.of_bindings_eq hclaims (Synthesizer.bindings_materialize hmade)
  · rw [append_assoc]
    exact hnodes
  · have hplace : (front.append (.cons name after below .nil)).size =
        front.size + (Forest.cons name state inner .nil).size := by
      simp only [size_append, Forest.size, hsize]
    rw [hplace]
    exact fun leaf hmem => (hothers leaf hmem).of_entity hbacks.entity
  · rw [numberedLeaves_append, hbacks.portBindings, Nat.zero_add]
    exact List.rel_append (h.carried.imp fun _ _ hleaf => hleaf.of_signals hbacks.signals)
      hbacks.carried

theorem Underway.materializeAll (h : bench.Underway front waiting) :
    ∃ last, (bench.materializeAll (waiting.roots front.size)).Underway last .nil := by
  induction waiting generalizing bench front with
  | nil => exact ⟨front, h⟩
  | cons name state inner rest _ ih =>
      obtain ⟨signals, next, after, below, hnext, hsize, hunderway⟩ := h.step name
      have hplace : (front.append (.cons name after below .nil)).size =
          front.size + 1 + inner.size := by
        rw [size_append, Forest.size, Forest.size, hsize]
        omega
      have hroots : (Forest.cons name state inner rest).roots front.size =
          (name, ⟨front.size⟩) :: rest.roots (front.append (.cons name after below .nil)).size := by
        rw [hplace]
        rfl
      rw [hroots, Workbench.materializeAll, hnext]
      exact ih hunderway

-- Everything that was found has its signals, in the order of the bindings.
structure Materialized (bench : Workbench) : Prop where
  plain : bench.design.Plain
  consistent : bench.Consistent
  direction : bench.claims.direction? = bench.design.arch.portDirection?
  carried : List.Forall₂ (Carried bench.design.arch) (bench.synth.nodes.numberedLeaves 0)
    bench.design.arch.portBindings

theorem materialized_ofPorts (settings : Settings) (entity : String) (ports : List PortRequest) :
    (ofPorts settings entity ports).Materialized where
  plain := plain_ofPorts settings entity ports
  consistent := consistent_unclaimedPorts _ _ _
  direction := (keeps_unclaimedPorts (ofPorts settings entity ports).design
    settings.synthesis.separator).direction
  carried := .nil

end Workbench

namespace Registry

-- The templates of some classes, each looked up or made after those before it.
def buildEach (registry : Registry) : List InterfaceClass → List Template
  | [] => []
  | cls :: rest => (registry.build cls).1 :: (registry.build cls).2.buildEach rest

end Registry

namespace Workbench

variable {bench next : Workbench}

theorem Materialized.extract (h : bench.Materialized) {cls : InterfaceClass}
    {registry : Registry} {found : List (String × NodeId)}
    (hfinds : Synthesizer.Finds bench.design.arch { bench.synth with registry }
      (bench.extract cls).2.synth found) :
    ((bench.extract cls).2.materializeAll found).Materialized := by
  obtain ⟨made, hsynth, rfl, hwaiting⟩ := hfinds
  have hunderway : (bench.extract cls).2.Underway bench.synth.nodes made :=
    ⟨h.plain, Synthesizer.holds_extractAll cls h.consistent, by rw [hsynth], hwaiting, h.carried⟩
  obtain ⟨last, hlast⟩ := hunderway.materializeAll
  obtain ⟨hclaims, -, hentity⟩ :=
    (bench.extract cls).2.materializeAll_keeps (made.roots bench.synth.nodes.size)
  refine ⟨hlast.plain, hlast.consistent, ?_, ?_⟩
  · have hdirection : (bench.extract cls).2.claims.direction? = bench.claims.direction? :=
      Synthesizer.direction?_extractAll cls
    funext port
    refine (congrFun ((congrArg Claims.direction? hclaims).trans (hdirection.trans h.direction))
      port).trans ?_
    rw [Architecture.portDirection?, Architecture.portDirection?]
    exact congrArg (fun entity => (entity.ports.get? port).map Port.direction) hentity.symm
  · have hnodes := hlast.nodes
    rw [append_nil] at hnodes
    exact hnodes ▸ hlast.carried

-- Classes are extracted one after the other until one has a template that starts
-- with a nested member.
theorem extractEach_cases (h : bench.Materialized) (classes : List InterfaceClass) :
    ((∃ template ∈ bench.synth.registry.buildEach classes, template.StartsNested) ∧
      ∃ cause, bench.extractEach classes = .error (.misconfigured cause)) ∨
    ((∀ template ∈ bench.synth.registry.buildEach classes, ¬ template.StartsNested) ∧
      ∃ names last, bench.extractEach classes = .ok (names, last) ∧ last.Materialized ∧
        last.design.arch.entity = bench.design.arch.entity) := by
  induction classes generalizing bench with
  | nil => exact .inr ⟨List.forall_mem_nil _, [], bench, rfl, h, rfl⟩
  | cons cls rest ih =>
      rcases bench.synth.extractAll_cases cls h.direction with
        ⟨hnested, cause, hfound⟩ | ⟨hplain, found, hfound, hfinds⟩
      · have hextract : bench.extract cls =
            (.error (.misconfigured cause), (bench.extract cls).2) := Prod.ext hfound rfl
        refine .inl ⟨⟨_, List.mem_cons_self, hnested⟩, cause, ?_⟩
        rw [extractEach, hextract]
      · have hextract : bench.extract cls = (.ok found, (bench.extract cls).2) :=
          Prod.ext hfound rfl
        -- The classes that follow see the templates of this one.
        obtain ⟨-, hregistry, hentity⟩ := (bench.extract cls).2.materializeAll_keeps found
        replace hregistry := hregistry.trans (bench.synth.registry_extractAll cls bench.claims)
        rw [extractEach, hextract, Registry.buildEach, ← hregistry]
        rcases ih (h.extract hfinds) with
          ⟨⟨template, hmem, hnested⟩, cause, hlater⟩ | ⟨hothers, names, last, hlater, hlast, hsame⟩
        · refine .inl ⟨⟨template, List.mem_cons_of_mem _ hmem, hnested⟩, cause, ?_⟩
          simp only [hlater]
          rfl
        · refine .inr ⟨List.forall_mem_cons.mpr ⟨hplain, hothers⟩, found.map (·.1) ++ names, last,
            ?_, hlast, hsame.trans hentity⟩
          simp only [hlater]
          rfl

end Workbench

end Rtl
