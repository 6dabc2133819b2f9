import Rtl.Proofs.Interface.Connections
import Rtl.Proofs.Types.Building

namespace Rtl

namespace Wiring

-- One thing that a connection comes to: a leaf that is to be driven, with what
-- drives it, or a member that cannot be connected.
inductive Step where
  | drive (leaf source : Endpoint)
  | stuck (cause : Misconfigured)

def Step.wiring : Step → Wiring
  | .drive destination source => leaf destination source.backing
  | .stuck cause => fail (.misconfigured cause)

mutual

-- All that connecting two interfaces comes to, in the order of the members and
-- without regard to what fails on the way.
def steps (destination source : Endpoint) : List Step :=
  match _members : destination.members with
  | .nil => [.drive destination source]
  | .cons name state inner rest =>
      memberSteps destination (.cons name state inner rest) source
termination_by 2 * (destination.members.size + source.members.size) + 1
decreasing_by
  rw [_members]
  omega

def memberSteps (destination : Endpoint) (remaining : Forest NodeState) (source : Endpoint) :
    List Step :=
  match remaining with
  | .nil => []
  | .cons name state inner rest =>
      let member := destination.member name state inner
      let first := match _h : source.members.find? name with
        | .none => [.stuck (.noMember source.fullName name member.fullName)]
        | some (other, below) =>
            let counterpart := source.member name other below
            match flow? state with
            | some .forward => steps member counterpart
            | some .backward => steps counterpart member
            | .none => [.stuck (.undirected member.fullName state.side state.masterDirection)]
      first ++ memberSteps destination rest source
termination_by 2 * (remaining.size + source.members.size)
decreasing_by
  all_goals
    try have := Forest.size_lt_of_find? _h
    simp only [Endpoint.member, Forest.size]
    omega

end

-- How one member is joined with its counterpart, step by step.
def joinSteps (member counterpart : Endpoint) : List Step :=
  match flow? member.state with
  | some .forward => steps member counterpart
  | some .backward => steps counterpart member
  | .none =>
      [.stuck (.undirected member.fullName member.state.side member.state.masterDirection)]

-- Takes the steps up to the first that fails.
def run (taken : List Step) : Wiring :=
  taken.foldr (fun step later => step.wiring.andThen later) none

variable {destination source : Endpoint} {name : String} {state other : NodeState}
  {inner below rest : Forest NodeState}

theorem steps_of_leaf (h : destination.members = .nil) (source : Endpoint) :
    steps destination source = [.drive destination source] := by
  rw [steps]
  split
  · rfl
  · rename_i hcons
    rw [h] at hcons
    cases hcons

theorem steps_of_members (h : destination.members = .cons name state inner rest)
    (source : Endpoint) :
    steps destination source = memberSteps destination (.cons name state inner rest) source := by
  rw [steps]
  split
  · rename_i hnil
    rw [h] at hnil
    cases hnil
  · rename_i hcons
    rw [h] at hcons
    obtain ⟨rfl, rfl, rfl, rfl⟩ := Forest.cons.inj hcons
    rfl

theorem memberSteps_of_missing (h : source.members.find? name = .none) :
    memberSteps destination (.cons name state inner rest) source =
      .stuck (.noMember source.fullName name (destination.member name state inner).fullName) ::
        memberSteps destination rest source := by
  rw [memberSteps]
  split
  · rfl
  · rename_i hsome
    rw [h] at hsome
    cases hsome

theorem memberSteps_of_find? (h : source.members.find? name = some (other, below)) :
    memberSteps destination (.cons name state inner rest) source =
      joinSteps (destination.member name state inner) (source.member name other below) ++
        memberSteps destination rest source := by
  rw [memberSteps]
  split
  · rename_i hnone
    rw [hnone] at h
    cases h
  · rename_i hsome
    rw [hsome] at h
    obtain ⟨rfl, rfl⟩ := Prod.mk.inj (Option.some.inj h)
    rfl

theorem members_of_missing (h : source.members.find? name = .none) :
    members destination (.cons name state inner rest) source =
      fail (.misconfigured
        (.noMember source.fullName name (destination.member name state inner).fullName)) := by
  rw [members]
  split
  · rfl
  · rename_i hsome
    rw [h] at hsome
    cases hsome

theorem run_cons (step : Step) (later : List Step) :
    run (step :: later) = step.wiring.andThen (run later) := rfl

theorem run_append (front back : List Step) :
    run (front ++ back) = (run front).andThen (run back) := by
  induction front with
  | nil => rfl
  | cons step rest ih => rw [List.cons_append, run_cons, run_cons, ih, andThen_assoc]

theorem run_singleton (step : Step) : run [step] = step.wiring := by
  rw [run_cons]
  generalize step.wiring = wiring
  obtain ⟨links, error⟩ := wiring
  cases error with
  | none => simp only [andThen, run, List.foldr_nil, none, List.append_nil]
  | some cause => rfl

-- Connecting is taking the steps.
theorem nodes_eq_run (destination source : Endpoint) :
    nodes destination source = run (steps destination source) := by
  induction destination, source using fun motive => nodes.induct motive
      (fun destination remaining source =>
        members destination remaining source = run (memberSteps destination remaining source)) with
  | case1 destination source hleaf =>
      rw [nodes_of_leaf hleaf, steps_of_leaf hleaf, run_singleton]
      rfl
  | case2 destination source name state inner rest hmembers ih =>
      rw [nodes_of_members hmembers, steps_of_members hmembers, ih]
  | case3 destination source =>
      rw [members, memberSteps]
      rfl
  | case4 destination source name state inner rest hmissing =>
      rw [members_of_missing hmissing, memberSteps_of_missing hmissing]
      rfl
  | case5 destination source name state inner rest member other below hfound counterpart hforward
      hbackward hrest =>
      have hjoin : join member counterpart = run (joinSteps member counterpart) := by
        simp only [join, joinSteps]
        cases flow? member.state with
        | none => rw [run_singleton]; rfl
        | some flow =>
            cases flow with
            | forward => exact hforward
            | backward => exact hbackward
      rw [members_cons hfound, memberSteps_of_find? hfound, run_append, ← hrest, ← hjoin]

-- A step makes one assignment or fails.
theorem Step.wiring_cases (step : Step) :
    (∃ link, step.wiring = ⟨[link], .none⟩) ∨
      ∃ cause, step.wiring = fail (.misconfigured cause) := by
  cases step with
  | stuck cause => exact .inr ⟨cause, rfl⟩
  | drive destination source =>
      simp only [wiring, leaf, Endpoint.backing]
      cases destination.state.signal with
      | none => split <;> exact .inr ⟨_, rfl⟩
      | some driven =>
          cases source.state.signal with
          | none => split <;> exact .inr ⟨_, rfl⟩
          | some driving =>
              split
              · exact .inr ⟨_, rfl⟩
              · exact .inl ⟨_, rfl⟩

-- Steps that each make their assignment.
def Made (taken : List Step) (links : List Connection) : Prop :=
  List.Forall₂ (fun step link => step.wiring = ⟨[link], .none⟩) taken links

theorem run_of_made {taken : List Step} {links : List Connection} (h : Made taken links)
    (later : List Step) :
    run (taken ++ later) = ⟨links ++ (run later).links, (run later).error⟩ := by
  induction h with
  | nil => rfl
  | cons hstep _ ih =>
      rw [List.cons_append, run_cons, hstep, ih]
      rfl

-- What was assigned is what the steps before the first failure assign.
theorem run_cases (taken : List Step) :
    (∃ links, Made taken links ∧ run taken = ⟨links, .none⟩) ∨
      ∃ done failing later links cause, taken = done ++ failing :: later ∧ Made done links ∧
        failing.wiring = fail (.misconfigured cause) ∧
        run taken = ⟨links, some (.misconfigured cause)⟩ := by
  induction taken with
  | nil => exact .inl ⟨[], .nil, rfl⟩
  | cons step rest ih =>
      rcases step.wiring_cases with ⟨link, hlink⟩ | ⟨cause, hcause⟩
      · rcases ih with ⟨links, hmade, hrun⟩ | ⟨done, failing, later, links, cause, rfl, hmade,
          hfailing, hrun⟩
        · refine .inl ⟨link :: links, .cons hlink hmade, ?_⟩
          rw [run_cons, hlink, hrun]
          rfl
        · refine .inr ⟨step :: done, failing, later, link :: links, cause, rfl, .cons hlink hmade,
            hfailing, ?_⟩
          rw [run_cons, hlink, hrun]
          rfl
      · refine .inr ⟨[], step, rest, [], cause, rfl, .nil, hcause, ?_⟩
        rw [run_cons, hcause]
        rfl

-- Every assignment is made by one of the steps, and so is the failure.

theorem exists_step_of_mem_links {taken : List Step} {link : Connection}
    (h : link ∈ (run taken).links) : ∃ step ∈ taken, step.wiring = ⟨[link], .none⟩ := by
  rcases run_cases taken with ⟨links, hmade, hrun⟩ | ⟨done, failing, later, links, cause, rfl,
    hmade, -, hrun⟩
  · rw [hrun] at h
    obtain ⟨step, hstep, hlink⟩ := exists_mem_of_forall₂ hmade h
    exact ⟨step, hstep, hlink⟩
  · rw [hrun] at h
    obtain ⟨step, hstep, hlink⟩ := exists_mem_of_forall₂ hmade h
    exact ⟨step, List.mem_append_left _ hstep, hlink⟩

theorem exists_step_of_error {taken : List Step} {error : InterfaceError}
    (h : (run taken).error = some error) : ∃ step ∈ taken, step.wiring = fail error := by
  rcases run_cases taken with ⟨links, -, hrun⟩ | ⟨done, failing, later, links, cause, rfl, -,
    hfailing, hrun⟩
  · rw [hrun] at h
    cases h
  · rw [hrun] at h
    obtain rfl := Option.some.inj h
    exact ⟨failing, List.mem_append_right _ List.mem_cons_self, hfailing⟩

end Wiring

namespace Architecture

-- The connections made one after the other.
def connected (arch : Architecture) (links : List Connection) : Architecture :=
  links.foldl (fun arch link => arch.connect link.destination link.source) arch

theorem connected_of_connectAll? {arch next : Architecture} {links : List Connection}
    (h : arch.connectAll? links = some next) : next = arch.connected links := by
  induction links generalizing arch with
  | nil => exact (Option.some.inj h).symm
  | cons link rest ih =>
      obtain ⟨joined, hjoined, hrest⟩ := Option.bind_eq_some_iff.mp h
      simp only [connect?, Option.ite_none_right_eq_some] at hjoined
      obtain ⟨-, hjoined⟩ := hjoined
      obtain rfl := Option.some.inj hjoined
      exact ih hrest

theorem connections_connected (arch : Architecture) (links : List Connection) :
    (arch.connected links).connections = arch.connections ++ links := by
  induction links generalizing arch with
  | nil => exact (List.append_nil _).symm
  | cons link rest ih => exact (ih _).trans (List.append_assoc arch.connections [link] rest)

theorem connected_eq_self_iff {arch : Architecture} {links : List Connection} :
    arch.connected links = arch ↔ links = [] := by
  constructor
  · intro h
    have hconnections := (connections_connected arch links).symm.trans (congrArg connections h)
    exact List.append_right_eq_self.mp hconnections
  · rintro rfl
    rfl

end Architecture

namespace Workbench

variable {bench next : Workbench} {destination source : NodeId} {target origin : Endpoint}
  {error : InterfaceError}

theorem wiring_eq_run (htarget : bench.synth.endpoint? destination = some target)
    (horigin : bench.synth.endpoint? source = some origin) :
    bench.synth.wiring destination source = Wiring.run (Wiring.steps target origin) := by
  simp only [Synthesizer.wiring, Synthesizer.wiringTo, horigin, htarget, Wiring.nodes_eq_run]

theorem wiring_ofSpot {driven driving : Forest.Spot NodeState}
    (htarget : bench.synth.node? destination = some driven)
    (horigin : bench.synth.node? source = some driving) :
    bench.synth.wiring destination source =
      Wiring.run (Wiring.steps (.ofSpot driven) (.ofSpot driving)) :=
  wiring_eq_run (by rw [Synthesizer.endpoint?, htarget]; rfl)
    (by rw [Synthesizer.endpoint?, horigin]; rfl)

theorem arch_of_wire? {wiring : Wiring} {error : Option InterfaceError}
    (h : bench.wire? wiring = some (next, error)) :
    next = bench.withArch (bench.design.arch.connected wiring.links) ∧ error = wiring.error := by
  simp only [wire?, Option.bind_eq_bind, Option.bind_eq_some_iff] at h
  obtain ⟨arch, harch, heq⟩ := h
  obtain ⟨rfl, rfl⟩ := Prod.mk.inj (Option.some.inj heq)
  exact ⟨by rw [Architecture.connected_of_connectAll? harch]; rfl, rfl⟩

-- A connection that fails has made the assignments of the steps before the one
-- that failed, and nothing else. So the architecture is as before exactly if the
-- first step is the one that failed.
theorem connected_before_failure (htarget : bench.synth.endpoint? destination = some target)
    (horigin : bench.synth.endpoint? source = some origin)
    (h : bench.wire? (bench.synth.wiring destination source) = some (next, some error)) :
    ∃ done failing later links cause,
      Wiring.steps target origin = done ++ failing :: later ∧ Wiring.Made done links ∧
      failing.wiring = .fail (.misconfigured cause) ∧ error = .misconfigured cause ∧
      next = bench.withArch (bench.design.arch.connected links) ∧
      (next.design.arch = bench.design.arch ↔ done = []) := by
  rw [wiring_eq_run htarget horigin] at h
  obtain ⟨hnext, herror⟩ := arch_of_wire? h
  rcases Wiring.run_cases (Wiring.steps target origin) with ⟨links, -, hrun⟩ |
    ⟨done, failing, later, links, cause, hsteps, hmade, hfailing, hrun⟩
  · rw [hrun] at herror
    cases herror
  · rw [hrun] at hnext herror
    have hnone : links = [] ↔ done = [] := by
      rw [← List.length_eq_zero_iff, ← hmade.length_eq, List.length_eq_zero_iff]
    refine ⟨done, failing, later, links, cause, hsteps, hmade, hfailing, Option.some.inj herror,
      hnext, ?_⟩
    rw [hnext, ← hnone]
    exact Architecture.connected_eq_self_iff

-- A member each way and then one that goes both ways.
def padTemplate : Template :=
  ⟨"pad", .cons "drive" ⟨.output, 1⟩ .nil (.cons "sense" ⟨.input, 1⟩ .nil
    (.cons "pin" ⟨.inout, 1⟩ .nil .nil))⟩

def withPads : Workbench :=
  (noInterfaces.performAll? [.instantiate padTemplate false none [],
    .instantiate padTemplate false none [], .materialize ⟨0⟩ "a", .materialize ⟨4⟩ "b"]).get
      (by decide +kernel)

theorem connected_before_failure_pads :
    ∃ next target origin, withPads.synth.endpoint? ⟨4⟩ = some target ∧
      withPads.synth.endpoint? ⟨0⟩ = some origin ∧
      withPads.wire? (withPads.synth.wiring ⟨4⟩ ⟨0⟩) =
        some (next, some (.misconfigured (.undirected "pin" .slave .inout))) ∧
      ∃ done failing later links cause,
        Wiring.steps target origin = done ++ failing :: later ∧ Wiring.Made done links ∧
        failing.wiring = .fail (.misconfigured cause) ∧
        .misconfigured (.undirected "pin" .slave .inout) = InterfaceError.misconfigured cause ∧
        next = withPads.withArch (withPads.design.arch.connected links) ∧
        (next.design.arch = withPads.design.arch ↔ done = []) := by
  have htarget : (withPads.synth.endpoint? ⟨4⟩).isSome := by decide +kernel
  have horigin : (withPads.synth.endpoint? ⟨0⟩).isSome := by decide +kernel
  have hwire : (withPads.wire? (withPads.synth.wiring ⟨4⟩ ⟨0⟩)).map (·.2) =
      some (some (.misconfigured (.undirected "pin" .slave .inout))) := by decide +kernel
  obtain ⟨target, htarget⟩ := Option.isSome_iff_exists.mp htarget
  obtain ⟨origin, horigin⟩ := Option.isSome_iff_exists.mp horigin
  obtain ⟨⟨next, _⟩, hwire, rfl⟩ := Option.map_eq_some_iff.mp hwire
  exact ⟨next, target, origin, htarget, horigin, hwire,
    connected_before_failure htarget horigin hwire⟩

-- The last member cannot be connected, and the two before it stay so.
theorem connections_of_failed_pads :
    (withPads.wire? (withPads.synth.wiring ⟨4⟩ ⟨0⟩)).map
        (fun (next, error) => (next.design.arch.connections, error)) =
      some ([⟨⟨3⟩, ⟨0⟩⟩, ⟨⟨1⟩, ⟨4⟩⟩],
        some (.misconfigured (.undirected "pin" .slave .inout))) ∧
    withPads.design.arch.connections = [] := by
  decide +kernel

end Workbench

end Rtl
