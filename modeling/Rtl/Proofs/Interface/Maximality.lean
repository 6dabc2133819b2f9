import Rtl.Proofs.Interface.Matching
import Rtl.Proofs.Interface.Narrowing

namespace Rtl

namespace Match

variable {claims before now : Claims} {template : Template} {first stem : String}

-- A match of a fresh instance, which has no ports of its own yet.
def fresh (template : Template) (external : Bool) (source : Option NodeId)
    (destinations : List NodeId) (id : NodeId) (stem : String) (claims : Claims) : Attempt :=
  let (root, members) := template.instantiate external source destinations
  node id stem root members claims

theorem findUnclaimed_of_leaf_first {id : Nat} {name : String} {leaf : NodeState}
    {rest : Forest NodeState} {agreed : List Bool}
    (h : (members id stem (.cons name leaf .nil rest) claims).agreed = .ok agreed) :
    ∃ port, claims.findUnclaimed (stem ++ name) = [port] ∧
      (members id stem (.cons name leaf .nil rest) claims).claims.findUnclaimed (stem ++ name) =
        [] := by
  simp only [members] at h ⊢
  split at h
  · cases h
  · rename_i bound now hbound
    obtain ⟨port, hfound, rfl⟩ := findUnclaimed_of_bindLeaf hbound
    refine ⟨port, hfound, ?_⟩
    simp only [Attempt.after]
    apply (members_narrowed _ _ _ _).findUnclaimed_eq_nil
    simp [Claims.findUnclaimed_claim, hfound]

variable {external external' : Bool} {source source' : Option NodeId}
  {destinations destinations' : List NodeId} {id other : NodeId} {agreed : List Bool}

-- A match that succeeds claims the one free port of the first member.
theorem findUnclaimed_of_fresh (hfirst : template.firstMember = .ok first)
    (h : (fresh template external source destinations id stem claims).agreed = .ok agreed) :
    ∃ port, claims.findUnclaimed (stem ++ first) = [port] ∧
      (fresh template external source destinations id stem claims).claims.findUnclaimed
        (stem ++ first) = [] := by
  obtain ⟨className, members⟩ := template
  simp only [Template.firstMember] at hfirst
  split at hfirst
  · obtain rfl := Except.ok.inj hfirst
    exact findUnclaimed_of_leaf_first h
  · obtain rfl := Except.ok.inj hfirst
    simp only [fresh, node, Template.instantiate, Forest.map, Match.members,
      String.append_empty] at h ⊢
    split at h
    · cases h
    · rename_i side hside
      obtain ⟨within, hwithin, -⟩ := bind_eq_ok.mp hside
      simp only [Attempt.after]
      exact findUnclaimed_of_leaf_first hwithin
  · cases hfirst

-- What fits now would have fitted when there were more free ports.
theorem fresh_agreed_of_narrowed (external' : Bool) (source' : Option NodeId)
    (destinations' : List NodeId) (other : NodeId) {wanted : String}
    (hclaims : before.Narrowed now) (hstem : stem.toLower = wanted.toLower)
    (h : (fresh template external source destinations id stem now).agreed = .ok agreed) :
    (fresh template external' source' destinations' other wanted before).agreed = .ok agreed := by
  have htwin : (Forest.cons "" (template.instantiate external source destinations).1
        (template.instantiate external source destinations).2 .nil).map NodeState.masterDirection =
      (Forest.cons "" (template.instantiate external' source' destinations').1
        (template.instantiate external' source' destinations').2 .nil).map
          NodeState.masterDirection := rfl
  exact ((matched_of_agreed h).of_narrowed _ hclaims hstem htwin).1

end Match

namespace Synthesizer

variable {synth : Synthesizer} {template : Template} {claims last : Claims} {first stem : String}
  {port : PortId}

theorem claims_tryPort {candidate : String} (h : claims.candidate? port first = some candidate) :
    (synth.tryPort template first claims port).2.2 =
      (Match.fresh template true none [] ⟨synth.size⟩ candidate claims).claims := by
  simp only [tryPort, h, Match.fresh]
  split <;> rfl

theorem narrowed_tryPort (synth : Synthesizer) (template : Template) (first : String)
    (claims : Claims) (port : PortId) :
    claims.Narrowed (synth.tryPort template first claims port).2.2 := by
  cases h : claims.candidate? port first with
  | none =>
      simp only [tryPort, h]
      exact .refl claims
  | some candidate =>
      rw [claims_tryPort h]
      exact Match.members_narrowed _ _ _ _

theorem narrowed_tryPorts (synth : Synthesizer) (template : Template) (first : String)
    (claims : Claims) (ports : List PortId) :
    claims.Narrowed (synth.tryPorts template first claims ports).2.2 := by
  induction ports generalizing synth claims with
  | nil => exact .refl claims
  | cons port rest ih => exact (narrowed_tryPort synth template first claims port).trans (ih _ _)

-- The port of a first member is claimed when it is tried, if what begins with it
-- still fits at the end.
theorem findUnclaimed_tryPort_of_fresh (synth : Synthesizer) {external : Bool}
    {source : Option NodeId} {destinations : List NodeId} {id : NodeId} {agreed : List Bool}
    (hfirst : template.firstMember = .ok first) (hclaims : claims.Narrowed last)
    (h : (Match.fresh template external source destinations id stem last).agreed = .ok agreed)
    (hport : last.findUnclaimed (stem ++ first) = [port]) :
    (synth.tryPort template first claims port).2.2.findUnclaimed (stem ++ first) = [] := by
  have hbefore := hclaims.findUnclaimed_eq_of_singleton hport
  obtain ⟨candidate, hcandidate, hstem⟩ :=
    Claims.candidate?_of_mem_findUnclaimed (hbefore ▸ List.mem_singleton_self port)
  have hfits := Match.fresh_agreed_of_narrowed true none [] ⟨synth.size⟩ hclaims hstem.symm h
  obtain ⟨_, -, hclaimed⟩ := Match.findUnclaimed_of_fresh hfirst hfits
  rw [claims_tryPort hcandidate, ← hclaimed]
  apply Claims.findUnclaimed_congr
  rw [Text.toLower_append, Text.toLower_append, hstem]

theorem not_fits_of_tryPorts {external : Bool} {source : Option NodeId}
    {destinations : List NodeId} {id : NodeId} {ports : List PortId} {agreed : List Bool}
    (hfirst : template.firstMember = .ok first) (hmem : port ∈ ports)
    (hport : (synth.tryPorts template first claims ports).2.2.findUnclaimed (stem ++ first) =
      [port]) :
    (Match.fresh template external source destinations id stem
      (synth.tryPorts template first claims ports).2.2).agreed ≠ .ok agreed := by
  intro h
  induction ports generalizing synth claims with
  | nil => cases hmem
  | cons tried rest ih =>
      -- Once the port is tried the name has no free port left, and gets none later.
      rcases List.mem_cons.mp hmem with rfl | hmem
      · have hclaims := narrowed_tryPorts synth template first claims (port :: rest)
        have hgone := findUnclaimed_tryPort_of_fresh synth hfirst hclaims h hport
        have hrest := narrowed_tryPorts (synth.tryPort template first claims port).2.1 template
          first (synth.tryPort template first claims port).2.2 rest
        exact List.cons_ne_nil _ _ (hport.symm.trans (hrest.findUnclaimed_eq_nil hgone))
      · exact ih hmem hport h

-- What no fresh instance fits leaves everything as it was.
theorem tryPorts_of_not_fits
    (h : ∀ stem, ∃ cause, (Match.fresh template true none [] ⟨synth.size⟩ stem claims).agreed =
      .error cause) (ports : List PortId) :
    synth.tryPorts template first claims ports = ([], synth, claims) := by
  induction ports with
  | nil => rfl
  | cons port rest ih =>
      have hport : synth.tryPort template first claims port = (none, synth, claims) := by
        simp only [tryPort]
        split
        · rfl
        · rename_i candidate hcandidate
          obtain ⟨cause, hfailed⟩ := h candidate
          simp only [Match.fresh] at hfailed
          simp only [hfailed, Match.claims_node_of_error hfailed]
      simp only [tryPorts, hport, ih, Option.toList_none, List.nil_append]

theorem registry_tryPorts (synth : Synthesizer) (template : Template) (first : String)
    (claims : Claims) (ports : List PortId) :
    (synth.tryPorts template first claims ports).2.1.registry = synth.registry := by
  induction ports generalizing synth claims with
  | nil => rfl
  | cons port rest ih =>
      simp only [tryPorts, ih]
      simp only [tryPort]
      split
      · rfl
      · split <;> rfl

-- The outcome of a match of a fresh instance of a class.
def matchFresh (synth : Synthesizer) (cls : InterfaceClass) (external : Bool)
    (source : Option NodeId) (destinations : List NodeId) (stem : String) (claims : Claims) :
    Except InterfaceError NodeId :=
  let (template, synth) := synth.template cls
  let (id, synth) := synth.instantiate template external source destinations
  (synth.matchByName id stem claims).1

theorem node?_instantiate (synth : Synthesizer) (template : Template) (external : Bool)
    (source : Option NodeId) (destinations : List NodeId) :
    (synth.instantiate template external source destinations).2.node? ⟨synth.size⟩ =
      some ⟨[], template.className, (template.instantiate external source destinations).1,
        (template.instantiate external source destinations).2⟩ := by
  have h := Forest.spot?_append synth.nodes (.cons template.className
    (template.instantiate external source destinations).1
    (template.instantiate external source destinations).2 .nil) 0
  exact h

-- A fresh instance fails to match for the reason that its members have.
theorem matchFresh_of_not_fits {cls : InterfaceClass} {external : Bool} {source : Option NodeId}
    {destinations : List NodeId} {cause : Incompatible}
    (h : (Match.fresh (synth.template cls).1 external source destinations ⟨synth.size⟩ stem
      claims).agreed = .error cause) :
    synth.matchFresh cls external source destinations stem claims =
      .error (.incompatible cause) := by
  have hnode := node?_instantiate (synth.template cls).2 (synth.template cls).1 external source
    destinations
  have hid : ((synth.template cls).2.instantiate (synth.template cls).1 external source
      destinations).1 = ⟨synth.size⟩ := rfl
  have hfailed : (Match.node ⟨synth.size⟩ stem
      ((synth.template cls).1.instantiate external source destinations).1
      ((synth.template cls).1.instantiate external source destinations).2 claims).agreed =
        .error cause := h
  simp only [matchFresh, hid, matchByName]
  rw [show (synth.template cls).2.size = synth.size from rfl] at hnode
  simp only [hnode, hfailed]

theorem template_of_registry_eq {cls : InterfaceClass} {next : Synthesizer}
    (h : next.registry = (synth.template cls).2.registry) :
    next.template cls = ((synth.template cls).1, next) := by
  have hbuild := synth.registry.build_build cls
  simp only [template] at h ⊢
  rw [h, hbuild, ← h]

-- After all ports were tried, no fresh instance fits.
theorem exists_error_of_tryPorts (synth : Synthesizer) (claims : Claims)
    (hfirst : template.firstMember = .ok first) (external : Bool) (source : Option NodeId)
    (destinations : List NodeId) (id : NodeId) (stem : String) :
    ∃ cause, (Match.fresh template external source destinations id stem
      (synth.tryPorts template first claims (claims.ports.entries.map (·.1))).2.2).agreed =
        .error cause := by
  cases h : (Match.fresh template external source destinations id stem
      (synth.tryPorts template first claims (claims.ports.entries.map (·.1))).2.2).agreed with
  | error cause => exact ⟨cause, rfl⟩
  | ok agreed =>
      obtain ⟨port, hport, -⟩ := Match.findUnclaimed_of_fresh hfirst h
      have hbefore :=
        (narrowed_tryPorts synth template first claims _).findUnclaimed_eq_of_singleton hport
      obtain ⟨entry, hentry, -⟩ :=
        Claims.mem_findUnclaimed_iff.mp (hbefore ▸ List.mem_singleton_self port)
      have hmem : port ∈ claims.ports.entries.map (·.1) :=
        List.mem_map_of_mem (Arena.mem_entries_iff.mpr hentry)
      exact absurd h (not_fits_of_tryPorts hfirst hmem hport)

-- Extraction finds all there is. What remains free fits no fresh instance of the
-- class, whatever its names begin with, and a second extraction finds nothing
-- and changes nothing.
theorem extractAll_maximal_and_idempotent {cls : InterfaceClass} {found : List (String × NodeId)}
    {extracted : Synthesizer} {now : Claims}
    (h : synth.extractAll cls claims = (.ok found, extracted, now)) :
    (∀ external source destinations stem, ∃ cause,
      extracted.matchFresh cls external source destinations stem now =
        .error (.incompatible cause)) ∧
    extracted.extractAll cls now = (.ok [], extracted, now) := by
  simp only [extractAll] at h
  split at h
  · cases h
  · rename_i first hfirst
    obtain ⟨-, rfl, rfl⟩ := h
    have htemplate := template_of_registry_eq (registry_tryPorts (synth.template cls).2
      (synth.template cls).1 first claims (claims.ports.entries.map (·.1)))
    constructor
    · intro external source destinations stem
      obtain ⟨cause, hcause⟩ := exists_error_of_tryPorts (synth.template cls).2 claims hfirst
        external source destinations _ stem
      exact ⟨cause, matchFresh_of_not_fits (htemplate ▸ hcause)⟩
    · simp only [extractAll, htemplate, hfirst]
      rw [tryPorts_of_not_fits]
      exact exists_error_of_tryPorts _ _ hfirst true none [] _

-- Two interfaces, of which one has two ports for one of its names.
def ambiguousPorts : Claims :=
  .ofPorts [("b_valid", .output), ("b_ready", .input), ("b_ready", .input), ("a_valid", .output),
    ("a_ready", .input)]

def stream : InterfaceClass :=
  .mk "stream" [] [.leaf "valid" .output 1, .leaf "ready" .input 1]

def afterStreams : Except InterfaceError (List (String × NodeId)) × Synthesizer × Claims :=
  (ofSeparator "_").extractAll stream ambiguousPorts

-- One interface is found. The ambiguous one is not, however often it is looked for.
theorem extractAll_ambiguous :
    (ofSeparator "_").extractAll stream ambiguousPorts =
        (.ok [("a", ⟨0⟩)], afterStreams.2.1, afterStreams.2.2) ∧
    (∀ external source destinations stem, ∃ cause,
      afterStreams.2.1.matchFresh stream external source destinations stem afterStreams.2.2 =
        .error (.incompatible cause)) ∧
    afterStreams.2.1.extractAll stream afterStreams.2.2 =
      (.ok [], afterStreams.2.1, afterStreams.2.2) := by
  have hfound : afterStreams.1 = .ok [("a", ⟨0⟩)] := by decide +kernel
  have h : afterStreams = (.ok [("a", ⟨0⟩)], afterStreams.2.1, afterStreams.2.2) := by
    rw [← hfound]
  exact ⟨h, extractAll_maximal_and_idempotent h⟩

end Synthesizer

end Rtl
