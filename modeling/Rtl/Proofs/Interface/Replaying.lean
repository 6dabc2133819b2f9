import Rtl.Proofs.Interface.Releases
import Rtl.Proofs.Pipeline.Extraction

namespace Rtl

open Forest

-- What matching sees of a port: its name, its direction and whether it is free.
def PortClaim.outline (port : PortClaim) : String × Direction × Bool :=
  (port.name, port.direction, port.owner.isNone)

namespace Claims

def outline (claims : Claims) : List (String × Direction × Bool) :=
  claims.ports.toList.map PortClaim.outline

variable {one other : Claims}

theorem getElem?_outline (claims : Claims) (port : PortId) :
    claims.outline[port.index]? = (claims.ports.get? port).map PortClaim.outline := by
  simp [outline, Arena.toList, Arena.get?]

theorem findUnclaimed_eq (claims : Claims) (name : String) :
    claims.findUnclaimed name = claims.outline.zipIdx.filterMap fun (port, index) =>
      if port.2.2 && port.1.toLower == name.toLower then some ⟨index⟩ else none := by
  simp only [findUnclaimed, Arena.entries, outline, List.zipIdx_map, List.filterMap_map]
  rfl

theorem candidate?_of_outline (h : other.outline = one.outline) (port : PortId) (ending : String) :
    other.candidate? port ending = one.candidate? port ending := by
  have hport := congrArg (·[port.index]?) h
  simp only [getElem?_outline] at hport
  simp only [candidate?]
  cases hone : one.ports.get? port with
  | none =>
      cases hother : other.ports.get? port with
      | none => rfl
      | some entry => simp [hone, hother] at hport
  | some entry =>
      cases hother : other.ports.get? port with
      | none => simp [hone, hother] at hport
      | some entry' =>
          obtain ⟨name, direction, owner⟩ := entry
          obtain ⟨name', direction', owner'⟩ := entry'
          simp only [hone, hother, Option.map_some, Option.some.injEq, PortClaim.outline,
            Prod.mk.injEq] at hport
          obtain ⟨rfl, -, howner⟩ := hport
          cases owner <;> cases owner' <;> simp_all

theorem ids_of_outline (h : other.outline = one.outline) :
    other.ports.entries.map (·.1) = one.ports.entries.map (·.1) := by
  have hids (claims : Claims) : claims.ports.entries.map (·.1) =
      (List.range claims.outline.length).map Id.mk := by
    simp [Arena.entries, outline, List.range_eq_range', ← List.zipIdx_map_snd,
      Function.comp_def]
  rw [hids, hids, h]

theorem outline_claim (h : other.outline = one.outline) (port : PortId) (leaf leaf' : NodeId) :
    (other.claim port leaf).outline = (one.claim port leaf').outline := by
  have hclaim (claims : Claims) (leaf : NodeId) : (claims.claim port leaf).outline =
      claims.outline.modify port.index fun (name, direction, _) => (name, direction, false) := by
    apply List.ext_getElem?
    intro index
    simp only [outline, claim, setOwner, Arena.toList, Arena.modify, List.getElem?_map,
      Array.getElem?_toList, Array.getElem?_modify, List.getElem?_modify]
    split <;> simp [Function.comp_def, PortClaim.outline]
  rw [hclaim, hclaim, h]

end Claims

namespace Match

variable {one other : Claims}

theorem bindLeaf_of_outline (h : other.outline = one.outline) (first second : NodeId)
    (name : String) (leaf : NodeState) :
    (∃ cause, bindLeaf first name leaf one = .error cause ∧
        bindLeaf second name leaf other = .error cause) ∨
      ∃ bound port, bindLeaf first name leaf one = .ok (bound, one.claim port first) ∧
        bindLeaf second name leaf other = .ok (bound, other.claim port second) := by
  have hfound : other.findUnclaimed name = one.findUnclaimed name := by
    rw [Claims.findUnclaimed_eq, Claims.findUnclaimed_eq, h]
  have hdirection (port : PortId) : (other.ports.get? port).map PortClaim.direction =
      (one.ports.get? port).map PortClaim.direction := by
    have hport := congrArg (fun outline => outline[port.index]?.map (·.2.1)) h
    simp only [Claims.getElem?_outline, Option.map_map] at hport
    exact hport
  simp only [bindLeaf, hfound, hdirection]
  split
  · exact .inl ⟨_, rfl, rfl⟩
  · exact .inr ⟨_, _, rfl, rfl⟩
  · exact .inl ⟨_, rfl, rfl⟩

-- Who holds the ports that are not free and how the nodes are numbered does not
-- matter to a match.
theorem members_of_outline (first second : Nat) (stem : String) (forest : Forest NodeState)
    (h : other.outline = one.outline) :
    (members second stem forest other).agreed = (members first stem forest one).agreed ∧
      (members second stem forest other).claims.outline =
        (members first stem forest one).claims.outline ∧
      ∀ agreed, (members first stem forest one).agreed = .ok agreed →
        (members second stem forest other).nodes = (members first stem forest one).nodes := by
  induction forest generalizing first second stem one other with
  | nil => exact ⟨rfl, h, fun _ _ => rfl⟩
  | cons name state inner rest ihi ihr =>
      cases inner with
      | nil =>
          simp only [members]
          obtain ⟨cause, hone, hother⟩ | ⟨bound, port, hone, hother⟩ :=
            bindLeaf_of_outline h ⟨first⟩ ⟨second⟩ (stem ++ name) state
          · simp only [hone, hother]
            exact ⟨trivial, h, fun _ _ => trivial⟩
          · obtain ⟨hagreed, hclaims, hnodes⟩ :=
              ihr (first + 1) (second + 1) stem (Claims.outline_claim h port ⟨second⟩ ⟨first⟩)
            simp only [hone, hother, Attempt.after, hagreed]
            refine ⟨trivial, hclaims, fun agreed hok => ?_⟩
            obtain ⟨others, hothers, -⟩ := map_eq_ok.mp hok
            rw [hnodes others hothers]
      | cons name' item below beside =>
          obtain ⟨hagreed, hclaims, hnodes⟩ := ihi (first + 1) (second + 1) (stem ++ name) h
          obtain ⟨made, hmade⟩ :=
            members_grown (first + 1) (stem ++ name) (.cons name' item below beside) one
          obtain ⟨made', hmade'⟩ :=
            members_grown (second + 1) (stem ++ name) (.cons name' item below beside) other
          simp only [members, hagreed]
          split
          · simp only [Attempt.undo, hmade.rollback_eq, hmade'.rollback_eq]
            refine ⟨trivial, h, fun agreed hok => ?_⟩
            cases hok
          · rename_i side hside
            obtain ⟨within, hwithin, -⟩ := bind_eq_ok.mp hside
            obtain ⟨hagreed', hclaims', hnodes'⟩ :=
              ihr (first + 1 + (Forest.cons name' item below beside).size)
                (second + 1 + (Forest.cons name' item below beside).size) stem hclaims
            simp only [Attempt.after, hagreed', hnodes within hwithin]
            refine ⟨trivial, hclaims', fun agreed hok => ?_⟩
            obtain ⟨others, hothers, -⟩ := map_eq_ok.mp hok
            rw [hnodes' others hothers]

end Match

-- Only leaves have ports.
def Forest.Bare : Forest NodeState → Prop
  | .nil => True
  | .cons _ state inner rest => (inner ≠ .nil → state.port = none) ∧ inner.Bare ∧ rest.Bare

theorem Forest.Bare.append {front back : Forest NodeState} (hfront : front.Bare)
    (hback : back.Bare) : (front.append back).Bare := by
  induction front with
  | nil => exact hback
  | cons name state inner rest _ ih => exact ⟨hfront.1, hfront.2.1, ih hfront.2.2⟩

theorem Forest.bare_of_unbound {forest : Forest NodeState} (h : forest.All (·.port = none)) :
    forest.Bare := by
  induction forest with
  | nil => trivial
  | cons name state inner rest ihi ihr =>
      obtain ⟨hstate, hinner, hrest⟩ := h
      exact ⟨fun _ => hstate, ihi hinner, ihr hrest⟩

-- A match that succeeds gives ports to leaves only.
theorem Match.Matched.bare {id : Nat} {stem : String} {forest later : Forest NodeState}
    {claims last : Claims} {agreed : List Bool}
    (h : Matched id stem forest claims agreed later last) (hbare : forest.Bare) : later.Bare := by
  induction h with
  | nil id stem claims => trivial
  | leaf hfound hbound hrest ih => exact ⟨fun hne => absurd rfl hne, trivial, ih hbare.2.2⟩
  | nested hinner hside hrest ihi ihr =>
      exact ⟨fun _ => hbare.1 (by simp), ihi hbare.2.1, ihr hbare.2.2⟩

-- What an attempt at a fresh instance adds under a name: the instance, if it fits.
def Match.Attempt.tree (attempt : Attempt) (name : String) : Forest NodeState :=
  match attempt.agreed, attempt.nodes with
  | .ok _, .cons _ root members _ => .cons name root members .nil
  | _, _ => .nil

namespace Synthesizer

-- What an extraction came to: trees behind those there were, named as they were
-- found, whose leaves hold what was claimed for them.
structure Extracts (synth : Synthesizer) (claims : Claims)
    (result : List (String × NodeId) × Synthesizer × Claims) (added : Forest NodeState) :
    Prop where
  nodes : result.2.1 = { synth with nodes := synth.nodes.append added }
  found : result.1 = added.roots synth.size
  bare : added.Bare
  grown : ∃ made, claims.Grown made result.2.2 ∧ (added.bindings synth.size).Perm made

namespace Extracts

variable {synth next last : Synthesizer} {claims now later : Claims}
  {found more : List (String × NodeId)} {added others : Forest NodeState}

theorem refl (synth : Synthesizer) (claims : Claims) :
    Extracts synth claims ([], synth, claims) .nil := by
  refine ⟨?_, rfl, trivial, [], .none, .refl _⟩
  rw [append_nil]

theorem trans (h : Extracts synth claims (found, next, now) added)
    (hnext : Extracts next now (more, last, later) others) :
    Extracts synth claims (found ++ more, last, later) (added.append others) := by
  obtain ⟨rfl, rfl, hbare, made, hmade, hperm⟩ := h
  obtain ⟨rfl, rfl, hbareMore, madeMore, hmadeMore, hpermMore⟩ := hnext
  have hsize : (synth.nodes.append added).size = synth.size + added.size := size_append ..
  simp only [size, hsize] at hmadeMore hpermMore ⊢
  refine ⟨?_, ?_, hbare.append hbareMore, madeMore ++ made, hmade.trans hmadeMore, ?_⟩
  · rw [append_assoc]
  · rw [roots_append]
    rfl
  · rw [bindings_append]
    exact (hperm.append hpermMore).trans List.perm_append_comm

end Extracts

variable {synth : Synthesizer} {template : Template} {first candidate : String} {claims : Claims}
  {port : PortId}

theorem extracts_fresh (hcandidate : claims.candidate? port first = some candidate) :
    Extracts synth claims
      ((synth.tryPort template first claims port).1.toList,
        (synth.tryPort template first claims port).2)
      ((Match.fresh template true none [] ⟨synth.size⟩ candidate claims).tree
        (synth.instanceName candidate)) := by
  obtain ⟨bound, below, made, hnodes, hsize, hmade, hperm⟩ := Match.node_binds ⟨synth.size⟩
    candidate claims (bindingsBelow_instantiate template true none [] synth.size)
  have hbare : (Forest.cons "" (template.instantiate true none []).1
      (template.instantiate true none []).2 .nil).Bare := by
    refine bare_of_unbound ⟨rfl, ?_, trivial⟩
    rw [Template.instantiate, all_map]
    exact all_of_forall (fun _ => rfl) _
  simp only [Match.fresh, tryPort, hcandidate]
  generalize hattempt : Match.node ⟨synth.size⟩ candidate _ _ claims = attempt at *
  cases hagreed : attempt.agreed with
  | error cause =>
      have hclaims := Match.claims_node_of_error (hattempt.symm ▸ hagreed)
      rw [hattempt] at hclaims
      simp only [Match.Attempt.tree, hagreed, hclaims]
      exact .refl synth claims
  | ok agreed =>
      have hbound := (Match.matched_of_agreed (hattempt.symm ▸ hagreed)).bare hbare
      simp only [Match.node] at hattempt
      rw [hattempt, hnodes] at hbound
      simp only [Match.Attempt.tree, hagreed, hnodes]
      refine ⟨rfl, rfl, hbound, made, hmade, ?_⟩
      simpa only [bindings, bindingsBelow, List.append_nil] using hperm

-- Two synthesizers of one separator find the same among ports of one outline: the
-- same trees under the same names.
theorem extracts_tryPort (synth : Synthesizer) (template : Template) (first : String)
    (claims : Claims) (port : PortId) :
    ∃ added, ∀ (other : Synthesizer) (others : Claims), other.separator = synth.separator →
      others.outline = claims.outline →
        Extracts other others
          ((other.tryPort template first others port).1.toList,
            (other.tryPort template first others port).2) added ∧
        (other.tryPort template first others port).2.2.outline =
          (synth.tryPort template first claims port).2.2.outline := by
  cases hcandidate : claims.candidate? port first with
  | none =>
      refine ⟨.nil, fun other others _ houtline => ?_⟩
      simp only [tryPort, Claims.candidate?_of_outline houtline, hcandidate]
      exact ⟨.refl other others, houtline⟩
  | some candidate =>
      refine ⟨(Match.fresh template true none [] ⟨synth.size⟩ candidate claims).tree
        (synth.instanceName candidate), fun other others hseparator houtline => ?_⟩
      have hcandidate' := (Claims.candidate?_of_outline houtline port first).trans hcandidate
      have hname : other.instanceName candidate = synth.instanceName candidate := by
        simp only [instanceName, hseparator]
      obtain ⟨hagreed, hclaims, hnodes⟩ := Match.members_of_outline synth.size other.size candidate
        (.cons "" (template.instantiate true none []).1 (template.instantiate true none []).2 .nil)
        houtline
      have htree : (Match.fresh template true none [] ⟨other.size⟩ candidate others).tree =
          (Match.fresh template true none [] ⟨synth.size⟩ candidate claims).tree := by
        funext name
        simp only [Match.fresh, Match.node, Match.Attempt.tree, hagreed]
        cases hok : (Match.members synth.size candidate _ claims).agreed with
        | error cause => rfl
        | ok agreed => rw [hnodes agreed hok]
      rw [claims_tryPort hcandidate, claims_tryPort hcandidate', ← htree, ← hname]
      exact ⟨extracts_fresh hcandidate', hclaims⟩

theorem extracts_tryPorts (synth : Synthesizer) (template : Template) (first : String)
    (claims : Claims) (ports : List PortId) :
    ∃ added, ∀ (other : Synthesizer) (others : Claims), other.separator = synth.separator →
      others.outline = claims.outline →
        Extracts other others (other.tryPorts template first others ports) added := by
  induction ports generalizing synth claims with
  | nil => exact ⟨.nil, fun other others _ _ => .refl other others⟩
  | cons port rest ih =>
      obtain ⟨added, hadded⟩ := extracts_tryPort synth template first claims port
      obtain ⟨more, hmore⟩ := ih (synth.tryPort template first claims port).2.1
        (synth.tryPort template first claims port).2.2
      refine ⟨added.append more, fun other others hseparator houtline => ?_⟩
      obtain ⟨hfirst, hnext⟩ := hadded other others hseparator houtline
      obtain ⟨hself, -⟩ := hadded synth claims rfl rfl
      refine hfirst.trans (hmore _ _ ?_ hnext)
      rw [hfirst.nodes, hself.nodes]
      exact hseparator

-- An extraction that succeeds does so again when the same ports are free, and adds the
-- same trees.
theorem extracts_extractAll {synth next : Synthesizer} {claims now : Claims}
    {cls : InterfaceClass} {found : List (String × NodeId)}
    (h : synth.extractAll cls claims = (.ok found, next, now)) :
    ∃ added, Extracts (synth.template cls).2 claims (found, next, now) added ∧
      ∀ (later : Synthesizer) (others : Claims), later.separator = next.separator →
        later.registry = next.registry → others.outline = claims.outline →
        ∃ again last now', later.extractAll cls others = (.ok again, last, now') ∧
          Extracts later others (again, last, now') added := by
  simp only [extractAll] at h
  split at h
  · cases h
  · rename_i first hfirst
    obtain ⟨added, hadded⟩ := extracts_tryPorts (synth.template cls).2 (synth.template cls).1 first
      claims (claims.ports.entries.map (·.1))
    have hself := hadded _ claims rfl rfl
    obtain ⟨hfound, hrest⟩ := Prod.mk.inj h
    obtain ⟨hnext, hnow⟩ := Prod.mk.inj hrest
    have hresult : (found, next, now) =
        (synth.template cls).2.tryPorts (synth.template cls).1 first claims
          (claims.ports.entries.map (·.1)) :=
      Prod.ext (Except.ok.inj hfound).symm (Prod.ext hnext.symm hnow.symm)
    refine ⟨added, hresult ▸ hself, fun later others hseparator hregistry houtline => ?_⟩
    have hsame : next = { (synth.template cls).2 with
        nodes := (synth.template cls).2.nodes.append added } := hnext.symm.trans hself.nodes
    have hlater : later.template cls = ((synth.template cls).1, later) := by
      refine template_of_registry_eq ?_
      rw [hregistry, hsame]
    simp only [extractAll, hlater, hfirst]
    refine ⟨_, _, _, rfl, ?_⟩
    rw [Claims.ids_of_outline houtline]
    refine hadded later others ?_ houtline
    rw [hseparator, hsame]

end Synthesizer

end Rtl
