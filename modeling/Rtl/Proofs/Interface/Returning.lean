import Rtl.Proofs.Interface.Standing
import Rtl.Proofs.Interface.Tidiness

namespace Rtl

open Forest

namespace Forest

variable {front other added : Forest NodeState}

theorem size_append_tree (front : Forest NodeState) (name : String) (state : NodeState)
    (inner : Forest NodeState) :
    (front.append (cons name state inner nil)).size = front.size + 1 + inner.size := by
  simp only [size_append, size]
  omega

theorem append_cons (front : Forest NodeState) (name : String) (state : NodeState)
    (inner rest : Forest NodeState) :
    front.append (cons name state inner rest) =
      (front.append (cons name state inner nil)).append rest := by
  rw [append_assoc]
  rfl

-- The trees of the outermost level stand at their roots, whatever is in front of them.
theorem forall₂_roots (front other added : Forest NodeState) :
    List.Forall₂ (fun one two => one.1 = two.1 ∧ ∃ spot,
        (front.append added).spot? one.2.index = some spot ∧
        (other.append added).spot? two.2.index = some spot ∧
        spot.above = [] ∧ (added.Bare → spot.tree.Bare))
      (added.roots front.size) (added.roots other.size) := by
  induction added generalizing front other with
  | nil => exact .nil
  | cons name state inner rest _ ih =>
      have hrest := ih (front.append (cons name state inner nil))
        (other.append (cons name state inner nil))
      simp only [size_append_tree, ← append_cons] at hrest
      refine .cons ⟨rfl, ⟨[], name, state, inner⟩, ?_, ?_, rfl, ?_⟩ ?_
      · exact spot?_append front (cons name state inner rest) 0
      · exact spot?_append other (cons name state inner rest) 0
      · exact fun hbare => ⟨hbare.1, hbare.2.1, trivial⟩
      · refine hrest.imp ?_
        rintro one two ⟨hname, spot, hone, htwo, habove, hbare⟩
        exact ⟨hname, spot, hone, htwo, habove, fun h => hbare h.2.2⟩

theorem le_of_mem_roots {first : Nat} {root : String × NodeId} (h : root ∈ added.roots first) :
    first ≤ root.2.index := by
  induction added generalizing first with
  | nil => cases h
  | cons name state inner rest _ ih =>
      obtain rfl | h := List.mem_cons.mp h
      · exact Nat.le_refl _
      · have := ih h
        omega

theorem nodup_roots (first : Nat) (added : Forest NodeState) :
    ((added.roots first).map (·.2)).Nodup := by
  induction added generalizing first with
  | nil => exact List.nodup_nil
  | cons name state inner rest _ ih =>
      refine List.nodup_cons.mpr ⟨fun hmem => ?_, ih _⟩
      obtain ⟨root, hroot, heq⟩ := List.mem_map.mp hmem
      have hle := le_of_mem_roots hroot
      have hindex := congrArg Id.index heq
      simp only at hindex
      omega

-- The ports that the leaves at and below a node have, with the leaves.
def portsAt (forest : Forest NodeState) (id : NodeId) : List (PortId × NodeId) :=
  ((forest.spot? id.index).map fun spot => spot.tree.bindings id.index).getD []

theorem flatMap_portsAt (front added : Forest NodeState) :
    ((added.roots front.size).map (·.2)).flatMap (front.append added).portsAt =
      added.bindings front.size := by
  induction added generalizing front with
  | nil => rfl
  | cons name state inner rest _ ih =>
      have hfirst : (front.append (cons name state inner rest)).portsAt ⟨front.size⟩ =
          held front.size state inner ++ inner.bindings (front.size + 1) := by
        have hspot := spot?_append front (cons name state inner rest) 0
        rw [Nat.add_zero] at hspot
        simp only [portsAt, hspot, spot?, if_true, Option.map_some, Option.getD_some, Spot.tree,
          bindings, List.append_nil]
      have hrest := ih (front.append (cons name state inner nil))
      rw [size_append_tree, ← append_cons] at hrest
      rw [bindings, ← hrest, ← hfirst]
      rfl

end Forest

namespace Synthesizer

-- Leaves that own their ports give up all of them.
theorem releaseAll_of_owned {id : Nat} {forest : Forest NodeState} {claims : Claims}
    (hbare : forest.Bare) (hnodup : ((forest.bindings id).map (·.1)).Nodup)
    (howned : ∀ entry ∈ forest.bindings id, claims.owner? entry.1 = some entry.2) :
    releaseAll id forest claims = claims.releaseEach ((forest.bindings id).map (·.1)) := by
  induction forest generalizing id claims with
  | nil => rfl
  | cons name state inner rest ihi ihr =>
      obtain ⟨hstate, hinner, hrest⟩ := hbare
      simp only [bindings, List.map_append] at hnodup
      simp only [bindings, List.forall_mem_append] at howned
      obtain ⟨⟨hheld, hbelow⟩, hbeside⟩ := howned
      obtain ⟨hfront, hnodupRest, hapart⟩ := List.nodup_append'.mp hnodup
      obtain ⟨-, hnodupInner, hapartInner⟩ := List.nodup_append'.mp hfront
      have hport : releasePort ⟨id⟩ state claims =
          claims.releaseEach ((held id state inner).map (·.1)) := by
        cases inner with
        | nil =>
            cases hfound : state.port with
            | none =>
                simp only [releasePort, held, hfound]
                rfl
            | some port =>
                have howner : claims.owner? port = some ⟨id⟩ := by
                  simpa [held, hfound] using hheld
                simp only [releasePort, held, hfound, howner, if_true]
                rfl
        | cons =>
            simp only [releasePort, hstate (by simp)]
            rfl
      -- What is still to be given up is of other ports than those given up so far.
      have howner {released : List PortId} {entries : List (PortId × NodeId)}
          (hentries : ∀ entry ∈ entries, claims.owner? entry.1 = some entry.2)
          (hdisjoint : List.Disjoint released (entries.map (·.1))) :
          ∀ entry ∈ entries, (claims.releaseEach released).owner? entry.1 = some entry.2 := by
        intro entry hentry
        rw [Claims.owner?_releaseEach,
          if_neg fun hmem => hdisjoint hmem (List.mem_map_of_mem hentry), hentries entry hentry]
      have hwithin := ihi hinner hnodupInner (howner hbelow hapartInner)
      rw [← Claims.releaseEach_append] at hwithin
      rw [releaseAll, hport, hwithin, ihr hrest hnodupRest (howner hbeside hapart),
        ← Claims.releaseEach_append, bindings, List.map_append, List.map_append]

end Synthesizer

namespace Workbench

-- Some roots gave up all the ports of their leaves. The other roots stayed as they were.
structure Freed (bench : Workbench) (order : List NodeId) (last : Workbench) : Prop where
  claims : last.claims =
    bench.claims.releaseEach ((order.flatMap bench.synth.nodes.portsAt).map (·.1))
  synth : last.synth = { bench.synth with nodes := last.synth.nodes }
  cleared : ∀ root ∈ order, ∃ spot, last.synth.node? root = some spot ∧ spot.above = [] ∧
    spot.tree.All (·.port = none)
  kept : ∀ other elsewhere, other ∉ order → bench.synth.node? other = some elsewhere →
    elsewhere.above = [] → last.synth.node? other = some elsewhere

namespace Freed

variable {bench next last : Workbench} {order more : List NodeId}

theorem nil (bench : Workbench) : Freed bench [] bench :=
  ⟨rfl, rfl, nofun, fun _ _ _ helsewhere _ => helsewhere⟩

-- So have the others the ports that they had.
theorem flatMap_portsAt_eq (h : Freed bench order next) (hapart : ∀ other ∈ more, other ∉ order)
    (hroots : ∀ other ∈ more, ∃ spot, bench.synth.node? other = some spot ∧ spot.above = []) :
    more.flatMap next.synth.nodes.portsAt = more.flatMap bench.synth.nodes.portsAt := by
  refine List.flatMap_congr fun other hother => ?_
  obtain ⟨spot, hspot, habove⟩ := hroots other hother
  have hbefore : bench.synth.nodes.spot? other.index = some spot := hspot
  have hafter : next.synth.nodes.spot? other.index = some spot :=
    h.kept other spot (hapart other hother) hspot habove
  rw [portsAt, portsAt, hbefore, hafter]

theorem append (h : Freed bench order next) (hmore : Freed next more last)
    (hapart : ∀ other ∈ more, other ∉ order)
    (hroots : ∀ other ∈ more, ∃ spot, bench.synth.node? other = some spot ∧ spot.above = []) :
    Freed bench (order ++ more) last where
  claims := by
    rw [hmore.claims, h.flatMap_portsAt_eq hapart hroots, h.claims, ← Claims.releaseEach_append,
      List.flatMap_append, List.map_append]
  synth := by rw [hmore.synth, h.synth]
  cleared root hroot := by
    rcases List.mem_append.mp hroot with hroot | hroot
    · obtain ⟨spot, hspot, habove, hunbound⟩ := h.cleared root hroot
      have hnot : root ∉ more := fun hmem => hapart root hmem hroot
      exact ⟨spot, hmore.kept root spot hnot hspot habove, habove, hunbound⟩
    · exact hmore.cleared root hroot
  kept other elsewhere hother helsewhere habove := by
    rw [List.mem_append, not_or] at hother
    have hnext := h.kept other elsewhere hother.1 helsewhere habove
    exact hmore.kept other elsewhere hother.2 hnext habove

end Freed

-- A root whose leaves own their ports gives up all of them.
theorem exists_perform?_unExtract {bench : Workbench} {root : NodeId} {spot : Spot NodeState}
    (hspot : bench.synth.node? root = some spot) (habove : spot.above = [])
    (hbare : spot.tree.Bare)
    (hnodup : ((bench.synth.nodes.portsAt root).map (·.1)).Nodup)
    (howned : ∀ entry ∈ bench.synth.nodes.portsAt root,
      bench.claims.owner? entry.1 = some entry.2) :
    ∃ next, bench.perform? (.unExtract root) = some next ∧ Freed bench [root] next := by
  obtain ⟨above, name, item, inner⟩ := spot
  simp only at habove
  subst habove
  have hat : bench.synth.nodes.portsAt root =
      (Spot.tree ⟨[], name, item, inner⟩).bindings root.index := by
    have hfound : bench.synth.nodes.spot? root.index = some ⟨[], name, item, inner⟩ := hspot
    simp only [portsAt, hfound, Option.map_some, Option.getD_some]
  refine ⟨_, if_pos (by rw [hspot]; rfl), ?_, ?_, ?_, ?_⟩
  · rw [List.flatMap_singleton, hat,
      ← Synthesizer.releaseAll_of_owned hbare (hat ▸ hnodup) (hat ▸ howned)]
    simp only [hspot]
    rfl
  · simp only [hspot, Synthesizer.update]
  · intro other hother
    obtain rfl := List.mem_singleton.mp hother
    refine ⟨⟨[], name, Synthesizer.unboundState item, inner.map Synthesizer.unboundState⟩, ?_, rfl,
      rfl, ?_, trivial⟩
    · simp only [hspot]
      exact spot?_update_self hspot
    · rw [all_map]
      exact all_of_forall (fun _ => rfl) _
  · intro other elsewhere hother helsewhere habove
    have hindex : root.index ≠ other.index := fun heq =>
      hother (List.mem_singleton.mpr (Id.index_injective heq).symm)
    simp only [hspot]
    exact spot?_update_of_ne hindex hspot rfl helsewhere habove (size_map ..)

-- Roots give up their ports one after the other, each those it still owns.
theorem exists_performAll?_unExtract {order : List NodeId} {bench : Workbench}
    (hroots : ∀ root ∈ order, ∃ spot, bench.synth.node? root = some spot ∧ spot.above = [] ∧
      spot.tree.Bare)
    (hnodup : order.Nodup)
    (hports : ((order.flatMap bench.synth.nodes.portsAt).map (·.1)).Nodup)
    (howned : ∀ entry ∈ order.flatMap bench.synth.nodes.portsAt,
      bench.claims.owner? entry.1 = some entry.2) :
    ∃ last, bench.performAll? (order.map .unExtract) = some last ∧ Freed bench order last := by
  induction order generalizing bench with
  | nil => exact ⟨bench, rfl, .nil bench⟩
  | cons root rest ih =>
      obtain ⟨⟨spot, hspot, habove, hbare⟩, hothers⟩ := List.forall_mem_cons.mp hroots
      obtain ⟨hnot, hnodupRest⟩ := List.nodup_cons.mp hnodup
      rw [List.flatMap_cons, List.map_append] at hports
      rw [List.flatMap_cons, List.forall_mem_append] at howned
      obtain ⟨hnodupRoot, hportsRest, hdisjoint⟩ := List.nodup_append'.mp hports
      obtain ⟨next, hnext, hfreed⟩ :=
        exists_perform?_unExtract hspot habove hbare hnodupRoot howned.1
      have hapart : ∀ other ∈ rest, other ∉ [root] := fun other hother hmem =>
        hnot (List.mem_singleton.mp hmem ▸ hother)
      have hstand : ∀ other ∈ rest, ∃ spot, bench.synth.node? other = some spot ∧
          spot.above = [] := fun other hother => (hothers other hother).imp fun _ h => ⟨h.1, h.2.1⟩
      have hsame := hfreed.flatMap_portsAt_eq hapart hstand
      have howner : ∀ entry ∈ rest.flatMap next.synth.nodes.portsAt,
          next.claims.owner? entry.1 = some entry.2 := by
        intro entry hentry
        rw [hsame] at hentry
        rw [hfreed.claims, List.flatMap_singleton, Claims.owner?_releaseEach,
          if_neg fun hmem => hdisjoint hmem (List.mem_map_of_mem hentry), howned.2 entry hentry]
      obtain ⟨last, hlast, hlater⟩ := ih
        (fun other hother => by
          obtain ⟨spot, hspot, habove, hbare⟩ := hothers other hother
          exact ⟨spot, hfreed.kept other spot (hapart other hother) hspot habove, habove, hbare⟩)
        hnodupRest (hsame ▸ hportsRest) howner
      refine ⟨last, ?_, hfreed.append hlater hapart hstand⟩
      rw [performAll?, List.map_cons, List.foldlM_cons, hnext]
      exact hlast

-- All that an extraction found can be taken back. The table is then as before, but that the
-- log has no entries of ports that were found.
theorem exists_freed_of_extracts {synth : Synthesizer} {claims : Claims} {extracted : Workbench}
    {found : List (String × NodeId)} {added : Forest NodeState} {order : List NodeId}
    (h : synth.Extracts claims (found, extracted.synth, extracted.claims) added)
    (horder : order.Perm (found.map (·.2))) :
    ∃ freed, extracted.performAll? (order.map .unExtract) = some freed ∧
      Freed extracted order freed ∧ freed.claims = { claims with
        log := claims.log.filter fun entry =>
          extracted.claims.owner? entry.1 = claims.owner? entry.1 } := by
  have hnodes : extracted.synth.nodes = synth.nodes.append added :=
    congrArg Synthesizer.nodes h.nodes
  have hroots : found = added.roots synth.nodes.size := h.found
  rw [hroots] at horder
  obtain ⟨made, hmade, hperm⟩ := h.grown
  have hports : (order.flatMap extracted.synth.nodes.portsAt).Perm made := by
    refine (horder.flatMap_right _).trans ?_
    rw [hnodes, flatMap_portsAt]
    exact hperm
  have hstand : ∀ root ∈ order, ∃ spot, extracted.synth.node? root = some spot ∧
      spot.above = [] ∧ spot.tree.Bare := by
    intro root hroot
    obtain ⟨entry, hentry, rfl⟩ := List.mem_map.mp (horder.mem_iff.mp hroot)
    obtain ⟨other, -, -, spot, -, hspot, habove, hbare⟩ := exists_mem_of_forall₂
      (forall₂_roots synth.nodes synth.nodes added) hentry
    rw [← hnodes] at hspot
    exact ⟨spot, hspot, habove, hbare h.bare⟩
  obtain ⟨freed, hfreed, hlast⟩ := exists_performAll?_unExtract hstand
    (horder.nodup_iff.mpr (nodup_roots _ _)) ((hports.map _).nodup_iff.mpr hmade.nodup_ports)
    (fun entry hentry => hmade.owner?_eq_some_iff.mpr (.inr (hports.mem_iff.mp hentry)))
  exact ⟨freed, hfreed, hlast, hlast.claims.trans (hmade.releaseEach_eq (hports.map _))⟩

-- Taking back everything that an extraction found, in whatever order, leaves every port
-- with the owner that it had before and no leaf with a port. The log has the entries that
-- it had before but for those of ports that were found, which are all of it unless a port
-- that was held was claimed again. Then the same extraction finds the same again:
-- instances of the same names that are the same at every node, so bound to the same ports.
theorem extract_unExtract_extract {bench extracted : Workbench} {cls : InterfaceClass}
    {found : List (String × NodeId)} (hfound : bench.extract cls = (.ok found, extracted))
    {order : List NodeId} (horder : order.Perm (found.map (·.2))) :
    ∃ freed, extracted.performAll? (order.map .unExtract) = some freed ∧
      freed.claims = { bench.claims with
        log := bench.claims.log.filter fun entry =>
          extracted.claims.owner? entry.1 = bench.claims.owner? entry.1 } ∧
      (bench.Reached false → freed.claims = bench.claims) ∧
      (∀ root ∈ order, ∃ spot, freed.synth.node? root = some spot ∧
        spot.tree.All (·.port = none)) ∧
      ∃ again last, freed.extract cls = (.ok again, last) ∧
        List.Forall₂ (fun one two => one.1 = two.1 ∧ ∃ spot,
          extracted.synth.node? one.2 = some spot ∧ last.synth.node? two.2 = some spot)
          found again := by
  have hextract : bench.synth.extractAll cls bench.claims =
      (.ok found, extracted.synth, extracted.claims) :=
    congrArg (fun result => (result.1, result.2.synth, result.2.claims)) hfound
  obtain ⟨added, hadded, hagain⟩ := Synthesizer.extracts_extractAll hextract
  obtain ⟨freed, hfreed, ⟨-, hsynth, hcleared, -⟩, hback⟩ := exists_freed_of_extracts hadded horder
  have houtline : freed.claims.outline = bench.claims.outline := by
    rw [hback]
    rfl
  obtain ⟨again, last, now, hlast, hlater⟩ :=
    hagain freed.synth freed.claims (by rw [hsynth]) (by rw [hsynth]) houtline
  refine ⟨freed, hfreed, hback, fun h => ?_, fun root hroot => ?_, again,
    { freed with synth := last, claims := now }, ?_, ?_⟩
  · obtain ⟨made, hmade, -⟩ := hadded.grown
    rw [hback, hmade.filter_log_of_tidy h.tidy]
  · obtain ⟨spot, hspot, -, hunbound⟩ := hcleared root hroot
    exact ⟨spot, hspot, hunbound⟩
  · rw [Workbench.extract, hlast]
  · have hnodes : extracted.synth.nodes = bench.synth.nodes.append added :=
      congrArg Synthesizer.nodes hadded.nodes
    have hlastNodes : last.nodes = freed.synth.nodes.append added :=
      congrArg Synthesizer.nodes hlater.nodes
    have hroots : found = added.roots bench.synth.nodes.size := hadded.found
    have hagainRoots : again = added.roots freed.synth.nodes.size := hlater.found
    rw [hroots, hagainRoots]
    refine (forall₂_roots bench.synth.nodes freed.synth.nodes added).imp ?_
    rintro one two ⟨hname, spot, hone, htwo, -⟩
    refine ⟨hname, spot, ?_, ?_⟩
    · rw [Synthesizer.node?, hnodes, hone]
    · rw [Synthesizer.node?, hlastNodes, htwo]

-- Ports for two instances, those of the one between those of the other.
def interleaved : Workbench :=
  unclaimedPorts ⟨.empty, .empty, .ofEntity ⟨0⟩ (.ofName ⟨0⟩)⟩ "_"
    [("b_valid", .input), ("a_valid", .output), ("b_ready", .output), ("a_ready", .input)]

-- The instance that was found last gives its ports up first.
theorem extract_unExtract_extract_interleaved :
    interleaved.Reached false ∧
      (interleaved.extract handshake).1 = .ok [("b", ⟨0⟩), ("a", ⟨3⟩)] ∧
      ∃ freed, (interleaved.extract handshake).2.performAll? [.unExtract ⟨3⟩, .unExtract ⟨0⟩] =
          some freed ∧ freed.claims = interleaved.claims ∧
        ∃ again last, freed.extract handshake = (.ok again, last) ∧
          again.map (·.1) = ["b", "a"] := by
  have hreached : interleaved.Reached false := .fresh ..
  have hfound : (interleaved.extract handshake).1 = .ok [("b", ⟨0⟩), ("a", ⟨3⟩)] := by
    decide +kernel
  have hextract : interleaved.extract handshake =
      (.ok [("b", ⟨0⟩), ("a", ⟨3⟩)], (interleaved.extract handshake).2) := Prod.ext hfound rfl
  have horder : [(⟨3⟩ : NodeId), ⟨0⟩].Perm ([("b", ⟨0⟩), ("a", ⟨3⟩)].map (·.2)) :=
    List.Perm.swap ..
  obtain ⟨freed, hfreed, -, hclaims, -, again, last, hlast, hsame⟩ :=
    extract_unExtract_extract hextract horder
  have hnames : [("b", (⟨0⟩ : NodeId)), ("a", ⟨3⟩)].map (·.1) = again.map (·.1) :=
    List.forall₂_eq_eq_eq ▸ List.forall₂_map_left_iff.mpr
      (List.forall₂_map_right_iff.mpr (hsame.imp fun _ _ h => h.1))
  exact ⟨hreached, hfound, freed, hfreed, hclaims hreached, again, last, hlast, hnames.symm⟩

-- The ports of one instance, the first of them claimed twice from outside. The rollback
-- of the second claim frees it and leaves the entry of the first.
def reclaimed : Workbench :=
  let bench := unclaimedPorts ⟨.empty, .empty, .ofEntity ⟨0⟩ (.ofName ⟨0⟩)⟩ "_"
    [("m_valid", .output), ("m_ready", .input)]
  { bench with claims := ((bench.claims.claim ⟨0⟩ ⟨5⟩).claim ⟨0⟩ ⟨6⟩).rollback 1 }

-- The instance takes that entry with it when it gives its ports back.
theorem log_lost_reclaimed :
    reclaimed.Reached true ∧ reclaimed.claims.log = [(⟨0⟩, ⟨5⟩)] ∧
      (reclaimed.extract handshake).1 = .ok [("m", ⟨0⟩)] ∧
      ((reclaimed.extract handshake).2.performAll? [.unExtract ⟨0⟩]).map (·.claims.log) =
        some [] := by
  refine ⟨?_, rfl, by decide +kernel, by decide +kernel⟩
  have hfresh : (unclaimedPorts ⟨.empty, .empty, .ofEntity ⟨0⟩ (.ofName ⟨0⟩)⟩ "_"
      [("m_valid", .output), ("m_ready", .input)]).Reached true := .fresh ..
  have hfirst := @Reached.claim true _ ⟨0⟩ ⟨5⟩ _ hfresh (.inr rfl) rfl
  have hsecond := @Reached.claim true _ ⟨0⟩ ⟨6⟩ _ hfirst (.inr rfl) rfl
  exact hsecond.rollback (show Claims.rollback? _ 1 = some (_, _) from rfl)

end Workbench

end Rtl
