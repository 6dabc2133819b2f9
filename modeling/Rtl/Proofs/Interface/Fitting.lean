import Rtl.Proofs.Interface.Demands

namespace Rtl

open Claims

namespace Forest

variable {α : Type}

theorem mem_leaves_of_all {p : α → Prop} {forest : Forest α} (h : forest.All p)
    {path : List String} {leaf : List String × α} (hleaf : leaf ∈ forest.leaves path) :
    p leaf.2 := by
  induction forest generalizing path with
  | nil => cases hleaf
  | cons name item inner rest ihi ihr =>
      obtain ⟨hitem, hinner, hrest⟩ := h
      cases inner with
      | nil =>
          obtain rfl | hleaf := List.mem_cons.mp hleaf
          · exact hitem
          · exact ihr hrest hleaf
      | cons first below inside beside =>
          obtain hleaf | hleaf := List.mem_append.mp hleaf
          · exact ihi hinner hleaf
          · exact ihr hrest hleaf

theorem map_eq_nil_iff {β : Type} (f : α → β) {forest : Forest α} :
    forest.map f = nil ↔ forest = nil := by
  cases forest <;> simp [map]

theorem all_facing {forest : Forest Direction} (h : forest.All (· ≠ .inout)) (turned : Bool) :
    (forest.facing turned).All (· ≠ .inout) := by
  induction forest generalizing turned with
  | nil => trivial
  | cons name direction inner rest ihi ihr =>
      obtain ⟨hdirection, hinner, hrest⟩ := h
      refine ⟨?_, ihi hinner _, ihr hrest _⟩
      cases direction <;> cases turned <;> simp_all [Direction.facing, Direction.opposite]

-- Whichever way members are turned, the leaves are the same.
theorem leaves_facing (turned : Bool) (path : List String) (forest : Forest Direction) :
    ((forest.facing turned).leaves path).map (·.1) = (forest.leaves path).map (·.1) := by
  induction forest generalizing turned path with
  | nil => rfl
  | cons name direction inner rest ihi ihr =>
      cases inner with
      | nil => simp only [facing, leaves, List.map_cons, ihr]
      | cons first below inside beside =>
          have hinner := ihi (turned != (direction == .input)) (path ++ [name])
          simp only [facing] at hinner
          simp only [facing, leaves, List.map_append, hinner, ihr]

end Forest

namespace Claims

variable {claims : Claims}

theorem Grown.owner?_eq_some_iff {before now : Claims} {made : List (PortId × NodeId)}
    (h : before.Grown made now) {port : PortId} {node : NodeId} :
    now.owner? port = some node ↔ before.owner? port = some node ∨ (port, node) ∈ made := by
  induction h with
  | none => simp
  | @claim made now h other hfree leaf ih =>
      rw [List.mem_cons, or_left_comm, ← ih]
      have hclaim : (now.claim other leaf).owner? port =
          (now.setOwner other (some leaf)).owner? port := rfl
      by_cases hsame : other = port
      · subst hsame
        obtain ⟨entry, hentry, -⟩ := id hfree
        rw [hclaim, owner?_setOwner_self (Option.isSome_of_eq_some hentry), hfree.owner?]
        simp [eq_comm]
      · rw [hclaim, owner?_setOwner_of_ne hsame]
        simp [Ne.symm hsame]

theorem direction?_ne_inout (h : ∀ entry ∈ claims.ports.toList, entry.direction ≠ .inout)
    (port : PortId) : claims.direction? port ≠ some .inout := by
  intro hport
  obtain ⟨entry, hentry, hdirection⟩ := Option.map_eq_some_iff.mp hport
  exact h entry (Array.mem_toList_iff.mpr (Array.mem_of_getElem? hentry)) hdirection

-- Meeting a name says the same as its port having the direction, or its opposite.
theorem meets_iff {one : String × Direction} {agrees : Bool} (hone : one.2 ≠ .inout)
    (hports : ∀ port, claims.direction? port ≠ some .inout) :
    claims.Meets agrees one ↔ (∃! port, claims.Unclaimed port one.1) ∧
      ∀ port, claims.Unclaimed port one.1 →
        claims.direction? port = some (one.2.facing !agrees) := by
  have hfacing {port : PortId} (hport : claims.Unclaimed port one.1) :
      (claims.direction? port = some one.2 ↔ agrees = true) ↔
        claims.direction? port = some (one.2.facing !agrees) := by
    obtain ⟨entry, hentry, -⟩ := hport
    have hfound : claims.direction? port = some entry.direction := by
      rw [direction?, hentry, Option.map_some]
    have hdirection : entry.direction ≠ .inout := fun h => hports port (h ▸ hfound)
    rw [hfound, Option.some.injEq, Option.some.injEq]
    exact Direction.agrees_iff_eq_facing hdirection hone agrees
  constructor
  · rintro ⟨port, hfound, hagrees⟩
    have hiff := findUnclaimed_eq_singleton_iff.mp hfound
    have hport := (hiff port).mpr rfl
    refine ⟨⟨port, hport, fun other => (hiff other).mp⟩, fun other hother => ?_⟩
    obtain rfl := (hiff other).mp hother
    exact (hfacing hother).mp hagrees
  · rintro ⟨⟨port, hport, hunique⟩, hall⟩
    have hiff : ∀ other, claims.Unclaimed other one.1 ↔ other = port :=
      fun other => ⟨hunique other, fun h => h ▸ hport⟩
    exact ⟨port, findUnclaimed_eq_singleton_iff.mpr hiff, (hfacing hport).mpr (hall port hport)⟩

end Claims

namespace Template

variable {template : Template} {stem : String} {claims : Claims}

-- For every leaf there is just one unclaimed port of its name, the stem and the
-- member names that lead to it, and no two leaves have one name.
def Named (template : Template) (stem : String) (claims : Claims) : Prop :=
  (∀ leaf ∈ template.members.leaves [],
    ∃! port, claims.Unclaimed port (stem ++ String.join leaf.1)) ∧
  ((template.members.leaves []).map fun leaf => (stem ++ String.join leaf.1).toLower).Nodup

-- The port of every leaf has the master direction of the leaf, turned around once
-- for each nested member around it that has direction in, or once more than that.
def Faces (template : Template) (stem : String) (claims : Claims) (opposed : Bool) : Prop :=
  ∀ leaf ∈ ((template.members.map Shape.masterDirection).facing false).leaves [],
    ∀ port, claims.Unclaimed port (stem ++ String.join leaf.1) →
      claims.direction? port = some (leaf.2.facing opposed)

-- What members look for, said of the leaves of the template.
theorem meetsAll_iff (template : Template) (stem : String)
    (hdirected : template.members.All (·.masterDirection ≠ .inout))
    (hports : ∀ port, claims.direction? port ≠ some .inout) (agrees : Bool) :
    claims.MeetsAll agrees ((template.members.map Shape.masterDirection).demands stem false []) ↔
      template.Named stem claims ∧ template.Faces stem claims !agrees := by
  have hpaths : (((template.members.map Shape.masterDirection).facing false).leaves []).map (·.1) =
      (template.members.leaves []).map (·.1) := by
    rw [Forest.leaves_facing, Forest.leaves_map, List.map_map]
    rfl
  have hall := Forest.all_facing ((Forest.all_map Shape.masterDirection _).mpr hdirected) false
  have hnames (p : List String → Prop) : (∀ leaf ∈ template.members.leaves [], p leaf.1) ↔
      ∀ leaf ∈ ((template.members.map Shape.masterDirection).facing false).leaves [], p leaf.1 := by
    rw [← List.forall_mem_map (f := Prod.fst) (P := p), ← hpaths, List.forall_mem_map]
  have hnodup := congrArg (List.map fun path => (stem ++ String.join path).toLower) hpaths
  rw [List.map_map, List.map_map] at hnodup
  have hmeets : (∀ leaf ∈ ((template.members.map Shape.masterDirection).facing false).leaves [],
        claims.Meets agrees (stem ++ String.join leaf.1, leaf.2)) ↔
      ∀ leaf ∈ ((template.members.map Shape.masterDirection).facing false).leaves [],
        (∃! port, claims.Unclaimed port (stem ++ String.join leaf.1)) ∧
          ∀ port, claims.Unclaimed port (stem ++ String.join leaf.1) →
            claims.direction? port = some (leaf.2.facing !agrees) :=
    forall₂_congr fun leaf hleaf => meets_iff (Forest.mem_leaves_of_all hall hleaf) hports
  rw [MeetsAll, Named, Faces, Forest.demands, List.forall_mem_map, List.map_map,
    hnames fun path => ∃! port, claims.Unclaimed port (stem ++ String.join path), hmeets,
    forall₂_and, and_right_comm]
  exact and_congr_left fun _ => and_congr_right fun _ => iff_of_eq (congrArg List.Nodup hnodup)

end Template

namespace Match

variable {id : NodeId} {stem : String} {state : NodeState} {inner : Forest NodeState}
  {claims : Claims}

-- A node with members matches exactly if they agree as one, and takes their side.
theorem node_of_members (hinner : inner ≠ .nil) {side : Side} {agreed : List Bool}
    (h : (members (id.index + 1) stem inner claims).agreed = .ok agreed)
    (hside : ∀ other ∈ agreed, other = (side == .master)) :
    node id stem state inner claims =
      ⟨.ok [nestedAgrees side state.masterDirection],
        .cons "" { state with side } (members (id.index + 1) stem inner claims).nodes .nil,
        (members (id.index + 1) stem inner claims).claims⟩ := by
  cases inner with
  | nil => exact absurd rfl hinner
  | cons first item below beside =>
      have hsettled : settle stem agreed = .ok side :=
        (settle_eq_ok_iff (matched_of_agreed h).ne_nil).mpr hside
      simp only [node, members, String.append_empty, h, Except.bind, hsettled, Attempt.after,
        Except.map]

theorem members_of_node (hinner : inner ≠ .nil) {agreed : List Bool}
    (h : (node id stem state inner claims).agreed = .ok agreed) :
    ∃ (side : Side) (within : List Bool),
      (members (id.index + 1) stem inner claims).agreed = .ok within ∧
        ∀ other ∈ within, other = (side == .master) := by
  cases inner with
  | nil => exact absurd rfl hinner
  | cons first item below beside =>
      simp only [node, members, String.append_empty] at h
      split at h
      · cases h
      · rename_i side hside
        obtain ⟨within, hwithin, hsettle⟩ := bind_eq_ok.mp hside
        exact ⟨side, within, hwithin, eq_of_settle hsettle⟩

-- Every leaf of members that match has the one unclaimed port of its name.
theorem Matched.ports {id : Nat} {candidate : String} {path : List String}
    {forest later : Forest NodeState} {last : Claims} {agreed : List Bool}
    (h : Matched id (candidate ++ String.join path) forest claims agreed later last) :
    ∀ leaf ∈ later.leaves path, ∃ port, leaf.2.port = some port ∧
      claims.findUnclaimed (candidate ++ String.join leaf.1) = [port] := by
  generalize hstem : candidate ++ String.join path = stem at h
  induction h generalizing path with
  | nil id stem claims => exact nofun
  | @leaf id _ _ _ _ _ _ _ _ port _ hfound hbound hrest ih =>
      rw [← hstem, join_snoc] at hfound hbound
      refine List.forall_mem_cons.mpr ⟨⟨port, (port_of_bindLeaf hfound hbound).1, hfound⟩, ?_⟩
      intro leaf hleaf
      -- What has a single free port later had it before.
      obtain ⟨other, hother, hlater⟩ := ih hstem leaf hleaf
      exact ⟨other, hother, (Narrowed.claim hfound ⟨id⟩).findUnclaimed_eq_of_singleton hlater⟩
  | @nested id stem name _ _ _ _ _ _ _ _ _ _ _ _ _ _ _ _ hinner hside hrest ihi ihr =>
      have hbelow : candidate ++ String.join (path ++ [name]) = stem ++ name := by
        rw [← hstem, join_snoc]
      refine List.forall_mem_append.mpr ⟨ihi hbelow, fun leaf hleaf => ?_⟩
      obtain ⟨port, hport, hlater⟩ := ihr hstem leaf hleaf
      exact ⟨port, hport, hinner.narrowed.findUnclaimed_eq_of_singleton hlater⟩

end Match

namespace Synthesizer

open Forest

variable {synth : Synthesizer} {template : Template} {external : Bool} {source : Option NodeId}
  {destinations : List NodeId} {stem : String} {claims : Claims}

-- What the members of a fresh instance find when they are matched.
def fits (synth : Synthesizer) (template : Template) (stem : String) (claims : Claims) :
    Match.Attempt :=
  Match.members (synth.size + 1) stem (template.members.map NodeState.ofShape) claims

-- A fresh instance matches exactly if its members agree as one. It takes their
-- side, and what they found.
theorem matchByName_of_fits (external : Bool) (source : Option NodeId)
    (destinations : List NodeId) (hmembers : template.members ≠ .nil) {side : Side}
    {agreed : List Bool}
    (h : (synth.fits template stem claims).agreed = .ok agreed)
    (hside : ∀ other ∈ agreed, other = (side == .master)) :
    let made := synth.instantiate template external source destinations
    let matched := made.2.matchByName made.1 stem claims
    matched.1 = .ok made.1 ∧
      matched.2.1.node? made.1 = some ⟨[], template.className,
        { (template.instantiate external source destinations).1 with side },
        (synth.fits template stem claims).nodes⟩ ∧
      matched.2.2 = (synth.fits template stem claims).claims := by
  have hinner := (map_eq_nil_iff NodeState.ofShape).not.mpr hmembers
  have hnode := synth.node?_instantiate template external source destinations
  have hid : (synth.instantiate template external source destinations).1 = ⟨synth.size⟩ := rfl
  have hattempt : Match.node ⟨synth.size⟩ stem
      (template.instantiate external source destinations).1
      (template.instantiate external source destinations).2 claims = _ :=
    Match.node_of_members hinner h hside
  simp only [hid, matchByName, hnode, hattempt]
  exact ⟨trivial, spot?_update_self hnode, rfl⟩

theorem agreed_ne_nil_of_fits (hmembers : template.members ≠ .nil) {agreed : List Bool}
    (h : (synth.fits template stem claims).agreed = .ok agreed) : agreed ≠ [] := by
  rw [fits] at h
  cases hforest : template.members.map NodeState.ofShape with
  | nil => exact absurd ((map_eq_nil_iff NodeState.ofShape).mp hforest) hmembers
  | cons =>
      rw [hforest] at h
      exact (Match.matched_of_agreed h).ne_nil

-- A fresh instance keeps the names of its leaves.
theorem leaves_fits {side : Side} {agreed : List Bool}
    (h : (synth.fits template stem claims).agreed = .ok agreed)
    (hside : ∀ other ∈ agreed, other = (side == .master)) :
    ((synth.fits template stem claims).nodes.leaves []).map (·.1) =
      (template.members.leaves []).map (·.1) := by
  obtain ⟨-, hkept⟩ := (Match.matched_of_agreed h).sided hside
  have hleaves := congrArg (fun forest => (forest.leaves []).map (·.1)) hkept
  simp only [leaves_map, List.map_map] at hleaves
  exact hleaves

theorem ports_fits {agreed : List Bool}
    (h : (synth.fits template stem claims).agreed = .ok agreed) :
    ∀ leaf ∈ (synth.fits template stem claims).nodes.leaves [],
      ∃ port, leaf.2.port = some port ∧ claims.Unclaimed port (stem ++ String.join leaf.1) := by
  have hstem : stem ++ String.join [] = stem := String.append_empty
  intro leaf hleaf
  rw [fits, ← hstem] at h hleaf
  obtain ⟨port, hport, hfound⟩ := (Match.matched_of_agreed h).ports leaf hleaf
  exact ⟨port, hport, (findUnclaimed_eq_singleton_iff.mp hfound port).mpr rfl⟩

-- The claims made are the ports of the leaves.
theorem owner?_fits (port : PortId) (node : NodeId) :
    (synth.fits template stem claims).claims.owner? port = some node ↔
      claims.owner? port = some node ∨
        (port, node) ∈ (synth.fits template stem claims).nodes.bindings (synth.size + 1) := by
  obtain ⟨made, hmade, hperm⟩ := Match.members_binds (synth.size + 1) stem claims
    (bindings_map_of_unbound (f := NodeState.ofShape) (fun _ => rfl) (synth.size + 1)
      template.members)
  rw [fits, hmade.owner?_eq_some_iff, hperm.mem_iff]

theorem fits_of_matchByName (hmembers : template.members ≠ .nil)
    (h : let made := synth.instantiate template external source destinations
      (made.2.matchByName made.1 stem claims).1 = .ok made.1) :
    ∃ (side : Side) (agreed : List Bool), (synth.fits template stem claims).agreed = .ok agreed ∧
      ∀ other ∈ agreed, other = (side == .master) := by
  have hinner := (map_eq_nil_iff NodeState.ofShape).not.mpr hmembers
  have hnode := synth.node?_instantiate template external source destinations
  have hid : (synth.instantiate template external source destinations).1 = ⟨synth.size⟩ := rfl
  simp only [hid, matchByName, hnode] at h
  split at h
  · rename_i agreed hagreed
    exact Match.members_of_node hinner hagreed
  · cases h

-- The members agree as one exactly if the ports are there and their directions
-- are those of the leaves, or all the opposite.
theorem exists_fits_iff (hdirected : template.members.All (·.masterDirection ≠ .inout))
    (hports : ∀ port, claims.direction? port ≠ some .inout) (agrees : Bool) :
    (∃ agreed, (synth.fits template stem claims).agreed = .ok agreed ∧
        ∀ other ∈ agreed, other = agrees) ↔
      template.Named stem claims ∧ template.Faces stem claims !agrees := by
  have hforest := (Forest.all_map NodeState.ofShape (·.masterDirection ≠ .inout)).mpr hdirected
  have hdirections : (template.members.map NodeState.ofShape).map NodeState.masterDirection =
      template.members.map Shape.masterDirection := map_map ..
  have hstem : stem ++ String.join [] = stem := String.append_empty
  have hiff := template.meetsAll_iff stem hdirected hports agrees
  rw [← hiff, ← hdirections, ← Match.members_agreed_iff false agrees hforest hports, hstem,
    Bool.bne_false]
  rfl

-- Matching by name is exact: a fresh instance matches just if each leaf has one port
-- of its name to itself and all directions agree as one, and then it has the side
-- that they say, its leaves have these ports, and nothing else is claimed.
theorem matchByName_instantiate_iff (synth : Synthesizer) (external : Bool)
    (source : Option NodeId) (destinations : List NodeId) (stem : String)
    (hmembers : template.members ≠ .nil)
    (hdirected : template.members.All (·.masterDirection ≠ .inout))
    (hports : ∀ entry ∈ claims.ports.toList, entry.direction ≠ .inout) :
    let made := synth.instantiate template external source destinations
    let matched := made.2.matchByName made.1 stem claims
    (matched.1 = .ok made.1 ↔ template.Named stem claims ∧
      (template.Faces stem claims false ∨ template.Faces stem claims true)) ∧
    (matched.1 = .ok made.1 → ∃ root inner,
      matched.2.1.node? made.1 = some ⟨[], template.className, root, inner⟩ ∧
      (template.Faces stem claims false → root.side = .master) ∧
      (template.Faces stem claims true → root.side = .slave) ∧
      (inner.leaves []).map (·.1) = (template.members.leaves []).map (·.1) ∧
      (∀ leaf ∈ inner.leaves [], ∃ port, leaf.2.port = some port ∧
        claims.Unclaimed port (stem ++ String.join leaf.1)) ∧
      ∀ port node, matched.2.2.owner? port = some node ↔
        claims.owner? port = some node ∨ (port, node) ∈ inner.bindings (made.1.index + 1)) := by
  intro made matched
  have hports := direction?_ne_inout hports
  have hfits : matched.1 = .ok made.1 → ∃ (side : Side) (agreed : List Bool),
      (synth.fits template stem claims).agreed = .ok agreed ∧
        ∀ other ∈ agreed, other = (side == .master) := fits_of_matchByName hmembers
  have hmatches (side : Side) (hnamed : template.Named stem claims)
      (hfaces : template.Faces stem claims !(side == .master)) : matched.1 = .ok made.1 := by
    obtain ⟨agreed, hagreed, hside⟩ := (exists_fits_iff hdirected hports _).mpr ⟨hnamed, hfaces⟩
    exact (matchByName_of_fits external source destinations hmembers hagreed hside).1
  refine ⟨⟨fun h => ?_, ?_⟩, fun h => ?_⟩
  · obtain ⟨side, hside⟩ := hfits h
    obtain ⟨hnamed, hfaces⟩ := (exists_fits_iff hdirected hports _).mp hside
    cases side with
    | master => exact ⟨hnamed, .inl hfaces⟩
    | slave => exact ⟨hnamed, .inr hfaces⟩
  · rintro ⟨hnamed, hfaces | hfaces⟩
    · exact hmatches .master hnamed hfaces
    · exact hmatches .slave hnamed hfaces
  · obtain ⟨side, agreed, hagreed, hside⟩ := hfits h
    obtain ⟨-, hnode, hclaims⟩ :=
      matchByName_of_fits external source destinations hmembers hagreed hside
    obtain ⟨hnamed, -⟩ := (exists_fits_iff hdirected hports _).mp ⟨agreed, hagreed, hside⟩
    -- The directions of the ports decide the side, since there is a member.
    have hsides (agrees : Bool) (hfaces : template.Faces stem claims !agrees) :
        (side == .master) = agrees := by
      obtain ⟨_, hsame, hall⟩ := (exists_fits_iff hdirected hports agrees).mpr ⟨hnamed, hfaces⟩
      obtain rfl := Except.ok.inj (hagreed.symm.trans hsame)
      obtain ⟨first, rest, rfl⟩ :=
        List.exists_cons_of_ne_nil (agreed_ne_nil_of_fits hmembers hagreed)
      exact (hside first List.mem_cons_self).symm.trans (hall first List.mem_cons_self)
    refine ⟨_, _, hnode, fun hfaces => ?_, fun hfaces => ?_, leaves_fits hagreed hside,
      ports_fits hagreed, fun port node => ?_⟩
    · exact beq_iff_eq.mp (hsides true hfaces)
    · cases side with
      | master => exact nomatch hsides false hfaces
      | slave => rfl
    · rw [hclaims]
      exact owner?_fits port node

-- A request with a reply inside, and a hold inside that which goes the other way.
def request : Template :=
  ⟨"request", .cons "r" ⟨.output, 1⟩ .nil
    (.cons "s" ⟨.input, 0⟩
      (.cons "a" ⟨.output, 1⟩ .nil
        (.cons "o" ⟨.input, 0⟩ (.cons "h" ⟨.input, 1⟩ .nil .nil) .nil)) .nil)⟩

-- The ports of a slave, and one of the same name that is taken.
def requestPorts : Claims :=
  (Claims.ofPorts [("mr", .input), ("mr", .input), ("msa", .output), ("msoh", .output),
    ("ms", .input)]).claim ⟨0⟩ ⟨7⟩

theorem matchByName_request :
    request.members ≠ .nil ∧ request.members.All (·.masterDirection ≠ .inout) ∧
    (∀ entry ∈ requestPorts.ports.toList, entry.direction ≠ .inout) ∧
    request.Named "M" requestPorts ∧ request.Faces "M" requestPorts true ∧
    let made := (ofSeparator "_").instantiate request true none []
    let matched := made.2.matchByName made.1 "M" requestPorts
    matched.1 = .ok made.1 ∧ ∃ root inner,
      matched.2.1.node? made.1 = some ⟨[], request.className, root, inner⟩ ∧ root.side = .slave ∧
      (inner.leaves []).map (·.1) = (request.members.leaves []).map (·.1) ∧
      ∀ leaf ∈ inner.leaves [], ∃ port, leaf.2.port = some port ∧
        requestPorts.Unclaimed port ("M" ++ String.join leaf.1) := by
  have hmembers : request.members ≠ .nil := nofun
  have hdirected : request.members.All (·.masterDirection ≠ .inout) := by
    simp [request, Forest.All]
  have hports : ∀ entry ∈ requestPorts.ports.toList, entry.direction ≠ .inout := by
    decide +kernel
  have hdemands : (request.members.map Shape.masterDirection).demands "M" false [] =
      [("Mr", .output), ("Msa", .input), ("Msoh", .input)] := by
    decide +kernel
  have hreq : requestPorts.findUnclaimed "Mr" = [⟨1⟩] := by
    rw [requestPorts.findUnclaimed_congr (String.toList_injective (by simp [String.toLower]) :
      "Mr".toLower = "mr".toLower)]
    decide +kernel
  have hack : requestPorts.findUnclaimed "Msa" = [⟨2⟩] := by
    rw [requestPorts.findUnclaimed_congr (String.toList_injective (by simp [String.toLower]) :
      "Msa".toLower = "msa".toLower)]
    decide +kernel
  have hhold : requestPorts.findUnclaimed "Msoh" = [⟨3⟩] := by
    rw [requestPorts.findUnclaimed_congr (String.toList_injective (by simp [String.toLower]) :
      "Msoh".toLower = "msoh".toLower)]
    decide +kernel
  have hmeets : requestPorts.MeetsAll false
      ((request.members.map Shape.masterDirection).demands "M" false []) := by
    rw [hdemands]
    have hmr : requestPorts.Meets false ("Mr", .output) := ⟨⟨1⟩, hreq, by decide +kernel⟩
    have hmsa : requestPorts.Meets false ("Msa", .input) := ⟨⟨2⟩, hack, by decide +kernel⟩
    have hmsoh : requestPorts.Meets false ("Msoh", .input) := ⟨⟨3⟩, hhold, by decide +kernel⟩
    exact ⟨by simp [hmr, hmsa, hmsoh], by decide +kernel⟩
  obtain ⟨hnamed, hfaces⟩ :=
    (request.meetsAll_iff "M" hdirected (direction?_ne_inout hports) false).mp hmeets
  obtain ⟨hiff, hfound⟩ := matchByName_instantiate_iff (ofSeparator "_") true none [] "M" hmembers
    hdirected hports
  have hok := hiff.mpr ⟨hnamed, .inr hfaces⟩
  obtain ⟨root, inner, hnode, -, hslave, hleaves, hbound, -⟩ := hfound hok
  exact ⟨hmembers, hdirected, hports, hnamed, hfaces, hok, root, inner, hnode, hslave hfaces,
    hleaves, hbound⟩

end Synthesizer

end Rtl
