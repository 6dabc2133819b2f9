import Rtl.Proofs.Interface.Fitting
import Rtl.Proofs.Interface.Replaying

namespace Rtl

open Forest

namespace Synthesizer

variable {synth : Synthesizer} {stem other : String} {stems : List String}

-- The name of an instance with the separator behind it is the stem, or else the stem does
-- not end with the separator and is the name.
theorem instanceName_cases (synth : Synthesizer) (stem : String) :
    stem = synth.instanceName stem ++ synth.separator ∨
      synth.instanceName stem = stem ∧ ¬ synth.separator.toList <:+ stem.toList := by
  simp only [instanceName, List.isSuffixOf_iff_suffix]
  split
  · rename_i hsuffix
    refine .inl (String.toList_injective ?_)
    obtain ⟨front, hfront⟩ := hsuffix
    have hlength := congrArg List.length hfront
    rw [List.length_append, String.length_toList, String.length_toList] at hlength
    have hcount : stem.length - synth.separator.length = front.length := by omega
    rw [String.toList_append, String.toList_ofList, hcount, ← hfront, List.take_left]
  · rename_i hsuffix
    exact .inr ⟨rfl, hsuffix⟩

theorem instanceName_append (h : ¬ synth.separator.toList <:+ stem.toList) :
    synth.instanceName (stem ++ synth.separator) = synth.instanceName stem := by
  have hlong : stem ++ synth.separator =
      synth.instanceName (stem ++ synth.separator) ++ synth.separator := by
    refine (synth.instanceName_cases (stem ++ synth.separator)).resolve_right fun hnot => ?_
    rw [String.toList_append] at hnot
    exact hnot.2 (List.suffix_append _ _)
  have hshort : synth.instanceName stem = stem := by
    refine ((synth.instanceName_cases stem).resolve_left fun heq => h ?_).1
    rw [heq, String.toList_append]
    exact List.suffix_append _ _
  rw [hshort]
  exact (String.append_left_inj _).mp hlong.symm

-- Two stems give one name only if one of them is the name and the other one has the
-- separator behind it.
theorem stems_of_instanceName_eq (h : synth.instanceName stem = synth.instanceName other) :
    stem = other ∨ stem = other ++ synth.separator ∧ ¬ synth.separator.toList <:+ other.toList ∨
      other = stem ++ synth.separator ∧ ¬ synth.separator.toList <:+ stem.toList := by
  obtain hstem | ⟨hstem, hshort⟩ := synth.instanceName_cases stem
  · obtain hother | ⟨hother, hshort⟩ := synth.instanceName_cases other
    · exact .inl (hstem.trans ((congrArg (· ++ synth.separator) h).trans hother.symm))
    · exact .inr (.inl ⟨hstem.trans (congrArg (· ++ synth.separator) (h.trans hother)), hshort⟩)
  · obtain hother | ⟨hother, -⟩ := synth.instanceName_cases other
    · exact .inr (.inr
        ⟨hother.trans (congrArg (· ++ synth.separator) (h.symm.trans hstem)), hshort⟩)
    · exact .inl (hstem.symm.trans (h.trans hother))

theorem nodup_names_iff (synth : Synthesizer) (h : stems.Nodup) :
    (stems.map synth.instanceName).Nodup ↔
      ∀ stem ∈ stems, stem ++ synth.separator ∈ stems →
        synth.separator.toList <:+ stem.toList := by
  rw [List.nodup_map_iff_inj_on h]
  constructor
  · intro hinjective stem hstem hlong
    by_contra hshort
    have heq := hinjective _ hlong _ hstem (instanceName_append hshort)
    have hempty : synth.separator = "" := by
      have hlength := congrArg String.length heq
      rw [String.length_append] at hlength
      exact String.length_eq_zero_iff.mp (by omega)
    rw [hempty] at hshort
    exact hshort (List.nil_suffix)
  · intro hstems stem hstem other hother heq
    obtain heq | ⟨rfl, hshort⟩ | ⟨rfl, hshort⟩ := stems_of_instanceName_eq heq
    · exact heq
    · exact absurd (hstems other hother hstem) hshort
    · exact absurd (hstems stem hstem hother) hshort

-- No name is given to more than two stems.
theorem count_names_le (synth : Synthesizer) (h : stems.Nodup) (name : String) :
    (stems.map synth.instanceName).count name ≤ 2 := by
  rw [List.count_eq_countP, List.countP_map, List.countP_eq_length_filter]
  have hsubset : stems.filter ((· == name) ∘ synth.instanceName) ⊆
      [name, name ++ synth.separator] := by
    intro stem hstem
    obtain ⟨-, hname⟩ := List.mem_filter.mp hstem
    obtain rfl : synth.instanceName stem = name := by simpa using hname
    obtain hlong | ⟨hshort, -⟩ := synth.instanceName_cases stem
    · exact List.mem_cons_of_mem _ (List.mem_singleton.mpr hlong)
    · exact List.mem_cons.mpr (.inl hshort.symm)
  exact (List.subperm_of_subset (h.filter _) hsubset).length_le

end Synthesizer

namespace Claims

variable {claims before now : Claims} {port : PortId} {ending stem : String}

-- A port that gives a stem has the stem and the ending for its name, up to case.
theorem mem_findUnclaimed_of_candidate? (h : claims.candidate? port ending = some stem) :
    port ∈ claims.findUnclaimed (stem ++ ending) := by
  simp only [candidate?] at h
  split at h
  · rename_i name direction hentry
    simp only [List.isSuffixOf_iff_suffix, Option.ite_none_right_eq_some, Option.some.injEq] at h
    obtain ⟨⟨front, hfront⟩, rfl⟩ := h
    refine mem_findUnclaimed_iff.mpr ⟨_, hentry, rfl, String.toList_injective ?_⟩
    simp only [Text.toList_toLower] at hfront
    have hlength := congrArg List.length hfront
    simp only [List.length_append, List.length_map, String.length_toList] at hlength
    have hcount : name.length - ending.length = front.length := by omega
    simp only [Text.toList_toLower, String.toList_append, String.toList_ofList, List.map_append,
      List.map_take, hcount]
    rw [← hfront, List.take_left]
  · cases h

-- A port that is free was so before other ports were claimed.
theorem Grown.get?_of_free {made : List (PortId × NodeId)} (h : before.Grown made now)
    {name : String} {direction : Direction}
    (hnow : now.ports.get? port = some ⟨name, direction, .none⟩) :
    before.ports.get? port = some ⟨name, direction, .none⟩ := by
  have hlisted := congrArg (·[port.index]?) h.listing_eq
  have hnow' : now.ports.items[port.index]? = some ⟨name, direction, .none⟩ := hnow
  simp only [listing, Arena.toList, List.getElem?_map, Array.getElem?_toList, hnow',
    Option.map_some] at hlisted
  obtain ⟨⟨name', direction', owner⟩, hentry, heq⟩ := Option.map_eq_some_iff.mp hlisted.symm
  obtain ⟨rfl, rfl⟩ := Prod.mk.inj heq
  have hget : before.ports.get? port = some ⟨name', direction', owner⟩ := hentry
  cases owner with
  | none => exact hget
  | some node =>
      have hheld := h.owner?_eq_some_iff.mpr (.inl (by rw [owner?, hget]; rfl))
      rw [owner?, hnow] at hheld
      cases hheld

theorem Grown.candidate?_eq {made : List (PortId × NodeId)} (h : before.Grown made now)
    (hcandidate : now.candidate? port ending = some stem) :
    before.candidate? port ending = some stem := by
  simp only [candidate?] at hcandidate
  split at hcandidate
  · rename_i hnow
    simp only [candidate?, h.get?_of_free hnow]
    exact hcandidate
  · cases hcandidate

theorem Grown.unclaimed {made : List (PortId × NodeId)} {name : String} (h : before.Grown made now)
    (hport : now.Unclaimed port name) : before.Unclaimed port name := by
  obtain ⟨⟨_, _, _⟩, hnow, rfl, hname⟩ := hport
  exact ⟨_, h.get?_of_free hnow, rfl, hname⟩

end Claims

namespace Match

variable {template : Template} {id : NodeId} {first stem name : String} {claims : Claims}
  {agreed : List Bool} {root : NodeState} {below rest : Forest NodeState}

-- The leaves of a fresh instance that matches are bound by name.
theorem leaves_of_fresh (h : (fresh template true none [] id stem claims).agreed = .ok agreed)
    (hnodes : (fresh template true none [] id stem claims).nodes = .cons name root below rest)
    (found : String) :
    ∀ leaf ∈ Spot.leaves ⟨[], found, root, below⟩, ∃ port, leaf.2.port = some port ∧
      claims.findUnclaimed (stem ++ String.join leaf.1) = [port] := by
  have hmatched : Matched id.index stem (.cons "" (template.instantiate true none []).1
      (template.instantiate true none []).2 .nil) claims agreed (.cons name root below rest) _ :=
    hnodes ▸ matched_of_agreed h
  cases hinner : (template.instantiate true none []).2 with
  | nil =>
      rw [hinner] at hmatched
      obtain _ | ⟨hfound, hbound, _⟩ | _ := hmatched
      intro leaf hleaf
      obtain rfl := List.mem_singleton.mp hleaf
      exact ⟨_, (port_of_bindLeaf hfound hbound).1, hfound⟩
  | cons first item beside others =>
      rw [hinner] at hmatched
      obtain _ | _ | ⟨hbelow, _, _⟩ := hmatched
      have hports : Matched (id.index + 1) (stem ++ String.join []) _ claims _ _ _ := hbelow
      exact hports.ports

end Match

-- The first leaf of an instance is the first member of its template.
theorem Template.head_leaves {template : Template} {first : String} {below : Forest NodeState}
    (hfirst : template.firstMember = .ok first)
    (hbelow : below.map NodeState.unresolved = template.members.map NodeState.ofShape)
    (name : String) (root : NodeState) :
    ∃ leaf, (Spot.leaves ⟨[], name, root, below⟩).head? = some leaf ∧
      String.join leaf.1 = first := by
  simp only [firstMember] at hfirst
  split at hfirst
  · rename_i hmembers
    obtain rfl := Except.ok.inj hfirst
    rw [hmembers] at hbelow
    cases below with
    | nil => exact ⟨_, rfl, rfl⟩
    | cons => cases hbelow
  · rename_i hmembers
    obtain rfl := Except.ok.inj hfirst
    rw [hmembers] at hbelow
    cases below with
    | nil => cases hbelow
    | cons name' state inner others =>
        obtain ⟨rfl, -, hinner, -⟩ := Forest.cons.inj hbelow
        cases inner with
        | nil => exact ⟨_, rfl, by simp [String.join_cons]⟩
        | cons => cases hinner
  · cases hfirst

namespace Synthesizer

-- An instance as it is found under a stem: each leaf has a port that was free and
-- called by the stem and the names of the members down to the leaf, the port of the
-- first leaf is one that gives the stem, and there are no signals yet.
structure FoundUnder (claims : Claims) (first stem : String) (spot : Spot NodeState) : Prop where
  above : spot.above = []
  first : ∃ leaf port, spot.leaves.head? = some leaf ∧ leaf.2.port = some port ∧
    claims.candidate? port first = some stem
  leaves : ∀ leaf ∈ spot.leaves, ∃ port, leaf.2.port = some port ∧
    claims.Unclaimed port (stem ++ String.join leaf.1)
  unsigned : ∀ leaf ∈ spot.leaves, leaf.2.signal = none

theorem foundUnder_of_fresh {template : Template} {first stem name : String} {id : NodeId}
    {before claims : Claims} {made : List (PortId × NodeId)} {port : PortId} {agreed : List Bool}
    {root : NodeState} {below rest : Forest NodeState} (hfirst : template.firstMember = .ok first)
    (hgrown : before.Grown made claims) (hstem : claims.candidate? port first = some stem)
    (h : (Match.fresh template true none [] id stem claims).agreed = .ok agreed)
    (hnodes : (Match.fresh template true none [] id stem claims).nodes =
      .cons name root below rest) (found : String) :
    FoundUnder before first stem ⟨[], found, root, below⟩ := by
  have hports := Match.leaves_of_fresh h hnodes found
  obtain ⟨side, -, hroot, hbelow⟩ := Match.sided_of_agreed h hnodes found
  obtain ⟨leaf, hleaf, hjoin⟩ := Template.head_leaves hfirst hbelow found root
  have hunsigned := Match.unsigned_of_unresolved hroot hbelow found
  refine ⟨rfl, ⟨leaf, port, hleaf, ?_, hgrown.candidate?_eq hstem⟩, fun leaf hleaf => ?_, ?_⟩
  · obtain ⟨other, hother, hfound⟩ := hports leaf (List.mem_of_mem_head? hleaf)
    have hmem := Claims.mem_findUnclaimed_of_candidate? hstem
    rw [← hjoin, hfound, List.mem_singleton] at hmem
    rw [hmem, hother]
  · obtain ⟨port, hport, hfound⟩ := hports leaf hleaf
    exact ⟨port, hport,
      hgrown.unclaimed ((Claims.findUnclaimed_eq_singleton_iff.mp hfound port).mpr rfl)⟩
  · intro leaf hleaf
    cases below with
    | nil =>
        obtain rfl := List.mem_singleton.mp hleaf
        exact hunsigned.1
    | cons => exact mem_leaves_of_all (p := (·.signal = none)) hunsigned.2.1 hleaf

-- What a port gives is found under its stem, and then no free port has the name of the
-- first member under this stem.
theorem foundUnder_tryPort {template : Template} {first : String} {synth : Synthesizer}
    (hfirst : template.firstMember = .ok first) {before claims : Claims}
    {made : List (PortId × NodeId)} (hgrown : before.Grown made claims) {port : PortId}
    {entry : String × NodeId} (h : (synth.tryPort template first claims port).1 = some entry) :
    ∃ stem, entry.1 = synth.instanceName stem ∧
      (∃ spot, (synth.tryPort template first claims port).2.1.node? entry.2 = some spot ∧
        FoundUnder before first stem spot) ∧
      (∃ port, claims.findUnclaimed (stem ++ first) = [port]) ∧
      (synth.tryPort template first claims port).2.2.findUnclaimed (stem ++ first) = [] := by
  cases hcandidate : claims.candidate? port first with
  | none =>
      simp only [tryPort, hcandidate] at h
      cases h
  | some candidate =>
      rw [claims_tryPort hcandidate]
      simp only [tryPort, hcandidate] at h ⊢
      split at h
      · rename_i agreed name root below rest hagreed hnodes
        obtain rfl := Option.some.inj h
        obtain ⟨other, hother, hgone⟩ := Match.findUnclaimed_of_fresh hfirst hagreed
        refine ⟨candidate, rfl, ⟨⟨[], synth.instanceName candidate, root, below⟩, ?_, ?_⟩,
          ⟨other, hother⟩, hgone⟩
        · exact spot?_append synth.nodes (.cons (synth.instanceName candidate) root below .nil) 0
        · exact foundUnder_of_fresh hfirst hgrown hcandidate hagreed hnodes _
      · cases h

-- The stems under which instances are found differ, also where case does not count, for
-- each took the only free port of its first member.
theorem exists_stems_tryPorts {template : Template} {first : String}
    (hfirst : template.firstMember = .ok first) {before claims : Claims}
    {made : List (PortId × NodeId)} (hgrown : before.Grown made claims) (synth : Synthesizer)
    (ports : List PortId) :
    ∃ stems, List.Forall₂ (fun entry stem => entry.1 = synth.instanceName stem ∧
        ∃ spot, (synth.tryPorts template first claims ports).2.1.node? entry.2 = some spot ∧
          FoundUnder before first stem spot)
        (synth.tryPorts template first claims ports).1 stems ∧
      (∀ stem ∈ stems, ∃ port, claims.findUnclaimed (stem ++ first) = [port]) ∧
      (stems.map String.toLower).Nodup := by
  induction ports generalizing synth claims made with
  | nil => exact ⟨[], .nil, nofun, List.nodup_nil⟩
  | cons port rest ih =>
      obtain ⟨added, hadded⟩ := extracts_tryPort synth template first claims port
      obtain ⟨hextracts, -⟩ := hadded synth claims rfl rfl
      obtain ⟨taken, htaken, -⟩ := hextracts.grown
      obtain ⟨stems, hstems, hfree, hnodup⟩ := ih (hgrown.trans htaken)
        (synth.tryPort template first claims port).2.1
      have hname (stem : String) :
          (synth.tryPort template first claims port).2.1.instanceName stem =
            synth.instanceName stem := by
        rw [instanceName, hextracts.nodes]
        rfl
      have hnow := narrowed_tryPort synth template first claims port
      have hbefore : ∀ stem ∈ stems, ∃ port, claims.findUnclaimed (stem ++ first) = [port] := by
        intro stem hstem
        obtain ⟨port, hport⟩ := hfree stem hstem
        exact ⟨port, hnow.findUnclaimed_eq_of_singleton hport⟩
      simp only [hname] at hstems
      simp only [tryPorts]
      cases hresult : (synth.tryPort template first claims port).1 with
      | none => exact ⟨stems, hstems, hbefore, hnodup⟩
      | some entry =>
          obtain ⟨stem, hentry, ⟨spot, hspot, hunder⟩, hport, hgone⟩ :=
            foundUnder_tryPort hfirst hgrown hresult
          obtain ⟨more, hmore⟩ := extracts_tryPorts (synth.tryPort template first claims port).2.1
            template first (synth.tryPort template first claims port).2.2 rest
          have hkept := spot?_append_of_spot? hspot more
          have hnodes := congrArg Synthesizer.nodes (hmore _ _ rfl rfl).nodes
          simp only at hnodes
          rw [← hnodes] at hkept
          refine ⟨stem :: stems, .cons ⟨hentry, spot, hkept, hunder⟩ hstems,
            List.forall_mem_cons.mpr ⟨hport, hbefore⟩, List.nodup_cons.mpr ⟨fun hmem => ?_, hnodup⟩⟩
          obtain ⟨other, hother, hlower⟩ := List.mem_map.mp hmem
          obtain ⟨port', hfound⟩ := hfree other hother
          have hsame : (other ++ first).toLower = (stem ++ first).toLower := by
            rw [Text.toLower_append, Text.toLower_append, hlower]
          rw [Claims.findUnclaimed_congr _ hsame, hgone] at hfound
          cases hfound

theorem exists_stems_extractAll {synth next : Synthesizer} {claims now : Claims}
    {cls : InterfaceClass} {found : List (String × NodeId)}
    (h : synth.extractAll cls claims = (.ok found, next, now)) :
    ∃ first stems, (synth.template cls).1.firstMember = .ok first ∧
      List.Forall₂ (fun entry stem => entry.1 = synth.instanceName stem ∧
        ∃ spot, next.node? entry.2 = some spot ∧ FoundUnder claims first stem spot) found stems ∧
      (stems.map String.toLower).Nodup := by
  simp only [extractAll] at h
  split at h
  · cases h
  · rename_i first hfirst
    obtain ⟨stems, hstems, -, hnodup⟩ := exists_stems_tryPorts hfirst .none (synth.template cls).2
      (claims.ports.entries.map (·.1))
    obtain ⟨hfound, hrest⟩ := Prod.mk.inj h
    obtain ⟨rfl, -⟩ := Prod.mk.inj hrest
    obtain rfl := Except.ok.inj hfound
    exact ⟨first, stems, hfirst, hstems, hnodup⟩

-- The instances that an extraction finds are found under stems that differ, also where
-- case does not count. A name is a stem without one separator at its end. So two
-- instances have one name only if one stem is this name and the other one has the
-- separator behind it, and no three instances do.
theorem nodup_names_extractAll {synth next : Synthesizer} {claims now : Claims}
    {cls : InterfaceClass} {found : List (String × NodeId)}
    (h : synth.extractAll cls claims = (.ok found, next, now)) :
    ∃ first stems, (synth.template cls).1.firstMember = .ok first ∧
      List.Forall₂ (fun entry stem => entry.1 = synth.instanceName stem ∧
        ∃ spot, next.node? entry.2 = some spot ∧ FoundUnder claims first stem spot) found stems ∧
      (stems.map String.toLower).Nodup ∧
      ((found.map (·.1)).Nodup ↔ ∀ stem ∈ stems, stem ++ synth.separator ∈ stems →
        synth.separator.toList <:+ stem.toList) ∧
      ∀ name, (found.map (·.1)).count name ≤ 2 := by
  obtain ⟨first, stems, hfirst, hstems, hnodup⟩ := exists_stems_extractAll h
  have hnames : found.map (·.1) = stems.map synth.instanceName :=
    List.forall₂_eq_eq_eq ▸ List.forall₂_map_left_iff.mpr
      (List.forall₂_map_right_iff.mpr (hstems.imp fun _ _ hentry => hentry.1))
  have hdistinct : stems.Nodup := hnodup.of_map
  rw [hnames]
  exact ⟨first, stems, hfirst, hstems, hnodup, synth.nodup_names_iff hdistinct,
    synth.count_names_le hdistinct⟩

def flag : InterfaceClass := .mk "flag" [] [.leaf "valid" .output 1]

theorem nodup_names_flag :
    ((ofSeparator "_").extractAll flag
        (.ofPorts [("m_valid", .output), ("n_valid", .output)])).1 =
          .ok [("m", ⟨0⟩), ("n", ⟨2⟩)] ∧
      ∃ (first : String) (stems : List String),
        ((ofSeparator "_").template flag).1.firstMember = .ok first ∧
        (stems.map String.toLower).Nodup ∧
        ((["m", "n"] : List String).Nodup ↔ ∀ stem ∈ stems, stem ++ "_" ∈ stems →
          "_".toList <:+ stem.toList) := by
  have hfound : ((ofSeparator "_").extractAll flag
      (.ofPorts [("m_valid", .output), ("n_valid", .output)])).1 =
        .ok [("m", ⟨0⟩), ("n", ⟨2⟩)] := by
    decide +kernel
  have hextract : (ofSeparator "_").extractAll flag
      (.ofPorts [("m_valid", .output), ("n_valid", .output)]) =
        (.ok [("m", ⟨0⟩), ("n", ⟨2⟩)], _, _) := Prod.ext hfound rfl
  obtain ⟨first, stems, hfirst, -, hnodup, hiff, -⟩ := nodup_names_extractAll hextract
  exact ⟨hfound, first, stems, hfirst, hnodup, hiff⟩

-- A port that has the separator and one that has none are found under one name.
theorem names_flag_twice :
    ((ofSeparator "_").extractAll flag
        (.ofPorts [("m_valid", .output), ("mvalid", .output)])).1 =
          .ok [("m", ⟨0⟩), ("m", ⟨2⟩)] ∧
      ¬ ([("m", (⟨0⟩ : NodeId)), ("m", ⟨2⟩)].map (·.1)).Nodup := by
  decide +kernel

end Synthesizer

end Rtl
