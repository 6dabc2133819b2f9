import Rtl.Proofs.Names.Given

namespace Rtl.Scope

-- What can be asked of a scope.
inductive Step where
  | reserve (words : List String)
  | push
  | pop
  | name (owner : Owner) (candidate : String)

def Step.words : Step → List String
  | .reserve words => words
  | .push | .pop | .name .. => []

def step (scope : Scope) : Step → Scope
  | .reserve words => scope.reserve words
  | .push => scope.push
  | .pop => scope.pop
  | .name owner candidate => (scope.checkedName owner candidate).2

def run (scope : Scope) (steps : List Step) : Scope := steps.foldl step scope

-- The requests whose names are on open levels.
def entries (scope : Scope) : List (NameRequest × String) := scope.levels.flatMap ScopeLevel.owned

-- A request whose name is on an open level.
def Holds (scope : Scope) (request : NameRequest) (name : String) : Prop :=
  ∃ level ∈ scope.levels, (request, name) ∈ level.owned

-- A name that is new in a scope: the candidate if it is free, and otherwise the candidate with
-- the least number that makes it free. No more numbers are tried than there are words in use.
structure IsNew (scope : Scope) (candidate name : String) : Prop where
  unused : ∀ level ∈ scope.levels, normalize scope.ignoreCase name ∉ level.used
  least : (scope.isUsed candidate = false ∧ name = candidate) ∨
    (scope.isUsed candidate = true ∧ ∃ number, name = numbered candidate number ∧
      scope.isUsed (numbered candidate number) = false ∧
      (∀ smaller < number, scope.isUsed (numbered candidate smaller) = true) ∧
      number + 1 ≤ scope.usedWords.dedup.length)

-- What every run keeps. Every request has one name, and the names are told apart. Each is in use
-- on its own level, so that a name in use on no level is nobody's.
structure Sound (reserved : List String) (scope : Scope) : Prop where
  requests : (scope.entries.map (·.1)).Nodup
  keys : (scope.entries.map fun entry => normalize scope.ignoreCase entry.2).Nodup
  used : ∀ level ∈ scope.levels, ∀ entry ∈ level.owned,
    normalize scope.ignoreCase entry.2 ∈ level.used
  base : ∀ word ∈ reserved, normalize scope.ignoreCase word ∈ scope.base.used

variable {scope : Scope} {reserved : List String} {request : NameRequest} {owner : Owner}
  {candidate name : String}

theorem mem_entries_iff {entry : NameRequest × String} :
    entry ∈ scope.entries ↔ scope.Holds entry.1 entry.2 := List.mem_flatMap

theorem isUsed_eq_true_iff : scope.isUsed name = true ↔
    normalize scope.ignoreCase name ∈ scope.usedWords := List.contains_iff_mem

-- The levels are gone through from the innermost one, as the names on them are listed.
theorem owned?_eq_lookup (scope : Scope) (request : NameRequest) :
    scope.owned? request = scope.entries.lookup request := by
  rw [owned?, entries]
  induction scope.levels with
  | nil => rfl
  | cons level rest ih =>
      rw [List.findSome?_cons, List.flatMap_cons, List.lookup_append, ← ih]
      cases level.owned.lookup request with
      | none | some => rfl

theorem owned?_eq_none_iff : scope.owned? request = none ↔ ∀ name, ¬ scope.Holds request name := by
  rw [owned?_eq_lookup, List.lookup_eq_none_iff]
  constructor
  · intro h name hholds
    exact bne_iff_ne.mp (h (request, name) (mem_entries_iff.mpr hholds)) rfl
  · intro h entry hentry
    rw [bne_iff_ne, ne_eq]
    rintro rfl
    exact h entry.2 (mem_entries_iff.mp hentry)

theorem entries_enter (scope : Scope) (request : NameRequest) (name : String) :
    (scope.enter request name).entries = (request, name) :: scope.entries := by
  obtain ⟨nested, base, ignoreCase⟩ := scope
  cases nested with
  | nil | cons => rfl

theorem holds_enter (scope : Scope) (request : NameRequest) (name : String) :
    (scope.enter request name).Holds request name := by
  have hmem : (request, name) ∈ (scope.enter request name).entries := by
    rw [entries_enter]
    exact List.mem_cons_self
  exact mem_entries_iff.mp hmem

section Numbers

-- A number makes a candidate longer.
theorem normalize_numbered_ne (ignoreCase : Bool) (candidate : String) (number : Nat) :
    normalize ignoreCase (numbered candidate number) ≠ normalize ignoreCase candidate := by
  intro h
  have hmark : (normalize ignoreCase "_").toList = ['_'] := by
    cases ignoreCase with
    | true => exact Text.toList_toLower "_"
    | false => rfl
  have hlist := congrArg String.toList h
  rw [numbered, normalize_append, normalize_append, String.toList_append, String.toList_append,
    List.append_assoc, List.append_right_eq_self, hmark] at hlist
  cases hlist

-- The words in use that a search came across are the candidate and the numbers before.
theorem lt_length_usedWords {number : Nat} (hcandidate : scope.isUsed candidate = true)
    (hbefore : ∀ smaller < number, scope.isUsed (numbered candidate smaller) = true) :
    number + 1 ≤ scope.usedWords.dedup.length := by
  let key (smaller : Nat) := normalize scope.ignoreCase (numbered candidate smaller)
  have hnodup : (normalize scope.ignoreCase candidate :: (List.range number).map key).Nodup := by
    refine List.nodup_cons.mpr ⟨fun hmem => ?_,
      List.nodup_range.map (normalize_numbered_injective scope.ignoreCase candidate)⟩
    obtain ⟨smaller, -, hsame⟩ := List.mem_map.mp hmem
    exact normalize_numbered_ne _ _ _ hsame
  have hused : ∀ word ∈ normalize scope.ignoreCase candidate :: (List.range number).map key,
      word ∈ scope.usedWords.dedup := by
    refine List.forall_mem_cons.mpr ⟨List.mem_dedup.mpr (isUsed_eq_true_iff.mp hcandidate), ?_⟩
    refine List.forall_mem_map.mpr fun smaller hsmaller => List.mem_dedup.mpr ?_
    exact isUsed_eq_true_iff.mp (hbefore smaller (List.mem_range.mp hsmaller))
  have hlength := (hnodup.subperm hused).length_le
  rwa [List.length_cons, List.length_map, List.length_range] at hlength

theorem isNew_freeName (scope : Scope) (candidate : String) :
    scope.IsNew candidate (scope.freeName candidate) := by
  have hunused := normalize_freeName_not_mem scope candidate
  refine ⟨fun level hlevel hmem => hunused (List.mem_flatMap.mpr ⟨level, hlevel, hmem⟩), ?_⟩
  have hfree (name : String) : (!scope.usedWords.contains (normalize scope.ignoreCase name)) =
    !scope.isUsed name := rfl
  by_cases hcandidate : scope.isUsed candidate = true
  · refine .inr ⟨hcandidate, ?_⟩
    obtain ⟨found, hmem, hnot⟩ :=
      exists_numbered_free scope.usedWords scope.ignoreCase candidate
    rcases hsearch : (List.range (scope.usedWords.length + 1)).find? fun number =>
        !scope.isUsed (numbered candidate number) with _ | number
    · have hused := List.find?_eq_none.mp hsearch found hmem
      rw [Bool.not_eq_true', Bool.not_eq_false, isUsed_eq_true_iff] at hused
      exact absurd hused hnot
    · have hname : scope.freeName candidate = numbered candidate number := by
        simp only [freeName, hfree, hcandidate, hsearch]
        rfl
      obtain ⟨hfound, -, hbefore⟩ := List.find?_range_eq_some.mp hsearch
      simp only [Bool.not_eq_true', Bool.not_not] at hfound hbefore
      exact ⟨number, hname, hfound, hbefore, lt_length_usedWords hcandidate hbefore⟩
  · rw [Bool.not_eq_true] at hcandidate
    refine .inl ⟨hcandidate, ?_⟩
    simp only [freeName, hfree, hcandidate]
    rfl

end Numbers

section Steps

theorem entries_reserve (scope : Scope) (words : List String) :
    (scope.reserve words).entries = scope.entries := by
  simp only [entries, levels, reserve, List.flatMap_append, List.flatMap_cons, List.flatMap_nil]

theorem entries_pop_sublist (scope : Scope) : scope.pop.entries.Sublist scope.entries := by
  simp only [entries, levels, pop, List.flatMap_append]
  exact ((List.tail_sublist _).flatMap _).append_right _

theorem Sound.reserve (h : scope.Sound reserved) (words : List String) :
    (scope.reserve words).Sound (reserved ++ words) := by
  refine ⟨?_, ?_, fun level hlevel entry hentry => ?_, fun word hword => ?_⟩
  · rw [entries_reserve]
    exact h.requests
  · rw [entries_reserve]
    exact h.keys
  · rcases List.mem_append.mp hlevel with hnested | hbase
    · exact h.used level (List.mem_append_left _ hnested) entry hentry
    · obtain rfl := List.mem_singleton.mp hbase
      exact List.mem_append_left _ (h.used scope.base (by simp [levels]) entry hentry)
  · rcases List.mem_append.mp hword with hold | hnew
    · exact List.mem_append_left _ (h.base word hold)
    · exact List.mem_append_right _ (List.mem_map_of_mem hnew)

theorem Sound.push (h : scope.Sound reserved) : scope.push.Sound reserved := by
  refine ⟨h.requests, h.keys, fun level hlevel => ?_, h.base⟩
  rcases List.mem_cons.mp hlevel with rfl | hlevel
  · exact nofun
  · exact h.used level hlevel

theorem Sound.pop (h : scope.Sound reserved) : scope.pop.Sound reserved := by
  have hentries := entries_pop_sublist scope
  refine ⟨h.requests.sublist (hentries.map _), h.keys.sublist (hentries.map _),
    fun level hlevel => h.used level ?_, h.base⟩
  exact ((List.tail_sublist _).append_right _).subset hlevel

theorem Sound.key_mem_usedWords (h : scope.Sound reserved) {entry : NameRequest × String}
    (hentry : entry ∈ scope.entries) :
    normalize scope.ignoreCase entry.2 ∈ scope.usedWords := by
  obtain ⟨level, hlevel, hmem⟩ := List.mem_flatMap.mp hentry
  exact List.mem_flatMap.mpr ⟨level, hlevel, h.used level hlevel entry hmem⟩

theorem Sound.enter (h : scope.Sound reserved) (hnew : ∀ name, ¬ scope.Holds request name)
    (hfree : normalize scope.ignoreCase name ∉ scope.usedWords) :
    (scope.enter request name).Sound reserved := by
  refine ⟨?_, ?_, ?_, ?_⟩
  · rw [entries_enter]
    refine List.nodup_cons.mpr ⟨fun hmem => ?_, h.requests⟩
    obtain ⟨entry, hentry, (hrequest : entry.1 = request)⟩ := List.mem_map.mp hmem
    exact hnew entry.2 (hrequest ▸ mem_entries_iff.mp hentry)
  · rw [entries_enter, ignoreCase_enter]
    refine List.nodup_cons.mpr ⟨fun hmem => ?_, h.keys⟩
    obtain ⟨entry, hentry, hkey⟩ := List.mem_map.mp hmem
    have hused := h.key_mem_usedWords hentry
    rw [hkey] at hused
    exact hfree hused
  · rw [ignoreCase_enter]
    have hadd {level : ScopeLevel} (hlevel : level ∈ scope.levels) :
        ∀ entry ∈ (request, name) :: level.owned,
          normalize scope.ignoreCase entry.2 ∈ normalize scope.ignoreCase name :: level.used :=
      List.forall_mem_cons.mpr ⟨List.mem_cons_self, fun entry hentry =>
        List.mem_cons_of_mem _ (h.used level hlevel entry hentry)⟩
    obtain ⟨nested, base, ignoreCase⟩ := scope
    cases nested with
    | nil => exact List.forall_mem_singleton.mpr (hadd List.mem_cons_self)
    | cons inner outer =>
        exact List.forall_mem_cons.mpr ⟨hadd List.mem_cons_self, fun level hlevel =>
          h.used level (List.mem_cons_of_mem _ hlevel)⟩
  · rw [ignoreCase_enter]
    obtain ⟨nested, base, ignoreCase⟩ := scope
    cases nested with
    | nil => exact fun word hword => List.mem_cons_of_mem _ (h.base word hword)
    | cons inner outer => exact h.base

theorem checkedName_of_holds (h : scope.Sound reserved)
    (hholds : scope.Holds ⟨owner, candidate⟩ name) :
    scope.checkedName owner candidate = (name, scope) := by
  have hlookup : scope.owned? ⟨owner, candidate⟩ = some name := by
    rw [owned?_eq_lookup, lookup_eq_some_iff_mem h.requests]
    exact mem_entries_iff.mpr hholds
  simp only [checkedName, hlookup]

theorem checkedName_of_not_holds (hnew : ∀ name, ¬ scope.Holds ⟨owner, candidate⟩ name) :
    scope.checkedName owner candidate = (scope.freeName candidate,
      scope.enter ⟨owner, candidate⟩ (scope.freeName candidate)) := by
  simp only [checkedName, owned?_eq_none_iff.mpr hnew]

theorem Sound.checkedName (h : scope.Sound reserved) (owner : Owner) (candidate : String) :
    (scope.checkedName owner candidate).2.Sound reserved := by
  by_cases hholds : ∃ name, scope.Holds ⟨owner, candidate⟩ name
  · obtain ⟨name, hholds⟩ := hholds
    rw [checkedName_of_holds h hholds]
    exact h
  · rw [not_exists] at hholds
    rw [checkedName_of_not_holds hholds]
    exact h.enter hholds (normalize_freeName_not_mem scope candidate)

theorem Sound.step (h : scope.Sound reserved) (s : Step) :
    (scope.step s).Sound (reserved ++ s.words) := by
  cases s with
  | reserve words => exact h.reserve words
  | push =>
      rw [Step.words, List.append_nil]
      exact h.push
  | pop =>
      rw [Step.words, List.append_nil]
      exact h.pop
  | name owner candidate =>
      rw [Step.words, List.append_nil]
      exact h.checkedName owner candidate

theorem Sound.run (h : scope.Sound reserved) (steps : List Step) :
    (scope.run steps).Sound (reserved ++ steps.flatMap Step.words) := by
  induction steps generalizing scope reserved with
  | nil => exact (List.append_nil reserved).symm ▸ h
  | cons s rest ih =>
      rw [List.flatMap_cons, ← List.append_assoc]
      exact ih (h.step s)

theorem sound_ofWords (keywords : List String) (ignoreCase : Bool) :
    (ofWords keywords ignoreCase).Sound keywords := by
  refine ⟨List.nodup_nil, List.nodup_nil, fun level hlevel => ?_,
    fun word hword => List.mem_map_of_mem hword⟩
  obtain rfl := List.mem_singleton.mp hlevel
  exact nofun

theorem ignoreCase_step (scope : Scope) (s : Step) :
    (scope.step s).ignoreCase = scope.ignoreCase := by
  cases s with
  | reserve | push | pop => rfl
  | name owner candidate =>
      rw [step, checkedName]
      split
      · rfl
      · exact ignoreCase_enter ..

theorem ignoreCase_run (scope : Scope) (steps : List Step) :
    (scope.run steps).ignoreCase = scope.ignoreCase := by
  induction steps generalizing scope with
  | nil => rfl
  | cons s rest ih => exact (ih (scope.step s)).trans (ignoreCase_step scope s)

end Steps

section Lasting

-- A request whose name is on the level with so many levels below it.
def HoldsAt (scope : Scope) (height : Nat) (request : NameRequest) (name : String) : Prop :=
  ∃ level, scope.levels.reverse[height]? = some level ∧ (request, name) ∈ level.owned

variable {height : Nat}

theorem holds_iff_holdsAt :
    scope.Holds request name ↔ ∃ height < scope.depth, scope.HoldsAt height request name := by
  constructor
  · rintro ⟨level, hlevel, hmem⟩
    obtain ⟨height, hheight, hget⟩ := List.getElem_of_mem (List.mem_reverse.mpr hlevel)
    rw [List.length_reverse] at hheight
    exact ⟨height, hheight, level, List.getElem?_eq_some_iff.mpr ⟨_, hget⟩, hmem⟩
  · rintro ⟨height, -, level, hget, hmem⟩
    exact ⟨level, List.mem_reverse.mp (List.mem_of_getElem? hget), hmem⟩

theorem HoldsAt.of_append {later : Scope} {inner : ScopeLevel}
    (h : scope.HoldsAt height request name)
    (hlevels : scope.levels.reverse = later.levels.reverse ++ [inner])
    (hheight : height < later.depth) : later.HoldsAt height request name := by
  obtain ⟨level, hget, hmem⟩ := h
  refine ⟨level, ?_, hmem⟩
  rwa [hlevels, List.getElem?_append_left (by rwa [List.length_reverse])] at hget

theorem HoldsAt.enter (h : scope.HoldsAt height request name) (other : NameRequest)
    (given : String) : (scope.enter other given).HoldsAt height request name := by
  obtain ⟨level, hget, hmem⟩ := h
  obtain ⟨nested, base, ignoreCase⟩ := scope
  cases nested with
  | nil =>
      cases height with
      | zero =>
          obtain rfl := Option.some.inj hget
          exact ⟨_, rfl, List.mem_cons_of_mem _ hmem⟩
      | succ height => cases hget
  | cons inner outer =>
      simp only [levels, List.cons_append, List.reverse_cons] at hget
      by_cases hlow : height < (outer ++ [base]).reverse.length
      · rw [List.getElem?_append_left hlow] at hget
        refine ⟨level, ?_, hmem⟩
        simp only [Scope.enter, levels, List.cons_append, List.reverse_cons]
        rw [List.getElem?_append_left hlow, hget]
      · rw [List.getElem?_append_right (not_lt.mp hlow), List.getElem?_singleton] at hget
        obtain ⟨htop, hinner⟩ := Option.ite_none_right_eq_some.mp hget
        obtain rfl := Option.some.inj hinner
        refine ⟨⟨normalize ignoreCase given :: inner.used, (other, given) :: inner.owned⟩, ?_,
          List.mem_cons_of_mem _ hmem⟩
        simp only [Scope.enter, levels, List.cons_append, List.reverse_cons]
        rw [List.getElem?_append_right (not_lt.mp hlow), htop]
        rfl

-- A step only touches the innermost level and the words of the base.
theorem HoldsAt.step (h : scope.HoldsAt height request name) (s : Step)
    (hheight : height < (scope.step s).depth) : (scope.step s).HoldsAt height request name := by
  cases s with
  | reserve words =>
      obtain ⟨level, hget, hmem⟩ := h
      rw [levels, List.reverse_concat] at hget
      cases height with
      | zero =>
          obtain rfl := Option.some.inj hget
          refine ⟨(scope.reserve words).base, ?_, hmem⟩
          rw [Scope.step, levels, List.reverse_concat]
          rfl
      | succ height =>
          refine ⟨level, ?_, hmem⟩
          rw [Scope.step, levels, List.reverse_concat]
          exact hget
  | push =>
      obtain ⟨level, hget, hmem⟩ := h
      refine ⟨level, ?_, hmem⟩
      have hlevels : scope.push.levels.reverse = scope.levels.reverse ++ [.empty] :=
        List.reverse_cons
      have hlt := (List.getElem?_eq_some_iff.mp hget).1
      rw [Scope.step, hlevels, List.getElem?_append_left hlt, hget]
  | pop =>
      obtain ⟨nested, base, ignoreCase⟩ := scope
      cases nested with
      | nil => exact h
      | cons inner outer => exact h.of_append List.reverse_cons hheight
  | name owner candidate =>
      rw [Scope.step, Scope.checkedName]
      split
      · exact h
      · exact h.enter ..

-- A name stays with its request as long as no level is closed that was open when it was given.
theorem Holds.run (h : scope.Holds request name) {later : List Step}
    (hopen : ∀ front, front <+: later → scope.depth ≤ (scope.run front).depth) :
    (scope.run later).Holds request name := by
  obtain ⟨height, hheight, hat⟩ := holds_iff_holdsAt.mp h
  have hlast : (scope.run later).HoldsAt height request name := by
    induction later using List.reverseRecOn with
    | nil => exact hat
    | append_singleton front s ih =>
        have hfront := ih fun shorter hshorter =>
          hopen shorter (hshorter.trans (List.prefix_append _ _))
        have hdepth := hopen (front ++ [s]) (List.prefix_refl _)
        rw [Scope.run, List.foldl_concat] at hdepth ⊢
        exact hfront.step s (hheight.trans_le hdepth)
  exact holds_iff_holdsAt.mpr
    ⟨height, hheight.trans_le (hopen later (List.prefix_refl _)), hlast⟩

end Lasting

theorem holds_checkedName (h : scope.Sound reserved) (owner : Owner) (candidate : String) :
    (scope.checkedName owner candidate).2.Holds ⟨owner, candidate⟩
      (scope.checkedName owner candidate).1 := by
  by_cases hholds : ∃ name, scope.Holds ⟨owner, candidate⟩ name
  · obtain ⟨name, hholds⟩ := hholds
    rw [checkedName_of_holds h hholds]
    exact hholds
  · rw [not_exists] at hholds
    rw [checkedName_of_not_holds hholds]
    exact holds_enter ..

-- Names whose keys are the same belong to the same request.
theorem Sound.request_eq (h : scope.Sound reserved) {other : NameRequest} {given : String}
    (hname : scope.Holds request name) (hgiven : scope.Holds other given)
    (hkey : normalize scope.ignoreCase name = normalize scope.ignoreCase given) :
    request = other := by
  have hfirst : (request, name) ∈ scope.entries := mem_entries_iff.mpr hname
  have hsecond : (other, given) ∈ scope.entries := mem_entries_iff.mpr hgiven
  exact congrArg Prod.fst (List.inj_on_of_nodup_map h.keys hfirst hsecond hkey)

-- In every run the names on open levels are told apart, a request that has a name keeps it, and
-- another one gets the first name that nobody has and that is no reserved word.
theorem names_of_run (keywords : List String) (ignoreCase : Bool) (steps : List Step) :
    let scope := (ofWords keywords ignoreCase).run steps
    (∀ request other name given, scope.Holds request name → scope.Holds other given →
      request ≠ other → normalize ignoreCase name ≠ normalize ignoreCase given) ∧
    (∀ owner candidate name, scope.Holds ⟨owner, candidate⟩ name →
      scope.checkedName owner candidate = (name, scope)) ∧
    (∀ owner candidate name after, scope.checkedName owner candidate = (name, after) →
      ∀ later, (∀ front, front <+: later → after.depth ≤ (after.run front).depth) →
        (after.run later).checkedName owner candidate = (name, after.run later)) ∧
    ∀ owner candidate, (∀ name, ¬ scope.Holds ⟨owner, candidate⟩ name) →
      scope.IsNew candidate (scope.checkedName owner candidate).1 ∧
        (∀ word ∈ keywords ++ steps.flatMap Step.words,
          normalize ignoreCase (scope.checkedName owner candidate).1 ≠
            normalize ignoreCase word) ∧
        (scope.checkedName owner candidate).2.Holds ⟨owner, candidate⟩
          (scope.checkedName owner candidate).1 := by
  intro scope
  have hsound : scope.Sound (keywords ++ steps.flatMap Step.words) :=
    (sound_ofWords keywords ignoreCase).run steps
  have hcase : scope.ignoreCase = ignoreCase := ignoreCase_run _ steps
  refine ⟨?_, fun owner candidate name => checkedName_of_holds hsound, ?_, ?_⟩
  · intro request other name given hname hgiven hne hkey
    rw [← hcase] at hkey
    exact hne (hsound.request_eq hname hgiven hkey)
  · intro owner candidate name after hanswer later hopen
    have hafter := hsound.checkedName owner candidate
    have hholds := holds_checkedName hsound owner candidate
    rw [hanswer] at hafter hholds
    exact checkedName_of_holds (hafter.run later) (hholds.run hopen)
  · intro owner candidate hnew
    rw [checkedName_of_not_holds hnew]
    have hname := isNew_freeName scope candidate
    refine ⟨hname, fun word hword hkey => ?_, holds_enter ..⟩
    have hbase := hsound.base word hword
    rw [hcase, ← hkey, ← hcase] at hbase
    exact hname.unused scope.base (by simp [levels]) hbase

-- Two signals whose names differ in case alone, on a level of their own.
theorem names_of_run_recased :
    let scope := (ofWords ["signal"] true).run
      [.push, .name (.signal ⟨0⟩) "Clk", .name (.signal ⟨1⟩) "clk"]
    scope.Holds ⟨.signal ⟨0⟩, "Clk"⟩ "Clk" ∧ scope.Holds ⟨.signal ⟨1⟩, "clk"⟩ "clk_0" ∧
      normalize true "Clk" ≠ normalize true "clk_0" ∧
      scope.checkedName (.signal ⟨1⟩) "clk" = ("clk_0", scope) ∧
      scope.IsNew "Signal" (scope.checkedName (.signal ⟨2⟩) "Signal").1 := by
  intro scope
  have hupper : scope.Holds ⟨.signal ⟨0⟩, "Clk"⟩ "Clk" := ⟨_, List.mem_cons_self, by decide +kernel⟩
  have hlower : scope.Holds ⟨.signal ⟨1⟩, "clk"⟩ "clk_0" :=
    ⟨_, List.mem_cons_self, by decide +kernel⟩
  have hnone (name : String) : ¬ scope.Holds ⟨.signal ⟨2⟩, "Signal"⟩ name :=
    owned?_eq_none_iff.mp (by decide +kernel) name
  obtain ⟨hdiffer, hsame, -, hnew⟩ := names_of_run ["signal"] true
    [.push, .name (.signal ⟨0⟩) "Clk", .name (.signal ⟨1⟩) "clk"]
  exact ⟨hupper, hlower, hdiffer _ _ _ _ hupper hlower (by decide), hsame _ _ _ hlower,
    (hnew _ _ hnone).1⟩

end Rtl.Scope
