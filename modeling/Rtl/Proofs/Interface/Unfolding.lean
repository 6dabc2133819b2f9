import Rtl.Proofs.Interface.Templates

namespace Rtl

namespace InterfaceClass

mutual

-- What the class has inside, with everything inherited and nested written out
-- and without a look at any other class.
def unfolded (cls : InterfaceClass) : Forest Shape := unfoldedMembers cls.merged
termination_by 2 * cls.weight
decreasing_by
  have := weightOfMembers_merged cls
  omega

def unfoldedMembers (members : List Member) : Forest Shape :=
  match members with
  | [] => .nil
  | .leaf name direction width :: rest =>
      .cons name ⟨direction, width⟩ .nil (unfoldedMembers rest)
  | .nested name direction cls :: rest =>
      .cons name ⟨direction, 0⟩ cls.unfolded (unfoldedMembers rest)
termination_by 2 * weightOfMembers members + 1
decreasing_by
  all_goals
    simp only [weightOfMembers, weightOfMember]
    omega

end

-- The template that the class alone asks for.
def template (cls : InterfaceClass) : Template := ⟨cls.name, cls.unfolded⟩

-- A class of the list has the name of one within the class at hand only if the
-- two are the same.
def AgreesWith (cls : InterfaceClass) (others : List InterfaceClass) : Prop :=
  ∀ other ∈ others, ∀ inner, cls.Within inner → inner.name = other.name → inner = other

namespace Within

variable {cls inner other : InterfaceClass}

theorem trans (h : cls.Within inner) (hinner : inner.Within other) : cls.Within other := by
  induction h with
  | self => exact hinner
  | member hmem _ ih => exact .member hmem (ih hinner)

end Within

end InterfaceClass

namespace Registry

mutual

-- The classes that a build makes templates of, each after those nested in it.
def made (registry : Registry) (cls : InterfaceClass) : List InterfaceClass :=
  match registry.find? cls.name with
  | some _ => []
  | none => registry.madeMembers cls.merged ++ [cls]
termination_by 2 * cls.weight
decreasing_by
  have := InterfaceClass.weightOfMembers_merged cls
  omega

def madeMembers (registry : Registry) (members : List Member) : List InterfaceClass :=
  match members with
  | [] => []
  | .leaf _ _ _ :: rest => registry.madeMembers rest
  | .nested _ _ cls :: rest => registry.made cls ++ (registry.build cls).2.madeMembers rest
termination_by 2 * InterfaceClass.weightOfMembers members + 1
decreasing_by
  all_goals
    simp only [InterfaceClass.weightOfMembers, InterfaceClass.weightOfMember]
    omega

end

-- The registry behind a history of builds, and the classes they made templates of.

def buildAll (registry : Registry) : List InterfaceClass → Registry
  | [] => registry
  | cls :: rest => (registry.build cls).2.buildAll rest

def madeAll (registry : Registry) : List InterfaceClass → List InterfaceClass
  | [] => []
  | cls :: rest => registry.made cls ++ (registry.build cls).2.madeAll rest

-- What is on file stays on file.
theorem find?_build_of_find? {registry : Registry} {name : String} {template : Template}
    (h : registry.find? name = some template) (cls : InterfaceClass) :
    (registry.build cls).2.find? name = some template := by
  induction registry, cls using fun motive => build.induct motive (fun registry members =>
    registry.find? name = some template →
      (registry.buildMembers members).2.find? name = some template) with
  | case1 registry cls filed hfound =>
      rw [build_of_find? hfound]
      exact h
  | case2 registry cls hnone members next hmembers ih =>
      have hne : name ≠ cls.name := by
        rintro rfl
        rw [hnone] at h
        cases h
      rw [build]
      simp only [hnone, find?_insert, if_neg hne]
      exact ih h
  | case3 registry hfound =>
      rw [buildMembers]
      exact hfound
  | case4 registry name direction width rest members next hrest ih hfound =>
      rw [buildMembers]
      exact ih hfound
  | case5 registry name direction cls rest filed next hbuild members last hrest ihCls ihRest
      hfound =>
      have hnext := ihCls hfound
      rw [hbuild] at hnext
      rw [buildMembers]
      simp only [hbuild]
      exact ihRest hnext

theorem find?_buildMembers_of_find? {registry : Registry} {name : String} {template : Template}
    (h : registry.find? name = some template) (members : List Member) :
    (registry.buildMembers members).2.find? name = some template := by
  induction members generalizing registry with
  | nil =>
      rw [buildMembers]
      exact h
  | cons member rest ih =>
      cases member with
      | leaf =>
          rw [buildMembers]
          exact ih h
      | nested _ _ cls =>
          rw [buildMembers]
          exact ih (find?_build_of_find? h cls)

theorem find?_buildAll_of_find? {registry : Registry} {name : String} {template : Template}
    (h : registry.find? name = some template) (history : List InterfaceClass) :
    (registry.buildAll history).find? name = some template := by
  induction history generalizing registry with
  | nil => exact h
  | cons cls rest ih => exact ih (find?_build_of_find? h cls)

-- A build files templates of the classes it makes, and nothing else.
theorem find?_build_of_ne {registry : Registry} {name : String} (cls : InterfaceClass)
    (h : ∀ new ∈ registry.made cls, new.name ≠ name) :
    (registry.build cls).2.find? name = registry.find? name := by
  induction registry, cls using fun motive => build.induct motive (fun registry members =>
    (∀ new ∈ registry.madeMembers members, new.name ≠ name) →
      (registry.buildMembers members).2.find? name = registry.find? name) with
  | case1 registry cls filed hfound => rw [build_of_find? hfound]
  | case2 registry cls hnone members next hmembers ih =>
      simp only [made, hnone, List.forall_mem_append, List.forall_mem_singleton] at h
      rw [build]
      simp only [hnone, find?_insert, if_neg h.2.symm]
      exact ih h.1
  | case3 registry _ => rw [buildMembers]
  | case4 registry name direction width rest members next hrest ih h =>
      rw [madeMembers] at h
      rw [buildMembers]
      exact ih h
  | case5 registry name direction cls rest filed next hbuild members last hrest ihCls ihRest h =>
      rw [madeMembers, List.forall_mem_append] at h
      simp only [hbuild] at h ihCls
      rw [buildMembers]
      simp only [hbuild]
      exact (ihRest h.2).trans (ihCls h.1)

theorem exists_find?_of_mem_made {registry : Registry} {cls new : InterfaceClass}
    (h : new ∈ registry.made cls) :
    ∃ template, (registry.build cls).2.find? new.name = some template := by
  induction registry, cls using fun motive => build.induct motive (fun registry members =>
    new ∈ registry.madeMembers members →
      ∃ template, (registry.buildMembers members).2.find? new.name = some template) with
  | case1 registry cls filed hfound =>
      simp only [made, hfound, List.not_mem_nil] at h
  | case2 registry cls hnone members next hmembers ih =>
      simp only [made, hnone, List.mem_append, List.mem_singleton] at h
      rw [build]
      simp only [hnone, find?_insert]
      rcases h with h | rfl
      · obtain ⟨template, htemplate⟩ := ih h
        split
        · exact ⟨_, rfl⟩
        · exact ⟨template, htemplate⟩
      · exact ⟨_, if_pos rfl⟩
  | case3 registry h =>
      rw [madeMembers] at h
      cases h
  | case4 registry name direction width rest members next hrest ih h =>
      rw [madeMembers] at h
      rw [buildMembers]
      exact ih h
  | case5 registry name direction cls rest filed next hbuild members last hrest ihCls ihRest h =>
      rw [madeMembers, List.mem_append] at h
      simp only [hbuild] at h ihCls
      rw [buildMembers]
      simp only [hbuild]
      rcases h with h | h
      · obtain ⟨template, htemplate⟩ := ihCls h
        exact ⟨template, find?_buildMembers_of_find? htemplate rest⟩
      · exact ihRest h

theorem within_of_mem_made {registry : Registry} {cls new : InterfaceClass}
    (h : new ∈ registry.made cls) : cls.Within new := by
  induction registry, cls using fun motive => made.induct motive (fun registry members =>
    new ∈ registry.madeMembers members →
      ∃ name direction inner, .nested name direction inner ∈ members ∧ inner.Within new) with
  | case1 registry cls filed hfound =>
      simp only [made, hfound, List.not_mem_nil] at h
  | case2 registry cls hnone ih =>
      simp only [made, hnone, List.mem_append, List.mem_singleton] at h
      rcases h with h | rfl
      · obtain ⟨name, direction, inner, hmem, hwithin⟩ := ih h
        exact .member hmem hwithin
      · exact .self _
  | case3 registry h =>
      rw [madeMembers] at h
      cases h
  | case4 registry name direction width rest ih h =>
      rw [madeMembers] at h
      obtain ⟨name, direction, inner, hmem, hwithin⟩ := ih h
      exact ⟨name, direction, inner, List.mem_cons_of_mem _ hmem, hwithin⟩
  | case5 registry name direction cls rest ihCls ihRest h =>
      rw [madeMembers, List.mem_append] at h
      rcases h with h | h
      · exact ⟨name, direction, cls, List.mem_cons_self, ihCls h⟩
      · obtain ⟨name, direction, inner, hmem, hwithin⟩ := ihRest h
        exact ⟨name, direction, inner, List.mem_cons_of_mem _ hmem, hwithin⟩

-- What is on file under the names of a class and of those within it was made
-- from them, and each such name belongs to one of them only.
structure Files (registry : Registry) (top : InterfaceClass) : Prop where
  template : ∀ inner, top.Within inner → ∀ filed, registry.find? inner.name = some filed →
    filed = inner.template
  unique : ∀ inner, top.Within inner → (registry.find? inner.name).isSome →
    ∀ other, top.Within other → other.name = inner.name → other = inner

-- With a class within the one at hand all classes within that are on file.
def Closed (registry : Registry) (top : InterfaceClass) : Prop :=
  ∀ inner, top.Within inner → (registry.find? inner.name).isSome →
    ∀ deeper, inner.Within deeper → (registry.find? deeper.name).isSome

variable {registry : Registry} {top cls : InterfaceClass}

theorem Files.insert (h : registry.Files top) {template : Template}
    (htemplate : top.Within cls → template = cls.template) (hname : template.className = cls.name)
    (hcls : top.AgreesWith [cls]) : (registry.insert template).Files top := by
  rw [InterfaceClass.AgreesWith, List.forall_mem_singleton] at hcls
  constructor
  · intro inner hinner filed hfiled
    rw [find?_insert, hname] at hfiled
    split at hfiled
    · rename_i hsame
      obtain rfl := hcls inner hinner hsame
      rw [← Option.some.inj hfiled]
      exact htemplate hinner
    · exact h.template inner hinner filed hfiled
  · intro inner hinner hfiled other hother hsame
    rw [find?_insert, hname] at hfiled
    split at hfiled
    · rename_i hnew
      rw [hcls inner hinner hnew, hcls other hother (hsame.trans hnew)]
    · exact h.unique inner hinner hfiled other hother hsame

-- A class within the one at hand gets its own template, whatever else a build
-- makes under names that are not of that class.
theorem files_build (registry : Registry) (cls : InterfaceClass) (h : registry.Files top)
    (hmade : top.AgreesWith (registry.made cls)) :
    (registry.build cls).2.Files top ∧
      (top.Within cls → (registry.build cls).1 = cls.template) := by
  induction registry, cls using fun motive => build.induct motive (fun registry members =>
    registry.Files top → top.AgreesWith (registry.madeMembers members) →
      (registry.buildMembers members).2.Files top ∧
        ((∀ name direction inner, .nested name direction inner ∈ members → top.Within inner) →
          (registry.buildMembers members).1 = InterfaceClass.unfoldedMembers members)) with
  | case1 registry cls filed hfound =>
      rw [build_of_find? hfound]
      exact ⟨h, fun hcls => h.template cls hcls filed hfound⟩
  | case2 registry cls hnone members next hmembers ih =>
      simp only [made, hnone, InterfaceClass.AgreesWith, List.forall_mem_append] at hmade
      obtain ⟨hnext, hunfolded⟩ := ih h hmade.1
      have htemplate (hcls : top.Within cls) :
          (⟨cls.name, (registry.buildMembers cls.merged).1⟩ : Template) = cls.template := by
        rw [InterfaceClass.template, InterfaceClass.unfolded,
          hunfolded fun _ _ _ hmem => hcls.trans (.member hmem (.self _))]
      rw [build]
      simp only [hnone]
      exact ⟨hnext.insert htemplate rfl hmade.2, htemplate⟩
  | case3 registry h hmade =>
      rw [buildMembers, InterfaceClass.unfoldedMembers]
      exact ⟨h, fun _ => rfl⟩
  | case4 registry name direction width rest members next hrest ih h hmade =>
      rw [madeMembers] at hmade
      obtain ⟨hnext, hunfolded⟩ := ih h hmade
      rw [buildMembers, InterfaceClass.unfoldedMembers]
      refine ⟨hnext, fun hwithin => ?_⟩
      simp only [hunfolded fun _ _ _ hmem => hwithin _ _ _ (List.mem_cons_of_mem _ hmem)]
  | case5 registry name direction cls rest filed next hbuild members last hrest ihCls ihRest h
      hmade =>
      simp only [madeMembers, hbuild, InterfaceClass.AgreesWith, List.forall_mem_append] at hmade
      obtain ⟨hnext, hfiled⟩ := ihCls h hmade.1
      simp only [hbuild] at hnext hfiled
      obtain ⟨hlast, hunfolded⟩ := ihRest hnext hmade.2
      rw [buildMembers, InterfaceClass.unfoldedMembers]
      simp only [hbuild]
      refine ⟨hlast, fun hwithin => ?_⟩
      rw [hunfolded fun _ _ _ hmem => hwithin _ _ _ (List.mem_cons_of_mem _ hmem),
        hfiled (hwithin _ _ _ List.mem_cons_self), InterfaceClass.template]

theorem closed_build (registry : Registry) (cls : InterfaceClass) (h : registry.Closed top)
    (hmade : top.AgreesWith (registry.made cls)) :
    (registry.build cls).2.Closed top ∧
      (top.Within cls → ∀ deeper, cls.Within deeper →
        ((registry.build cls).2.find? deeper.name).isSome) := by
  induction registry, cls using fun motive => build.induct motive (fun registry members =>
    registry.Closed top → top.AgreesWith (registry.madeMembers members) →
      (registry.buildMembers members).2.Closed top ∧
        ∀ name direction inner, .nested name direction inner ∈ members → top.Within inner →
          ∀ deeper, inner.Within deeper →
            ((registry.buildMembers members).2.find? deeper.name).isSome) with
  | case1 registry cls filed hfound =>
      rw [build_of_find? hfound]
      exact ⟨h, fun hcls => h cls hcls (Option.isSome_of_eq_some hfound)⟩
  | case2 registry cls hnone members next hmembers ih =>
      simp only [made, hnone, InterfaceClass.AgreesWith, List.forall_mem_append,
        List.forall_mem_singleton] at hmade
      obtain ⟨hnext, hnested⟩ := ih h hmade.1
      have hinsert (name : String)
          (hname : ((registry.buildMembers cls.merged).2.find? name).isSome) :
          (((registry.buildMembers cls.merged).2.insert
            ⟨cls.name, (registry.buildMembers cls.merged).1⟩).find? name).isSome := by
        rw [find?_insert]
        split
        · rfl
        · exact hname
      have hwithin (hcls : top.Within cls) (deeper : InterfaceClass) (hdeeper : cls.Within deeper) :
          (((registry.buildMembers cls.merged).2.insert
            ⟨cls.name, (registry.buildMembers cls.merged).1⟩).find? deeper.name).isSome := by
        cases hdeeper with
        | self => rw [find?_insert, if_pos rfl, Option.isSome_some]
        | member hmem hinner =>
            exact hinsert _ (hnested _ _ _ hmem (hcls.trans (.member hmem (.self _))) _ hinner)
      rw [build]
      simp only [hnone]
      refine ⟨fun inner hinner hfiled deeper hdeeper => ?_, hwithin⟩
      by_cases hsame : inner.name = cls.name
      · obtain rfl := hmade.2 inner hinner hsame
        exact hwithin hinner deeper hdeeper
      · rw [find?_insert, if_neg hsame] at hfiled
        exact hinsert _ (hnext inner hinner hfiled deeper hdeeper)
  | case3 registry h hmade =>
      rw [buildMembers]
      exact ⟨h, fun _ _ _ hmem => absurd hmem List.not_mem_nil⟩
  | case4 registry name direction width rest members next hrest ih h hmade =>
      rw [madeMembers] at hmade
      obtain ⟨hnext, hnested⟩ := ih h hmade
      rw [buildMembers]
      refine ⟨hnext, fun other direction' inner hmem => ?_⟩
      rcases List.mem_cons.mp hmem with heq | hmem
      · cases heq
      · exact hnested other direction' inner hmem
  | case5 registry name direction cls rest filed next hbuild members last hrest ihCls ihRest h
      hmade =>
      simp only [madeMembers, hbuild, InterfaceClass.AgreesWith, List.forall_mem_append] at hmade
      obtain ⟨hnext, hfiled⟩ := ihCls h hmade.1
      simp only [hbuild] at hnext hfiled
      obtain ⟨hlast, hnested⟩ := ihRest hnext hmade.2
      rw [buildMembers]
      simp only [hbuild]
      refine ⟨hlast, fun other direction' inner hmem hinner deeper hdeeper => ?_⟩
      rcases List.mem_cons.mp hmem with heq | hmem
      · obtain ⟨rfl, rfl, rfl⟩ := Member.nested.inj heq
        obtain ⟨template, hdeeper⟩ := Option.isSome_iff_exists.mp (hfiled hinner deeper hdeeper)
        exact Option.isSome_of_eq_some (find?_buildMembers_of_find? hdeeper rest)
      · exact hnested other direction' inner hmem hinner deeper hdeeper

-- A registry that began with a file, beside one that began empty: builds of
-- classes within the one at hand see no difference between them.
structure Ahead (file now fresh : Registry) (top : InterfaceClass) : Prop where
  kept : ∀ name template, file.find? name = some template → now.find? name = some template
  beside : ∀ name, file.find? name = none → now.find? name = fresh.find? name
  within : ∀ inner, top.Within inner → ∀ filed, file.find? inner.name = some filed →
    ∀ new, fresh.find? inner.name = some new → new = filed

namespace Ahead

variable {file now fresh : Registry}

theorem find?_eq_none (h : Ahead file now fresh top) {name : String}
    (hnow : now.find? name = none) :
    file.find? name = none := by
  cases hfile : file.find? name with
  | none => rfl
  | some template =>
      rw [h.kept name template hfile] at hnow
      cases hnow

theorem insert (h : Ahead file now fresh top) {template : Template}
    (hnone : file.find? template.className = none) :
    Ahead file (now.insert template) (fresh.insert template) top := by
  have hne {name : String} {filed : Template} (hfiled : file.find? name = some filed) :
      name ≠ template.className := by
    rintro rfl
    rw [hnone] at hfiled
    cases hfiled
  constructor
  · intro name filed hfiled
    rw [find?_insert, if_neg (hne hfiled)]
    exact h.kept name filed hfiled
  · intro name hname
    rw [find?_insert, find?_insert, h.beside name hname]
  · intro inner hinner filed hfiled new hnew
    rw [find?_insert, if_neg (hne hfiled)] at hnew
    exact h.within inner hinner filed hfiled new hnew

-- What the file has for a class, the other registry has too or makes just so.
theorem build_of_filed (h : Ahead file now fresh top) (hfiles : file.Files top)
    (hclosed : file.Closed top) (hcls : top.Within cls)
    (hfiled : (file.find? cls.name).isSome) :
    (fresh.build cls).1 = cls.template ∧ Ahead file now (fresh.build cls).2 top := by
  have hnames (inner : InterfaceClass) (hinner : cls.Within inner) :
      ∃ filed, file.find? inner.name = some filed :=
    Option.isSome_iff_exists.mp (hclosed cls hcls hfiled inner hinner)
  have hunique (inner : InterfaceClass) (hinner : cls.Within inner) (other : InterfaceClass)
      (hother : cls.Within other) (hsame : other.name = inner.name) : other = inner :=
    hfiles.unique inner (hcls.trans hinner) (hclosed cls hcls hfiled inner hinner) other
      (hcls.trans hother) hsame
  have hfresh : fresh.Files cls := by
    refine ⟨fun inner hinner new hnew => ?_, fun inner hinner _ => hunique inner hinner⟩
    obtain ⟨filed, hfound⟩ := hnames inner hinner
    rw [h.within inner (hcls.trans hinner) filed hfound new hnew]
    exact hfiles.template inner (hcls.trans hinner) filed hfound
  have hmade : cls.AgreesWith (fresh.made cls) := fun new hnew inner hinner hsame =>
    hunique new (within_of_mem_made hnew) inner hinner hsame
  obtain ⟨hnext, htemplate⟩ := files_build fresh cls hfresh hmade
  refine ⟨htemplate (.self cls), h.kept, fun name hname => ?_,
    fun inner hinner filed hfound new hnew => ?_⟩
  · rw [h.beside name hname, find?_build_of_ne]
    rintro new hnew rfl
    obtain ⟨filed, hfound⟩ := hnames new (within_of_mem_made hnew)
    rw [hname] at hfound
    cases hfound
  · by_cases hother : ∃ other ∈ fresh.made cls, other.name = inner.name
    · obtain ⟨other, hother, hsame⟩ := hother
      have hwithin := within_of_mem_made hother
      obtain rfl := hfiles.unique inner hinner (Option.isSome_of_eq_some hfound) other
        (hcls.trans hwithin) hsame
      rw [hnext.template other hwithin new hnew, hfiles.template other hinner filed hfound]
    · rw [find?_build_of_ne cls fun other hmem hsame => hother ⟨other, hmem, hsame⟩] at hnew
      exact h.within inner hinner filed hfound new hnew

theorem build (h : Ahead file now fresh top) (hfiles : file.Files top) (hclosed : file.Closed top)
    (hcls : top.Within cls) :
    (now.build cls).1 = (fresh.build cls).1 ∧
      Ahead file (now.build cls).2 (fresh.build cls).2 top := by
  induction now, cls using fun motive => build.induct motive (fun now members =>
    ∀ fresh, Ahead file now fresh top →
      (∀ name direction inner, .nested name direction inner ∈ members → top.Within inner) →
        (now.buildMembers members).1 = (fresh.buildMembers members).1 ∧
          Ahead file (now.buildMembers members).2 (fresh.buildMembers members).2 top)
    generalizing fresh with
  | case1 now cls filed hfound =>
      rw [build_of_find? hfound]
      cases hfile : file.find? cls.name with
      | none => rw [build_of_find? ((h.beside _ hfile).symm.trans hfound)]; exact ⟨rfl, h⟩
      | some template =>
          obtain ⟨hmade, hnext⟩ :=
            h.build_of_filed hfiles hclosed hcls (Option.isSome_of_eq_some hfile)
          obtain rfl := Option.some.inj ((h.kept _ _ hfile).symm.trans hfound)
          exact ⟨(hfiles.template cls hcls _ hfile).trans hmade.symm, hnext⟩
  | case2 now cls hnone members next hmembers ih =>
      have hfile := h.find?_eq_none hnone
      have hfresh : fresh.find? cls.name = none := (h.beside _ hfile).symm.trans hnone
      obtain ⟨hmade, hnext⟩ := ih fresh h fun _ _ _ hmem => hcls.trans (.member hmem (.self _))
      rw [Registry.build, Registry.build]
      simp only [hnone, hfresh, hmade]
      exact ⟨trivial, hnext.insert hfile⟩
  | case3 now fresh h _ =>
      rw [buildMembers, buildMembers]
      exact ⟨rfl, h⟩
  | case4 now name direction width rest members next hrest ih fresh h hwithin =>
      obtain ⟨hmade, hnext⟩ :=
        ih fresh h fun _ _ _ hmem => hwithin _ _ _ (List.mem_cons_of_mem _ hmem)
      rw [buildMembers, buildMembers]
      simp only [hmade]
      exact ⟨trivial, hnext⟩
  | case5 now name direction cls rest filed next hbuild members last hrest ihCls ihRest fresh h
      hwithin =>
      obtain ⟨hcls, hnext⟩ := ihCls h (hwithin _ _ _ List.mem_cons_self)
      simp only [hbuild] at hcls hnext
      obtain ⟨hmade, hlast⟩ :=
        ihRest _ hnext fun _ _ _ hmem => hwithin _ _ _ (List.mem_cons_of_mem _ hmem)
      rw [buildMembers, buildMembers]
      simp only [hbuild, hcls, hmade]
      exact ⟨trivial, hlast⟩

end Ahead

theorem files_buildAll {history : List InterfaceClass} (hfiles : registry.Files top)
    (hclosed : registry.Closed top) (hmade : top.AgreesWith (registry.madeAll history)) :
    (registry.buildAll history).Files top ∧ (registry.buildAll history).Closed top := by
  induction history generalizing registry with
  | nil => exact ⟨hfiles, hclosed⟩
  | cons cls rest ih =>
      rw [madeAll, InterfaceClass.AgreesWith, List.forall_mem_append] at hmade
      exact ih (files_build registry cls hfiles hmade.1).1
        (closed_build registry cls hclosed hmade.1).1 hmade.2

theorem buildAll_append (registry : Registry) (history later : List InterfaceClass) :
    registry.buildAll (history ++ later) = (registry.buildAll history).buildAll later := by
  induction history generalizing registry with
  | nil => rfl
  | cons cls rest ih => exact ih _

theorem Distinct.buildAll (h : registry.Distinct) (history : List InterfaceClass) :
    (registry.buildAll history).Distinct := by
  induction history generalizing registry with
  | nil => exact h
  | cons cls rest ih => exact ih (registry.distinct_build cls h).2

theorem distinct_buildAll (history : List InterfaceClass) : (empty.buildAll history).Distinct := by
  have hempty : empty.Distinct := fun _ _ h => nomatch h
  exact hempty.buildAll history

theorem exists_find?_of_mem_madeAll {history : List InterfaceClass} {new : InterfaceClass}
    (h : new ∈ registry.madeAll history) :
    ∃ template, (registry.buildAll history).find? new.name = some template := by
  induction history generalizing registry with
  | nil => cases h
  | cons cls rest ih =>
      rcases List.mem_append.mp h with h | h
      · obtain ⟨template, htemplate⟩ := exists_find?_of_mem_made h
        exact ⟨template, find?_buildAll_of_find? htemplate rest⟩
      · exact ih h

-- Templates are kept by class name. A class gets the template it gets in an
-- empty registry if no other class of its name, or of the name of a class within
-- it, was made before. Under a name that was made once all classes get one
-- template.
theorem build_after_history (history : List InterfaceClass) :
    (∀ cls, cls.AgreesWith (empty.madeAll history) →
        ((empty.buildAll history).build cls).1 = (empty.build cls).1) ∧
      ∀ new ∈ empty.madeAll history, ∃ template, ∀ later cls, cls.name = new.name →
        ((empty.buildAll (history ++ later)).build cls).1 = template := by
  constructor
  · intro cls hmade
    have hempty : empty.Files cls := ⟨nofun, nofun⟩
    have hnone : empty.Closed cls := nofun
    obtain ⟨hfiles, hclosed⟩ := files_buildAll hempty hnone hmade
    have hahead : Ahead (empty.buildAll history) (empty.buildAll history) empty cls :=
      ⟨fun _ _ h => h, fun _ h => h, nofun⟩
    exact (hahead.build hfiles hclosed (.self cls)).1
  · intro new hnew
    obtain ⟨template, htemplate⟩ := exists_find?_of_mem_madeAll hnew
    refine ⟨template, fun later cls hname => ?_⟩
    have hkept := find?_buildAll_of_find? htemplate later
    rw [← hname] at hkept
    rw [buildAll_append, build_of_find? hkept]

def narrowBus : InterfaceClass := .mk "bus" [] [.leaf "data" .output 8]

-- Two classes with the same bus inside.

def lane : InterfaceClass :=
  .mk "lane" [] [.leaf "clock" .output 1, .nested "bus_" .output narrowBus]

def link : InterfaceClass :=
  .mk "link" [] [.leaf "reset" .output 1, .nested "bus_" .input narrowBus]

theorem build_link_after_lane :
    (link.AgreesWith (empty.madeAll [lane]) ∧
        ((empty.buildAll [lane]).build link).1 = (empty.build link).1) ∧
      narrowBus ∈ empty.madeAll [lane] ∧ ∃ template, ∀ later cls, cls.name = narrowBus.name →
        ((empty.buildAll ([lane] ++ later)).build cls).1 = template := by
  have hmade : empty.madeAll [lane] = [narrowBus, lane] := by decide +kernel
  have hmerged : link.merged = [.leaf "reset" .output 1, .nested "bus_" .input narrowBus] := rfl
  have hbus : narrowBus.merged = [.leaf "data" .output 8] := rfl
  have hwithin (inner : InterfaceClass) (h : link.Within inner) :
      inner = link ∨ inner = narrowBus := by
    cases h with
    | self => exact .inl rfl
    | member hmem h =>
        simp only [hmerged, List.mem_cons, List.not_mem_nil, or_false, reduceCtorEq, false_or,
          Member.nested.injEq] at hmem
        obtain ⟨-, -, rfl⟩ := hmem
        cases h with
        | self => exact .inr rfl
        | member hmem =>
            simp only [hbus, List.mem_singleton, reduceCtorEq] at hmem
  have hagrees : link.AgreesWith (empty.madeAll [lane]) := by
    intro other hother inner hinner hsame
    rw [hmade] at hother
    simp only [List.mem_cons, List.not_mem_nil, or_false] at hother
    rcases hother with rfl | rfl <;> rcases hwithin inner hinner with rfl | rfl
    · exact absurd hsame (by decide)
    · rfl
    · exact absurd hsame (by decide)
    · exact absurd hsame (by decide)
  have hbusMade : narrowBus ∈ empty.madeAll [lane] := hmade ▸ List.mem_cons_self
  exact ⟨⟨hagrees, (build_after_history [lane]).1 link hagrees⟩, hbusMade,
    (build_after_history [lane]).2 narrowBus hbusMade⟩

-- A class with the name of another one that differs in a width.
def wideBus : InterfaceClass := .mk "bus" [] [.leaf "data" .output 16]

theorem build_wideBus_after_narrowBus :
    ((empty.buildAll [narrowBus]).build wideBus).1 ≠ (empty.build wideBus).1 := by
  decide +kernel

end Registry

end Rtl
