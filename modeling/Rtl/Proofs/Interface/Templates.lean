import Rtl.Proofs.Interface.Forests

namespace Rtl

namespace Member

theorem names_put (member : Member) (into : List Member) (h : (into.map Member.name).Nodup) :
    ((member.put into).map Member.name).Nodup ∧
      ∀ name, name ∈ (member.put into).map Member.name ↔
        name = member.name ∨ name ∈ into.map Member.name := by
  induction into with
  | nil => simp [put]
  | cons other rest ih =>
      obtain ⟨hother, hrest⟩ := List.nodup_cons.mp h
      simp only [put]
      split
      · rename_i hsame
        simp only [List.map_cons, ← hsame]
        exact ⟨h, fun name => by simp⟩
      · rename_i hne
        obtain ⟨hnodup, hmem⟩ := ih hrest
        refine ⟨List.nodup_cons.mpr ⟨?_, hnodup⟩, fun name => ?_⟩
        · rw [hmem]
          exact not_or.mpr ⟨hne, hother⟩
        · simp only [List.map_cons, List.mem_cons, hmem]
          exact or_left_comm

theorem nodup_putAll (members : List Member) {into : List Member}
    (h : (into.map Member.name).Nodup) : ((putAll members into).map Member.name).Nodup := by
  induction members generalizing into with
  | nil => exact h
  | cons member rest ih => exact ih (names_put member into h).1

-- A member whose direction, and that of every member inside it, is in or out.
inductive Directed : Member → Prop
  | leaf (name : String) {direction : Direction} (h : direction ≠ .inout) (width : Nat) :
      Directed (.leaf name direction width)
  | nested (name : String) {direction : Direction} (h : direction ≠ .inout) {cls : InterfaceClass}
      (hcls : ∀ member ∈ cls.merged, Directed member) : Directed (.nested name direction cls)

end Member

namespace InterfaceClass

theorem nodup_merged (cls : InterfaceClass) : (cls.merged.map Member.name).Nodup := by
  cases cls with
  | mk name parents members =>
      rw [merged]
      exact Member.nodup_putAll _ (Member.nodup_putAll _ List.nodup_nil)

def Directed (cls : InterfaceClass) : Prop := ∀ member ∈ cls.merged, member.Directed

-- A class and those of its members, at any depth.
inductive Within : InterfaceClass → InterfaceClass → Prop
  | self (cls : InterfaceClass) : Within cls cls
  | member {cls inner other : InterfaceClass} {name : String} {direction : Direction}
      (hmem : .nested name direction inner ∈ cls.merged) (h : Within inner other) : Within cls other

end InterfaceClass

namespace Template

-- A template whose members are all in or out.
def Directed (template : Template) : Prop :=
  template.members.All fun shape => shape.masterDirection ≠ .inout

end Template

namespace Registry

open Forest

theorem find?_insert (registry : Registry) (template : Template) (name : String) :
    (registry.insert template).find? name =
      if name = template.className then some template else registry.find? name := by
  by_cases h : name = template.className
  · rw [if_pos h, h, find?_insert_self]
  · rw [if_neg h]
    simp only [insert, find?, List.lookup_cons, beq_false_of_ne h]
    induction registry.templates with
    | nil => rfl
    | cons entry rest ih =>
        obtain ⟨other, filed⟩ := entry
        by_cases hsame : other = template.className
        · have hother : (name == other) = false := beq_false_of_ne (hsame ▸ h)
          rw [List.filter_cons_of_neg (by simp [hsame]), List.lookup_cons, hother, ih]
        · rw [List.filter_cons_of_pos (by simpa using hsame), List.lookup_cons,
            List.lookup_cons, ih]

-- No template on file has a level with a name twice.
def Distinct (registry : Registry) : Prop :=
  ∀ name template, registry.find? name = some template → template.members.Distinct

theorem Distinct.insert {registry : Registry} (h : registry.Distinct) {template : Template}
    (hdistinct : template.members.Distinct) : (registry.insert template).Distinct := by
  intro name filed hfound
  rw [find?_insert] at hfound
  split at hfound
  · obtain rfl := Option.some.inj hfound
    exact hdistinct
  · exact h name filed hfound

-- The templates of the class and of those within it that are on file are
-- directed. A class is known by its name alone.
def Directs (registry : Registry) (cls : InterfaceClass) : Prop :=
  ∀ inner, cls.Within inner → ∀ template, registry.find? inner.name = some template →
    template.Directed

theorem distinct_build (registry : Registry) (cls : InterfaceClass) (h : registry.Distinct) :
    (registry.build cls).1.members.Distinct ∧ (registry.build cls).2.Distinct := by
  induction registry, cls using fun motive => build.induct motive (fun registry members =>
    registry.Distinct → (members.map Member.name).Nodup →
      (registry.buildMembers members).1.Distinct ∧ (registry.buildMembers members).2.Distinct ∧
        (registry.buildMembers members).1.names = members.map Member.name) with
  | case1 registry cls template hfound =>
      rw [build_of_find? hfound]
      exact ⟨h _ _ hfound, h⟩
  | case2 registry cls hnone members next hmembers ih =>
      obtain ⟨hdistinct, hnext, -⟩ := ih h cls.nodup_merged
      rw [build]
      simp only [hnone]
      exact ⟨hdistinct, hnext.insert hdistinct⟩
  | case3 registry hregistry =>
      rw [buildMembers]
      exact ⟨trivial, hregistry, rfl⟩
  | case4 registry name direction width rest members next hrest ih hregistry hnodup =>
      obtain ⟨hname, hnodup⟩ := List.nodup_cons.mp hnodup
      obtain ⟨hdistinct, hnext, hnames⟩ := ih hregistry hnodup
      rw [buildMembers]
      refine ⟨⟨hnames ▸ hname, trivial, hdistinct⟩, hnext, ?_⟩
      simp only [names, hnames, List.map_cons, Member.name]
  | case5 registry name direction cls rest template next hbuild members last hrest ihCls ihRest
      hregistry hnodup =>
      obtain ⟨hname, hnodup⟩ := List.nodup_cons.mp hnodup
      obtain ⟨hinner, hnext⟩ := ihCls hregistry
      rw [hbuild] at hinner hnext
      obtain ⟨hdistinct, hlast, hnames⟩ := ihRest hnext hnodup
      rw [buildMembers]
      simp only [hbuild]
      refine ⟨⟨hnames ▸ hname, hinner, hdistinct⟩, hlast, ?_⟩
      simp only [names, hnames, List.map_cons, Member.name]

-- Whatever is on file later was there before or is directed.
def GrowsDirected (before now : Registry) : Prop :=
  ∀ name template, now.find? name = some template →
    before.find? name = some template ∨ template.Directed

namespace GrowsDirected

variable {before now later : Registry}

theorem refl (registry : Registry) : registry.GrowsDirected registry :=
  fun _ _ hfound => .inl hfound

theorem trans (h : before.GrowsDirected now) (hnow : now.GrowsDirected later) :
    before.GrowsDirected later := by
  intro name template hfound
  rcases hnow name template hfound with hnow | hdirected
  · exact h name template hnow
  · exact .inr hdirected

theorem insert (h : before.GrowsDirected now) {template : Template}
    (hdirected : template.Directed) : before.GrowsDirected (now.insert template) := by
  intro name filed hfound
  rw [find?_insert] at hfound
  split at hfound
  · obtain rfl := Option.some.inj hfound
    exact .inr hdirected
  · exact h name filed hfound

theorem directs (h : before.GrowsDirected now) {cls : InterfaceClass} (hcls : before.Directs cls) :
    now.Directs cls := by
  intro inner hwithin template hfound
  rcases h _ _ hfound with hbefore | hdirected
  · exact hcls inner hwithin template hbefore
  · exact hdirected

end GrowsDirected

-- What is made for a directed class is directed, if nothing else is on file
-- under the names that count.
theorem directed_build (registry : Registry) (cls : InterfaceClass) (hcls : cls.Directed)
    (hfile : registry.Directs cls) :
    (registry.build cls).1.Directed ∧ registry.GrowsDirected (registry.build cls).2 := by
  induction registry, cls using fun motive => build.induct motive (fun registry members =>
    (∀ member ∈ members, member.Directed) →
      (∀ name direction cls, .nested name direction cls ∈ members → registry.Directs cls) →
        (registry.buildMembers members).1.All (fun shape => shape.masterDirection ≠ .inout) ∧
          registry.GrowsDirected (registry.buildMembers members).2) with
  | case1 registry cls template hfound =>
      rw [build_of_find? hfound]
      exact ⟨hfile cls (.self cls) template hfound, .refl registry⟩
  | case2 registry cls hnone members next hmembers ih =>
      have hnested : ∀ name direction inner, .nested name direction inner ∈ cls.merged →
          registry.Directs inner :=
        fun name direction inner hmem other hother => hfile other (.member hmem hother)
      obtain ⟨hdirected, hgrows⟩ := ih hcls hnested
      rw [build]
      simp only [hnone]
      exact ⟨hdirected, hgrows.insert hdirected⟩
  | case3 registry =>
      rw [buildMembers]
      exact ⟨trivial, .refl registry⟩
  | case4 registry name direction width rest members next hrest ih hmembers hnested =>
      obtain ⟨hfirst, hothers⟩ := List.forall_mem_cons.mp hmembers
      obtain ⟨hdirected, hgrows⟩ := ih hothers
        fun _ _ _ hmem => hnested _ _ _ (List.mem_cons_of_mem _ hmem)
      cases hfirst with
      | leaf _ hdirection =>
          rw [buildMembers]
          exact ⟨⟨hdirection, trivial, hdirected⟩, hgrows⟩
  | case5 registry name direction cls rest template next hbuild members last hrest ihCls ihRest
      hmembers hnested =>
      obtain ⟨hfirst, hothers⟩ := List.forall_mem_cons.mp hmembers
      cases hfirst with
      | nested _ hdirection hcls =>
          obtain ⟨hinner, hgrows⟩ := ihCls hcls (hnested _ _ _ List.mem_cons_self)
          rw [hbuild] at hinner hgrows
          -- What the nested class puts on file does not spoil the members after it.
          obtain ⟨hdirected, hlast⟩ := ihRest hothers
            fun _ _ _ hmem => hgrows.directs (hnested _ _ _ (List.mem_cons_of_mem _ hmem))
          rw [buildMembers]
          simp only [hbuild]
          exact ⟨⟨hdirection, hinner, hdirected⟩, hgrows.trans hlast⟩

end Registry

end Rtl
