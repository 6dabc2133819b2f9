import Rtl.Interface.Blueprint
import Rtl.Proofs.Interface.Listing

namespace Rtl

open Forest

theorem modify_append_left {α : Type} {front : List α} {index : Nat} (h : index < front.length)
    (back : List α) (change : α → α) :
    (front ++ back).modify index change = front.modify index change ++ back := by
  induction front generalizing index with
  | nil => cases h
  | cons first rest ih =>
      cases index with
      | zero => rfl
      | succ index =>
          rw [List.cons_append, List.modify_succ_cons, List.modify_succ_cons,
            ih (Nat.lt_of_succ_lt_succ h), List.cons_append]

theorem modify_append_length {α : Type} (front : List α) (item : α) (back : List α)
    (change : α → α) :
    (front ++ item :: back).modify front.length change = front ++ change item :: back := by
  induction front with
  | nil => rfl
  | cons first rest ih =>
      rw [List.cons_append, List.length_cons, List.modify_succ_cons, ih, List.cons_append]

namespace Forest

variable {α : Type}

namespace Row

theorem number_of_not_mem {name : String} {index : Nat} {members : List (String × Nat)}
    (h : name ∉ members.map (·.1)) : number name index members = members ++ [(name, index)] := by
  induction members with
  | nil => rfl
  | cons first rest ih =>
      obtain ⟨hfirst, hrest⟩ := not_or.mp (List.mem_cons.not.mp h)
      obtain ⟨other, place⟩ := first
      rw [number, if_neg (Ne.symm hfirst), ih hrest, List.cons_append]

-- Enters members behind those there are.
def addMembers (row : Row α) (more : List (String × Nat)) : Row α :=
  { row with members := row.members ++ more }

theorem addMember_eq {name : String} {index : Nat} {row : Row α}
    (h : name ∉ row.members.map (·.1)) :
    row.addMember name index = row.addMembers [(name, index)] := by
  rw [addMember, number_of_not_mem h, addMembers]

end Row

theorem names_append (front back : Forest α) :
    (front.append back).names = front.names ++ back.names := by
  rw [← map_entries 0, entries_append, List.map_append, map_entries, map_entries]

-- A node with members is a node without, to which they were added.
theorem rows_cons_of_nil (name : String) (item : α) (inner : Forest α) (parent : Option Nat)
    (first : Nat) : (cons name item inner nil).rows parent first =
      Row.addMembers ⟨name, item, parent, []⟩ (inner.entries (first + 1)) ::
        inner.rows (some first) (first + 1) := by
  rw [rows, rows, List.append_nil]
  rfl

end Forest

namespace Blueprint

variable {source blueprint : Blueprint}

-- A blueprint has, from some number on, the nodes of a forest.
def Has (blueprint : Blueprint) (parent : Option Nat) (first : Nat) (forest : Forest Shape) :
    Prop :=
  ∀ index row, (forest.rows parent first)[index]? = some row →
    blueprint.rows[first + index]? = some row

namespace Has

variable {parent : Option Nat} {first : Nat} {name : String} {shape : Shape}
  {below beside : Forest Shape}

theorem self (h : source.Has parent first (cons name shape below beside)) :
    source.rows[first]? = some ⟨name, shape, parent, below.entries (first + 1)⟩ := h 0 _ rfl

theorem inner (h : source.Has parent first (cons name shape below beside)) :
    source.Has (some first) (first + 1) below := by
  intro index row hrow
  have hlt : index < below.size := by
    rw [← length_rows (some first) (first + 1)]
    exact (List.getElem?_eq_some_iff.mp hrow).1
  rw [Nat.add_right_comm]
  exact h (index + 1) row ((getElem?_rows_inner hlt ..).trans hrow)

theorem rest (h : source.Has parent first (cons name shape below beside)) :
    source.Has parent (first + 1 + below.size) beside := by
  intro index row hrow
  have hindex : first + 1 + below.size + index = first + (index + 1 + below.size) := by omega
  rw [hindex]
  exact h (index + 1 + below.size) row ((getElem?_rows_rest ..).trans hrow)

end Has

-- Copies members of a node one after the other.
def copyMembers (source : Blueprint) (levels : Nat) (target : Nat) (blueprint : Blueprint)
    (members : List (String × Nat)) : Option Blueprint :=
  members.foldlM (fun blueprint (name, number) => do
    let member ← source.rows[number]?
    let index := blueprint.rows.length
    source.copyBelow levels (blueprint.addMember target name member.item) index number) blueprint

theorem copyBelow_succ (source blueprint : Blueprint) (levels target node : Nat) :
    source.copyBelow (levels + 1) blueprint target node =
      source.rows[node]?.bind fun row => source.copyMembers levels target blueprint row.members :=
  rfl

-- A blueprint with more members of one of its nodes, behind those there are.
def hang (blueprint : Blueprint) (target : Nat) (forest : Forest Shape) : Blueprint :=
  ⟨blueprint.rows.modify target (·.addMembers (forest.entries blueprint.rows.length)) ++
    forest.rows (some target) blueprint.rows.length⟩

section

variable {target : Nat} {name : String} {shape : Shape}

theorem length_hang (blueprint : Blueprint) (target : Nat) (forest : Forest Shape) :
    (blueprint.hang target forest).rows.length = blueprint.rows.length + forest.size := by
  rw [hang, List.length_append, List.length_modify, length_rows]

theorem addMember_eq_hang
    (h : ∀ row, blueprint.rows[target]? = some row → name ∉ row.members.map (·.1)) :
    blueprint.addMember target name shape = blueprint.hang target (cons name shape .nil .nil) := by
  refine congrArg (fun rows => (⟨rows ++ _⟩ : Blueprint)) (List.ext_getElem? fun index => ?_)
  rw [List.getElem?_modify, List.getElem?_modify]
  by_cases hindex : target = index
  · subst hindex
    cases hrow : blueprint.rows[target]? with
    | none => rfl
    | some row =>
        have hadded : row.addMember name blueprint.rows.length = row.addMembers
            (entries blueprint.rows.length (cons name shape .nil .nil)) :=
          Row.addMember_eq (h row hrow)
        simpa using hadded
  · simp only [if_neg hindex]

theorem hang_hang (h : target < blueprint.rows.length) (front back : Forest Shape) :
    (blueprint.hang target front).hang target back = blueprint.hang target (front.append back) := by
  have hlt : target < (blueprint.rows.modify target
      (·.addMembers (front.entries blueprint.rows.length))).length := by
    rwa [List.length_modify]
  rw [hang, length_hang, hang, hang, modify_append_left hlt, List.modify_modify_eq, rows_append,
    entries_append, List.append_assoc]
  refine congrArg (fun change => (⟨blueprint.rows.modify target change ++ _⟩ : Blueprint)) ?_
  funext row
  simp only [Function.comp_apply, Row.addMembers, List.append_assoc]

theorem getElem?_hang (h : target < blueprint.rows.length) (forest : Forest Shape) :
    (blueprint.hang target forest).rows[target]? =
      blueprint.rows[target]?.map (·.addMembers (forest.entries blueprint.rows.length)) := by
  rw [hang, List.getElem?_append_left (by rwa [List.length_modify]), List.getElem?_modify]
  simp

theorem getElem?_hang_last (blueprint : Blueprint) (target : Nat) (name : String) (shape : Shape) :
    (blueprint.hang target (cons name shape .nil .nil)).rows[blueprint.rows.length]? =
      some ⟨name, shape, some target, []⟩ := by
  rw [hang, List.getElem?_append_right (by rw [List.length_modify]), List.length_modify,
    Nat.sub_self]
  rfl

-- Members of the node that was added last.
theorem hang_last (blueprint : Blueprint) (target : Nat) (name : String) (shape : Shape)
    (inner : Forest Shape) :
    (blueprint.hang target (cons name shape .nil .nil)).hang blueprint.rows.length inner =
      blueprint.hang target (cons name shape inner .nil) := by
  have hlength : (blueprint.rows.modify target
      (·.addMembers ((cons name shape .nil .nil).entries blueprint.rows.length))).length =
        blueprint.rows.length := List.length_modify ..
  have hlast := modify_append_length (blueprint.rows.modify target
    (·.addMembers ((cons name shape .nil .nil).entries blueprint.rows.length)))
    ⟨name, shape, some target, []⟩ []
    (·.addMembers (inner.entries (blueprint.rows.length + 1)))
  rw [hlength] at hlast
  rw [hang, length_hang, hang, hang, rows_cons_of_nil name shape inner]
  simp only [Forest.rows, entries, List.append_nil, size, Nat.add_zero] at hlast ⊢
  rw [hlast, List.append_assoc]
  rfl

end

-- What is copied under a node is the forest there, if none of its names is there already.
theorem copyMembers_eq {levels target first : Nat} {parent : Option Nat} {forest : Forest Shape}
    (hlevels : forest.size ≤ levels) (hhas : source.Has parent first forest)
    (hdistinct : forest.Distinct) (htarget : target < blueprint.rows.length)
    (hnew : ∀ row, blueprint.rows[target]? = some row →
      List.Disjoint (row.members.map (·.1)) forest.names) :
    source.copyMembers levels target blueprint (forest.entries first) =
      some (blueprint.hang target forest) := by
  induction forest generalizing parent first levels target blueprint with
  | nil =>
      have hsame : (fun row : Row Shape => row.addMembers
          ((.nil : Forest Shape).entries blueprint.rows.length)) = id :=
        funext fun row => by rw [Row.addMembers, entries, List.append_nil, id]
      rw [hang, Forest.rows, List.append_nil, hsame, List.modify_id]
      rfl
  | cons name shape inner rest ihi ihr =>
      obtain ⟨hname, hinner, hrest⟩ := hdistinct
      simp only [size] at hlevels
      obtain ⟨levels, rfl⟩ : ∃ below, levels = below + 1 := ⟨levels - 1, by omega⟩
      have hadd : blueprint.addMember target name shape =
          blueprint.hang target (cons name shape .nil .nil) := by
        refine addMember_eq_hang fun row hrow hmem => hnew row hrow hmem ?_
        exact List.mem_cons_self
      have hlength (forest : Forest Shape) : (blueprint.hang target forest).rows.length =
          blueprint.rows.length + forest.size := length_hang ..
      have hbelow : source.copyBelow (levels + 1) (blueprint.addMember target name shape)
          blueprint.rows.length first =
            some (blueprint.hang target (cons name shape inner .nil)) := by
        rw [copyBelow_succ, hhas.self, Option.bind_some, hadd,
          ← hang_last blueprint target name shape inner]
        have hlast : blueprint.rows.length <
            (blueprint.hang target (cons name shape .nil .nil)).rows.length := by
          rw [hlength]
          exact Nat.lt_add_one _
        refine ihi (by omega) hhas.inner hinner hlast fun row hrow => ?_
        rw [getElem?_hang_last] at hrow
        obtain rfl := Option.some.inj hrow
        exact List.disjoint_nil_left _
      have hbeside : source.copyMembers (levels + 1) target
          (blueprint.hang target (cons name shape inner .nil))
          (rest.entries (first + 1 + inner.size)) =
            some ((blueprint.hang target (cons name shape inner .nil)).hang target rest) := by
        refine ihr (by omega) hhas.rest hrest (by rw [hlength]; omega) fun row hrow => ?_
        rw [getElem?_hang htarget] at hrow
        obtain ⟨before, hbefore, rfl⟩ := Option.map_eq_some_iff.mp hrow
        have hapart := hnew before hbefore
        simp only [Row.addMembers, entries, List.map_append, List.map_cons, List.map_nil]
        refine List.disjoint_append_left.mpr ⟨fun other hother hmem => ?_, ?_⟩
        · exact hapart hother (List.mem_cons_of_mem _ hmem)
        · simpa using hname
      rw [entries, copyMembers, List.foldlM_cons]
      simp only [hhas.self, Option.bind_eq_bind, Option.bind_some, hbelow]
      rw [hang_hang htarget] at hbeside
      exact hbeside

end Blueprint

-- How a template is stored.
def Template.blueprint (template : Template) : Blueprint := ⟨template.tree.rows none 0⟩

namespace Blueprint

theorem ofName_hang (template : Template) :
    (ofName template.className).hang 0 template.members = template.blueprint :=
  congrArg mk (rows_cons_of_nil ..).symm

-- A name that none of the members has.
theorem not_mem_ofName_hang (className : String) {name : String} {front : Forest Shape}
    (h : name ∉ front.names) (row : Row Shape)
    (hrow : ((ofName className).hang 0 front).rows[0]? = some row) :
    name ∉ row.members.map (·.1) := by
  obtain rfl := Option.some.inj hrow
  rw [← map_entries 1] at h
  exact h

theorem firstMember?_blueprint (template : Template) :
    template.blueprint.firstMember? = some template.firstMember := by
  obtain ⟨className, members⟩ := template
  cases members with
  | nil => rfl
  | cons name shape inner rest => cases inner <;> rfl

-- A copy of all members of a template under a node that was added last.
theorem copyBelow_blueprint {blueprint : Blueprint} {target : Nat} {name : String}
    {template : Template} (shape : Shape) (hdistinct : template.members.Distinct)
    (hnew : ∀ row, blueprint.rows[target]? = some row → name ∉ row.members.map (·.1)) :
    template.blueprint.copyBelow template.blueprint.rows.length
        (blueprint.addMember target name shape) blueprint.rows.length 0 =
      some (blueprint.hang target (cons name shape template.members .nil)) := by
  have hhas : template.blueprint.Has none 0 template.tree := by
    intro index row hrow
    rwa [Nat.zero_add]
  have hlength : template.blueprint.rows.length = template.members.size + 1 := by
    refine (length_rows ..).trans ?_
    simp only [Template.tree, size]
    omega
  have hlast : blueprint.rows.length <
      (blueprint.hang target (cons name shape .nil .nil)).rows.length := by
    rw [length_hang]
    exact Nat.lt_add_one _
  rw [hlength, copyBelow_succ, addMember_eq_hang hnew,
    ← hang_last blueprint target name shape template.members]
  refine copyMembers_eq (Nat.le_refl _) hhas.inner hdistinct hlast fun row hrow => ?_
  rw [getElem?_hang_last] at hrow
  obtain rfl := Option.some.inj hrow
  exact List.disjoint_nil_left _

end Blueprint

namespace Registry

open Blueprint

variable {registry : Registry}

-- How the templates on file are stored.
def blueprints (registry : Registry) : Blueprints :=
  ⟨registry.templates.map fun (name, template) => (name, template.blueprint)⟩

theorem find?_blueprints (registry : Registry) (name : String) :
    registry.blueprints.find? name = (registry.find? name).map Template.blueprint := by
  simp only [blueprints, Blueprints.find?, find?]
  induction registry.templates with
  | nil => rfl
  | cons entry rest ih =>
      obtain ⟨other, template⟩ := entry
      rw [List.map_cons, List.lookup_cons, List.lookup_cons]
      cases name == other with
      | true => rfl
      | false => exact ih

theorem blueprints_insert (registry : Registry) (template : Template) :
    (registry.insert template).blueprints =
      registry.blueprints.insert template.className template.blueprint := by
  simp only [blueprints, insert, Blueprints.insert, List.map_cons, List.filter_map]
  rfl

-- Building on what is stored makes what is stored of the template.
theorem build?_blueprints (registry : Registry) (cls : InterfaceClass) (h : registry.Distinct) :
    registry.blueprints.build? cls =
      some ((registry.build cls).1.blueprint, (registry.build cls).2.blueprints) := by
  induction registry, cls using fun motive => build.induct motive (fun registry members =>
    registry.Distinct → ∀ (className : String) (front : Forest Shape),
      (front.names ++ members.map Member.name).Nodup →
        registry.blueprints.addMembers? ((ofName className).hang 0 front) members =
          some ((ofName className).hang 0 (front.append (registry.buildMembers members).1),
            (registry.buildMembers members).2.blueprints)) with
  | case1 registry cls template hfound =>
      rw [build_of_find? hfound, Blueprints.build?, find?_blueprints, hfound]
      rfl
  | case2 registry cls hnone members next hmembers ih =>
      have hadded : registry.blueprints.addMembers? (ofName cls.name) cls.merged = _ :=
        ih h cls.name .nil cls.nodup_merged
      rw [Blueprints.build?, find?_blueprints, build]
      simp only [hnone, Option.map_none, hadded, Option.bind_eq_bind, Option.bind_some,
        Option.pure_def, blueprints_insert]
      rw [← ofName_hang]
      rfl
  | case3 registry hregistry className front =>
      rw [Blueprints.addMembers?, buildMembers, append_nil]
  | case4 registry name direction width rest members next hrest ih hregistry className front
      hnodup =>
      have hnew : name ∉ front.names := fun hmem =>
        (List.disjoint_of_nodup_append hnodup) hmem List.mem_cons_self
      have hrest := ih hregistry className (front.append (.cons name ⟨direction, width⟩ .nil .nil))
        (by rwa [names_append, List.append_assoc])
      rw [Blueprints.addMembers?, buildMembers,
        addMember_eq_hang (not_mem_ofName_hang className hnew), hang_hang (Nat.zero_lt_succ _),
        hrest, append_assoc]
      rfl
  | case5 registry name direction cls rest template next hbuild members last hrest ihCls ihRest
      hregistry className front hnodup =>
      obtain ⟨hdistinct, hnext⟩ := distinct_build registry cls hregistry
      have hcls := ihCls hregistry
      rw [hbuild] at hdistinct hnext hcls
      have hnew : name ∉ front.names := fun hmem =>
        (List.disjoint_of_nodup_append hnodup) hmem List.mem_cons_self
      have hrest := ihRest hnext className
        (front.append (.cons name ⟨direction, 0⟩ template.members .nil))
        (by rwa [names_append, List.append_assoc])
      have hcopy := copyBelow_blueprint ⟨direction, 0⟩ hdistinct
        (not_mem_ofName_hang className hnew)
      rw [Blueprints.addMembers?, buildMembers]
      simp only [hcls, hbuild, Option.bind_eq_bind, Option.bind_some, hcopy]
      rw [hang_hang (Nat.zero_lt_succ _), hrest, append_assoc]
      rfl

end Registry

end Rtl
