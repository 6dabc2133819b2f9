import Rtl.Proofs.ConstructionOrder.Expressions

namespace Rtl

variable {ρ : Renumbering}

theorem Owner.renumber_injective {a b : Owner} (h : a.renumber ρ = b.renumber ρ) : a = b := by
  cases a with
  | port | type | component =>
      cases b with
      | port | type | component => exact h
      | signal | process => cases h
  | signal id =>
      cases b with
      | signal other => rw [ρ.signal.injective (Owner.signal.inj h)]
      | port | process | type | component => cases h
  | process id =>
      cases b with
      | process other => rw [ρ.process.injective (Owner.process.inj h)]
      | port | signal | type | component => cases h

theorem NameRequest.renumber_injective {a b : NameRequest} (h : a.renumber ρ = b.renumber ρ) :
    a = b := by
  obtain ⟨howner, hcandidate⟩ := NameRequest.mk.inj h
  exact congrArg₂ NameRequest.mk (Owner.renumber_injective howner) hcandidate

namespace Scope

theorem levels_renumber (ρ : Renumbering) (scope : Scope) :
    (scope.renumber ρ).levels = scope.levels.map (ScopeLevel.renumber ρ) := by
  simp [levels, renumber]

theorem usedWords_renumber (ρ : Renumbering) (scope : Scope) :
    (scope.renumber ρ).usedWords = scope.usedWords := by
  rw [usedWords, usedWords, levels_renumber, List.flatMap_map]
  rfl

theorem owned?_renumber (ρ : Renumbering) (scope : Scope) (request : NameRequest) :
    (scope.renumber ρ).owned? (request.renumber ρ) = scope.owned? request := by
  have hlevel (level : ScopeLevel) :
      (level.renumber ρ).owned.lookup (request.renumber ρ) = level.owned.lookup request :=
    lookup_map_of_injective (fun _ _ => NameRequest.renumber_injective) level.owned request
  rw [owned?, owned?, levels_renumber]
  induction scope.levels with
  | nil => rfl
  | cons level rest ih => simp only [List.map_cons, List.findSome?_cons, hlevel, ih]

theorem enter_renumber (ρ : Renumbering) (scope : Scope) (request : NameRequest) (name : String) :
    (scope.renumber ρ).enter (request.renumber ρ) name =
      (scope.enter request name).renumber ρ := by
  obtain ⟨nested, base, ignoreCase⟩ := scope
  cases nested with
  | nil | cons => rfl

theorem checkedName_renumber (ρ : Renumbering) (scope : Scope) (owner : Owner)
    (candidate : String) :
    (scope.renumber ρ).checkedName (owner.renumber ρ) candidate =
      ((scope.checkedName owner candidate).1,
        (scope.checkedName owner candidate).2.renumber ρ) := by
  have howned := owned?_renumber ρ scope ⟨owner, candidate⟩
  have hfree : (scope.renumber ρ).freeName candidate = scope.freeName candidate := by
    simp only [freeName, usedWords_renumber]
    rfl
  have henter := enter_renumber ρ scope ⟨owner, candidate⟩ (scope.freeName candidate)
  simp only [NameRequest.renumber] at howned henter
  simp only [checkedName, howned, hfree, henter]
  cases scope.owned? ⟨owner, candidate⟩ with
  | none | some => rfl

end Scope

-- The same outcome, and renderers that are still alike.
def Carries {α : Type} (ρ : Renumbering) (a b : α × Renderer) : Prop :=
  a.1 = b.1 ∧ Alike ρ a.2 b.2

namespace Alike

variable {r s : Renderer}

theorem checkedName (h : Alike ρ r s) (owner : Owner) (candidate : String) :
    Carries ρ (r.checkedName owner candidate) (s.checkedName (owner.renumber ρ) candidate) := by
  simp only [Renderer.checkedName, h.scope, Scope.checkedName_renumber]
  exact ⟨rfl, { h with scope := rfl }⟩

theorem nameType (h : Alike ρ r s) (id : TypeId) (candidate : String) :
    Carries ρ (r.nameType id candidate) (s.nameType id candidate) := by
  obtain ⟨hname, hnext⟩ := h.checkedName (.type id) candidate
  refine ⟨hname, { hnext with typeNames := ?_ }⟩
  exact congrArg₂ (fun name names => (id, name) :: names) hname.symm hnext.typeNames

theorem nameSignal (h : Alike ρ r s) (id : SignalId) (candidate : String) :
    Carries ρ (r.nameSignal id candidate) (s.nameSignal (ρ.signal id) candidate) := by
  obtain ⟨hname, hnext⟩ := h.checkedName (.signal id) candidate
  refine ⟨hname, { hnext with signalNames := ?_ }⟩
  exact congrArg₂ (fun name names => (ρ.signal id, name) :: names) hname.symm hnext.signalNames

theorem declareType (h : Alike ρ r s) (id : TypeId) :
    Agree (Carries ρ) ((Renderer.declareType id).outcome r)
      ((Renderer.declareType id).outcome s) := by
  have hsame : s.isDeclared id = r.isDeclared id := by
    simp only [Renderer.isDeclared, h.typeNames]
  simp only [Renderer.outcome_declareType, hsame, h.type_eq]
  by_cases hdeclared : r.isDeclared id = true
  · rw [if_pos hdeclared, if_pos hdeclared]
    exact .ok ⟨rfl, h⟩
  rw [if_neg hdeclared, if_neg hdeclared]
  refine (Agree.refl (r.type id)).bind_eq fun type => ?_
  cases type with
  | enumeration name labels =>
      obtain ⟨hname, hnext⟩ := h.nameType id (Text.toCapitals (name.getD "enumT_"))
      simp only [← hname]
      exact .ok ⟨rfl, hnext⟩
  | array name element size =>
      obtain ⟨hname, hnext⟩ := h.nameType id (name.getD "arrT_")
      simp only [← hname, hnext.typeText_eq]
      exact (Agree.refl _).bind_eq fun text => .ok ⟨rfl, hnext⟩
  | bits | boolean | integer | text =>
      simp only [h.typeText_eq]
      exact (Agree.refl _).bind_eq fun text => .error _ _

theorem declareWithin (h : Alike ρ r s) (depth : Nat) (id : TypeId) :
    Agree (Carries ρ) ((Renderer.declareWithin depth id).outcome r)
      ((Renderer.declareWithin depth id).outcome s) := by
  induction depth generalizing id r s with
  | zero => exact .error _ _
  | succ depth ih =>
      rw [Renderer.outcome_declareWithin_succ, Renderer.outcome_declareWithin_succ, h.type_eq]
      refine (Agree.refl _).bind_eq fun type => ?_
      cases type with
      | enumeration name labels =>
          refine (h.declareType id).bind fun a b hab => ?_
          exact .ok ⟨congrArg Option.toList hab.1, hab.2⟩
      | array name element size =>
          refine (ih h element).bind fun a b hab => ?_
          refine (hab.2.declareType id).bind fun c d hcd => ?_
          exact .ok ⟨congrArg₂ (fun before last => before ++ last.toList) hab.1 hcd.1, hcd.2⟩
      | bits | boolean | integer | text => exact .ok ⟨rfl, h⟩

theorem declareAll (h : Alike ρ r s) (id : TypeId) :
    Agree (Carries ρ) ((Renderer.declareAll id).outcome r)
      ((Renderer.declareAll id).outcome s) := by
  rw [Renderer.outcome_declareAll, Renderer.outcome_declareAll, h.types]
  exact h.declareWithin _ id

theorem declareSignal (h : Alike ρ r s) (id : SignalId) :
    Agree Eq (r.declareSignal id) (s.declareSignal (ρ.signal id)) := by
  refine (h.signal id).bind fun a b hab => ?_
  refine (h.signalName id).bind_eq fun name => ?_
  have hdrivers : b.drivers.isEmpty = a.drivers.isEmpty := by
    rw [List.Perm.isEmpty_eq hab.drivers, List.isEmpty_map]
  have hreaders : b.readers.isEmpty = a.readers.isEmpty := by
    rw [List.Perm.isEmpty_eq hab.readers, List.isEmpty_map]
  simp only [Renderer.signalKind?, Renderer.defaultText, hab.type, hab.default, hdrivers, hreaders,
    h.typeText_eq, h.valueText_eq, h.dialect]
  exact .refl _

theorem namePorts (h : Alike ρ r s) (ports : List Port) :
    Agree (Carries ρ) ((Renderer.namePorts ports).outcome r)
      ((Renderer.namePorts ports).outcome s) := by
  induction ports generalizing r s with
  | nil => exact .ok ⟨rfl, h⟩
  | cons port rest ih =>
      rw [Renderer.outcome_namePorts_cons, Renderer.outcome_namePorts_cons, h.text_eq]
      refine (Agree.refl _).bind_eq fun candidate => ?_
      obtain ⟨hname, hnext⟩ := h.checkedName (.port port.id) candidate
      simp only [Owner.renumber] at hname hnext
      simp only [← hname, hnext.typeText_eq]
      refine (Agree.refl _).bind_eq fun type => ?_
      refine (ih hnext).bind fun a b hab => ?_
      exact .ok ⟨congrArg (_ :: ·) hab.1, hab.2⟩

-- Signals that have their names are named and their types are declared in the
-- order in which they come.
theorem nameSignals (h : Alike ρ r s) {as bs : List (String × Signal)}
    (hab : List.Forall₂ (fun a b => a.1 = b.1 ∧ SameSignal ρ a.2 b.2) as bs) :
    Agree (Carries ρ) ((Renderer.nameSignals as).outcome r)
      ((Renderer.nameSignals bs).outcome s) := by
  induction hab generalizing r s with
  | nil => exact .ok ⟨rfl, h⟩
  | @cons a b as bs hfirst hrest ih =>
      obtain ⟨name, signal⟩ := a
      obtain ⟨_, signal'⟩ := b
      obtain ⟨hname, hsignal⟩ := hfirst
      simp only at hname hsignal
      subst hname
      rw [Renderer.outcome_nameSignals_cons, Renderer.outcome_nameSignals_cons, hsignal.type,
        hsignal.id]
      refine (h.declareAll signal.type).bind fun c d hcd => ?_
      obtain ⟨-, hnext⟩ := hcd.2.nameSignal signal.id name
      refine (ih hnext).bind fun e f hef => ?_
      exact .ok ⟨congrArg₂ (· ++ ·) hcd.1 hef.1, hef.2⟩

end Alike

end Rtl
