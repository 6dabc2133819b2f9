import Rtl.Proofs.Names.Fresh
import Rtl.Proofs.Names.Written
import Rtl.Render.Declaration

namespace Rtl

theorem lookup_eq_some_iff_mem {α β : Type} [BEq α] [LawfulBEq α] {entries : List (α × β)}
    (hnodup : (entries.map (·.1)).Nodup) {key : α} {value : β} :
    entries.lookup key = some value ↔ (key, value) ∈ entries := by
  rw [List.lookup_eq_some_iff]
  constructor
  · rintro ⟨front, back, rfl, -⟩
    simp
  · intro hmem
    obtain ⟨front, back, rfl⟩ := List.append_of_mem hmem
    refine ⟨front, back, rfl, fun entry hentry => bne_iff_ne.mpr fun he => ?_⟩
    rw [List.map_append, List.map_cons] at hnodup
    exact (List.nodup_append.mp hnodup).2.2 _ (List.mem_map_of_mem hentry) _ List.mem_cons_self
      he.symm

namespace Owner

def signal? : Owner → Option SignalId
  | .signal id => some id
  | _ => none

def type? : Owner → Option TypeId
  | .type id => some id
  | _ => none

theorem signal?_eq_some_iff {owner : Owner} {id : SignalId} :
    owner.signal? = some id ↔ owner = .signal id := by
  cases owner <;> simp [signal?]

theorem type?_eq_some_iff {owner : Owner} {id : TypeId} :
    owner.type? = some id ↔ owner = .type id := by
  cases owner <;> simp [type?]

-- The names of the owners of one kind.
def ofKind {κ : Type} (pick : Owner → Option κ) (given : List (Owner × String)) :
    List (κ × String) :=
  given.filterMap fun entry => (pick entry.1).map (·, entry.2)

theorem ofKind_cons_of_none {κ : Type} {pick : Owner → Option κ} {owner : Owner}
    (h : pick owner = none) (name : String) (rest : List (Owner × String)) :
    ofKind pick ((owner, name) :: rest) = ofKind pick rest := by
  simp [ofKind, h]

theorem ofKind_cons_of_some {κ : Type} {pick : Owner → Option κ} {owner : Owner} {key : κ}
    (h : pick owner = some key) (name : String) (rest : List (Owner × String)) :
    ofKind pick ((owner, name) :: rest) = (key, name) :: ofKind pick rest := by
  simp [ofKind, h]

theorem lookup_ofKind {κ : Type} [BEq κ] [LawfulBEq κ] {pick : Owner → Option κ} {make : κ → Owner}
    (hpick : ∀ {owner key}, pick owner = some key ↔ owner = make key)
    (given : List (Owner × String)) (key : κ) :
    (ofKind pick given).lookup key = given.lookup (make key) := by
  induction given with
  | nil => rfl
  | cons entry rest ih =>
      obtain ⟨owner, name⟩ := entry
      rw [List.lookup_cons, ← ih]
      cases h : pick owner with
      | none =>
          have hne : make key ≠ owner := by
            rintro rfl
            rw [hpick.mpr rfl] at h
            cases h
          rw [beq_false_of_ne hne, ofKind_cons_of_none h]
      | some other =>
          obtain rfl := hpick.mp h
          rw [ofKind_cons_of_some h, List.lookup_cons]
          by_cases hsame : key = other
          · rw [hsame, beq_self_eq_true, beq_self_eq_true]
          · have hne : make key ≠ make other := by
              intro he
              have hkey := hpick.mpr he.symm
              rw [h] at hkey
              exact hsame (Option.some.inj hkey).symm
            rw [beq_false_of_ne hsame, beq_false_of_ne hne]

end Owner

namespace Renderer

variable {words : List String} {r s t u : Renderer} {owners : List Owner}

-- The names were given fairly, and the renderer remembers those of signals and
-- of types.
structure Orderly (words : List String) (s : Renderer) : Prop where
  fair : s.scope.Fair words
  signals : s.signalNames = Owner.ofKind Owner.signal? s.scope.given
  types : s.typeNames = Owner.ofKind Owner.type? s.scope.given

-- Names were given to some more owners, and nothing else changed.
structure Gives (s : Renderer) (owners : List Owner) (t : Renderer) : Prop where
  dialect : t.dialect = s.dialect
  design : t.design = s.design
  timeUnit : t.timeUnit = s.timeUnit
  ignoreCase : t.scope.ignoreCase = s.scope.ignoreCase
  given : ∃ names, t.scope.given = names ++ s.scope.given ∧ (names.map (·.1)).Perm owners

-- Whoever was given no name yet.
def IsNew (s : Renderer) (owner : Owner) : Prop := owner ∉ s.scope.given.map (·.1)

-- The naming has the names given so far.
def Agrees (s : Renderer) (naming : Naming) : Prop :=
  ∀ entry ∈ s.scope.given, naming entry.1 = entry.2

namespace Gives

theorem refl (s : Renderer) : s.Gives [] s := ⟨rfl, rfl, rfl, rfl, [], rfl, .refl _⟩

theorem trans {later : List Owner} (h : s.Gives owners t) (hnext : t.Gives later u) :
    s.Gives (owners ++ later) u := by
  obtain ⟨names, hgiven, hperm⟩ := h.given
  obtain ⟨more, hmore, hpermMore⟩ := hnext.given
  refine ⟨hnext.dialect.trans h.dialect, hnext.design.trans h.design,
    hnext.timeUnit.trans h.timeUnit, hnext.ignoreCase.trans h.ignoreCase, more ++ names, ?_, ?_⟩
  · rw [hmore, hgiven, List.append_assoc]
  · rw [List.map_append]
    exact (hpermMore.append hperm).trans List.perm_append_comm

theorem of_perm {other : List Owner} (h : s.Gives owners t) (hperm : owners.Perm other) :
    s.Gives other t := by
  obtain ⟨names, hgiven, hnames⟩ := h.given
  exact { h with given := ⟨names, hgiven, hnames.trans hperm⟩ }

theorem owners_perm (h : s.Gives owners t) :
    (t.scope.given.map (·.1)).Perm (owners ++ s.scope.given.map (·.1)) := by
  obtain ⟨names, hgiven, hperm⟩ := h.given
  rw [hgiven, List.map_append]
  exact hperm.append_right _

theorem isNew_iff (h : s.Gives owners t) {owner : Owner} :
    t.IsNew owner ↔ owner ∉ owners ∧ s.IsNew owner := by
  rw [IsNew, h.owners_perm.mem_iff, List.mem_append, not_or]
  rfl

-- Names stay as they are.
theorem agrees (h : s.Gives owners t) {naming : Naming} (hnaming : t.Agrees naming) :
    s.Agrees naming := by
  obtain ⟨names, hgiven, -⟩ := h.given
  intro entry hmem
  exact hnaming entry (hgiven ▸ List.mem_append_right _ hmem)

end Gives

-- A step of the naming: one owner is given a name that everyone agrees on.
structure Names (s : Renderer) (words : List String) (owner : Owner) (name : String)
    (t : Renderer) : Prop where
  gives : s.Gives [owner] t
  orderly : t.Orderly words
  mem : (owner, name) ∈ t.scope.given

theorem Names.naming_eq {owner : Owner} {name : String} (h : s.Names words owner name t)
    {naming : Naming} (hnaming : t.Agrees naming) : naming owner = name := hnaming _ h.mem

theorem given_checkedName {owner : Owner} (hnew : s.IsNew owner) (candidate : String) :
    (s.checkedName owner candidate).2.scope.given =
      (owner, (s.checkedName owner candidate).1) :: s.scope.given := by
  simp only [checkedName, Scope.checkedName_of_not_mem hnew]
  exact Scope.given_enter ..

theorem gives_checkedName {owner : Owner} (hnew : s.IsNew owner) (candidate : String) :
    s.Gives [owner] (s.checkedName owner candidate).2 := by
  have hcase : (s.checkedName owner candidate).2.scope.ignoreCase = s.scope.ignoreCase := by
    simp only [checkedName, Scope.checkedName_of_not_mem hnew, Scope.ignoreCase_enter]
  exact ⟨rfl, rfl, rfl, hcase, [_], given_checkedName hnew candidate, .refl _⟩

theorem fair_checkedName {owner : Owner} (h : s.scope.Fair words) (hnew : s.IsNew owner)
    (candidate : String) : (s.checkedName owner candidate).2.scope.Fair words := by
  simp only [checkedName, Scope.checkedName_of_not_mem hnew]
  exact h.enter hnew candidate

-- Ports, processes and components are only entered in the scope.
theorem Orderly.checkedName (h : s.Orderly words) {owner : Owner} (hnew : s.IsNew owner)
    (candidate : String) (hsignal : owner.signal? = none) (htype : owner.type? = none) :
    s.Names words owner (s.checkedName owner candidate).1 (s.checkedName owner candidate).2 := by
  have hgiven := given_checkedName hnew candidate
  refine ⟨gives_checkedName hnew candidate, ⟨fair_checkedName h.fair hnew candidate, ?_, ?_⟩, ?_⟩
  · rw [hgiven, Owner.ofKind_cons_of_none hsignal]
    exact h.signals
  · rw [hgiven, Owner.ofKind_cons_of_none htype]
    exact h.types
  · rw [hgiven]
    exact List.mem_cons_self

theorem Orderly.nameSignal (h : s.Orderly words) {id : SignalId} (hnew : s.IsNew (.signal id))
    (candidate : String) :
    s.Names words (.signal id) (s.nameSignal id candidate).1 (s.nameSignal id candidate).2 := by
  have hgiven : (s.nameSignal id candidate).2.scope.given =
    (.signal id, (s.nameSignal id candidate).1) :: s.scope.given := given_checkedName hnew candidate
  obtain ⟨hdialect, hdesign, hunit, hcase, hnames⟩ := gives_checkedName hnew candidate
  refine ⟨⟨hdialect, hdesign, hunit, hcase, hnames⟩,
    ⟨fair_checkedName h.fair hnew candidate, ?_, ?_⟩, ?_⟩
  · rw [hgiven]
    exact congrArg (_ :: ·) h.signals
  · rw [hgiven]
    exact h.types
  · rw [hgiven]
    exact List.mem_cons_self

theorem Orderly.nameType (h : s.Orderly words) {id : TypeId} (hnew : s.IsNew (.type id))
    (candidate : String) :
    s.Names words (.type id) (s.nameType id candidate).1 (s.nameType id candidate).2 := by
  have hgiven : (s.nameType id candidate).2.scope.given =
    (.type id, (s.nameType id candidate).1) :: s.scope.given := given_checkedName hnew candidate
  obtain ⟨hdialect, hdesign, hunit, hcase, hnames⟩ := gives_checkedName hnew candidate
  refine ⟨⟨hdialect, hdesign, hunit, hcase, hnames⟩,
    ⟨fair_checkedName h.fair hnew candidate, ?_, ?_⟩, ?_⟩
  · rw [hgiven]
    exact h.signals
  · rw [hgiven]
    exact congrArg (_ :: ·) h.types
  · rw [hgiven]
    exact List.mem_cons_self

-- A type that is not declared has no name yet.
theorem Orderly.isNew_of_not_isDeclared (h : s.Orderly words) {id : TypeId}
    (hdeclared : s.isDeclared id = false) : s.IsNew (.type id) := by
  intro hmem
  obtain ⟨⟨_, name⟩, hentry, rfl⟩ := List.mem_map.mp hmem
  have hlookup := (lookup_eq_some_iff_mem h.fair.owners).mpr hentry
  rw [isDeclared, h.types, Owner.lookup_ofKind Owner.type?_eq_some_iff, hlookup] at hdeclared
  cases hdeclared

end Renderer

end Rtl
