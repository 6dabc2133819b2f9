import Mathlib
import Rtl.Dialect
import Rtl.Text

namespace Rtl.Scope

variable {scope : Scope} {owner : Owner} {candidate : String}

theorem normalize_append (ignoreCase : Bool) (a b : String) :
    normalize ignoreCase (a ++ b) = normalize ignoreCase a ++ normalize ignoreCase b := by
  cases ignoreCase with
  | false => rfl
  | true => exact Text.toLower_append a b

theorem toLower_of_isDigit {c : Char} (h : c.isDigit) : c.toLower = c := by
  simp only [Char.isDigit, Bool.and_eq_true, decide_eq_true_eq] at h
  simp only [Char.toLower]
  split
  · rename_i hupper
    simp only [ge_iff_le, UInt32.le_iff_toNat_le] at h hupper
    have hnine : ('9' : Char).val.toNat < ('A' : Char).val.toNat := by decide
    omega
  · rfl

-- Numbers have no letters, so they are compared as they are written.
theorem normalize_toString (ignoreCase : Bool) (number : Nat) :
    normalize ignoreCase (toString number) = toString number := by
  cases ignoreCase with
  | false => rfl
  | true =>
      apply String.toList_injective
      simp only [normalize, if_true, Text.toList_toLower]
      refine (List.map_congr_left fun c hc => ?_).trans (List.map_id _)
      have hdigits : c ∈ Nat.toDigits 10 number := by simpa using hc
      have hdigit := Nat.isDigit_of_mem_toDigits (by decide) (by decide) hdigits
      exact toLower_of_isDigit hdigit

-- Different numbers make different names.
theorem normalize_numbered_injective (ignoreCase : Bool) (candidate : String) :
    Function.Injective fun number => normalize ignoreCase (numbered candidate number) := by
  intro a b h
  simp only [numbered, normalize_append, normalize_toString] at h
  have hlist := congrArg String.toList h
  simp only [String.toList_append] at hlist
  have hsame := List.append_cancel_left hlist
  exact Nat.repr_inj.mp (String.toList_injective hsame)

-- Among more numbers than words one is free.
theorem exists_numbered_free (words : List String) (ignoreCase : Bool) (candidate : String) :
    ∃ number ∈ List.range (words.length + 1),
      normalize ignoreCase (numbered candidate number) ∉ words := by
  by_contra! h
  have hnodup : ((List.range (words.length + 1)).map fun number =>
      normalize ignoreCase (numbered candidate number)).Nodup :=
    List.nodup_range.map (normalize_numbered_injective ignoreCase candidate)
  have hlength := (hnodup.subperm fun _ hmem => List.forall_mem_map.mpr h _ hmem).length_le
  simp only [List.length_map, List.length_range] at hlength
  omega

theorem normalize_freeName_not_mem (scope : Scope) (candidate : String) :
    normalize scope.ignoreCase (scope.freeName candidate) ∉ scope.usedWords := by
  simp only [freeName]
  split
  · rename_i hfree
    simpa using hfree
  · split
    · rename_i number hfound
      simpa using List.find?_some hfound
    · rename_i hnone
      obtain ⟨number, hmem, hfree⟩ :=
        exists_numbered_free scope.usedWords scope.ignoreCase candidate
      have hused := List.find?_eq_none.mp hnone number hmem
      simp only [Bool.not_eq_true', Bool.not_eq_false, List.contains_iff_mem] at hused
      exact absurd hused hfree

-- The names given on the levels that are open, with whom they were given to.
def given (scope : Scope) : List (Owner × String) :=
  scope.levels.flatMap fun level => level.owned.map fun (request, name) => (request.owner, name)

-- The names given so far are told apart, also from some words that nobody was
-- given. Nobody has two of them.
structure Fair (words : List String) (scope : Scope) : Prop where
  used : ∀ key, key ∈ scope.usedWords ↔
    key ∈ words ∨ key ∈ scope.given.map fun entry => normalize scope.ignoreCase entry.2
  owners : (scope.given.map (·.1)).Nodup
  keys : (scope.given.map fun entry => normalize scope.ignoreCase entry.2).Nodup
  free : ∀ entry ∈ scope.given, normalize scope.ignoreCase entry.2 ∉ words

theorem given_enter (scope : Scope) (request : NameRequest) (name : String) :
    (scope.enter request name).given = (request.owner, name) :: scope.given := by
  obtain ⟨nested, base, ignoreCase⟩ := scope
  cases nested with
  | nil | cons => rfl

theorem ignoreCase_enter (scope : Scope) (request : NameRequest) (name : String) :
    (scope.enter request name).ignoreCase = scope.ignoreCase := by
  obtain ⟨nested, base, ignoreCase⟩ := scope
  cases nested with
  | nil | cons => rfl

theorem mem_usedWords_enter (scope : Scope) (request : NameRequest) (name key : String) :
    key ∈ (scope.enter request name).usedWords ↔
      key = normalize scope.ignoreCase name ∨ key ∈ scope.usedWords := by
  obtain ⟨nested, base, ignoreCase⟩ := scope
  cases nested with
  | nil | cons => simp [enter, usedWords, levels]

-- Who was given nothing yet gets a new name.
theorem checkedName_of_not_mem (hnew : owner ∉ scope.given.map (·.1)) (candidate : String) :
    scope.checkedName owner candidate =
      (scope.freeName candidate, scope.enter ⟨owner, candidate⟩ (scope.freeName candidate)) := by
  have hnone : scope.owned? ⟨owner, candidate⟩ = none := by
    simp only [owned?, List.findSome?_eq_none_iff, List.lookup_eq_none_iff]
    intro level hlevel entry hentry
    rw [bne_iff_ne, ne_eq]
    rintro hrequest
    apply hnew
    simp only [given, List.map_flatMap, List.mem_flatMap, List.map_map, List.mem_map]
    exact ⟨level, hlevel, entry, hentry, congrArg NameRequest.owner hrequest.symm⟩
  simp only [checkedName, hnone]

theorem Fair.enter {words : List String} (h : scope.Fair words)
    (hnew : owner ∉ scope.given.map (·.1)) (candidate : String) :
    (scope.enter ⟨owner, candidate⟩ (scope.freeName candidate)).Fair words := by
  have hfree := scope.normalize_freeName_not_mem candidate
  rw [h.used, not_or] at hfree
  refine ⟨fun key => ?_, ?_, ?_, ?_⟩
  · rw [mem_usedWords_enter, given_enter, ignoreCase_enter, h.used, List.map_cons, List.mem_cons]
    exact or_left_comm
  · rw [given_enter]
    exact List.nodup_cons.mpr ⟨hnew, h.owners⟩
  · rw [given_enter, ignoreCase_enter]
    exact List.nodup_cons.mpr ⟨hfree.2, h.keys⟩
  · rw [given_enter, ignoreCase_enter]
    exact List.forall_mem_cons.mpr ⟨hfree.1, h.free⟩

-- At first only keywords and reserved words are in use.
theorem fair_baseScope (dialect : Dialect) (reserved : List String) :
    (dialect.baseScope reserved).push.Fair
      ((dialect.keywords ++ reserved).map (normalize dialect.ignoreCase)) := by
  refine ⟨fun key => ?_, List.nodup_nil, List.nodup_nil, nofun⟩
  simp [usedWords, levels, push, Dialect.baseScope, ofWords, reserve, ScopeLevel.empty, given]

end Rtl.Scope
