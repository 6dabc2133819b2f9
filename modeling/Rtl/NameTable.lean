import Rtl.Id

namespace Rtl

-- The texts of all names, each kept once.
structure NameTable where
  texts : Array String
deriving Repr

namespace NameTable

def empty : NameTable := ⟨#[]⟩

-- The identifier of a text: the one it already has, or else the next one.
def intern (table : NameTable) (text : String) : NameId × NameTable :=
  match table.texts.toList.findIdx? (· == text) with
  | some index => (⟨index⟩, table)
  | none => (⟨table.texts.size⟩, ⟨table.texts.push text⟩)

def internAll (table : NameTable) : List String → List NameId × NameTable
  | [] => ([], table)
  | text :: rest =>
      let (id, table) := table.intern text
      let (ids, table) := table.internAll rest
      (id :: ids, table)

def text? (table : NameTable) (id : NameId) : Option String := table.texts[id.index]?

theorem text?_intern (table : NameTable) (text : String) :
    (table.intern text).2.text? (table.intern text).1 = some text := by
  simp only [intern]
  split
  · rename_i index found
    obtain ⟨h, hp, _⟩ := List.findIdx?_eq_some_iff_getElem.mp found
    simp only [Array.length_toList] at h
    simp only [text?, Array.getElem?_eq_getElem h, Option.some.injEq]
    simpa using hp
  · simp [text?]

-- An identifier keeps its text whatever is added later.
theorem text?_intern_of_text? {table : NameTable} {id : NameId} {old : String}
    (h : table.text? id = some old) (text : String) :
    (table.intern text).2.text? id = some old := by
  simp only [intern]
  split
  · exact h
  · obtain ⟨hlt, _⟩ := Array.getElem?_eq_some_iff.mp h
    simp only [text?, Array.getElem?_push, Nat.ne_of_lt hlt, if_false]
    exact h

end NameTable

end Rtl
