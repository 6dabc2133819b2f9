import Rtl.Id

namespace Rtl

-- A table addressed by identifiers, which count up from zero in the order of
-- allocation. The newest entries can be dropped; nothing is ever reordered.
structure Arena (kind : Kind) (α : Type) where
  items : Array α
deriving Repr

namespace Arena

variable {kind : Kind} {α : Type}

def empty : Arena kind α := ⟨#[]⟩

instance : EmptyCollection (Arena kind α) := ⟨empty⟩

def size (arena : Arena kind α) : Nat := arena.items.size

def isEmpty (arena : Arena kind α) : Bool := arena.items.isEmpty

-- The identifier that the next allocation hands out.
def nextId (arena : Arena kind α) : Id kind := ⟨arena.size⟩

-- Appends an item that may mention its own identifier.
def allocWith (arena : Arena kind α) (item : Id kind → α) : Id kind × Arena kind α :=
  (arena.nextId, ⟨arena.items.push (item arena.nextId)⟩)

def alloc (arena : Arena kind α) (item : α) : Id kind × Arena kind α :=
  arena.allocWith fun _ => item

def get? (arena : Arena kind α) (id : Id kind) : Option α := arena.items[id.index]?

def contains (arena : Arena kind α) (id : Id kind) : Bool := id.index < arena.size

-- Changes one item; an identifier that was never handed out changes nothing.
def modify (arena : Arena kind α) (id : Id kind) (change : α → α) : Arena kind α :=
  ⟨arena.items.modify id.index change⟩

-- Drops every item from position `count` on.
def truncate (arena : Arena kind α) (count : Nat) : Arena kind α :=
  ⟨arena.items.extract 0 count⟩

def toList (arena : Arena kind α) : List α := arena.items.toList

-- Every item with its identifier, in the order of allocation.
def entries (arena : Arena kind α) : List (Id kind × α) :=
  arena.toList.zipIdx.map fun (item, index) => (⟨index⟩, item)

theorem get?_allocWith_self (arena : Arena kind α) (item : Id kind → α) :
    (arena.allocWith item).2.get? (arena.allocWith item).1 = some (item arena.nextId) := by
  simp [allocWith, get?, nextId, size]

theorem get?_allocWith_of_contains (arena : Arena kind α) (item : Id kind → α) (id : Id kind)
    (h : arena.contains id = true) : (arena.allocWith item).2.get? id = arena.get? id := by
  have hlt : id.index < arena.items.size := of_decide_eq_true h
  simp [allocWith, get?, Array.getElem?_push, Nat.ne_of_lt hlt]

theorem size_allocWith (arena : Arena kind α) (item : Id kind → α) :
    (arena.allocWith item).2.size = arena.size + 1 := by
  simp [allocWith, size]

theorem size_modify (arena : Arena kind α) (id : Id kind) (change : α → α) :
    (arena.modify id change).size = arena.size := by
  simp [modify, size]

theorem getElem?_entries (arena : Arena kind α) (index : Nat) :
    arena.entries[index]? = (arena.get? ⟨index⟩).map fun item => (⟨index⟩, item) := by
  simp [entries, toList, get?, List.getElem?_zipIdx, Function.comp_def]

theorem mem_entries_iff {arena : Arena kind α} {id : Id kind} {item : α} :
    (id, item) ∈ arena.entries ↔ arena.get? id = some item := by
  simp only [List.mem_iff_getElem?, getElem?_entries, Option.map_eq_some_iff, Prod.mk.injEq]
  constructor
  · rintro ⟨index, _, hitem, rfl, rfl⟩
    exact hitem
  · intro hitem
    exact ⟨id.index, item, hitem, rfl, rfl⟩

theorem entries_modify (arena : Arena kind α) (id : Id kind) (change : α → α) :
    (arena.modify id change).entries =
      arena.entries.map fun (other, item) => (other, if other = id then change item else item) := by
  apply List.ext_getElem?
  intro index
  simp only [getElem?_entries, List.getElem?_map, get?, modify, Array.getElem?_modify]
  by_cases h : id.index = index
  · subst h
    cases arena.items[id.index]? <;> simp
  · have hne : (⟨index⟩ : Id kind) ≠ id := by
      rintro rfl
      exact h rfl
    cases arena.items[index]? <;> simp [h, hne]

end Arena

end Rtl
