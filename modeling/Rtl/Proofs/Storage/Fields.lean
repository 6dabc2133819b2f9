import Mathlib.Data.List.Nodup
import Rtl.Json.Basic

namespace Rtl

namespace Json

-- Reading undoes writing for every value that fits.
def Restores {α : Type} (read : Json → Option α) (write : α → Json) (fits : α → Bool) : Prop :=
  ∀ value, fits value = true → read (write value) = some value

def fitsWord (value : Nat) : Bool := value < wordLimit

def fitsLong (value : Nat) : Bool := value < longLimit

def fitsSigned (value : Int) : Bool := -(signedLimit : Int) ≤ value && value < signedLimit

def fitsId {kind : Kind} (id : Id kind) : Bool := fitsWord id.index

section Fields

theorem lookup_of_mem {fields : List (String × Json)} (hnodup : (fields.map Prod.fst).Nodup)
    {field : String × Json} (h : field ∈ fields) : fields.lookup field.1 = some field.2 := by
  induction fields with
  | nil => cases h
  | cons first rest ih =>
      obtain ⟨name, content⟩ := first
      obtain ⟨hname, hrest⟩ := List.nodup_cons.mp hnodup
      obtain rfl | hfield := List.mem_cons.mp h
      · simp
      · have hne : (field.1 == name) = false := by
          rw [beq_eq_false_iff_ne]
          rintro rfl
          exact hname (List.mem_map.mpr ⟨field, hfield, rfl⟩)
        simpa only [List.lookup_cons, hne] using ih hrest hfield

-- An object that holds just the fields asked for gives them in order.
theorem named?_object {names : List String} {fields : List (String × Json)}
    (hnames : fields.map Prod.fst = names) (hnodup : names.Nodup) :
    (object fields).named? names = some (fields.map (some ·.2)) := by
  subst hnames
  have honce : ((fields.map (·.1)).all fun name => (fields.map (·.1)).count name ≤ 1) = true := by
    simpa using fun name content _ => List.nodup_iff_count_le_one.mp hnodup name
  rw [named?, if_pos honce, List.map_map, Option.some.injEq]
  exact List.map_congr_left fun field hfield => lookup_of_mem hnodup hfield

theorem fields?_object {names : List String} {fields : List (String × Json)}
    (hnames : fields.map Prod.fst = names) (hnodup : names.Nodup) :
    (object fields).fields? names = some (fields.map (some ·.2)) :=
  named?_object hnames hnodup

theorem required_some {α : Type} (read : Json → Option α) (json : Json) :
    required read (some json) = read json :=
  rfl

theorem optional_some {α : Type} (read : Json → Option α) (json : Json) :
    optional read (some json) = option? read json :=
  rfl

theorem variant?_ofVariant (name : String) (content : Json) :
    (ofVariant name content).variant? = some (name, some content) :=
  rfl

end Fields

section Atoms

theorem restores_nat (limit : Nat) : Restores (nat? limit) ofNat (· < limit) := by
  intro value h
  simpa [ofNat, nat?] using h

theorem restores_word : Restores word? ofNat fitsWord := restores_nat wordLimit

theorem restores_long : Restores long? ofNat fitsLong := restores_nat longLimit

theorem restores_signed : Restores signed? int fitsSigned := by
  intro value h
  simpa [fitsSigned, signed?] using h

theorem restores_bool : Restores bool? bool fun _ => true := fun _ _ => rfl

theorem restores_text : Restores text? text fun _ => true := fun _ _ => rfl

theorem restores_id (kind : Kind) : Restores (@id? kind) ofId fitsId := by
  intro id h
  rw [id?, ofId, restores_word id.index h, Option.map_some]

end Atoms

section Combinators

variable {α β : Type} {read : Json → Option α} {write : α → Json} {fits : α → Bool}
  {read' : Json → Option β} {write' : β → Json} {fits' : β → Bool}

theorem list?_ofList {values : List α} (h : ∀ value ∈ values, read (write value) = some value) :
    list? read (ofList write values) = some values := by
  simp only [ofList, list?, List.mapM_map]
  induction values with
  | nil => rfl
  | cons value rest ih =>
      obtain ⟨hvalue, hrest⟩ := List.forall_mem_cons.mp h
      simp [hvalue, ih hrest]

theorem Restores.list (h : Restores read write fits) :
    Restores (list? read) (ofList write) fun values => values.all fits :=
  fun _ hfits => list?_ofList fun value hmem => h value (List.all_eq_true.mp hfits value hmem)

-- What is missing is written as nothing, so no value may be written so.
theorem Restores.option (h : Restores read write fits) (hnull : ∀ value, write value ≠ null) :
    Restores (option? read) (ofOption write) fun value => value.all fits := by
  intro value hfits
  cases value with
  | none => rfl
  | some found =>
      rw [ofOption, option?]
      · rw [h found hfits, Option.map_some]
      · exact hnull found

theorem pair?_ofPair {pair : α × β} (hfirst : read (write pair.1) = some pair.1)
    (hsecond : read' (write' pair.2) = some pair.2) :
    pair? read read' (ofPair write write' pair) = some pair := by
  simp [pair?, ofPair, hfirst, hsecond]

theorem Restores.pair (h : Restores read write fits) (h' : Restores read' write' fits') :
    Restores (pair? read read') (ofPair write write') fun pair => fits pair.1 && fits' pair.2 := by
  intro pair hfits
  obtain ⟨hfirst, hsecond⟩ := Bool.and_eq_true_iff.mp hfits
  exact pair?_ofPair (h pair.1 hfirst) (h' pair.2 hsecond)

end Combinators

theorem depth_le_depthOfItems {item : Json} {items : List Json} (h : item ∈ items) :
    item.depth ≤ depthOfItems items := by
  induction items with
  | nil => cases h
  | cons first rest ih =>
      rw [depthOfItems]
      obtain rfl | h := List.mem_cons.mp h
      · exact Nat.le_max_left ..
      · exact Nat.le_trans (ih h) (Nat.le_max_right ..)

end Json

end Rtl
