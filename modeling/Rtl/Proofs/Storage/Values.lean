import Mathlib.Data.Nat.Digits.Defs
import Rtl.Json.Value
import Rtl.Proofs.Storage.Fields

namespace Rtl

open Json

-- In every type below `isStorable` says only that each number is in the range
-- of the form in which it is stored.

namespace LogicVec

def isStorable (v : LogicVec) : Bool := fitsWord v.width

theorem limbs_eq_digits (value : Nat) : limbs value = Nat.digits wordLimit value := by
  have hbase : 1 < wordLimit := by decide
  induction value using limbs.induct with
  | case1 => simp [limbs]
  | case2 value h ih => rw [limbs, if_neg h, ih, Nat.digits_def' hbase (Nat.pos_of_ne_zero h)]

theorem restores_limbs (value : Nat) :
    list? word? (ofList Json.ofNat (limbs value)) = some (limbs value) := by
  refine restores_word.list _ (List.all_eq_true.mpr fun limb hlimb => decide_eq_true ?_)
  rw [limbs_eq_digits] at hlimb
  exact Nat.digits_lt_base (by decide) hlimb

theorem restores : Restores ofJson? toJson isStorable := by
  intro v h
  have hwidth := restores_word v.width h
  have hvalue := restores_limbs v.value
  have hdefined := restores_limbs v.defined
  rw [ofJson?, toJson, fields?_object (by rfl) (by decide)]
  -- Each step is checked on its own, since no number of 32 bits may be unfolded.
  simp -implicitDefEqProofs [required_some, hwidth, hvalue, hdefined, ofLimbs_limbs]

end LogicVec

namespace Arena

variable {kind : Kind} {α : Type} {read : Json → Option α} {write : α → Json} {fits : α → Bool}

theorem restores (h : Restores read write fits) :
    Restores (@ofJson? kind α read) (toJson write) fun arena => arena.toList.all fits := by
  intro arena hfits
  have hitems := h.list arena.toList hfits
  rw [ofJson?, toJson, fields?_object (by rfl) (by decide)]
  simp only [List.map, Option.bind_eq_bind, Option.bind_some, required_some, hitems]
  rfl

end Arena

namespace Signedness

theorem restores : Restores ofJson? toJson fun _ => true := by
  intro signedness _
  cases signedness <;> rfl

end Signedness

namespace HwType

def isStorable : HwType → Bool
  | .bits width _ _ => fitsWord width
  | .array _ element size => fitsId element && fitsWord size
  | .enumeration .. | .boolean | .integer | .text => true

theorem restores : Restores ofJson? toJson isStorable := by
  intro type h
  cases type with
  | bits width signedness force =>
      have hwidth := restores_word width h
      have hsignedness := Signedness.restores signedness rfl
      have hforce := restores_bool force rfl
      rw [ofJson?, toJson, variant?_ofVariant]
      simp -implicitDefEqProofs [named?_object, required_some, hwidth, hsignedness, hforce]
  | enumeration name labels =>
      have hname := restores_text.option nofun name (by simp)
      have hlabels := restores_text.list labels (by simp)
      rw [ofJson?, toJson, variant?_ofVariant]
      simp -implicitDefEqProofs [named?_object, required_some, optional_some, hname, hlabels]
  | array name element size =>
      obtain ⟨helement, hsize⟩ := Bool.and_eq_true_iff.mp h
      have hname := restores_text.option nofun name (by simp)
      have helement := restores_id .type element helement
      have hsize := restores_word size hsize
      rw [ofJson?, toJson, variant?_ofVariant]
      simp -implicitDefEqProofs [named?_object, required_some, optional_some, hname, helement,
        hsize]
  | boolean => rfl
  | integer => rfl
  | text => rfl

end HwType

namespace TypeTable

def isStorable (table : TypeTable) : Bool := table.types.toList.all HwType.isStorable

theorem restores : Restores ofJson? toJson isStorable := by
  intro table h
  have htypes := HwType.restores.list table.types.toList h
  rw [ofJson?, toJson, fields?_object (by rfl) (by decide)]
  simp only [List.map, Option.bind_eq_bind, Option.bind_some, required_some, htypes]
  rfl

end TypeTable

namespace Payload

def isStorable : Payload → Bool
  | .bits vector => vector.isStorable
  | .integer value => value.all fitsSigned
  | .label index => index.all fitsWord
  | .boolean _ | .text _ => true

theorem restores : Restores ofJson? toJson isStorable := by
  intro payload h
  cases payload with
  | bits vector =>
      rw [ofJson?, toJson, variant?_ofVariant]
      simp -implicitDefEqProofs [LogicVec.restores vector h]
  | boolean value =>
      have hvalue := restores_bool.option nofun value (by simp)
      rw [ofJson?, toJson, variant?_ofVariant]
      simp -implicitDefEqProofs [hvalue]
  | integer value =>
      have hvalue := restores_signed.option nofun value h
      rw [ofJson?, toJson, variant?_ofVariant]
      simp -implicitDefEqProofs [hvalue]
  | text value =>
      have hvalue := restores_text.option nofun value (by simp)
      rw [ofJson?, toJson, variant?_ofVariant]
      simp -implicitDefEqProofs [hvalue]
  | label index =>
      have hindex := restores_word.option nofun index h
      rw [ofJson?, toJson, variant?_ofVariant]
      simp -implicitDefEqProofs [hindex]

end Payload

namespace Value

def isStorable (value : Value) : Bool := fitsId value.type && value.payload.isStorable

theorem restores : Restores ofJson? toJson isStorable := by
  intro value h
  obtain ⟨htype, hpayload⟩ := Bool.and_eq_true_iff.mp h
  have htype := restores_id .type value.type htype
  have hpayload := Payload.restores value.payload hpayload
  rw [ofJson?, toJson, fields?_object (by rfl) (by decide)]
  simp -implicitDefEqProofs [required_some, htype, hpayload]

end Value

end Rtl
