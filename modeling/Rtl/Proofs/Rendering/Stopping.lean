import Rtl.Proofs.Rendering.Frames

namespace Rtl.Renderer

open Pass

variable {s t : Renderer}

-- Two renderers of a design, whatever names they have given.
def Shows (design : Design) (r s : Renderer) : Prop := r.design = design ∧ s.design = design

theorem Shows.same_design {design : Design} (h : Shows design s t) : t.design = s.design :=
  h.2.trans h.1.symm

def Anything {α β : Type} (_ : α) (_ : β) : Prop := True

-- Whether the naming of a unit stops, and for which reason, is up to the design alone.

section Stops

variable {design : Design}

theorem alike_typeText (id : TypeId) :
    Relates (Shows design) Anything (ask (·.typeText id)) (ask (·.typeText id)) := by
  refine relates_ask fun r s ⟨hr, hs⟩ => ?_
  cases htype : design.types.get? id with
  | none =>
      have hmissing {r : Renderer} (hr : r.design = design) :
          r.typeText id = .error (.missing (.type id)) := by
        rw [typeText, Renderer.type, hr, htype]
        rfl
      rw [hmissing hr, hmissing hs]
      exact .error _
  | some type =>
      obtain ⟨text, htext⟩ := exists_typeText (r := r) (hr ▸ htype)
      obtain ⟨text', htext'⟩ := exists_typeText (r := s) (hs ▸ htype)
      rw [htext, htext']
      exact .ok trivial

theorem alike_namePorts (ports : List Port) :
    Relates (Shows design) Anything (namePorts ports) (namePorts ports) := by
  induction ports with
  | nil => exact relates_pure trivial
  | cons port rest ih =>
      refine .same (fun r s h => by rw [text, text, h.same_design]) fun candidate _ => ?_
      refine (relates_give (V := Anything) fun r s h => ⟨trivial, h⟩).bind fun name name' _ => ?_
      refine (alike_typeText port.type).bind fun type type' _ => ?_
      exact ih.bind fun pieces pieces' _ => relates_pure trivial

-- A type is declared if its elements can be mentioned.
theorem exists_declareType {id : TypeId} {type : HwType} (hneeds : type.needsDeclaration = true)
    (htype : s.design.types.get? id = some type)
    (helement : ∀ name element size, type = .array name element size →
      ∃ found, s.design.types.get? element = some found) :
    ∃ declaration t, (declareType id).outcome s = .ok (declaration, t) := by
  rw [outcome_declareType]
  cases s.isDeclared id with
  | true => exact ⟨_, _, rfl⟩
  | false =>
      rw [type_eq_ok.mpr htype]
      cases type with
      | enumeration => exact ⟨_, _, rfl⟩
      | array name element size =>
          obtain ⟨found, hfound⟩ := helement name element size rfl
          obtain ⟨text, htext⟩ :=
            exists_typeText (r := (s.nameType id (name.getD "arrT_")).2) hfound
          exact ⟨_, _, bind_eq_ok.mpr ⟨_, rfl, bind_eq_ok.mpr ⟨text, htext, rfl⟩⟩⟩
      | bits | boolean | integer | text => cases hneeds

theorem alike_declareType {id : TypeId} {type : HwType} (hneeds : type.needsDeclaration = true)
    (htype : design.types.get? id = some type)
    (helement : ∀ name element size, type = .array name element size →
      ∃ found, design.types.get? element = some found) :
    Relates (Shows design) Anything (declareType id) (declareType id) := by
  rintro r s ⟨hr, hs⟩
  obtain ⟨declaration, t, ht⟩ := exists_declareType hneeds (hr ▸ htype) (hr ▸ helement)
  obtain ⟨again, u, hu⟩ := exists_declareType hneeds (hs ▸ htype) (hs ▸ helement)
  have hkept := keepsSignals_declareType id
  rw [outcome_eq_ok.mp ht, outcome_eq_ok.mp hu]
  exact ⟨.ok trivial, (hkept.of_outcome ht).design.trans hr, (hkept.of_outcome hu).design.trans hs⟩

-- Where there is no type, nothing of it is declared.
theorem stops_declareWithin {id : TypeId} (hnone : design.types.get? id = none) (depth : Nat) :
    Relates (Shows design) (fun _ _ => False) (declareWithin depth id)
      (declareWithin depth id) := by
  cases depth with
  | zero => exact relates_throw _
  | succ depth =>
      refine .same (fun r s h => by rw [Renderer.type, Renderer.type, h.same_design]) ?_
      rintro type ⟨r, -, ⟨hr, -⟩, htype⟩
      rw [type_eq_ok, hr, hnone] at htype
      cases htype

theorem alike_declareWithin (depth : Nat) (id : TypeId) :
    Relates (Shows design) Anything (declareWithin depth id) (declareWithin depth id) := by
  induction depth generalizing id with
  | zero => exact relates_throw _
  | succ depth ih =>
      refine .same (fun r s h => by rw [Renderer.type, Renderer.type, h.same_design]) ?_
      rintro type ⟨r, -, ⟨hr, -⟩, htype⟩
      rw [type_eq_ok, hr] at htype
      cases type with
      | enumeration name labels =>
          have hdeclared := alike_declareType rfl htype (by rintro _ _ _ ⟨⟩)
          exact hdeclared.bind fun _ _ _ => relates_pure trivial
      | array name element size =>
          cases hfound : design.types.get? element with
          | none => exact (stops_declareWithin hfound depth).bind fun _ _ hnever => hnever.elim
          | some found =>
              refine (ih element).bind fun before before' _ => ?_
              refine (alike_declareType rfl htype ?_).bind fun _ _ _ => relates_pure trivial
              rintro _ _ _ ⟨⟩
              exact ⟨found, hfound⟩
      | bits | boolean | integer | text => exact relates_pure trivial

theorem alike_declareAll (id : TypeId) :
    Relates (Shows design) Anything (declareAll id) (declareAll id) :=
  .look (fun r s h => by rw [h.same_design]) fun depth => alike_declareWithin depth id

theorem alike_nameSignals (shown : List (String × Signal)) :
    Relates (Shows design) Anything (nameSignals shown) (nameSignals shown) := by
  induction shown with
  | nil => exact relates_pure trivial
  | cons entry rest ih =>
      refine (alike_declareAll entry.2.type).bind fun types types' _ => ?_
      refine (relates_give (V := Anything) fun r s h => ⟨trivial, h⟩).bind fun name name' _ => ?_
      exact ih.bind fun more more' _ => relates_pure trivial

theorem alike_nameAll : Relates (Shows design) Anything nameAll nameAll := by
  refine .look (fun r s h => by rw [h.same_design]) fun ports => ?_
  refine (alike_namePorts ports).bind fun entries entries' _ => ?_
  refine .same (fun r s h => shownSignals_congr h.same_design) fun shown _ => ?_
  exact (alike_nameSignals shown).bind fun types types' _ => relates_pure trivial

end Stops

theorem nameAll_error_again {cause : RenderError} (hdesign : t.design = s.design)
    (herror : nameAll.outcome s = .error cause) : nameAll.outcome t = .error cause := by
  obtain ⟨hresult, -⟩ := alike_nameAll s t ⟨rfl, hdesign⟩
  rw [outcome_eq_error] at herror ⊢
  generalize (nameAll t).1 = result at hresult ⊢
  rw [herror] at hresult
  cases hresult
  rfl

end Rtl.Renderer
