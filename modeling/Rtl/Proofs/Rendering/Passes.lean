import Mathlib
import Rtl.Render.Pass

namespace Rtl.Pass

variable {α β γ δ : Type}

-- What holds between a renderer and what becomes of it in a pass, wherever the pass stops.
def Keeps (R : Renderer → Renderer → Prop) (p : Pass α) : Prop := ∀ r, R r (p r).2

section Keeps

variable {R S : Renderer → Renderer → Prop} {p : Pass α} {q : α → Pass β}

theorem Keeps.imp (h : p.Keeps R) (himp : ∀ r s, R r s → S r s) : p.Keeps S :=
  fun r => himp r _ (h r)

theorem Keeps.of_outcome (h : p.Keeps R) {r t : Renderer} {a : α}
    (hok : p.outcome r = .ok (a, t)) : R r t := by
  have hlast := h r
  rwa [outcome_eq_ok.mp hok] at hlast

variable [IsPreorder Renderer R]

theorem Keeps.bind (h : p.Keeps R) (hq : ∀ a, (q a).Keeps R) : (p >>= q).Keeps R := by
  intro r
  have hfirst := h r
  rw [run_bind]
  rcases hrun : p r with ⟨cause | a, t⟩
  · rw [hrun] at hfirst
    exact hfirst
  · rw [hrun] at hfirst
    exact trans_of R hfirst (hq a t)

theorem keeps_pure (a : α) : (pure a : Pass α).Keeps R := fun r => refl_of R r

theorem keeps_throw (cause : RenderError) : (throw cause : Pass α).Keeps R := fun r => refl_of R r

theorem keeps_ask (question : Renderer → Except RenderError α) : (ask question).Keeps R :=
  fun r => refl_of R r

theorem Keeps.ask {question : Renderer → Except RenderError α} (hq : ∀ a, (q a).Keeps R) :
    (Pass.ask question >>= q).Keeps R := (keeps_ask question).bind hq

theorem Keeps.look {view : Renderer → α} (hq : ∀ a, (q a).Keeps R) :
    (Pass.look view >>= q).Keeps R := Keeps.bind (p := Pass.look view) (refl_of R) hq

theorem Keeps.give {name : Renderer → α × Renderer} (h : ∀ r, R r (name r).2)
    (hq : ∀ a, (q a).Keeps R) : (Pass.give name >>= q).Keeps R :=
  Keeps.bind (p := Pass.give name) h hq

end Keeps

-- Both stop for the same reason, or both give something.
inductive Parallel (V : α → β → Prop) : Except RenderError α → Except RenderError β → Prop
  | ok {a : α} {b : β} (h : V a b) : Parallel V (.ok a) (.ok b)
  | error (cause : RenderError) : Parallel V (.error cause) (.error cause)

theorem outcome_eq_error {p : Pass α} {r : Renderer} {cause : RenderError} :
    p.outcome r = .error cause ↔ (p r).1 = .error cause := by
  rw [outcome]
  rcases p r with ⟨_ | a, t⟩ <;> simp

theorem parallel_eq_iff {x y : Except RenderError α} : Parallel Eq x y ↔ y = x := by
  constructor
  · intro h
    cases h with
    | ok h => rw [h]
    | error cause => rfl
  · rintro rfl
    cases y with
    | ok a => exact .ok rfl
    | error cause => exact .error cause

-- Passes that come to the same with two renderers in a relation, and leave them in it.
def Relates (R : Renderer → Renderer → Prop) (V : α → β → Prop) (p : Pass α) (q : Pass β) :
    Prop := ∀ r s, R r s → Parallel V (p r).1 (q s).1 ∧ R (p r).2 (q s).2

section Relates

variable {R : Renderer → Renderer → Prop} {V : α → β → Prop} {W : γ → δ → Prop}

theorem Relates.bind {p : Pass α} {p' : Pass β} {q : α → Pass γ} {q' : β → Pass δ}
    (h : Relates R V p p') (hq : ∀ a b, V a b → Relates R W (q a) (q' b)) :
    Relates R W (p >>= q) (p' >>= q') := by
  intro r s hrs
  obtain ⟨hresult, hnext⟩ := h r s hrs
  rw [run_bind, run_bind]
  rcases hp : p r with ⟨first, t⟩
  rcases hp' : p' s with ⟨second, u⟩
  rw [hp, hp'] at hresult hnext
  cases hresult with
  | ok hab => exact hq _ _ hab t u hnext
  | error cause => exact ⟨.error cause, hnext⟩

theorem Relates.exists_outcome {p : Pass α} {q : Pass β} (h : Relates R V p q)
    {r s t : Renderer} (hrs : R r s) {a : α} (hok : p.outcome r = .ok (a, t)) :
    ∃ b u, q.outcome s = .ok (b, u) ∧ V a b ∧ R t u := by
  obtain ⟨hresult, hlast⟩ := h r s hrs
  rw [outcome_eq_ok.mp hok] at hresult hlast
  rcases hq : q s with ⟨result, u⟩
  rw [hq] at hresult hlast
  cases hresult with
  | ok hab => exact ⟨_, u, outcome_eq_ok.mpr hq, hab, hlast⟩

theorem relates_pure {a : α} {b : β} (h : V a b) : Relates R V (pure a) (pure b) :=
  fun _ _ hrs => ⟨.ok h, hrs⟩

theorem relates_throw (cause : RenderError) :
    Relates R V (throw cause : Pass α) (throw cause : Pass β) :=
  fun _ _ hrs => ⟨.error cause, hrs⟩

theorem relates_ask {question : Renderer → Except RenderError α}
    {other : Renderer → Except RenderError β}
    (h : ∀ r s, R r s → Parallel V (question r) (other s)) :
    Relates R V (ask question) (ask other) := fun r s hrs => ⟨h r s hrs, hrs⟩

theorem relates_give {name : Renderer → α × Renderer} {other : Renderer → β × Renderer}
    (h : ∀ r s, R r s → V (name r).1 (other s).1 ∧ R (name r).2 (other s).2) :
    Relates R V (give name) (give other) := fun r s hrs => ⟨.ok (h r s hrs).1, (h r s hrs).2⟩

variable {q q' : α → Pass γ} {T : γ → γ → Prop}

-- A question that both renderers answer in the same way.
theorem Relates.same {question : Renderer → Except RenderError α}
    (h : ∀ r s, R r s → question s = question r)
    (hq : ∀ a, (∃ r s, R r s ∧ question r = .ok a) → Relates R T (q a) (q' a)) :
    Relates R T (ask question >>= q) (ask question >>= q') := by
  intro r s hrs
  rw [run_ask_bind, run_ask_bind, h r s hrs]
  cases hanswer : question r with
  | error cause => exact ⟨.error cause, hrs⟩
  | ok a => exact hq a ⟨r, s, hrs, hanswer⟩ r s hrs

theorem Relates.look {view : Renderer → α} (h : ∀ r s, R r s → view s = view r)
    (hq : ∀ a, Relates R T (q a) (q' a)) :
    Relates R T (Pass.look view >>= q) (Pass.look view >>= q') :=
  .same (fun r s hrs => congrArg Except.ok (h r s hrs)) fun a _ => hq a

theorem Relates.give {name : Renderer → α × Renderer}
    (h : ∀ r s, R r s → (name s).1 = (name r).1 ∧ R (name r).2 (name s).2)
    (hq : ∀ a, Relates R T (q a) (q' a)) :
    Relates R T (Pass.give name >>= q) (Pass.give name >>= q') := by
  have hname : Relates R Eq (Pass.give name) (Pass.give name) := relates_give fun r s hrs =>
    ⟨(h r s hrs).1.symm, (h r s hrs).2⟩
  exact hname.bind fun a _ hab => hab ▸ hq a

end Relates

end Rtl.Pass
