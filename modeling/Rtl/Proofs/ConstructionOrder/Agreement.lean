import Mathlib
import Rtl.Render.Architecture

namespace Rtl

-- Two results agree if both are errors, of whatever cause, or both are values
-- that stand in the relation.
inductive Agree {α β : Type} (R : α → β → Prop) :
    Except RenderError α → Except RenderError β → Prop
  | ok {a : α} {b : β} (h : R a b) : Agree R (.ok a) (.ok b)
  | error (a b : RenderError) : Agree R (.error a) (.error b)

namespace Agree

variable {α β γ δ : Type} {R : α → β → Prop} {S : γ → δ → Prop}
  {x : Except RenderError α} {y : Except RenderError β}

theorem refl (x : Except RenderError α) : Agree Eq x x := by
  cases x with
  | ok a => exact .ok rfl
  | error cause => exact .error cause cause

theorem of_eq {x y : Except RenderError α} (h : x = y) : Agree Eq x y := h ▸ refl x

theorem toOption_eq {x y : Except RenderError α} (h : Agree Eq x y) : x.toOption = y.toOption := by
  cases h with
  | ok h => exact congrArg some h
  | error a b => rfl

theorem imp {T : α → β → Prop} (h : Agree R x y) (himp : ∀ a b, R a b → T a b) :
    Agree T x y := by
  cases h with
  | ok h => exact .ok (himp _ _ h)
  | error a b => exact .error a b

theorem comp {z : Except RenderError γ} {T : β → γ → Prop} (h : Agree R x y)
    (hnext : Agree T y z) : Agree (fun a c => ∃ b, R a b ∧ T b c) x z := by
  cases h with
  | ok h =>
      cases hnext with
      | ok hnext => exact .ok ⟨_, h, hnext⟩
  | error a b =>
      cases hnext with
      | error b c => exact .error a c

theorem bind {f : α → Except RenderError γ} {g : β → Except RenderError δ} (h : Agree R x y)
    (hnext : ∀ a b, R a b → Agree S (f a) (g b)) : Agree S (x >>= f) (y >>= g) := by
  cases h with
  | ok h => exact hnext _ _ h
  | error a b => exact .error a b

theorem bind_eq {x y : Except RenderError α} {f : α → Except RenderError γ}
    {g : α → Except RenderError δ} (h : Agree Eq x y) (hnext : ∀ a, Agree S (f a) (g a)) :
    Agree S (x >>= f) (y >>= g) :=
  h.bind fun a _ hab => hab ▸ hnext a

theorem map {f : α → γ} {g : β → δ} (h : Agree R x y) (hnext : ∀ a b, R a b → S (f a) (g b)) :
    Agree S (f <$> x) (g <$> y) := by
  cases h with
  | ok h => exact .ok (hnext _ _ h)
  | error a b => exact .error a b

theorem mapM {f : α → Except RenderError γ} {g : β → Except RenderError δ} {as : List α}
    {bs : List β} (h : List.Forall₂ R as bs) (hnext : ∀ a b, R a b → Agree S (f a) (g b)) :
    Agree (List.Forall₂ S) (as.mapM f) (bs.mapM g) := by
  induction h with
  | nil => exact .ok .nil
  | cons hfirst hrest ih =>
      rw [List.mapM_cons, List.mapM_cons]
      refine (hnext _ _ hfirst).bind fun c d hcd => ih.bind fun cs ds hcds => ?_
      exact .ok (.cons hcd hcds)

theorem mapM_perm (f : α → Except RenderError γ) {as bs : List α} (h : as.Perm bs) :
    Agree List.Perm (as.mapM f) (bs.mapM f) := by
  induction h with
  | nil => exact .ok (List.Perm.refl _)
  | cons a h ih =>
      rw [List.mapM_cons, List.mapM_cons]
      refine (refl (f a)).bind fun c d hcd => ih.bind fun cs ds hcds => ?_
      exact .ok (hcd ▸ hcds.cons c)
  | swap a b rest =>
      simp only [List.mapM_cons]
      cases f a with
      | error cause =>
          cases f b with
          | error cause' => exact .error _ _
          | ok d => exact .error _ _
      | ok c =>
          cases f b with
          | error cause => exact .error _ _
          | ok d =>
              cases rest.mapM f with
              | error cause => exact .error _ _
              | ok cs => exact .ok (List.Perm.swap ..)
  | trans h h' ih ih' =>
      exact (ih.comp ih').imp fun cs ds ⟨_, hleft, hright⟩ => hleft.trans hright

-- Mapping over the same things in another order, where `rename` says what each
-- thing has become.
theorem mapM_perm_map {f : α → Except RenderError γ} {g : β → Except RenderError γ}
    {rename : α → β} {as : List α} {bs : List β} (h : bs.Perm (as.map rename))
    (hnext : ∀ a, Agree Eq (f a) (g (rename a))) :
    Agree List.Perm (as.mapM f) (bs.mapM g) := by
  have hrenamed : List.Forall₂ (fun a b => b = rename a) as (as.map rename) :=
    List.forall₂_map_right_iff.mpr (List.forall₂_same.mpr fun _ _ => rfl)
  have hsame := mapM hrenamed (S := Eq) (f := f) (g := g) fun a b hb => hb ▸ hnext a
  refine (hsame.comp (mapM_perm g h.symm)).imp fun cs ds ⟨es, hes, hperm⟩ => ?_
  rw [List.forall₂_eq_eq_eq] at hes
  exact hes ▸ hperm

end Agree

namespace Renderer

theorem textLe_iff {a b : String} : textLe a b = true ↔ ¬ b < a := by
  simp [textLe]

theorem textLe_trans {a b c : String} (hab : textLe a b = true) (hbc : textLe b c = true) :
    textLe a c = true := by
  rw [textLe_iff, String.not_lt] at *
  exact String.le_trans hab hbc

theorem textLe_total (a b : String) : textLe a b = true ∨ textLe b a = true := by
  simp only [textLe_iff, String.not_lt]
  exact String.le_total a b

theorem textLe_antisymm {a b : String} (hab : textLe a b = true) (hba : textLe b a = true) :
    a = b := by
  rw [textLe_iff, String.not_lt] at *
  exact String.le_antisymm hab hba

-- An order that tells any two members of a list apart sorts them in one way,
-- however they come.
theorem sortBy_perm {α β : Type} {key : α → β} {le : β → β → Bool} {as bs : List α}
    (h : as.Perm bs) (htrans : ∀ a b c, le a b → le b c → le a c)
    (htotal : ∀ a b, le a b || le b a)
    (hantisymm : ∀ a ∈ as, ∀ b ∈ as, le (key a) (key b) → le (key b) (key a) → a = b) :
    sortBy key le as = sortBy key le bs := by
  have hsorted (items : List α) :
      (sortBy key le items).Pairwise fun a b => le (key a) (key b) = true :=
    List.pairwise_mergeSort (fun a b c => htrans (key a) (key b) (key c))
      (fun a b => htotal (key a) (key b)) items
  have hperm (items : List α) : (sortBy key le items).Perm items := List.mergeSort_perm ..
  refine List.Perm.eq_of_pairwise ?_ (hsorted as) (hsorted bs)
    ((hperm as).trans (h.trans (hperm bs).symm))
  intro a b ha hb
  have ha' := (hperm as).mem_iff.mp ha
  have hb' := h.mem_iff.mpr ((hperm bs).mem_iff.mp hb)
  exact hantisymm a ha' b hb'

theorem sortBy_textLe_perm {as bs : List String} (h : as.Perm bs) :
    sortBy id textLe as = sortBy id textLe bs := by
  refine sortBy_perm h (fun _ _ _ => textLe_trans) ?_ ?_
  · intro a b
    simpa using textLe_total a b
  · intro a _ b _
    exact textLe_antisymm

theorem sortBy_pairLe_perm {as bs : List (String × String)} (h : as.Perm bs) :
    sortBy id pairLe as = sortBy id pairLe bs := by
  have hiff (a b : String × String) : pairLe a b = true ↔
      a.1 < b.1 ∨ a.1 = b.1 ∧ textLe a.2 b.2 = true := by
    simp [pairLe]
  refine sortBy_perm h ?_ ?_ ?_
  · intro a b c
    rw [hiff, hiff, hiff]
    rintro (hab | ⟨hab, hab'⟩) (hbc | ⟨hbc, hbc'⟩)
    · exact .inl (String.lt_trans hab hbc)
    · exact .inl (hbc ▸ hab)
    · exact .inl (hab ▸ hbc)
    · exact .inr ⟨hab.trans hbc, textLe_trans hab' hbc'⟩
  · intro a b
    rw [Bool.or_eq_true, hiff, hiff]
    by_cases hab : a.1 < b.1
    · exact .inl (.inl hab)
    by_cases hba : b.1 < a.1
    · exact .inr (.inl hba)
    have heq : a.1 = b.1 := String.le_antisymm hba hab
    rcases textLe_total a.2 b.2 with hle | hle
    · exact .inl (.inr ⟨heq, hle⟩)
    · exact .inr (.inr ⟨heq.symm, hle⟩)
  · intro a _ b _
    simp only [id_eq, hiff]
    rintro (hab | ⟨heq, hab⟩) (hba | ⟨heq', hba⟩)
    · exact absurd hba (String.lt_asymm hab)
    · exact absurd heq'.symm (String.ne_of_lt hab)
    · exact absurd heq.symm (String.ne_of_lt hba)
    · exact Prod.ext heq (textLe_antisymm hab hba)

-- Things under names of which no two are equal.
theorem sortBy_textLe_of_nodup {α : Type} {as bs : List (String × α)} (h : as.Perm bs)
    (hnodup : (as.map (·.1)).Nodup) : sortBy (·.1) textLe as = sortBy (·.1) textLe bs := by
  refine sortBy_perm h (fun _ _ _ => textLe_trans) ?_ ?_
  · intro a b
    simpa using textLe_total a b
  · intro a ha b hb hab hba
    exact List.inj_on_of_nodup_map hnodup ha hb (textLe_antisymm hab hba)

theorem exists_pairs_of_forall₂ {α β : Type} {R : α → β → Prop} {as : List α} {bs : List β}
    (h : List.Forall₂ R as bs) :
    ∃ pairs : List (α × β), pairs.map (·.1) = as ∧ pairs.map (·.2) = bs ∧
      ∀ pair ∈ pairs, R pair.1 pair.2 := by
  induction h with
  | nil => exact ⟨[], rfl, rfl, nofun⟩
  | @cons a b as bs hfirst hrest ih =>
      obtain ⟨pairs, rfl, rfl, hpairs⟩ := ih
      exact ⟨(a, b) :: pairs, rfl, rfl, List.forall_mem_cons.mpr ⟨hfirst, hpairs⟩⟩

theorem sortBy_map {α β γ : Type} (f : α → β) (key : β → γ) (le : γ → γ → Bool)
    (items : List α) :
    sortBy key le (items.map f) = (sortBy (fun item => key (f item)) le items).map f := by
  have h := List.map_mergeSort (l := items) (f := f) (r := fun a b => le (key (f a)) (key (f b)))
    (s := fun a b => le (key a) (key b)) fun _ _ _ _ => rfl
  exact h.symm

theorem sortBy_congr {α β γ : Type} {key : α → β} {key' : α → γ} {le : β → β → Bool}
    {le' : γ → γ → Bool} {items : List α}
    (h : ∀ a ∈ items, ∀ b ∈ items, le (key a) (key b) = le' (key' a) (key' b)) :
    sortBy key le items = sortBy key' le' items := by
  have hsorted := List.map_mergeSort (l := items) (f := id) (r := fun a b => le (key a) (key b))
    (s := fun a b => le' (key' a) (key' b)) h
  rw [List.map_id, List.map_id] at hsorted
  exact hsorted

-- Where no two processes have one name, their statements do not matter.
theorem sortBy_processLe {items : List (String × Process)} (h : (items.map (·.1)).Nodup) :
    sortBy (fun (name, process) => (name, process.maxStatementId?)) processLe items =
      sortBy (·.1) textLe items := by
  refine sortBy_congr fun a ha b hb => ?_
  by_cases hname : a.1 = b.1
  · obtain rfl := List.inj_on_of_nodup_map h ha hb hname
    have hself (id : Option StatementId) : statementLe id id = true := by
      cases id with
      | none => rfl
      | some id => simp [statementLe]
    simp [processLe, textLe, hself]
  · have hiff : a.1 < b.1 ↔ ¬ b.1 < a.1 := by
      constructor
      · exact String.lt_asymm
      · intro hba
        by_cases hab : a.1 < b.1
        · exact hab
        · exact absurd (String.le_antisymm hba hab) hname
    have hbeq : (a.1 == b.1) = false := beq_eq_false_iff_ne.mpr hname
    simp only [processLe, textLe, hbeq, Bool.false_and, Bool.or_false, ← decide_not]
    exact decide_eq_decide.mpr hiff

theorem map_fst_eq_of_forall₂ {α β : Type} {R : α → β → Prop} {as : List (String × α)}
    {bs : List (String × β)} (h : List.Forall₂ (fun a b => a.1 = b.1 ∧ R a.2 b.2) as bs) :
    as.map (·.1) = bs.map (·.1) := by
  induction h with
  | nil => rfl
  | cons hfirst hrest ih => rw [List.map_cons, List.map_cons, hfirst.1, ih]

-- Related things under the same names are sorted in the same way, also if they
-- come in another order, as long as no two have one name.
theorem sortBy_textLe_related {α β : Type} {R : α → β → Prop} {as : List (String × α)}
    {bs bs' : List (String × β)} (h : List.Forall₂ (fun a b => a.1 = b.1 ∧ R a.2 b.2) as bs)
    (hperm : bs.Perm bs') (hnodup : (as.map (·.1)).Nodup) :
    List.Forall₂ (fun a b => a.1 = b.1 ∧ R a.2 b.2) (sortBy (·.1) textLe as)
      (sortBy (·.1) textLe bs') := by
  rw [← sortBy_textLe_of_nodup hperm (map_fst_eq_of_forall₂ h ▸ hnodup)]
  obtain ⟨pairs, rfl, rfl, hpairs⟩ := exists_pairs_of_forall₂ h
  have hkeys : sortBy (fun pair => pair.1.1) textLe pairs =
      sortBy (fun pair => pair.2.1) textLe pairs := by
    refine sortBy_congr fun a ha b hb => ?_
    rw [(hpairs a ha).1, (hpairs b hb).1]
  rw [sortBy_map, sortBy_map, ← hkeys, List.forall₂_map_left_iff, List.forall₂_map_right_iff,
    List.forall₂_same]
  intro pair hmem
  exact hpairs pair ((List.mergeSort_perm ..).mem_iff.mp hmem)

end Renderer

end Rtl
