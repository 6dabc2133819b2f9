import Rtl.Forest

namespace Rtl.Forest

variable {α β : Type} {name : String} {item : α} {inner rest forest : Forest α} {index : Nat}
  {spot : Spot α}

-- Where a number lands among the entries of a forest: on the first one, inside that, or
-- after it.

theorem spot?_inner (h : index < inner.size) :
    (cons name item inner rest).spot? (index + 1) =
      (inner.spot? index).map fun spot => { spot with above := name :: spot.above } := by
  have hle : index + 1 ≤ inner.size := h
  simp [spot?, hle]

theorem spot?_rest :
    (cons name item inner rest).spot? (index + 1 + inner.size) = rest.spot? index := by
  have hzero : index + 1 + inner.size ≠ 0 := by omega
  have hgt : ¬ index + 1 + inner.size ≤ inner.size := by omega
  have heq : index + 1 + inner.size - 1 - inner.size = index := by omega
  simp only [spot?, hzero, hgt, heq, if_false]

theorem forall_spot?_cons {p : Nat → Spot α → Prop} (hself : p 0 ⟨[], name, item, inner⟩)
    (hinner : ∀ index spot, inner.spot? index = some spot →
      p (index + 1) { spot with above := name :: spot.above })
    (hrest : ∀ index spot, rest.spot? index = some spot → p (index + 1 + inner.size) spot)
    (index : Nat) (spot : Spot α) (h : (cons name item inner rest).spot? index = some spot) :
    p index spot := by
  rw [spot?] at h
  split at h
  · rename_i hzero
    obtain rfl := Option.some.inj h
    exact hzero ▸ hself
  · rename_i hzero
    split at h
    · obtain ⟨below, hbelow, rfl⟩ := Option.map_eq_some_iff.mp h
      have hindex : index - 1 + 1 = index := by omega
      exact hindex ▸ hinner _ below hbelow
    · have hindex : index - 1 - inner.size + 1 + inner.size = index := by omega
      exact hindex ▸ hrest _ spot h

theorem lt_size_of_spot? (h : forest.spot? index = some spot) : index < forest.size := by
  induction forest generalizing index spot with
  | nil => cases h
  | cons name item inner rest ihi ihr =>
      simp only [size]
      refine forall_spot?_cons (p := fun index _ => index < 1 + inner.size + rest.size) ?_
        (fun index spot hspot => ?_) (fun index spot hspot => ?_) index spot h
      · omega
      · have := ihi hspot
        omega
      · have := ihr hspot
        omega

theorem spot?_within (h : inner.spot? index = some spot) :
    (cons name item inner rest).spot? (index + 1) =
      some { spot with above := name :: spot.above } := by
  rw [spot?_inner (lt_size_of_spot? h), h, Option.map_some]

theorem spot?_later (h : rest.spot? index = some spot) :
    (cons name item inner rest).spot? (index + 1 + inner.size) = some spot := spot?_rest.trans h

-- Induction on the way to an entry.
@[elab_as_elim]
theorem spot?_induction
    {motive : (forest : Forest α) → (index : Nat) → (spot : Spot α) →
      forest.spot? index = some spot → Prop}
    (here : ∀ name item inner rest,
      motive (cons name item inner rest) 0 ⟨[], name, item, inner⟩ rfl)
    (within : ∀ name item inner rest index spot (hspot : inner.spot? index = some spot),
      motive inner index spot hspot → motive (cons name item inner rest) (index + 1)
        { spot with above := name :: spot.above } (spot?_within hspot))
    (later : ∀ name item inner rest index spot (hspot : rest.spot? index = some spot),
      motive rest index spot hspot →
        motive (cons name item inner rest) (index + 1 + inner.size) spot (spot?_later hspot))
    {forest : Forest α} {index : Nat} {spot : Spot α} (h : forest.spot? index = some spot) :
    motive forest index spot h := by
  induction forest generalizing index spot with
  | nil => cases h
  | cons name item inner rest ihi ihr =>
      exact forall_spot?_cons (p := fun index spot => ∀ h, motive (.cons name item inner rest)
          index spot h) (fun _ => here name item inner rest)
        (fun index spot hspot _ => within name item inner rest index spot hspot (ihi hspot))
        (fun index spot hspot _ => later name item inner rest index spot hspot (ihr hspot))
        index spot h h

-- What is below an entry comes right after it.
theorem size_inner_of_spot? (h : forest.spot? index = some spot) :
    index + spot.inner.size < forest.size := by
  induction h using spot?_induction with
  | here name item inner rest =>
      simp only [size]
      omega
  | within name item inner rest index spot hspot ih =>
      simp only [size]
      omega
  | later name item inner rest index spot hspot ih =>
      simp only [size]
      omega

theorem spot?_append (front back : Forest α) (index : Nat) :
    (front.append back).spot? (front.size + index) = back.spot? index := by
  induction front generalizing index with
  | nil => simp only [append, size, Nat.zero_add]
  | cons name item inner rest _ ih =>
      have hindex : 1 + inner.size + rest.size + index = rest.size + index + 1 + inner.size := by
        omega
      simp only [append, size, hindex, spot?_rest, ih]

-- What was there before something is added stays where it is.
theorem spot?_append_of_spot? (h : forest.spot? index = some spot) (back : Forest α) :
    (forest.append back).spot? index = some spot := by
  induction h using spot?_induction with
  | here name item inner rest => rfl
  | within name item inner rest index spot hspot ih => exact spot?_within hspot
  | later name item inner rest index spot hspot ih => exact spot?_later ih

theorem exists_spot?_of_lt (h : index < forest.size) : ∃ spot, forest.spot? index = some spot := by
  induction forest generalizing index with
  | nil => exact absurd h (Nat.not_lt_zero index)
  | cons name item inner rest ihi ihr =>
      simp only [size] at h
      cases index with
      | zero => exact ⟨_, rfl⟩
      | succ index =>
          by_cases hinner : index < inner.size
          · obtain ⟨spot, hspot⟩ := ihi hinner
            exact ⟨_, spot?_within hspot⟩
          · have hlt : index - inner.size < rest.size := by omega
            obtain ⟨spot, hspot⟩ := ihr hlt
            have hindex : index - inner.size + 1 + inner.size = index + 1 := by omega
            exact ⟨spot, hindex ▸ spot?_later hspot⟩

theorem spot?_map (f : α → β) (forest : Forest α) (index : Nat) :
    (forest.map f).spot? index = (forest.spot? index).map fun spot =>
      ⟨spot.above, spot.name, f spot.item, spot.inner.map f⟩ := by
  induction forest generalizing index with
  | nil => rfl
  | cons name item inner rest ihi ihr =>
      simp only [map, spot?, size_map]
      split
      · rfl
      · split
        · rw [ihi, Option.map_map, Option.map_map]
          rfl
        · exact ihr _

-- A change is one of the first entry, inside that, or after it.

variable {change : α → Forest α → α × Forest α}

theorem update_zero : (cons name item inner rest).update change 0 =
    cons name (change item inner).1 (change item inner).2 rest := rfl

theorem update_inner (h : index < inner.size) :
    (cons name item inner rest).update change (index + 1) =
      cons name item (inner.update change index) rest := by
  have hle : index + 1 ≤ inner.size := h
  simp [update, hle]

theorem update_rest : (cons name item inner rest).update change (index + 1 + inner.size) =
    cons name item inner (rest.update change index) := by
  have hzero : index + 1 + inner.size ≠ 0 := by omega
  have hgt : ¬ index + 1 + inner.size ≤ inner.size := by omega
  have heq : index + 1 + inner.size - 1 - inner.size = index := by omega
  simp only [update, hzero, hgt, heq, if_false]

theorem update_within (h : inner.spot? index = some spot) :
    (cons name item inner rest).update change (index + 1) =
      cons name item (inner.update change index) rest := update_inner (lt_size_of_spot? h)

-- A change behind some trees leaves them as they are.
theorem update_append (change : α → Forest α → α × Forest α) (front back : Forest α)
    (index : Nat) :
    (front.append back).update change (front.size + index) =
      front.append (back.update change index) := by
  induction front generalizing index with
  | nil => simp only [append, size, Nat.zero_add]
  | cons name item inner rest _ ih =>
      have hindex : 1 + inner.size + rest.size + index = rest.size + index + 1 + inner.size := by
        omega
      simp only [append, size, hindex, update_rest, ih]

-- One that keeps the number of entries below its own keeps the number of all.
theorem size_update_of_spot? (h : forest.spot? index = some spot)
    (hsize : (change spot.item spot.inner).2.size = spot.inner.size) :
    (forest.update change index).size = forest.size := by
  induction h using spot?_induction with
  | here name item inner rest => simp only [update_zero, size, hsize]
  | within name item inner rest index spot hspot ih =>
      simp only [update_within hspot, size, ih hsize]
  | later name item inner rest index spot hspot ih => simp only [update_rest, size, ih hsize]

-- It is seen at the entry, however deep that is.
theorem spot?_update_at (h : forest.spot? index = some spot)
    (hsize : (change spot.item spot.inner).2.size = spot.inner.size) :
    (forest.update change index).spot? index =
      some { spot with item := (change spot.item spot.inner).1
                       inner := (change spot.item spot.inner).2 } := by
  induction h using spot?_induction with
  | here name item inner rest => rfl
  | within name item inner rest index spot hspot ih =>
      rw [update_within hspot]
      exact spot?_within (ih hsize)
  | later name item inner rest index spot hspot ih =>
      rw [update_rest]
      exact spot?_later (ih hsize)

-- A change of a tree of the outermost level is seen there, whatever it is.
theorem spot?_update_self {name : String} {item : α} {inner : Forest α}
    (h : forest.spot? index = some ⟨[], name, item, inner⟩) :
    (forest.update change index).spot? index =
      some ⟨[], name, (change item inner).1, (change item inner).2⟩ := by
  generalize hroot : (⟨[], name, item, inner⟩ : Spot α) = root at h
  induction h using spot?_induction with
  | here other first below rest =>
      cases hroot
      rfl
  | within other first below rest index spot hspot ih => cases congrArg Spot.above hroot
  | later other first below rest index spot hspot ih =>
      rw [update_rest]
      exact spot?_later (ih hroot)

-- One that leaves the entry as it is leaves everything as it is.
theorem update_eq_self (h : forest.spot? index = some spot)
    (hchange : change spot.item spot.inner = (spot.item, spot.inner)) :
    forest.update change index = forest := by
  induction h using spot?_induction with
  | here name item inner rest => rw [update_zero, hchange]
  | within name item inner rest index spot hspot ih => rw [update_within hspot, ih hchange]
  | later name item inner rest index spot hspot ih => rw [update_rest, ih hchange]

-- One outside a tree of the outermost level does not show in it.
theorem spot?_update_of_apart {other : Nat} {elsewhere : Spot α}
    (h : forest.spot? index = some spot) (hother : forest.spot? other = some elsewhere)
    (hroot : elsewhere.above = [])
    (hapart : index < other ∨ other + elsewhere.inner.size < index)
    (hsize : (change spot.item spot.inner).2.size = spot.inner.size) :
    (forest.update change index).spot? other = some elsewhere := by
  induction hother using spot?_induction generalizing index spot with
  | here name item inner rest =>
      revert hapart hsize
      refine forall_spot?_cons (p := fun index spot => index < 0 ∨ 0 + inner.size < index →
        (change spot.item spot.inner).2.size = spot.inner.size →
          ((cons name item inner rest).update change index).spot? 0 = _) ?_
        (fun index spot hspot hapart => ?_) (fun index spot _ _ _ => ?_) index spot h
      · intro hapart
        omega
      · have := lt_size_of_spot? hspot
        omega
      · rw [update_rest]
        rfl
  | within name item inner rest other elsewhere helsewhere ih => cases hroot
  | later name item inner rest other elsewhere helsewhere ih =>
      revert hapart hsize
      refine forall_spot?_cons (p := fun index spot =>
        (index < other + 1 + inner.size ∨ other + 1 + inner.size + elsewhere.inner.size < index) →
          (change spot.item spot.inner).2.size = spot.inner.size →
            ((cons name item inner rest).update change index).spot? (other + 1 + inner.size) =
              some elsewhere) (fun _ hsize => ?_) (fun index spot hspot _ hsize => ?_)
        (fun index spot hspot hapart hsize => ?_) index spot h
      · rw [update_zero, ← hsize]
        exact spot?_later helsewhere
      · rw [update_within hspot, ← size_update_of_spot? hspot hsize]
        exact spot?_later helsewhere
      · rw [update_rest]
        exact spot?_later (ih hspot hroot (by omega) hsize)

-- A change at one entry is a change there also of what the entries are mapped to.
theorem map_update_of_spot? (f : α → β) (h : forest.spot? index = some spot)
    (change : α → Forest α → α × Forest α) :
    (forest.update change index).map f = (forest.map f).update
      (fun _ _ => (f (change spot.item spot.inner).1, (change spot.item spot.inner).2.map f))
      index := by
  induction h using spot?_induction with
  | here name item inner rest => rfl
  | within name item inner rest index spot hspot ih =>
      have hlt : index < (inner.map f).size := size_map f inner ▸ lt_size_of_spot? hspot
      simp only [update_within hspot, map, update_inner hlt, ih]
  | later name item inner rest index spot hspot ih =>
      rw [update_rest, map, map, ← size_map f inner, update_rest, ih]

-- Trees of the outermost level do not overlap.
theorem apart_of_roots {other : Nat} {elsewhere : Spot α} (h : forest.spot? index = some spot)
    (hroot : spot.above = []) (hother : forest.spot? other = some elsewhere)
    (hotherRoot : elsewhere.above = []) (hlt : other < index) :
    other + elsewhere.inner.size < index := by
  induction hother using spot?_induction generalizing index spot with
  | here name item inner rest =>
      refine forall_spot?_cons (p := fun index spot => 0 < index → spot.above = [] →
        0 + inner.size < index) ?_ (fun index spot _ _ hroot => ?_) (fun index spot _ _ _ => ?_)
        index spot h hlt hroot
      · intro hlt
        cases hlt
      · cases hroot
      · omega
  | within name item inner rest other elsewhere helsewhere ih => cases hotherRoot
  | later name item inner rest other elsewhere helsewhere ih =>
      refine forall_spot?_cons (p := fun index spot => other + 1 + inner.size < index →
        spot.above = [] → other + 1 + inner.size + elsewhere.inner.size < index) ?_
        (fun index spot _ _ hroot => ?_) (fun index spot hspot hlt hroot => ?_) index spot h hlt
        hroot
      · intro hlt
        cases hlt
      · cases hroot
      · have := ih hspot hroot hotherRoot (by omega)
        omega

-- So one of them does not see what is done to another.
theorem spot?_update_of_ne {other : Nat} {elsewhere : Spot α} (hne : index ≠ other)
    (h : forest.spot? index = some spot) (hroot : spot.above = [])
    (hother : forest.spot? other = some elsewhere) (hotherRoot : elsewhere.above = [])
    (hsize : (change spot.item spot.inner).2.size = spot.inner.size) :
    (forest.update change index).spot? other = some elsewhere := by
  have hapart : index < other ∨ other + elsewhere.inner.size < index :=
    (Nat.lt_or_gt_of_ne hne).imp_right fun hlt => apart_of_roots h hroot hother hotherRoot hlt
  exact spot?_update_of_apart h hother hotherRoot hapart hsize

end Rtl.Forest
