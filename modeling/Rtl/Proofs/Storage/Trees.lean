import Rtl.Json.Statement
import Rtl.Proofs.Storage.Values

namespace Rtl

open Json

namespace Operator

theorem restores : Restores ofJson? toJson fun _ => true := by
  intro op _
  simp [ofJson?, toJson, variant?, ofTag?_tag, unit?]

end Operator

namespace Expr

mutual

def isStorable : Expr → Bool
  | .signal id => fitsId id
  | .literal value => value.isStorable
  | .apply _ operands type => allStorable operands && fitsId type

def allStorable : List Expr → Bool
  | [] => true
  | e :: rest => e.isStorable && allStorable rest

end

theorem allStorable_eq (es : List Expr) : allStorable es = es.all isStorable := by
  induction es with
  | nil => rfl
  | cons e rest ih => rw [allStorable, ih, List.all_cons]

theorem array_toJsonAll (es : List Expr) : array (toJsonAll es) = ofList toJson es := by
  rw [ofList]
  congr 1
  induction es with
  | nil => rfl
  | cons e rest ih => rw [toJsonAll, ih, List.map_cons]

theorem toJson_ne_null (e : Expr) : e.toJson ≠ null := by
  cases e <;> simp [toJson, ofVariant]

-- By induction on the levels that may be read: an operand lies below the array
-- of operands, which lies below its application.
theorem ofJsonWithin?_toJson (depth : Nat) {e : Expr} (hstorable : e.isStorable = true)
    (hdepth : e.toJson.depth ≤ depth) : ofJsonWithin? depth e.toJson = some e := by
  induction depth generalizing e with
  | zero => cases e <;> simp [toJson, ofVariant, Json.depth] at hdepth
  | succ depth ih =>
      cases e with
      | signal id =>
          rw [ofJsonWithin?, toJson, variant?_ofVariant]
          simp -implicitDefEqProofs [restores_id .signal id hstorable]
      | literal value =>
          rw [ofJsonWithin?, toJson, variant?_ofVariant]
          simp -implicitDefEqProofs [Value.restores value hstorable]
      | apply op operands type =>
          rw [isStorable, allStorable_eq, Bool.and_eq_true, List.all_eq_true] at hstorable
          obtain ⟨hoperands, htype⟩ := hstorable
          simp only [toJson, array_toJsonAll, ofVariant, ofList, Json.depth,
            depthOfFields] at hdepth
          have hop := Operator.restores op rfl
          have htype := restores_id .type type htype
          have hoperands :
              list? (ofJsonWithin? depth) (ofList toJson operands) = some operands := by
            refine list?_ofList fun operand hmem => ih (hoperands operand hmem) ?_
            have := depth_le_depthOfItems (List.mem_map_of_mem (f := toJson) hmem)
            omega
          rw [ofJsonWithin?, toJson, variant?_ofVariant, array_toJsonAll]
          simp -implicitDefEqProofs [fields?_object, required_some, hop, hoperands, htype]

theorem restores : Restores ofJson? toJson isStorable :=
  fun e h => ofJsonWithin?_toJson e.toJson.depth h (Nat.le_refl _)

end Expr

namespace Statement

mutual

def isStorable : Statement → Bool
  | .assign id destination source indexes _ =>
      fitsId id && fitsId destination && source.isStorable && indexes.all (·.all Expr.isStorable)
  | .branch id condition body elifs otherwise =>
      fitsId id && condition.all Expr.isStorable && allStorable body && elifsStorable elifs &&
        allStorable otherwise
  | .select id subject cases => fitsId id && subject.isStorable && casesStorable cases
  | .wait id _ duration => fitsId id && duration.all fitsLong

def allStorable : List Statement → Bool
  | [] => true
  | s :: rest => s.isStorable && allStorable rest

def elifsStorable : List (List Expr × List Statement) → Bool
  | [] => true
  | (condition, body) :: rest =>
      condition.all Expr.isStorable && allStorable body && elifsStorable rest

def casesStorable : List (Option Expr × List Statement) → Bool
  | [] => true
  | (key, body) :: rest => key.all Expr.isStorable && allStorable body && casesStorable rest

end

theorem allStorable_eq (ss : List Statement) : allStorable ss = ss.all isStorable := by
  induction ss with
  | nil => rfl
  | cons s rest ih => rw [allStorable, ih, List.all_cons]

theorem elifsStorable_eq (elifs : List (List Expr × List Statement)) :
    elifsStorable elifs = elifs.all fun (condition, body) =>
      condition.all Expr.isStorable && body.all isStorable := by
  induction elifs with
  | nil => rfl
  | cons first rest ih => rw [elifsStorable, ih, allStorable_eq, List.all_cons]

theorem casesStorable_eq (cases : List (Option Expr × List Statement)) :
    casesStorable cases = cases.all fun (key, body) =>
      key.all Expr.isStorable && body.all isStorable := by
  induction cases with
  | nil => rfl
  | cons first rest ih => rw [casesStorable, ih, allStorable_eq, List.all_cons]

theorem array_toJsonAll (ss : List Statement) : array (toJsonAll ss) = ofList toJson ss := by
  rw [ofList]
  congr 1
  induction ss with
  | nil => rfl
  | cons s rest ih => rw [toJsonAll, ih, List.map_cons]

theorem array_toJsonElifs (elifs : List (List Expr × List Statement)) :
    array (toJsonElifs elifs) = ofList (ofPair (ofList Expr.toJson) (ofList toJson)) elifs := by
  rw [ofList]
  congr 1
  induction elifs with
  | nil => rfl
  | cons first rest ih => rw [toJsonElifs, ih, array_toJsonAll, List.map_cons, ofPair]

theorem array_toJsonCases (cases : List (Option Expr × List Statement)) :
    array (toJsonCases cases) = ofList (ofPair (ofOption Expr.toJson) (ofList toJson)) cases := by
  rw [ofList]
  congr 1
  induction cases with
  | nil => rfl
  | cons first rest ih => rw [toJsonCases, ih, array_toJsonAll, List.map_cons, ofPair]

theorem depth_lt_ofList {s : Statement} {ss : List Statement} (h : s ∈ ss) :
    s.toJson.depth < (ofList toJson ss).depth := by
  have := depth_le_depthOfItems (List.mem_map_of_mem (f := toJson) h)
  rw [ofList, Json.depth]
  omega

-- The bodies of an elif chain and of cases lie two levels down.
theorem depth_lt_ofPair {α : Type} (write : α → Json) {arm : α × List Statement}
    {arms : List (α × List Statement)} (h : arm ∈ arms) :
    (ofList toJson arm.2).depth + 1 < (ofList (ofPair write (ofList toJson)) arms).depth := by
  have := depth_le_depthOfItems (List.mem_map_of_mem (f := ofPair write (ofList toJson)) h)
  simp only [ofList, ofPair, Json.depth, depthOfItems] at this ⊢
  omega

theorem ofJsonWithin?_toJson (depth : Nat) {s : Statement} (hstorable : s.isStorable = true)
    (hdepth : s.toJson.depth ≤ depth) : ofJsonWithin? depth s.toJson = some s := by
  induction depth generalizing s with
  | zero => cases s <;> simp [toJson, ofVariant, Json.depth] at hdepth
  | succ depth ih =>
      have ihAll {ss : List Statement} (hfits : ss.all isStorable = true)
          (hlow : (ofList toJson ss).depth ≤ depth + 1) :
          list? (ofJsonWithin? depth) (ofList toJson ss) = some ss := by
        refine list?_ofList fun s hmem => ih (List.all_eq_true.mp hfits s hmem) ?_
        have := depth_lt_ofList hmem
        omega
      cases s with
      | assign id destination source indexes onEvent =>
          simp only [isStorable, Bool.and_eq_true] at hstorable
          obtain ⟨⟨⟨hid, hdestination⟩, hsource⟩, hindexes⟩ := hstorable
          have hid := restores_id .statement id hid
          have hdestination := restores_id .signal destination hdestination
          have hsource := Expr.restores source hsource
          have hindexes := Expr.restores.list.option nofun indexes hindexes
          have honEvent := restores_bool onEvent rfl
          rw [ofJsonWithin?, toJson, variant?_ofVariant]
          simp -implicitDefEqProofs [named?_object, required_some, optional_some, hid,
            hdestination, hsource, hindexes, honEvent]
      | branch id condition body elifs otherwise =>
          simp only [isStorable, allStorable_eq, elifsStorable_eq, Bool.and_eq_true] at hstorable
          obtain ⟨⟨⟨⟨hid, hcondition⟩, hbody⟩, helifs⟩, hotherwise⟩ := hstorable
          simp only [toJson, array_toJsonAll, array_toJsonElifs, ofVariant, Json.depth,
            depthOfFields] at hdepth
          have hid := restores_id .statement id hid
          have hcondition := Expr.restores.list condition hcondition
          have hbody := ihAll hbody (by omega)
          have hotherwise := ihAll hotherwise (by omega)
          have helifs : list? (pair? (list? Expr.ofJson?) (list? (ofJsonWithin? depth)))
              (ofList (ofPair (ofList Expr.toJson) (ofList toJson)) elifs) = some elifs := by
            refine list?_ofList fun elif hmem => ?_
            obtain ⟨hfirst, hsecond⟩ :=
              Bool.and_eq_true_iff.mp (List.all_eq_true.mp helifs elif hmem)
            have := depth_lt_ofPair (ofList Expr.toJson) hmem
            exact pair?_ofPair (Expr.restores.list elif.1 hfirst) (ihAll hsecond (by omega))
          rw [ofJsonWithin?, toJson, variant?_ofVariant, array_toJsonAll, array_toJsonAll,
            array_toJsonElifs]
          simp -implicitDefEqProofs [named?_object, required_some, hid, hcondition, hbody, helifs,
            hotherwise]
      | select id subject cases =>
          simp only [isStorable, casesStorable_eq, Bool.and_eq_true] at hstorable
          obtain ⟨⟨hid, hsubject⟩, hcases⟩ := hstorable
          simp only [toJson, array_toJsonCases, ofVariant, Json.depth, depthOfFields] at hdepth
          have hid := restores_id .statement id hid
          have hsubject := Expr.restores subject hsubject
          have hcases : list? (pair? (option? Expr.ofJson?) (list? (ofJsonWithin? depth)))
              (ofList (ofPair (ofOption Expr.toJson) (ofList toJson)) cases) = some cases := by
            refine list?_ofList fun case hmem => ?_
            obtain ⟨hkey, hbody⟩ := Bool.and_eq_true_iff.mp (List.all_eq_true.mp hcases case hmem)
            have := depth_lt_ofPair (ofOption Expr.toJson) hmem
            exact pair?_ofPair (Expr.restores.option Expr.toJson_ne_null case.1 hkey)
              (ihAll hbody (by omega))
          rw [ofJsonWithin?, toJson, variant?_ofVariant, array_toJsonCases]
          simp -implicitDefEqProofs [named?_object, required_some, hid, hsubject, hcases]
      | wait id timed duration =>
          obtain ⟨hid, hduration⟩ := Bool.and_eq_true_iff.mp hstorable
          have hid := restores_id .statement id hid
          have htimed := restores_bool timed rfl
          have hduration := restores_long.option nofun duration hduration
          rw [ofJsonWithin?, toJson, variant?_ofVariant]
          simp -implicitDefEqProofs [named?_object, required_some, optional_some, hid, htimed,
            hduration]

theorem restores : Restores ofJson? toJson isStorable :=
  fun s h => ofJsonWithin?_toJson s.toJson.depth h (Nat.le_refl _)

end Statement

end Rtl
