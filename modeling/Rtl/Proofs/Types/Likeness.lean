import Rtl.Proofs.Types.Assignments
import Rtl.Proofs.Types.Reachable
import Rtl.Proofs.Vectors.Sizes

namespace Rtl

namespace TypeTable

-- A table that was made by its operations.
inductive Built : TypeTable → Prop
  | empty : Built .empty
  | intern {table : TypeTable} (type : HwType) (h : Built table) : Built (table.intern type).2
  | ofWidth {table : TypeTable} (width : Nat) (h : Built table) : Built (table.ofWidth width).2
  | declare {table : TypeTable} {type : HwType} (hneeds : type.needsDeclaration = true)
      (h : Built table) : Built (table.declare type).2

-- A type without a name of its own is in the table once.
def Shares (table : TypeTable) : Prop :=
  ∀ a b type, table.get? a = some type → table.get? b = some type →
    type.needsDeclaration = false → a = b

variable {table : TypeTable} {type found : HwType} {id : TypeId}

theorem get?_declare_eq_some (h : (table.declare type).2.get? id = some found) :
    table.get? id = some found ∨ (id = table.types.nextId ∧ found = type) := by
  have hpush : (table.types.items.push type)[id.index]? = some found := h
  rw [Array.getElem?_push] at hpush
  split at hpush
  · rename_i hlast
    exact .inr ⟨Id.index_injective hlast, (Option.some.inj hpush).symm⟩
  · exact .inl hpush

theorem mem_toList_of_get? (h : table.get? id = some type) : type ∈ table.types.toList :=
  Array.mem_toList_iff.mpr (Array.mem_of_getElem? h)

theorem Shares.declare (h : table.Shares)
    (hnew : type.needsDeclaration = false → type ∉ table.types.toList) :
    (table.declare type).2.Shares := by
  intro a b shared ha hb hplain
  rcases get?_declare_eq_some ha with hold | ⟨rfl, rfl⟩
  · rcases get?_declare_eq_some hb with hother | ⟨rfl, rfl⟩
    · exact h a b shared hold hother hplain
    · exact absurd (mem_toList_of_get? hold) (hnew hplain)
  · rcases get?_declare_eq_some hb with hother | ⟨rfl, -⟩
    · exact absurd (mem_toList_of_get? hother) (hnew hplain)
    · rfl

theorem Shares.intern (h : table.Shares) (type : HwType) : (table.intern type).2.Shares := by
  rw [TypeTable.intern]
  split
  · rename_i hneeds
    exact h.declare fun hplain => absurd hneeds (hplain ▸ Bool.false_ne_true)
  · split
    · exact h
    · rename_i hnone
      refine h.declare fun _ hmem => ?_
      have hother := List.findIdx?_eq_none_iff.mp hnone type hmem
      rw [beq_self_eq_true] at hother
      cases hother

theorem Built.shares (h : table.Built) : table.Shares := by
  induction h with
  | empty =>
      intro a b type ha
      cases ha
  | intern type _ ih => exact ih.intern type
  | ofWidth width _ ih => exact ih.intern _
  | declare hneeds _ ih =>
      exact ih.declare fun hplain => absurd hneeds (hplain ▸ Bool.false_ne_true)

end TypeTable

section Vectors

variable {width other : Nat} {signedness mark : Signedness}

theorem Vhdl.vectorType_injective (hwidth : 0 < width) (hother : 0 < other)
    (h : vectorType width signedness = vectorType other mark) :
    width = other ∧ signedness = mark := by
  have hsizes := congrArg elements? h
  rw [elements?_vectorType, elements?_vectorType, Option.some.injEq] at hsizes
  obtain rfl : width = other := by omega
  refine ⟨rfl, ?_⟩
  have hlists := congrArg String.toList h
  simp only [vectorType, String.toList_append] at hlists
  have hbases := String.toList_injective (List.append_cancel_right hlists)
  cases signedness with
  | signed | unsigned | plain =>
      cases mark with
      | signed | unsigned | plain => first | rfl | exact absurd hbases (by decide)

-- The mark stands at the end, where it is read before the width.
theorem SimModel.vectorType_injective
    (h : vectorType width signedness = vectorType other mark) :
    width = other ∧ signedness = mark := by
  have hparts (width : Nat) (signedness : Signedness) : (vectorType width signedness).toList =
      "vecT(".toList ++ ((toString width).toList ++
        (", ".toList ++ (signMark signedness).toList ++ ")".toList)) := by
    have hplain : vectorType width signedness =
      "vecT(" ++ toString width ++ ", " ++ signMark signedness ++ ")" := rfl
    simp only [hplain, String.toList_append, List.append_assoc]
  have hlists := congrArg String.toList h
  rw [hparts, hparts] at hlists
  have hrest := List.append_cancel_left hlists
  obtain rfl : signedness = mark := by
    have hends := congrArg (fun letters => letters.reverse.take 3) hrest
    simp only [List.reverse_append] at hends
    cases signedness with
    | signed | unsigned | plain =>
        cases mark with
        | signed | unsigned | plain => first | rfl | exact absurd hends (by simp [signMark])
  have hnumbers := String.toList_injective (List.append_cancel_right hrest)
  exact ⟨Nat.repr_inj.mp hnumbers, rfl⟩

theorem Dialect.vectorType_injective {dialect : Dialect}
    (hwidth : dialect = .vhdl → 0 < width) (hother : dialect = .vhdl → 0 < other)
    (h : dialect.vectorType width signedness = dialect.vectorType other mark) :
    width = other ∧ signedness = mark := by
  cases dialect with
  | vhdl => exact Vhdl.vectorType_injective (hwidth rfl) (hother rfl) h
  | simModel => exact SimModel.vectorType_injective h

end Vectors

-- A type as it is written if it was not declared.
def undeclaredText (dialect : Dialect) (id : TypeId) : HwType → String
  | .bits width signedness force =>
      if (HwType.bits width signedness force).isScalarBit then dialect.bitType
      else dialect.vectorType width signedness
  | .boolean => "BOOLEAN"
  | .integer => "INTEGER"
  | .text => "STRING"
  | .enumeration .. => s!"enumT_{id.index}"
  | .array .. => s!"arrT_{id.index}"

-- What the text of a type that was not declared says of it.
inductive TypeSort where
  | bit
  | vector
  | boolean
  | integer
  | text
  | enumeration
  | array
deriving DecidableEq

def HwType.sort : HwType → TypeSort
  | .bits width signedness force =>
      if (HwType.bits width signedness force).isScalarBit then .bit else .vector
  | .boolean => .boolean
  | .integer => .integer
  | .text => .text
  | .enumeration .. => .enumeration
  | .array .. => .array

-- The first and the last letter are enough to tell.
def TypeSort.ofText (text : String) : TypeSort :=
  match text.toList.head?, text.toList.getLast? with
  | some 'e', _ => .enumeration
  | some 'a', _ => .array
  | some 'I', _ => .integer
  | _, some ')' => .vector
  | _, some 'N' => .boolean
  | _, some 'G' => .text
  | _, _ => .bit

theorem TypeSort.ofText_vectorType (dialect : Dialect) (width : Nat) (signedness : Signedness) :
    ofText (dialect.vectorType width signedness) = .vector := by
  have hends : ∃ first middle, (dialect.vectorType width signedness).toList =
      first :: (middle ++ [')']) ∧ first ∈ ['S', 'U', 'v'] := by
    cases dialect with
    | vhdl =>
        have hplain : Vhdl.vectorType width signedness = Vhdl.vectorBase signedness ++
          ("(" ++ toString (width - 1) ++ " DOWNTO 0)") := rfl
        have htail : " DOWNTO 0)".toList = " DOWNTO 0".toList ++ [')'] := by decide
        simp only [Dialect.vectorType, hplain, String.toList_append, htail, ← List.append_assoc]
        cases signedness with
        | signed | unsigned | plain => exact ⟨_, _, rfl, by decide⟩
    | simModel =>
        have hplain : SimModel.vectorType width signedness =
          "vecT(" ++ toString width ++ ", " ++ SimModel.signMark signedness ++ ")" := rfl
        simp only [Dialect.vectorType, hplain, String.toList_append]
        exact ⟨_, _, rfl, by decide⟩
  obtain ⟨first, middle, htext, hfirst⟩ := hends
  rw [ofText, htext, List.head?_cons, ← List.cons_append, List.getLast?_concat]
  simp only [List.mem_cons, List.not_mem_nil, or_false] at hfirst
  rcases hfirst with rfl | rfl | rfl <;> rfl

theorem TypeSort.ofText_undeclaredText (dialect : Dialect) (id : TypeId) (type : HwType) :
    ofText (undeclaredText dialect id type) = type.sort := by
  cases type with
  | bits width signedness force =>
      rw [undeclaredText, HwType.sort]
      split
      · cases dialect with
        | vhdl | simModel => decide
      · exact ofText_vectorType ..
  | boolean => exact (by decide : ofText "BOOLEAN" = .boolean)
  | integer => exact (by decide : ofText "INTEGER" = .integer)
  | text => exact (by decide : ofText "STRING" = .text)
  | enumeration name labels =>
      have hplain : s!"enumT_{id.index}".toList = "enumT_".toList ++ (toString id.index).toList :=
        String.toList_append
      rw [undeclaredText, ofText, hplain]
      rfl
  | array name element size =>
      have hplain : s!"arrT_{id.index}".toList = "arrT_".toList ++ (toString id.index).toList :=
        String.toList_append
      rw [undeclaredText, ofText, hplain]
      rfl

-- Two vectors that differ only in whether they are forced to be vectors, where neither has to be.
def HwType.DifferInForce (a b : HwType) : Prop :=
  ∃ width signedness force, a = .bits width signedness force ∧
    b = .bits width signedness (!force) ∧ ¬ (width = 1 ∧ signedness = .plain)

theorem numberedType_injective (word : String) {a b : Nat}
    (h : word ++ toString a = word ++ toString b) : a = b := by
  have hlists := congrArg String.toList h
  simp only [String.toList_append] at hlists
  exact Nat.repr_inj.mp (String.toList_injective (List.append_cancel_left hlists))

-- VHDL has no vectors without elements.
def Dialect.Sizes (dialect : Dialect) (type : HwType) : Prop :=
  dialect = .vhdl → ∀ signedness force, type ≠ .bits 0 signedness force

section Undeclared

variable {dialect : Dialect} {a b : TypeId} {first second : HwType} {width : Nat}
  {signedness : Signedness} {force : Bool}

theorem HwType.isScalarBit_bits_iff : (HwType.bits width signedness force).isScalarBit = true ↔
    width = 1 ∧ signedness = .plain ∧ force = false := by
  rw [isScalarBit, beq_iff_eq, bit, HwType.bits.injEq]

theorem undeclaredText_of_vector
    (h : (HwType.bits width signedness force).isScalarBit = false) :
    undeclaredText dialect a (.bits width signedness force) =
      dialect.vectorType width signedness := by
  rw [undeclaredText, h]
  rfl

theorem Dialect.Sizes.pos (h : dialect.Sizes (.bits width signedness force)) :
    dialect = .vhdl → 0 < width := by
  intro hvhdl
  refine Nat.pos_of_ne_zero ?_
  rintro rfl
  exact h hvhdl signedness force rfl

theorem differInForce_of_undeclaredText {other : Nat} {mark : Signedness} {forced : Bool}
    (hne : HwType.bits width signedness force ≠ .bits other mark forced)
    (hfirst : dialect.Sizes (.bits width signedness force))
    (hsecond : dialect.Sizes (.bits other mark forced))
    (hsort : (HwType.bits width signedness force).sort = (HwType.bits other mark forced).sort)
    (htext : undeclaredText dialect a (.bits width signedness force) =
      undeclaredText dialect b (.bits other mark forced)) :
    (HwType.bits width signedness force).DifferInForce (.bits other mark forced) := by
  rw [HwType.sort, HwType.sort] at hsort
  cases hscalar : (HwType.bits width signedness force).isScalarBit with
  | true =>
      cases hother : (HwType.bits other mark forced).isScalarBit with
      | true => exact absurd ((beq_iff_eq.mp hscalar).trans (beq_iff_eq.mp hother).symm) hne
      | false =>
          rw [hscalar, hother] at hsort
          cases hsort
  | false =>
      cases hother : (HwType.bits other mark forced).isScalarBit with
      | true =>
          rw [hscalar, hother] at hsort
          cases hsort
      | false =>
          rw [undeclaredText_of_vector hscalar, undeclaredText_of_vector hother] at htext
          obtain ⟨rfl, rfl⟩ := Dialect.vectorType_injective hfirst.pos hsecond.pos htext
          have hforce : force ≠ forced := by
            rintro rfl
            exact hne rfl
          have hforced : forced = !force := Bool.eq_not.mpr hforce.symm
          refine ⟨width, signedness, force, rfl, congrArg _ hforced, ?_⟩
          rintro ⟨hwidth, hplain⟩
          -- A plain vector of one bit is forced, and that both are.
          rw [← Bool.not_eq_true, HwType.isScalarBit_bits_iff] at hscalar hother
          cases force with
          | false => exact hscalar ⟨hwidth, hplain, rfl⟩
          | true => exact hother ⟨hwidth, hplain, hforced⟩

theorem HwType.DifferInForce.undeclaredText_eq (h : first.DifferInForce second)
    (dialect : Dialect) (a b : TypeId) :
    undeclaredText dialect a first = undeclaredText dialect b second := by
  obtain ⟨width, signedness, force, rfl, rfl, hwide⟩ := h
  have hvector (force : Bool) : (HwType.bits width signedness force).isScalarBit = false := by
    rw [← Bool.not_eq_true, HwType.isScalarBit_bits_iff]
    exact fun hscalar => hwide ⟨hscalar.1, hscalar.2.1⟩
  rw [undeclaredText_of_vector (hvector force), undeclaredText_of_vector (hvector _)]

-- Types that were not declared are written alike only if they are vectors of one size and
-- signedness. Those with a name of their own have their numbers.
theorem undeclaredText_eq_iff (hne : a ≠ b)
    (hshared : first = second → first.needsDeclaration = true)
    (hfirst : dialect.Sizes first) (hsecond : dialect.Sizes second) :
    undeclaredText dialect a first = undeclaredText dialect b second ↔
      first.DifferInForce second := by
  refine ⟨fun htext => ?_, fun h => h.undeclaredText_eq dialect a b⟩
  have hsort : first.sort = second.sort := by
    rw [← TypeSort.ofText_undeclaredText dialect a, htext, TypeSort.ofText_undeclaredText]
  have hindex (h : a.index = b.index) : False := hne (Id.index_injective h)
  have hbits {width : Nat} {signedness : Signedness} {force : Bool} {sort : TypeSort}
      (hbit : sort ≠ .bit) (hvector : sort ≠ .vector) :
      (HwType.bits width signedness force).sort ≠ sort := by
    rw [HwType.sort]
    split
    · exact hbit.symm
    · exact hvector.symm
  cases first with
  | bits width signedness force =>
      cases second with
      | bits other mark forced =>
          refine differInForce_of_undeclaredText (fun hsame => ?_) hfirst hsecond hsort htext
          cases hshared hsame
      | boolean | integer | text | enumeration | array => exact absurd hsort (hbits nofun nofun)
  | boolean =>
      cases second with
      | boolean => cases hshared rfl
      | bits => exact absurd hsort.symm (hbits nofun nofun)
      | integer | text | enumeration | array => cases hsort
  | integer =>
      cases second with
      | integer => cases hshared rfl
      | bits => exact absurd hsort.symm (hbits nofun nofun)
      | boolean | text | enumeration | array => cases hsort
  | text =>
      cases second with
      | text => cases hshared rfl
      | bits => exact absurd hsort.symm (hbits nofun nofun)
      | boolean | integer | enumeration | array => cases hsort
  | enumeration =>
      cases second with
      | enumeration => exact (hindex (numberedType_injective "enumT_" htext)).elim
      | bits => exact absurd hsort.symm (hbits nofun nofun)
      | boolean | integer | text | array => cases hsort
  | array =>
      cases second with
      | array => exact (hindex (numberedType_injective "arrT_" htext)).elim
      | bits => exact absurd hsort.symm (hbits nofun nofun)
      | boolean | integer | text | enumeration => cases hsort

end Undeclared

namespace Renderer

open Pass

variable {s t : Renderer} {reserved : List String} {id a b : TypeId}

-- What can be asked of a renderer that changes it.
inductive Call where
  | declareType (id : TypeId)
  | process (layout : Layout) (id : ProcessId)
  | architecture (layout : Layout)

def call (s : Renderer) : Call → Renderer
  | .declareType id => (declareType id s).2
  | .process layout id => (Renderer.process layout id s).2
  | .architecture layout => (s.architecture layout).2

def session (s : Renderer) (calls : List Call) : Renderer := calls.foldl call s

-- Each declared type has one name, and it is an enumeration or an array.
structure Proper (s : Renderer) : Prop where
  once : (s.typeNames.map (·.1)).Nodup
  named : ∀ entry ∈ s.typeNames, s.design.types.Named entry.1

-- The two ways in which types are declared.
theorem declareType_cases (s : Renderer) (id : TypeId) :
    (declareType id s).2 = s ∨ (s.isDeclared id = false ∧ s.design.types.Named id ∧
      ∃ candidate, (declareType id s).2 = (s.nameType id candidate).2) := by
  cases hdeclared : s.isDeclared id with
  | true =>
      left
      rw [declareType, run_look_bind, hdeclared]
      rfl
  | false =>
      rw [declareType, run_look_bind, hdeclared, if_neg Bool.false_ne_true, run_ask_bind]
      cases htype : s.type id with
      | error cause => exact .inl rfl
      | ok type =>
          have hfound := type_eq_ok.mp htype
          cases type with
          | enumeration name labels => exact .inr ⟨rfl, ⟨_, hfound, rfl⟩, _, rfl⟩
          | array name element size =>
              refine .inr ⟨rfl, ⟨_, hfound, rfl⟩, name.getD "arrT_", ?_⟩
              simp only [run_give_bind, run_ask_bind]
              split <;> rfl
          | bits | boolean | integer | text =>
              left
              simp only [run_ask_bind]
              split <;> rfl

theorem Proper.nameType (h : s.Proper) (hnew : s.isDeclared id = false)
    (hnamed : s.design.types.Named id) (candidate : String) :
    (s.nameType id candidate).2.Proper :=
  ⟨List.nodup_cons.mpr ⟨not_mem_of_not_isDeclared hnew, h.once⟩,
    List.forall_mem_cons.mpr ⟨hnamed, h.named⟩⟩

-- What was asked of the renderer leaves its declarations in order.
structure Declaring (s t : Renderer) : Prop where
  dialect : t.dialect = s.dialect
  design : t.design = s.design
  proper : s.Proper → t.Proper

instance : IsPreorder Renderer Declaring where
  refl _ := ⟨rfl, rfl, fun hs => hs⟩
  trans _ _ _ h hnext :=
    ⟨hnext.dialect.trans h.dialect, hnext.design.trans h.design,
      fun hs => hnext.proper (h.proper hs)⟩

theorem Enters.declaring (h : s.Enters t) : s.Declaring t where
  dialect := h.dialect
  design := h.design
  proper hs := ⟨h.typeNames ▸ hs.once, by rw [h.typeNames, h.design]; exact hs.named⟩

theorem declaring_declareType (id : TypeId) : (declareType id).Keeps Declaring := by
  intro s
  rcases declareType_cases s id with hsame | ⟨hnew, hnamed, candidate, hnext⟩
  · rw [hsame]
    exact refl_of Declaring s
  · rw [hnext]
    exact ⟨rfl, rfl, fun hs => hs.nameType hnew hnamed candidate⟩

theorem declaring_body (layout : Layout) : (body layout).Keeps Declaring :=
  keeps_body (fun _ _ h => h.declaring) (keeps_nameSignals declaring_declareType fun _ _ _ =>
    ⟨rfl, rfl, fun hs => ⟨hs.once, hs.named⟩⟩) layout

theorem declaring_call (s : Renderer) (c : Call) : s.Declaring (s.call c) := by
  cases c with
  | declareType id => exact declaring_declareType id s
  | process layout id => exact (enters_process layout id s).declaring
  | architecture layout =>
      have hbody := declaring_body layout s.opened
      refine ⟨hbody.dialect, hbody.design, fun hs => ?_⟩
      obtain ⟨honce, hnamed⟩ := hbody.proper ⟨hs.once, hs.named⟩
      exact ⟨honce, hnamed⟩

theorem declaring_session (s : Renderer) (calls : List Call) : s.Declaring (s.session calls) := by
  induction calls generalizing s with
  | nil => exact refl_of Declaring s
  | cons c rest ih => exact trans_of Declaring (declaring_call s c) (ih (s.call c))

-- Until a whole unit is written, no level is closed on which types have their names.
theorem Records.session (h : s.Records reserved) {calls : List Call}
    (hcalls : ∀ layout, .architecture layout ∉ calls) : (s.session calls).Records reserved := by
  induction calls generalizing s with
  | nil => exact h
  | cons c rest ih =>
      refine ih ?_ fun layout hlayout => hcalls layout (List.mem_cons_of_mem _ hlayout)
      cases c with
      | architecture layout => exact absurd List.mem_cons_self (hcalls layout)
      | declareType id =>
          rw [Renderer.call]
          rcases declareType_cases s id with hsame | ⟨hnew, -, candidate, hnext⟩
          · rw [hsame]
            exact h
          · rw [hnext]
            exact h.nameType hnew candidate
      | process layout id =>
          rw [Renderer.call, process_eq]
          split
          · exact h
          · split
            · exact h
            · exact h.checkedName ..

theorem Records.eq_of_name {name : String} (h : s.Records reserved) (ha : (a, name) ∈ s.typeNames)
    (hb : (b, name) ∈ s.typeNames) : a = b :=
  congrArg Prod.fst (List.inj_on_of_nodup_map h.names ha hb rfl)

-- Two types that are written alike: vectors of one size and signedness, a declared type whose name
-- the other one has without being declared, or types that were declared under one name.
inductive Conflates (s : Renderer) (a b : TypeId) : Prop
  | vectors {first second : HwType} (hfirst : s.design.types.get? a = some first)
      (hsecond : s.design.types.get? b = some second) (h : first.DifferInForce second)
  | first {name : String} {type : HwType} (hname : (a, name) ∈ s.typeNames)
      (hnone : b ∉ s.typeNames.map (·.1)) (htype : s.design.types.get? b = some type)
      (htext : undeclaredText s.dialect b type = name)
  | second {name : String} {type : HwType} (hname : (b, name) ∈ s.typeNames)
      (hnone : a ∉ s.typeNames.map (·.1)) (htype : s.design.types.get? a = some type)
      (htext : undeclaredText s.dialect a type = name)
  | both {name : String} (ha : (a, name) ∈ s.typeNames) (hb : (b, name) ∈ s.typeNames)

theorem Proper.typeText_of_mem (h : s.Proper) {name : String} (hname : (id, name) ∈ s.typeNames) :
    s.typeText id = .ok name := by
  obtain ⟨type, htype, hneeds⟩ := h.named _ hname
  have hlookup := (lookup_eq_some_iff_mem h.once).mpr hname
  simp only [typeText, type_eq_ok.mpr htype, hlookup]
  cases type with
  | bits | boolean | integer | text => cases hneeds
  | enumeration | array => rfl

theorem typeText_of_not_mem {type : HwType} (hnone : id ∉ s.typeNames.map (·.1))
    (htype : s.design.types.get? id = some type) :
    s.typeText id = .ok (undeclaredText s.dialect id type) := by
  have hlookup : s.typeNames.lookup id = none := by
    rw [List.lookup_eq_none_iff]
    rintro entry hentry
    rw [bne_iff_ne, ne_eq]
    rintro rfl
    exact hnone (List.mem_map_of_mem hentry)
  simp only [typeText, type_eq_ok.mpr htype, hlookup]
  cases type with
  | bits | boolean | integer | text | enumeration | array => rfl

theorem Proper.not_mem_of_bits (h : s.Proper) {width : Nat} {signedness : Signedness}
    {force : Bool} (htype : s.design.types.get? id = some (.bits width signedness force)) :
    id ∉ s.typeNames.map (·.1) := by
  intro hmem
  obtain ⟨entry, hentry, rfl⟩ := List.mem_map.mp hmem
  obtain ⟨type, hnamed, hneeds⟩ := h.named entry hentry
  obtain rfl := Option.some.inj (htype.symm.trans hnamed)
  cases hneeds

theorem Conflates.typeText_eq (h : s.Conflates a b) (hproper : s.Proper) :
    s.typeText a = s.typeText b := by
  cases h with
  | vectors hfirst hsecond h =>
      have htexts := h.undeclaredText_eq s.dialect a b
      obtain ⟨_, _, _, rfl, rfl, -⟩ := h
      rw [typeText_of_not_mem (hproper.not_mem_of_bits hfirst) hfirst,
        typeText_of_not_mem (hproper.not_mem_of_bits hsecond) hsecond, htexts]
  | first hname hnone htype htext =>
      rw [hproper.typeText_of_mem hname, typeText_of_not_mem hnone htype, htext]
  | second hname hnone htype htext =>
      rw [hproper.typeText_of_mem hname, typeText_of_not_mem hnone htype, htext]
  | both ha hb => rw [hproper.typeText_of_mem ha, hproper.typeText_of_mem hb]

theorem Proper.conflates_iff (h : s.Proper) (hshares : s.design.types.Shares)
    {first second : HwType} (hne : a ≠ b) (hfirst : s.design.types.get? a = some first)
    (hsecond : s.design.types.get? b = some second) (hsizes : s.dialect.Sizes first)
    (hothers : s.dialect.Sizes second) :
    s.typeText a = s.typeText b ↔ s.Conflates a b := by
  refine ⟨fun htext => ?_, fun hconflates => hconflates.typeText_eq h⟩
  by_cases ha : a ∈ s.typeNames.map (·.1)
  · obtain ⟨⟨_, name⟩, hname, rfl⟩ := List.mem_map.mp ha
    rw [h.typeText_of_mem hname] at htext
    by_cases hb : b ∈ s.typeNames.map (·.1)
    · obtain ⟨⟨_, other⟩, hother, rfl⟩ := List.mem_map.mp hb
      rw [h.typeText_of_mem hother] at htext
      obtain rfl := Except.ok.inj htext
      exact .both hname hother
    · rw [typeText_of_not_mem hb hsecond] at htext
      exact .first hname hb hsecond (Except.ok.inj htext).symm
  · rw [typeText_of_not_mem ha hfirst] at htext
    by_cases hb : b ∈ s.typeNames.map (·.1)
    · obtain ⟨⟨_, other⟩, hother, rfl⟩ := List.mem_map.mp hb
      rw [h.typeText_of_mem hother] at htext
      exact .second hother ha hfirst (Except.ok.inj htext)
    · rw [typeText_of_not_mem hb hsecond] at htext
      refine .vectors hfirst hsecond ((undeclaredText_eq_iff hne ?_ hsizes hothers).mp
        (Except.ok.inj htext))
      rintro rfl
      by_contra hplain
      exact hne (hshares a b first hfirst hsecond (Bool.eq_false_of_not_eq_true hplain))

-- An assignment that could be written is refused exactly if the identifiers of the two types
-- differ. The error shows the two types as they are written.
theorem assignmentText_eq_mismatch_iff {destination : SignalId} {source : Expr}
    {indexes : Option (List Expr)} {onEvent : Bool} {signal : Signal}
    {name value first second : String}
    (hsignal : s.design.arch.signals.get? destination = some signal)
    (htype : s.design.arch.typeOf? source = some b) (hname : s.signalName destination = .ok name)
    (hvalue : s.exprText source = .ok value) (hfirst : s.typeText signal.type = .ok first)
    (hsecond : s.typeText b = .ok second) :
    s.assignmentText destination source indexes onEvent = .error (.mismatch
      (.assignment (s.dialect.assignmentTarget name) value first second)) ↔ signal.type ≠ b := by
  have hopen : s.assignmentText destination source indexes onEvent =
      if signal.type ≠ b then .error (.mismatch
        (.assignment (s.dialect.assignmentTarget name) value first second))
      else if indexes.isSome then
        .error (.unsupported (.indexedAssignment (s.dialect.assignmentTarget name)))
      else .ok (s.dialect.assignment (s.dialect.assignmentTarget name) value onEvent) := by
    simp only [assignmentText, signal_eq_ok.mpr hsignal, exprType_eq_ok.mpr htype, hname, hvalue,
      hfirst, hsecond, bind, Except.bind]
    by_cases hne : signal.type ≠ b
    · simp only [if_pos hne]
      cases indexes with
      | none | some => rfl
    · simp only [if_neg hne]
      split
      · rfl
      · rfl
  rw [hopen]
  by_cases hne : signal.type ≠ b
  · rw [if_pos hne]
    exact iff_of_true rfl hne
  · rw [if_neg hne]
    refine iff_of_false (fun h => ?_) hne
    split at h
    · cases h
    · cases h

end Renderer

open Renderer

-- Two types of a table that was made by its operations are written alike only if they conflate,
-- whatever was asked of the renderer before. Types are not declared under one name before a whole
-- unit was written. An assignment is refused for the identifiers of its types, and with the texts
-- of both; one that is written, at any depth, has one type.
theorem typeText_eq_iff_conflates (design : Design) (hbuilt : design.types.Built)
    (dialect : Dialect) (timeUnit : String) (words : List String) (ignoreCase : Bool)
    (steps : List Scope.Step) (calls : List Renderer.Call) :
    let s := (ofDesign dialect design timeUnit
      ((Scope.ofWords words ignoreCase).run steps)).session calls
    (∀ a b first second, a ≠ b → design.types.get? a = some first →
      design.types.get? b = some second → dialect.Sizes first → dialect.Sizes second →
      (s.typeText a = s.typeText b ↔ s.Conflates a b)) ∧
    ((∀ layout, .architecture layout ∉ calls) → ∀ a b name, (a, name) ∈ s.typeNames →
      (b, name) ∈ s.typeNames → a = b) ∧
    (∀ destination source indexes onEvent signal b name value first second,
      design.arch.signals.get? destination = some signal →
      design.arch.typeOf? source = some b → s.signalName destination = .ok name →
      s.exprText source = .ok value → s.typeText signal.type = .ok first →
      s.typeText b = .ok second →
      (s.assignmentText destination source indexes onEvent = .error (.mismatch
        (.assignment (dialect.assignmentTarget name) value first second)) ↔ signal.type ≠ b)) ∧
    ∀ layout u text, s.statement layout u = .ok text →
      ∀ inner ∈ u.walk, design.arch.Agrees inner := by
  intro s
  let r := ofDesign dialect design timeUnit ((Scope.ofWords words ignoreCase).run steps)
  have hfresh : r.Proper := ⟨List.nodup_nil, nofun⟩
  have hrecords : r.Records (words ++ steps.flatMap Scope.Step.words) :=
    ⟨List.nodup_nil, nofun, (Scope.sound_ofWords words ignoreCase).run steps⟩
  have hlater (hcalls : ∀ layout, .architecture layout ∉ calls) :
      s.Records (words ++ steps.flatMap Scope.Step.words) := hrecords.session hcalls
  have hdeclaring : r.Declaring s := declaring_session r calls
  have hproper := hdeclaring.proper hfresh
  obtain hdialect : s.dialect = dialect := hdeclaring.dialect
  obtain hdesign : s.design = design := hdeclaring.design
  clear_value s
  subst hdialect hdesign
  refine ⟨fun a b first second hne hfirst hsecond hsizes hothers => ?_,
    fun hcalls a b name ha hb => ?_, fun destination source indexes onEvent signal b name value
      first second hsignal htype hname hvalue hfirst hsecond => ?_, fun layout u text hok => ?_⟩
  · exact hproper.conflates_iff hbuilt.shares hne hfirst hsecond hsizes hothers
  · exact (hlater hcalls).eq_of_name ha hb
  · exact assignmentText_eq_mismatch_iff hsignal htype hname hvalue hfirst hsecond
  · exact statement_agrees u text hok

-- Pairs of types that conflate, each in a way of its own. The last two are called by the same name
-- since the first of them was declared in a unit whose names are free again.

def lookalikeTypes : TypeTable :=
  let vectors := ((TypeTable.empty.intern (.bits 8 .plain false)).2.intern (.bits 8 .plain true)).2
  let booleans := ((vectors.intern .boolean).2.declare (.enumeration (some "boolean") ["yes"])).2
  let numbered := ((booleans.declare (.array (some "enumT_5") ⟨0⟩ 2)).2.declare
    (.enumeration none ["x"])).2
  ((numbered.declare (.enumeration (some "state") ["idle"])).2.declare
    (.enumeration (some "State") ["busy"])).2

theorem built_lookalikeTypes : lookalikeTypes.Built :=
  have hvectors := TypeTable.Built.empty.intern (.bits 8 .plain false)
    |>.intern (.bits 8 .plain true)
  have hbooleans := hvectors.intern .boolean |>.declare rfl
  hbooleans.declare rfl |>.declare rfl |>.declare rfl |>.declare rfl

def lookalikeDesign : Design :=
  ⟨⟨#["top", "rtl", "now"]⟩, lookalikeTypes,
    ((Architecture.ofEntity ⟨1⟩ (Entity.ofName ⟨0⟩)).addSignal ⟨2⟩ ⟨6⟩ none).2⟩

def lookalikeCalls : List Renderer.Call :=
  [.architecture fun _ => "", .declareType ⟨7⟩, .declareType ⟨3⟩, .declareType ⟨4⟩]

def lookalikes : Renderer :=
  (ofDesign .simModel lookalikeDesign "ns" ((Scope.ofWords SimModel.keywords false).run [])).session
    lookalikeCalls

theorem typeTexts_lookalikes : lookalikeTypes.Built ∧
    lookalikes.typeText ⟨0⟩ = .ok "vecT(8, None)" ∧ lookalikes.typeText ⟨1⟩ = .ok "vecT(8, None)" ∧
    lookalikes.typeText ⟨2⟩ = .ok "BOOLEAN" ∧ lookalikes.typeText ⟨3⟩ = .ok "BOOLEAN" ∧
    lookalikes.typeText ⟨4⟩ = .ok "enumT_5" ∧ lookalikes.typeText ⟨5⟩ = .ok "enumT_5" ∧
    lookalikes.typeText ⟨6⟩ = .ok "STATE" ∧ lookalikes.typeText ⟨7⟩ = .ok "STATE" ∧
    lookalikes.assignmentText ⟨0⟩ (.literal ⟨⟨7⟩, .label (some 0)⟩) none false =
      .error (.mismatch (.assignment "self.now" "busy" "STATE" "STATE")) := by
  refine ⟨built_lookalikeTypes, ?_⟩
  decide +kernel

theorem conflates_lookalikes :
    (lookalikes.typeText ⟨2⟩ = lookalikes.typeText ⟨3⟩ ↔ lookalikes.Conflates ⟨2⟩ ⟨3⟩) ∧
    (lookalikes.assignmentText ⟨0⟩ (.literal ⟨⟨7⟩, .label (some 0)⟩) none false =
        .error (.mismatch (.assignment "self.now" "busy" "STATE" "STATE")) ↔
      (⟨6⟩ : TypeId) ≠ ⟨7⟩) :=
  have h := typeText_eq_iff_conflates lookalikeDesign built_lookalikeTypes .simModel "ns"
    SimModel.keywords false [] lookalikeCalls
  ⟨h.1 ⟨2⟩ ⟨3⟩ _ _ (by decide) rfl rfl nofun nofun,
    h.2.2.1 ⟨0⟩ (.literal ⟨⟨7⟩, .label (some 0)⟩) none false _ ⟨7⟩ "now" "busy" "STATE" "STATE" rfl
      rfl (by decide +kernel) (by decide +kernel) (by decide +kernel) (by decide +kernel)⟩

end Rtl
