import Rtl.Layout
import Rtl.Proofs.Names.Theorems

namespace Rtl

-- A signal that is called by a name nobody has, if it is hidden.
def Signal.strike (nobody : NameId) (signal : Signal) : Signal :=
  if signal.hidden then { signal with name := nobody } else signal

-- The same design with the names of its hidden signals struck out.
def Design.nameless (design : Design) : Design :=
  let nobody : NameId := ⟨design.names.texts.size⟩
  let signals := ⟨design.arch.signals.items.map (Signal.strike nobody)⟩
  { design with arch := { design.arch with signals } }

def Renderer.nameless (r : Renderer) : Renderer := { r with design := r.design.nameless }

-- The expressions in a statement itself, but not in those that it contains.
def Statement.expressions : Statement → List Expr
  | .assign _ _ source _ _ => [source]
  | .branch _ condition _ elifs _ => condition ++ elifs.flatMap (·.1)
  | .select _ subject cases => subject :: cases.filterMap (·.1)
  | .wait .. => []

namespace Architecture

-- The signals whose names are written for an expression.
inductive Reveals (arch : Architecture) : Expr → SignalId → Prop
  | signal {id : SignalId} {signal : Signal} (hsignal : arch.signals.get? id = some signal)
      (halias : signal.alias? = none) : Reveals arch (.signal id) id
  | alias {id other : SignalId} {signal : Signal} {origin : Expr}
      (hsignal : arch.signals.get? id = some signal) (halias : signal.alias? = some origin)
      (horigin : Reveals arch origin other) : Reveals arch (.signal id) other
  | operand {op : Operator} {operands : List Expr} {type : TypeId} {e : Expr} {id : SignalId}
      (hmem : e ∈ operands) (he : Reveals arch e id) : Reveals arch (.apply op operands type) id

-- The signals whose names are written for a unit.
inductive Prints (arch : Architecture) : SignalId → Prop
  | expression {process : Process} {s : Statement} {e : Expr} {id : SignalId}
      (hprocess : process ∈ arch.processes.toList) (hs : s ∈ Statement.walkAll process.body)
      (he : e ∈ s.expressions) (hid : arch.Reveals e id) : Prints arch id
  | target {process : Process} {id : SignalId} {statement : StatementId}
      (hprocess : process ∈ arch.processes.toList)
      (htarget : (id, statement) ∈ Statement.targets process.body) : Prints arch id
  | sensitivity {process : Process} {id : SignalId} (hprocess : process ∈ arch.processes.toList)
      (hid : id ∈ process.sensitivity) : Prints arch id
  | driven {link : Connection} (hlink : link ∈ arch.connections) : Prints arch link.destination
  | driving {link : Connection} (hlink : link ∈ arch.connections) : Prints arch link.source
  | bound {binding : PortId × SignalId} (hbinding : binding ∈ arch.portBindings) :
      Prints arch binding.2
  | mapped {component : Component} {entry : NameId × SignalId}
      (hcomponent : component ∈ arch.components) (hentry : entry ∈ component.portMap) :
      Prints arch entry.2

-- Whether a signal is declared.
def Shows (arch : Architecture) (id : SignalId) : Prop :=
  ∃ signal, arch.signals.get? id = some signal ∧ signal.hidden = false

-- Whether no hidden signal is named in an expression, or in a statement itself.

def Spells (arch : Architecture) (e : Expr) : Prop := ∀ id, arch.Reveals e id → arch.Shows id

structure SpellsOut (arch : Architecture) (s : Statement) : Prop where
  expressions : ∀ e ∈ s.expressions, arch.Spells e
  target : ∀ id statement, s.target? = some (id, statement) → arch.Shows id

end Architecture

namespace Signal

variable (nobody : NameId)

@[simp]
theorem hidden_strike (signal : Signal) : (signal.strike nobody).hidden = signal.hidden := by
  rw [strike]
  split
  · rfl
  · rfl

@[simp]
theorem alias?_strike (signal : Signal) : (signal.strike nobody).alias? = signal.alias? := by
  rw [strike]
  split
  · rfl
  · rfl

theorem strike_of_hidden {signal : Signal} (h : signal.hidden = true) :
    signal.strike nobody = { signal with name := nobody } := if_pos h

theorem strike_of_shown {signal : Signal} (h : signal.hidden = false) :
    signal.strike nobody = signal := if_neg (Bool.eq_false_iff.mp h)

end Signal

variable {r : Renderer} {naming : Naming} {layout : Layout}

theorem get?_nameless (r : Renderer) (id : SignalId) :
    r.nameless.design.arch.signals.get? id =
      (r.design.arch.signals.get? id).map (Signal.strike ⟨r.design.names.texts.size⟩) := by
  simp [Renderer.nameless, Design.nameless, Arena.get?]

theorem shownSignals_nameless (r : Renderer) :
    shownSignals r.nameless.design.arch = shownSignals r.design.arch := by
  simp only [shownSignals, Renderer.nameless, Design.nameless, Arena.toList, Array.toList_map,
    List.filter_map, Function.comp_def, Signal.hidden_strike]
  refine (List.map_congr_left fun signal hsignal => ?_).trans (List.map_id _)
  exact Signal.strike_of_shown _ (by simpa using (List.mem_filter.mp hsignal).2)

-- Without names for them, hidden signals cannot be named.
theorem signalNamed_nameless_iff {id : SignalId} {text : String} :
    SignalNamed r.nameless naming id text ↔
      r.design.arch.Shows id ∧ text = naming (.signal id) := by
  constructor
  · intro h
    cases h with
    | shown hsignal hshown =>
        rw [get?_nameless] at hsignal
        obtain ⟨signal, hfound, rfl⟩ := Option.map_eq_some_iff.mp hsignal
        exact ⟨⟨signal, hfound, by simpa using hshown⟩, rfl⟩
    | hidden hsignal hhidden htext =>
        rw [get?_nameless] at hsignal
        obtain ⟨signal, -, rfl⟩ := Option.map_eq_some_iff.mp hsignal
        rw [Signal.strike_of_hidden _ (by simpa using hhidden)] at htext
        have hnone : r.design.names.text? ⟨r.design.names.texts.size⟩ = none := by
          simp [NameTable.text?]
        cases hnone.symm.trans htext
  · rintro ⟨⟨signal, hsignal, hshown⟩, rfl⟩
    have hsame := get?_nameless r id
    rw [hsignal, Option.map_some, Signal.strike_of_shown _ hshown] at hsame
    exact .shown hsame hshown

theorem SignalNamed.nameless {id : SignalId} {text : String} (h : SignalNamed r naming id text)
    (hshown : r.design.arch.Shows id) : SignalNamed r.nameless naming id text := by
  refine signalNamed_nameless_iff.mpr ⟨hshown, ?_⟩
  obtain ⟨signal, hsignal, hvisible⟩ := hshown
  cases h with
  | shown => rfl
  | hidden hother hhidden =>
      obtain rfl := Option.some.inj (hsignal.symm.trans hother)
      cases hvisible.symm.trans hhidden

theorem get?_nameless_of_get? {id : SignalId} {signal : Signal}
    (h : r.design.arch.signals.get? id = some signal) :
    r.nameless.design.arch.signals.get? id =
      some (signal.strike ⟨r.design.names.texts.size⟩) := by
  rw [get?_nameless, h, Option.map_some]

-- What names no hidden signal is written alike without their names.

mutual

theorem ExprWritten.nameless {e : Expr} {text : String} :
    ExprWritten r naming e text → r.design.arch.Spells e → ExprWritten r.nameless naming e text
  | .signal hsignal halias hname, hall =>
      .signal (get?_nameless_of_get? hsignal) ((Signal.alias?_strike ..).trans halias)
        (hname.nameless (hall _ (.signal hsignal halias)))
  | .alias hsignal halias horigin, hall =>
      .alias (get?_nameless_of_get? hsignal) ((Signal.alias?_strike ..).trans halias)
        (horigin.nameless fun id hid => hall id (.alias hsignal halias hid))
  | .literal hvalue, _ => .literal hvalue
  | .apply type hoperands htext, hall =>
      .apply type (hoperands.nameless fun _ he id hid => hall id (.operand he hid)) htext

theorem PartWritten.nameless {e : Expr} {text : String} :
    PartWritten r naming e text → r.design.arch.Spells e → PartWritten r.nameless naming e text
  | .whole h, hall => .whole (h.nameless hall)
  | .bracketed h, hall => .bracketed (h.nameless hall)
  | .function type name, _ => .function type name
  | .isOne h htest, hall => .isOne (h.nameless hall) htest
  | .isNotZero h hzeros htest, hall => .isNotZero (h.nameless hall) hzeros htest

theorem PartsWritten.nameless {es : List Expr} {texts : List String} :
    PartsWritten r naming es texts → (∀ e ∈ es, r.design.arch.Spells e) →
    PartsWritten r.nameless naming es texts
  | .nil, _ => .nil
  | .cons h hrest, hall => by
      obtain ⟨hfirst, hothers⟩ := List.forall_mem_cons.mp hall
      exact .cons (h.nameless hfirst) (hrest.nameless hothers)

end

theorem ConditionWritten.nameless {parts : List Expr} {text : String}
    (h : ConditionWritten r naming parts text) (hall : ∀ e ∈ parts, r.design.arch.Spells e) :
    ConditionWritten r.nameless naming parts text := by
  obtain ⟨texts, hparts, htext⟩ := h
  exact ⟨texts, hparts.nameless hall, htext⟩

mutual

theorem StatementWritten.nameless {s : Statement} {text : String} :
    StatementWritten r naming layout s text → (∀ t ∈ s.walk, r.design.arch.SpellsOut t) →
    StatementWritten r.nameless naming layout s text
  | .assign id onEvent htarget hvalue, hall => by
      have hself := hall _ (Statement.mem_walk_self _)
      exact .assign id onEvent (htarget.nameless (hself.target _ _ rfl))
        (hvalue.nameless (hself.expressions _ List.mem_cons_self))
  | .branch id hcondition hbody helifs hotherwise, hall => by
      rw [Statement.walk] at hall
      obtain ⟨hself, hinside⟩ := List.forall_mem_cons.mp hall
      obtain ⟨hfront, hlast⟩ := List.forall_mem_append.mp hinside
      obtain ⟨hfirst, hmiddle⟩ := List.forall_mem_append.mp hfront
      obtain ⟨htest, htests⟩ := List.forall_mem_append.mp hself.expressions
      exact .branch id (hcondition.nameless htest) (hbody.nameless hfirst)
        (helifs.nameless htests hmiddle) (hotherwise.nameless hlast)
  | .select id hsubject hcases, hall => by
      rw [Statement.walk] at hall
      obtain ⟨hself, hinside⟩ := List.forall_mem_cons.mp hall
      obtain ⟨htest, hkeys⟩ := List.forall_mem_cons.mp hself.expressions
      exact .select id (hsubject.nameless (List.forall_mem_singleton.mpr htest))
        (hcases.nameless hkeys hinside)
  | .wait id htext, _ => .wait id htext

theorem BodyWritten.nameless {body : List Statement} {texts : List String} :
    BodyWritten r naming layout body texts →
    (∀ t ∈ Statement.walkAll body, r.design.arch.SpellsOut t) →
    BodyWritten r.nameless naming layout body texts
  | .nil, _ => .nil
  | .cons h hrest, hall => by
      obtain ⟨hfirst, hothers⟩ := List.forall_mem_append.mp hall
      exact .cons (h.nameless hfirst) (hrest.nameless hothers)

theorem ElifsWritten.nameless {elifs : List (List Expr × List Statement)}
    {texts : List (String × List String)} :
    ElifsWritten r naming layout elifs texts →
    (∀ e ∈ elifs.flatMap (·.1), r.design.arch.Spells e) →
    (∀ t ∈ Statement.walkElifs elifs, r.design.arch.SpellsOut t) →
    ElifsWritten r.nameless naming layout elifs texts
  | .nil, _, _ => .nil
  | .cons hcondition hbody hrest, htests, hall => by
      obtain ⟨htest, hlater⟩ := List.forall_mem_append.mp htests
      obtain ⟨hfirst, hothers⟩ := List.forall_mem_append.mp hall
      exact .cons (hcondition.nameless htest) (hbody.nameless hfirst)
        (hrest.nameless hlater hothers)

theorem CasesWritten.nameless {cases : List (Option Expr × List Statement)}
    {texts : List (Option String × List String)} :
    CasesWritten r naming layout cases texts →
    (∀ e ∈ cases.filterMap (·.1), r.design.arch.Spells e) →
    (∀ t ∈ Statement.walkCases cases, r.design.arch.SpellsOut t) →
    CasesWritten r.nameless naming layout cases texts
  | .nil, _, _ => .nil
  | .default hbody hrest, hkeys, hall => by
      obtain ⟨hfirst, hothers⟩ := List.forall_mem_append.mp hall
      exact .default (hbody.nameless hfirst) (hrest.nameless hkeys hothers)
  | .key hkey hbody hrest, hkeys, hall => by
      obtain ⟨hhere, hlater⟩ := List.forall_mem_cons.mp hkeys
      obtain ⟨hfirst, hothers⟩ := List.forall_mem_append.mp hall
      exact .key (hkey.nameless hhere) (hbody.nameless hfirst) (hrest.nameless hlater hothers)

end

-- What is written without the names of hidden signals names none.

theorem exists_exprWritten_of_part {e : Expr} {text : String} : PartWritten r naming e text →
    (∃ value, e = .literal value) ∨ ∃ whole, ExprWritten r naming e whole
  | .whole h => .inr ⟨_, h⟩
  | .bracketed h => exists_exprWritten_of_part h
  | .function _ _ => .inl ⟨_, rfl⟩
  | .isOne h _ => exists_exprWritten_of_part h
  | .isNotZero h _ _ => exists_exprWritten_of_part h

theorem exists_partWritten_of_mem {es : List Expr} {texts : List String} {e : Expr} :
    PartsWritten r naming es texts → e ∈ es → ∃ text, PartWritten r naming e text
  | .cons h hrest, hmem => by
      rcases List.mem_cons.mp hmem with rfl | hmem
      · exact ⟨_, h⟩
      · exact exists_partWritten_of_mem hrest hmem

theorem shows_of_exprWritten {e : Expr} {id : SignalId} (hid : r.design.arch.Reveals e id)
    {text : String} (h : ExprWritten r.nameless naming e text) : r.design.arch.Shows id := by
  induction hid generalizing text with
  | signal hsignal halias =>
      have hstruck := get?_nameless_of_get? hsignal
      cases h with
      | signal _ _ hname => exact (signalNamed_nameless_iff.mp hname).1
      | «alias» hother hstands =>
          obtain rfl := Option.some.inj (hstruck.symm.trans hother)
          rw [Signal.alias?_strike, halias] at hstands
          cases hstands
  | «alias» hsignal halias horigin ih =>
      have hstruck := get?_nameless_of_get? hsignal
      cases h with
      | signal hother hstands =>
          obtain rfl := Option.some.inj (hstruck.symm.trans hother)
          rw [Signal.alias?_strike, halias] at hstands
          cases hstands
      | «alias» hother hstands hwritten =>
          obtain rfl := Option.some.inj (hstruck.symm.trans hother)
          rw [Signal.alias?_strike, halias] at hstands
          obtain rfl := Option.some.inj hstands
          exact ih hwritten
  | operand hmem he ih =>
      cases h with
      | apply _ hoperands =>
          obtain ⟨part, hpart⟩ := exists_partWritten_of_mem hoperands hmem
          rcases exists_exprWritten_of_part hpart with ⟨value, rfl⟩ | ⟨whole, hwhole⟩
          · cases he
          · exact ih hwhole

theorem PartWritten.spells {e : Expr} {text : String} (h : PartWritten r.nameless naming e text) :
    r.design.arch.Spells e := by
  intro id hid
  rcases exists_exprWritten_of_part h with ⟨value, rfl⟩ | ⟨whole, hwhole⟩
  · cases hid
  · exact shows_of_exprWritten hid hwhole

theorem ConditionWritten.spells {parts : List Expr} {text : String}
    (h : ConditionWritten r.nameless naming parts text) : ∀ e ∈ parts, r.design.arch.Spells e := by
  intro e hmem
  obtain ⟨texts, hparts, -⟩ := h
  obtain ⟨part, hpart⟩ := exists_partWritten_of_mem hparts hmem
  exact hpart.spells

theorem ElifsWritten.spells {elifs : List (List Expr × List Statement)}
    {texts : List (String × List String)} : ElifsWritten r.nameless naming layout elifs texts →
    ∀ e ∈ elifs.flatMap (·.1), r.design.arch.Spells e
  | .nil => nofun
  | .cons hcondition _ hrest => List.forall_mem_append.mpr ⟨hcondition.spells, hrest.spells⟩

theorem CasesWritten.spells {cases : List (Option Expr × List Statement)}
    {texts : List (Option String × List String)} :
    CasesWritten r.nameless naming layout cases texts →
    ∀ e ∈ cases.filterMap (·.1), r.design.arch.Spells e
  | .nil => nofun
  | .default _ hrest => hrest.spells
  | .key hkey _ hrest =>
      List.forall_mem_cons.mpr ⟨fun _ hid => shows_of_exprWritten hid hkey, hrest.spells⟩

mutual

theorem StatementWritten.spellsOut {s : Statement} {text : String} :
    StatementWritten r.nameless naming layout s text →
    ∀ t ∈ s.walk, r.design.arch.SpellsOut t
  | .assign id onEvent htarget hvalue => by
      refine List.forall_mem_singleton.mpr ⟨List.forall_mem_singleton.mpr ?_, ?_⟩
      · exact fun _ hid => shows_of_exprWritten hid hvalue
      · rintro destination statement htarget'
        obtain ⟨rfl, -⟩ := Prod.mk.inj (Option.some.inj htarget')
        exact (signalNamed_nameless_iff.mp htarget).1
  | .branch id hcondition hbody helifs hotherwise => by
      refine List.forall_mem_cons.mpr ⟨⟨?_, nofun⟩, List.forall_mem_append.mpr ⟨?_, ?_⟩⟩
      · exact List.forall_mem_append.mpr ⟨hcondition.spells, helifs.spells⟩
      · exact List.forall_mem_append.mpr ⟨hbody.spellsOut, helifs.spellsOut⟩
      · exact hotherwise.spellsOut
  | .select id hsubject hcases => by
      refine List.forall_mem_cons.mpr ⟨⟨?_, nofun⟩, hcases.spellsOut⟩
      exact List.forall_mem_cons.mpr
        ⟨List.forall_mem_singleton.mp hsubject.spells, hcases.spells⟩
  | .wait id htext => List.forall_mem_singleton.mpr ⟨nofun, nofun⟩

theorem BodyWritten.spellsOut {body : List Statement} {texts : List String} :
    BodyWritten r.nameless naming layout body texts →
    ∀ t ∈ Statement.walkAll body, r.design.arch.SpellsOut t
  | .nil => nofun
  | .cons h hrest => List.forall_mem_append.mpr ⟨h.spellsOut, hrest.spellsOut⟩

theorem ElifsWritten.spellsOut {elifs : List (List Expr × List Statement)}
    {texts : List (String × List String)} : ElifsWritten r.nameless naming layout elifs texts →
    ∀ t ∈ Statement.walkElifs elifs, r.design.arch.SpellsOut t
  | .nil => nofun
  | .cons _ hbody hrest => List.forall_mem_append.mpr ⟨hbody.spellsOut, hrest.spellsOut⟩

theorem CasesWritten.spellsOut {cases : List (Option Expr × List Statement)}
    {texts : List (Option String × List String)} :
    CasesWritten r.nameless naming layout cases texts →
    ∀ t ∈ Statement.walkCases cases, r.design.arch.SpellsOut t
  | .nil => nofun
  | .default hbody hrest => List.forall_mem_append.mpr ⟨hbody.spellsOut, hrest.spellsOut⟩
  | .key _ hbody hrest => List.forall_mem_append.mpr ⟨hbody.spellsOut, hrest.spellsOut⟩

end

theorem ProcessWritten.nameless {process : Process} {text : String}
    (h : ProcessWritten r naming layout process text)
    (hsensitivity : ∀ id ∈ process.sensitivity, r.design.arch.Shows id)
    (hbody : ∀ t ∈ Statement.walkAll process.body, r.design.arch.SpellsOut t) :
    ProcessWritten r.nameless naming layout process text := by
  obtain ⟨piece, names, htext, hname, hnames, hsame, hlines⟩ := h
  refine ⟨piece, names, htext, hname, ?_, hsame, hlines.nameless hbody⟩
  exact forall₂_of_forall_mem hnames fun id hid _ hnamed => hnamed.nameless (hsensitivity id hid)

theorem ComponentWritten.nameless {component : Component} {position : Nat} {piece : ComponentPiece}
    (h : ComponentWritten r naming component position piece)
    (hmap : ∀ entry ∈ component.portMap, r.design.arch.Shows entry.2) :
    ComponentWritten r.nameless naming component position piece := by
  obtain ⟨hname, hentity, hentries⟩ := h
  refine ⟨hname, hentity, ?_⟩
  exact forall₂_of_forall_mem hentries fun entry hentry _ hnamed =>
    ⟨hnamed.1, hnamed.2.nameless (hmap entry hentry)⟩

theorem BindingWritten.nameless {binding : PortId × SignalId} {names : String × String}
    (h : BindingWritten r naming binding names) (hshown : r.design.arch.Shows binding.2) :
    BindingWritten r.nameless naming binding names := by
  cases h with
  | input hport hdirection hname => exact .input hport hdirection (hname.nameless hshown)
  | output hport hdirection hname => exact .output hport hdirection (hname.nameless hshown)

theorem TypeWritten.nameless {id : TypeId} {text : String} (h : TypeWritten r naming id text) :
    TypeWritten r.nameless naming id text := by
  cases h with
  | enumeration htype => exact .enumeration htype
  | array last mention htype => exact .array last mention htype

theorem UnitWritten.nameless {types : List TypeId} {piece : UnitPiece}
    (h : UnitWritten r naming layout types piece)
    (hall : ∀ id, r.design.arch.Prints id → r.design.arch.Shows id) :
    UnitWritten r.nameless naming layout types piece where
  entity := h.entity
  architecture := h.architecture
  ports := h.ports
  types := h.types.imp fun _ _ => TypeWritten.nameless
  signals := by
    rw [shownSignals_nameless]
    exact h.signals
  connections := by
    obtain ⟨links, bindings, pairs, hlinks, hbindings, hperm, htexts⟩ := h.connections
    refine ⟨links, bindings, pairs, ?_, ?_, hperm, htexts⟩
    · exact forall₂_of_forall_mem hlinks fun link hlink _ hnames =>
        ⟨hnames.1.nameless (hall _ (.driven hlink)), hnames.2.nameless (hall _ (.driving hlink))⟩
    · exact forall₂_of_forall_mem hbindings fun binding hbinding _ hnames =>
        hnames.nameless (hall _ (.bound hbinding))
  processes := by
    obtain ⟨processes, hperm, hwritten⟩ := h.processes
    refine ⟨processes, hperm, forall₂_of_forall_mem hwritten fun process hmem text htext => ?_⟩
    have hprocess := hperm.mem_iff.mp hmem
    refine htext.nameless (fun id hid => hall id (.sensitivity hprocess hid)) fun t ht => ⟨?_, ?_⟩
    · exact fun e he id hid => hall id (.expression hprocess ht he hid)
    · exact fun id statement htarget =>
        hall id (.target hprocess (List.mem_filterMap.mpr ⟨t, ht, htarget⟩))
  components := by
    obtain ⟨components, hperm, hwritten⟩ := h.components
    refine ⟨components, hperm, forall₂_of_forall_mem hwritten fun entry hmem piece hpiece => ?_⟩
    have hcomponent := hperm.mem_iff.mp (List.fst_mem_of_mem_zipIdx hmem)
    exact hpiece.nameless fun mapped hmapped => hall _ (.mapped hcomponent hmapped)

theorem shows_of_signalNamed {id : SignalId} {name : String}
    (h : SignalNamed r.nameless naming id name) : r.design.arch.Shows id :=
  (signalNamed_nameless_iff.mp h).1

theorem ProcessWritten.shows {process : Process} {text : String}
    (h : ProcessWritten r.nameless naming layout process text) :
    (∀ id ∈ process.sensitivity, r.design.arch.Shows id) ∧
      ∀ t ∈ Statement.walkAll process.body, r.design.arch.SpellsOut t := by
  obtain ⟨piece, names, -, -, hnames, -, hlines⟩ := h
  exact ⟨forall_mem_of_forall₂ hnames fun _ _ => shows_of_signalNamed, hlines.spellsOut⟩

theorem BindingWritten.shows {binding : PortId × SignalId} {names : String × String}
    (h : BindingWritten r.nameless naming binding names) : r.design.arch.Shows binding.2 := by
  cases h with
  | input _ _ hname | output _ _ hname => exact shows_of_signalNamed hname

theorem UnitWritten.shows {types : List TypeId} {piece : UnitPiece}
    (h : UnitWritten r.nameless naming layout types piece) {id : SignalId}
    (hid : r.design.arch.Prints id) : r.design.arch.Shows id := by
  obtain ⟨links, bindings, -, hlinks, hbindings, -⟩ := h.connections
  obtain ⟨processes, hperm, hprocesses⟩ := h.processes
  have hprocess {process : Process} (hmem : process ∈ r.design.arch.processes.toList) :=
    forall_mem_of_forall₂ hprocesses (fun _ _ h => h.shows) process (hperm.mem_iff.mpr hmem)
  cases hid with
  | expression hmem hs he hid => exact ((hprocess hmem).2 _ hs).expressions _ he _ hid
  | target hmem htarget =>
      obtain ⟨t, ht, htarget⟩ := List.mem_filterMap.mp htarget
      exact ((hprocess hmem).2 t ht).target _ _ htarget
  | sensitivity hmem hid => exact (hprocess hmem).1 _ hid
  | driven hlink =>
      exact forall_mem_of_forall₂ hlinks (fun _ _ hnames => shows_of_signalNamed hnames.1) _ hlink
  | driving hlink =>
      exact forall_mem_of_forall₂ hlinks (fun _ _ hnames => shows_of_signalNamed hnames.2) _ hlink
  | @bound binding hbinding =>
      exact forall_mem_of_forall₂ hbindings (fun _ _ hnames => hnames.shows) binding hbinding
  | @mapped component entry hmem hentry =>
      obtain ⟨components, hcomponents, hpieces⟩ := h.components
      obtain ⟨position, hposition⟩ := List.mem_iff_getElem?.mp (hcomponents.mem_iff.mpr hmem)
      have hwritten := forall_mem_of_forall₂ hpieces
        (fun placed piece ⟨_, _, hmap⟩ =>
          forall_mem_of_forall₂ hmap fun _ _ hnames => shows_of_signalNamed hnames.2)
        (component, position) (List.mem_zipIdx_iff_getElem?.mpr hposition)
      exact hwritten entry hentry

open Renderer

-- A unit that was written is that of the same design without names for hidden
-- signals exactly if every signal that it names is declared.
theorem unitWritten_nameless_iff {design : Design} (hbuilt : design.arch.Built)
    {dialect : Dialect} {reserved : List String} {timeUnit text : String} {layout : Layout}
    {last : Renderer}
    (hok : (ofDesign dialect design timeUnit (dialect.baseScope reserved)).architecture layout =
      (.ok text, last)) :
    ∃ (naming : Naming) (types : List TypeId) (piece : UnitPiece), text = layout (.unit piece) ∧
      UnitWritten (ofDesign dialect design timeUnit (dialect.baseScope reserved)) naming layout
        types piece ∧
      (UnitWritten (ofDesign dialect design.nameless timeUnit (dialect.baseScope reserved)) naming
          layout types piece ↔
        ∀ id, design.arch.Prints id → design.arch.Shows id) := by
  obtain ⟨naming, types, piece, htext, hunit⟩ := exists_unitWritten hbuilt.numbered hok
  refine ⟨naming, types, piece, htext, hunit, fun hstruck id => ?_, hunit.nameless⟩
  exact hstruck.shows (r := ofDesign dialect design timeUnit (dialect.baseScope reserved))

-- A process that is sensitive to a hidden signal.

def watchSignals : Architecture :=
  ((Architecture.ofEntity ⟨1⟩ ((Entity.ofName ⟨0⟩).addPort ⟨2⟩ .input ⟨0⟩).2).addSignal
    ⟨3⟩ ⟨0⟩ none).2

def watch : Architecture :=
  (((watchSignals.bindPort ⟨0⟩ ⟨0⟩).addHidden ⟨4⟩ ⟨0⟩ (.signal ⟨0⟩)).2.addProcess ⟨5⟩ [⟨1⟩] []).2

theorem built_watch : watch.Built :=
  have hsignals : watchSignals.Built := .addSignal (.new _ (.addPort (.new _) ..)) ..
  .addProcess (.addHidden (.bindPort hsignals (if_pos (by decide))) (if_pos (by decide)))
    (if_pos (by decide))

def watchDesign : Design :=
  ⟨⟨#["top", "rtl", "d", "a", "h", "watch"]⟩, (TypeTable.empty.ofWidth 1).2, watch⟩

theorem roster_watchDesign :
    ∃ (naming : Naming) (types : List TypeId) (piece : UnitPiece),
      "d; SIGNAL a : STD_LOGIC; a <= d;; watch: h" = roster (.unit piece) ∧
      UnitWritten (ofDesign .vhdl watchDesign "ns" (Dialect.vhdl.baseScope [])) naming roster types
        piece ∧
      (UnitWritten (ofDesign .vhdl watchDesign.nameless "ns" (Dialect.vhdl.baseScope [])) naming
          roster types piece ↔
        ∀ id, watch.Prints id → watch.Shows id) :=
  unitWritten_nameless_iff built_watch (Prod.ext (by decide +kernel) rfl)

theorem text_watchDesign :
    ((ofDesign .vhdl watchDesign "ns" (Dialect.vhdl.baseScope [])).architecture
      (Dialect.vhdl.layout "    ")).1 = .ok (Layout.joinLines
        ["ENTITY top IS",
         "    PORT (",
         "        d : IN STD_LOGIC",
         "    );",
         "END ENTITY top;",
         "",
         "ARCHITECTURE rtl OF top IS",
         "    SIGNAL a : STD_LOGIC;",
         "BEGIN",
         "    a <= d;",
         "    watch: PROCESS (h)",
         "    BEGIN",
         "        NULL;",
         "    END PROCESS;",
         "END ARCHITECTURE rtl;"]) := by
  decide +kernel

end Rtl
