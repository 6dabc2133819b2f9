import Rtl.Render.Expr
import Rtl.Render.Pass
import Rtl.Text.Capitals

namespace Rtl.Renderer

open Pass

def checkedName (r : Renderer) (owner : Owner) (candidate : String) : String × Renderer :=
  let (name, scope) := r.scope.checkedName owner candidate
  (name, { r with scope })

def nameType (r : Renderer) (id : TypeId) (candidate : String) : String × Renderer :=
  let (name, r) := r.checkedName (.type id) candidate
  (name, { r with typeNames := (id, name) :: r.typeNames })

def nameSignal (r : Renderer) (id : SignalId) (candidate : String) : String × Renderer :=
  let (name, r) := r.checkedName (.signal id) candidate
  (name, { r with signalNames := (id, name) :: r.signalNames })

def isDeclared (r : Renderer) (id : TypeId) : Bool := (r.typeNames.lookup id).isSome

-- The declaration of an enumeration or an array; `none` if there was one before.
-- Enumerations are named in capitals.
def declareType (id : TypeId) : Pass (Option String) := do
  if ← look (·.isDeclared id) then return none
  match ← ask (·.type id) with
  | .enumeration name labels =>
      let name ← give (·.nameType id (Text.toCapitals (name.getD "enumT_")))
      return some ("TYPE " ++ name ++ " IS (" ++ String.intercalate ", " labels ++ ")")
  | .array name element size =>
      let name ← give (·.nameType id (name.getD "arrT_"))
      let element ← ask (·.typeText element)
      let last := (size : Int) - 1
      return some (s!"TYPE {name} IS ARRAY (({last}) DOWNTO 0) OF " ++ element)
  | _ => throw (.unsupported (.typeDeclaration (← ask (·.typeText id))))

-- The declarations that a mention of a type needs and that there are not yet,
-- those of array elements first; follows at most `depth` types.
def declareWithin : Nat → TypeId → Pass (List String)
  | 0, id => throw (.missing (.type id))
  | depth + 1, id => do
      match ← ask (·.type id) with
      | .enumeration .. => return (← declareType id).toList
      | .array _ element _ =>
          let before ← declareWithin depth element
          let declaration ← declareType id
          return before ++ declaration.toList
      | _ => return []

def declareAll (id : TypeId) : Pass (List String) := do
  declareWithin (← look (·.design.types.size)) id

theorem outcome_declareType (r : Renderer) (id : TypeId) :
    (declareType id).outcome r = (do
      if r.isDeclared id then return (none, r)
      match ← r.type id with
      | .enumeration name labels =>
          let (name, r) := r.nameType id (Text.toCapitals (name.getD "enumT_"))
          return (some ("TYPE " ++ name ++ " IS (" ++ String.intercalate ", " labels ++ ")"), r)
      | .array name element size =>
          let (name, r) := r.nameType id (name.getD "arrT_")
          let element ← r.typeText element
          let last := (size : Int) - 1
          return (some (s!"TYPE {name} IS ARRAY (({last}) DOWNTO 0) OF " ++ element), r)
      | _ => throw (.unsupported (.typeDeclaration (← r.typeText id)))) := by
  rw [declareType, outcome_look_bind]
  cases r.isDeclared id with
  | true => rfl
  | false =>
      refine (outcome_ask_bind ..).trans (bind_congr fun type => ?_)
      cases type with
      | enumeration => rfl
      | array =>
          simp only [outcome_give_bind, outcome_ask_bind]
          rfl
      | bits | boolean | integer | text => exact outcome_ask_bind ..

theorem outcome_declareWithin_succ (r : Renderer) (depth : Nat) (id : TypeId) :
    (declareWithin (depth + 1) id).outcome r = (do
      match ← r.type id with
      | .enumeration .. =>
          let (declaration, r) ← (declareType id).outcome r
          return (declaration.toList, r)
      | .array _ element _ =>
          let (before, r) ← (declareWithin depth element).outcome r
          let (declaration, r) ← (declareType id).outcome r
          return (before ++ declaration.toList, r)
      | _ => return ([], r)) := by
  refine (outcome_ask_bind ..).trans (bind_congr fun type => ?_)
  cases type with
  | enumeration => exact outcome_bind ..
  | array =>
      refine (outcome_bind ..).trans (bind_congr fun before => ?_)
      exact outcome_bind ..
  | bits | boolean | integer | text => rfl

theorem outcome_declareAll (r : Renderer) (id : TypeId) :
    (declareAll id).outcome r = (declareWithin r.design.types.size id).outcome r := rfl

-- A signal counts as a signal if anything drives it, and as a constant if it is
-- only read.
def signalKind? (signal : Signal) : Option SignalKind :=
  if !signal.drivers.isEmpty then some .signal
  else if !signal.readers.isEmpty then some .constant
  else none

-- A default that is undefined throughout is left out.
def defaultText (r : Renderer) (default : Option Value) : Except RenderError (Option String) :=
  match default with
  | some value => if value.anyDefined then some <$> r.valueText value else .ok none
  | none => .ok none

-- The declaration of a signal under the name it was given.
def declareSignal (r : Renderer) (id : SignalId) : Except RenderError String := do
  let signal ← r.signal id
  let name ← r.signalName id
  let type ← r.typeText signal.type
  let default ← r.defaultText signal.default
  r.dialect.signalDeclaration { name, type, default, kind := signalKind? signal }

end Rtl.Renderer
