import Rtl.Operator
import Rtl.Value

namespace Rtl

-- An expression over the signals of an architecture. Every application says
-- what type its result has.
inductive Expr where
  | signal (id : SignalId)
  | literal (value : Value)
  | apply (operator : Operator) (operands : List Expr) (type : TypeId)
deriving Repr

namespace Expr

-- The operator on top of an expression.
def operator? : Expr → Option Operator
  | .apply operator _ _ => some operator
  | _ => none

mutual

-- All signals that an expression mentions, from left to right.
def signals : Expr → List SignalId
  | .signal id => [id]
  | .literal _ => []
  | .apply _ operands _ => signalsOf operands

def signalsOf : List Expr → List SignalId
  | [] => []
  | e :: rest => e.signals ++ signalsOf rest

end

mutual

def decEq : (a b : Expr) → Decidable (a = b)
  | .signal a, .signal b => decidable_of_iff (a = b) (by simp)
  | .literal a, .literal b => decidable_of_iff (a = b) (by simp)
  | .apply f xs s, .apply g ys t =>
      match decEqAll xs ys with
      | .isTrue hxs => decidable_of_iff (f = g ∧ s = t) (by simp [hxs])
      | .isFalse hxs => .isFalse (by simp [hxs])
  | .signal _, .literal _ => .isFalse nofun
  | .signal _, .apply .. => .isFalse nofun
  | .literal _, .signal _ => .isFalse nofun
  | .literal _, .apply .. => .isFalse nofun
  | .apply .., .signal _ => .isFalse nofun
  | .apply .., .literal _ => .isFalse nofun

def decEqAll : (xs ys : List Expr) → Decidable (xs = ys)
  | [], [] => .isTrue rfl
  | [], _ :: _ => .isFalse nofun
  | _ :: _, [] => .isFalse nofun
  | x :: xs, y :: ys =>
      match decEq x y, decEqAll xs ys with
      | .isTrue hx, .isTrue hxs => .isTrue (by rw [hx, hxs])
      | .isFalse hx, _ => .isFalse (by simp [hx])
      | _, .isFalse hxs => .isFalse (by simp [hxs])

end

instance : DecidableEq Expr := decEq

end Expr

end Rtl
