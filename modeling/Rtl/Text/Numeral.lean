namespace Rtl.Text

-- The `2 ^ depth` lowest digits of a number, the highest one first. A number of
-- many digits is halved rather than taken apart digit by digit.
def lowDigits (base : Nat) : Nat → Nat → List Char
  | 0, n => [Nat.digitChar (n % base)]
  | depth + 1, n =>
      let half := Nat.pow base (Nat.pow 2 depth)
      lowDigits base depth (n / half) ++ lowDigits base depth (n % half)

-- A depth at which no digit of the number is left out, whatever the base.
def digitDepth (n : Nat) : Nat := (n.log2 + 1).log2 + 1

-- The digits of a number without zeros in front.
def numeral (base n : Nat) : List Char :=
  match (lowDigits base (digitDepth n) n).dropWhile (· == '0') with
  | [] => ['0']
  | digits => digits

def decimal (n : Nat) : String := String.ofList (numeral 10 n)

def signedDecimal : Int → String
  | .ofNat n => decimal n
  | .negSucc n => "-" ++ decimal (n + 1)

-- The same digits taken one by one from the low end.
private def stepDigits (base : Nat) : Nat → Nat → List Char
  | 0, _ => []
  | count + 1, n => stepDigits base count (n / base) ++ [Nat.digitChar (n % base)]

private theorem stepDigits_add (base front back n : Nat) :
    stepDigits base (front + back) n =
      stepDigits base front (n / Nat.pow base back) ++
        stepDigits base back (n % Nat.pow base back) := by
  induction back generalizing n with
  | zero => simp [stepDigits]
  | succ back ih =>
      have hpow : Nat.pow base (back + 1) = base * Nat.pow base back := Nat.mul_comm ..
      have hmod : n % (base * Nat.pow base back) % base = n % base :=
        Nat.mod_mod_of_dvd _ (Nat.dvd_mul_right ..)
      rw [← Nat.add_assoc, stepDigits, ih, stepDigits, hpow, hmod, Nat.div_div_eq_div_mul,
        Nat.mod_mul_right_div_self, List.append_assoc]

private theorem lowDigits_eq (base depth n : Nat) :
    lowDigits base depth n = stepDigits base (Nat.pow 2 depth) n := by
  induction depth generalizing n with
  | zero => rfl
  | succ depth ih =>
      have hpow : Nat.pow 2 (depth + 1) = Nat.pow 2 depth + Nat.pow 2 depth := Nat.mul_two _
      rw [lowDigits, ih, ih, hpow, stepDigits_add]

-- Without the zeros in front nothing is left of zero, and of any other number
-- its digits.
private theorem dropWhile_stepDigits {base : Nat} (hbase : 1 < base) (count n : Nat)
    (h : n < Nat.pow base count) :
    (stepDigits base count n).dropWhile (· == '0') =
      if n = 0 then [] else Nat.toDigits base n := by
  induction count generalizing n with
  | zero =>
      have hzero : n = 0 := Nat.lt_one_iff.mp h
      rw [stepDigits, if_pos hzero, List.dropWhile_nil]
  | succ count ih =>
      have hdiv : n / base < Nat.pow base count := Nat.div_lt_of_lt_mul (Nat.mul_comm .. ▸ h)
      rw [stepDigits, List.dropWhile_append, ih _ hdiv]
      rcases Nat.lt_or_ge n base with hlt | hge
      · rw [if_pos (Nat.div_eq_of_lt hlt), Nat.mod_eq_of_lt hlt, Nat.toDigits_of_lt_base hlt]
        by_cases hzero : n = 0
        · simp [hzero]
        · simp [hzero]
      · have hpos : n / base ≠ 0 := Nat.ne_of_gt (Nat.div_pos hge (Nat.lt_trans Nat.one_pos hbase))
        have hn : n ≠ 0 := Nat.ne_of_gt (Nat.lt_of_lt_of_le (Nat.lt_trans Nat.one_pos hbase) hge)
        rw [if_neg hpos, if_neg hn, Nat.toDigits_of_base_le hbase hge]
        simp [Nat.toDigits_ne_nil]

private theorem lt_pow_digitDepth {base : Nat} (hbase : 1 < base) (n : Nat) :
    n < Nat.pow base (Nat.pow 2 (digitDepth n)) :=
  calc n < Nat.pow 2 (n.log2 + 1) := Nat.lt_log2_self
    _ ≤ Nat.pow 2 (Nat.pow 2 (digitDepth n)) :=
      Nat.pow_le_pow_right Nat.two_pos (Nat.le_of_lt Nat.lt_log2_self)
    _ ≤ Nat.pow base (Nat.pow 2 (digitDepth n)) := Nat.pow_le_pow_left hbase _

theorem numeral_eq_toDigits {base : Nat} (hbase : 1 < base) (n : Nat) :
    numeral base n = Nat.toDigits base n := by
  rw [numeral, lowDigits_eq, dropWhile_stepDigits hbase _ _ (lt_pow_digitDepth hbase n)]
  by_cases hzero : n = 0
  · rw [if_pos hzero, hzero, Nat.toDigits_zero]
  · rw [if_neg hzero]
    split
    · rename_i h
      exact absurd h Nat.toDigits_ne_nil
    · rfl

theorem decimal_eq_toString (n : Nat) : decimal n = toString n := by
  rw [decimal, numeral_eq_toDigits (by decide), Nat.toString_eq_ofList_toDigits]

theorem signedDecimal_eq_toString (i : Int) : signedDecimal i = toString i := by
  cases i with
  | ofNat n => exact decimal_eq_toString n
  | negSucc n =>
      rw [signedDecimal, decimal_eq_toString]
      rfl

end Rtl.Text
