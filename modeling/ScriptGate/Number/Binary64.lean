/-!
# Double precision numbers

Numbers of 53 significant bits, held as an integer significand and a power of two, so that reading a
decimal is exact arithmetic on natural numbers followed by one rounding.

## Main definitions

* `Binary64`: a double precision number.
* `Binary64.ofDecimal`: the double nearest to a decimal, a tie going to the even significand.
* `Binary64.toInt?`: the integer that a double is, if it is one.
-/

namespace ScriptGate

/-- A double precision number. A finite one is `significand * 2 ^ exponent`, with a significand
below `2 ^ 53` and an exponent not below `-1074`. -/
inductive Binary64 where
  | nan
  | infinity (negative : Bool)
  | finite (negative : Bool) (significand : Nat) (exponent : Int)
  deriving DecidableEq, Repr

namespace Binary64

/-- The least exponent of a finite double. -/
def leastExponent : Int := -1074

/-- The greatest exponent of a finite double. -/
def greatestExponent : Int := 971

/-- The least significand of 53 bits, which is `2 ^ 52`. -/
def leastFull : Nat := 0x10000000000000

/-- The quotient rounded to the nearest natural number, a half going to the even neighbour. -/
def roundDiv (num den : Nat) : Nat :=
  let quotient := num / den
  let rest := num % den
  if den < 2 * rest ∨ (2 * rest = den ∧ quotient % 2 = 1) then quotient + 1 else quotient

/-- The quotient of `num / den` by `2 ^ q`, as a numerator and a denominator. -/
def scaled (num den : Nat) (q : Int) : Nat × Nat :=
  match q with
  | .ofNat n => (num, den * Nat.pow 2 n)
  | .negSucc n => (num * Nat.pow 2 (n + 1), den)

/-- The exponent at which `num / den` has a significand of 53 bits. -/
def exponentOf (num den : Nat) : Int :=
  let q : Int := (Nat.log2 num : Int) - (Nat.log2 den : Int) - 52
  let s := scaled num den q
  if s.1 / s.2 < leastFull then q - 1 else q

/-- The double nearest to `num / den`, for a positive numerator and denominator. -/
def ofRatio (negative : Bool) (num den : Nat) : Binary64 :=
  let q := max (exponentOf num den) leastExponent
  let s := scaled num den q
  let m := roundDiv s.1 s.2
  let carried : Nat × Int := if m = 2 * leastFull then (leastFull, q + 1) else (m, q)
  if greatestExponent < carried.2 then infinity negative
  else finite negative carried.1 carried.2

/-- The double nearest to `digits * 10 ^ exponent`. A decimal of more than 310 places before the
point is past every double, and one that begins after 330 zeros rounds to zero. -/
def ofDecimal (negative : Bool) (digits : Nat) (exponent : Int) : Binary64 :=
  if digits = 0 then finite negative 0 leastExponent
  else
    let places : Int := (Nat.repr digits).length + exponent
    if 310 < places then infinity negative
    else if places < -330 then finite negative 0 leastExponent
    else
      match exponent with
      | .ofNat n => ofRatio negative (digits * Nat.pow 10 n) 1
      | .negSucc n => ofRatio negative digits (Nat.pow 10 (n + 1))

/-- The integer that the number is; `none` if it has a fraction, is infinite or not a number. -/
def toInt? : Binary64 → Option Int
  | nan | infinity _ => none
  | finite negative m (.ofNat n) =>
    some (if negative then -(m * Nat.pow 2 n : Nat) else (m * Nat.pow 2 n : Nat))
  | finite negative m (.negSucc n) =>
    if m % Nat.pow 2 (n + 1) = 0 then
      some (if negative then -(m / Nat.pow 2 (n + 1) : Nat) else (m / Nat.pow 2 (n + 1) : Nat))
    else none

/-- Neither infinite nor a NaN. -/
def isFinite : Binary64 → Bool
  | finite .. => true
  | _ => false

end Binary64

end ScriptGate
