import ScriptGate.Number.Binary64
import ScriptGate.Text.Basic

/-!
# The shortest decimal of a double

A double is shown by the fewest digits that read back as the same double, and of those the nearest
to it. The digits are written positionally for moderate sizes and with an exponent otherwise.

## Main definitions

* `Shortest.digits`: the digits of a positive double and the place of its point.
* `Binary64.show`: the decimal notation.
-/

namespace ScriptGate

namespace Shortest

/-- `a * 10 ^ k ≤ b`, with the power on the side where it is a natural number. -/
def leScaled (a : Nat) (k : Int) (b : Nat) : Bool :=
  match k with
  | .ofNat n => a * Nat.pow 10 n ≤ b
  | .negSucc n => a ≤ b * Nat.pow 10 (n + 1)

/-- `b ≤ a * 10 ^ k`. -/
def geScaled (a : Nat) (k : Int) (b : Nat) : Bool :=
  match k with
  | .ofNat n => b ≤ a * Nat.pow 10 n
  | .negSucc n => b * Nat.pow 10 (n + 1) ≤ a

/-- The reals that round to one double: multiples `low` to `high` of `1 / den`, around `mid`. The
ends belong to it for an even significand. -/
structure Interval where
  low : Nat
  mid : Nat
  high : Nat
  den : Nat
  closed : Bool

/-- The interval of `m * 2 ^ q`. Below a power of two the doubles lie twice as close. -/
def interval (m : Nat) (q : Int) : Interval :=
  let edge := m = Binary64.leastFull ∧ Binary64.leastExponent < q
  let below := if edge then 4 * m - 1 else 4 * m - 2
  match q - 2 with
  | .ofNat n => ⟨below * Nat.pow 2 n, 4 * m * Nat.pow 2 n, (4 * m + 2) * Nat.pow 2 n, 1, m % 2 = 0⟩
  | .negSucc n => ⟨below, 4 * m, 4 * m + 2, Nat.pow 2 (n + 1), m % 2 = 0⟩

/-- The decimal `a * 10 ^ k` lies in the interval. -/
def Interval.contains (i : Interval) (a : Nat) (k : Int) : Bool :=
  let c := a * i.den
  if i.closed then geScaled c k i.low && leScaled c k i.high
  else !leScaled c k i.low && !geScaled c k i.high

/-- The number of decimal places before the point of `num / den`; not positive for numbers below
one tenth. -/
def places (num den : Nat) : Int :=
  let p : Int := ((Nat.repr num).length : Int) - (Nat.repr den).length
  if leScaled den p num then p + 1 else p

/-- The whole part of `num / den / 10 ^ k`. -/
def floorAt (num den : Nat) (k : Int) : Nat :=
  match k with
  | .ofNat n => num / (den * Nat.pow 10 n)
  | .negSucc n => num * Nat.pow 10 (n + 1) / den

/-- Twice the middle of `a` and `a + 1` on the grid `10 ^ k` is not above twice the number, so that
`a + 1` is the nearer, the even one winning a tie. -/
def upperNearer (i : Interval) (a : Nat) (k : Int) : Bool :=
  let c := (2 * a + 1) * i.den
  if leScaled c k (2 * i.mid) then
    if geScaled c k (2 * i.mid) then a % 2 = 1 else true
  else false

/-- The decimal of `n` digits that reads back as the number, if there is one: of the two neighbours
on the grid the one in the interval, or the nearer of both. -/
def atLength (i : Interval) (p : Int) (n : Nat) : Option Nat :=
  let k := p - n
  let a := floorAt i.mid i.den k
  match i.contains a k, i.contains (a + 1) k with
  | true, true => some (if upperNearer i a k then a + 1 else a)
  | true, false => some a
  | false, true => some (a + 1)
  | false, false => none

/-- The fewest digits that read back as `m * 2 ^ q`, and the number of places before the point.
Seventeen digits are always enough. -/
def digits (m : Nat) (q : Int) : Nat × Int :=
  let i := interval m q
  let p := places i.mid i.den
  match (List.range 17).findSome? fun n => (atLength i p (n + 1)).map (·, n + 1) with
  | some (a, n) => if a = Nat.pow 10 n then (1, p + 1) else (a, p)
  | none => (i.mid / i.den, p)

/-- Exponents are written with a sign and at least two digits. -/
def exponentText (e : Int) : Text :=
  (if e < 0 then .char '-' else .char '+') :: Text.padded 2 e.natAbs

/-- Digits `a` with the point after `p` places. Numbers from `0.0001` up to, but not including,
`10 ^ 16` are written positionally and keep a digit after the point. -/
def notate (a : Nat) (p : Int) : Text :=
  let ds := Text.ofNat a
  let zeros (n : Nat) : Text := List.replicate n (.char '0')
  if p ≤ -4 ∨ 16 < p then
    let mantissa := match ds with
      | d :: rest@(_ :: _) => d :: .char '.' :: rest
      | _ => ds
    mantissa ++ .char 'e' :: exponentText (p - 1)
  else if p ≤ 0 then "0." ++ zeros (-p).toNat ++ ds
  else if p.toNat < ds.length then ds.take p.toNat ++ .char '.' :: ds.drop p.toNat
  else ds ++ zeros (p.toNat - ds.length) ++ ".0"

end Shortest

/-- The decimal notation of a double. -/
def Binary64.show : Binary64 → Text
  | nan => "nan"
  | infinity negative => if negative then "-inf" else "inf"
  | finite negative m q =>
    let sign : Text := if negative then "-" else ""
    if m = 0 then sign ++ "0.0"
    else
      let (a, p) := Shortest.digits m q
      sign ++ Shortest.notate a p

end ScriptGate
