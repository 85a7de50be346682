/-!
# Shortest decimals

The decimal text of a binary floating-point number: the fewest digits that read back as the same
number, and of those the nearest, written without an exponent.
-/

namespace TxLifecycle.Decimal

structure Fraction where
  num : Nat
  den : Nat
deriving Repr

/-- The fraction times a power of ten. -/
def Fraction.scale (x : Fraction) (power : Int) : Fraction :=
  match power with
  | .ofNat n => ⟨x.num * Nat.pow 10 n, x.den⟩
  | .negSucc n => ⟨x.num, x.den * Nat.pow 10 (n + 1)⟩

/-- The power of ten of the first digit: the largest `k` with `10 ^ k ≤ x`, searched from `k` down
at most `fuel` steps. -/
def leadingPower (x : Fraction) (k : Int) : (fuel : Nat) → Int
  | 0 => k
  | fuel + 1 =>
    let one := x.scale (-k)
    if one.den ≤ one.num then k else leadingPower x (k - 1) fuel

/-- A number with the interval of all numbers that round to it. -/
structure Rounding where
  value : Fraction
  /-- The lower end, with the denominator of the number. -/
  low : Nat
  /-- The upper end, with the denominator of the number. -/
  high : Nat
  closed : Bool

/-- The whole number lies in the interval after scaling by a power of ten. -/
def Rounding.admits (r : Rounding) (power : Int) (digits : Nat) : Bool :=
  let low := (Fraction.mk r.low r.value.den).scale power
  let high := (Fraction.mk r.high r.value.den).scale power
  let n := digits * low.den
  if r.closed then low.num ≤ n && n ≤ high.num else low.num < n && n < high.num

/-- The nearest whole number next to the scaled number that lies in the interval. -/
def Rounding.pick (r : Rounding) (power : Int) : Option Nat :=
  let x := r.value.scale power
  let below := x.num / x.den
  let candidates := [below, below + 1].filter fun d => 0 < d && r.admits power d
  match candidates with
  | [a, b] => some (if 2 * (x.num % x.den) ≤ x.den then a else b)
  | [a] => some a
  | _ => none

/-- The digits, as a whole number, and the power of ten of the last of them: the first count of
digits from `count` on for which there is a number in the interval. -/
def Rounding.shortest (r : Rounding) (leading : Int) (count : Nat) : (fuel : Nat) → Nat × Int
  | 0 => (0, 0)
  | fuel + 1 =>
    let last := leading - (count : Int) + 1
    match r.pick (-last) with
    | some digits => (digits, last)
    | none => shortest r leading (count + 1) fuel

/-- A whole number times a power of ten, written without an exponent. -/
def positional (digits : Nat) (power : Int) : String :=
  let text := toString digits
  match power with
  | .ofNat n => text ++ String.ofList (List.replicate n '0')
  | .negSucc n =>
    let places := n + 1
    let padded := List.replicate (places + 1 - text.length) '0' ++ text.toList
    let whole := padded.take (padded.length - places)
    let fraction := padded.drop (padded.length - places)
    let kept := (fraction.reverse.dropWhile (· == '0')).reverse
    String.ofList (if kept.isEmpty then whole else whole ++ ['.'] ++ kept)

/-- The text of a positive number given by the fields of its binary form. -/
def render (exponent fraction : Nat) : String :=
  let m := if exponent = 0 then fraction else fraction + Nat.pow 2 52
  let q : Int := (max exponent 1 : Nat) - 1075
  let up := q.toNat
  let down := (-q).toNat
  let below := if fraction = 0 && 1 < exponent then 1 else 2
  let r : Rounding :=
    { value := ⟨4 * m * Nat.pow 2 up, 4 * Nat.pow 2 down⟩
      low := (4 * m - below) * Nat.pow 2 up
      high := (4 * m + 2) * Nat.pow 2 up
      closed := m % 2 = 0 }
  let leading := leadingPower r.value 309 700
  let (digits, power) := r.shortest leading 1 20
  positional digits power

/-- The shortest decimal of a floating-point number. -/
def ofFloat (x : Float) : String :=
  let bits := x.toBits.toNat
  let sign := if bits / Nat.pow 2 63 = 1 then "-" else ""
  let exponent := bits / Nat.pow 2 52 % Nat.pow 2 11
  let fraction := bits % Nat.pow 2 52
  if exponent = 2047 then if fraction = 0 then sign ++ "inf" else "NaN"
  else if exponent = 0 && fraction = 0 then sign ++ "0"
  else sign ++ render exponent fraction

/-- The floating-point number nearest to `digits * 10 ^ power`. Powers far outside the range of
floating-point numbers give infinity or zero at once. -/
def toFloat (digits : Nat) (power : Int) : Float :=
  let size := (toString digits).length
  if digits = 0 then 0
  else if 400 < power + size then 1 / 0
  else if power + size < -400 then 0
  else match power with
    | .ofNat n => Float.ofScientific digits false n
    | .negSucc n => Float.ofScientific digits true (n + 1)

end TxLifecycle.Decimal
