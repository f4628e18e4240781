import Relational.Number.Binary

/-!
The text of a floating-point number: the fewest decimal digits that read back as it, and of
those the nearest, a tie going away from zero. Places from `10 ^ -4` to `10 ^ 15` are written out.
-/

namespace Relational.Binary

structure Decimal where
  digits : Nat
  exponent : Int
  deriving DecidableEq

def tenScaled (n d : Nat) (e : Int) : Nat × Nat :=
  (n * Nat.pow 10 (-e).toNat, d * Nat.pow 10 e.toNat)

/-- The least `k` with `n / d < 10 ^ k`. -/
def decimalPlace (n d : Nat) : Int :=
  let guess : Int := ((n.log2 : Int) - d.log2) * 30103 / 100000 - 1
  let below (k : Int) : Bool := let (a, b) := tenScaled n d k; a < b
  ((List.range 5).map fun (i : Nat) => guess + i).find? below |>.getD (guess + 5)

/-- A value with the two ends of what rounds to it, over one denominator. -/
structure Span where
  low : Nat
  value : Nat
  high : Nat
  denominator : Nat
  closed : Bool

/-- The span of `m * 2 ^ e`. Below a power of two the neighbour is half as far. -/
def span (f : BinaryFormat) (m : Nat) (e : Int) : Span :=
  let up := Nat.pow 2 (e - 2).toNat
  let below := if m = Nat.pow 2 (f.precision - 1) ∧ f.minExp < e then 1 else 2
  ⟨(4 * m - below) * up, 4 * m * up, (4 * m + 2) * up, Nat.pow 2 (2 - e).toNat, m % 2 == 0⟩

/-- Does `a * 10 ^ e` round to the value? -/
def Span.holds (s : Span) (a : Nat) (e : Int) : Bool :=
  let (x, d) := (a * Nat.pow 10 e.toNat * s.denominator, Nat.pow 10 (-e).toNat)
  if s.closed then s.low * d ≤ x && x ≤ s.high * d else s.low * d < x && x < s.high * d

/-- The decimal on the grid of step `10 ^ e` that rounds to the value: the nearer if both
neighbours do, and the larger if they are as near. -/
def Span.onGrid? (s : Span) (e : Int) : Option Decimal :=
  let (x, d) := tenScaled s.value s.denominator e
  let a := x / d
  match s.holds a e, s.holds (a + 1) e with
  | true, true => some ⟨if 2 * (x % d) < d then a else a + 1, e⟩
  | true, false => some ⟨a, e⟩
  | false, true => some ⟨a + 1, e⟩
  | false, false => none

/-- The decimal of fewest digits that reads back as `m * 2 ^ e`, for `0 < m`. -/
def shortest (f : BinaryFormat) (m : Nat) (e : Int) : Decimal :=
  let s := span f m e
  let k := decimalPlace s.value s.denominator
  ((List.range 17).findSome? fun (i : Nat) => s.onGrid? (k - (i + 1))).getD ⟨0, 0⟩

def Decimal.significant (x : Decimal) : List Char :=
  ((Nat.toDigits 10 x.digits).reverse.dropWhile (· == '0')).reverse

/-- Writes digits with the point after the first `place` of them. -/
def positional (ds : List Char) (place : Int) : List Char :=
  if place ≤ 0 then '0' :: '.' :: List.replicate (-place).toNat '0' ++ ds
  else if ds.length ≤ place then
    ds ++ List.replicate (place.toNat - ds.length) '0' ++ ['.', '0']
  else ds.take place.toNat ++ '.' :: ds.drop place.toNat

/-- Writes digits with the point after the first and the power of ten behind. -/
def scientific (ds : List Char) (place : Int) : List Char :=
  let tail := if ds.length ≤ 1 then [] else '.' :: ds.drop 1
  ds.take 1 ++ tail ++ 'e' :: (toString (place - 1)).toList

def Decimal.text (x : Decimal) : String :=
  let place := ((Nat.toDigits 10 x.digits).length : Int) + x.exponent
  let ds := x.significant
  String.ofList (if -3 ≤ place ∧ place ≤ 16 then positional ds place else scientific ds place)

def text (f : BinaryFormat) : Binary → String
  | nan => "NaN"
  | infinite negative => if negative then "-inf" else "inf"
  | finite negative m e =>
    (if negative then "-" else "") ++ if m = 0 then "0.0" else (shortest f m e).text

end Relational.Binary
