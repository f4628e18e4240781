/-!
Binary floating-point numbers as sign, mantissa and exponent, and the reading of a decimal
as the nearest of them. A tie goes to the even mantissa.
-/

namespace Relational

/-- The numbers `m * 2 ^ e` with `m < 2 ^ precision` and `minExp ≤ e ≤ maxExp`. -/
structure BinaryFormat where
  precision : Nat
  minExp : Int
  maxExp : Int
  deriving DecidableEq

def BinaryFormat.single : BinaryFormat := ⟨24, -149, 104⟩

def BinaryFormat.double : BinaryFormat := ⟨53, -1074, 971⟩

/-- A value of some format. The mantissa is as large as the format allows, so a finite value
has one form. -/
inductive Binary where
  | nan
  | infinite (negative : Bool)
  | finite (negative : Bool) (mantissa : Nat) (exponent : Int)
  deriving DecidableEq

namespace Binary

/-- Numerical equality: the two zeros agree, and `nan` agrees with nothing. -/
def agrees : Binary → Binary → Bool
  | infinite s, infinite t => s == t
  | finite s m e, finite t n f => (m == 0 && n == 0) || (s == t && m == n && e == f)
  | _, _ => false

theorem agrees_comm (x y : Binary) : x.agrees y = y.agrees x := by
  cases x <;> cases y <;> simp only [agrees, Bool.and_comm, Bool.beq_comm]

theorem agrees_trans {x y z : Binary} (h : x.agrees y = true) (h' : y.agrees z = true) :
    x.agrees z = true := by
  cases x <;> cases y <;> cases z <;> simp_all [agrees]
  -- both comparisons are of finite values; a zero agrees with zeros only
  rcases h with ⟨hx, hy⟩ | ⟨⟨rfl, rfl⟩, rfl⟩
  · rcases h' with ⟨-, hz⟩ | ⟨hz, -⟩
    · exact .inl ⟨hx, hz⟩
    · exact .inl ⟨hx, hz.2 ▸ hy⟩
  · exact h'

/-- The quotient `n / d` to the nearest whole number. -/
def roundedQuotient (n d : Nat) : Nat :=
  let k := n / d
  let r := n % d
  if 2 * r < d then k else if d < 2 * r then k + 1 else k + k % 2

def scaled (n d : Nat) (e : Int) : Nat × Nat :=
  (n * Nat.pow 2 (-e).toNat, d * Nat.pow 2 e.toNat)

/-- The value of the format next to `n / d`. -/
def nearest (f : BinaryFormat) (negative : Bool) (n d : Nat) : Binary :=
  if n = 0 then finite negative 0 f.minExp
  else
    let e₀ : Int := (n.log2 : Int) - d.log2 - f.precision
    let (n₀, d₀) := scaled n d e₀
    let e := max f.minExp (if Nat.pow 2 f.precision ≤ n₀ / d₀ then e₀ + 1 else e₀)
    let (n₁, d₁) := scaled n d e
    let m := roundedQuotient n₁ d₁
    let (m, e) := if m = Nat.pow 2 f.precision then (m / 2, e + 1) else (m, e)
    if f.maxExp < e then infinite negative else finite negative m e

/-- The value next to `m * 10 ^ e`. A decimal far outside every format is cut off first. -/
def ofDecimal (f : BinaryFormat) (negative : Bool) (m : Nat) (e : Int) : Binary :=
  let place := ((Nat.toDigits 10 m).length : Int) + e
  if m = 0 ∨ place < -400 then finite negative 0 f.minExp
  else if 400 < place then infinite negative
  else nearest f negative (m * Nat.pow 10 e.toNat) (Nat.pow 10 (-e).toNat)

def digitsValue (cs : List Char) : Nat :=
  cs.foldl (fun n c => 10 * n + (c.toNat - '0'.toNat)) 0

def splitSign : List Char → Bool × List Char
  | '-' :: cs => (true, cs)
  | '+' :: cs => (false, cs)
  | cs => (false, cs)

def exponent? : List Char → Option Int
  | [] => some 0
  | c :: cs =>
    let (negative, ds) := splitSign cs
    if (c = 'e' ∨ c = 'E') ∧ ds ≠ [] ∧ ds.all Char.isDigit then
      some (if negative then -(digitsValue ds : Int) else digitsValue ds)
    else none

/-- Reads a decimal without its sign: digits, which a point may divide, and an exponent. -/
def decimal? (f : BinaryFormat) (negative : Bool) (cs : List Char) : Option Binary :=
  let whole := cs.takeWhile Char.isDigit
  let rest := cs.dropWhile Char.isDigit
  let (part, rest) := match rest with
    | '.' :: r => (r.takeWhile Char.isDigit, r.dropWhile Char.isDigit)
    | r => ([], r)
  if whole ++ part = [] then none
  else (exponent? rest).map fun e =>
    ofDecimal f negative (digitsValue (whole ++ part)) (e - part.length)

/-- Reads a decimal or the name of a value that has none. -/
def parse? (f : BinaryFormat) (s : String) : Option Binary :=
  let (negative, cs) := splitSign s.toList
  let name := String.ofList (cs.map Char.toLower)
  if name = "nan" then some nan
  else if name = "inf" ∨ name = "infinity" then some (infinite negative)
  else decimal? f negative cs

end Binary

end Relational
