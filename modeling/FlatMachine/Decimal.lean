/-! # Floating-point numbers by their shortest decimal

A number is kept as the shortest decimal that reads back as it: a sign, the significant digits
without trailing zeros, and the power of ten of the last digit; zero has no digits.  The
shortest decimal determines the number, so two such values are the same number exactly if they
are the same decimal.

* **`Decimal.text`** writes it: positionally from `0.0001` up to below `10^16`, otherwise with
  an exponent of at least two digits.
* **`Decimal.ofText?`** reads what `text` writes.
* **`Decimal.isInt`** compares it with an integer through the binary number nearest to the
  decimal, 53 significant bits, ties to even. -/

namespace FlatMachine

/-- A floating-point number; what is no number at all is not among them. -/
inductive Decimal where
  | infinite (negative : Bool)
  | finite (negative : Bool) (digits : Nat) (exponent : Int)
  deriving DecidableEq, Repr

namespace Decimal

/-- Positive and negative zero count as nothing. -/
def isZero : Decimal → Bool
  | finite _ digits _ => digits == 0
  | _ => false

/-! ### Writing -/

/-- A run of zeros. -/
def zeros (n : Nat) : String := String.ofList (List.replicate n '0')

/-- The exponent: a sign and at least two digits. -/
def exponentText (e : Int) : String :=
  let magnitude := toString e.natAbs
  (if e < 0 then "e-" else "e+") ++ (if magnitude.length < 2 then "0" ++ magnitude else magnitude)

/-- Significant digits with the point after the first `point` of them. -/
def magnitudeText (digits : String) (point : Int) : String :=
  let count : Int := digits.length
  if -4 < point && point ≤ 16 then
    if point ≤ 0 then "0." ++ zeros (-point).toNat ++ digits
    else if count ≤ point then digits ++ zeros (point - count).toNat ++ ".0"
    else (digits.take point.toNat).toString ++ "." ++ (digits.drop point.toNat).toString
  else
    let rest := (digits.drop 1).toString
    (digits.take 1).toString ++ (if rest.isEmpty then "" else "." ++ rest) ++
      exponentText (point - 1)

/-- The shortest decimal, written out. -/
def text : Decimal → String
  | infinite negative => if negative then "-inf" else "inf"
  | finite negative 0 _ => if negative then "-0.0" else "0.0"
  | finite negative digits exponent =>
    let shown := toString digits
    (if negative then "-" else "") ++ magnitudeText shown (shown.length + exponent)

/-! ### Reading -/

/-- Drop trailing zeros, at most `fuel` of them. -/
def trim : Nat → Nat → Int → Nat × Int
  | 0, digits, exponent => (digits, exponent)
  | fuel + 1, digits, exponent =>
    if digits ≠ 0 ∧
      digits % 10 = 0 then trim fuel (digits / 10) (exponent + 1) else (digits, exponent)

/-- A finite number from any digits and power of ten. -/
def ofDigits (negative : Bool) (digits : Nat) (exponent : Int) : Decimal :=
  if digits = 0 then finite negative 0 0
  else
    let (d, e) := trim (toString digits).length digits exponent
    finite negative d e

/-- The number that a row of digits denotes. -/
def natOf (cs : List Char) : Nat := cs.foldl (fun n c => 10 * n + (c.toNat - '0'.toNat)) 0

/-- The integer written by an optional sign and digits. -/
def intOf? : List Char → Option Int
  | '-' :: cs => if cs ≠ [] ∧ cs.all Char.isDigit then some (-(natOf cs : Int)) else none
  | '+' :: cs => if cs ≠ [] ∧ cs.all Char.isDigit then some (natOf cs) else none
  | cs => if cs ≠ [] ∧ cs.all Char.isDigit then some (natOf cs) else none

/-- Digits, perhaps with a point, perhaps with an exponent. -/
def unsigned? (negative : Bool) (cs : List Char) : Option Decimal := do
  let whole := cs.takeWhile Char.isDigit
  let afterWhole := cs.dropWhile Char.isDigit
  let (fraction, rest) := match afterWhole with
    | '.' :: r => (r.takeWhile Char.isDigit, r.dropWhile Char.isDigit)
    | r => ([], r)
  guard (whole ≠ [])
  let shift ← match rest with
    | [] => some 0
    | 'e' :: r => intOf? r
    | _ => none
  return ofDigits negative (natOf (whole ++ fraction)) (shift - fraction.length)

/-- Read a number as `text` writes it. -/
def ofText? (s : String) : Option Decimal :=
  match s.toList with
  | ['i', 'n', 'f'] => some (infinite false)
  | ['-', 'i', 'n', 'f'] => some (infinite true)
  | '-' :: cs => unsigned? true cs
  | cs => unsigned? false cs

/-! ### Comparing with integers -/

/-- A quotient rounded to the nearest natural number, ties to even. -/
def roundDiv (num den : Nat) : Nat :=
  let q := num / den
  let twice := 2 * (num % den)
  if twice < den then q else if twice > den then q + 1 else q + q % 2

/-- The decimal `digits * 10 ^ exponent` as a quotient of natural numbers. -/
def quotient (digits : Nat) (exponent : Int) : Nat × Nat :=
  if 0 ≤ exponent then (digits * Nat.pow 10 exponent.toNat, 1) else (digits,
    Nat.pow 10 (-exponent).toNat)

/-- The quotient scaled by a power of two. -/
def scale (q : Nat × Nat) (shift : Int) : Nat × Nat :=
  if 0 ≤ shift then (q.1, q.2 * Nat.pow 2 shift.toNat) else (q.1 * Nat.pow 2 (-shift).toNat, q.2)

/-- The binary number nearest to a positive decimal: an integer of 53 bits and a power of two. -/
def nearestBinary (digits : Nat) (exponent : Int) : Nat × Int :=
  let q := quotient digits exponent
  let guess : Int := (q.1.log2 : Int) - q.2.log2 - 53
  let scaled := scale q guess
  let shift := max (-1074) (if scaled.1 / scaled.2 < Nat.pow 2 53 then guess else guess + 1)
  let final := scale q shift
  (roundDiv final.1 final.2, shift)

/-- The number equals the integer. -/
def isInt (x : Decimal) (i : Int) : Bool :=
  match x with
  | finite negative digits exponent =>
    if digits = 0 then i = 0
    else if negative ≠ decide (i < 0) then false
    else
      let (m, shift) := nearestBinary digits exponent
      if 0 ≤ shift then m * Nat.pow 2 shift.toNat = i.natAbs else m =
        i.natAbs * Nat.pow 2 (-shift).toNat
  | _ => false

end Decimal
end FlatMachine
