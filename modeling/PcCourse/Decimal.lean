import Mathlib.Algebra.Ring.Nat
import Mathlib.Algebra.Ring.Int.Defs

/-! Finite decimals, with the texts the C++ standard library gives a double of
that value. A double is modelled by the exact decimal it is written as. -/
namespace PcCourse

structure Decimal where
  mantissa : Int
  exponent : Int
  deriving DecidableEq, Repr

namespace Decimal

def zero : Decimal := ⟨0, 0⟩

def ofInt (n : Int) : Decimal := ⟨n, 0⟩

def shifted (d : Decimal) (exponent : Int) : Int :=
  d.mantissa * 10 ^ (d.exponent - exponent).toNat

def add (a b : Decimal) : Decimal :=
  let exponent := min a.exponent b.exponent
  ⟨a.shifted exponent + b.shifted exponent, exponent⟩

def mul (a b : Decimal) : Decimal := ⟨a.mantissa * b.mantissa, a.exponent + b.exponent⟩

instance : Add Decimal := ⟨add⟩
instance : Mul Decimal := ⟨mul⟩

def round (d : Decimal) : Int :=
  if 0 ≤ d.exponent then d.shifted 0
  else
    let unit := 10 ^ (-d.exponent).toNat
    d.mantissa.sign * ((2 * d.mantissa.natAbs + unit) / (2 * unit))

def significant (n : Nat) : List Char :=
  if n = 0 then [] else ((Nat.toDigits 10 n).reverse.dropWhile (· == '0')).reverse

/-- `n` rounded to its first `count` digits, ties to even, as a magnitude and the
number of digits cut off. -/
def rounded (count n : Nat) : Nat × Nat :=
  let cut := (Nat.toDigits 10 n).length - count
  let kept := n / 10 ^ cut
  let rest := 2 * (n % 10 ^ cut)
  (if 10 ^ cut < rest ∨ (rest = 10 ^ cut ∧ kept % 2 = 1) then kept + 1 else kept, cut)

/-- Digits `ds` with the decimal point after the first `point` of them. -/
def fixed (ds : List Char) (point : Int) : List Char :=
  if point ≤ 0 then
    if ds.isEmpty then ['0'] else '0' :: '.' :: (List.replicate (-point).toNat '0' ++ ds)
  else
    let whole := ds.take point.toNat
    let fraction := ds.drop point.toNat
    whole ++ List.replicate (point.toNat - whole.length) '0' ++
      (if fraction.isEmpty then [] else '.' :: fraction)

/-- One digit before the point and an exponent of at least two digits. -/
def scientific (ds : List Char) (point : Int) : List Char :=
  let exponent := point - 1
  let digits := Nat.toDigits 10 exponent.natAbs
  ds.take 1 ++ (if (ds.drop 1).isEmpty then [] else '.' :: ds.drop 1) ++
    ['e', if exponent < 0 then '-' else '+'] ++
    (if digits.length < 2 then '0' :: digits else digits)

def sign (n : Int) : List Char := if n < 0 then ['-'] else []

def point (n : Nat) (exponent : Int) : Int := (Nat.toDigits 10 n).length + exponent

/-- Default output of a double on an `ostream`: six significant digits, fixed when
the exponent is between -4 and 5. -/
def ostream (d : Decimal) : String :=
  let (n, cut) := rounded 6 d.mantissa.natAbs
  let ds := significant n
  let p := point n (d.exponent + cut)
  String.ofList (sign d.mantissa ++
    (if n = 0 then ['0'] else if -4 < p ∧ p ≤ 6 then fixed ds p else scientific ds p))

/-- `std::format("{}")` of a double: the shorter of the fixed and the scientific
text of its digits, fixed when they have equal length. -/
def format (d : Decimal) : String :=
  let n := d.mantissa.natAbs
  let ds := significant n
  let p := point n d.exponent
  String.ofList (sign d.mantissa ++
    (if n = 0 then ['0']
     else if (fixed ds p).length ≤ (scientific ds p).length then fixed ds p
     else scientific ds p))

example : ostream ⟨25009, -2⟩ = "250.09" := by decide
example : ostream ⟨1234565, 0⟩ = "1.23456e+06" := by decide
example : format ⟨1, 5⟩ = "1e+05" := by decide

end Decimal
end PcCourse
