import PcCourse.Decimal

/-! Decimal numerals as characters: the readers of whole numbers and of numbers with a
fraction and an exponent, and the texts of integers. -/
namespace PcCourse.Numeral

def digits? (cs : List Char) : Option Nat :=
  if cs ≠ [] ∧ cs.all Char.isDigit = true then some (Nat.ofDigitChars 10 cs 0) else none

theorem ofDigitChars_lt {cs : List Char} (digits : ∀ c ∈ cs, c.isDigit = true) :
    Nat.ofDigitChars 10 cs 0 < 10 ^ cs.length := by
  induction cs with
  | nil => simp
  | cons c cs ih =>
    rw [List.forall_mem_cons] at digits
    have digit : c.toNat - '0'.toNat ≤ 9 := by
      have range := digits.1
      simp only [Char.isDigit, Bool.and_eq_true, decide_eq_true_eq] at range
      have upper : c.toNat ≤ '9'.toNat := range.2
      have nine : '9'.toNat = 57 := rfl
      have zero : '0'.toNat = 48 := rfl
      omega
    rw [Nat.ofDigitChars_cons, Nat.ofDigitChars_eq_ofDigitChars_zero, Nat.mul_zero, Nat.zero_add,
      List.length_cons, Nat.pow_succ]
    calc 10 ^ cs.length * (c.toNat - '0'.toNat) + Nat.ofDigitChars 10 cs 0
        < 10 ^ cs.length * (c.toNat - '0'.toNat) + 10 ^ cs.length := Nat.add_lt_add_left (ih digits.2) _
      _ = 10 ^ cs.length * (c.toNat - '0'.toNat + 1) := (Nat.mul_succ ..).symm
      _ ≤ 10 ^ cs.length * 10 := Nat.mul_le_mul_left _ (Nat.succ_le_succ digit)

/-- Digits behind an optional minus sign. -/
def signed? : List Char → Option Int
  | '-' :: ds => (digits? ds).map fun n => -(n : Int)
  | ds => (digits? ds).map Int.ofNat

/-- The exponent of a number, from its letter on. -/
def exponent? : List Char → Option Int
  | [] => some 0
  | _ :: '+' :: ds => (digits? ds).map Int.ofNat
  | _ :: cs => signed? cs

/-- Digits with an optional fraction and an optional exponent. -/
def decimal? (cs : List Char) : Option Decimal :=
  let significand := cs.takeWhile fun c => c != 'e' && c != 'E'
  let whole := significand.takeWhile (· != '.')
  let fraction := (significand.drop whole.length).drop 1
  match digits? (whole ++ fraction), exponent? (cs.drop significand.length) with
  | some mantissa, some exponent => some ⟨mantissa, exponent - fraction.length⟩
  | _, _ => none

def signedDecimal? : List Char → Option Decimal
  | '-' :: cs => (decimal? cs).map fun d => ⟨-d.mantissa, d.exponent⟩
  | cs => decimal? cs

def ofInt (n : Int) : List Char := Decimal.sign n ++ Nat.toDigits 10 n.natAbs

theorem isDigit_of_mem {n : Nat} {c : Char} (member : c ∈ Nat.toDigits 10 n) : c.isDigit = true :=
  Nat.isDigit_of_mem_toDigits (by decide) (by decide) member

@[simp] theorem digits?_toDigits (n : Nat) : digits? (Nat.toDigits 10 n) = some n := by
  have all : (Nat.toDigits 10 n).all Char.isDigit = true :=
    List.all_eq_true.mpr fun _ member => isDigit_of_mem member
  simp [digits?, all]

theorem mem_ofInt {n : Int} {c : Char} (member : c ∈ ofInt n) : c = '-' ∨ c.isDigit = true := by
  rcases List.mem_append.mp member with sign | digit
  · unfold Decimal.sign at sign
    split at sign
    · exact .inl (List.mem_singleton.mp sign)
    · cases sign
  · exact .inr (isDigit_of_mem digit)

theorem toList_toString (n : Int) : (toString n).toList = ofInt n := by
  rw [Int.toString_eq_repr, Int.repr_eq_if, ofInt, Decimal.sign]
  by_cases negative : n < 0
  · have magnitude : (-n).toNat = n.natAbs := by omega
    simp [negative, Int.not_le.mpr negative, magnitude, Nat.repr]
  · have magnitude : n.toNat = n.natAbs := by omega
    simp [negative, Int.not_lt.mp negative, magnitude, Nat.repr]

@[simp] theorem signed?_ofInt (n : Int) : signed? (ofInt n) = some n := by
  rw [ofInt, Decimal.sign]
  by_cases negative : n < 0
  · have magnitude : -(n.natAbs : Int) = n := by omega
    simp only [negative, if_true, List.singleton_append, signed?, digits?_toDigits]
    exact congrArg some magnitude
  · have positive : signed? (Nat.toDigits 10 n.natAbs) = (digits? (Nat.toDigits 10 n.natAbs)).map Int.ofNat := by
      rw [signed?]
      intro ds same
      have dash : '-' ∈ Nat.toDigits 10 n.natAbs := by simp [same]
      exact absurd (isDigit_of_mem dash) (by decide)
    have magnitude : Int.ofNat n.natAbs = n := Int.natAbs_of_nonneg (Int.not_lt.mp negative)
    simp only [negative, if_false, List.nil_append, positive, digits?_toDigits, Option.map_some,
      magnitude]

theorem digits?_of_other {c : Char} {cs : List Char} (other : c.isDigit = false) :
    digits? (c :: cs) = none := by
  simp [digits?, other]

example : decimal? "12.5e+03".toList = some ⟨125, 2⟩ := by decide

end PcCourse.Numeral
