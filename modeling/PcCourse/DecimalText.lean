import PcCourse.Numeral
import Mathlib.Algebra.Order.Ring.Rat
import Mathlib.Algebra.Order.Field.Power
import Mathlib.Data.List.TakeWhile
import Mathlib.Tactic.Ring

/-! What the texts of decimals denote: a text is read as the number of its digits, and the
digits that a stream writes are those of the number when it has no more of them. -/
namespace PcCourse

/-- The number that a decimal stands for. -/
def Decimal.value (d : Decimal) : ℚ := d.mantissa * 10 ^ d.exponent

namespace DecimalText

open Decimal Numeral

/-- The text is a numeral of this number. -/
def Denotes (text : List Char) (x : ℚ) : Prop := ∃ d, signedDecimal? text = some d ∧ d.value = x

def HasDigits (count : Nat) (x : ℚ) : Prop :=
  ∃ mantissa exponent : Int, mantissa.natAbs < 10 ^ count ∧ x = mantissa * 10 ^ exponent

def pointed (fraction : List Char) : List Char :=
  if fraction.isEmpty then [] else '.' :: fraction

section
variable {ds : List Char}

theorem digits?_eq (some_ : ds ≠ []) (digits : ∀ c ∈ ds, c.isDigit = true) :
    digits? ds = some (Nat.ofDigitChars 10 ds 0) :=
  if_pos ⟨some_, List.all_eq_true.mpr digits⟩

theorem digit_ne {c : Char} (digit : c.isDigit = true) : c ≠ '.' ∧ c ≠ 'e' ∧ c ≠ 'E' := by
  refine ⟨?_, ?_, ?_⟩ <;> rintro rfl <;> exact absurd digit (by decide)

theorem decimal?_parts (whole fraction tail : List Char) (wholeDigits : ∀ c ∈ whole, c.isDigit = true)
    (fractionDigits : ∀ c ∈ fraction, c.isDigit = true) (some_ : whole ++ fraction ≠ [])
    (letter : ∀ c ∈ tail.head?, c = 'e') {exponent : Int} (power : exponent? tail = some exponent) :
    decimal? (whole ++ pointed fraction ++ tail) =
      some ⟨Nat.ofDigitChars 10 (whole ++ fraction) 0, exponent - fraction.length⟩ := by
  have noLetter : ∀ c ∈ whole ++ pointed fraction, (c != 'e' && c != 'E') = true := by
    intro c member
    have digitOr : c.isDigit = true ∨ c = '.' := by
      rcases List.mem_append.mp member with inWhole | behind
      · exact .inl (wholeDigits c inWhole)
      · unfold pointed at behind
        split at behind
        · cases behind
        · rcases List.mem_cons.mp behind with rfl | inFraction
          · exact .inr rfl
          · exact .inl (fractionDigits c inFraction)
    rcases digitOr with digit | rfl
    · simp [(digit_ne digit).2.1, (digit_ne digit).2.2]
    · rfl
  have significand : (whole ++ pointed fraction ++ tail).takeWhile (fun c => c != 'e' && c != 'E') =
      whole ++ pointed fraction := by
    rw [List.takeWhile_append_of_pos noLetter]
    cases tail with
    | nil => simp
    | cons c rest =>
      cases letter c rfl
      simp
  have noPoint : ∀ c ∈ whole, (c != '.') = true := fun c member => by
    simp [(digit_ne (wholeDigits c member)).1]
  have front : (whole ++ pointed fraction).takeWhile (· != '.') = whole := by
    rw [List.takeWhile_append_of_pos noPoint, pointed]
    split <;> simp
  have behind : ((whole ++ pointed fraction).drop whole.length).drop 1 = fraction := by
    rw [List.drop_left, pointed]
    cases fraction <;> rfl
  have digits : digits? (whole ++ fraction) = some (Nat.ofDigitChars 10 (whole ++ fraction) 0) :=
    digits?_eq some_ (List.forall_mem_append.mpr ⟨wholeDigits, fractionDigits⟩)
  unfold decimal?
  dsimp only
  rw [significand, front, behind, digits, List.drop_left, power]

theorem value_mk (n : Nat) (exponent : Int) : (⟨n, exponent⟩ : Decimal).value = n * 10 ^ exponent := by
  simp [Decimal.value]

theorem ofDigitChars_zeros (zeros : Nat) :
    Nat.ofDigitChars 10 (ds ++ List.replicate zeros '0') 0 = Nat.ofDigitChars 10 ds 0 * 10 ^ zeros := by
  rw [Nat.ofDigitChars_append, Nat.ofDigitChars_replicate_zero, Nat.mul_comm]

theorem ofDigitChars_leading (ds : List Char) (zeros : Nat) :
    Nat.ofDigitChars 10 (List.replicate zeros '0' ++ ds) 0 = Nat.ofDigitChars 10 ds 0 := by
  rw [Nat.ofDigitChars_append, Nat.ofDigitChars_replicate_zero, Nat.mul_zero]

theorem isDigit_replicate {zeros : Nat} {c : Char} (member : c ∈ List.replicate zeros '0') :
    c.isDigit = true := by
  rw [List.eq_of_mem_replicate member]
  rfl

theorem fixed_denotes (digits : ∀ c ∈ ds, c.isDigit = true) (p : Int) :
    ∃ d, decimal? (fixed ds p) = some d ∧
      d.value = Nat.ofDigitChars 10 ds 0 * 10 ^ (p - ds.length) := by
  unfold fixed
  split
  next small =>
    cases ds with
    | nil => exact ⟨⟨0, 0⟩, rfl, by simp [Decimal.value]⟩
    | cons c cs =>
      have read := decimal?_parts ['0'] (List.replicate (-p).toNat '0' ++ c :: cs) []
        (List.forall_mem_singleton.mpr rfl)
        (List.forall_mem_append.mpr ⟨fun _ => isDigit_replicate, digits⟩) (by simp) (by simp) rfl
      have text : ['0'] ++ pointed (List.replicate (-p).toNat '0' ++ c :: cs) ++ [] =
          '0' :: '.' :: (List.replicate (-p).toNat '0' ++ c :: cs) := by simp [pointed]
      rw [text] at read
      refine ⟨_, read, ?_⟩
      have number := ofDigitChars_leading (c :: cs) ((-p).toNat + 1)
      rw [List.replicate_succ, List.cons_append] at number
      rw [List.singleton_append, number, value_mk]
      congr 2
      simp only [List.length_append, List.length_replicate]
      omega
  next large =>
    have read := decimal?_parts
      (ds.take p.toNat ++ List.replicate (p.toNat - (ds.take p.toNat).length) '0')
      (ds.drop p.toNat) []
      (List.forall_mem_append.mpr ⟨fun c member => digits c (List.mem_of_mem_take member),
        fun _ => isDigit_replicate⟩)
      (fun c member => digits c (List.mem_of_mem_drop member)) ?some_ (by simp) rfl
    case some_ =>
      intro empty
      have length := congrArg List.length empty
      simp only [List.length_append, List.length_take, List.length_replicate, List.length_drop,
        List.length_nil] at length
      omega
    rw [List.append_nil] at read
    refine ⟨_, read, ?_⟩
    rw [value_mk]
    rcases Nat.le_total ds.length p.toNat with short | long
    · rw [List.take_of_length_le short, List.drop_of_length_le short, List.append_nil,
        ofDigitChars_zeros, Nat.cast_mul, Nat.cast_pow, Nat.cast_ofNat, mul_assoc, ← zpow_natCast,
        ← zpow_add₀ (by norm_num)]
      congr 2
      simp only [List.length_nil]
      omega
    · have whole : (ds.take p.toNat).length = p.toNat := by simp [long]
      rw [whole, Nat.sub_self, List.replicate_zero, List.append_nil, List.take_append_drop]
      congr 2
      rw [List.length_drop]
      omega

theorem exponent?_scientific (exponent : Int) :
    exponent? (['e', if exponent < 0 then '-' else '+'] ++
      (if (Nat.toDigits 10 exponent.natAbs).length < 2 then '0' :: Nat.toDigits 10 exponent.natAbs
        else Nat.toDigits 10 exponent.natAbs)) = some exponent := by
  have magnitude : digits? (if (Nat.toDigits 10 exponent.natAbs).length < 2 then
      '0' :: Nat.toDigits 10 exponent.natAbs else Nat.toDigits 10 exponent.natAbs) =
        some exponent.natAbs := by
    split
    · have digits : ∀ c ∈ '0' :: Nat.toDigits 10 exponent.natAbs, c.isDigit = true :=
        List.forall_mem_cons.mpr ⟨by decide, fun _ => isDigit_of_mem⟩
      rw [digits?_eq (List.cons_ne_nil _ _) digits, Nat.ofDigitChars_cons]
      exact congrArg some Nat.ofDigitChars_ten_toDigits
    · exact digits?_toDigits _
  generalize (if (Nat.toDigits 10 exponent.natAbs).length < 2 then
    '0' :: Nat.toDigits 10 exponent.natAbs else Nat.toDigits 10 exponent.natAbs) = ds at magnitude ⊢
  by_cases negative : exponent < 0
  · have back : -(exponent.natAbs : Int) = exponent := by omega
    rw [if_pos negative, List.cons_append, List.singleton_append, exponent?, signed?, magnitude]
    · exact congrArg some back
    · exact fun _ same => absurd (List.cons.inj same).1 (by decide)
  · have back : Int.ofNat exponent.natAbs = exponent := Int.natAbs_of_nonneg (Int.not_lt.mp negative)
    rw [if_neg negative]
    change (digits? ds).map Int.ofNat = some exponent
    rw [magnitude, Option.map_some, back]

theorem scientific_denotes (some_ : ds ≠ []) (digits : ∀ c ∈ ds, c.isDigit = true) (p : Int) :
    ∃ d, decimal? (scientific ds p) = some d ∧
      d.value = Nat.ofDigitChars 10 ds 0 * 10 ^ (p - ds.length) := by
  have read := decimal?_parts (ds.take 1) (ds.drop 1) _
    (fun c member => digits c (List.mem_of_mem_take member))
    (fun c member => digits c (List.mem_of_mem_drop member))
    (by rwa [List.take_append_drop]) (by simp) (exponent?_scientific (p - 1))
  rw [List.take_append_drop] at read
  have text : scientific ds p = ds.take 1 ++ pointed (ds.drop 1) ++ (['e', if p - 1 < 0 then '-' else '+'] ++
      (if (Nat.toDigits 10 (p - 1).natAbs).length < 2 then '0' :: Nat.toDigits 10 (p - 1).natAbs
        else Nat.toDigits 10 (p - 1).natAbs)) := by
    simp only [scientific, pointed, List.append_assoc]
  rw [text]
  refine ⟨_, read, ?_⟩
  have positive := List.length_pos_iff.mpr some_
  rw [value_mk, List.length_drop]
  congr 2
  omega

end

section
variable {n : Nat}

/-- The digits of a number are its significant digits and zeros behind them. -/
theorem exists_zeros (some_ : n ≠ 0) :
    ∃ zeros, Nat.toDigits 10 n = significant n ++ List.replicate zeros '0' := by
  have zeros : (Nat.toDigits 10 n).reverse.takeWhile (· == '0') =
      List.replicate ((Nat.toDigits 10 n).reverse.takeWhile (· == '0')).length '0' :=
    List.eq_replicate_of_mem fun c member => by simpa using List.mem_takeWhile_imp member
  refine ⟨((Nat.toDigits 10 n).reverse.takeWhile (· == '0')).length, ?_⟩
  rw [significant, if_neg some_, ← List.reverse_replicate, ← zeros, ← List.reverse_append,
    List.takeWhile_append_dropWhile, List.reverse_reverse]

theorem significant_digits {c : Char} (member : c ∈ significant n) : c.isDigit = true := by
  unfold significant at member
  split at member
  · cases member
  · exact isDigit_of_mem (List.mem_reverse.mp ((List.dropWhile_sublist _).mem (List.mem_reverse.mp member)))

/-- What is written of the significant digits of a number is the number. -/
theorem value_significant (some_ : n ≠ 0) (exponent : Int) :
    (Nat.ofDigitChars 10 (significant n) 0 : ℚ) * 10 ^ (point n exponent - (significant n).length) =
      n * 10 ^ exponent := by
  obtain ⟨zeros,digits⟩ := exists_zeros some_
  have number : Nat.ofDigitChars 10 (significant n) 0 * 10 ^ zeros = n := by
    rw [← ofDigitChars_zeros, ← digits, Nat.ofDigitChars_ten_toDigits]
  have length : point n exponent - (significant n).length = (zeros : Int) + exponent := by
    rw [point, digits, List.length_append, List.length_replicate]
    omega
  rw [length, zpow_add₀ (by norm_num), zpow_natCast, ← mul_assoc]
  exact_mod_cast congrArg (fun n : Nat => (n : ℚ) * 10 ^ exponent) number

theorem significant_ne_nil (some_ : n ≠ 0) : significant n ≠ [] := by
  intro empty
  obtain ⟨zeros,digits⟩ := exists_zeros some_
  have number := congrArg (fun ds => Nat.ofDigitChars 10 ds 0) digits
  rw [empty] at number
  simp only [Nat.ofDigitChars_ten_toDigits, List.nil_append, Nat.ofDigitChars_replicate_zero,
    Nat.mul_zero] at number
  exact some_ number

theorem magnitude_denotes (exponent : Int) (isFixed : Bool) :
    ∃ d, decimal? (if n = 0 then ['0']
        else if isFixed = true then fixed (significant n) (point n exponent)
        else scientific (significant n) (point n exponent)) = some d ∧ d.value = n * 10 ^ exponent := by
  by_cases some_ : n = 0
  · refine ⟨⟨0, 0⟩, ?_, by simp [Decimal.value, some_]⟩
    rw [if_pos some_]
    rfl
  · rw [if_neg some_, ← value_significant some_]
    split
    · exact fixed_denotes (fun _ => significant_digits) _
    · exact scientific_denotes (significant_ne_nil some_) (fun _ => significant_digits) _

end

theorem denotes_sign {m : Int} {text : List Char} {x : ℚ}
    (read : ∃ d, decimal? text = some d ∧ d.value = x) :
    Denotes (sign m ++ text) (if m < 0 then -x else x) := by
  obtain ⟨d,reads,rfl⟩ := read
  unfold sign Denotes
  by_cases negative : m < 0
  · refine ⟨⟨-d.mantissa, d.exponent⟩, ?_, by simp [negative, Decimal.value]⟩
    simp [negative, signedDecimal?, reads]
  · refine ⟨d, ?_, by simp [negative]⟩
    rw [if_neg negative, List.nil_append, signedDecimal?]
    · exact reads
    · rintro cs rfl
      rw [decimal?] at reads
      simp [digits?_of_other] at reads

theorem value_eq (d : Decimal) : d.value =
    if d.mantissa < 0 then -((d.mantissa.natAbs : ℚ) * 10 ^ d.exponent)
    else (d.mantissa.natAbs : ℚ) * 10 ^ d.exponent := by
  rw [Decimal.value]
  split
  next negative =>
    have magnitude : (d.mantissa : ℚ) = ((-(d.mantissa.natAbs : Int) : Int) : ℚ) :=
      congrArg Int.cast (by omega)
    rw [magnitude, Int.cast_neg, Int.cast_natCast, neg_mul]
  next positive =>
    have magnitude : (d.mantissa : ℚ) = ((d.mantissa.natAbs : Int) : ℚ) :=
      congrArg Int.cast (by omega)
    rw [magnitude, Int.cast_natCast]

/-- The shortest text of a double is exact. -/
theorem format_denotes (d : Decimal) : Denotes d.format.toList d.value := by
  have text := denotes_sign (m := d.mantissa) (magnitude_denotes (n := d.mantissa.natAbs) d.exponent
    (decide ((fixed (significant d.mantissa.natAbs) (point d.mantissa.natAbs d.exponent)).length ≤
      (scientific (significant d.mantissa.natAbs) (point d.mantissa.natAbs d.exponent)).length)))
  simp only [decide_eq_true_eq, ← value_eq] at text
  rw [format, String.toList_ofList]
  exact text

/-- What a stream writes of a double is a numeral of its magnitude rounded to six digits. -/
theorem ostream_denotes (d : Decimal) : Denotes d.ostream.toList
    (if d.mantissa < 0 then
      -(((rounded 6 d.mantissa.natAbs).1 : ℚ) * 10 ^ (d.exponent + (rounded 6 d.mantissa.natAbs).2))
    else ((rounded 6 d.mantissa.natAbs).1 : ℚ) * 10 ^ (d.exponent + (rounded 6 d.mantissa.natAbs).2)) := by
  have text := denotes_sign (m := d.mantissa) (magnitude_denotes (n := (rounded 6 d.mantissa.natAbs).1)
    (d.exponent + (rounded 6 d.mantissa.natAbs).2)
    (decide (-4 < point (rounded 6 d.mantissa.natAbs).1 (d.exponent + (rounded 6 d.mantissa.natAbs).2) ∧
      point (rounded 6 d.mantissa.natAbs).1 (d.exponent + (rounded 6 d.mantissa.natAbs).2) ≤ 6)))
  simp only [decide_eq_true_eq] at text
  rw [ostream, String.toList_ofList]
  exact text

theorem denotes_unique {text : List Char} {x y : ℚ} (first : Denotes text x) (second : Denotes text y) :
    x = y := by
  obtain ⟨d,read,rfl⟩ := first
  obtain ⟨other,reads,rfl⟩ := second
  rw [read] at reads
  cases reads
  rfl

/-- Rounding keeps a number exactly when the digits it cuts off are zeros. -/
theorem rounded_exact_iff (count n : Nat) :
    (rounded count n).1 * 10 ^ (rounded count n).2 = n ↔ 10 ^ (rounded count n).2 ∣ n := by
  refine ⟨fun exact => ⟨_, (exact.symm.trans (Nat.mul_comm _ _))⟩, fun divides => ?_⟩
  have rest : n % 10 ^ (rounded count n).2 = 0 := Nat.mod_eq_zero_of_dvd divides
  have kept : (rounded count n).1 = n / 10 ^ (rounded count n).2 := by
    have positive : 0 < 10 ^ (rounded count n).2 := Nat.pow_pos (by decide)
    refine if_neg ?_
    change ¬(10 ^ (rounded count n).2 < 2 * (n % 10 ^ (rounded count n).2) ∨
      (2 * (n % 10 ^ (rounded count n).2) = 10 ^ (rounded count n).2 ∧ _))
    rw [rest]
    omega
  rw [kept, Nat.div_mul_cancel divides]

theorem toDigits_lower {n : Nat} (long : 1 < (Nat.toDigits 10 n).length) :
    10 ^ ((Nat.toDigits 10 n).length - 1) ≤ n := by
  by_contra small
  have shorter := (Nat.length_toDigits_le_iff (by decide) (by omega)).mpr (Nat.lt_of_not_le small)
  omega

/-- A number has few significant digits when its last digits are zeros. -/
theorem hasDigits_iff {count : Nat} (positive : 0 < count) (d : Decimal) : HasDigits count d.value ↔
    10 ^ ((Nat.toDigits 10 d.mantissa.natAbs).length - count) ∣ d.mantissa.natAbs := by
  constructor
  · rintro ⟨m,exponent,small,same⟩
    by_cases short : (Nat.toDigits 10 d.mantissa.natAbs).length ≤ count
    · rw [Nat.sub_eq_zero_of_le short, pow_zero]
      exact one_dvd _
    have lower := toDigits_lower (n := d.mantissa.natAbs) (by omega)
    -- the two spellings of the number differ by a power of ten
    rcases Int.le_total d.exponent exponent with le | ge
    · obtain ⟨k,rfl⟩ := Int.le.dest le
      have mantissa : d.mantissa = m * 10 ^ k := by
        rw [Decimal.value, zpow_add₀ (by norm_num), mul_comm (10 ^ d.exponent), ← mul_assoc,
          zpow_natCast] at same
        exact_mod_cast mul_right_cancel₀ (by positivity) same
      have magnitude : d.mantissa.natAbs = m.natAbs * 10 ^ k := by
        rw [mantissa, Int.natAbs_mul, Int.natAbs_pow]
        rfl
      have bound : 10 ^ ((Nat.toDigits 10 d.mantissa.natAbs).length - 1) < 10 ^ (count + k) :=
        calc
          _ ≤ m.natAbs * 10 ^ k := magnitude ▸ lower
          _ < 10 ^ count * 10 ^ k := Nat.mul_lt_mul_of_pos_right small (Nat.pow_pos (by decide))
          _ = 10 ^ (count + k) := (pow_add ..).symm
      have few := (Nat.pow_lt_pow_iff_right (by decide)).mp bound
      rw [magnitude] at few ⊢
      exact Dvd.dvd.mul_left (pow_dvd_pow 10 (by omega)) _
    · obtain ⟨k,shape⟩ := Int.le.dest ge
      have mantissa : d.mantissa * 10 ^ k = m := by
        rw [Decimal.value, ← shape, zpow_add₀ (by norm_num), mul_comm (10 ^ exponent), ← mul_assoc,
          zpow_natCast] at same
        exact_mod_cast mul_right_cancel₀ (by positivity) same
      have magnitude : d.mantissa.natAbs * 10 ^ k = m.natAbs := by
        rw [← mantissa, Int.natAbs_mul, Int.natAbs_pow]
        rfl
      have bound : d.mantissa.natAbs < 10 ^ count :=
        Nat.lt_of_le_of_lt (Nat.le_mul_of_pos_right _ (Nat.pow_pos (by decide))) (magnitude ▸ small)
      exact absurd ((Nat.length_toDigits_le_iff (by decide) positive).mpr bound) short
  · rintro divides
    obtain ⟨r,mantissa⟩ := Int.natCast_dvd.mpr divides
    have upper := (Nat.length_toDigits_le_iff (n := d.mantissa.natAbs) (b := 10) (by decide)
      Nat.length_toDigits_pos).mp (Nat.le_refl _)
    refine ⟨r, d.exponent + ((Nat.toDigits 10 d.mantissa.natAbs).length - count : Nat), ?_, ?_⟩
    · have magnitude : d.mantissa.natAbs =
          10 ^ ((Nat.toDigits 10 d.mantissa.natAbs).length - count) * r.natAbs := by
        conv_lhs => rw [mantissa]
        rw [Int.natAbs_mul]
        rfl
      have bound : 10 ^ ((Nat.toDigits 10 d.mantissa.natAbs).length - count) * r.natAbs <
          10 ^ ((Nat.toDigits 10 d.mantissa.natAbs).length - count) * 10 ^ count := by
        rw [← magnitude, ← pow_add]
        exact Nat.lt_of_lt_of_le upper (Nat.pow_le_pow_right (by decide) (by omega))
      exact Nat.lt_of_mul_lt_mul_left bound
    · rw [Decimal.value, zpow_add₀ (by norm_num), zpow_natCast, mul_comm (10 ^ d.exponent), ← mul_assoc]
      congr 1
      conv_lhs => rw [mantissa]
      push_cast
      ring

/-- A stream writes a double exactly when it has at most six significant digits. -/
theorem ostream_exact_iff (d : Decimal) : Denotes d.ostream.toList d.value ↔ HasDigits 6 d.value := by
  have written := ostream_denotes d
  have same : Denotes d.ostream.toList d.value ↔
      (rounded 6 d.mantissa.natAbs).1 * 10 ^ (rounded 6 d.mantissa.natAbs).2 = d.mantissa.natAbs := by
    have magnitude : ((rounded 6 d.mantissa.natAbs).1 : ℚ) *
        10 ^ (d.exponent + (rounded 6 d.mantissa.natAbs).2) = d.mantissa.natAbs * 10 ^ d.exponent ↔
        (rounded 6 d.mantissa.natAbs).1 * 10 ^ (rounded 6 d.mantissa.natAbs).2 = d.mantissa.natAbs := by
      rw [zpow_add₀ (by norm_num), zpow_natCast, mul_comm (10 ^ d.exponent), ← mul_assoc,
        mul_left_inj' (by positivity)]
      exact_mod_cast Iff.rfl
    rw [← magnitude]
    constructor
    · intro denotes
      have values := denotes_unique written denotes
      rw [value_eq] at values
      split at values
      · exact neg_injective values
      · exact values
    · intro equal
      rw [equal, ← value_eq] at written
      exact written
  rw [same, rounded_exact_iff, hasDigits_iff (by decide)]
  rfl

def numeralChars : List Char := ['-', '+', '.', 'e']

theorem fixed_chars {ds : List Char} (digits : ∀ c ∈ ds, c.isDigit = true) (p : Int) {c : Char}
    (member : c ∈ fixed ds p) : c.isDigit = true ∨ c = '.' := by
  have zero {n : Nat} (zeros : c ∈ List.replicate n '0') : c.isDigit = true := isDigit_replicate zeros
  unfold fixed at member
  split at member
  · split at member
    · exact .inl (List.mem_singleton.mp member ▸ rfl)
    · rcases List.mem_cons.mp member with rfl | behind
      · exact .inl rfl
      · rcases List.mem_cons.mp behind with point | fraction
        · exact .inr point
        · exact .inl ((List.mem_append.mp fraction).elim zero (digits c))
  · rcases List.mem_append.mp member with front | behind
    · exact .inl ((List.mem_append.mp front).elim (fun whole => digits c (List.mem_of_mem_take whole)) zero)
    · split at behind
      · cases behind
      · rcases List.mem_cons.mp behind with point | fraction
        · exact .inr point
        · exact .inl (digits c (List.mem_of_mem_drop fraction))

theorem fixed_ne_nil (ds : List Char) (p : Int) : fixed ds p ≠ [] := by
  unfold fixed
  split
  · split <;> exact List.cons_ne_nil _ _
  · intro empty
    have length := congrArg List.length empty
    simp only [List.length_append, List.length_replicate, List.length_nil] at length
    omega

theorem scientific_parts {ds : List Char} (some_ : ds ≠ []) (digits : ∀ c ∈ ds, c.isDigit = true)
    (p : Int) : ∃ mantissa mark exponent, scientific ds p = mantissa ++ 'e' :: mark :: exponent ∧
      mantissa ≠ [] ∧ (∀ c ∈ mantissa, c.isDigit = true ∨ c = '.') ∧ (mark = '-' ∨ mark = '+') ∧
      ∀ c ∈ exponent, c.isDigit = true := by
  refine ⟨ds.take 1 ++ pointed (ds.drop 1), if p - 1 < 0 then '-' else '+',
    if (Nat.toDigits 10 (p - 1).natAbs).length < 2 then '0' :: Nat.toDigits 10 (p - 1).natAbs
      else Nat.toDigits 10 (p - 1).natAbs,
    by simp only [scientific, pointed, List.append_assoc, List.cons_append, List.nil_append],
    by simp [some_], fun c member => ?_, by split <;> simp, fun c member => ?_⟩
  · rcases List.mem_append.mp member with whole | behind
    · exact .inl (digits c (List.mem_of_mem_take whole))
    · unfold pointed at behind
      split at behind
      · cases behind
      · rcases List.mem_cons.mp behind with point | fraction
        · exact .inr point
        · exact .inl (digits c (List.mem_of_mem_drop fraction))
  · split at member
    · exact (List.mem_cons.mp member).elim (fun same => same ▸ rfl) isDigit_of_mem
    · exact isDigit_of_mem member

theorem scientific_chars {ds : List Char} (some_ : ds ≠ []) (digits : ∀ c ∈ ds, c.isDigit = true)
    (p : Int) {c : Char} (member : c ∈ scientific ds p) : c.isDigit = true ∨ c ∈ numeralChars := by
  obtain ⟨mantissa,mark,exponent,text,-,front,marks,behind⟩ := scientific_parts some_ digits p
  rw [text] at member
  simp only [List.mem_append, List.mem_cons] at member
  rcases member with inFront | letter | isMark | inBehind
  · exact (front c inFront).imp_right (by rintro rfl; decide)
  · exact .inr (letter ▸ by decide)
  · exact .inr (by rcases marks with rfl | rfl <;> exact isMark ▸ by decide)
  · exact .inl (behind c inBehind)

theorem ostream_chars {d : Decimal} {c : Char} (member : c ∈ d.ostream.toList) :
    c.isDigit = true ∨ c ∈ numeralChars := by
  have digits : ∀ c ∈ significant (rounded 6 d.mantissa.natAbs).1, c.isDigit = true :=
    fun _ => significant_digits
  rw [ostream, String.toList_ofList] at member
  rcases List.mem_append.mp member with front | number
  · unfold sign at front
    split at front
    · exact .inr (List.mem_singleton.mp front ▸ by decide)
    · cases front
  · split at number
    · exact .inl (List.mem_singleton.mp number ▸ rfl)
    next some_ =>
      split at number
      · exact (fixed_chars digits _ number).imp_right (by rintro rfl; decide)
      · exact scientific_chars (significant_ne_nil some_) digits _ number

end DecimalText
end PcCourse
