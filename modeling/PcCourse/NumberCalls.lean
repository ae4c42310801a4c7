import PcCourse.Engine
import PcCourse.DecimalText

/-! Calls with numbers and dates that stand in the text without quotes: how the statement is
read, and what it asks for. -/
namespace PcCourse

open SqlText SqlCall Outcome

namespace SqlCall

def numeralTokens (n : Int) : List Token :=
  (if n < 0 then [.sym '-'] else []) ++ [.word (String.ofList (Nat.toDigits 10 n.natAbs))]

/-- A character that ends what was being read is read as code. -/
theorem run_restart {mode : Mode} {done : List Token} {c : Char} (ended : step mode c = restart done c)
    (rest : List Char) :
    scanner.run mode (c :: rest) = (scanner.run .code (c :: rest)).map (done ++ ·) := by
  have before : scanner.step mode c = some (done ++ (start c).1, (start c).2) := by
    rw [scanner_step, ended]
    rfl
  have code : scanner.step .code c = some ((start c).1, (start c).2) := rfl
  rw [Scanner.run_cons before, Scanner.run_cons code, Option.map_map]
  simp only [Function.comp_def, List.append_assoc]

theorem isWordChar_of_digit {c : Char} (digit : c.isDigit = true) : isWordChar c = true := by
  simp [isWordChar, Char.isAlphanum, digit]

/-- A word that begins with a character of words and goes on with them. -/
theorem run_whole_word {c : Char} {cs : List Char} (first : isWordChar c = true)
    (all : ∀ d ∈ cs, isWordChar d = true) (rest : List Char) :
    scanner.run .code (c :: cs ++ rest) = scanner.run (.word (c :: cs)) rest := by
  have opens : scanner.step .code c = some ([], .word [c]) := congrArg some (start_word first)
  rw [List.cons_append, Scanner.run_silent opens, run_word all]
  rfl

theorem step_word_closes (read : List Char) {c : Char} (closing : closes c) :
    step (.word read) c = restart [.word (String.ofList read)] c := by
  have ends : isWordChar c = false ∧ c ≠ '+' ∧ c ≠ '-' := by
    rcases closing with rfl | rfl
    · decide
    · decide
  simp [step, stepWord, ends]

theorem run_digits (n : Nat) {c : Char} (closing : closes c) (rest : List Char) :
    scanner.run .code (Nat.toDigits 10 n ++ c :: rest) =
      (scanner.run .code (c :: rest)).map (.word (String.ofList (Nat.toDigits 10 n)) :: ·) := by
  cases digits : Nat.toDigits 10 n with
  | nil => exact absurd digits Nat.toDigits_ne_nil
  | cons d ds =>
    have all : ∀ x ∈ d :: ds, isWordChar x = true := fun x member =>
      isWordChar_of_digit (Numeral.isDigit_of_mem (digits ▸ member))
    obtain ⟨first,others⟩ := List.forall_mem_cons.mp all
    rw [run_whole_word first others, run_restart (step_word_closes _ closing)]
    rfl

theorem run_numeral (n : Int) {c : Char} (closing : closes c) (rest : List Char) :
    scanner.run .code ((toString n).toList ++ c :: rest) =
      (scanner.run .code (c :: rest)).map (numeralTokens n ++ ·) := by
  rw [Numeral.toList_toString, Numeral.ofInt, Decimal.sign, numeralTokens]
  by_cases negative : n < 0
  · rw [if_pos negative, if_pos negative, List.singleton_append, List.cons_append]
    cases digits : Nat.toDigits 10 n.natAbs with
    | nil => exact absurd digits Nat.toDigits_ne_nil
    | cons d ds =>
      have digit : d.isDigit = true := Numeral.isDigit_of_mem (digits ▸ List.mem_cons_self)
      have notDash : d ≠ '-' := by
        rintro rfl
        cases digit
      have dash : scanner.step .code '-' = some ([], .dash) := rfl
      have single : step .dash d = restart [.sym '-'] d := by simp [step, notDash]
      rw [Scanner.run_silent dash, List.cons_append, run_restart single, ← List.cons_append, ← digits,
        run_digits _ closing, Option.map_map]
      rfl
  · rw [if_neg negative, if_neg negative, List.nil_append, run_digits _ closing]
    rfl

theorem reads_numeral (n : Int) : Reads (toString n) (numeralTokens n) where
  lexed c closing rest := run_numeral n closing rest
  whole before rest := by
    unfold numeralTokens
    split <;> simp [arguments]
  nonempty := by simp [numeralTokens]

theorem isWordChar_of_numeral {c : Char} (numeral : c.isDigit = true ∨ c = '.') :
    isWordChar c = true := by
  rcases numeral with digit | rfl
  · exact isWordChar_of_digit digit
  · rfl

/-- The sign of an exponent belongs to the number before it. -/
theorem opensExponent_mantissa {mantissa : List Char} (some_ : mantissa ≠ [])
    (numeral : ∀ c ∈ mantissa, c.isDigit = true ∨ c = '.') : opensExponent (mantissa ++ ['e']) = true := by
  unfold opensExponent
  rw [List.reverse_append]
  cases reversed : mantissa.reverse with
  | nil => exact absurd (List.reverse_eq_nil_iff.mp reversed) some_
  | cons d ds =>
    have all : (d :: ds).all (fun c => c.isDigit || c == '.') = true := by
      rw [← reversed, List.all_reverse, List.all_eq_true]
      intro c member
      simpa using numeral c member
    simpa using all

theorem run_magnitude {text : List Char}
    (shape : (text ≠ [] ∧ ∀ c ∈ text, c.isDigit = true ∨ c = '.') ∨
      ∃ mantissa mark exponent, text = mantissa ++ 'e' :: mark :: exponent ∧ mantissa ≠ [] ∧
        (∀ c ∈ mantissa, c.isDigit = true ∨ c = '.') ∧ (mark = '-' ∨ mark = '+') ∧
        ∀ c ∈ exponent, c.isDigit = true) {c : Char} (closing : closes c) (rest : List Char) :
    scanner.run .code (text ++ c :: rest) =
      (scanner.run .code (c :: rest)).map (.word (String.ofList text) :: ·) := by
  rcases shape with ⟨some_,numeral⟩ | ⟨mantissa,mark,exponent,rfl,some_,numeral,marks,digits⟩
  · obtain ⟨d,ds,rfl⟩ := List.exists_cons_of_ne_nil some_
    obtain ⟨first,others⟩ := List.forall_mem_cons.mp numeral
    rw [run_whole_word (isWordChar_of_numeral first) fun x member => isWordChar_of_numeral (others x member),
      run_restart (step_word_closes _ closing)]
    rfl
  · have opens := opensExponent_mantissa some_ numeral
    obtain ⟨d,ds,rfl⟩ := List.exists_cons_of_ne_nil some_
    obtain ⟨first,others⟩ := List.forall_mem_cons.mp numeral
    have letter : ∀ x ∈ ds ++ ['e'], isWordChar x = true := by
      intro x member
      rcases List.mem_append.mp member with inside | last
      · exact isWordChar_of_numeral (others x inside)
      · exact List.mem_singleton.mp last ▸ rfl
    have sign : scanner.step (.word (d :: ds ++ ['e'])) mark =
        some ([], .word (d :: ds ++ ['e'] ++ [mark])) := by
      rcases marks with rfl | rfl <;> simp only [scanner_step, step, stepWord, opens] <;> rfl
    have text : d :: ds ++ 'e' :: mark :: exponent ++ c :: rest =
        d :: (ds ++ ['e']) ++ (mark :: (exponent ++ c :: rest)) := by simp
    rw [text, run_whole_word (isWordChar_of_numeral first) letter, ← List.cons_append,
      Scanner.run_silent sign, run_word fun x member => isWordChar_of_digit (digits x member),
      run_restart (step_word_closes _ closing)]
    simp

/-- The text of a double is read as a number, with its sign ahead of it. -/
theorem reads_format (d : Decimal) : ∃ expr, Reads d.format expr := by
  have magnitude : ∃ body, d.format.toList = Decimal.sign d.mantissa ++ body ∧
      ((body ≠ [] ∧ ∀ c ∈ body, c.isDigit = true ∨ c = '.') ∨
      ∃ mantissa mark exponent, body = mantissa ++ 'e' :: mark :: exponent ∧ mantissa ≠ [] ∧
        (∀ c ∈ mantissa, c.isDigit = true ∨ c = '.') ∧ (mark = '-' ∨ mark = '+') ∧
        ∀ c ∈ exponent, c.isDigit = true) := by
    have digits : ∀ c ∈ Decimal.significant d.mantissa.natAbs, c.isDigit = true :=
      fun _ => DecimalText.significant_digits
    refine ⟨_, by rw [Decimal.format, String.toList_ofList], ?_⟩
    split
    · exact .inl ⟨List.cons_ne_nil _ _, List.forall_mem_singleton.mpr (.inl rfl)⟩
    next some_ =>
      split
      · exact .inl ⟨DecimalText.fixed_ne_nil _ _, fun c => DecimalText.fixed_chars digits _⟩
      · exact .inr (DecimalText.scientific_parts (DecimalText.significant_ne_nil some_) digits _)
  obtain ⟨body,text,shape⟩ := magnitude
  have dash : ∀ rest, scanner.run .code ('-' :: (body ++ rest)) =
      (scanner.run .code (body ++ rest)).map (.sym '-' :: ·) := by
    intro rest
    obtain ⟨c,cs,rfl,other⟩ : ∃ c cs, body = c :: cs ∧ c ≠ '-' := by
      rcases shape with ⟨some_,numeral⟩ | ⟨mantissa,mark,exponent,rfl,some_,numeral,-⟩
      · obtain ⟨c,cs,rfl⟩ := List.exists_cons_of_ne_nil some_
        exact ⟨c, cs, rfl, by rintro rfl; exact absurd (numeral '-' List.mem_cons_self) (by decide)⟩
      · obtain ⟨c,cs,rfl⟩ := List.exists_cons_of_ne_nil some_
        exact ⟨c, _, rfl, by rintro rfl; exact absurd (numeral '-' List.mem_cons_self) (by decide)⟩
    have opens : scanner.step .code '-' = some ([], .dash) := rfl
    have single : step .dash c = restart [.sym '-'] c := by simp [step, other]
    rw [Scanner.run_silent opens, List.cons_append, run_restart single]
    rfl
  refine ⟨(if d.mantissa < 0 then [.sym '-'] else []) ++ [.word (String.ofList body)], ?_, ?_, by simp⟩
  · intro c closing rest
    rw [text, Decimal.sign]
    by_cases negative : d.mantissa < 0
    · rw [if_pos negative, if_pos negative, List.append_assoc, List.singleton_append, dash,
        run_magnitude shape closing, Option.map_map]
      rfl
    · rw [if_neg negative, if_neg negative, List.nil_append, run_magnitude shape closing]
      rfl
  · intro before rest
    split <;> simp [arguments]

end SqlCall

namespace Engine

variable (e : Engine) (db : Db)

end Engine
end PcCourse
