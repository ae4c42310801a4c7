import PcCourse.Scanner
import PcCourse.Numeral

/-! How Lua reads the text of a chunk that holds data: names, numerals, quoted strings,
symbols and comments. Long brackets and numeric escapes are not read. -/
namespace PcCourse.LuaText

inductive Token where
  | name (text : String)
  | numeral (text : List Char)
  | str (text : String)
  | sym (char : Char)
  deriving DecidableEq, Repr

inductive Mode where
  | code
  | word (read : List Char)
  | dash
  | dashes
  | comment
  | str (quote : Char) (read : List Char)
  | escape (quote : Char) (read : List Char)
  | ended
  deriving DecidableEq, Repr

def isNameChar (c : Char) : Bool := c.isAlphanum || c == '_'

def isBlank (c : Char) : Bool := c == ' ' || c == '\t' || c == '\n' || c == '\r' || c == '\x0b' || c == '\x0c'

/-- A numeral goes on with its point, and with a sign behind the letter of its exponent. -/
def continues (read : List Char) (c : Char) : Bool :=
  isNameChar c || (read.head?.any Char.isDigit &&
    (c == '.' || (read.getLast?.any (fun e => e == 'e' || e == 'E') && (c == '+' || c == '-'))))

def wordToken (read : List Char) : Token :=
  if read.head?.any Char.isDigit then .numeral read else .name (String.ofList read)

def unescape : Char → Option Char
  | 'a' => some '\x07'
  | 'b' => some '\x08'
  | 'f' => some '\x0c'
  | 'n' => some '\n'
  | 'r' => some '\r'
  | 't' => some '\t'
  | 'v' => some '\x0b'
  | '\\' => some '\\'
  | '"' => some '"'
  | '\'' => some '\''
  | '\n' => some '\n'
  | _ => none

def start (c : Char) : List Token × Mode :=
  if c = '"' ∨ c = '\'' then ([], .str c [])
  else if c = '-' then ([], .dash)
  else if isNameChar c then ([], .word [c])
  else if isBlank c then ([], .code)
  else ([.sym c], .code)

/-- Completed tokens, then a character read as code. -/
def restart (done : List Token) (c : Char) : List Token × Mode := (done ++ (start c).1, (start c).2)

def finish : Mode → Option (List Token)
  | .code | .dashes | .comment | .ended => some []
  | .word read => some [wordToken read]
  | .dash => some [.sym '-']
  | .str _ _ | .escape _ _ => none

/-- The chunk is a C string: a NUL ends it. A string does not go over the end of its line. -/
def step (mode : Mode) (c : Char) : Option (List Token × Mode) :=
  if c = '\x00' then (finish mode).map (·, .ended)
  else
    match mode with
    | .code => some (start c)
    | .word read =>
      if continues read c then some ([], .word (read ++ [c])) else some (restart [wordToken read] c)
    | .dash => if c = '-' then some ([], .dashes) else some (restart [.sym '-'] c)
    | .dashes => if c = '[' then none else some ([], if c = '\n' then .code else .comment)
    | .comment => some ([], if c = '\n' then .code else .comment)
    | .str quote read =>
      if c = quote then some ([.str (String.ofList read)], .code)
      else if c = '\\' then some ([], .escape quote read)
      else if c = '\n' ∨ c = '\r' then none
      else some ([], .str quote (read ++ [c]))
    | .escape quote read => (unescape c).map fun real => ([], .str quote (read ++ [real]))
    | .ended => some ([], .ended)

def scanner : Scanner Mode Token := ⟨step, finish⟩

/-- The tokens of a chunk, unless a string is not closed. -/
def lex (text : String) : Option (List Token) := scanner.run .code text.toList

@[simp] theorem scanner_step (mode : Mode) (c : Char) : scanner.step mode c = step mode c := rfl

@[simp] theorem scanner_finish (mode : Mode) : scanner.finish mode = finish mode := rfl

example : lex "x = \x7b-1.5e+3, 'a\\'b'\x7d -- end" = some
    [.name "x", .sym '=', .sym '\x7b', .sym '-', .numeral "1.5e+3".toList, .sym ',', .str "a'b",
      .sym '\x7d'] := by decide

/-- What follows does not go on with the name or the numeral before it. -/
def Apart (rest : List Char) : Prop := ∀ c ∈ rest.head?, isNameChar c = false ∧ c ≠ '.'

/-- Wherever the text stands ahead of something apart from it, it is read as the tokens. -/
def Reads (text : List Char) (tokens : List Token) : Prop :=
  ∀ rest, Apart rest →
    scanner.run .code (text ++ rest) = (scanner.run .code rest).map (tokens ++ ·)

theorem apart_nil : Apart [] := by simp [Apart]

theorem apart_cons {c : Char} (other : isNameChar c = false ∧ c ≠ '.') (rest : List Char) :
    Apart (c :: rest) := by
  simpa [Apart] using other

theorem Reads.lex {text : String} {tokens : List Token} (reads : Reads text.toList tokens) :
    lex text = some tokens := by
  simpa [LuaText.lex, Scanner.run, Scanner.feed, finish] using reads [] apart_nil

theorem Reads.append {a b : List Char} {ta tb : List Token} (first : Reads a ta)
    (second : Reads b tb) (starts : ∀ rest, Apart rest → Apart (b ++ rest)) :
    Reads (a ++ b) (ta ++ tb) := by
  intro rest apart
  rw [List.append_assoc, first _ (starts rest apart), second rest apart, Option.map_map]
  simp only [Function.comp_def, List.append_assoc]

/-- A fixed text that ends outside of words and strings. -/
theorem reads_of_feed {text : List Char} {tokens : List Token}
    (fed : scanner.feed .code text = some (tokens, .code)) : Reads text tokens :=
  fun _ _ => Scanner.run_append fed

/-- A fixed text that ends outside of words and strings may stand before anything. -/
theorem Reads.after {a b : List Char} {ta tb : List Token} (second : Reads b tb)
    (fed : scanner.feed .code a = some (ta, .code)) : Reads (a ++ b) (ta ++ tb) := by
  intro rest apart
  rw [List.append_assoc, Scanner.run_append fed, second rest apart, Option.map_map]
  simp only [Function.comp_def, List.append_assoc]

theorem run_word {read rest : List Char} (stops : ∀ c ∈ rest.head?, continues read c = false) :
    scanner.run (.word read) rest = (scanner.run .code rest).map (wordToken read :: ·) := by
  cases rest with
  | nil => rfl
  | cons c cs =>
    by_cases nul : c = '\x00'
    · have word : scanner.step (.word read) c = some ([wordToken read], .ended) := by
        simp [step, nul, finish]
      have code : scanner.step .code c = some ([], .ended) := by simp [step, nul, finish]
      rw [Scanner.run_cons word, Scanner.run_silent code]
      rfl
    · have other : continues read c = false := stops c rfl
      have word : scanner.step (.word read) c = some (restart [wordToken read] c) := by
        simp [step, nul, other]
      have code : scanner.step .code c = some (start c) := by simp [step, nul]
      rw [Scanner.run_cons word, Scanner.run_cons code, Option.map_map]
      rfl

/-- The scanner collects the characters that go on with a word. -/
theorem run_word_append {read more : List Char} (rest : List Char)
    (all : ∀ c ∈ more, isNameChar c = true) :
    scanner.run (.word read) (more ++ rest) = scanner.run (.word (read ++ more)) rest := by
  induction more generalizing read with
  | nil => simp
  | cons c cs ih =>
    have first : isNameChar c = true := all c List.mem_cons_self
    have nul : c ≠ '\x00' := by
      rintro rfl
      exact absurd first (by decide)
    have one : scanner.step (.word read) c = some ([], .word (read ++ [c])) := by
      simp [step, nul, continues, first]
    rw [List.cons_append, Scanner.run_silent one,
      ih fun d member => all d (List.mem_cons_of_mem _ member), List.append_assoc]
    rfl

theorem reads_word {c : Char} {cs : List Char} (all : ∀ d ∈ c :: cs, isNameChar d = true)
    (last : ∀ rest, Apart rest → ∀ d ∈ rest.head?, continues (c :: cs) d = false) :
    Reads (c :: cs) [wordToken (c :: cs)] := by
  intro rest apart
  have first : isNameChar c = true := all c List.mem_cons_self
  have opens : scanner.step .code c = some ([], .word [c]) := by
    have plain : c ≠ '\x00' ∧ c ≠ '"' ∧ c ≠ '\'' ∧ c ≠ '-' := by
      refine ⟨?_, ?_, ?_, ?_⟩ <;> (rintro rfl; exact absurd first (by decide))
    simp [step, start, plain, first]
  rw [List.cons_append, Scanner.run_silent opens,
    run_word_append rest fun d member => all d (List.mem_cons_of_mem _ member)]
  exact run_word (last rest apart)

def isName (name : String) : Bool :=
  match name.toList with
  | [] => false
  | c :: cs => !c.isDigit && (c :: cs).all isNameChar

theorem reads_name {name : String} (named : isName name = true) :
    Reads name.toList [.name name] := by
  unfold isName at named
  cases chars : name.toList with
  | nil => simp [chars] at named
  | cons c cs =>
    simp only [chars, Bool.and_eq_true, Bool.not_eq_true', List.all_eq_true] at named
    have token : wordToken (c :: cs) = .name name := by
      rw [← String.ofList_toList (s := name), chars]
      simp [wordToken, named.1]
    rw [← token]
    refine reads_word named.2 fun rest apart d head => ?_
    simp [continues, named.1, (apart d head).1]

theorem isNameChar_of_digit {c : Char} (digit : c.isDigit = true) : isNameChar c = true := by
  simp [isNameChar, Char.isAlphanum, digit]

theorem reads_digits (n : Nat) : Reads (Nat.toDigits 10 n) [.numeral (Nat.toDigits 10 n)] := by
  cases digits : Nat.toDigits 10 n with
  | nil => exact absurd digits Nat.toDigits_ne_nil
  | cons c cs =>
    have all : ∀ d ∈ c :: cs, d.isDigit = true := fun d member =>
      Numeral.isDigit_of_mem (digits ▸ member)
    have token : wordToken (c :: cs) = .numeral (c :: cs) := by
      simp [wordToken, all c List.mem_cons_self]
    rw [← token]
    refine reads_word (fun d member => isNameChar_of_digit (all d member)) fun rest apart d head => ?_
    -- the last character is a digit, so no sign goes on with the numeral
    have last : (c :: cs).getLast?.any (fun e => e == 'e' || e == 'E') = false := by
      rw [List.getLast?_eq_some_getLast (List.cons_ne_nil c cs), Option.any_some]
      have digit := all _ (List.getLast_mem (List.cons_ne_nil c cs))
      cases same : (c :: cs).getLast (List.cons_ne_nil c cs) == 'e' ||
          (c :: cs).getLast (List.cons_ne_nil c cs) == 'E' with
      | false => rfl
      | true =>
        rcases Bool.or_eq_true_iff.mp same with e | e <;>
          (rw [beq_iff_eq.mp e] at digit; exact absurd digit (by decide))
    simp [continues, (apart d head).1, (apart d head).2, last]

theorem run_dash {rest : List Char} (single : rest.head? ≠ some '-') :
    scanner.run .dash rest = (scanner.run .code rest).map (.sym '-' :: ·) := by
  cases rest with
  | nil => rfl
  | cons c cs =>
    by_cases nul : c = '\x00'
    · have dash : scanner.step .dash c = some ([.sym '-'], .ended) := by simp [step, nul, finish]
      have code : scanner.step .code c = some ([], .ended) := by simp [step, nul, finish]
      rw [Scanner.run_cons dash, Scanner.run_silent code]
      rfl
    · have other : c ≠ '-' := by simpa using single
      have dash : scanner.step .dash c = some (restart [.sym '-'] c) := by simp [step, nul, other]
      have code : scanner.step .code c = some (start c) := by simp [step, nul]
      rw [Scanner.run_cons dash, Scanner.run_cons code, Option.map_map]
      rfl

/-- The tokens of a written integer. -/
def intTokens (n : Int) : List Token :=
  if n < 0 then [.sym '-', .numeral (Nat.toDigits 10 n.natAbs)]
  else [.numeral (Nat.toDigits 10 n.natAbs)]

theorem reads_int (n : Int) : Reads (Numeral.ofInt n) (intTokens n) := by
  rw [Numeral.ofInt, Decimal.sign, intTokens]
  split
  · intro rest apart
    have dash : scanner.step .code '-' = some ([], .dash) := rfl
    have single : (Nat.toDigits 10 n.natAbs ++ rest).head? ≠ some '-' := by
      cases digits : Nat.toDigits 10 n.natAbs with
      | nil => exact absurd digits Nat.toDigits_ne_nil
      | cons c cs =>
        have digit : c.isDigit = true := Numeral.isDigit_of_mem (n := n.natAbs) (by simp [digits])
        rw [List.cons_append, List.head?_cons]
        rintro ⟨⟩
        exact absurd digit (by decide)
    rw [List.singleton_append, List.cons_append, Scanner.run_silent dash, run_dash single,
      reads_digits n.natAbs rest apart, Option.map_map]
    rfl
  · exact reads_digits n.natAbs

/-- A text that stays on its line and ends no chunk. -/
def isLine (s : String) : Bool := s.toList.all fun c => c != '\n' && c != '\r' && c != '\x00'

/-- A text that stands in single quotes as it is. -/
def isPlain (s : String) : Bool := isLine s && s.toList.all fun c => c != '\'' && c != '\\'

theorem run_str_plain {quote : Char} {cs : List Char} (nul : quote ≠ '\x00')
    (plain : ∀ c ∈ cs, c ≠ quote ∧ c ≠ '\\' ∧ c ≠ '\n' ∧ c ≠ '\r' ∧ c ≠ '\x00')
    (read rest : List Char) :
    scanner.run (.str quote read) (cs ++ quote :: rest) =
      (scanner.run .code rest).map (.str (String.ofList (read ++ cs)) :: ·) := by
  induction cs generalizing read with
  | nil =>
    have closes : scanner.step (.str quote read) quote =
        some ([.str (String.ofList read)], .code) := by simp [step, nul]
    rw [List.nil_append, Scanner.run_cons closes, List.append_nil]
    rfl
  | cons c cs ih =>
    obtain ⟨other,backslash,feed,ret,zero⟩ := plain c List.mem_cons_self
    have one : scanner.step (.str quote read) c = some ([], .str quote (read ++ [c])) := by
      simp [step, other, backslash, feed, ret, zero]
    rw [List.cons_append, Scanner.run_silent one,
      ih fun d member => plain d (List.mem_cons_of_mem _ member), List.append_assoc]
    rfl

theorem reads_single {s : String} (plain : isPlain s = true) :
    Reads ('\'' :: s.toList ++ ['\'']) [.str s] := by
  intro rest _
  have opens : scanner.step .code '\'' = some ([], .str '\'' []) := rfl
  have shape : '\'' :: s.toList ++ ['\''] ++ rest = '\'' :: (s.toList ++ '\'' :: rest) := by simp
  rw [shape, Scanner.run_silent opens, run_str_plain (by decide), List.nil_append,
    String.ofList_toList]
  · rfl
  · intro c member
    simp only [isPlain, isLine, Bool.and_eq_true, List.all_eq_true, bne_iff_ne] at plain
    exact ⟨(plain.2 c member).1, (plain.2 c member).2, plain.1 c member |>.1.1, (plain.1 c member).1.2,
      (plain.1 c member).2⟩

end PcCourse.LuaText
