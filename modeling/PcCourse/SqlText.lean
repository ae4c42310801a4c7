import PcCourse.Scanner

/-! How MySQL reads the text of a statement: string literals in quotes of either kind with
backslash escapes and doubled quotes, quoted names, words, symbols, and comments: from two dashes
and a blank or from `#` to the end of the line, and between slashes and stars, where the server
reads on behind `/*!`. -/
namespace PcCourse.SqlText

inductive Token where
  | str (text : String)
  | word (text : String)
  | name (text : String)
  | sym (char : Char)
  deriving DecidableEq, Repr

/-- `block` is a comment between slashes and stars with its last character, `skipped` one for
later versions, in which one more may stand; `executed` is what stands behind `/*!`. -/
inductive Mode where
  | code
  | word (read : List Char)
  | dash
  | dashes
  | comment
  | str (quote : Char) (read : List Char)
  | escape (quote : Char) (read : List Char)
  | quote (quote : Char) (read : List Char)
  | name (read : List Char)
  | nameQuote (read : List Char)
  | slash
  | star
  | opened
  | block (nested : Bool) (last : Char)
  | version (digits : List Char)
  | skipped (last : Char)
  | executed (inner : Mode)
  deriving DecidableEq, Repr

def isWordChar (c : Char) : Bool := c.isAlphanum || c == '_' || c == '.' || c == '$' || 128 ≤ c.toNat

def isSpace (c : Char) : Bool := c == ' ' || (9 ≤ c.toNat && c.toNat ≤ 13)

/-- Behind two dashes control characters count as well. -/
def isBlank (c : Char) : Bool := c == ' ' || c.toNat < 32 || c.toNat == 127

/-- The characters an escaped character stands for. A backslash before a percent sign
or an underscore stays, before any other character it is dropped. -/
def unescape : Char → List Char
  | '0' => [Char.ofNat 0]
  | 'b' => ['\x08']
  | 'n' => ['\n']
  | 'r' => ['\r']
  | 't' => ['\t']
  | 'Z' => ['\x1a']
  | '%' => ['\\', '%']
  | '_' => ['\\', '_']
  | c => [c]

def opensExponent (read : List Char) : Bool :=
  match read.reverse with
  | e :: d :: ds => (e == 'e' || e == 'E') && (d :: ds).all fun c => c.isDigit || c == '.'
  | _ => false

/-- The version of the server, as comments name it: 8.0.36. -/
def serverVersion : Nat := 80036

def start (c : Char) : List Token × Mode :=
  if c = '\'' ∨ c = '"' then ([], .str c [])
  else if c = '-' then ([], .dash)
  else if isWordChar c then ([], .word [c])
  else if isSpace c then ([], .code)
  else if c = '`' then ([], .name [])
  else if c = '#' then ([], .comment)
  else if c = '/' then ([], .slash)
  else if c = '*' then ([], .star)
  else ([.sym c], .code)

def restart (done : List Token) (c : Char) : List Token × Mode :=
  (done ++ (start c).1, (start c).2)

def stepWord (read : List Char) (c : Char) : List Token × Mode :=
  if isWordChar c || (opensExponent read && (c == '+' || c == '-')) then
    ([], .word (read ++ [c]))
  else restart [.word (String.ofList read)] c

/-- What is read behind `/*!` is code, up to the next end of a comment. -/
def inVersion : List Token × Mode → List Token × Mode
  | (done, .executed inner) => (done, .executed inner)
  | (done, inner) => (done, .executed inner)

/-- Five or six digits are a version; fewer belong to the code. -/
def stepVersion (digits : List Char) (c : Char) : List Token × Mode :=
  if c.isDigit ∧ digits.length < 6 then ([], .version (digits ++ [c]))
  else if digits = [] then inVersion (start c)
  else if digits.length < 5 then inVersion (stepWord digits c)
  else if Nat.ofDigitChars 10 digits 0 ≤ serverVersion then inVersion (start c)
  else ([], .skipped c)

def step : Mode → Char → List Token × Mode
  | .code, c => start c
  | .word read, c => stepWord read c
  | .dash, c => if c = '-' then ([], .dashes) else restart [.sym '-'] c
  | .dashes, c =>
    if isBlank c then ([], if c = '\n' then .code else .comment)
    else if c = '-' then ([.sym '-'], .dashes)
    else restart [.sym '-', .sym '-'] c
  | .comment, c => ([], if c = '\n' then .code else .comment)
  | .str quote read, c =>
    if c = '\\' then ([], .escape quote read)
    else if c = quote then ([], .quote quote read)
    else ([], .str quote (read ++ [c]))
  | .escape quote read, c => ([], .str quote (read ++ unescape c))
  | .quote quote read, c =>
    if c = quote then ([], .str quote (read ++ [quote])) else restart [.str (String.ofList read)] c
  | .name read, c => ([], if c = '`' then .nameQuote read else .name (read ++ [c]))
  | .nameQuote read, c =>
    if c = '`' then ([], .name (read ++ [c])) else restart [.name (String.ofList read)] c
  | .slash, c => if c = '*' then ([], .opened) else restart [.sym '/'] c
  | .star, c => restart [.sym '*'] c
  | .opened, c => ([], if c = '!' then .version [] else .block false c)
  | .block nested last, c =>
    ([], if last = '*' ∧ c = '/' then if nested then .skipped ' ' else .code else .block nested c)
  | .version digits, c => stepVersion digits c
  | .skipped last, c =>
    ([], if last = '*' ∧ c = '/' then .code
      else if last = '/' ∧ c = '*' then .block true ' '
      else .skipped c)
  | .executed inner, c => if inner = .star ∧ c = '/' then ([], .code) else inVersion (step inner c)

def finish : Mode → Option (List Token)
  | .code | .comment | .dashes => some []
  | .word read => some [.word (String.ofList read)]
  | .dash => some [.sym '-']
  | .slash => some [.sym '/']
  | .star => some [.sym '*']
  | .quote _ read => some [.str (String.ofList read)]
  | .nameQuote read => some [.name (String.ofList read)]
  | _ => none

def scanner : Scanner Mode Token := ⟨fun mode c => some (step mode c), finish⟩

/-- The tokens of a statement, unless a literal, a name or a comment is not closed. -/
def lex (text : String) : Option (List Token) := scanner.run .code text.toList

example : lex "f('a', \"it's\" /* , ' */, /*!50000 g( */ b /*!99999 /*,*/ , */ * 2); # '" =
    some [.word "f", .sym '(', .str "a", .sym ',', .str "it's", .sym ',', .word "g", .sym '(',
      .word "b", .sym '*', .word "2", .sym ')', .sym ';'] := by decide

/-- A literal from behind its opening quote: the text it denotes and what follows. -/
def readLiteral : List Char → Option (List Char × List Char)
  | [] => none
  | ['\\'] => none
  | '\\' :: c :: cs => (readLiteral cs).map fun rest => (unescape c ++ rest.1, rest.2)
  | '\'' :: '\'' :: cs => (readLiteral cs).map fun rest => ('\'' :: rest.1, rest.2)
  | '\'' :: cs => some ([], cs)
  | c :: cs => (readLiteral cs).map fun rest => (c :: rest.1, rest.2)

@[simp] theorem scanner_step (mode : Mode) (c : Char) : scanner.step mode c = some (step mode c) := rfl

@[simp] theorem scanner_finish (mode : Mode) : scanner.finish mode = finish mode := rfl

theorem start_word {c : Char} (word : isWordChar c = true) : start c = ([], .word [c]) := by
  have other {d : Char} (ends : isWordChar d = false) : c ≠ d := by
    rintro rfl
    rw [word] at ends
    cases ends
  have quote : ¬(c = '\'' ∨ c = '"') := not_or.mpr ⟨other (by decide), other (by decide)⟩
  rw [start, if_neg quote, if_neg (other (by decide)), if_pos word]

theorem run_quote {quote : Char} (read cs : List Char) (closed : cs.head? ≠ some quote) :
    scanner.run (.quote quote read) cs =
      (scanner.run .code cs).map (.str (String.ofList read) :: ·) := by
  cases cs with
  | nil => rfl
  | cons c cs =>
    have other : c ≠ quote := by simpa using closed
    have quoted : scanner.step (.quote quote read) c =
        some (.str (String.ofList read) :: (start c).1, (start c).2) := by
      simp [step, other, restart]
    have code : scanner.step .code c = some (start c) := rfl
    rw [Scanner.run_cons quoted, Scanner.run_cons code, Option.map_map]
    rfl

theorem run_str (read cs : List Char) :
    scanner.run (.str '\'' read) cs = (readLiteral cs).bind fun literal =>
      (scanner.run .code literal.2).map (.str (String.ofList (read ++ literal.1)) :: ·) := by
  fun_induction readLiteral cs generalizing read with
  | case1 => rfl
  | case2 => rfl
  | case3 c cs ih =>
    have opened : scanner.step (.str '\'' read) '\\' = some ([], .escape '\'' read) := rfl
    have escaped : scanner.step (.escape '\'' read) c = some ([], .str '\'' (read ++ unescape c)) := rfl
    rw [Scanner.run_silent opened, Scanner.run_silent escaped, ih]
    cases readLiteral cs <;> simp
  | case4 cs ih =>
    have first : scanner.step (.str '\'' read) '\'' = some ([], .quote '\'' read) := rfl
    have second : scanner.step (.quote '\'' read) '\'' = some ([], .str '\'' (read ++ ['\''])) := rfl
    rw [Scanner.run_silent first, Scanner.run_silent second, ih]
    cases readLiteral cs <;> simp
  | case5 cs other =>
    have closed : cs.head? ≠ some '\'' := by
      intro quoted
      cases cs with
      | nil => simp at quoted
      | cons c cs => exact other cs (by simpa using quoted)
    have first : scanner.step (.str '\'' read) '\'' = some ([], .quote '\'' read) := rfl
    rw [Scanner.run_silent first, run_quote read cs closed]
    simp
  | case6 c cs noBackslash noEscape noDoubled noQuote ih =>
    have backslash : c ≠ '\\' := by
      rintro rfl
      cases cs with
      | nil => exact noBackslash rfl rfl
      | cons d cs => exact noEscape d cs rfl rfl
    have quote : c ≠ '\'' := by
      rintro rfl
      exact noQuote rfl
    have plain : scanner.step (.str '\'' read) c = some ([], .str '\'' (read ++ [c])) := by
      simp [step, backslash, quote]
    rw [Scanner.run_silent plain, ih]
    cases readLiteral cs <;> simp

theorem run_double {text : List Char} (plain : ∀ c ∈ text, c ≠ '"' ∧ c ≠ '\\') {rest : List Char}
    (closed : rest.head? ≠ some '"') (read : List Char) :
    scanner.run (.str '"' read) (text ++ '"' :: rest) =
      (scanner.run .code rest).map (.str (String.ofList (read ++ text)) :: ·) := by
  induction text generalizing read with
  | nil =>
    have ends : scanner.step (.str '"' read) '"' = some ([], .quote '"' read) := rfl
    rw [List.nil_append, Scanner.run_silent ends, run_quote read rest closed, List.append_nil]
  | cons c text ih =>
    have first := plain c List.mem_cons_self
    have longer : scanner.step (.str '"' read) c = some ([], .str '"' (read ++ [c])) := by
      simp [step, first.1, first.2]
    rw [List.cons_append, Scanner.run_silent longer, ih fun d member => plain d (List.mem_cons_of_mem _ member),
      List.append_assoc, List.singleton_append]

theorem run_comment {text : List Char} (line : '\n' ∉ text) : scanner.run .comment text = some [] := by
  induction text with
  | nil => rfl
  | cons c text ih =>
    rw [List.mem_cons, not_or] at line
    have on : scanner.step .comment c = some ([], .comment) := by simp [step, Ne.symm line.1]
    rw [Scanner.run_silent on, ih line.2]

theorem run_block {text : List Char} {last : Char} (unclosed : ¬['*', '/'] <:+: last :: text) (rest : List Char) :
    scanner.run (.block false last) (text ++ '*' :: '/' :: rest) = scanner.run .code rest := by
  induction text generalizing last with
  | nil =>
    have star : scanner.step (.block false last) '*' = some ([], .block false '*') := by simp [step]
    have closed : scanner.step (.block false '*') '/' = some ([], .code) := rfl
    rw [List.nil_append, Scanner.run_silent star, Scanner.run_silent closed]
  | cons c text ih =>
    have on : scanner.step (.block false last) c = some ([], .block false c) := by
      have inside : ¬(last = '*' ∧ c = '/') := by
        rintro ⟨rfl,rfl⟩
        exact unclosed ⟨[], text, rfl⟩
      simp [step, inside]
    rw [List.cons_append, Scanner.run_silent on]
    exact ih fun found => unclosed (found.trans (List.suffix_cons last _).isInfix)

/-- Comments that go up to the end of a statement. -/
inductive Comment : List Char → Prop
  | hash {text : List Char} (line : '\n' ∉ text) : Comment ('#' :: text)
  | dashes {text : List Char} (line : '\n' ∉ text) : Comment ('-' :: '-' :: ' ' :: text)
  | block {text : List Char} (skipped : text.head? ≠ some '!') (unclosed : ¬['*', '/'] <:+: text) :
    Comment ('/' :: '*' :: text ++ ['*', '/'])

theorem Comment.silent {text : List Char} (comment : Comment text) : scanner.run .code text = some [] := by
  cases comment with
  | hash line =>
    have opened : scanner.step .code '#' = some ([], .comment) := rfl
    rw [Scanner.run_silent opened, run_comment line]
  | dashes line =>
    have first : scanner.step .code '-' = some ([], .dash) := rfl
    have second : scanner.step .dash '-' = some ([], .dashes) := rfl
    have opened : scanner.step .dashes ' ' = some ([], .comment) := rfl
    rw [Scanner.run_silent first, Scanner.run_silent second, Scanner.run_silent opened, run_comment line]
  | @block text skipped unclosed =>
    cases text with
    | nil => rfl
    | cons c text =>
      have slash : scanner.step .code '/' = some ([], .slash) := rfl
      have star : scanner.step .slash '*' = some ([], .opened) := rfl
      have opened : scanner.step .opened c = some ([], .block false c) := by
        have plain : c ≠ '!' := by simpa using skipped
        simp [step, plain]
      rw [List.cons_append, List.cons_append, List.cons_append, Scanner.run_silent slash, Scanner.run_silent star,
        Scanner.run_silent opened, run_block unclosed]
      rfl

/-- Texts a literal denotes as they stand: no quote, and no backslash except before a
percent sign or an underscore. -/
def isVerbatim : List Char → Bool
  | [] => true
  | ['\\'] => false
  | '\\' :: c :: cs => (c == '%' || c == '_') && isVerbatim cs
  | '\'' :: _ => false
  | _ :: cs => isVerbatim cs

def isSpecial (c : Char) : Bool := c == '\'' || c == '\\'

theorem readLiteral_plain {c : Char} (plain : isSpecial c = false) (cs : List Char) :
    readLiteral (c :: cs) = (readLiteral cs).map fun rest => (c :: rest.1, rest.2) := by
  simp only [isSpecial, Bool.or_eq_false_iff, beq_eq_false_iff_ne] at plain
  rw [readLiteral]
  all_goals simp_all

theorem isVerbatim_of_plain {text : List Char} (plain : ∀ c ∈ text, isSpecial c = false) :
    isVerbatim text = true := by
  fun_induction isVerbatim text with
  | case1 => rfl
  | case2 => simp [isSpecial] at plain
  | case3 c cs ih => simp [isSpecial] at plain
  | case4 cs => simp [isSpecial] at plain
  | case5 c cs _ _ _ ih => exact ih fun d member => plain d (List.mem_cons_of_mem _ member)

theorem readLiteral_verbatim {text rest : List Char} (verbatim : isVerbatim text = true)
    (closed : rest.head? ≠ some '\'') :
    readLiteral (text ++ '\'' :: rest) = some (text, rest) := by
  fun_induction isVerbatim text with
  | case1 =>
    rw [List.nil_append, readLiteral]
    intro cs quoted
    simp [quoted] at closed
  | case2 => simp at verbatim
  | case3 c cs ih =>
    rw [Bool.and_eq_true, Bool.or_eq_true, beq_iff_eq, beq_iff_eq] at verbatim
    obtain ⟨kept,later⟩ := verbatim
    rw [List.cons_append, List.cons_append, readLiteral, ih later]
    rcases kept with rfl | rfl <;> rfl
  | case4 cs => simp at verbatim
  | case5 c cs noBackslash noEscape noQuote ih =>
    have plain : isSpecial c = false := by
      simp only [isSpecial, Bool.or_eq_false_iff, beq_eq_false_iff_ne]
      refine ⟨fun same => noQuote same, fun same => ?_⟩
      cases cs with
      | nil => exact noBackslash same rfl
      | cons d ds => exact noEscape d ds same rfl
    rw [List.cons_append, readLiteral_plain plain, ih verbatim]
    rfl

theorem unescape_special {c h : Char} {t : List Char} (special : isSpecial h = true)
    (denotes : unescape c = h :: t) :
    (isSpecial c = true ∧ c = h ∧ t = []) ∨
    ((c = '%' ∨ c = '_') ∧ h = '\\' ∧ t = [c]) := by
  unfold unescape at denotes
  split at denotes <;> simp only [List.cons.injEq] at denotes <;> obtain ⟨rfl,rfl⟩ := denotes
  all_goals first
    | exact .inl ⟨special, rfl, rfl⟩
    | exact .inr ⟨.inl rfl, rfl, rfl⟩
    | exact .inr ⟨.inr rfl, rfl, rfl⟩
    | simp [isSpecial] at special

theorem unescape_cons (c : Char) : ∃ first more, unescape c = first :: more := by
  unfold unescape
  split <;> exact ⟨_,_,rfl⟩

/-- A special character in front of a closing quote makes it a character of the literal. -/
theorem readLiteral_swallowed {d : Char} (special : isSpecial d = true) (cs : List Char) :
    readLiteral (d :: '\'' :: cs) = (readLiteral cs).map fun r => ('\'' :: r.1, r.2) := by
  simp only [isSpecial, Bool.or_eq_true, beq_iff_eq] at special
  rcases special with rfl | rfl <;> rw [readLiteral]
  rfl

section
variable {c : Char} (plain : isSpecial c = false) (rest : List Char)
include plain

theorem readLiteral_closed : readLiteral ('\'' :: c :: rest) = some ([], c :: rest) := by
  rw [readLiteral]
  intro cs same
  cases same
  simp [isSpecial] at plain

theorem head_of_plain {literal : List Char × List Char}
    (read : readLiteral (c :: rest) = some literal) : literal.1.head? = some c := by
  rw [readLiteral_plain plain] at read
  cases tail : readLiteral rest <;> simp [tail] at read
  simp [← read]

/-- A text is not read back when the reader is behind: the special characters it has
still to produce cannot be produced by what is left of the text. -/
theorem readLiteral_behind (w x : List Char) (behind : x ≠ []) (special : ∀ d ∈ x, isSpecial d = true)
    (extra after : List Char) :
    readLiteral (w ++ '\'' :: c :: rest) ≠ some (x ++ (w ++ extra), after) := by
  match x, behind with
  | h :: xs, _ =>
  have headSpecial : isSpecial h = true := special h List.mem_cons_self
  have tailSpecial : ∀ d ∈ xs, isSpecial d = true := fun d inside => special d (List.mem_cons_of_mem _ inside)
  match w with
  | [] =>
    rw [List.nil_append, readLiteral_closed plain]
    simp
  | [d] =>
    intro read
    cases dSpecial : isSpecial d with
    | false =>
      have := head_of_plain dSpecial _ read
      simp only [List.cons_append, List.head?_cons, Option.some.injEq] at this
      simp [← this, headSpecial] at dSpecial
    | true =>
      rw [List.cons_append, List.nil_append, readLiteral_swallowed dSpecial] at read
      obtain ⟨r,tail,same⟩ := Option.map_eq_some_iff.mp read
      have next : r.1.head? = some c := head_of_plain plain rest tail
      simp only [Prod.mk.injEq, List.cons_append, List.cons.injEq] at same
      rw [same.1.2] at next
      have inside : c ∈ xs ++ [d] := by
        cases xs with
        | nil => simpa using next.symm
        | cons b bs => simp [Option.some.inj next]
      rcases List.mem_append.mp inside with old | last
      · simp [tailSpecial c old] at plain
      · rw [List.mem_singleton.mp last] at plain
        simp [dSpecial] at plain
  | d :: e :: w =>
    intro read
    cases dSpecial : isSpecial d with
    | false =>
      have := head_of_plain dSpecial _ read
      simp only [List.cons_append, List.head?_cons, Option.some.injEq] at this
      simp [← this, headSpecial] at dSpecial
    | true =>
      have deeper : ∀ t, readLiteral (w ++ '\'' :: c :: rest) = some (t, after) → isSpecial e = true →
          t ≠ xs ++ d :: e :: (w ++ extra) := by
        intro t found eSpecial same
        refine readLiteral_behind w (xs ++ [d, e]) (by simp) ?_ extra after (by simpa [same] using found)
        intro b inside
        rcases List.mem_append.mp inside with old | new
        · exact tailSpecial b old
        · simp only [List.mem_cons, List.not_mem_nil, or_false] at new
          rcases new with rfl | rfl <;> assumption
      simp only [isSpecial, Bool.or_eq_true, beq_iff_eq] at dSpecial
      rcases dSpecial with rfl | rfl
      · by_cases doubled : e = '\''
        · subst doubled
          rw [List.cons_append, List.cons_append, readLiteral] at read
          cases tail : readLiteral (w ++ '\'' :: c :: rest) with
          | none => simp [tail] at read
          | some r =>
            simp only [tail, Option.map_some, Option.some.injEq, Prod.mk.injEq, List.cons_append,
              List.cons.injEq] at read
            exact deeper r.1 (by simp [tail, ← read.2]) rfl read.1.2
        · rw [List.cons_append, List.cons_append, readLiteral] at read
          · simp at read
          · intro cs same
            exact doubled (List.cons.inj same).1
      · rw [List.cons_append, List.cons_append, readLiteral] at read
        cases tail : readLiteral (w ++ '\'' :: c :: rest) with
        | none => simp [tail] at read
        | some r =>
          simp only [tail, Option.map_some, Option.some.injEq, Prod.mk.injEq] at read
          obtain ⟨text,rfl⟩ := read
          obtain ⟨first,more,denoted⟩ := unescape_cons e
          rw [denoted, List.cons_append, List.cons_append, List.cons.injEq] at text
          obtain ⟨rfl,remaining⟩ := text
          rcases unescape_special headSpecial denoted with ⟨eSpecial,-,rfl⟩ | ⟨kept,-,rfl⟩
          · exact deeper r.1 tail eSpecial (by simpa using remaining)
          · -- `\\%` and `\\_` denote two characters, the second of them plain
            have inside : e ∈ xs ∨ e = '\\' := by
              cases xs with
              | nil => exact .inr (List.cons.inj remaining).1
              | cons b bs => exact .inl ((List.cons.inj remaining).1 ▸ List.mem_cons_self)
            rcases inside with old | backslash
            · have := tailSpecial e old
              rcases kept with rfl | rfl <;> simp [isSpecial] at this
            · rcases kept with rfl | rfl <;> simp at backslash

/-- A literal made from a text denotes that text, or one that continues it other than
with what follows the literal, only when the text is verbatim. -/
theorem verbatim_of_readLiteral (text extra : List Char) (after : List Char)
    (apart : extra.head? ≠ some c)
    (read : readLiteral (text ++ '\'' :: c :: rest) = some (text ++ extra, after)) :
    isVerbatim text = true ∧ extra = [] ∧ after = c :: rest := by
  fun_induction isVerbatim text generalizing after with
  | case1 =>
    rw [List.nil_append, readLiteral_closed plain] at read
    simpa [eq_comm] using read
  | case2 =>
    rw [List.cons_append, List.nil_append, readLiteral_swallowed (by rfl)] at read
    obtain ⟨_,-,same⟩ := Option.map_eq_some_iff.mp read
    simp at same
  | case3 e cs ih =>
    rw [List.cons_append, List.cons_append, readLiteral] at read
    cases tail : readLiteral (cs ++ '\'' :: c :: rest) with
    | none => simp [tail] at read
    | some r =>
      simp only [tail, Option.map_some, Option.some.injEq, Prod.mk.injEq] at read
      obtain ⟨same,rfl⟩ := read
      obtain ⟨first,more,denoted⟩ := unescape_cons e
      rw [denoted, List.cons_append, List.cons_append, List.cons_append, List.cons.injEq] at same
      obtain ⟨rfl,remaining⟩ := same
      rcases unescape_special rfl denoted with ⟨-,rfl,rfl⟩ | ⟨kept,-,rfl⟩
      · have lagging : readLiteral (cs ++ '\'' :: c :: rest) = some (['\\'] ++ (cs ++ extra), r.2) := by
          rw [tail]
          exact congrArg some (Prod.ext (by simpa using remaining) rfl)
        exact absurd lagging (readLiteral_behind plain rest cs _ (by simp) (by simp [isSpecial]) _ _)
      · have later := ih r.2 (by rw [tail, ← (List.cons.inj remaining).2]; rfl)
        exact ⟨by rcases kept with rfl | rfl <;> exact later.1, later.2⟩
  | case4 cs =>
    cases cs with
    | nil =>
      rw [List.cons_append, List.nil_append, readLiteral_swallowed (by rfl)] at read
      obtain ⟨r,tail,same⟩ := Option.map_eq_some_iff.mp read
      have next : r.1.head? = some c := head_of_plain plain rest tail
      simp only [Prod.mk.injEq, List.cons_append, List.nil_append, List.cons.injEq, true_and] at same
      exact absurd (same.1 ▸ next) apart
    | cons d cs =>
      by_cases doubled : d = '\''
      · subst doubled
        rw [List.cons_append, List.cons_append, readLiteral] at read
        cases tail : readLiteral (cs ++ '\'' :: c :: rest) with
        | none => simp [tail] at read
        | some r =>
          simp only [tail, Option.map_some, Option.some.injEq, Prod.mk.injEq, List.cons_append,
            List.cons.injEq, true_and] at read
          have lagging : readLiteral (cs ++ '\'' :: c :: rest) =
              some (['\''] ++ (cs ++ extra), r.2) := by
            rw [tail]
            exact congrArg some (Prod.ext (by simpa using read.1) rfl)
          exact absurd lagging (readLiteral_behind plain rest cs _ (by simp) (by simp [isSpecial]) _ _)
      · rw [List.cons_append, List.cons_append, readLiteral] at read
        · simp at read
        · intro ds same
          exact doubled (List.cons.inj same).1
  | case5 d cs noBackslash noEscape noQuote ih =>
    have dPlain : isSpecial d = false := by
      simp only [isSpecial, Bool.or_eq_false_iff, beq_eq_false_iff_ne]
      refine ⟨fun same => noQuote same, fun same => ?_⟩
      cases cs with
      | nil => exact noBackslash same rfl
      | cons e ds => exact noEscape e ds same rfl
    rw [List.cons_append, readLiteral_plain dPlain] at read
    cases tail : readLiteral (cs ++ '\'' :: c :: rest) with
    | none => simp [tail] at read
    | some r =>
      simp only [tail, Option.map_some, Option.some.injEq, Prod.mk.injEq, List.cons_append,
        List.cons.injEq, true_and] at read
      exact ih after (by rw [tail, ← read.1, ← read.2])

end

end PcCourse.SqlText
