import PcCourse.SqlText
import Mathlib.Data.List.Forall2

/-! The statement `CALL name(argument, ...);`: how it is written, and how MySQL finds
the procedure and the expression of each argument in its text. -/
namespace PcCourse.SqlCall

open SqlText

/-- The expressions of the arguments, from behind the opening parenthesis. `depth` counts
the parentheses open inside `expr`, the argument read so far. -/
def arguments (depth : Nat) (expr : List Token) : List Token → Option (List (List Token))
  | [] => none
  | t :: rest =>
    if t = .sym ';' then none
    else if t = .sym '(' then arguments (depth + 1) (expr ++ [t]) rest
    else if t = .sym ')' ∧ depth = 0 then
      if rest = [] ∨ rest = [.sym ';'] then some [expr] else none
    else if t = .sym ')' then arguments (depth - 1) (expr ++ [t]) rest
    else if t = .sym ',' ∧ depth = 0 then (arguments 0 [] rest).map (expr :: ·)
    else arguments depth (expr ++ [t]) rest

structure Call where
  procedure : String
  args : List (List Token)
  deriving DecidableEq, Repr

def ofTokens : List Token → Option Call
  | .word call :: .word name :: .sym open_ :: rest =>
    if call = "CALL" ∧ open_ = '(' then
      (arguments 0 [] rest).map fun args => ⟨name, if args = [[]] then [] else args⟩
    else none
  | _ => none

def parse (text : String) : Option Call := (lex text).bind ofTokens

def quoted (text : String) : String := "'" ++ text ++ "'"

def callText (name : String) (args : List String) : String :=
  "CALL " ++ name ++ "(" ++ ", ".intercalate args ++ ");"

def closes (c : Char) : Prop := c = ',' ∨ c = ')'

/-- A written argument is read as an expression wherever an argument may stand. -/
structure Reads (arg : String) (expr : List Token) : Prop where
  lexed : ∀ c, closes c → ∀ rest, scanner.run .code (arg.toList ++ c :: rest) =
    (scanner.run .code (c :: rest)).map (expr ++ ·)
  whole : ∀ before rest, arguments 0 before (expr ++ rest) = arguments 0 (before ++ expr) rest
  nonempty : expr ≠ []

theorem run_symbol {c : Char} (symbol : start c = ([.sym c], .code)) (rest : List Char) :
    scanner.run .code (c :: rest) = (scanner.run .code rest).map (.sym c :: ·) :=
  Scanner.run_cons (by rw [scanner_step, step, symbol])

theorem run_blank {c : Char} (blank : start c = ([], .code)) (rest : List Char) :
    scanner.run .code (c :: rest) = scanner.run .code rest :=
  Scanner.run_silent (by rw [scanner_step, step, blank])

theorem run_literal {text : List Char} {literal : List Char × List Char}
    (read : readLiteral text = some literal) :
    scanner.run .code ('\'' :: text) =
      (scanner.run .code literal.2).map (.str (String.ofList literal.1) :: ·) := by
  have opened : scanner.step .code '\'' = some ([], .str '\'' []) := rfl
  rw [Scanner.run_silent opened, run_str, read]
  rfl

theorem closes_ne_quote {c : Char} (h : closes c) : c ≠ '\'' := by
  rcases h with rfl | rfl <;> decide

theorem reads_quoted {text : String} (verbatim : isVerbatim text.toList = true) :
    Reads (quoted text) [.str text] where
  lexed c h rest := by
    have read : readLiteral (text.toList ++ '\'' :: c :: rest) = some (text.toList, c :: rest) :=
      readLiteral_verbatim verbatim (by simpa using closes_ne_quote h)
    have shape : (quoted text).toList ++ c :: rest = '\'' :: (text.toList ++ '\'' :: c :: rest) := by
      simp [quoted]
    rw [shape, run_literal read, String.ofList_toList]
    rfl
  whole before rest := by simp [arguments]
  nonempty := by simp

theorem reads_double {text : String} (plain : ∀ c ∈ text.toList, c ≠ '"' ∧ c ≠ '\\') :
    Reads ("\"" ++ text ++ "\"") [.str text] where
  lexed c h rest := by
    have closed : (c :: rest).head? ≠ some '"' := by
      rcases h with rfl | rfl <;> simp
    have opened : scanner.step .code '"' = some ([], .str '"' []) := rfl
    have shape : ("\"" ++ text ++ "\"").toList ++ c :: rest = '"' :: (text.toList ++ '"' :: c :: rest) := by simp
    rw [shape, Scanner.run_silent opened, run_double plain closed, List.nil_append, String.ofList_toList]
    rfl
  whole before rest := by simp [arguments]
  nonempty := by simp

theorem arguments_close (expr : List Token) :
    arguments 0 expr [.sym ')', .sym ';'] = some [expr] := by
  simp [arguments]

theorem arguments_comma (expr rest : List Token) :
    arguments 0 expr (.sym ',' :: rest) = (arguments 0 [] rest).map (expr :: ·) := by
  simp [arguments]

/-- The argument being read only grows. -/
theorem arguments_extends {depth : Nat} {expr tokens : List Token} {args : List (List Token)}
    (split : arguments depth expr tokens = some args) : ∃ tail rest, args = (expr ++ tail) :: rest := by
  induction tokens generalizing depth expr with
  | nil => simp [arguments] at split
  | cons t tokens ih =>
    have longer : ∀ d, arguments d (expr ++ [t]) tokens = some args →
        ∃ tail rest, args = (expr ++ tail) :: rest := by
      intro d read
      obtain ⟨tail,rest,rfl⟩ := ih read
      exact ⟨t :: tail, rest, by simp⟩
    rw [arguments] at split
    split_ifs at split
    · exact longer _ split
    · exact ⟨[], [], by simpa using (Option.some.inj split).symm⟩
    · exact longer _ split
    · obtain ⟨others,-,rfl⟩ := Option.map_eq_some_iff.mp split
      exact ⟨[], others, by simp⟩
    · exact longer _ split

/-- A quoted text that begins an argument: how far its literal reaches, and what the
argument is read from behind it. -/
theorem arguments_literal {text : List Char} {tokens : List Token} {expr : List Token}
    {more : List (List Token)} (lexed : scanner.run .code ('\'' :: text) = some tokens)
    (split : arguments 0 [] tokens = some (expr :: more)) :
    ∃ s after later tail, readLiteral text = some (s, after) ∧ scanner.run .code after = some later ∧
      arguments 0 [.str (String.ofList s)] later = some (expr :: more) ∧
      expr = .str (String.ofList s) :: tail := by
  cases read : readLiteral text with
  | none =>
    have opened : scanner.step .code '\'' = some ([], .str '\'' []) := rfl
    rw [Scanner.run_silent opened, run_str, read] at lexed
    cases lexed
  | some literal =>
    obtain ⟨s,after⟩ := literal
    rw [run_literal read] at lexed
    obtain ⟨later,rest,rfl⟩ := Option.map_eq_some_iff.mp lexed
    have behind : arguments 0 [.str (String.ofList s)] later = some (expr :: more) := by
      simpa [arguments] using split
    obtain ⟨tail,others,shape⟩ := arguments_extends behind
    exact ⟨s, after, later, tail, rfl, rest, behind, (List.cons.inj shape).1⟩

/-- What stands behind the opening parenthesis of a call is read argument by argument, up to what is
read as nothing. -/
theorem run_args {args : List String} {exprs : List (List Token)} (reads : List.Forall₂ Reads args exprs)
    (some_ : args ≠ []) {behind : List Char} (silent : scanner.run .code behind = some []) :
    ∃ tokens, scanner.run .code ((", ".intercalate args).toList ++ ')' :: ';' :: behind) = some tokens ∧
      arguments 0 [] tokens = some exprs := by
  induction reads with
  | nil => exact absurd rfl some_
  | @cons arg expr args exprs first others ih =>
    cases others with
    | nil =>
      have closing : scanner.run .code (')' :: ';' :: behind) = some [.sym ')', .sym ';'] := by
        rw [run_symbol rfl, run_symbol rfl, silent]
        rfl
      refine ⟨expr ++ [.sym ')', .sym ';'], ?_, ?_⟩
      · rw [String.intercalate_singleton, first.lexed _ (.inr rfl), closing]
        rfl
      · rw [first.whole, List.nil_append, arguments_close]
    | @cons arg₂ expr₂ args exprs second others =>
      obtain ⟨tokens,lexed,split⟩ := ih (by simp)
      refine ⟨expr ++ .sym ',' :: tokens, ?_, ?_⟩
      · have shape : (", ".intercalate (arg :: arg₂ :: args)).toList ++ ')' :: ';' :: behind =
            arg.toList ++ ',' :: ' ' :: ((", ".intercalate (arg₂ :: args)).toList ++ ')' :: ';' :: behind) := by
          simp [String.intercalate_cons_cons]
        rw [shape, first.lexed _ (.inl rfl), run_symbol rfl, run_blank rfl, lexed]
        rfl
      · rw [first.whole, List.nil_append, arguments_comma, split]
        rfl

theorem run_word {w : List Char} {read : List Char} (word : ∀ c ∈ w, isWordChar c = true)
    (rest : List Char) :
    scanner.run (.word read) (w ++ rest) = scanner.run (.word (read ++ w)) rest := by
  induction w generalizing read with
  | nil => simp
  | cons c w ih =>
    have longer : scanner.step (.word read) c = some ([], .word (read ++ [c])) := by
      simp [step, stepWord, word c List.mem_cons_self]
    rw [List.cons_append, Scanner.run_silent longer,
      ih fun d member => word d (List.mem_cons_of_mem _ member)]
    simp

def isName (name : String) : Bool := name.toList ≠ [] && name.toList.all Char.isAlpha

theorem isName_chars {name : String} (named : isName name = true) :
    ∃ c cs, name.toList = c :: cs ∧ start c = ([], .word [c]) ∧ ∀ d ∈ cs, isWordChar d = true := by
  simp only [isName, Bool.and_eq_true, decide_eq_true_eq, List.all_eq_true] at named
  obtain ⟨some_,letters⟩ := named
  have wordChar : ∀ d ∈ name.toList, isWordChar d = true := by
    intro d member
    simp [isWordChar, Char.isAlphanum, letters d member]
  cases chars : name.toList with
  | nil => exact absurd chars some_
  | cons c cs =>
    exact ⟨c, cs, rfl, start_word (wordChar c (by simp [chars])), fun d member => wordChar d (by simp [chars, member])⟩

theorem run_call {name : String} (named : isName name = true) (rest : List Char) :
    scanner.run .code (("CALL " ++ name ++ "(").toList ++ rest) =
      (scanner.run .code rest).map fun ts => .word "CALL" :: .word name :: .sym '(' :: ts := by
  obtain ⟨c,cs,chars,opened,word⟩ := isName_chars named
  have shape : ("CALL " ++ name ++ "(").toList ++ rest =
      ['C', 'A', 'L', 'L', ' '] ++ c :: (cs ++ '(' :: rest) := by
    simp [chars]
  have call : scanner.feed .code ['C', 'A', 'L', 'L', ' '] = some ([.word "CALL"], .code) := rfl
  have first : scanner.step .code c = some ([], .word [c]) := by simp [step, opened]
  have paren : scanner.step (.word (c :: cs)) '(' = some ([.word name, .sym '('], .code) := by
    have ended : isWordChar '(' = false := by decide
    simp [step, stepWord, opensExponent, ended, restart, ← chars, start, isSpace]
  rw [shape, Scanner.run_append call, Scanner.run_silent first, run_word word,
    List.singleton_append, Scanner.run_cons paren, Option.map_map]
  rfl

/-- What is read as nothing behind a call leaves the call. -/
theorem parse_behind {name : String} {args : List String} {exprs : List (List Token)}
    (named : isName name = true) (reads : List.Forall₂ Reads args exprs) (some_ : args ≠ [])
    {behind : List Char} (silent : scanner.run .code behind = some []) {text : String}
    (shape : text.toList = (callText name args).toList ++ behind) : parse text = some ⟨name, exprs⟩ := by
  obtain ⟨tokens,lexed,split⟩ := run_args reads some_ silent
  have parts : text.toList =
      ("CALL " ++ name ++ "(").toList ++ ((", ".intercalate args).toList ++ ')' :: ';' :: behind) := by
    simp [shape, callText]
  have notEmpty : exprs ≠ [[]] := by
    rintro rfl
    cases reads with
    | cons first _ => exact first.nonempty rfl
  rw [parse, lex, parts, run_call named, lexed]
  simp [ofTokens, split, notEmpty]

/-- A call whose arguments are all readable is read as it was meant. -/
theorem parse_callText {name : String} {args : List String} {exprs : List (List Token)}
    (named : isName name = true) (reads : List.Forall₂ Reads args exprs) (some_ : args ≠ []) :
    parse (callText name args) = some ⟨name, exprs⟩ :=
  parse_behind named reads some_ (show scanner.run .code [] = some [] from rfl) (List.append_nil _).symm

theorem parse_quoted {name : String} {texts : List String} (named : isName name = true)
    (verbatim : ∀ text ∈ texts, isVerbatim text.toList = true) (some_ : texts ≠ []) :
    parse (callText name (texts.map quoted)) = some ⟨name, texts.map fun text => [.str text]⟩ := by
  have reads : List.Forall₂ Reads (texts.map quoted) (texts.map fun text => [.str text]) := by
    rw [List.forall₂_map_left_iff, List.forall₂_map_right_iff, List.forall₂_same]
    exact fun text member => reads_quoted (verbatim text member)
  exact parse_callText named reads (by simpa using some_)

/-- Whatever the arguments are, a call names the procedure it was written for, and its
arguments are read from behind the opening parenthesis. -/
theorem parse_inner {name : String} {args : List String} {call : Call} (named : isName name = true)
    (parsed : parse (callText name args) = some call) :
    ∃ tokens exprs, scanner.run .code ((", ".intercalate args).toList ++ [')', ';']) = some tokens ∧
      arguments 0 [] tokens = some exprs ∧ call = ⟨name, if exprs = [[]] then [] else exprs⟩ := by
  have shape : (callText name args).toList =
      ("CALL " ++ name ++ "(").toList ++ ((", ".intercalate args).toList ++ [')', ';']) := by
    simp [callText]
  rw [parse, lex, shape, run_call named] at parsed
  cases lexed : scanner.run .code ((", ".intercalate args).toList ++ [')', ';']) with
  | none =>
    rw [lexed] at parsed
    cases parsed
  | some tokens =>
    rw [lexed] at parsed
    cases split : arguments 0 [] tokens with
    | none => simp [ofTokens, split] at parsed
    | some exprs =>
      simp only [ofTokens, split, Option.map_some, Option.bind_some, and_self, if_true,
        Option.some.injEq] at parsed
      exact ⟨tokens, exprs, rfl, split, parsed.symm⟩

theorem parse_procedure {name : String} {args : List String} {call : Call}
    (named : isName name = true) (parsed : parse (callText name args) = some call) :
    call.procedure = name := by
  obtain ⟨tokens,exprs,-,-,rfl⟩ := parse_inner named parsed
  rfl

theorem parse_callText_nil {name : String} (named : isName name = true) :
    parse (callText name []) = some ⟨name, []⟩ := by
  have shape : (callText name []).toList = ("CALL " ++ name ++ "(").toList ++ [')', ';'] := by
    simp [callText]
  have closing : scanner.run .code [')', ';'] = some [.sym ')', .sym ';'] := rfl
  rw [parse, lex, shape, run_call named, closing]
  simp [ofTokens, arguments_close]

end PcCourse.SqlCall
