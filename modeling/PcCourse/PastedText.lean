import PcCourse.LuaText
import Mathlib.Data.List.TakeWhile

/-! Texts that are pasted between single quotes into one chunk: when the chunk has a string for
each of them. -/
namespace PcCourse.PastedText

open LuaText

def outside : Mode → Bool
  | .str _ _ | .escape _ _ => false
  | _ => true

/-- A step of the scanner, as to the strings it reads. -/
inductive StrStep : Mode → Char → List Token → Mode → Prop
  | outside {mode next : Mode} {c : Char} {now : List Token} : outside mode = true →
    (∀ s, .str s ∉ now) → outside next = true → StrStep mode c now next
  | opens {mode : Mode} {c : Char} {now : List Token} : outside mode = true →
    (∀ s, .str s ∉ now) → c = '"' ∨ c = '\'' → StrStep mode c now (.str c [])
  | closes (quote : Char) (read : List Char) :
    StrStep (.str quote read) quote [.str (String.ofList read)] .code
  | slash (quote : Char) (read : List Char) : StrStep (.str quote read) '\\' [] (.escape quote read)
  | collects {quote c : Char} {read : List Char} : c ≠ quote → c ≠ '\\' →
    c ≠ '\n' ∧ c ≠ '\r' ∧ c ≠ '\x00' → StrStep (.str quote read) c [] (.str quote (read ++ [c]))
  | escaped (quote : Char) (read : List Char) {c real : Char} : unescape c = some real →
    StrStep (.escape quote read) c [] (.str quote (read ++ [real]))

section
variable {mode next final : Mode} {c : Char} {cs : List Char} {now tokens : List Token} {s : String}

theorem finish_no_str (ended : finish mode = some tokens) : .str s ∉ tokens := by
  cases mode with
  | word read =>
    cases ended
    unfold wordToken
    split <;> simp
  | str quote read => cases ended
  | escape quote read => cases ended
  | _ =>
    cases ended
    simp

theorem start_cases (c : Char) : (∀ s, .str s ∉ (start c).1) ∧
    (outside (start c).2 = true ∨ (c = '"' ∨ c = '\'') ∧ (start c).2 = .str c []) := by
  unfold start
  split_ifs with quoted
  · exact ⟨by simp, .inr ⟨quoted, rfl⟩⟩
  all_goals exact ⟨by simp, .inl rfl⟩

/-- What a character does to a string: outside of strings none is completed and one may be
opened, inside it is closed, goes on or has an escape. -/
theorem step_cases (one : step mode c = some (now, next)) : StrStep mode c now next := by
  have code (out : outside mode = true) {done : List Token} (none : ∀ s, .str s ∉ done)
      (same : restart done c = (now, next)) : StrStep mode c now next := by
    obtain ⟨rfl,rfl⟩ := Prod.mk.inj same
    obtain ⟨started,shape⟩ := start_cases c
    have neither : ∀ s, .str s ∉ done ++ (start c).1 := fun s member =>
      (List.mem_append.mp member).elim (none s) (started s)
    rcases shape with out' | ⟨quoted,string⟩
    · exact .outside out neither out'
    · rw [string]
      exact .opens out neither quoted
  have silent {mode next' : Mode} (out : outside mode = true) (same : ([], next') = (now, next))
      (out' : outside next' = true) : StrStep mode c now next := by
    obtain ⟨rfl,rfl⟩ := Prod.mk.inj same
    exact .outside out (fun _ => List.not_mem_nil) out'
  unfold step at one
  split at one
  next nul =>
    obtain ⟨done,ended,same⟩ := Option.map_eq_some_iff.mp one
    cases same
    have out : outside mode = true := by
      cases mode with
      | str | escape => cases ended
      | _ => rfl
    exact .outside out (fun s => finish_no_str ended) rfl
  next nul =>
    cases mode with
    | code => exact code rfl (fun s => List.not_mem_nil) (Option.some.inj one)
    | word read =>
      dsimp only at one
      split at one
      · exact silent rfl (Option.some.inj one) rfl
      · exact code rfl (fun s => finish_no_str (show finish (.word read) = _ from rfl)) (Option.some.inj one)
    | dash =>
      dsimp only at one
      split at one
      · exact silent rfl (Option.some.inj one) rfl
      · exact code rfl (by simp) (Option.some.inj one)
    | dashes =>
      dsimp only at one
      split at one
      · cases one
      · exact silent rfl (Option.some.inj one) (by split <;> rfl)
    | comment => exact silent rfl (Option.some.inj one) (by split <;> rfl)
    | str quote read =>
      dsimp only at one
      split at one
      next closed =>
        cases one
        subst closed
        exact .closes c read
      next other =>
        split at one
        next escapes =>
          cases one
          subst escapes
          exact .slash quote read
        next backslash =>
          split at one
          · cases one
          next stays =>
            cases one
            obtain ⟨feed,ret⟩ := not_or.mp stays
            exact .collects other backslash ⟨feed, ret, nul⟩
    | escape quote read =>
      obtain ⟨real,unescaped,same⟩ := Option.map_eq_some_iff.mp one
      cases same
      exact .escaped quote read unescaped
    | ended => exact silent rfl (Option.some.inj one) rfl

def Quoted : Mode → Prop
  | .str quote _ | .escape quote _ => quote = '"' ∨ quote = '\''
  | _ => True

theorem quoted_outside (out : outside mode = true) : Quoted mode := by
  cases mode with
  | str | escape => cases out
  | _ => trivial

theorem step_quoted (quoted : Quoted mode) (one : step mode c = some (now, next)) : Quoted next := by
  cases step_cases one with
  | outside _ _ out => exact quoted_outside out
  | opens _ _ either => exact either
  | closes => trivial
  | slash | collects | escaped => exact quoted

theorem feed_quoted (quoted : Quoted mode) (fed : scanner.feed mode cs = some (tokens, final)) :
    Quoted final := by
  induction cs generalizing mode tokens with
  | nil =>
    cases fed
    exact quoted
  | cons c cs ih =>
    obtain ⟨now,next,later,one,rest,rfl⟩ := Scanner.feed_cons_eq_some.mp fed
    exact ih (step_quoted quoted one) rest

end

def slashStep (lengths : Nat × Nat) (c : Char) : Nat × Nat :=
  if c = '\\' then (lengths.1 + 1, max lengths.2 (lengths.1 + 1)) else (0, lengths.2)

/-- The lengths of the last and of the longest run of backslashes. -/
def slashRuns (cs : List Char) : Nat × Nat := cs.foldl slashStep (0, 0)

theorem slashRuns_append (cs : List Char) (c : Char) :
    slashRuns (cs ++ [c]) = slashStep (slashRuns cs) c := by
  rw [slashRuns, List.foldl_append]
  rfl

theorem slashStep_le (lengths : Nat × Nat) (c : Char) : lengths.2 ≤ (slashStep lengths c).2 := by
  unfold slashStep
  split
  · exact Nat.le_max_left _ _
  · exact Nat.le_refl _

theorem foldl_slash_le (cs : List Char) (lengths : Nat × Nat) :
    lengths.2 ≤ (cs.foldl slashStep lengths).2 := by
  induction cs generalizing lengths with
  | nil => exact Nat.le_refl _
  | cons c cs ih => exact Nat.le_trans (slashStep_le lengths c) (ih _)

theorem slashRuns_le (cs rest : List Char) : (slashRuns cs).2 ≤ (slashRuns (cs ++ rest)).2 := by
  have later := foldl_slash_le rest (slashRuns cs)
  rwa [slashRuns, ← List.foldl_append] at later

theorem foldl_slash (cs : List Char) (last before longest : Nat) :
    (cs.foldl slashStep (last, max before longest)).2 =
      max before (cs.foldl slashStep (last, longest)).2 := by
  induction cs generalizing last longest with
  | nil => rfl
  | cons c cs ih =>
    rw [List.foldl_cons, List.foldl_cons, slashStep, slashStep]
    split
    · rw [Nat.max_assoc, ih]
    · exact ih _ _

theorem foldl_slash_free {cs : List Char} (free : '\\' ∉ cs) (longest : Nat) :
    cs.foldl slashStep (0, longest) = (0, longest) := by
  induction cs with
  | nil => rfl
  | cons c cs ih =>
    rw [List.mem_cons, not_or] at free
    rw [List.foldl_cons, slashStep, if_neg (Ne.symm free.1)]
    exact ih free.2

theorem free_of_slashRuns {cs : List Char} (none : (slashRuns cs).2 = 0) : '\\' ∉ cs := by
  intro member
  obtain ⟨before,after,rfl⟩ := List.append_of_mem member
  have later := slashRuns_le (before ++ ['\\']) after
  have here : 1 ≤ (slashRuns (before ++ ['\\'])).2 := by
    rw [slashRuns_append, slashStep, if_pos rfl]
    exact Nat.le_trans (Nat.le_add_left 1 _) (Nat.le_max_right _ _)
  rw [← List.append_cons, none] at later
  omega

/-- A string that is being read has half the backslashes that have been read. -/
def Paid (before : List Char) : Mode → Prop
  | .str _ read => 2 * (slashRuns read).1 ≤ (slashRuns before).1 ∧
    2 * (slashRuns read).2 ≤ (slashRuns before).2
  | .escape _ read => 2 * (slashRuns read).1 + 1 ≤ (slashRuns before).1 ∧
    2 * (slashRuns read).2 ≤ (slashRuns before).2
  | _ => True

section
variable {mode next final : Mode} {c : Char} {cs before : List Char} {now tokens : List Token} {s : String}

theorem paid_outside (out : outside mode = true) : Paid before mode := by
  cases mode with
  | str | escape => cases out
  | _ => trivial

theorem unescape_slash {real : Char} (escape : unescape c = some real) : real = '\\' ↔ c = '\\' := by
  unfold unescape at escape
  split at escape <;> cases escape <;> decide

theorem step_paid (paid : Paid before mode) (one : step mode c = some (now, next)) :
    Paid (before ++ [c]) next ∧
      ∀ s, .str s ∈ now → 2 * (slashRuns s.toList).2 ≤ (slashRuns (before ++ [c])).2 := by
  rw [slashRuns_append]
  cases step_cases one with
  | outside _ none out => exact ⟨paid_outside out, fun s member => absurd member (none s)⟩
  | opens _ none => exact ⟨⟨Nat.zero_le _, Nat.zero_le _⟩, fun s member => absurd member (none s)⟩
  | closes quote read =>
    refine ⟨trivial, fun s member => ?_⟩
    cases List.mem_singleton.mp member
    rw [String.toList_ofList]
    exact Nat.le_trans paid.2 (slashStep_le _ _)
  | slash quote read =>
    refine ⟨?_, by simp⟩
    obtain ⟨last,longest⟩ := paid
    simp only [Paid, slashRuns_append, slashStep, if_true]
    omega
  | @collects quote c read _ backslash =>
    refine ⟨?_, by simp⟩
    simp only [Paid, slashRuns_append, slashStep, if_neg backslash]
    exact ⟨Nat.le_refl _, paid.2⟩
  | @escaped quote read c real escape =>
    refine ⟨?_, by simp⟩
    obtain ⟨last,longest⟩ := paid
    simp only [Paid, slashRuns_append, slashStep, unescape_slash escape]
    split
    · dsimp only
      omega
    · exact ⟨Nat.le_refl _, longest⟩

theorem run_paid (paid : Paid before mode) (ran : scanner.run mode cs = some tokens)
    (member : .str s ∈ tokens) : 2 * (slashRuns s.toList).2 ≤ (slashRuns (before ++ cs)).2 := by
  induction cs generalizing mode before tokens with
  | nil =>
    obtain ⟨ended,finished,rfl⟩ := Option.map_eq_some_iff.mp ran
    exact absurd member (finish_no_str finished)
  | cons c cs ih =>
    obtain ⟨now,next,later,one,behind,rfl⟩ := Scanner.run_cons_eq_some.mp ran
    obtain ⟨kept,completed⟩ := step_paid paid one
    rw [List.append_cons]
    rcases List.mem_append.mp member with done | open_
    · exact Nat.le_trans (completed s done) (slashRuns_le _ _)
    · exact ih kept behind open_

/-- What holds of every string that is being read, given its quote, when no escape is read. -/
def Holds (p : Char → List Char → Prop) : Mode → Prop
  | .str quote read => p quote read
  | .escape _ _ => False
  | _ => True

theorem holds_outside {p : Char → List Char → Prop} (out : outside mode = true) : Holds p mode := by
  cases mode with
  | str | escape => cases out
  | _ => trivial

/-- The literal that is being read, as it is written when it has no escapes. -/
def opened : Mode → List Char
  | .str quote read | .escape quote read => quote :: read
  | _ => []

/-- A string that stands in a text as it is. -/
def Literal (quote : Char) (read : List Char) : Prop :=
  (quote = '"' ∨ quote = '\'') ∧ quote ∉ read ∧ '\n' ∉ read ∧ '\r' ∉ read

def Unescaped : Mode → Prop := Holds Literal

theorem opened_outside (out : outside mode = true) : opened mode = [] := by
  cases mode with
  | str | escape => cases out
  | _ => rfl

theorem step_opened (slash : c ≠ '\\') (holds : Unescaped mode) (one : step mode c = some (now, next)) :
    Unescaped next ∧ (∃ skipped, opened mode ++ [c] = skipped ++ opened next) ∧
      ∀ s, .str s ∈ now → ∃ quote, Literal quote s.toList ∧
        opened mode ++ [c] = quote :: (s.toList ++ [quote]) := by
  cases step_cases one with
  | outside _ none out =>
    refine ⟨holds_outside out, ⟨opened mode ++ [c], ?_⟩, fun s member => absurd member (none s)⟩
    rw [opened_outside out, List.append_nil]
  | opens _ none quoted =>
    have empty : Literal c [] := ⟨quoted, by simp⟩
    exact ⟨empty, ⟨opened mode, rfl⟩, fun s member => absurd member (none s)⟩
  | closes quote read =>
    refine ⟨trivial, ⟨c :: read ++ [c], by simp [opened]⟩, fun s member => ?_⟩
    cases List.mem_singleton.mp member
    refine ⟨c, ?_, ?_⟩
    · rw [String.toList_ofList]
      exact holds
    · rw [String.toList_ofList]
      rfl
  | slash => exact absurd rfl slash
  | @collects quote c read other _ breaks =>
    obtain ⟨quoted,free⟩ := holds
    have longer : Literal quote (read ++ [c]) := ⟨quoted, by simp [free, other.symm, breaks.1.symm, breaks.2.1.symm]⟩
    exact ⟨longer, ⟨[], by simp [opened]⟩, by simp⟩
  | escaped => exact holds.elim

/-- A string of a text without backslashes stands in it between two quotes. -/
theorem run_literal (free : '\\' ∉ cs) (holds : Unescaped mode) (ran : scanner.run mode cs = some tokens)
    (member : .str s ∈ tokens) : ∃ quote before after, Literal quote s.toList ∧
      opened mode ++ cs = before ++ quote :: (s.toList ++ quote :: after) := by
  induction cs generalizing mode tokens with
  | nil =>
    obtain ⟨ended,finished,rfl⟩ := Option.map_eq_some_iff.mp ran
    exact absurd member (finish_no_str finished)
  | cons c cs ih =>
    rw [List.mem_cons, not_or] at free
    obtain ⟨now,next,later,one,behind,rfl⟩ := Scanner.run_cons_eq_some.mp ran
    obtain ⟨kept,⟨skipped,written⟩,completed⟩ := step_opened (Ne.symm free.1) holds one
    have text : opened mode ++ c :: cs = opened mode ++ [c] ++ cs := by simp
    rw [text]
    rcases List.mem_append.mp member with done | open_
    · obtain ⟨quote,literal,whole⟩ := completed s done
      exact ⟨quote, [], cs, literal, by rw [whole]; simp⟩
    · obtain ⟨quote,before,after,literal,whole⟩ := ih free.2 kept behind open_
      refine ⟨quote, skipped ++ before, after, literal, ?_⟩
      rw [written, List.append_assoc, whole, List.append_assoc]

end

/-- A text that a string in single quotes takes as it stands. -/
def Bare (cs : List Char) : Prop :=
  ∀ c ∈ cs, c ≠ '\'' ∧ c ≠ '\\' ∧ c ≠ '\n' ∧ c ≠ '\r' ∧ c ≠ '\x00'

theorem Bare.plain {s : String} (bare : Bare s.toList) : isPlain s = true := by
  simp only [isPlain, isLine, Bool.and_eq_true, List.all_eq_true, bne_iff_ne]
  refine ⟨fun c member => ?_, fun c member => ?_⟩
  · obtain ⟨-,-,feed,ret,nul⟩ := bare c member
    exact ⟨⟨feed, ret⟩, nul⟩
  · obtain ⟨quote,backslash,-⟩ := bare c member
    exact ⟨quote, backslash⟩

def Single (tokens : List Token) : Prop := ∀ s, .str s ∈ tokens → '\'' ∉ s.toList

def Opens (text : List Char) : Prop := ∃ tokens, Single tokens ∧
  ∀ rest, scanner.run .code (text ++ rest) = (scanner.run (.str '\'' []) rest).map (tokens ++ ·)

/-- A text that leaves a string in single quotes open where it was open. -/
def Aligned (cs : List Char) : Prop := ∀ read, '\'' ∉ read → ∃ tokens left, '\'' ∉ left ∧ Single tokens ∧
  ∀ rest, scanner.run (.str '\'' read) (cs ++ rest) =
    (scanner.run (.str '\'' left) rest).map (tokens ++ ·)

theorem opens_of_feed {text : List Char} {tokens : List Token}
    (fed : scanner.feed .code text = some (tokens, .str '\'' [])) (single : Single tokens) : Opens text :=
  ⟨tokens, single, fun _ => Scanner.run_append fed⟩

theorem Single.append {first rest : List Token} (single : Single first) (others : Single rest) :
    Single (first ++ rest) := fun s member =>
  (List.mem_append.mp member).elim (single s) (others s)

theorem Single.nil : Single [] := fun _ => by simp

theorem Single.closed {read : List Char} (free : '\'' ∉ read) : Single [.str (String.ofList read)] := by
  intro s member
  cases List.mem_singleton.mp member
  rwa [String.toList_ofList]

theorem run_closes (read rest : List Char) : scanner.run (.str '\'' read) ('\'' :: rest) =
    (scanner.run .code rest).map ([.str (String.ofList read)] ++ ·) :=
  Scanner.run_cons rfl

theorem Opens.after {text last : List Char} {tokens : List Token} (opens : Opens last)
    (fed : scanner.feed .code text = some (tokens, .code)) (single : Single tokens) :
    Opens (text ++ last) := by
  obtain ⟨more,others,runs⟩ := opens
  refine ⟨tokens ++ more, single.append others, fun rest => ?_⟩
  rw [List.append_assoc, Scanner.run_append fed, runs, Option.map_map]
  simp only [Function.comp_def, List.append_assoc]

theorem Opens.behind {text last : List Char} {tokens : List Token} (opens : Opens last)
    (reads : Reads text tokens) (single : Single tokens) (apart : ∀ rest, Apart (last ++ rest)) :
    Opens (text ++ last) := by
  obtain ⟨more,others,runs⟩ := opens
  refine ⟨tokens ++ more, single.append others, fun rest => ?_⟩
  rw [List.append_assoc, reads _ (apart rest), runs, Option.map_map]
  simp only [Function.comp_def, List.append_assoc]

theorem Bare.aligned {cs : List Char} (bare : Bare cs) : Aligned cs := by
  intro read free
  have fed : scanner.feed (.str '\'' read) cs = some ([], .str '\'' (read ++ cs)) := by
    clear free
    induction cs generalizing read with
    | nil => rw [List.append_nil, Scanner.feed]
    | cons c cs ih =>
      obtain ⟨⟨quote,backslash,feed,ret,nul⟩,others⟩ := List.forall_mem_cons.mp bare
      have one : scanner.step (.str '\'' read) c = some ([], .str '\'' (read ++ [c])) := by
        simp [step, quote, backslash, feed, ret, nul]
      rw [List.append_cons]
      exact Scanner.feed_cons_eq_some.mpr ⟨[], _, [], one, ih others _, rfl⟩
  refine ⟨[], read ++ cs, ?_, .nil, fun rest => Scanner.run_append fed⟩
  rw [List.mem_append, not_or]
  exact ⟨free, fun member => (bare _ member).1 rfl⟩

theorem Aligned.across {first tail next : List Char} (front : Aligned first) (opens : Opens tail)
    (back : Aligned next) : Aligned (first ++ '\'' :: (tail ++ next)) := by
  intro read free
  obtain ⟨before,middle,inside,single,runs⟩ := front read free
  obtain ⟨between,singleB,opened⟩ := opens
  obtain ⟨after,left,outside,singleA,runs'⟩ := back [] List.not_mem_nil
  refine ⟨before ++ ([.str (String.ofList middle)] ++ (between ++ after)), left, outside,
    single.append ((Single.closed inside).append (singleB.append singleA)), fun rest => ?_⟩
  rw [List.append_assoc, runs, List.cons_append, run_closes, List.append_assoc, opened, runs']
  simp only [Option.map_map, Function.comp_def, List.append_assoc]

/-- Arguments and the text of the template behind the closing quote of each. -/
abbrev Pieces := List (List Char × List Char)

/-- The text behind the opening quote of the first argument. -/
def paste : Pieces → List Char
  | [] => []
  | (arg, tail) :: rest => arg ++ '\'' :: (tail ++ paste rest)

def Clean (text : List Char) : Prop := '"' ∉ text ∧ '\\' ∉ text ∧ '\r' ∉ text

instance (text : List Char) : Decidable (Clean text) := inferInstanceAs (Decidable (_ ∧ _))

theorem Clean.append {first rest : List Char} (clean : Clean first) (others : Clean rest) :
    Clean (first ++ rest) := by
  simp only [Clean, List.mem_append, not_or]
  exact ⟨⟨clean.1, others.1⟩, ⟨clean.2.1, others.2.1⟩, clean.2.2, others.2.2⟩

/-- Behind each argument but the last the template opens the next string. -/
inductive Template : Pieces → Prop
  | last (arg : List Char) {tail : List Char} : Clean tail → '\'' ∉ tail → Template [(arg, tail)]
  | more (arg : List Char) {tail : List Char} {rest : Pieces} : Clean tail → Opens tail → Template rest →
    Template ((arg, tail) :: rest)

theorem split_append {α : Type} {xs ys before after : List α} {x : α}
    (same : xs ++ ys = before ++ x :: after) :
    (∃ mid, xs = before ++ x :: mid ∧ after = mid ++ ys) ∨
      ∃ mid, before = xs ++ mid ∧ ys = mid ++ x :: after := by
  rcases List.append_eq_append_iff.mp same with ⟨mid,front,back⟩ | ⟨mid,front,back⟩
  · exact .inr ⟨mid, front, back⟩
  · cases mid with
    | nil => exact .inr ⟨[], by simpa using front.symm, by simpa using back.symm⟩
    | cons y mid =>
      obtain ⟨rfl,rfl⟩ := List.cons.inj back
      exact .inl ⟨mid, front, rfl⟩

section
variable {pieces rest : Pieces} {arg tail before after cs : List Char} {tokens : List Token} {s : String}

theorem Template.longest (template : Template pieces) {n longest : Nat}
    (each : ∀ piece ∈ pieces, (slashRuns piece.1).2 ≤ n) (bound : longest ≤ n) :
    ((paste pieces).foldl slashStep (0, longest)).2 ≤ n := by
  have argument (arg rest : List Char) (longest : Nat) : (arg ++ '\'' :: rest).foldl slashStep (0, longest) =
      rest.foldl slashStep (0, max longest (slashRuns arg).2) := by
    rw [List.foldl_append, List.foldl_cons]
    have whole := foldl_slash arg 0 longest 0
    rw [Nat.max_zero] at whole
    rw [slashStep, if_neg (by decide), whole]
    rfl
  induction template generalizing longest with
  | @last arg tail clean =>
    rw [List.forall_mem_singleton] at each
    rw [paste, paste, List.append_nil, argument, foldl_slash_free clean.2.1]
    exact Nat.max_le.mpr ⟨bound, each⟩
  | @more arg tail rest clean _ _ ih =>
    obtain ⟨first,others⟩ := List.forall_mem_cons.mp each
    rw [paste, argument, List.foldl_append, foldl_slash_free clean.2.1]
    exact ih others (Nat.max_le.mpr ⟨bound, first⟩)

theorem Template.unbroken (template : Template pieces) (each : ∀ piece ∈ pieces, '\r' ∉ piece.1) :
    '\r' ∉ paste pieces := by
  induction template with
  | last arg clean =>
    rw [List.forall_mem_singleton] at each
    simp [paste, each, clean.2.2]
  | more arg clean _ _ ih =>
    obtain ⟨first,others⟩ := List.forall_mem_cons.mp each
    simp [paste, first, clean.2.2, ih others]

theorem split_piece (double : '"' ∉ tail)
    (same : arg ++ '\'' :: (tail ++ paste rest) = before ++ '"' :: after) :
    (∃ mid, arg = before ++ '"' :: mid ∧ after = paste ((mid, tail) :: rest)) ∨
      ∃ mid, before = arg ++ '\'' :: (tail ++ mid) ∧ paste rest = mid ++ '"' :: after := by
  rcases split_append same with inside | ⟨mid,front,back⟩
  · exact .inl inside
  · have shape : ('\'' :: tail) ++ paste rest = mid ++ '"' :: after := back
    rcases split_append shape with ⟨_,fixed,-⟩ | ⟨mid,rfl,behind⟩
    · have member : '"' ∈ '\'' :: tail := by simp [fixed]
      rcases List.mem_cons.mp member with other | inside
      · exact absurd other (by decide)
      · exact absurd inside double
    · exact .inr ⟨mid, by rw [front]; simp, behind⟩

theorem located (template : Template pieces) (same : paste pieces = before ++ '"' :: after) :
    ∃ arg tail rest front mid, (arg, tail) ∈ pieces ∧ rest ⊆ pieces ∧ arg = front ++ '"' :: mid ∧
      after = paste ((mid, tail) :: rest) ∧ Template ((mid, tail) :: rest) := by
  induction template generalizing before with
  | @last arg tail clean single =>
    rcases split_piece clean.1 same with ⟨mid,front,behind⟩ | ⟨mid,-,none⟩
    · exact ⟨arg, tail, [], before, mid, List.mem_cons_self, List.nil_subset _, front, behind,
        .last mid clean single⟩
    · exact absurd none (by simp [paste])
  | @more arg tail rest clean opens template ih =>
    rcases split_piece clean.1 same with ⟨mid,front,behind⟩ | ⟨mid,-,later⟩
    · exact ⟨arg, tail, rest, before, mid, List.mem_cons_self, List.subset_cons_self _ _, front, behind,
        .more mid clean opens template⟩
    · obtain ⟨arg,tail,others,front,mid,member,subset,whole⟩ := ih later
      exact ⟨arg, tail, others, front, mid, List.mem_cons_of_mem _ member,
        List.subset_cons_of_subset _ subset, whole⟩

theorem Bare.front {rest : List Char} (bare : Bare (cs ++ rest)) : Bare cs := fun c member =>
  bare c (List.mem_append_left _ member)

/-- A text from inside of an argument up to a double quote in a later one is aligned, when the
arguments with double quotes are bare and the shorter ones are aligned. -/
theorem aligned_crossing {n : Nat} (template : Template pieces)
    (each : ∀ piece ∈ pieces, ('"' ∈ piece.1 → Bare piece.1) ∧ (piece.1.length < n → Aligned piece.1))
    (same : paste pieces = cs ++ '"' :: after) (bound : cs.length ≤ n) : Aligned cs := by
  have inside {cs arg mid : List Char} (bare : '"' ∈ arg → Bare arg) (shape : arg = cs ++ '"' :: mid) :
      Aligned cs := by
    subst shape
    exact (bare (by simp)).front.aligned
  induction template generalizing cs with
  | @last arg tail clean =>
    rcases split_piece clean.1 same with ⟨mid,shape,-⟩ | ⟨mid,-,none⟩
    · exact inside (each _ List.mem_cons_self).1 shape
    · exact absurd none (by simp [paste])
  | @more arg tail rest clean opens template ih =>
    obtain ⟨first,others⟩ := List.forall_mem_cons.mp each
    rcases split_piece clean.1 same with ⟨mid,shape,-⟩ | ⟨mid,rfl,later⟩
    · exact inside first.1 shape
    · simp only [List.length_append, List.length_cons] at bound
      have front : Aligned arg := first.2 (show arg.length < n by omega)
      exact front.across opens (ih others later (by omega))

/-- When every argument is aligned, no string of the chunk has a single quote. -/
theorem run_aligned (template : Template pieces) (aligned : ∀ piece ∈ pieces, Aligned piece.1)
    {read : List Char} (free : '\'' ∉ read) (ran : scanner.run (.str '\'' read) (paste pieces) = some tokens) :
    Single tokens := by
  induction template generalizing read tokens with
  | @last arg tail clean single =>
    obtain ⟨inside,left,kept,front,runs⟩ := aligned _ List.mem_cons_self read free
    rw [paste, paste, List.append_nil, runs, run_closes, Option.map_map, Option.map_eq_some_iff] at ran
    obtain ⟨behind,ran,rfl⟩ := ran
    refine front.append ((Single.closed kept).append fun s member => ?_)
    -- a string of the last text would have its quotes there
    obtain ⟨quote,_,_,literal,shape⟩ := run_literal clean.2.1 (show Unescaped .code from trivial) ran member
    have inside : quote ∈ tail := by simp [show tail = _ from shape]
    rcases literal.1 with rfl | rfl
    · exact absurd inside clean.1
    · exact absurd inside single
  | @more arg tail rest clean opens template ih =>
    obtain ⟨first,others⟩ := List.forall_mem_cons.mp aligned
    obtain ⟨inside,left,kept,front,runs⟩ := first read free
    obtain ⟨between,single,opened⟩ := opens
    rw [paste, runs, run_closes, opened, Option.map_map, Option.map_map, Option.map_eq_some_iff] at ran
    obtain ⟨behind,ran,rfl⟩ := ran
    exact front.append ((Single.closed kept).append (single.append (ih others List.not_mem_nil ran)))

end

section
variable {pieces : Pieces} {head : List Char} {tokens : List Token} {s : String}

theorem zero_of_halves {α : Type} {f : α → Nat} {xs : List α}
    (halves : ∀ n, (∀ x ∈ xs, f x ≤ n) → ∀ x ∈ xs, 2 * f x ≤ n) : ∀ x ∈ xs, f x = 0 := by
  have bounded : ∃ n, ∀ x ∈ xs, f x ≤ n := by
    clear halves
    induction xs with
    | nil => exact ⟨0, List.forall_mem_nil _⟩
    | cons x xs ih =>
      obtain ⟨n,bound⟩ := ih
      refine ⟨max (f x) n, ?_⟩
      rw [List.forall_mem_cons]
      exact ⟨Nat.le_max_left _ _, fun y member => Nat.le_trans (bound y member) (Nat.le_max_right _ _)⟩
  obtain ⟨n,bound⟩ := bounded
  induction n with
  | zero => exact fun x member => Nat.le_zero.mp (bound x member)
  | succ n ih =>
    refine ih fun x member => ?_
    have half := halves _ bound x member
    omega

/-- The arguments are strings of the first part of a text only without backslashes: a run of
them would have to be written by one of double its length. -/
theorem free_of_strings {cut rest : List Char} (clean : Clean head) (template : Template pieces)
    (shape : head ++ paste pieces = cut ++ rest) (ran : scanner.run .code cut = some tokens)
    (each : ∀ piece ∈ pieces, .str (String.ofList piece.1) ∈ tokens) :
    '\\' ∉ head ++ paste pieces ∧ ∀ piece ∈ pieces, '\\' ∉ piece.1 := by
  have whole (n : Nat) (bound : ∀ piece ∈ pieces, (slashRuns piece.1).2 ≤ n) :
      (slashRuns (head ++ paste pieces)).2 ≤ n := by
    rw [slashRuns, List.foldl_append, foldl_slash_free clean.2.1]
    exact template.longest bound (Nat.zero_le _)
  have none : ∀ piece ∈ pieces, (slashRuns piece.1).2 = 0 := by
    refine zero_of_halves fun n bound piece member => ?_
    have paid := run_paid (show Paid [] .code from trivial) ran (each piece member)
    rw [String.toList_ofList, List.nil_append] at paid
    calc 2 * (slashRuns piece.1).2
        ≤ (slashRuns cut).2 := paid
      _ ≤ (slashRuns (cut ++ rest)).2 := slashRuns_le _ _
      _ = (slashRuns (head ++ paste pieces)).2 := by rw [shape]
      _ ≤ n := whole n bound
  exact ⟨free_of_slashRuns (Nat.le_zero.mp (whole 0 fun piece member => Nat.le_of_eq (none piece member))),
    fun piece member => free_of_slashRuns (none piece member)⟩

/-- Without backslashes in the arguments, all of them are strings of the chunk only when they
are bare. -/
theorem bare_of_free (opens : Opens head) (clean : Clean head) (template : Template pieces)
    (free : '\\' ∉ head ++ paste pieces) (ran : scanner.run .code (head ++ paste pieces) = some tokens)
    (line : ∀ piece ∈ pieces, ∀ c ∈ piece.1, c ≠ '\\' ∧ c ≠ '\n' ∧ c ≠ '\r' ∧ c ≠ '\x00')
    (each : ∀ piece ∈ pieces, .str (String.ofList piece.1) ∈ tokens) :
    ∀ piece ∈ pieces, Bare piece.1 := by
  have bare {piece : List Char × List Char} (member : piece ∈ pieces) (free : '\'' ∉ piece.1) :
      Bare piece.1 := by
    intro c inside
    refine ⟨?_, line piece member c inside⟩
    rintro rfl
    exact free inside
  -- with a single quote it stands between double quotes, and has none itself
  have literal {piece : List Char × List Char} (member : piece ∈ pieces) (quoted : '\'' ∈ piece.1) :
      '"' ∉ piece.1 ∧ ∃ before after, head ++ paste pieces = before ++ '"' :: (piece.1 ++ '"' :: after) := by
    obtain ⟨quote,before,after,⟨either,none,-⟩,shape⟩ :=
      run_literal free (show Unescaped .code from trivial) ran (each piece member)
    rw [String.toList_ofList] at none shape
    rcases either with rfl | rfl
    · exact ⟨none, before, after, shape⟩
    · exact absurd quoted none
  have doubled : ∀ piece ∈ pieces, '"' ∈ piece.1 → Bare piece.1 := fun piece member inside =>
    bare member fun quoted => (literal member quoted).1 inside
  -- the induction is on the length: what a literal goes over is shorter than the argument it spells
  have aligned (n : Nat) : ∀ piece ∈ pieces, piece.1.length < n → Aligned piece.1 := by
    induction n with
    | zero => exact fun _ _ short => absurd short (Nat.not_lt_zero _)
    | succ n ih =>
      intro piece member short
      by_cases quoted : '\'' ∈ piece.1
      · obtain ⟨none,before,after,shape⟩ := literal member quoted
        rcases split_append shape with ⟨_,fixed,-⟩ | ⟨mid,-,pasted⟩
        · exact absurd (by simp [fixed]) clean.1
        obtain ⟨arg,tail,rest,front,back,inside,subset,written,same,template⟩ := located template pasted
        have argBare : Bare (front ++ '"' :: back) := written ▸ doubled _ inside (by simp [written])
        have backBare : Bare back := fun c later => argBare c (by simp [later])
        refine aligned_crossing (n := n) template ?_ same.symm (Nat.le_of_lt_succ short)
        rw [List.forall_mem_cons]
        exact ⟨⟨fun _ => backBare, fun _ => backBare.aligned⟩, fun other others =>
          ⟨doubled other (subset others), ih other (subset others)⟩⟩
      · exact (bare member quoted).aligned
  obtain ⟨first,front,runs⟩ := opens
  rw [runs, Option.map_eq_some_iff] at ran
  obtain ⟨behind,ran,rfl⟩ := ran
  have all := fun piece member => aligned _ piece member (Nat.lt_succ_self piece.1.length)
  have single := front.append (run_aligned template all List.not_mem_nil ran)
  intro piece member
  have none := single _ (each piece member)
  rw [String.toList_ofList] at none
  exact bare member none

/-- All arguments are strings of the chunk, which goes up to the first return, only when they
are bare. -/
theorem bare_of_strings (opens : Opens head) (clean : Clean head) (template : Template pieces)
    (nul : ∀ piece ∈ pieces, '\x00' ∉ piece.1)
    (ran : scanner.run .code ((head ++ paste pieces).takeWhile (· ≠ '\r')) = some tokens)
    (each : ∀ piece ∈ pieces, .str (String.ofList piece.1) ∈ tokens) :
    ∀ piece ∈ pieces, Bare piece.1 := by
  have shape := (List.takeWhile_append_dropWhile (p := (· ≠ '\r')) (l := head ++ paste pieces)).symm
  obtain ⟨free,args⟩ := free_of_strings clean template shape ran each
  have cut : '\\' ∉ (head ++ paste pieces).takeWhile (· ≠ '\r') := fun member =>
    free ((List.takeWhile_prefix _).subset member)
  have unbroken : ∀ piece ∈ pieces, '\n' ∉ piece.1 ∧ '\r' ∉ piece.1 := by
    intro piece member
    obtain ⟨_,_,_,⟨-,-,breaks⟩,-⟩ := run_literal cut (show Unescaped .code from trivial) ran (each piece member)
    rwa [String.toList_ofList] at breaks
  have whole : '\r' ∉ head ++ paste pieces := by
    rw [List.mem_append, not_or]
    exact ⟨clean.2.2, template.unbroken fun piece member => (unbroken piece member).2⟩
  have all : (head ++ paste pieces).takeWhile (· ≠ '\r') = head ++ paste pieces := by
    rw [List.takeWhile_eq_self_iff]
    intro c member
    apply decide_eq_true
    rintro rfl
    exact whole member
  rw [all] at ran
  refine bare_of_free opens clean template free ran (fun piece member c inside => ?_) each
  refine ⟨?_, ?_, ?_, ?_⟩
  · rintro rfl
    exact args piece member inside
  · rintro rfl
    exact (unbroken piece member).1 inside
  · rintro rfl
    exact (unbroken piece member).2 inside
  · rintro rfl
    exact nul piece member inside

end

end PcCourse.PastedText
