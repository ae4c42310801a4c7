import PcCourse.PastedText
import PcCourse.ChunkStrings
import PcCourse.ListRefresh
import PcCourse.RoundTrip
import PcCourse.LineBreaks

/-! Error texts on their way to the client: which of them `ParseAndGetResponse` finds in the
line of `make_response_str`. -/
namespace PcCourse.ErrorTexts

open LuaText LuaChunk ChunkStrings PastedText RemoteRows RoundTrip ByteSearch LineBreaks

def received (text : String) : Option String :=
  (find crLfChars text.toList 0).map fun ind => String.ofList (text.toList.take ind)

def Reaches (lua : Lua) (m : String) : Prop :=
  ∃ message fenv, received (makeResponseStr m ++ "\r\n") = some message ∧
    parseAndGetResponse lua message = some (fenv, m)

/-- A line ends inside a string, nothing ahead of it can be a long bracket, and the text does
not begin as a compiled chunk does. -/
def Unfinished (text : String) : Prop :=
  ∃ before rest inside quote read, text.toList = before ++ '\n' :: rest ∧
    scanner.feed .code before = some (inside, .str quote read) ∧ .sym '[' ∉ inside ∧
    text.toList.head? ≠ some '\x1b'

/-- The first statement assigns a literal to the name, and nothing behind it goes on with the
expression or can refer to the name. -/
def AssignedOnce (text name literal : String) : Prop :=
  ∃ next later, lex text =
      some (.name name :: .sym '=' :: .str literal :: .name next :: later) ∧
    next ≠ "and" ∧ next ≠ "or" ∧
    ∀ t ∈ .name next :: later, t ≠ .name name ∧ t ≠ .name "_ENV" ∧ t ≠ .sym '['

/-- What is relied on of Lua: chunks of data leave their values, a chunk with an unfinished
string is not run, and what a chunk assigns once is what it leaves, if it is run. -/
structure RunsLua (lua : Lua) : Prop where
  data : ∀ text globals, execute text = some globals → lua text = globals
  unfinished : ∀ text, Unfinished text → lua text = []
  once : ∀ text name literal, execute text = none → AssignedOnce text name literal →
    (lua text).lookup name = none ∨ (lua text).lookup name = some (.str literal)

def Decided (text : String) : Prop :=
  execute text ≠ none ∨ Unfinished text ∨ ∃ literal, AssignedOnce text "response" literal

theorem lex_unfinished {text : String} (unfinished : Unfinished text) : lex text = none := by
  obtain ⟨before,rest,inside,quote,read,shape,fed,-⟩ := unfinished
  have quotes := feed_quoted (show Quoted .code from trivial) fed
  have breaks : scanner.step (.str quote read) '\n' = none := by
    rcases quotes with rfl | rfl <;> rfl
  rw [lex, shape, Scanner.run_append fed, Scanner.run, Scanner.feed, breaks]
  rfl

theorem dataLua_runs : RunsLua dataLua where
  data text globals done := by rw [dataLua, done, Option.getD_some]
  unfinished text unfinished := by
    have none : execute text = none := by simp [execute, lex_unfinished unfinished]
    rw [dataLua, none, Option.getD_none]
  once text name literal none _ := by
    rw [dataLua, none, Option.getD_none]
    exact .inl rfl

section
variable {m : String} (line : isLine m = true)
include line

theorem isLine_response : ∀ c ∈ (makeResponseStr m).toList, c ≠ '\r' ∧ c ≠ '\x00' := by
  have inside : ∀ c ∈ m.toList, c ≠ '\r' ∧ c ≠ '\x00' := by
    intro c member
    have := List.all_eq_true.mp line c member
    simp only [Bool.and_eq_true, bne_iff_ne] at this
    exact ⟨this.1.2, this.2⟩
  have around : ∀ c ∈ "response = '".toList ++ "'\n".toList, c ≠ '\r' ∧ c ≠ '\x00' := by simp
  intro c member
  simp only [makeResponseStr, String.toList_append, List.mem_append] at member
  rcases member with (front | text) | back
  · exact around c (List.mem_append_left _ front)
  · exact inside c text
  · exact around c (List.mem_append_right _ back)

theorem received_response : received (makeResponseStr m ++ "\r\n") = some (makeResponseStr m) := by
  have unbroken : ¬Broken (makeResponseStr m).toList :=
    broken_of_not_mem fun member => (isLine_response line _ member).1 rfl
  have alone := breaksAtEnd_iff.mpr unbroken
  have text : (makeResponseStr m ++ "\r\n").toList = (makeResponseStr m).toList ++ crLfChars := by
    rw [String.toList_append]
    rfl
  have found : find crLfChars ((makeResponseStr m).toList ++ crLfChars) 0 =
      some (makeResponseStr m).toList.length := by
    rw [find_eq_some_iff ((alone _).mpr rfl)]
    exact ⟨fun j before _ occurs => Nat.ne_of_lt before ((alone j).mp occurs), Nat.zero_le _⟩
  rw [received, text, found, Option.map_some, List.take_left, String.ofList_toList]

theorem reaches_iff {lua : Lua} :
    Reaches lua m ↔ (lua (makeResponseStr m)).lookup "response" = some (.str m) := by
  have whole : cStr (makeResponseStr m) = makeResponseStr m := by
    have all : (makeResponseStr m).toList.takeWhile (· ≠ '\x00') = (makeResponseStr m).toList :=
      List.takeWhile_eq_self_iff.mpr fun c member => by simpa using (isLine_response line c member).2
    rw [cStr, all, String.ofList_toList]
  simp only [Reaches, received_response line, parse_eq_some, Option.some.injEq]
  constructor
  · rintro ⟨_,_,rfl,found,-⟩
    rwa [whole] at found
  · intro found
    exact ⟨_, _, rfl, by rwa [whole], rfl⟩

theorem plain_of_token {tokens : List Token} (read : lex (makeResponseStr m) = some tokens)
    (member : .str m ∈ tokens) : isPlain m = true := by
  have shape : (makeResponseStr m).toList = "response = '".toList ++ paste [(m.toList, ['\n'])] := by
    simp [makeResponseStr, paste]
  have head : scanner.feed .code "response = '".toList =
      some ([.name "response", .sym '='], .str '\'' []) := rfl
  have unbroken : (makeResponseStr m).toList.takeWhile (· ≠ '\r') = (makeResponseStr m).toList :=
    List.takeWhile_eq_self_iff.mpr fun c inside => by simpa using (isLine_response line c inside).1
  have nul : '\x00' ∉ m.toList := by
    intro inside
    have := List.all_eq_true.mp line _ inside
    simp at this
  rw [lex, ← unbroken, shape] at read
  have bare := bare_of_strings (opens_of_feed head (by simp [Single])) (by decide)
    (.last _ (by decide) (by decide)) (by simpa using nul) read (by simpa using member)
  exact (bare _ List.mem_cons_self).plain

omit line in
theorem execute_response (plain : isPlain m = true) :
    execute (makeResponseStr m) = some [("response", .str m)] := by
  have reads : Reads (makeResponseStr m).toList [.name "response", .sym '=', .str m] := by
    have whole := reads_response plain (reads_of_feed (rfl : scanner.feed .code "".toList = some ([], .code)))
    rwa [String.append_empty] at whole
  have word : "response" ∉ keywords := by decide
  exact execute_of_run reads (run_assignment (evaluates_str m) word [] "") rfl

theorem reaches_iff_plain {lua : Lua} (runs : RunsLua lua) (decided : Decided (makeResponseStr m)) :
    Reaches lua m ↔ isPlain m = true := by
  rw [reaches_iff line]
  constructor
  · intro found
    cases done : execute (makeResponseStr m) with
    | some globals =>
      obtain ⟨tokens,read,strings⟩ := execute_strings done
      rw [runs.data _ _ done] at found
      cases Strings.lookup strings found with
      | str member => exact plain_of_token line read member
    | none =>
      rcases decided with data | unfinished | ⟨literal,once⟩
      · exact absurd done data
      · rw [runs.unfinished _ unfinished] at found
        cases found
      · rcases runs.once _ _ _ done once with left | left
        · rw [left] at found
          cases found
        · cases left.symm.trans found
          obtain ⟨next,later,read,-⟩ := once
          exact plain_of_token line read (by simp)
  · intro plain
    rw [runs.data _ _ (execute_response plain)]
    rfl

end

/-- An error text without quotes and backslashes reaches the client, and what is relied on of
Lua makes no other text reach it: it tells of most of the others that they do not. -/
theorem error_reaches_iff {m : String} (line : isLine m = true) :
    ((∀ lua, RunsLua lua → Reaches lua m) ↔ isPlain m = true) ∧
    ∀ lua, RunsLua lua → Decided (makeResponseStr m) → (Reaches lua m ↔ isPlain m = true) := by
  refine ⟨⟨fun all => ?_, fun plain lua runs => ?_⟩, fun lua runs => reaches_iff_plain line runs⟩
  · have reaches := all dataLua dataLua_runs
    refine (reaches_iff_plain line dataLua_runs (.inl fun none => ?_)).mp reaches
    rw [reaches_iff line, dataLua, none] at reaches
    cases reaches
  · refine (reaches_iff_plain line runs (.inl ?_)).mpr plain
    rw [execute_response plain]
    exact Option.some_ne_none _

theorem signal_reaches : Reaches dataLua (SqlError.message (.signal .notEnoughItems)) :=
  (error_reaches_iff (by decide)).1.mpr (by decide) dataLua dataLua_runs

def syntaxError : String :=
  "You have an error in your SQL syntax; check the manual that corresponds to your MySQL server " ++
    "version for the right syntax to use near 's')' at line 1"

/-- It quotes the text it did not expect, and the chunk is left with an unfinished string. -/
theorem syntax_error_lost :
    isLine syntaxError = true ∧ RunsLua dataLua ∧ ¬Reaches dataLua syntaxError := by
  have line : isLine syntaxError = true := by decide +kernel
  have none : execute (makeResponseStr syntaxError) = none := by decide +kernel
  refine ⟨line, dataLua_runs, fun reaches => ?_⟩
  rw [reaches_iff line, dataLua, none] at reaches
  cases reaches

end PcCourse.ErrorTexts
