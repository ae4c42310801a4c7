import PcCourse.LuaText
import PcCourse.LuaValue
import Mathlib.Data.List.Forall2
import Mathlib.Data.List.Nodup

/-! Execution of a Lua chunk that consists of assignments of data to names: constants,
names, numbers with a sign and table constructors. Anything else, and a hole in the array
part of a table, is not executed. -/
namespace PcCourse.LuaChunk

open LuaText

def keywords : List String :=
  ["and", "break", "do", "else", "elseif", "end", "false", "for", "function", "goto", "if", "in",
    "local", "nil", "not", "or", "repeat", "return", "then", "true", "until", "while"]

def isIdentifier (name : String) : Bool := isName name && !keywords.contains name

/-- A table constructor that is still open, with the key whose value comes next. -/
structure Frame where
  named : LuaFields
  array : List LuaValue
  key : Option String

inductive Expects where
  | statement
  | assignment
  | value
  | negated
  | item
  | fieldName (name : String)
  | separator
  deriving DecidableEq, Repr

structure State where
  globals : LuaFields
  target : String
  stack : List Frame
  expects : Expects

def Frame.add (frame : Frame) (value : LuaValue) : Option Frame :=
  match frame.key, value with
  | some key, value => some ⟨frame.named.set key value, frame.array, none⟩
  | none, .nil => none
  | none, value => some ⟨frame.named, frame.array ++ [value], none⟩

namespace State

/-- The expression is read: it goes to the innermost table, or to the assigned name. -/
def complete (s : State) (value : LuaValue) : Option State :=
  match s.stack with
  | [] => some { s with
      globals := s.globals.set s.target value
      expects := .statement }
  | frame :: outer => (frame.add value).map fun frame => { s with
      stack := frame :: outer
      expects := .separator }

def close (s : State) : Option State :=
  match s.stack with
  | [] => none
  | frame :: outer => complete { s with stack := outer } (.table frame.named frame.array)

def nameValue (s : State) (name : String) : Option LuaValue :=
  if name = "nil" then some .nil
  else if name = "true" then some (.bool true)
  else if name = "false" then some (.bool false)
  else if name ∈ keywords then none
  else some ((s.globals.lookup name).getD .nil)

/-- An integer beyond the range of the integers is read as a float. -/
def numeralValue (text : List Char) : Option LuaValue :=
  match Numeral.digits? text with
  | some n => some (if (n : Int) ≤ int64Max then .int n else .number (.ofInt n))
  | none => (Numeral.decimal? text).map .number

def negate : LuaValue → Option LuaValue
  | .int n => some (.int (-n))
  | .number d => some (.number ⟨-d.mantissa, d.exponent⟩)
  | _ => none

def begin_ (s : State) : Token → Option State
  | .sym '\x7b' => some { s with
      stack := ⟨[], [], none⟩ :: s.stack
      expects := .item }
  | .sym '-' => some { s with expects := .negated }
  | .sym _ => none
  | .str text => s.complete (.str text)
  | .numeral text => (numeralValue text).bind s.complete
  | .name name => (s.nameValue name).bind s.complete

/-- What stands behind a field of a table. -/
def separate (s : State) : Token → Option State
  | .sym ',' | .sym ';' => some { s with expects := .item }
  | .sym '\x7d' => s.close
  | _ => none

def statement (s : State) : Token → Option State
  | .sym ';' => some s
  | .name name => if name ∈ keywords then none else some { s with
      target := name
      expects := .assignment }
  | _ => none

def assignment (s : State) : Token → Option State
  | .sym '=' => some { s with expects := .value }
  | _ => none

def negated (s : State) : Token → Option State
  | .numeral text => (numeralValue text).bind fun value => (negate value).bind s.complete
  | _ => none

def item (s : State) : Token → Option State
  | .sym '\x7d' => s.close
  | .name name =>
    if name ∈ keywords then s.begin_ (.name name) else some { s with expects := .fieldName name }
  | token => s.begin_ token

/-- Behind a name in a table: without an assignment it was an expression. -/
def fieldName (s : State) (name : String) : Token → Option State
  | .sym '=' =>
    match s.stack with
    | [] => none
    | frame :: outer => some { s with
        stack := { frame with key := some name } :: outer
        expects := .value }
  | token => ((s.nameValue name).bind s.complete).bind fun s => s.separate token

def step (s : State) (token : Token) : Option State :=
  match s.expects with
  | .statement => s.statement token
  | .assignment => s.assignment token
  | .value => s.begin_ token
  | .negated => s.negated token
  | .item => s.item token
  | .fieldName name => s.fieldName name token
  | .separator => s.separate token

def run (tokens : List Token) (s : State) : Option State := tokens.foldlM step s

theorem run_cons {token : Token} {rest : List Token} {s next : State}
    (one : s.step token = some next) : run (token :: rest) s = run rest next := by
  rw [run, List.foldlM_cons, one]
  rfl

theorem run_append (first rest : List Token) (s : State) :
    run (first ++ rest) s = (run first s).bind (run rest) := by
  rw [run, List.foldlM_append]
  rfl

theorem run_one {token : Token} {s : State} : run [token] s = s.step token := by
  simp [run]

end State

def execute (text : String) : Option LuaFields := do
  let tokens ← lex text
  let s ← State.run tokens ⟨[], "", [], .statement⟩
  if s.expects = .statement then some s.globals else none

example : execute "x = 2 y = \x7bx, z; k = \x7d" = none := by decide

/-- Wherever an expression may stand, the tokens are read as the value. -/
def Evaluates (tokens : List Token) (value : LuaValue) : Prop :=
  ∀ s : State, s.expects = .value ∨ s.expects = .item → State.run tokens s = s.complete value

theorem evaluates_token {token : Token} {value : LuaValue}
    (first : ∀ s : State, s.begin_ token = s.complete value)
    (item : ∀ s : State, s.item token = s.begin_ token) : Evaluates [token] value := by
  intro s expects
  rw [State.run_one, State.step]
  rcases expects with expects | expects <;> rw [expects]
  · exact first s
  · exact (item s).trans (first s)

theorem evaluates_str (text : String) : Evaluates [.str text] (.str text) :=
  evaluates_token (fun _ => rfl) fun _ => rfl

theorem evaluates_bool (b : Bool) : Evaluates [.name (if b then "true" else "false")] (.bool b) := by
  refine evaluates_token (fun s => ?_) fun s => ?_
  · cases b <;> rfl
  · have keyword : (if b then "true" else "false") ∈ keywords := by cases b <;> decide
    rw [State.item, if_pos keyword]

theorem numeralValue_digits {n : Nat} (range : (n : Int) ≤ int64Max) :
    State.numeralValue (Nat.toDigits 10 n) = some (.int n) := by
  simp [State.numeralValue, range]

theorem evaluates_numeral {text : List Char} {value : LuaValue}
    (read : State.numeralValue text = some value) : Evaluates [.numeral text] value := by
  refine evaluates_token (fun s => ?_) fun _ => rfl
  rw [State.begin_, read, Option.bind_some]

theorem evaluates_minus {text : List Char} {value negative : LuaValue}
    (read : State.numeralValue text = some value) (negated : State.negate value = some negative) :
    Evaluates [.sym '-', .numeral text] negative := by
  intro s expects
  have minus : s.step (.sym '-') = some { s with expects := .negated } := by
    rw [State.step]
    rcases expects with expects | expects <;> rw [expects] <;> rfl
  rw [State.run_cons minus, State.run_one, State.step, State.negated, read, Option.bind_some, negated]
  rfl

theorem evaluates_int {n : Int} (range : -int64Max ≤ n ∧ n ≤ int64Max) :
    Evaluates (intTokens n) (.int n) := by
  have magnitude : (n.natAbs : Int) ≤ int64Max := by omega
  have read := numeralValue_digits magnitude
  unfold intTokens
  split
  next negative =>
    have same : -(n.natAbs : Int) = n := by omega
    exact evaluates_minus read (by rw [State.negate, same])
  next positive =>
    have same : (n.natAbs : Int) = n := by omega
    rw [same] at read
    exact evaluates_numeral read

theorem evaluates_written (n : Int) : ∃ value, value ≠ .nil ∧ Evaluates (intTokens n) value := by
  have read : ∃ value, value ≠ .nil ∧ State.numeralValue (Nat.toDigits 10 n.natAbs) = some value ∧
      ∃ negative, negative ≠ .nil ∧ State.negate value = some negative := by
    simp only [State.numeralValue, Numeral.digits?_toDigits]
    split
    · exact ⟨_, LuaValue.noConfusion, rfl, _, LuaValue.noConfusion, rfl⟩
    · exact ⟨_, LuaValue.noConfusion, rfl, _, LuaValue.noConfusion, rfl⟩
  obtain ⟨value,present,read,negative,present',negated⟩ := read
  unfold intTokens
  split
  · exact ⟨negative, present', evaluates_minus read negated⟩
  · exact ⟨value, present, evaluates_numeral read⟩

/-- A field of a table constructor: the tokens give the value of the key, or the next
element of the array part. -/
def Fills (tokens : List Token) (key : Option String) (value : LuaValue) : Prop :=
  ∀ (s : State) (frame : Frame) (outer : List Frame), s.stack = frame :: outer →
    frame.key = none → s.expects = .item → State.run tokens s =
      State.complete { s with stack := { frame with key } :: outer } value

theorem Evaluates.fills {tokens : List Token} {value : LuaValue}
    (evaluates : Evaluates tokens value) : Fills tokens none value := by
  intro s frame outer stack noKey expects
  rw [evaluates s (.inr expects), ← noKey]
  simp only [State.complete, stack]

theorem Evaluates.fills_named {tokens : List Token} {value : LuaValue}
    (evaluates : Evaluates tokens value) {key : String} (word : key ∉ keywords) :
    Fills (.name key :: .sym '=' :: tokens) (some key) value := by
  intro s frame outer stack _ expects
  have named : s.step (.name key) = some { s with expects := .fieldName key } := by
    rw [State.step, expects]
    exact if_neg word
  have equals : State.step { s with expects := .fieldName key } (.sym '=') =
      some { s with
        stack := { frame with key := some key } :: outer
        expects := .value } := by
    simp only [State.step, State.fieldName, stack]
  rw [State.run_cons named, State.run_cons equals]
  exact evaluates _ (.inl rfl)

theorem Frame.add_key {frame after : Frame} {value : LuaValue} (added : frame.add value = some after) :
    after.key = none := by
  unfold Frame.add at added
  split at added <;> cases added <;> rfl

/-- The fields of a constructor, in the order they are written. -/
def Frame.fill (frame : Frame) (sources : List (Option String × LuaValue)) : Option Frame :=
  sources.foldlM (fun frame source => Frame.add { frame with key := source.1 } source.2) frame

theorem Frame.fill_cons (frame : Frame) (source : Option String × LuaValue)
    (sources : List (Option String × LuaValue)) :
    frame.fill (source :: sources) =
      (Frame.add { frame with key := source.1 } source.2).bind (Frame.fill · sources) := by
  rw [Frame.fill, List.foldlM_cons]
  rfl

/-- A separated list behind its first part: its end, or a separator and the rest. -/
theorem intercalate_append {α : Type} (mark : α) (first : List α) (rest : List (List α))
    (tail : List α) : [mark].intercalate (first :: rest) ++ tail = first ++
      ((match rest with
        | [] => []
        | second :: more => mark :: [mark].intercalate (second :: more)) ++ tail) := by
  cases rest with
  | nil => rw [List.intercalate_singleton, List.nil_append]
  | cons second more => simp [List.intercalate_cons_cons]

/-- The rest of a constructor, from a field on. The induction is on the fields. -/
theorem run_fields {sources : List (Option String × LuaValue)} {tokens : List (List Token)}
    (each : List.Forall₂ (fun source tokens => Fills tokens source.1 source.2) sources tokens)
    (s : State) (frame : Frame) (outer : List Frame) (stack : s.stack = frame :: outer)
    (noKey : frame.key = none) (expects : s.expects = .item) :
    State.run ([.sym ','].intercalate tokens ++ [.sym '\x7d']) s =
      (frame.fill sources).bind fun frame =>
        State.complete { s with stack := outer } (.table frame.named frame.array) := by
  induction each generalizing s frame with
  | nil =>
    have close : s.step (.sym '\x7d') = s.close := by
      rw [State.step, expects]
      rfl
    rw [List.intercalate_nil, List.nil_append, State.run_one, close]
    simp only [State.close, stack, Frame.fill, List.foldlM_nil]
    rfl
  | @cons source first sources tokens fills others ih =>
    have field := fills s frame outer stack noKey expects
    rw [Frame.fill_cons]
    cases added : Frame.add { frame with key := source.1 } source.2 with
    | none =>
      have stops : State.run first s = none := by
        simp only [field, State.complete, added, Option.map_none]
      rw [intercalate_append, State.run_append, stops]
      rfl
    | some next =>
      have runs : State.run first s = some { s with
          stack := next :: outer
          expects := .separator } := by
        simp only [field, State.complete, added, Option.map_some]
      rw [intercalate_append, State.run_append, runs, Option.bind_some, Option.bind_some]
      cases others with
      | nil =>
        rw [List.nil_append, State.run_one]
        rfl
      | cons second others =>
        have comma : State.step { s with
            stack := next :: outer
            expects := .separator } (.sym ',') = some { s with
              stack := next :: outer
              expects := .item } := rfl
        rw [List.cons_append, State.run_cons comma]
        exact ih _ next rfl (Frame.add_key added) rfl

theorem evaluates_table {sources : List (Option String × LuaValue)} {tokens : List (List Token)}
    (each : List.Forall₂ (fun source tokens => Fills tokens source.1 source.2) sources tokens)
    {frame : Frame} (filled : Frame.fill ⟨[], [], none⟩ sources = some frame) :
    Evaluates (.sym '\x7b' :: ([.sym ','].intercalate tokens ++ [.sym '\x7d']))
      (.table frame.named frame.array) := by
  intro s expects
  have opens : s.step (.sym '\x7b') = some { s with
      stack := ⟨[], [], none⟩ :: s.stack
      expects := .item } := by
    rw [State.step]
    rcases expects with expects | expects <;> rw [expects] <;> rfl
  rw [State.run_cons opens, run_fields each _ ⟨[], [], none⟩ s.stack rfl rfl rfl, filled]
  rfl

theorem run_assignment {tokens : List Token} {value : LuaValue} (evaluates : Evaluates tokens value)
    {name : String} (word : name ∉ keywords) (globals : LuaFields) (target : String) :
    State.run (.name name :: .sym '=' :: tokens) ⟨globals, target, [], .statement⟩ =
      some ⟨globals.set name value, name, [], .statement⟩ := by
  have named : State.step ⟨globals, target, [], .statement⟩ (.name name) =
      some ⟨globals, name, [], .assignment⟩ := if_neg word
  have equals : State.step ⟨globals, name, [], .assignment⟩ (.sym '=') =
      some ⟨globals, name, [], .value⟩ := rfl
  rw [State.run_cons named, State.run_cons equals, evaluates _ (.inl rfl)]
  rfl

/-- Fields under distinct new keys are kept in the order they are written. -/
theorem fill_named (fields : LuaFields) (rest : List (Option String × LuaValue)) (before : LuaFields)
    (distinct : ((before ++ fields).map Prod.fst).Nodup) (some_ : ∀ field ∈ fields, field.2 ≠ .nil) :
    Frame.fill ⟨before, [], none⟩ (fields.map (fun field => (some field.1, field.2)) ++ rest) =
      Frame.fill ⟨before ++ fields, [], none⟩ rest := by
  induction fields generalizing before with
  | nil => simp
  | cons field fields ih =>
    obtain ⟨key,value⟩ := field
    have fresh : before.any (fun other => other.1 = key) = false := by
      rw [List.map_append, List.map_cons, List.nodup_middle, List.nodup_cons] at distinct
      rw [List.any_eq_false]
      intro other member same
      refine distinct.1 (List.mem_append_left _ ?_)
      exact List.mem_map.mpr ⟨other, member, of_decide_eq_true same⟩
    have set : before.set key value = before ++ [(key, value)] := by
      have present := some_ _ List.mem_cons_self
      unfold LuaFields.set
      split
      · exact absurd rfl present
      · simp [fresh]
    have add : Frame.add ⟨before, [], some key⟩ value =
        some ⟨before ++ [(key, value)], [], none⟩ := by
      simp only [Frame.add, set]
    rw [List.map_cons, List.cons_append, Frame.fill_cons, add, Option.bind_some,
      ih (before ++ [(key, value)]) (by simpa using distinct)
        fun other member => some_ other (List.mem_cons_of_mem _ member)]
    simp

theorem fill_array (values : List LuaValue) (named : LuaFields) (before : List LuaValue)
    (some_ : ∀ value ∈ values, value ≠ .nil) :
    Frame.fill ⟨named, before, none⟩ (values.map (none, ·)) =
      some ⟨named, before ++ values, none⟩ := by
  induction values generalizing before with
  | nil => simp [Frame.fill]
  | cons value values ih =>
    have add : Frame.add ⟨named, before, none⟩ value = some ⟨named, before ++ [value], none⟩ := by
      have present := some_ value List.mem_cons_self
      unfold Frame.add
      split
      · contradiction
      · exact absurd rfl present
      · rfl
    rw [List.map_cons, Frame.fill_cons, add, Option.bind_some,
      ih (before ++ [value]) fun other member => some_ other (List.mem_cons_of_mem _ member)]
    simp

end PcCourse.LuaChunk
