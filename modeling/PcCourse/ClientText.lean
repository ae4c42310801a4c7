import PcCourse.ClientRequests
import PcCourse.ErrorTexts

/-! The strings of a request on their way to the server: which of them the handler finds in
the fields they are pasted into. -/
namespace PcCourse.ClientRequests

open LuaText LuaChunk ChunkStrings PastedText
open RemoteRows (Lua dataLua)
open SqlCall (quoted)
open ErrorTexts (RunsLua dataLua_runs)

def userFields (usr : UserLogin) : List (List String × String) :=
  [(["user", "login"], usr.login), (["user", "password"], usr.password), (["user", "rank"], usr.rank)]

/-- The strings of a request with the paths of their fields. -/
def Request.stringFields : Request → List (List String × String)
  | .auth usr | .getUsers usr | .getCustomers usr | .getItems usr | .deleteCustomer usr _ => userFields usr
  | .createUser usr login password sname name pname _ => userFields usr ++
    [(["new_user", "login"], login), (["new_user", "password"], password),
      (["new_user", "sname"], sname), (["new_user", "name"], name), (["new_user", "pname"], pname)]
  | .deleteUser usr login => userFields usr ++ [(["delete_user_login"], login)]
  | .createCustomer usr _ sname name pname => userFields usr ++
    [(["new_customer", "sname"], sname), (["new_customer", "name"], name),
      (["new_customer", "pname"], pname)]
  | .createItem usr name _ _ _ _ description => userFields usr ++
    [(["new_item", "name"], name), (["new_item", "description"], description)]

def fieldAt (config : LuaValue) (path : List String) : Option LuaValue :=
  path.foldlM (fun ref key => ref.getRawRef key) config

def Request.Found (r : Request) (globals : LuaFields) : Prop :=
  globals.lookup "request" = some (.str r.builder.operation) ∧
  ∀ field ∈ r.stringFields, fieldAt (.table globals []) field.1 = some (.str field.2)

/-- The server runs what it cuts from the text, and finds the operation and the strings. -/
def Request.Carried (lua : Lua) (r : Request) : Prop := r.Found (lua (cutRequest r.text))

def isEscape (c : Char) : Bool := c.isDigit || "abfnrtvxzu\\\"'\n\r".toList.contains c

def stuck : Mode → List Char → Bool
  | .str _ _, [] | .escape _ _, [] => true
  | .str _ _, c :: _ => c == '\n'
  | .escape _ _, c :: _ => !isEscape c
  | _, _ => false

/-- A text that is no chunk: a string in it goes wrong, nothing ahead of it can be a long
bracket, and the text does not begin as a compiled chunk does. -/
def Malformed (text : String) : Prop :=
  ∃ before rest inside mode, text.toList = before ++ rest ∧
    scanner.feed .code before = some (inside, mode) ∧ stuck mode rest = true ∧ .sym '[' ∉ inside ∧
    text.toList.head? ≠ some '\x1b'

/-- What is relied on of Lua for requests. -/
structure ReadsLua (lua : Lua) : Prop extends RunsLua lua where
  malformed : ∀ text, Malformed text → lua text = []

/-- What is relied on of Lua tells what becomes of this request. -/
def Known (text : String) : Prop := execute text ≠ none ∨ Malformed text

theorem unescape_of_stuck {c : Char} (other : isEscape c = false) : unescape c = none := by
  unfold unescape
  split
  case h_12 => rfl
  all_goals exact absurd other (by decide)

theorem lex_malformed {text : String} (malformed : Malformed text) : lex text = none := by
  obtain ⟨before,rest,inside,mode,shape,fed,stops,-⟩ := malformed
  have stands : scanner.run mode rest = none := by
    have quotes := feed_quoted (show Quoted .code from trivial) fed
    cases mode with
    | str quote read =>
      cases rest with
      | nil => rfl
      | cons c cs =>
        cases (beq_iff_eq.mp stops : c = '\n')
        have breaks : scanner.step (.str quote read) '\n' = none := by
          rcases quotes with rfl | rfl <;> rfl
        rw [Scanner.run, Scanner.feed, breaks]
    | escape quote read =>
      cases rest with
      | nil => rfl
      | cons c cs =>
        have other : isEscape c = false := by simpa [stuck] using stops
        have breaks : scanner.step (.escape quote read) c = none := by
          by_cases nul : c = '\x00'
          · simp [step, nul, finish]
          · simp [step, nul, unescape_of_stuck other]
        rw [Scanner.run, Scanner.feed, breaks]
    | _ => simp [stuck] at stops
  rw [lex, shape, Scanner.run_append fed, stands]
  rfl

theorem dataLua_reads : ReadsLua dataLua where
  toRunsLua := dataLua_runs
  malformed text malformed := by
    have none : execute text = none := by simp [execute, lex_malformed malformed]
    rw [dataLua, none, Option.getD_none]

theorem map_stringFields (r : Request) : r.stringFields.map Prod.snd = r.strings := by
  cases r <;> rfl

section
variable {usr : UserLogin} {r : Request}

theorem userFields_at (operation : String) (rest : LuaFields) : ∀ field ∈ userFields usr,
    fieldAt (.table (headFields operation usr ++ rest) []) field.1 = some (.str field.2) := by
  simp only [userFields, List.forall_mem_cons]
  exact ⟨rfl, rfl, rfl, List.forall_mem_nil _⟩

theorem found_of_head {word operation : String} (body : r.body = word ++ userText usr)
    (plain : ∀ s ∈ [usr.login, usr.password, usr.rank], isPlain s = true)
    (fixed : Fixed word [.name "request", .sym '=', .str operation])
    (named : r.builder.operation = operation) (fields : r.stringFields = userFields usr) :
    ∃ globals, execute (cutRequest r.text) = some globals ∧ r.Found globals := by
  subst named
  refine ⟨_, executes_of_part (part_head body plain fixed) (show State.run [] _ = _ from rfl), rfl, ?_⟩
  rw [fields]
  exact userFields_at _ _

/-- A request of plain strings is read with its strings, whatever its numbers are. -/
theorem found_of_plain (other : r.builder ≠ .deleteCustomer ∧ r.builder ≠ .createItem)
    (plain : ∀ s ∈ r.strings, isPlain s = true) :
    ∃ globals, execute (cutRequest r.text) = some globals ∧ r.Found globals := by
  have auth : Fixed "request = 'auth' " [.name "request", .sym '=', .str "auth"] := by
    decide
  have getUsers : Fixed "request = 'get_users' "
      [.name "request", .sym '=', .str "get_users"] := by decide
  have getCustomers : Fixed "request = 'get_customers' "
      [.name "request", .sym '=', .str "get_customers"] := by decide
  have getItems : Fixed "request = 'get_items' "
      [.name "request", .sym '=', .str "get_items"] := by decide
  cases r with
  | auth usr => exact found_of_head rfl plain auth rfl rfl
  | getUsers usr => exact found_of_head rfl plain getUsers rfl rfl
  | getCustomers usr => exact found_of_head rfl plain getCustomers rfl rfl
  | getItems usr => exact found_of_head rfl plain getItems rfl rfl
  | createUser usr login password sname name pname rankId =>
    obtain ⟨rank,present,evaluates⟩ := evaluates_written rankId
    have each := gives_user login password sname name pname evaluates present
    have word : "new_user" ∉ keywords := by decide
    refine ⟨_, executes_of_part (part_createUser plain) (run_table word (by decide) each (by simp) _),
      rfl, ?_⟩
    rw [Request.stringFields, List.forall_mem_append]
    refine ⟨userFields_at _ _, ?_⟩
    simp only [List.forall_mem_cons]
    exact ⟨rfl, rfl, rfl, rfl, rfl, List.forall_mem_nil _⟩
  | deleteUser usr login =>
    have word : "delete_user_login" ∉ keywords := by decide
    refine ⟨_, executes_of_part (part_deleteUser plain) (run_assignment (evaluates_str login) word _ _),
      rfl, ?_⟩
    rw [Request.stringFields, List.forall_mem_append, List.forall_mem_singleton]
    exact ⟨userFields_at _ _, rfl⟩
  | createCustomer usr telNumber sname name pname =>
    obtain ⟨telephone,present,evaluates⟩ := evaluates_written telNumber
    have positive : ¬((telNumber : Int) < 0) := by omega
    rw [intTokens, if_neg positive, Int.natAbs_natCast] at evaluates
    have each := gives_customer sname name pname evaluates present
    have word : "new_customer" ∉ keywords := by decide
    refine ⟨_, executes_of_part (part_createCustomer plain) (run_table word (by decide) each (by simp) _),
      rfl, ?_⟩
    rw [Request.stringFields, List.forall_mem_append]
    refine ⟨userFields_at _ _, ?_⟩
    simp only [List.forall_mem_cons]
    exact ⟨rfl, rfl, rfl, List.forall_mem_nil _⟩
  | deleteCustomer => exact absurd rfl other.1
  | createItem => exact absurd rfl other.2

structure Pasted (r : Request) (head : List Char) (pieces : Pieces) : Prop where
  body : r.body.toList = head ++ paste pieces
  args : pieces.map Prod.fst = r.strings.map String.toList
  opens : Opens head
  clean : Clean head
  template : Template pieces

def opening (text : String) : List Char := (text ++ "'").toList

abbrev Between (text : String) (tokens : List Token) : Prop :=
  scanner.feed .code (opening text) = some (tokens, .str '\'' []) ∧ Clean (opening text)

theorem Between.more {tail : String} {tokens : List Token} {rest : Pieces} (between : Between tail tokens)
    (single : Single tokens) (template : Template rest) (arg : List Char) :
    Template ((arg, opening tail) :: rest) :=
  .more arg between.2 (opens_of_feed between.1 single) template

def userPieces (usr : UserLogin) (tail : List Char) (rest : Pieces) : Pieces :=
  (usr.login.toList, opening ",\tpassword = ") :: (usr.password.toList, opening ",\trank = ") ::
    (usr.rank.toList, tail) :: rest

theorem template_user {tail : List Char} {rest : Pieces} (template : Template ((usr.rank.toList, tail) :: rest)) :
    Template (userPieces usr tail rest) := by
  have password : Between ",\tpassword = " [.sym ',', .name "password", .sym '='] := by decide
  have rank : Between ",\trank = " [.sym ',', .name "rank", .sym '='] := by decide
  exact password.more (by simp [Single]) (rank.more (by simp [Single]) template _) _

theorem toList_quoted (s : String) (rest : List Char) :
    (quoted s).toList ++ rest = '\'' :: (s.toList ++ '\'' :: rest) := by
  simp [quoted]

theorem append_opening (text : String) (rest : List Char) :
    opening text ++ rest = text.toList ++ '\'' :: rest := by
  simp [opening]

theorem paste_user (tail : List Char) (rest : Pieces) :
    opening "user = \x7b\tlogin = " ++ paste (userPieces usr tail rest) =
      "user = \x7b\tlogin = ".toList ++ ((quoted usr.login).toList ++ (",\tpassword = ".toList ++
        ((quoted usr.password).toList ++ (",\trank = ".toList ++ ((quoted usr.rank).toList ++
          (tail ++ paste rest)))))) := by
  simp only [userPieces, paste, append_opening, toList_quoted]

theorem append_user (usr : UserLogin) (text : List Char) : (userText usr).toList ++ text =
    "user = \x7b\tlogin = ".toList ++ ((quoted usr.login).toList ++ (",\tpassword = ".toList ++
      ((quoted usr.password).toList ++ (",\trank = ".toList ++ ((quoted usr.rank).toList ++
        ("\x7d".toList ++ text)))))) :=
  toList_pieces [quoted usr.login, ",\tpassword = ", quoted usr.password, ",\trank = ",
    quoted usr.rank, "\x7d"] _ _

theorem pasted_of {word operation : String} {tail : List Char} {rest : Pieces}
    (fixed : Fixed word [.name "request", .sym '=', .str operation]) (clean : Clean word.toList)
    (single : '\'' ∉ operation.toList)
    (body : r.body.toList = word.toList ++ (opening "user = \x7b\tlogin = " ++ paste (userPieces usr tail rest)))
    (args : (userPieces usr tail rest).map Prod.fst = r.strings.map String.toList)
    (template : Template ((usr.rank.toList, tail) :: rest)) : ∃ head pieces, Pasted r head pieces := by
  have login : Between "user = \x7b\tlogin = "
      [.name "user", .sym '=', .sym '\x7b', .name "login", .sym '='] := by decide
  have front : Single [.name "request", .sym '=', .str operation] := by simpa [Single] using single
  exact ⟨word.toList ++ opening "user = \x7b\tlogin = ", userPieces usr tail rest, {
    body := by rw [body, List.append_assoc]
    args
    opens := (opens_of_feed login.1 (by simp [Single])).after fixed.1 front
    clean := clean.append login.2
    template := template_user template }⟩

theorem pasted_head {word operation : String} (body : r.body = word ++ userText usr)
    (strings : r.strings = [usr.login, usr.password, usr.rank])
    (fixed : Fixed word [.name "request", .sym '=', .str operation]) (clean : Clean word.toList)
    (single : '\'' ∉ operation.toList) : ∃ head pieces, Pasted r head pieces := by
  have text : r.body.toList = word.toList ++ (opening "user = \x7b\tlogin = " ++
      paste (userPieces usr "\x7d".toList [])) := by
    rw [paste_user, paste, ← append_user, body]
    exact body_pieces [userText usr] word rfl
  refine pasted_of fixed clean single text ?_ (.last _ (by decide) (by decide))
  rw [strings]
  rfl

theorem clean_digits (n : Nat) : Clean (Nat.toDigits 10 n) ∧ '\'' ∉ Nat.toDigits 10 n := by
  have other {c : Char} (no : c.isDigit = false) : c ∉ Nat.toDigits 10 n := fun member => by
    rw [Numeral.isDigit_of_mem member] at no
    cases no
  exact ⟨⟨other (by decide), other (by decide), other (by decide)⟩, other (by decide)⟩

theorem pasted_deleteUser (usr : UserLogin) (login : String) :
    ∃ head pieces, Pasted (.deleteUser usr login) head pieces := by
  have fixed : Fixed "request = 'delete_user' "
      [.name "request", .sym '=', .str "delete_user"] := by decide
  have target : Between "delete_user_login = " [.name "delete_user_login", .sym '='] := by decide
  have text : (Request.deleteUser usr login).body.toList = "request = 'delete_user' ".toList ++
      (opening "user = \x7b\tlogin = " ++ paste (userPieces usr ("\x7d".toList ++
        opening "delete_user_login = ") [(login.toList, [])])) := by
    rw [paste_user, List.append_assoc, ← append_user, append_opening, paste, paste, List.append_nil,
      ← toList_quoted]
    exact body_pieces [userText usr, "delete_user_login = ", quoted login] _ rfl
  have opens := (opens_of_feed target.1 (by simp [Single])).after
    (show scanner.feed .code "\x7d".toList = some ([.sym '\x7d'], .code) by decide) (by simp [Single])
  have clean : Clean "\x7d".toList := by decide
  exact pasted_of fixed (by decide) (by decide) text rfl
    (.more _ (clean.append target.2) opens (.last _ (by decide) List.not_mem_nil))

theorem pasted_createCustomer (usr : UserLogin) (telNumber : Nat) (sname name pname : String) :
    ∃ head pieces, Pasted (.createCustomer usr telNumber sname name pname) head pieces := by
  have fixed : Fixed "request = 'create_customer' "
      [.name "request", .sym '=', .str "create_customer"] := by decide
  have bracket : scanner.feed .code "\x7d".toList = some ([.sym '\x7d'], .code) := by decide
  have telephone : scanner.feed .code "new_customer = \x7b\ttelephone = ".toList =
      some ([.name "new_customer", .sym '=', .sym '\x7b', .name "telephone", .sym '='], .code) := by
    decide
  have second : Between ",\tsname = " [.sym ',', .name "sname", .sym '='] := by decide
  have third : Between ",\tname = " [.sym ',', .name "name", .sym '='] := by decide
  have fourth : Between ",\tpname = " [.sym ',', .name "pname", .sym '='] := by decide
  let tail := "\x7d".toList ++ ("new_customer = \x7b\ttelephone = ".toList ++
    ((toString telNumber).toList ++ opening ",\tsname = "))
  have text : (Request.createCustomer usr telNumber sname name pname).body.toList =
      "request = 'create_customer' ".toList ++ (opening "user = \x7b\tlogin = " ++
        paste (userPieces usr tail [(sname.toList, opening ",\tname = "),
          (name.toList, opening ",\tpname = "), (pname.toList, "\x7d".toList)])) := by
    rw [paste_user]
    simp only [tail, List.append_assoc, ← append_user, append_opening, paste, List.append_nil,
      ← toList_quoted]
    exact body_pieces [userText usr, "new_customer = \x7b\ttelephone = ", toString telNumber,
      ",\tsname = ", quoted sname, ",\tname = ", quoted name, ",\tpname = ", quoted pname, "\x7d"] _ rfl
  have digits : (toString telNumber).toList = Nat.toDigits 10 telNumber := by simp [Nat.repr]
  have apart : ∀ rest, Apart (opening ",\tsname = " ++ rest) := fun rest => by
    rw [append_opening]
    exact starts_of_opens (by decide) _
  have opens : Opens tail := by
    have number := (opens_of_feed second.1 (by simp [Single])).behind (part_nat telNumber).reads
      (by simp [Single]) apart
    exact (number.after telephone (by simp [Single])).after bracket (by simp [Single])
  have clean : Clean tail := by
    have number : Clean (toString telNumber).toList := by
      rw [digits]
      exact (clean_digits telNumber).1
    have front : Clean "\x7d".toList ∧ Clean "new_customer = \x7b\ttelephone = ".toList := by decide
    exact front.1.append (front.2.append (number.append second.2))
  refine pasted_of fixed (by decide) (by decide) text rfl (.more _ clean opens ?_)
  exact third.more (by simp [Single]) (fourth.more (by simp [Single])
    (.last _ (by decide) (by decide)) _) _

theorem pasted_createUser (usr : UserLogin) (login password sname name pname : String) (rankId : Int) :
    ∃ head pieces, Pasted (.createUser usr login password sname name pname rankId) head pieces := by
  have fixed : Fixed "request = 'create_user' "
      [.name "request", .sym '=', .str "create_user"] := by decide
  have bracket : scanner.feed .code "\x7d".toList = some ([.sym '\x7d'], .code) := by decide
  have first : Between "new_user = \x7b\tlogin = "
      [.name "new_user", .sym '=', .sym '\x7b', .name "login", .sym '='] := by decide
  have second : Between ",\tpassword = " [.sym ',', .name "password", .sym '='] := by decide
  have third : Between ",\tsname = " [.sym ',', .name "sname", .sym '='] := by decide
  have fourth : Between ",\tname = " [.sym ',', .name "name", .sym '='] := by decide
  have fifth : Between ",\tpname = " [.sym ',', .name "pname", .sym '='] := by decide
  let tail := "\x7d".toList ++ opening "new_user = \x7b\tlogin = "
  let last := ",\trank = ".toList ++ ((toString rankId).toList ++ "\x7d".toList)
  have text : (Request.createUser usr login password sname name pname rankId).body.toList =
      "request = 'create_user' ".toList ++ (opening "user = \x7b\tlogin = " ++
        paste (userPieces usr tail [(login.toList, opening ",\tpassword = "),
          (password.toList, opening ",\tsname = "), (sname.toList, opening ",\tname = "),
          (name.toList, opening ",\tpname = "), (pname.toList, last)])) := by
    rw [paste_user]
    simp only [tail, last, List.append_assoc, ← append_user, append_opening, paste, List.append_nil,
      ← toList_quoted]
    exact body_pieces [userText usr, "new_user = \x7b\tlogin = ", quoted login, ",\tpassword = ",
      quoted password, ",\tsname = ", quoted sname, ",\tname = ", quoted name, ",\tpname = ",
      quoted pname, ",\trank = ", toString rankId, "\x7d"] _ rfl
  have opens : Opens tail := (opens_of_feed first.1 (by simp [Single])).after bracket (by simp [Single])
  have clean : Clean tail := Clean.append (by decide) first.2
  have digits : Clean (toString rankId).toList ∧ '\'' ∉ (toString rankId).toList := by
    rw [Numeral.toList_toString, Numeral.ofInt, Decimal.sign]
    split
    · exact ⟨Clean.append (by decide) (clean_digits _).1, by simp [(clean_digits rankId.natAbs).2]⟩
    · exact clean_digits _
  have ends : Clean last ∧ '\'' ∉ last := by
    have front : Clean ",\trank = ".toList ∧ '\'' ∉ ",\trank = ".toList := by decide
    have back : Clean "\x7d".toList ∧ '\'' ∉ "\x7d".toList := by decide
    refine ⟨front.1.append (digits.1.append back.1), ?_⟩
    rw [List.mem_append, List.mem_append, not_or, not_or]
    exact ⟨front.2, digits.2, back.2⟩
  refine pasted_of fixed (by decide) (by decide) text rfl (.more _ clean opens ?_)
  exact second.more (by simp [Single]) (third.more (by simp [Single]) (fourth.more (by simp [Single])
    (fifth.more (by simp [Single]) (.last _ ends.1 ends.2) _) _) _) _

theorem exists_pasted (other : r.builder ≠ .deleteCustomer ∧ r.builder ≠ .createItem) :
    ∃ head pieces, Pasted r head pieces := by
  have auth : Fixed "request = 'auth' " [.name "request", .sym '=', .str "auth"] := by
    decide
  have getUsers : Fixed "request = 'get_users' "
      [.name "request", .sym '=', .str "get_users"] := by decide
  have getCustomers : Fixed "request = 'get_customers' "
      [.name "request", .sym '=', .str "get_customers"] := by decide
  have getItems : Fixed "request = 'get_items' "
      [.name "request", .sym '=', .str "get_items"] := by decide
  cases r with
  | auth => exact pasted_head rfl rfl auth (by decide) (by decide)
  | getUsers => exact pasted_head rfl rfl getUsers (by decide) (by decide)
  | getCustomers => exact pasted_head rfl rfl getCustomers (by decide) (by decide)
  | getItems => exact pasted_head rfl rfl getItems (by decide) (by decide)
  | createUser => exact pasted_createUser ..
  | deleteUser => exact pasted_deleteUser ..
  | createCustomer => exact pasted_createCustomer ..
  | deleteCustomer => exact absurd rfl other.1
  | createItem => exact absurd rfl other.2

theorem strings_fieldAt {p : String → Prop} {ref value : LuaValue} {path : List String}
    (strings : Strings p ref) (found : fieldAt ref path = some value) : Strings p value := by
  induction path generalizing ref with
  | nil =>
    cases found
    exact strings
  | cons key path ih =>
    rw [fieldAt, List.foldlM_cons] at found
    obtain ⟨middle,read,found⟩ := Option.bind_eq_some_iff.mp found
    exact ih (strings.getRawRef read) found

theorem token_of_found {globals : LuaFields} {tokens : List Token} (found : r.Found globals)
    (strings : ∀ field ∈ globals, Strings (fun t => .str t ∈ tokens) field.2) :
    ∀ s ∈ r.strings, .str s ∈ tokens := by
  intro s member
  rw [← map_stringFields] at member
  obtain ⟨field,inside,rfl⟩ := List.mem_map.mp member
  have table : Strings (fun t => .str t ∈ tokens) (.table globals []) :=
    .table strings (List.forall_mem_nil _)
  cases strings_fieldAt table (found.2 field inside) with
  | str member => exact member

theorem takeWhile_ended (cs : List Char) :
    (cs ++ "\r\n".toList).takeWhile (· ≠ '\r') = cs.takeWhile (· ≠ '\r') := by
  induction cs with
  | nil => rfl
  | cons c cs ih => rw [List.cons_append, List.takeWhile_cons, List.takeWhile_cons, ih]

/-- Strings that all arrive are plain. -/
theorem Pasted.plain_of_found {head : List Char} {pieces : Pieces} {globals : LuaFields}
    (pasted : Pasted r head pieces) (nul : ∀ s ∈ r.strings, '\x00' ∉ s.toList)
    (done : execute (cutRequest r.text) = some globals) (found : r.Found globals) :
    ∀ s ∈ r.strings, isPlain s = true := by
  obtain ⟨tokens,read,strings⟩ := execute_strings done
  have each := token_of_found found strings
  have argument : ∀ piece ∈ pieces, ∃ s ∈ r.strings, s.toList = piece.1 := by
    intro piece member
    have inside : piece.1 ∈ r.strings.map String.toList := pasted.args ▸ List.mem_map_of_mem member
    exact List.mem_map.mp inside
  have ran : scanner.run .code ((head ++ paste pieces).takeWhile (· ≠ '\r')) = some tokens := by
    rwa [lex, cutRequest, String.toList_ofList, Request.text, String.toList_append, takeWhile_ended,
      pasted.body] at read
  have bare := bare_of_strings pasted.opens pasted.clean pasted.template (fun piece member => ?_) ran
    fun piece member => ?_
  · intro s member
    have inside : s.toList ∈ pieces.map Prod.fst := pasted.args ▸ List.mem_map_of_mem member
    obtain ⟨piece,among,same⟩ := List.mem_map.mp inside
    exact (same ▸ bare piece among : Bare s.toList).plain
  · obtain ⟨s,inside,same⟩ := argument piece member
    exact same ▸ nul s inside
  · obtain ⟨s,inside,same⟩ := argument piece member
    rw [← same, String.ofList_toList]
    exact each s inside

/-- Where Lua is known to run the chunk or not, the strings arrive exactly when they are plain. -/
theorem carried_iff_plain {lua : Lua} (reads : ReadsLua lua) (known : Known (cutRequest r.text))
    (other : r.builder ≠ .deleteCustomer ∧ r.builder ≠ .createItem)
    (nul : ∀ s ∈ r.strings, '\x00' ∉ s.toList) :
    r.Carried lua ↔ ∀ s ∈ r.strings, isPlain s = true := by
  unfold Request.Carried
  constructor
  · intro carried
    cases done : execute (cutRequest r.text) with
    | some globals =>
      obtain ⟨head,pieces,pasted⟩ := exists_pasted other
      rw [reads.data _ _ done] at carried
      exact pasted.plain_of_found nul done carried
    | none =>
      rcases known with data | malformed
      · exact absurd done data
      · rw [reads.malformed _ malformed] at carried
        cases carried.1
  · intro plain
    obtain ⟨globals,done,found⟩ := found_of_plain other plain
    rwa [reads.data _ _ done]

end

/-- Strings without quotes, backslashes and line breaks arrive in their fields, and what is
relied on of Lua makes no other strings all arrive: it tells of most that they do not. -/
theorem carried_iff {r : Request} (other : r.builder ≠ .deleteCustomer ∧ r.builder ≠ .createItem)
    (nul : ∀ s ∈ r.strings, '\x00' ∉ s.toList) :
    ((∀ lua, ReadsLua lua → r.Carried lua) ↔ ∀ s ∈ r.strings, isPlain s = true) ∧
    ∀ lua, ReadsLua lua → Known (cutRequest r.text) →
      (r.Carried lua ↔ ∀ s ∈ r.strings, isPlain s = true) := by
  refine ⟨⟨fun all => ?_, fun plain lua reads => ?_⟩, fun lua reads known =>
    carried_iff_plain reads known other nul⟩
  · have carried := all dataLua dataLua_reads
    refine (carried_iff_plain dataLua_reads (.inl fun none => ?_) other nul).mp carried
    rw [Request.Carried, dataLua, none] at carried
    cases carried.1
  · obtain ⟨globals,done,found⟩ := found_of_plain other plain
    rwa [Request.Carried, reads.data _ _ done]

def plainRequest : Request :=
  .createCustomer ⟨"ivanov", "8c6976e5", "Employee"⟩ 79110000000 "Orlov" "Anna" "Petrovna"

theorem plainRequest_carried : plainRequest.Carried dataLua :=
  (carried_iff (by decide) (by decide)).1.mpr (by decide +kernel) dataLua dataLua_reads

def quotedRequest : Request :=
  .createCustomer ⟨"ivanov", "8c6976e5", "Employee"⟩ 79110000000 "O'Neil" "Anna" "Petrovna"

theorem malformed_of_end {text : String} (first : text.toList.head? ≠ some '\x1b')
    (ends : (scanner.feed .code text.toList).any fun read =>
      stuck read.2 [] && !read.1.contains (.sym '[')) : Malformed text := by
  obtain ⟨⟨inside,mode⟩,fed,stops⟩ := (Option.any_eq_true _ _).mp ends
  rw [Bool.and_eq_true, Bool.not_eq_true'] at stops
  refine ⟨text.toList, [], inside, mode, (List.append_nil _).symm, fed, stops.1, fun bracket => ?_, first⟩
  rw [List.contains_iff_mem.mpr bracket] at stops
  cases stops.2

/-- The apostrophe swaps what is a string and what is not, up to the end of the request. -/
theorem quotedRequest_malformed : Malformed (cutRequest quotedRequest.text) := by
  have body : quotedRequest.body.toList = _ :=
    body_pieces [userText ⟨"ivanov", "8c6976e5", "Employee"⟩, "new_customer = \x7b\ttelephone = ",
      toString 79110000000, ",\tsname = ", quoted "O'Neil", ",\tname = ", quoted "Anna",
      ",\tpname = ", quoted "Petrovna", "\x7d"] "request = 'create_customer' " rfl
  simp only [List.foldr_cons, List.foldr_nil, append_user, toList_quoted] at body
  have whole : cutRequest quotedRequest.text = quotedRequest.body :=
    cutRequest_whole (by rw [body]; decide)
  rw [whole]
  exact malformed_of_end (by rw [body]; decide) (by rw [body]; decide +kernel)

theorem quotedRequest_lost :
    (quotedRequest.builder ≠ .deleteCustomer ∧ quotedRequest.builder ≠ .createItem) ∧
      (∀ s ∈ quotedRequest.strings, '\x00' ∉ s.toList) ∧ ReadsLua dataLua ∧
      ∀ lua, ReadsLua lua → ¬quotedRequest.Carried lua := by
  refine ⟨by decide, by decide, dataLua_reads, fun lua reads carried => ?_⟩
  rw [Request.Carried, reads.malformed _ quotedRequest_malformed] at carried
  cases carried.1

end PcCourse.ClientRequests
