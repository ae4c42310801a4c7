import PcCourse.RemoteTables
import PcCourse.Authentication
import PcCourse.OpenListings

/-! Logging in: from the fields of the login window through the check of the server to the panel
that opens, and which accounts there are to log in with. -/
namespace PcCourse.RemoteLogin

open ClientRequests UserRequest RemoteCalls RemoteRows RoundTrip Outcome Transition
open LoginWindow (State Panel panelOf)
open ErrorTexts (RunsLua)

def arrival (lua : Lua) (message : String) : LoginWindow.Arrival :=
  match parseAndGetResponse lua message with
  | none => .unreadable
  | some (_, response) => .response response

/-- The form of `QCryptographicHash::hash` in hex. -/
structure IsHex (text : String) : Prop where
  length : text.toList.length = 64
  digits : ∀ c ∈ text.toList, c.isDigit = true ∨ c ∈ ['a', 'b', 'c', 'd', 'e', 'f']

def Matches (c : Collation) (ranks : List UserRank) (row : User) (usr : UserLogin) : Prop :=
  ∃ login, storeText 64 "_login" usr.login = .ok login ∧ c.same row.login login = true ∧
    c.same row.sha256Pwd usr.password = true ∧
    ∃ rank ∈ ranks, row.rank = rank.id ∧ ∃ name, rank.name = some name ∧ c.same name usr.rank = true

def HasAccount (c : Collation) (db : Db) (usr : UserLogin) : Prop :=
  ∃ row ∈ db.user, Matches c db.userRank row usr

def refusals : List String :=
  ["access_denied", "bad_config", Fault.lostConnection.error.message,
    Fault.lockWaitTimeout.error.message, (SqlError.dataTooLong "_login").message,
    (SqlError.dataTooLong "_sha256_pwd").message, (SqlError.dataTooLong "rank_name").message]

section
variable {text : String} (hex : IsHex text)
include hex

theorem IsHex.free {c : Char} (other : c.isDigit = false ∧ c ∉ ['a', 'b', 'c', 'd', 'e', 'f']) :
    c ∉ text.toList := by
  intro member
  rcases hex.digits c member with digit | letter
  · rw [digit] at other
    cases other.1
  · exact other.2 letter

theorem IsHex.plain : LuaText.isPlain text = true := by
  simp only [LuaText.isPlain, LuaText.isLine, Bool.and_eq_true, List.all_eq_true, bne_iff_ne]
  refine ⟨fun c member => ⟨⟨?_, ?_⟩, ?_⟩, fun c member => ⟨?_, ?_⟩⟩
  all_goals
    rintro rfl
    exact hex.free (by decide) member

theorem IsHex.trimmed : trimBlanks text = text := by
  have last : text.toList.rdropWhile (· == ' ') = text.toList := by
    rw [List.rdropWhile_eq_self_iff]
    intro some_ blank
    have member := List.getLast_mem some_
    rw [beq_iff_eq.mp blank] at member
    exact hex.free (by decide) member
  rw [trimBlanks, last, String.ofList_toList]

end

theorem storeText_eq_error {limit : Nat} {column text : String} {fault : SqlError}
    (failed : storeText limit column text = .error fault) : fault = .dataTooLong column := by
  unfold storeText at failed
  split at failed
  · cases failed
  · cases failed
    rfl

section
variable {e : Engine} {k : Conditions} {ranks : List String} {usr : UserLogin} {db : Db}

theorem refusal_mem {m : String} (refused : refusal e k ranks usr db = some m) : m ∈ refusals := by
  unfold refusal at refused
  split at refused
  · cases refused
    simp [refusals]
  split at refused
  next fault _ =>
    cases refused
    cases fault <;> simp [refusals]
  split at refused
  next error failed =>
    cases refused
    simp only [account, bind_eq_error, pure, Except.pure, reduceCtorEq, and_false, exists_false,
      or_false] at failed
    rcases failed with login | ⟨_,-,password | ⟨_,-,rank⟩⟩
    · simp [refusals, storeText_eq_error login]
    · simp [refusals, storeText_eq_error password]
    · simp [refusals, storeText_eq_error rank]
  next =>
    split at refused
    · cases refused
    · cases refused
      simp [refusals]

theorem checkUserExists_eq_true {c : Collation} {login : String}
    (stored : storeText 64 "_login" usr.login = .ok login) :
    PcCourse.checkUserExists c (some login) (some usr.password) (some usr.rank) db = true ↔
      HasAccount c db usr := by
  rw [PcCourse.checkUserExists_iff]
  constructor
  · rintro ⟨row,user,rank,ranked,on,sameLogin,sameRank,samePwd⟩
    obtain ⟨name,named,sameRank⟩ := Option.any_eq_true _ _ |>.mp sameRank
    exact ⟨row, user, login, stored, sameLogin, samePwd, rank, ranked, on, name, named, sameRank⟩
  · rintro ⟨row,user,_,kept,sameLogin,samePwd,rank,ranked,on,name,named,sameRank⟩
    cases stored.symm.trans kept
    exact ⟨row, user, rank, ranked, on, sameLogin, Option.any_eq_true _ _ |>.mpr ⟨name, named, sameRank⟩, samePwd⟩

theorem refusal_eq_none_iff (hex : IsHex usr.password) (known : usr.rank ∈ ranks)
    (short : usr.rank.toList.length ≤ 64) :
    refusal e k ranks usr db = none ↔ k.fault 0 = none ∧ HasAccount e.collation db usr := by
  have password : storeText 64 "_sha256_pwd" usr.password = .ok usr.password :=
    storeText_of_fits (Nat.le_of_eq hex.length)
  have rank : storeText 64 "rank_name" usr.rank = .ok usr.rank := storeText_of_fits short
  have fields : account usr = (storeText 64 "_login" usr.login).map fun login =>
      (login, usr.password, usr.rank) := by
    rw [account, password, rank]
    cases storeText 64 "_login" usr.login with
    | error fault => rfl
    | ok login =>
      change Except.ok (login, trimBlanks usr.password, usr.rank) = _
      rw [hex.trimmed]
      rfl
  unfold refusal
  rw [if_neg (not_not_intro known), fields]
  cases k.fault 0 with
  | some fault => simp
  | none =>
    cases stored : storeText 64 "_login" usr.login with
    | error fault => simp [Except.map, HasAccount, Matches, stored]
    | ok login =>
      rw [← checkUserExists_eq_true stored]
      simp [Except.map]

end

structure Refused (m : String) : Prop where
  line : LuaText.isLine m = true
  shown : ∀ lua, RunsLua lua → arrival lua (makeResponseStr m) ≠ .response "success"

theorem arrival_eq_response {lua : Lua} {message response : String} :
    arrival lua message = .response response ↔
      (lua (cStr message)).lookup "response" = some (.str response) := by
  unfold arrival
  cases parsed : parseAndGetResponse lua message with
  | none =>
    refine iff_of_false LoginWindow.Arrival.noConfusion fun found => ?_
    rw [parse_eq_some.mpr ⟨found, rfl⟩] at parsed
    cases parsed
  | some pair =>
    obtain ⟨fenv,said⟩ := pair
    have found := (parse_eq_some.mp parsed).1
    rw [found]
    simp

theorem cStr_response {m : String} (line : LuaText.isLine m = true) :
    cStr (makeResponseStr m) = makeResponseStr m :=
  RemoteTables.cStr_eq fun member => (ErrorTexts.isLine_response line _ member).2 rfl

theorem refused_of_plain {m : String} (plain : LuaText.isPlain m = true) (other : m ≠ "success") : Refused m where
  line := RemoteTables.isLine_of_plain plain
  shown lua runs := by
    rw [ne_eq, arrival_eq_response, cStr_response (RemoteTables.isLine_of_plain plain),
      runs.data _ _ (ErrorTexts.execute_response plain)]
    simpa using other

theorem refused_of_once {m literal : String} (line : LuaText.isLine m = true)
    (fails : LuaChunk.execute (makeResponseStr m) = none)
    (once : ErrorTexts.AssignedOnce (makeResponseStr m) "response" literal) (other : literal ≠ "success") :
    Refused m where
  line := line
  shown lua runs := by
    rw [ne_eq, arrival_eq_response, cStr_response line]
    rcases runs.once _ _ _ fails once with left | left
    · simp [left]
    · simpa [left] using other

/-- The column is named in quotes, so the text ends ahead of it. -/
theorem tooLong_refused {column : String}
    (lexed : LuaText.lex (makeResponseStr (SqlError.dataTooLong column).message) =
      some [.name "response", .sym '=', .str "Data too long for column ", .name column, .str " at row 1"])
    (fails : LuaChunk.execute (makeResponseStr (SqlError.dataTooLong column).message) = none)
    (line : LuaText.isLine (SqlError.dataTooLong column).message = true)
    (other : column ∉ ["and", "or", "response", "_ENV"]) : Refused (SqlError.dataTooLong column).message := by
  simp only [List.mem_cons, List.not_mem_nil, or_false, not_or] at other
  refine refused_of_once line fails ⟨column, _, lexed, other.1, other.2.1, ?_⟩ (by decide)
  simp [other]

theorem refusals_refused : ∀ m ∈ refusals, Refused m := by
  simp only [refusals, List.forall_mem_cons]
  refine ⟨refused_of_plain (by decide) (by decide), refused_of_plain (by decide) (by decide),
    refused_of_plain (by decide) (by decide), refused_of_plain (by decide) (by decide),
    tooLong_refused (by decide) (by decide) (by decide) (by decide),
    tooLong_refused (by decide) (by decide) (by decide) (by decide),
    tooLong_refused (by decide) (by decide) (by decide) (by decide), List.forall_mem_nil _⟩

def replied (e : Engine) (lua : Lua) (k : Conditions) (usr : UserLogin) (db : Db) : Option LoginWindow.Arrival := do
  let text ← (ServedDatabase.answer e ⟨k, received (.auth usr)⟩ db).1
  let message ← ErrorTexts.received (text ++ "\r\n")
  return arrival lua message

section
variable {e : Engine} {k : Conditions} {lua : Lua} {usr : UserLogin} {db : Db} {hashPassword : String → String}

def everyone : List String := ["Admin", "Employee", "Accountant"]

theorem answer_auth (admissible : (Request.auth usr).Admissible) :
    ServedDatabase.answer e ⟨k, received (.auth usr)⟩ db =
      (some (makeResponseStr ((refusal e k everyone usr db).getD "success")), db) := by
  rw [answer_meaning admissible Builder.noConfusion, meaning, behind, ← everyone]
  cases refusal e k everyone usr db <;> rfl

variable (e k db) in
/-- The reply is a success exactly when the check lets the caller in. -/
theorem replied_of_auth (runs : RunsLua lua) (admissible : (Request.auth usr).Admissible) : ∃ reply,
    replied e lua k usr db = some reply ∧ reply ≠ .socketError ∧
      (reply = .response "success" ↔ refusal e k everyone usr db = none) := by
  have reaches {m : String} (line : LuaText.isLine m = true)
      (said : (refusal e k everyone usr db).getD "success" = m) :
      replied e lua k usr db = some (arrival lua (makeResponseStr m)) := by
    simp only [replied, answer_auth admissible, said, Option.bind_eq_bind, Option.bind_some,
      ErrorTexts.received_response line, Option.pure_def]
  have read (message : String) : arrival lua message ≠ .socketError := by
    unfold arrival
    split <;> simp
  cases refused : refusal e k everyone usr db with
  | some m =>
    have shown := refusals_refused m (refusal_mem refused)
    exact ⟨_, reaches shown.line (by rw [refused]; rfl), read _, iff_of_false (shown.shown lua runs) (by simp)⟩
  | none =>
    have plain : LuaText.isPlain "success" = true := by decide
    have line := RemoteTables.isLine_of_plain plain
    refine ⟨_, reaches line (by rw [refused]; rfl), read _, iff_of_true ?_ rfl⟩
    rw [arrival_eq_response, cStr_response line, runs.data _ _ (ErrorTexts.execute_response plain)]
    rfl

theorem rank_text (rank : LoginWindow.Rank) : rank.text ∈ everyone ∧ rank.text.toList.length ≤ 64 ∧
    LuaText.isPlain rank.text = true := by
  cases rank <;> decide

theorem admissible_userLogin (hex : ∀ password, IsHex (hashPassword password)) {ui : LoginWindow.Ui}
    (plain : LuaText.isPlain ui.loginLe = true) :
    (Request.auth (ui.userLogin hashPassword)).Admissible := by
  refine ⟨?_, trivial⟩
  simp only [Request.strings, List.forall_mem_cons]
  exact ⟨plain, (hex _).plain, (rank_text ui.rankCbox).2.2, List.forall_mem_nil _⟩

theorem refusal_userLogin (hex : ∀ password, IsHex (hashPassword password)) (ui : LoginWindow.Ui) :
    refusal e k everyone (ui.userLogin hashPassword) db = none ↔
      k.fault 0 = none ∧ HasAccount e.collation db (ui.userLogin hashPassword) := by
  obtain ⟨known,short,-⟩ := rank_text ui.rankCbox
  exact refusal_eq_none_iff (hex _) known short

variable (hashPassword) in
theorem step_click {s : State} (visible : s.visible = true)
    (filled : s.ui.loginLe ≠ "" ∧ s.ui.passwordLe ≠ "") : LoginWindow.step hashPassword .click s =
      { s with pending := s.pending ++ [s.ui.userLogin hashPassword] } := by
  have clicked : LoginWindow.step hashPassword .click s = LoginWindow.checkUserExists hashPassword s := if_pos visible
  rw [clicked, LoginWindow.checkUserExists, if_neg (not_or.mpr filled)]

variable (hashPassword) in
theorem receive_refused {reply : LoginWindow.Arrival} (other : reply ≠ .response "success") (s : State) :
    ∃ shown user, (user = s.user ∨ user = s.ui.userLogin hashPassword) ∧
      (reply ≠ .socketError → shown = .badInfo ∨ shown = .luaConfigError) ∧
      LoginWindow.receive hashPassword reply s = { s with user := user, shown := s.shown ++ [shown] } := by
  cases reply with
  | socketError => exact ⟨_, _, .inl rfl, fun read => absurd rfl read, rfl⟩
  | unreadable => exact ⟨_, _, .inl rfl, fun _ => .inr rfl, rfl⟩
  | response text =>
    have text_ : text ≠ "success" := fun same => other (congrArg _ same)
    exact ⟨_, _, .inr rfl, fun _ => .inl rfl, LoginWindow.receive_other text_ s⟩

end

section
variable {hashPassword : String → String} {s : State} (visible : s.visible = true)
include visible

theorem run_click (filled : s.ui.loginLe ≠ "" ∧ s.ui.passwordLe ≠ "") (reply : LoginWindow.Arrival) :
    execute (LoginWindow.step hashPassword) [.click, .arrive s.pending.length reply] s =
      LoginWindow.receive hashPassword reply s := by
  have waiting : (s.pending ++ [s.ui.userLogin hashPassword])[s.pending.length]? =
      some (s.ui.userLogin hashPassword) := List.getElem?_concat_length
  have removed : (s.pending ++ [s.ui.userLogin hashPassword]).eraseIdx s.pending.length = s.pending := by
    rw [List.eraseIdx_append_of_length_le (Nat.le_refl _), Nat.sub_self, List.eraseIdx_cons_zero,
      List.append_nil]
  rw [execute, execute, execute, step_click hashPassword visible filled, LoginWindow.step_arrive waiting,
    removed]

theorem visible_receive {reply : LoginWindow.Arrival} :
    (LoginWindow.receive hashPassword reply s).visible = false ↔ reply = .response "success" := by
  by_cases success : reply = .response "success"
  · subst success
    obtain ⟨_,-,received_⟩ := LoginWindow.receive_success hashPassword s
    rw [received_]
    simp
  · obtain ⟨_,_,-,-,received_⟩ := receive_refused hashPassword success s
    rw [received_]
    simp [visible, success]

end

/-- A click in the login window with both fields filled, the check of the server and the reply: the
panel of the rank opens exactly when there is an account with what the fields hold, and then its
credentials are those of all later requests; else the window stays, with its fields. -/
theorem login_exact (e : Engine) (lua : Lua) (runs : RunsLua lua) (hashPassword : String → String)
    (hex : ∀ password, IsHex (hashPassword password)) (k : Conditions) (db : Db) (s : State)
    (visible : s.visible = true) (filled : s.ui.loginLe ≠ "" ∧ s.ui.passwordLe ≠ "")
    (plain : LuaText.isPlain s.ui.loginLe = true) :
    let usr := s.ui.userLogin hashPassword
    ∃ reply, replied e lua k usr db = some reply ∧
      let after := execute (LoginWindow.step hashPassword) [.click, .arrive s.pending.length reply] s
      (k.fault 0 = none ∧ HasAccount e.collation db usr → ∃ panel, panelOf usr.rank = some panel ∧
        after = { s with user := usr, shown := s.shown ++ [.panel panel], visible := false }) ∧
      (¬(k.fault 0 = none ∧ HasAccount e.collation db usr) →
        ∃ shown, (shown = .badInfo ∨ shown = .luaConfigError) ∧ after.shown = s.shown ++ [shown] ∧
          after.visible = true ∧ after.ui = s.ui ∧ after.pending = s.pending) := by
  intro usr
  obtain ⟨reply,replied_,served,success⟩ := replied_of_auth e k db runs (admissible_userLogin hex plain)
  rw [refusal_userLogin hex] at success
  refine ⟨reply, replied_, ?_⟩
  rw [run_click visible filled]
  constructor
  · intro account
    obtain ⟨panel,opened,received_⟩ := LoginWindow.receive_success hashPassword s
    rw [success.mpr account]
    exact ⟨panel, opened, received_⟩
  · intro none_
    obtain ⟨shown,user,-,which,received_⟩ := receive_refused hashPassword (mt success.mp none_) s
    rw [received_]
    exact ⟨shown, which served, rfl, visible, rfl, rfl⟩

def adminPassword : String := "80c5e536eec8387cccad28b8b17b933832244998d85918abf18cc9bada5d4fe9"

/-- SHA-256 on the passwords of the runs below: `amogus`, and `p`. -/
def knownHash (password : String) : String :=
  if password = "amogus" then adminPassword
  else "148de9c5a7a44d19e56cd9ae1a554bf67847afb0c58f6e12fa29ac7ddfca9940"

theorem isHex_of_all {text : String} (length : text.toList.length = 64)
    (digits : text.toList.all (fun c => c.isDigit || ['a', 'b', 'c', 'd', 'e', 'f'].contains c) = true) :
    IsHex text := by
  refine ⟨length, fun c member => ?_⟩
  have one := List.all_eq_true.mp digits c member
  rwa [Bool.or_eq_true, List.contains_iff_mem] at one

theorem adminPassword_hex : IsHex adminPassword := isHex_of_all (by decide) (by decide)

theorem knownHash_hex (password : String) : IsHex (knownHash password) := by
  unfold knownHash
  split
  · exact adminPassword_hex
  · exact isHex_of_all (by decide) (by decide)

def entered (login : String) : State := { LoginWindow.opening with ui := ⟨login, "amogus", .admin⟩ }

theorem administrator_enters : ∃ reply,
    replied .standard dataLua (.calm 0) ⟨"amogus", adminPassword, "Admin"⟩ seeded = some reply ∧
      (execute (LoginWindow.step knownHash) [.click, .arrive 0 reply] (entered "amogus")).shown =
        [.panel .adminPanel] := by
  obtain ⟨reply,replied_,opens,-⟩ := login_exact .standard dataLua ErrorTexts.dataLua_runs knownHash
    knownHash_hex (.calm 0) seeded (entered "amogus") rfl ⟨by decide, by decide⟩ (by decide)
  have account : HasAccount .binary seeded ⟨"amogus", adminPassword, "Admin"⟩ :=
    ⟨_, List.mem_cons_self, "amogus", rfl, by decide, by decide, _, List.mem_cons_self, rfl, "Admin", rfl,
      by decide⟩
  obtain ⟨panel,opened,after⟩ := opens ⟨rfl, account⟩
  cases opened
  exact ⟨reply, replied_, congrArg State.shown after⟩

def Creates (e : Engine) (row : User) (db : Db) (call : Conditions × Request) : Prop :=
  ∃ usr login password sname name pname rankId,
    call.2 = .createUser usr login password sname name pname rankId ∧
    (meaning e call.1 call.2 db).1 = some (makeResponseStr "success") ∧
    newUser login password sname name pname rankId = .ok (.createUser (some row.login) (some row.sha256Pwd)
      row.sname row.name row.pname (some row.rank))

/-- The call is let in, its statement runs, and the login it names is that of the row. -/
def Deletes (e : Engine) (row : User) (db : Db) (call : Conditions × Request) : Prop :=
  ∃ usr login stored, call.2 = .deleteUser usr login ∧ refusal e call.1 ["Admin"] usr db = none ∧
    call.1.fault 1 = none ∧ storeText 64 "_login" login = .ok stored ∧
    e.collation.same row.login stored = true

/-- The row was there at first or has been created, and no call has deleted it since. -/
def Stands (e : Engine) (first : Db) (calls : List (Conditions × Request)) (row : User) : Prop :=
  let step := fun (call : Conditions × Request) db => (meaning e call.1 call.2 db).2
  let kept := Along step fun db call => ¬Deletes e row db call
  row ∈ first.user ∧ kept calls first ∨
    ∃ before call after, calls = before ++ call :: after ∧ Creates e row (execute step before first) call ∧
      kept after (execute step (before ++ [call]) first)

theorem append_ne {first rest other : String} {c d : Char} (front : first.toList.head? = some c)
    (back : other.toList.head? = some d) (apart : c ≠ d) : first ++ rest ≠ other := by
  rintro rfl
  rw [String.toList_append, List.head?_append, front] at back
  exact apart (Option.some.inj back)

theorem message_ne_success (fault : SqlError) : fault.message ≠ "success" := by
  cases fault with
  | signal condition => cases condition <;> decide
  | autoIncrement | malformed | lostConnection | lockWaitTimeout => decide
  | _ => exact append_ne rfl rfl (by decide)

theorem refusal_ne_success {m : String} (member : m ∈ refusals) : m ≠ "success" := by
  rintro rfl
  revert member
  decide

section
variable {e : Engine} {k : Conditions} {db : Db} {row : User}

theorem createUser_row {new : User} : row = new ↔
    (Except.ok (.createUser (some new.login) (some new.sha256Pwd) new.sname new.name new.pname (some new.rank)) :
      Except SqlError Update) = .ok (.createUser (some row.login) (some row.sha256Pwd) row.sname row.name
        row.pname (some row.rank)) := by
  constructor
  · rintro rfl
    rfl
  · intro same
    obtain ⟨login,pwd,sname,name,pname,rank⟩ := row
    obtain ⟨_,_,_,_,_,_⟩ := new
    cases same
    rfl

theorem mem_created {r : Request} {usr : UserLogin} {login password sname name pname : String} {rankId : Int}
    (create : r = .createUser usr login password sname name pname rankId) :
    row ∈ (meaning e k r db).2.user ↔ row ∈ db.user ∨ Creates e row db (k, r) := by
  subst create
  have means : meaning e k (.createUser usr login password sname name pname rankId) db =
    behind e k ["Admin"] usr (reported e k (newUser login password sname name pname rankId)) db := rfl
  have creates : Creates e row db (k, .createUser usr login password sname name pname rankId) ↔
      (meaning e k (.createUser usr login password sname name pname rankId) db).1 =
        some (makeResponseStr "success") ∧
      newUser login password sname name pname rankId = .ok (.createUser (some row.login)
        (some row.sha256Pwd) row.sname row.name row.pname (some row.rank)) := by
    constructor
    · rintro ⟨_,_,_,_,_,_,_,same,said,made⟩
      cases same
      exact ⟨said, made⟩
    · rintro ⟨said,made⟩
      exact ⟨_, _, _, _, _, _, _, rfl, said, made⟩
  rw [creates, means, behind]
  cases refused : refusal e k ["Admin"] usr db with
  | some m =>
    refine (or_iff_left ?_).symm
    rintro ⟨said,-⟩
    exact refusal_ne_success (refusal_mem refused) (makeResponseStr_inj (Option.some.inj said))
  | none =>
    simp only
    unfold reported
    cases done : change e k (newUser login password sname name pname rankId) db with
    | error fault =>
      refine (or_iff_left ?_).symm
      rintro ⟨said,-⟩
      exact message_ne_success fault (makeResponseStr_inj (Option.some.inj said))
    | ok after =>
      obtain ⟨u,at_,made,ran⟩ := change_cases done
      rw [made]
      simp only [newUser, bind_eq_ok, pure_eq_ok] at made
      obtain ⟨_,-,_,-,_,-,_,-,_,-,rfl⟩ := made
      obtain ⟨_,_,_,⟨⟩,⟨⟩,⟨⟩,-,-,rfl⟩ := createUser_eq_ok ran
      rw [List.mem_append, List.mem_singleton, and_iff_right rfl]
      exact or_congr_right createUser_row

theorem mem_deleted {usr : UserLogin} {login : String} :
    row ∈ (meaning e k (.deleteUser usr login) db).2.user ↔
      row ∈ db.user ∧ ¬Deletes e row db (k, .deleteUser usr login) := by
  have means : meaning e k (.deleteUser usr login) db =
    behind e k ["Admin"] usr (unreported e k (oldUser login)) db := rfl
  have deletes : Deletes e row db (k, .deleteUser usr login) ↔
      refusal e k ["Admin"] usr db = none ∧ k.fault 1 = none ∧
        ∃ stored, storeText 64 "_login" login = .ok stored ∧ e.collation.same row.login stored = true := by
    constructor
    · rintro ⟨_,_,stored,same,granted,healthy,kept,found⟩
      cases same
      exact ⟨granted, healthy, stored, kept, found⟩
    · rintro ⟨granted,healthy,stored,kept,found⟩
      exact ⟨_, _, stored, rfl, granted, healthy, kept, found⟩
  rw [deletes, means, behind]
  cases refused : refusal e k ["Admin"] usr db with
  | some m => simp
  | none =>
    simp only [true_and]
    unfold unreported change
    cases k.fault 1 with
    | some fault => simp
    | none =>
      simp only [true_and, oldUser]
      cases kept : storeText 64 "_login" login with
      | error fault => simp [bind, Except.bind]
      | ok stored =>
        change row ∈ db.user.filter (fun u => !(some stored).any (e.collation.same u.login)) ↔ _
        rw [List.mem_filter]
        simp

variable (e row) in
/-- What one call does to the rows of users. -/
theorem mem_meaning (db : Db) (call : Conditions × Request) : row ∈ (meaning e call.1 call.2 db).2.user ↔
    row ∈ db.user ∧ ¬Deletes e row db call ∨ Creates e row db call := by
  obtain ⟨k,r⟩ := call
  have other (create : r.builder ≠ .createUser) (delete : r.builder ≠ .deleteUser) :
      (meaning e k r db).2.user = db.user := by
    rcases meaning_cases e k db r with same | ⟨u,at_,asks,ran⟩
    · rw [same]
    · cases asks with
      | createUser => exact absurd rfl create
      | deleteUser => exact absurd rfl delete
      | createCustomer made =>
        simp only [RemoteCalls.newCustomer, bind_eq_ok, pure_eq_ok] at made
        obtain ⟨_,-,_,-,_,-,rfl⟩ := made
        obtain ⟨_,-,-,rows⟩ := createCustomer_eq_ok ran
        rw [rows]
  cases r with
  | createUser usr login password sname name pname rankId =>
    rw [mem_created rfl]
    have kept : ¬Deletes e row db (k, .createUser usr login password sname name pname rankId) := by
      rintro ⟨_,_,_,same,-⟩
      cases same
    simp only [kept, not_false_eq_true, and_true]
  | deleteUser usr login =>
    rw [mem_deleted]
    refine (or_iff_left ?_).symm
    rintro ⟨_,_,_,_,_,_,_,same,-⟩
    cases same
  | _ =>
    rw [other Builder.noConfusion Builder.noConfusion]
    simp [Creates, Deletes]

end

/-- After any requests with plain strings, of all builders but `CreateItem`, on the database that
`db.sql` installs: the panel opens exactly when the call of the check runs and one of the accounts of
`db.sql`, or one that an administrator has created since, matches the fields and has not been deleted
after it came. -/
theorem login_history (e : Engine) (now dateOfExpire : Int) (calls : List (Conditions × Request))
    (sent : Sent calls) (lua : Lua) (runs : RunsLua lua) (hashPassword : String → String)
    (hex : ∀ password, IsHex (hashPassword password)) (k : Conditions) (s : State)
    (visible : s.visible = true) (filled : s.ui.loginLe ≠ "" ∧ s.ui.passwordLe ≠ "")
    (plain : LuaText.isPlain s.ui.loginLe = true) :
    let first := installed e.collation now dateOfExpire
    let usr := s.ui.userLogin hashPassword
    ∃ reply, replied e lua k usr (run e (incomings calls) first) = some reply ∧
      ((execute (LoginWindow.step hashPassword) [.click, .arrive s.pending.length reply] s).visible = false ↔
        k.fault 0 = none ∧
          ∃ row, Stands e first calls row ∧ Matches e.collation schema.userRank row usr) := by
  intro first usr
  obtain ⟨reply,replied_,-,success⟩ :=
    replied_of_auth e k (run e (incomings calls) first) runs (admissible_userLogin hex plain)
  refine ⟨reply, replied_, ?_⟩
  rw [run_click visible filled, visible_receive visible, success, refusal_userLogin hex]
  apply and_congr_right
  intro _
  have ranks : (run e (incomings calls) first).userRank = schema.userRank :=
    (RemoteTables.run_presentable sent
      (RemoteTables.installed_presentable e.collation now dateOfExpire)).listable.userRank
  rw [HasAccount, ranks, run_incomings sent]
  refine exists_congr fun row => and_congr_left fun _ => ?_
  exact execute_iff (fun db => row ∈ db.user) (mem_meaning e row) calls first

/-- The administrator creates another one, and is deleted by it. -/
def successionCalls : List (Conditions × Request) :=
  [(.calm 0, .createUser ⟨"amogus", adminPassword, "Admin"⟩ "neo" adminPassword "s" "n" "p" 1),
    (.calm 0, .deleteUser ⟨"neo", adminPassword, "Admin"⟩ "amogus")]

theorem successor_enters : ∃ reply,
    replied .standard dataLua (.calm 0) ⟨"neo", adminPassword, "Admin"⟩
        (run .standard (incomings successionCalls) (installed .binary (19675 * 86400) 20041)) = some reply ∧
      (execute (LoginWindow.step knownHash) [.click, .arrive 0 reply] (entered "neo")).visible = false := by
  have sent : Sent successionCalls := by
    have fits : intMin ≤ (1 : Int) ∧ (1 : Int) ≤ intMax := by decide
    simp only [Sent, successionCalls, List.forall_mem_cons]
    exact ⟨⟨⟨by decide, fits⟩, by decide⟩, ⟨⟨by decide, trivial⟩, by decide⟩, List.forall_mem_nil _⟩
  obtain ⟨reply,replied_,opens⟩ := login_history .standard (19675 * 86400) 20041 successionCalls sent dataLua
    ErrorTexts.dataLua_runs knownHash knownHash_hex (.calm 0) (entered "neo") rfl
    ⟨by decide, by decide⟩ (by decide)
  refine ⟨reply, replied_, opens.mpr ⟨rfl, ⟨"neo", adminPassword, some "s", some "n", some "p", 1⟩, ?_, ?_⟩⟩
  · refine .inr ⟨[], _, _, rfl, ⟨_, _, _, _, _, _, _, rfl, ?_, rfl⟩, ?_, trivial⟩
    · change (meaning _ _ _ (installed .binary (19675 * 86400) 20041)).1 = _
      rw [installed_seeded]
      decide
    · rintro ⟨_,_,stored,same,-,-,kept,found⟩
      cases same
      cases kept
      revert found
      decide
  · exact ⟨"neo", rfl, by decide, by decide, _, List.mem_cons_self, rfl, "Admin", rfl, by decide⟩

end PcCourse.RemoteLogin
