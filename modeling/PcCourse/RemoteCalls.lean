import PcCourse.ClientExchange
import PcCourse.ListRefresh
import PcCourse.SentStrings
import PcCourse.ServedDatabase

/-! The requests of `Requests.hpp` as calls: what the server does with the text of a request,
told by the arguments that its builder was called with. -/
namespace PcCourse.RemoteCalls

open ClientRequests UserRequest SqlCall Outcome Transition
open LuaChunk (run_assignment keywords)
open ServedRequests ServedDatabase ServerFraming ClientExchange

def received (r : Request) : Option LuaValue :=
  (LuaChunk.execute (cutRequest r.text)).map fun globals => .table globals []

def account (usr : UserLogin) : Except SqlError (String × String × String) := do
  let login ← storeText 64 "_login" usr.login
  let password ← storeText 64 "_sha256_pwd" usr.password
  let rank ← storeText 64 "rank_name" usr.rank
  return (login, trimBlanks password, rank)

def newUser (login password sname name pname : String) (rankId : Int) : Except SqlError Update := do
  let login ← storeText 64 "_login" login
  let password ← storeText 64 "_sha256_pwd" password
  let sname ← storeText 64 "_sname" sname
  let name ← storeText 64 "_name" name
  let pname ← storeText 64 "_pname" pname
  return .createUser (some login) (some (trimBlanks password)) (some sname) (some name) (some pname)
    (some rankId)

def newCustomer (telNumber : Nat) (sname name pname : String) : Except SqlError Update := do
  let sname ← storeText 64 "_sname" sname
  let name ← storeText 64 "_name" name
  let pname ← storeText 64 "_pname" pname
  return .createCustomer (some telNumber) (some sname) (some name) (some pname)

def oldUser (login : String) : Except SqlError Update := do
  return .deleteUser (some (← storeText 64 "_login" login))

section
variable (e : Engine) (k : Conditions)

def refusal (ranks : List String) (usr : UserLogin) (db : Db) : Option String :=
  if usr.rank ∉ ranks then some "access_denied"
  else
    match k.fault 0 with
    | some fault => some fault.error.message
    | none =>
      match account usr with
      | .error fault => some fault.message
      | .ok (login, password, rank) =>
        if checkUserExists e.collation (some login) (some password) (some rank) db then none
        else some "bad_config"

def behind (ranks : List String) (usr : UserLogin) (body : Db → Option String × Db) (db : Db) :
    Option String × Db :=
  match refusal e k ranks usr db with
  | some message => (some (makeResponseStr message), db)
  | none => body db

/-- The rows behind a call, the second one of its request. -/
def change (update : Except SqlError Update) (db : Db) : Except SqlError Db :=
  match k.fault 1 with
  | some fault => .error fault.error
  | none => do (← update).exec e.collation (k.occasion 1) db

def reported (update : Except SqlError Update) (db : Db) : Option String × Db :=
  match change e k update db with
  | .error fault => (some (makeResponseStr fault.message), db)
  | .ok after => (some (makeResponseStr "success"), after)

/-- A deletion is answered with success, whatever becomes of it. -/
def unreported (update : Except SqlError Update) (db : Db) : Option String × Db :=
  match change e k update db with
  | .error _ => (some (makeResponseStr "success"), db)
  | .ok after => (some (makeResponseStr "success"), after)

/-- The rows of a query, the call of its request with this number. -/
def listed (i : Nat) (q : Query) (tableName : String) (fields : List FieldAndType) (db : Db) :
    Option String × Db :=
  let res :=
    match k.fault i with
    | some _ => none
    | none => some (q.run e.collation (k.occasion i).now db)
  ((serializeQueryResult e k.iteration res tableName fields).map (makeResponseStr "success" ++ ·), db)

/-- What a request does, and what it is answered. The request for the deletion of a customer
is one for the deletion of a user that names none. -/
def meaning (r : Request) (db : Db) : Option String × Db :=
  match r with
  | .auth usr =>
    behind e k ["Admin", "Employee", "Accountant"] usr (some (makeResponseStr "success"), ·) db
  | .getUsers usr =>
    behind e k ["Admin"] usr (listed e k 1 .getUsers "users"
      [⟨"login", .string, true⟩, ⟨"sname", .string, true⟩, ⟨"name", .string, true⟩,
        ⟨"pname", .string, true⟩, ⟨"rank", .string, true⟩]) db
  | .createUser usr login password sname name pname rankId =>
    behind e k ["Admin"] usr (reported e k (newUser login password sname name pname rankId)) db
  | .deleteUser usr login => behind e k ["Admin"] usr (unreported e k (oldUser login)) db
  | .getCustomers _ =>
    listed e k 0 .getCustomers "customers"
      [⟨"telephone", .int, true⟩, ⟨"sname", .string, true⟩, ⟨"name", .string, true⟩,
        ⟨"pname", .string, true⟩] db
  | .createCustomer usr telNumber sname name pname =>
    behind e k ["Employee", "Admin"] usr (reported e k (newCustomer telNumber sname name pname)) db
  | .deleteCustomer usr _ => behind e k ["Admin"] usr (some (makeResponseStr "bad_config"), ·) db
  | .getItems _ | .createItem .. =>
    listed e k 0 .getItems "items"
      [⟨"id", .int, true⟩, ⟨"name", .string, true⟩, ⟨"cost", .number, true⟩,
        ⟨"count_on_warehouse", .int, true⟩, ⟨"distributor", .string, true⟩, ⟨"type", .string, true⟩,
        ⟨"description", .string, true⟩] db

end

inductive Asks : Request → Update → Prop
  | createUser {usr : UserLogin} {login password sname name pname : String} {rankId : Int} {u : Update} :
    newUser login password sname name pname rankId = .ok u →
    Asks (.createUser usr login password sname name pname rankId) u
  | deleteUser {usr : UserLogin} {login : String} {u : Update} : oldUser login = .ok u →
    Asks (.deleteUser usr login) u
  | createCustomer {usr : UserLogin} {telNumber : Nat} {sname name pname : String} {u : Update} :
    newCustomer telNumber sname name pname = .ok u →
    Asks (.createCustomer usr telNumber sname name pname) u

section
variable {e : Engine} {k : Conditions} {db : Db}

theorem change_cases {update : Except SqlError Update} {after : Db}
    (done : change e k update db = .ok after) : ∃ u at_, update = .ok u ∧ u.exec e.collation at_ db = .ok after := by
  unfold change at done
  split at done
  · cases done
  · obtain ⟨u,known,ran⟩ := bind_eq_ok.mp done
    exact ⟨u, _, known, ran⟩

variable (e k db) in
/-- A request leaves the rows as they are, or runs the one statement that it asks for. -/
theorem meaning_cases (r : Request) : (meaning e k r db).2 = db ∨
    ∃ u at_, Asks r u ∧ u.exec e.collation at_ db = .ok (meaning e k r db).2 := by
  have checked {ranks : List String} {usr : UserLogin} {body : Db → Option String × Db}
      (inner : (body db).2 = db ∨ ∃ u at_, Asks r u ∧ u.exec e.collation at_ db = .ok (body db).2) :
      (behind e k ranks usr body db).2 = db ∨ ∃ u at_, Asks r u ∧
        u.exec e.collation at_ db = .ok (behind e k ranks usr body db).2 := by
    unfold behind
    split
    · exact .inl rfl
    · exact inner
  have reports {update : Except SqlError Update} (asks : ∀ u, update = .ok u → Asks r u) :
      (reported e k update db).2 = db ∨ ∃ u at_, Asks r u ∧
        u.exec e.collation at_ db = .ok (reported e k update db).2 := by
    unfold reported
    split
    · exact .inl rfl
    next after done =>
      obtain ⟨u,at_,known,ran⟩ := change_cases done
      exact .inr ⟨u, at_, asks u known, ran⟩
  cases r with
  | auth | getUsers | deleteCustomer => exact checked (.inl rfl)
  | getCustomers | getItems | createItem => exact .inl rfl
  | createUser => exact checked (reports fun u known => .createUser known)
  | createCustomer => exact checked (reports fun u known => .createCustomer known)
  | deleteUser usr login =>
    refine checked ?_
    unfold unreported
    split
    · exact .inl rfl
    next after done =>
      obtain ⟨u,at_,known,ran⟩ := change_cases done
      exact .inr ⟨u, at_, .deleteUser known, ran⟩

end

def outcome (reply : Reply) : Option String × Db := (reply.response, reply.session.db)

section
variable {e : Engine} {k : Conditions} {db : Db} {column : String}

theorem value_str (text : String) : e.value db [.str text] = .ok (.text text) := rfl

theorem toVarchar_str (text : String) :
    e.toVarchar 64 column (.text text) = (storeText 64 column text).map some := rfl

theorem toChar_str (text : String) : e.toChar 64 column (.text text) =
    (storeText 64 column text).map fun stored => some (trimBlanks stored) := by
  rw [Engine.toChar, toVarchar_str]
  cases storeText 64 column text <;> rfl

theorem number_str (n : Int) : e.number column (.text (toString n)) = .ok (some n) := by
  simp only [Engine.number, Numeral.toList_toString, Numeral.signed?_ofInt]

theorem toInt_str {n : Int} (range : intMin ≤ n ∧ n ≤ intMax) :
    e.toInt column (.text (toString n)) = .ok (some n) := by
  unfold Engine.toInt
  rw [number_str]
  exact if_pos range

theorem toUnsigned_str {n : Nat} (range : (n : Int) ≤ int64Max) :
    e.toUnsigned bigintUnsignedMax column (.text (toString (n : Int))) = .ok (some n) := by
  have fits : 0 ≤ (n : Int) ∧ (n : Int) ≤ bigintUnsignedMax := by
    simp only [int64Max, bigintUnsignedMax] at range ⊢
    omega
  unfold Engine.toUnsigned
  rw [number_str]
  exact if_pos fits

theorem ok_bind {ε α β : Type} (a : α) (f : α → Except ε β) : (Except.ok a >>= f) = f a := rfl

theorem map_bind {ε α β γ : Type} (x : Except ε α) (g : α → β) (f : β → Except ε γ) :
    (x.map g >>= f) = x >>= fun a => f (g a) := by
  cases x <;> rfl

theorem bind_map {ε α β γ : Type} (x : Except ε α) (f : α → Except ε β) (g : β → γ) :
    (x >>= f).map g = x >>= fun a => (f a).map g := by
  cases x <;> rfl

theorem compile_check {usr : UserLogin}
    (verbatim : ∀ text ∈ [usr.login, usr.password, usr.rank], SqlText.isVerbatim text.toList = true) :
    e.compile db (checkText usr.login usr.password usr.rank) = (account usr).map fun fields =>
      .query (.checkUserExists (some fields.1) (some fields.2.1) (some fields.2.2)) := by
  have read : e.compile db (checkText usr.login usr.password usr.rank) =
      e.bind db .checkUserExists [[.str usr.login], [.str usr.password], [.str usr.rank]] :=
    e.compile_quoted db .checkUserExists [usr.login, usr.password, usr.rank] verbatim (by simp)
  rw [read, Engine.bind, account]
  simp only [value_str, ok_bind, toVarchar_str, toChar_str, map_bind, bind_map]
  rfl

theorem compile_newUser {login password sname name pname : String} {rankId : Int}
    (verbatim : ∀ text ∈ [login, password, sname, name, pname], SqlText.isVerbatim text.toList = true)
    (range : intMin ≤ rankId ∧ rankId ≤ intMax) :
    e.compile db (callText Procedure.createUser.name
        ([login, password, sname, name, pname, toString rankId].map quoted)) =
      (newUser login password sname name pname rankId).map .update := by
  have every : ∀ text ∈ [login, password, sname, name, pname] ++ [toString rankId],
      SqlText.isVerbatim text.toList = true := by
    rw [List.forall_mem_append, List.forall_mem_singleton]
    exact ⟨verbatim, verbatim_numeral rankId⟩
  have read := e.compile_quoted db .createUser _ every (by simp)
  rw [List.cons_append, List.cons_append, List.cons_append, List.cons_append, List.cons_append,
    List.nil_append] at read
  rw [read]
  simp only [List.map_cons, List.map_nil, Engine.bind, newUser, value_str, ok_bind, toVarchar_str,
    toChar_str, toInt_str range, map_bind, bind_map]
  rfl

theorem compile_newCustomer {telNumber : Nat} {sname name pname : String}
    (verbatim : ∀ text ∈ [sname, name, pname], SqlText.isVerbatim text.toList = true)
    (range : (telNumber : Int) ≤ int64Max) :
    e.compile db (callText Procedure.createCustomer.name
        ([toString (telNumber : Int), sname, name, pname].map quoted)) =
      (newCustomer telNumber sname name pname).map .update := by
  have every : ∀ text ∈ toString (telNumber : Int) :: [sname, name, pname],
      SqlText.isVerbatim text.toList = true :=
    List.forall_mem_cons.mpr ⟨verbatim_numeral telNumber, verbatim⟩
  rw [e.compile_quoted db .createCustomer _ every (by simp)]
  simp only [List.map_cons, List.map_nil, Engine.bind, newCustomer, value_str, ok_bind, toVarchar_str,
    toUnsigned_str range, map_bind, bind_map]
  rfl

theorem compile_oldUser {login : String} (verbatim : SqlText.isVerbatim login.toList = true) :
    e.compile db (callText Procedure.deleteUser.name [quoted login]) =
      (oldUser login).map .update := by
  have every : ∀ text ∈ [login], SqlText.isVerbatim text.toList = true := by
    rwa [List.forall_mem_singleton]
  have read := e.compile_quoted db .deleteUser [login] every (by simp)
  rw [List.map_singleton] at read
  rw [read]
  simp only [List.map_cons, List.map_nil, Engine.bind, oldUser, value_str, ok_bind, toVarchar_str,
    map_bind, bind_map]
  rfl

end

section
variable {e : Engine} {k : Conditions} {config : LuaValue} {ranks : List String} {s : Session}
  {usr : UserLogin}

variable (e k ranks) in
theorem check_refusal (login : HasLogin config usr)
    (verbatim : ∀ text ∈ [usr.login, usr.password, usr.rank], SqlText.isVerbatim text.toList = true)
    (first : s.calls = []) :
    match refusal e k ranks usr s.db with
    | some message => (checkUserExistance e k config ranks s).1 = makeResponseStr message
    | none => (checkUserExistance e k config ranks s).1 = "" ∧
      (checkUserExistance e k config ranks s).2.calls.length = 1 := by
  unfold HasLogin at login
  unfold refusal checkUserExistance
  rw [login]
  by_cases allowed : usr.rank ∈ ranks
  · simp only [allowed, not_true_eq_false, if_false, invokeStoredProcedure, Session.issue, first,
      List.length_nil, ← checkText.eq_1]
    cases failed : k.fault 0 with
    | some fault => rfl
    | none =>
      simp only [Engine.exec, compile_check verbatim]
      cases account usr with
      | error fault => rfl
      | ok fields =>
        have zero : toString (0 : Int) = "0" := by decide
        have one : toString (1 : Int) ≠ "0" := by decide
        cases found : checkUserExists e.collation (some fields.1) (some fields.2.1)
            (some fields.2.2) s.db <;>
          simp [Except.map, Query.run, found, Engine.text, zero, one, Session.record, first,
            -Int.toString_eq_repr]
  · simp [allowed]

theorem outcome_guarded {body : Session → Reply} {then_ : Db → Option String × Db}
    (login : HasLogin config usr)
    (verbatim : ∀ text ∈ [usr.login, usr.password, usr.rank], SqlText.isVerbatim text.toList = true)
    (first : s.calls = [])
    (inner : ∀ s' : Session, s'.calls.length = 1 → outcome (body s') = then_ s'.db) :
    outcome (guarded e k ranks config s body) = behind e k ranks usr then_ s.db := by
  have checked := check_refusal e k ranks login verbatim first
  have db : (checkUserExistance e k config ranks s).2.db = s.db := check_db
  unfold behind guarded outcome
  cases refused : refusal e k ranks usr s.db with
  | some message =>
    rw [refused] at checked
    simp only [checked, makeResponseStr_ne_empty, ne_eq, not_false_eq_true, if_true, db]
  | none =>
    rw [refused] at checked
    simp only [checked.1, ne_eq, not_true_eq_false, if_false]
    rw [← db]
    exact inner _ checked.2

theorem issue_change {p : Procedure} {args : List String} {update : Except SqlError Update}
    (compiled : e.compile s.db (callText p.name args) = update.map .update)
    (second : s.calls.length = 1) :
    (s.issue e k (callText p.name args)).map Engine.Effect.db = change e k update s.db := by
  unfold Session.issue change
  rw [second]
  cases k.fault 1 with
  | some fault => rfl
  | none =>
    simp only [Engine.exec, compiled]
    cases update with
    | error fault => rfl
    | ok u =>
      rw [ok_bind]
      simp only [Except.map]
      cases u.exec e.collation (k.occasion 1) s.db <;> rfl

variable {sql : String} {update : Except SqlError Update}

theorem outcome_reporting
    (changes : (s.issue e k sql).map Engine.Effect.db = change e k update s.db) :
    outcome (reporting e k sql s) = reported e k update s.db := by
  unfold reported reporting invokeStoredProcedure
  rw [← changes]
  cases s.issue e k sql <;> rfl

theorem outcome_unchecked
    (changes : (s.issue e k sql).map Engine.Effect.db = change e k update s.db) :
    outcome (unchecked e k sql s) = unreported e k update s.db := by
  unfold unreported unchecked invokeStoredProcedure
  rw [← changes]
  cases s.issue e k sql <;> rfl

theorem outcome_listing {p : Procedure} {q : Query} {tableName : String} {fields : List FieldAndType}
    (bound : e.bind s.db p [] = .ok (.query q)) {i : Nat} (calls : s.calls.length = i) :
    outcome (listing e k (callText p.name []) tableName fields s) =
      listed e k i q tableName fields s.db := by
  unfold listed listing invokeStoredProcedure outcome Session.issue
  rw [calls]
  cases k.fault i with
  | some fault => rfl
  | none => simp only [Engine.exec, e.compile_nil, bound]; rfl

end

theorem execute_deleteCustomer {usr : UserLogin} {telNumber : Nat}
    (admissible : (Request.deleteCustomer usr telNumber).Admissible) :
    LuaChunk.execute (cutRequest (Request.deleteCustomer usr telNumber).text) =
      some (headFields "delete_user" usr ++ [("delete_customer_telephone", .int telNumber)]) := by
  have caller := caller_plain rfl admissible.1
  have fits : (telNumber : Int) ≤ int64Max := admissible.2
  have field : Fixed "delete_customer_telephone = "
      [.name "delete_customer_telephone", .sym '='] := by decide
  have head : Fixed "request = 'delete_user' "
      [.name "request", .sym '=', .str "delete_user"] := by decide
  have part := (part_user (Follows.nil.fill (part_nat telNumber) field) caller).after head
  have word : "delete_customer_telephone" ∉ keywords := by decide
  apply executes_of_part (part.cast ?_ ?_) (run_assignment (evaluates_nat fits) word _ _)
  · exact body_pieces [userText usr, "delete_customer_telephone = ", toString telNumber] _ rfl
  · simp [headTokens]

section
variable {e : Engine} {k : Conditions} {r : Request} {db : Db}

theorem verbatim_strings {strings : List String} (plain : ∀ s ∈ strings, LuaText.isPlain s = true) :
    ∀ s ∈ strings, SqlText.isVerbatim s.toList = true := by
  intro s member
  have free := plain s member
  simp only [LuaText.isPlain, Bool.and_eq_true] at free
  apply isVerbatim_of_isPlain
  simpa [isPlain, SqlText.isSpecial] using free.2

theorem verbatim_caller (admissible : r.Admissible) {usr : UserLogin} {more : List String}
    (strings : r.strings = usr.login :: usr.password :: usr.rank :: more) :
    ∀ text ∈ [usr.login, usr.password, usr.rank], SqlText.isVerbatim text.toList = true :=
  verbatim_strings (caller_plain strings admissible.1)

theorem reading_some {α : Type} {fields : Option α} {values : α} (read : fields = some values)
    (s : Session) (body : α → Reply) : reading fields s body = body values := by
  rw [read]
  rfl

theorem processRequest_agrees (agrees : r.Agrees) (s : Session) : ∃ config, r.HasFields config ∧
    processRequest e k (received r) s = r.builder.handler e k config s := by
  obtain ⟨globals,ran,named,fields⟩ := agrees
  have config : received r = some (.table globals []) := by rw [received, ran, Option.map_some]
  refine ⟨_, fields, ?_⟩
  rw [config]
  refine processRequest_of_name (RemoteRows.getRawString_eq_some.mpr ⟨_, _, rfl, named⟩) ?_
    (operation_registered r.builder e k) s
  cases r.builder <;> decide

/-- What the server does with the text of a request is told by its arguments. -/
theorem processRequest_meaning (admissible : r.Admissible) (other : r.builder ≠ .createItem) :
    outcome (processRequest e k (received r) (.opening db)) = meaning e k r db := by
  have verbatim := verbatim_strings admissible.1
  by_cases customer : r.builder = .deleteCustomer
  · cases r with
    | deleteCustomer usr telNumber =>
      have caller := verbatim_caller admissible rfl
      have word : "delete_user" ≠ "" := by decide
      rw [received, execute_deleteCustomer admissible, Option.map_some, processRequest_of_name rfl word rfl]
      exact outcome_guarded rfl caller rfl fun s' _ => rfl
    | _ => cases customer
  obtain ⟨config,fields,handled⟩ :=
    processRequest_agrees (e := e) (k := k) (agrees_of_builder admissible ⟨customer, other⟩) (.opening db)
  rw [handled]
  cases r with
  | auth usr => exact outcome_guarded fields verbatim rfl fun s' _ => rfl
  | getUsers usr =>
    exact outcome_guarded fields verbatim rfl fun s' second => outcome_listing (p := .getUsers) rfl second
  | createUser usr login password sname name pname rankId =>
    obtain ⟨login_,user,inside,hlogin,hpassword,hsname,hname,hpname,hrank⟩ := fields
    have caller := verbatim_caller admissible rfl
    have read : readNewUser config = some [login, password, sname, name, pname, toString rankId] := by
      simp only [readNewUser, Option.bind_eq_bind, inside, hlogin, hpassword, hsname, hname, hpname,
        hrank, Option.bind_some, Option.pure_def]
    refine outcome_guarded login_ caller rfl fun s' second => ?_
    rw [reading_some read]
    refine outcome_reporting (issue_change (p := .createUser) (compile_newUser ?_ admissible.2) second)
    exact fun s member => verbatim s (List.mem_append_right [usr.login, usr.password, usr.rank] member)
  | deleteUser usr login =>
    have caller := verbatim_caller admissible rfl
    refine outcome_guarded fields.1 caller rfl fun s' second => ?_
    rw [reading_some fields.2]
    exact outcome_unchecked (issue_change (p := .deleteUser)
      (compile_oldUser (verbatim login (by simp [Request.strings]))) second)
  | getCustomers usr => exact outcome_listing (p := .getCustomers) rfl rfl
  | createCustomer usr telNumber sname name pname =>
    obtain ⟨login_,customer_,inside,htel,hsname,hname,hpname⟩ := fields
    have caller := verbatim_caller admissible rfl
    have read : readNewCustomer config = some [toString (telNumber : Int), sname, name, pname] := by
      simp only [readNewCustomer, Option.bind_eq_bind, inside, htel, hsname, hname, hpname,
        Option.bind_some, Option.pure_def]
    refine outcome_guarded login_ caller rfl fun s' second => ?_
    rw [reading_some read]
    refine outcome_reporting
      (issue_change (p := .createCustomer) (compile_newCustomer ?_ admissible.2) second)
    exact fun s member => verbatim s (List.mem_append_right [usr.login, usr.password, usr.rank] member)
  | deleteCustomer => exact absurd rfl customer
  | getItems usr => exact outcome_listing (p := .getItems) rfl rfl
  | createItem => exact absurd rfl other

end

section
variable {e : Engine} {parse : List UInt8 → Option LuaValue} {encode : String → List UInt8}

theorem answer_meaning {k : Conditions} {r : Request} (admissible : r.Admissible)
    (other : r.builder ≠ .createItem) (db : Db) : answer e ⟨k, received r⟩ db = meaning e k r db := by
  rw [← processRequest_meaning admissible other, answer, outcome, serve]

def incomings (calls : List (Conditions × Request)) : List Incoming :=
  calls.map fun call => ⟨call.1, received call.2⟩

/-- Requests with plain strings and numbers that fit, of all builders but `CreateItem`. -/
def Sent (calls : List (Conditions × Request)) : Prop :=
  ∀ call ∈ calls, call.2.Admissible ∧ call.2.builder ≠ .createItem

theorem run_incomings {calls : List (Conditions × Request)} (sent : Sent calls) (db : Db) :
    run e (incomings calls) db = execute (fun call db => (meaning e call.1 call.2 db).2) calls db :=
  execute_map calls (fun call member db =>
    congrArg Prod.snd (answer_meaning (sent call member).1 (sent call member).2 db)) db

/-- Requests with plain strings and telephone numbers of 63 bits, of all builders but `CreateItem`,
one after another: what the server makes of their texts, on the rows and in its answers, is what
their calls mean. -/
theorem run_meaning (e : Engine) (calls : List (Conditions × Request)) (sent : Sent calls) (db : Db) :
    run e (incomings calls) db = execute (fun call db => (meaning e call.1 call.2 db).2) calls db ∧
      outputs (answer e) (incomings calls) db =
        outputs (fun call db => meaning e call.1 call.2 db) calls db :=
  ⟨run_incomings sent db, outputs_map calls (fun call member db =>
    answer_meaning (sent call member).1 (sent call member).2 db) db⟩

def customerCalls : List (Conditions × Request) :=
  [(.calm 0, .createCustomer ⟨"abobus", employeePassword, "Employee"⟩ 375291 "s" "n" "p"),
    (.calm 0, .deleteCustomer ⟨"abobus", employeePassword, "Employee"⟩ 375291)]

theorem customer_stays :
    (run .standard (incomings customerCalls) seeded).customer =
      seeded.customer ++ [⟨375291, some "s", some "n", some "p"⟩] := by
  have fits : ((375291 : Nat) : Int) ≤ int64Max := by decide
  have sent : Sent customerCalls := by
    simp only [Sent, customerCalls, List.forall_mem_cons]
    exact ⟨⟨⟨by decide, fits⟩, by decide⟩, ⟨⟨by decide, fits⟩, by decide⟩, List.forall_mem_nil _⟩
  rw [(run_meaning .standard customerCalls sent seeded).1]
  decide

/-- A client calls a builder other than `CreateItem` with plain strings and writes the whole request,
with any other clients at work, and its connection neither times out nor ends. Once the server, with
one worker, waits for more, the request has been handled at one place of the history of the rows: it
did there what the call means, and the one answer of the call is what has been written. -/
theorem call_exchanged (e : Engine) (parse : List UInt8 → Option LuaValue) (encode : String → List UInt8)
    (first : Db) (events : List (Conditions × Server.Event)) (i : Nat)
    (inTime : ∀ event ∈ own i events, InTime event) (r : Request) (admissible : r.Admissible)
    (other : r.builder ≠ .createItem) (request : List UInt8) (plain : 13 ∉ request)
    (parsed : parse request = received r) (results : List (Option Nat))
    (carried : (write (request ++ crLf) results).2 = true) :
    let s := execute (step (backend e crLf parse encode)) events (start first)
    ∀ connection, s.server.connections[i]? = some connection → Waiting connection →
      connection.arrived.flatten = (write (request ++ crLf) results).1 →
      ∃ before x after response, s.log = before ++ x :: after ∧ x.connection = i ∧
        answered i before = [] ∧ answered i after = [] ∧
        meaning e x.conditions r (run e (before.map (incoming parse)) first) =
          (some response, run e ((before ++ [x]).map (incoming parse)) first) ∧
        sent i s.carried = [encode response ++ crLf] := by
  intro s connection there waiting arrived
  obtain ⟨asked,delivered⟩ := answered_waiting _ rfl first events inTime plain there waiting arrived
  change (answered i s.log).map Prod.fst = _ at asked
  change (answered i s.log).map _ = sent i s.carried at delivered
  rw [carried, if_pos rfl] at asked
  obtain ⟨⟨asked,bytes⟩,one,rfl⟩ := List.map_eq_singleton_iff.mp asked
  obtain ⟨before,x,after,split,earlier,here,later⟩ := List.filterMap_eq_cons_iff.mp one
  obtain ⟨mine,bytes_⟩ := Option.ite_none_right_eq_some.mp here
  obtain ⟨response,answers,pair⟩ := Option.map_eq_some_iff.mp bytes_
  obtain ⟨asks,rfl⟩ := Prod.mk.inj pair
  have handled := (run_served (backend e crLf parse encode) first events).response_at split
  rw [store_eq, answers] at handled
  have means := answer_meaning (e := e) (k := x.conditions) admissible other
    (run e (before.map (incoming parse)) first)
  have request_ : Incoming.mk x.conditions (received r) = incoming parse x := by
    rw [incoming, asks, parsed]
  rw [request_] at means
  obtain ⟨text,said,rfl⟩ := Option.map_eq_some_iff.mp handled.symm
  have rows : (meaning e x.conditions r (run e (before.map (incoming parse)) first)).2 =
      run e ((before ++ [x]).map (incoming parse)) first := by
    rw [← means, List.map_append, run, run, execute_append]
    rfl
  refine ⟨before, x, after, text, split, mine, List.filterMap_eq_nil_iff.mpr earlier, later, ?_, ?_⟩
  · rw [← rows, ← means]
    exact Prod.ext said rfl
  · rw [← delivered, one]
    rfl

/-- Texts as bytes, in UTF-8. -/
def toBytes (text : String) : List UInt8 := text.toList.flatMap String.utf8EncodeChar

def readBytes (bytes : List UInt8) : Option LuaValue := do
  let text ← (ByteArray.mk bytes.toArray).utf8Decode?
  let globals ← LuaChunk.execute (String.ofList text.toList)
  return .table globals []

theorem readBytes_toBytes (r : Request) : readBytes (toBytes (cutRequest r.text)) = received r := by
  have bytes : ByteArray.mk (toBytes (cutRequest r.text)).toArray = (cutRequest r.text).toList.utf8Encode := by
    apply ByteArray.ext
    rw [List.utf8Encode, List.data_toByteArray, toBytes]
  rw [readBytes, bytes, List.utf8Decode?_utf8Encode, Option.bind_eq_bind, Option.bind_some,
    String.ofList_toList, received]
  cases LuaChunk.execute (cutRequest r.text) <;> rfl

def employeeLogin : Request := .auth ⟨"abobus", employeePassword, "Employee"⟩

def employeeText : String :=
  "request = 'auth' user = \x7b\tlogin = 'abobus',\tpassword = " ++
    "'32c9a2ec9e0c4e3a4cc93012b2e72c04b2c395578dcc80b535e951b452eaf9a3',\trank = 'Employee'\x7d"

theorem employeeText_eq : cutRequest employeeLogin.text = employeeText := by decide +kernel

/-- Two clients whose requests overlap; the login of the first one arrives in two chunks. -/
def overlappingCalls : List (Conditions × Server.Event) :=
  [.connect, .client 0 .runSocket, .connect, .client 0 (.receive ((toBytes employeeText).take 100)),
    .client 1 .runSocket, .client 1 (.receive [98, 13, 10]),
    .client 0 (.receive ((toBytes employeeText).drop 100 ++ crLf)), .client 1 .runSocket,
    .client 0 .runSocket, .client 0 .written, .client 0 .runSocket].map (.calm 0, ·)

theorem employee_answered :
    let s := execute (step (backend .standard crLf readBytes toBytes)) overlappingCalls (start seeded)
    ∃ before x after response, s.log = before ++ x :: after ∧ x.connection = 0 ∧
      answered 0 before = [] ∧ answered 0 after = [] ∧
      meaning .standard x.conditions employeeLogin (run .standard (before.map (incoming readBytes)) seeded) =
        (some response, run .standard ((before ++ [x]).map (incoming readBytes)) seeded) ∧
      sent 0 s.carried = [toBytes response ++ crLf] := by
  have inTime : ∀ event ∈ own 0 overlappingCalls, InTime event := by
    simp only [own, overlappingCalls, List.map_cons, List.map_nil, List.filterMap_cons, List.filterMap_nil]
    simp [InTime]
  have admissible : employeeLogin.Admissible := ⟨by decide, trivial⟩
  have parsed : readBytes (toBytes employeeText) = received employeeLogin :=
    employeeText_eq ▸ readBytes_toBytes employeeLogin
  have carried : (write (toBytes employeeText ++ crLf) [some 100, some 100]).2 = true := by decide +kernel
  have ends : ((execute (step (backend .standard crLf readBytes toBytes)) overlappingCalls
      (start seeded)).server.connections[0]?.map fun c => (c.activity, c.arrived.flatten)) =
        some (.pending .read 2, toBytes employeeText ++ crLf) := by decide +kernel
  obtain ⟨connection,there,facts⟩ := Option.map_eq_some_iff.mp ends
  obtain ⟨waiting,arrived⟩ := Prod.mk.inj facts
  exact call_exchanged .standard readBytes toBytes seeded overlappingCalls 0 inTime employeeLogin admissible
    (by decide) (toBytes employeeText) (by decide +kernel) parsed [some 100, some 100] carried connection there
    ⟨2, waiting⟩ (arrived.trans (write_carried.mp carried).symm)

end

end PcCourse.RemoteCalls
