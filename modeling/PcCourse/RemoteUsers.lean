import PcCourse.RemoteLogin
import PcCourse.RowRemoval

/-! `UsersModel` of an admin client beside the server, by the texts between them: what the builders
write, the server reads, answers and stores, and the handlers of the replies read. With logins and
names that can be typed it does what is told in `UsersModel` without the texts. -/
namespace PcCourse.RemoteUsers

open ClientRequests UserRequest RemoteCalls RemoteRows RoundTrip Outcome Transition
open UsersModel (Client Call Response UserItem)
open ErrorTexts (RunsLua)
open RemoteLogin (IsHex Refused)

/-- A text that its builder and its column take as it is. -/
structure Typable (text : String) : Prop where
  plain : LuaText.isPlain text = true
  fits : text.toList.length ≤ 64

def request (client : Client) : Call → Request
  | .receiveRemoteData => .getUsers client.usr
  | .insert item password =>
    .createUser client.usr item.login (client.hashPassword password) item.sname item.name item.pname
      (client.rankId item.rank)
  | .remove _ login => .deleteUser client.usr login

/-- The handler of the reply, with what it has captured. -/
def handler : Call → Pending UserItem String
  | .receiveRemoteData => .receiveRemoteData
  | .insert item _ => .insert item
  | .remove ind login => .remove ind login

structure TypableItem (client : Client) (item : UserItem) : Prop where
  login : Typable item.login
  sname : Typable item.sname
  name : Typable item.name
  pname : Typable item.pname
  rank : intMin ≤ client.rankId item.rank ∧ client.rankId item.rank ≤ intMax

def TypableCall (client : Client) : Call → Prop
  | .receiveRemoteData => True
  | .insert item _ => TypableItem client item
  | .remove _ login => Typable login

/-- A client with typable credentials, that sends its passwords as SHA-256 in hex. -/
structure Sound (client : Client) : Prop where
  login : Typable client.usr.login
  password : IsHex client.usr.password
  rank : Typable client.usr.rank
  hash : ∀ password, IsHex (client.hashPassword password)

/-- A message reaches its handler; without one the connection has failed. -/
def arrive (lua : Lua) (call : Call) (message : Option String) (users : List UserItem) : List UserItem :=
  match message with
  | some message => (handle usersModel lua message (handler call) users).1
  | none => users

def succeeds (lua : Lua) (message : Option String) : Bool :=
  (message.bind (parseAndGetResponse lua)).any fun parsed => parsed.2 = "success"

/-- The message does to the list what the response does where there are no texts. -/
structure Means (lua : Lua) (call : Call) (message : Option String) (response : Response) : Prop where
  users : ∀ s, (UsersModel.receive call response s).users = arrive lua call message s.users
  succeeds : succeeds lua message = response.succeeds

/-- What comes back for a request, and the table it leaves; a message arrives up to its end. -/
def reply (e : Engine) (client : Client) (k : Conditions) (call : Call) (db : Db) : Option String × Db :=
  let (text, db) := ServedDatabase.answer e ⟨k, received (request client call)⟩ db
  (text.bind fun text => ErrorTexts.received (text ++ "\r\n"), db)

section
variable {e : Engine} {k : Conditions} {client : Client} {db : Db} {lua : Lua}

theorem IsHex.typable {text : String} (hex : IsHex text) : Typable text :=
  ⟨hex.plain, Nat.le_of_eq hex.length⟩

theorem Sound.admissible (sound : Sound client) {call : Call} (typable : TypableCall client call) :
    (request client call).Admissible := by
  have caller : ∀ s ∈ [client.usr.login, client.usr.password, client.usr.rank], LuaText.isPlain s = true := by
    simp only [List.forall_mem_cons]
    exact ⟨sound.login.plain, sound.password.plain, sound.rank.plain, List.forall_mem_nil _⟩
  cases call with
  | receiveRemoteData => exact ⟨caller, trivial⟩
  | insert item password =>
    refine ⟨?_, typable.rank⟩
    simp only [request, Request.strings, List.forall_mem_cons] at caller ⊢
    exact ⟨caller.1, caller.2.1, caller.2.2.1, typable.login.plain, (sound.hash password).plain,
      typable.sname.plain, typable.name.plain, typable.pname.plain, List.forall_mem_nil _⟩
  | remove ind login =>
    refine ⟨?_, trivial⟩
    simp only [request, Request.strings, List.forall_mem_cons] at caller ⊢
    exact ⟨caller.1, caller.2.1, caller.2.2.1, typable.plain, List.forall_mem_nil _⟩

variable (e k db) in
theorem refusal_isAdmin (sound : Sound client) :
    refusal e k ["Admin"] client.usr db = none ↔ k.fault 0 = none ∧ client.isAdmin e.collation db = true := by
  have login : storeText 64 "_login" client.usr.login = .ok client.usr.login := storeText_of_fits sound.login.fits
  simp only [Client.isAdmin, Bool.and_eq_true, decide_eq_true_eq, RemoteLogin.checkUserExists_eq_true login]
  by_cases admin : client.usr.rank = "Admin"
  · have known : client.usr.rank ∈ ["Admin"] := List.mem_singleton.mpr admin
    rw [RemoteLogin.refusal_eq_none_iff sound.password known sound.rank.fits]
    simp [admin]
  · have unknown : client.usr.rank ∉ ["Admin"] := fun member => admin (List.mem_singleton.mp member)
    have refused : refusal e k ["Admin"] client.usr db = some "access_denied" := if_pos unknown
    simp [refused, admin]

theorem handle_refused {α κ : Type} (m : Model α κ) (runs : RunsLua lua) {text : String} (refused : Refused text)
    (call : Pending α κ) (rows : List α) : (handle m lua (makeResponseStr text) call rows).1 = rows := by
  rcases handle_cases m lua (makeResponseStr text) call rows with same | ⟨⟨fenv,said⟩,-⟩
  · exact same
  · have success : RemoteLogin.arrival lua (makeResponseStr text) = .response "success" := by
      rw [RemoteLogin.arrival, said]
    exact absurd success (refused.shown lua runs)

theorem parse_success (runs : RunsLua lua) :
    ∃ fenv, parseAndGetResponse lua (makeResponseStr "success") = some (fenv, "success") := by
  have plain : LuaText.isPlain "success" = true := by decide
  refine ⟨_, parse_eq_some.mpr ⟨?_, rfl⟩⟩
  rw [RemoteLogin.cStr_response (RemoteTables.isLine_of_plain plain), runs.data _ _ (ErrorTexts.execute_response plain)]
  rfl

theorem succeeds_iff {message : String} :
    succeeds lua (some message) = true ↔ RemoteLogin.arrival lua message = .response "success" := by
  unfold succeeds RemoteLogin.arrival
  rw [Option.bind_some]
  cases parseAndGetResponse lua message <;> simp

theorem means_refused (runs : RunsLua lua) {m : String} (refused : Refused m) (call : Call) :
    Means lua call (some (makeResponseStr m)) .failure where
  users s := by
    rw [arrive, handle_refused usersModel runs refused]
    cases call <;> rfl
  succeeds := Bool.eq_false_iff.mpr (mt succeeds_iff.mp (refused.shown lua runs))

theorem means_lost (call : Call) : Means lua call none .failure where
  users _ := by cases call <;> rfl
  succeeds := rfl

theorem received_refused {m : String} (refused : Refused m) :
    ErrorTexts.received (makeResponseStr m ++ "\r\n") = some (makeResponseStr m) :=
  ErrorTexts.received_response refused.line

theorem means_success (runs : RunsLua lua) {call : Call} (change : call ≠ .receiveRemoteData)
    (rows : List (List SqlValue)) : Means lua call (some (makeResponseStr "success")) (.success rows) := by
  obtain ⟨fenv,parsed⟩ := parse_success runs
  refine ⟨fun s => ?_, by simp [succeeds, parsed, Response.succeeds]⟩
  cases call with
  | receiveRemoteData => exact absurd rfl change
  | insert item password =>
    simp only [UsersModel.receive, arrive, handle, handler, changed, parsed, if_true, pushBack]
  | remove ind login => simp only [UsersModel.receive, arrive, handle, handler, changed, parsed, if_true, removeAt]

theorem received_success : ErrorTexts.received (makeResponseStr "success" ++ "\r\n") =
    some (makeResponseStr "success") := ErrorTexts.received_response (by decide)

theorem newUser_typable {item : UserItem} (typable : TypableItem client item) {password : String}
    (hex : IsHex password) :
    newUser item.login password item.sname item.name item.pname (client.rankId item.rank) =
      .ok (.createUser item.login password item.sname item.name item.pname (client.rankId item.rank)) := by
  simp only [newUser, storeText_of_fits typable.login.fits, storeText_of_fits (IsHex.typable hex).fits,
    storeText_of_fits typable.sname.fits, storeText_of_fits typable.name.fits,
    storeText_of_fits typable.pname.fits, ok_bind, hex.trimmed]
  rfl

theorem createUser_fault {c : Collation} {login password sname name pname : String} {rankId : Int}
    {fault : SqlError} (failed : PcCourse.createUser c login password sname name pname rankId db = .error fault) :
    fault = .signal .userAlreadyExists ∨ fault = .signal .rankNotExists := by
  unfold PcCourse.createUser at failed
  split at failed
  · cases failed
    exact .inl rfl
  split at failed
  · cases failed
    exact .inr rfl
  · cases failed

theorem means_listed (runs : RunsLua lua) (presentable : RemoteTables.Presentable e.collation db) :
    ∃ text, (listed e k 1 .getUsers "users" RemoteTables.userFields db).1 =
        (if k.fault 1 = none then some text else none) ∧
      ErrorTexts.received (text ++ "\r\n") = some text ∧
      Means lua .receiveRemoteData (some text) (.success (PcCourse.getUsers db).rows) := by
  obtain ⟨text,items,written,arrives,lists,-,read⟩ := RemoteTables.users_read (e := e) runs
    presentable.integrity presentable.listable presentable.lined k.iteration
  refine ⟨text, ?_, arrives, fun s => ?_, ?_⟩
  · cases failed : k.fault 1 with
    | none =>
      simp only [listed, failed, if_true]
      exact written
    | some fault =>
      simp only [listed, failed]
      rfl
  · have rows := rowsReceived_of_lists (fun _ _ => readUser_iff) s.users lists
    simp only [UsersModel.receive, read, UsersModel.replaceUsers_eq]
    exact (congrArg Prod.fst rows).symm
  · exact succeeds_iff.mpr (RemoteLogin.arrival_eq_response.mpr lists.1)

/-- What the texts of a request and of its answer come to is what is told without them. -/
structure Exact (e : Engine) (lua : Lua) (client : Client) (k : Conditions) (call : Call) (db : Db) : Prop where
  rows : (reply e client k call db).2 = (UsersModel.process e.collation client k call db).2
  means : Means lua call (reply e client k call db).1 (UsersModel.process e.collation client k call db).1

theorem reply_meaning (sound : Sound client) {call : Call} (typable : TypableCall client call) :
    reply e client k call db =
      ((meaning e k (request client call) db).1.bind fun text => ErrorTexts.received (text ++ "\r\n"),
        (meaning e k (request client call) db).2) := by
  have other : (request client call).builder ≠ .createItem := by
    cases call <;> exact Builder.noConfusion
  simp only [reply, answer_meaning (sound.admissible typable) other]

/-- An answer whose message is known, in both parts. -/
theorem exact_line (sound : Sound client) {call : Call} (typable : TypableCall client call) {m : String} {after : Db}
    {response : Response} (line : LuaText.isLine m = true)
    (meant : meaning e k (request client call) db = (some (makeResponseStr m), after))
    (process : UsersModel.process e.collation client k call db = (response, after))
    (means : Means lua call (some (makeResponseStr m)) response) : Exact e lua client k call db := by
  have arrives : reply e client k call db = (some (makeResponseStr m), after) := by
    simp only [reply_meaning sound typable, meant, Option.bind_some, ErrorTexts.received_response line]
  refine ⟨?_, ?_⟩
  · rw [arrives, process]
  · rwa [arrives, process]

theorem exact_refused (runs : RunsLua lua) (sound : Sound client) {call : Call} (typable : TypableCall client call)
    {m : String} (refused : Refused m)
    (meant : meaning e k (request client call) db = (some (makeResponseStr m), db))
    (process : UsersModel.process e.collation client k call db = (.failure, db)) : Exact e lua client k call db :=
  exact_line sound typable refused.line meant process (means_refused runs refused call)

section
variable (runs : RunsLua lua) (sound : Sound client)
  (admin : k.fault 0 = none ∧ client.isAdmin e.collation db = true)
include runs sound admin

theorem exact_listing (presentable : RemoteTables.Presentable e.collation db) :
    Exact e lua client k .receiveRemoteData db := by
  obtain ⟨text,written,arrives,means⟩ := means_listed (e := e) (k := k) runs presentable
  have meant : meaning e k (request client .receiveRemoteData) db =
      listed e k 1 .getUsers "users" RemoteTables.userFields db := by
    simp only [request, meaning, behind, (refusal_isAdmin e k db sound).mpr admin]
    rfl
  have typable : TypableCall client .receiveRemoteData := trivial
  refine ⟨?_, ?_⟩ <;> rw [reply_meaning sound typable, meant]
  · cases failed : k.fault 1 <;> simp only [UsersModel.process, if_pos admin, failed] <;> rfl
  · rw [written]
    cases failed : k.fault 1 with
    | none =>
      simp only [UsersModel.process, if_pos admin, failed, if_true, Option.bind_some, arrives]
      exact means
    | some fault =>
      simp only [UsersModel.process, if_pos admin, failed]
      exact means_lost _

theorem exact_insert {item : UserItem} (typable : TypableItem client item) (password : String) :
    Exact e lua client k (.insert item password) db := by
  have meant : meaning e k (request client (.insert item password)) db =
      reported e k (newUser item.login (client.hashPassword password) item.sname item.name item.pname
        (client.rankId item.rank)) db := by
    simp only [request, meaning, behind, (refusal_isAdmin e k db sound).mpr admin]
  cases failed : k.fault 1 with
  | some fault =>
    have member : fault.error.message ∈ RemoteLogin.refusals := by cases fault <;> simp [RemoteLogin.refusals]
    refine exact_refused runs sound typable (RemoteLogin.refusals_refused _ member) ?_ ?_
    · simp only [meant, reported, change, failed]
    · simp only [UsersModel.process, if_pos admin, failed]
  | none =>
    have change : change e k (newUser item.login (client.hashPassword password) item.sname item.name item.pname
        (client.rankId item.rank)) db = PcCourse.createUser e.collation item.login
          (client.hashPassword password) item.sname item.name item.pname (client.rankId item.rank) db := by
      rw [RemoteCalls.change, failed, newUser_typable typable (sound.hash password)]
      rfl
    rw [reported, change] at meant
    cases done : PcCourse.createUser e.collation item.login (client.hashPassword password) item.sname item.name
        item.pname (client.rankId item.rank) db with
    | ok after =>
      rw [done] at meant
      refine exact_line sound typable (by decide) meant ?_ (means_success runs Call.noConfusion [])
      simp only [UsersModel.process, if_pos admin, failed, done]
    | error fault =>
      rw [done] at meant
      have refused : Refused fault.message := by
        rcases createUser_fault done with rfl | rfl
        · exact RemoteLogin.refused_of_plain (by decide) (by decide)
        · exact RemoteLogin.refused_of_plain (by decide) (by decide)
      refine exact_refused runs sound typable refused meant ?_
      simp only [UsersModel.process, if_pos admin, failed, done]

theorem exact_remove (ind : Nat) {login : String} (typable : Typable login) :
    Exact e lua client k (.remove ind login) db := by
  have meant : meaning e k (request client (.remove ind login)) db = unreported e k (oldUser login) db := by
    simp only [request, meaning, behind, (refusal_isAdmin e k db sound).mpr admin]
  have success : Means lua (.remove ind login) (some (makeResponseStr "success")) (.success []) :=
    means_success runs Call.noConfusion []
  cases failed : k.fault 1 with
  | some fault =>
    have kept : meaning e k (request client (.remove ind login)) db =
        (some (makeResponseStr "success"), db) := by simp only [meant, unreported, change, failed]
    refine exact_line sound typable (by decide) kept ?_ success
    simp only [UsersModel.process, if_pos admin, failed]
  | none =>
    have change : change e k (oldUser login) db = PcCourse.deleteUser e.collation login db := by
      rw [RemoteCalls.change, failed, oldUser, storeText_of_fits typable.fits]
      rfl
    rw [unreported, change] at meant
    refine exact_line sound typable (by decide) meant ?_ success
    simp only [UsersModel.process, if_pos admin, failed]
    rfl

end

theorem served_exact (runs : RunsLua lua) (sound : Sound client)
    (presentable : RemoteTables.Presentable e.collation db) (call : Call) (typable : TypableCall client call) :
    Exact e lua client k call db := by
  by_cases admin : k.fault 0 = none ∧ client.isAdmin e.collation db = true
  · cases call with
    | receiveRemoteData => exact exact_listing runs sound admin presentable
    | insert item password => exact exact_insert runs sound admin typable password
    | remove ind login => exact exact_remove runs sound admin ind typable
  · obtain ⟨m,said⟩ := Option.ne_none_iff_exists'.mp (mt (refusal_isAdmin e k db sound).mp admin)
    have refused : Refused m := RemoteLogin.refusals_refused m (RemoteLogin.refusal_mem said)
    refine exact_refused runs sound typable refused ?_ (if_neg admin)
    cases call <;> simp only [request, meaning, behind, said]

end

/-- The client beside the server, as the texts between them have it: `replies` holds the messages
that have not reached it, each with its request, and `none` where the server has ended the
connection without one; `failed` tells that something other than a success has reached it. -/
structure State where
  users : List UserItem
  db : Db
  sent : List Call
  replies : List (Call × Option String)
  failed : Bool

def idle (users : List UserItem) (db : Db) : State := ⟨users, db, [], [], false⟩

section
variable (e : Engine) (lua : Lua) (client : Client)

def serve (k : Conditions) (i : Nat) (s : State) : State :=
  match s.sent[i]? with
  | some call =>
    let (message, db) := reply e client k call s.db
    { s with db := db, sent := s.sent.eraseIdx i, replies := s.replies ++ [(call, message)] }
  | none => s

def deliver (i : Nat) (s : State) : State :=
  match s.replies[i]? with
  | some (call, message) =>
    { s with
      users := arrive lua call message s.users
      replies := s.replies.eraseIdx i
      failed := s.failed || !succeeds lua message }
  | none => s

def step (event : Conditions × UsersModel.Event) (s : State) : State :=
  match event.2 with
  | .receiveRemoteData => { s with sent := s.sent ++ [.receiveRemoteData] }
  | .insert item password => { s with sent := s.sent ++ [.insert item password] }
  | .remove row =>
    match s.users[row]? with
    | some user => { s with sent := s.sent ++ [.remove row user.login] }
    | none => s
  | .serve i => serve e client event.1 i s
  | .deliver i => deliver lua i s

end

/-- The two levels hold the same, message for response. -/
structure Simulates (lua : Lua) (t : State) (s : UsersModel.State) : Prop where
  users : t.users = s.users
  db : t.db = s.db
  sent : t.sent = s.sent
  replies : List.Forall₂ (fun reply response => reply.1 = response.1 ∧ Means lua reply.1 reply.2 response.2)
    t.replies s.replies
  failed : t.failed = s.failed

def TypableReply (client : Client) : Call × Response → Prop
  | (.receiveRemoteData, .success rows) => ∀ newUsers, UsersModel.readUsers rows = some newUsers →
    ∀ user ∈ newUsers, Typable user.login
  | (call, _) => TypableCall client call

/-- Every login of the table, of the list and under way can be typed. -/
structure Tame (c : Collation) (client : Client) (s : UsersModel.State) : Prop where
  presentable : RemoteTables.Presentable c s.db
  stored : ∀ u ∈ s.db.user, Typable u.login
  listed : ∀ user ∈ s.users, Typable user.login
  sent : ∀ call ∈ s.sent, TypableCall client call
  replies : ∀ reply ∈ s.replies, TypableReply client reply

/-- Only users that can be typed are inserted. -/
def Admits (client : Client) (event : Conditions × UsersModel.Event) : Prop :=
  ∀ item password, event.2 = .insert item password → TypableItem client item

section
variable {c : Collation} {client : Client} {k : Conditions} {s : UsersModel.State} {db : Db} {call : Call}

theorem isLine_typable {text : String} (typable : Typable text) : RemoteTables.IsLine text := by
  rintro s ⟨⟩
  exact RemoteTables.isLine_of_plain typable.plain

theorem process_cases (c : Collation) (client : Client) (k : Conditions) (call : Call) (db : Db) :
    (UsersModel.process c client k call db).2 = db ∨
      (∃ item password, call = .insert item password ∧ PcCourse.createUser c item.login
        (client.hashPassword password) item.sname item.name item.pname (client.rankId item.rank) db =
          .ok (UsersModel.process c client k call db).2) ∨
      ∃ ind login, call = .remove ind login ∧
        PcCourse.deleteUser c login db = .ok (UsersModel.process c client k call db).2 := by
  unfold UsersModel.process
  split
  · split
    · exact .inl rfl
    · split
      next done => exact .inr (.inl ⟨_, _, rfl, done⟩)
      · exact .inl rfl
    · split
      next done => exact .inr (.inr ⟨_, _, rfl, done⟩)
      · exact .inl rfl
    · exact .inl rfl
    · exact .inl rfl
  · exact .inl rfl

theorem process_presentable (presentable : RemoteTables.Presentable c db) (typable : TypableCall client call) :
    RemoteTables.Presentable c (UsersModel.process c client k call db).2 := by
  rcases process_cases c client k call db with same | ⟨item,password,rfl,done⟩ | ⟨ind,login,rfl,done⟩
  · rwa [same]
  · have ran : (Update.createUser item.login (client.hashPassword password) item.sname item.name item.pname
      (client.rankId item.rank)).exec c ⟨0, .first⟩ db = .ok _ := done
    have filled : Filled (.createUser item.login (client.hashPassword password) item.sname item.name
      item.pname (client.rankId item.rank)) := ⟨rfl, rfl, rfl⟩
    have tidy : RemoteTables.Tidy (.createUser item.login (client.hashPassword password) item.sname item.name
        item.pname (client.rankId item.rank)) :=
      ⟨isLine_typable typable.login, isLine_typable typable.sname, isLine_typable typable.name,
        isLine_typable typable.pname⟩
    exact presentable.exec ⟨filled, tidy⟩ ran
  · have ran : (Update.deleteUser login).exec c ⟨0, .first⟩ db = .ok _ := done
    have asked : Filled (.deleteUser login) ∧ RemoteTables.Tidy (.deleteUser login) := ⟨trivial, trivial⟩
    exact presentable.exec asked ran

theorem process_stored (stored : ∀ u ∈ db.user, Typable u.login) (typable : TypableCall client call) :
    ∀ u ∈ (UsersModel.process c client k call db).2.user, Typable u.login := by
  rcases process_cases c client k call db with same | ⟨item,password,rfl,done⟩ | ⟨ind,login,rfl,done⟩
  · rwa [same]
  · obtain ⟨_,_,_,⟨⟩,_,_,-,-,rows⟩ := createUser_eq_ok done
    rw [rows]
    exact forall_snoc stored typable.login
  · rw [← Except.ok.inj done]
    exact fun u member => stored u (List.mem_of_mem_filter member)

theorem process_rows {rows : List (List SqlValue)}
    (listed : (UsersModel.process c client k .receiveRemoteData db).1 = .success rows) :
    rows = (PcCourse.getUsers db).rows := by
  unfold UsersModel.process at listed
  split at listed
  · cases failed : k.fault 1 <;> rw [failed] at listed <;> cases listed
    rfl
  · cases listed

theorem process_inserted {item : UserItem} {password : String} {rows : List (List SqlValue)}
    (inserted : (UsersModel.process c client k (.insert item password) db).1 = .success rows) :
    ∃ after, PcCourse.createUser c item.login (client.hashPassword password) item.sname item.name item.pname
      (client.rankId item.rank) db = .ok after := by
  unfold UsersModel.process at inserted
  split at inserted
  · cases failed : k.fault 1 <;> simp only [failed] at inserted
    · split at inserted
      next after done => exact ⟨after, done⟩
      · cases inserted
    · cases inserted
  · cases inserted

theorem process_reply (presentable : RemoteTables.Presentable c db) (stored : ∀ u ∈ db.user, Typable u.login)
    (typable : TypableCall client call) :
    TypableReply client (call, (UsersModel.process c client k call db).1) := by
  cases response : (UsersModel.process c client k call db).1 with
  | failure => cases call <;> exact typable
  | success rows =>
    cases call with
    | receiveRemoteData =>
      intro newUsers read user member
      rw [process_rows response] at read
      have inside := List.mem_map_of_mem (f := UserItem.login) member
      rw [UsersModel.readUsers_logins presentable.integrity read] at inside
      obtain ⟨u,here,same⟩ := List.mem_map.mp inside
      exact same ▸ stored u here
    | insert item password => exact typable
    | remove ind login => exact typable

theorem Tame.receive {response : Response} (brings : TypableReply client (call, response))
    (tame : Tame c client s) : Tame c client (UsersModel.receive call response s) := by
  cases response with
  | failure => cases call <;> exact { tame with }
  | success rows =>
    cases call with
    | receiveRemoteData =>
      cases read : UsersModel.readUsers rows with
      | some newUsers =>
        simp only [UsersModel.receive, read, UsersModel.replaceUsers_eq]
        exact { tame with listed := brings newUsers read }
      | none =>
        simp only [UsersModel.receive, read]
        exact tame
    | insert item password => exact { tame with listed := forall_snoc tame.listed brings.login }
    | remove ind login =>
      exact { tame with listed := fun user member => tame.listed user (List.mem_of_mem_eraseIdx member) }

theorem Tame.step {event : Conditions × UsersModel.Event} (admits : Admits client event)
    (tame : Tame c client s) : Tame c client (UsersModel.step c client event s) := by
  obtain ⟨k,event⟩ := event
  cases event with
  | receiveRemoteData => exact { tame with sent := forall_snoc tame.sent trivial }
  | insert item password => exact { tame with sent := forall_snoc tame.sent (admits item password rfl) }
  | remove row =>
    unfold UsersModel.step
    dsimp only
    split
    next user here =>
      exact { tame with sent := forall_snoc tame.sent (tame.listed user (List.mem_of_getElem? here)) }
    · exact tame
  | serve i =>
    unfold UsersModel.step
    dsimp only
    split
    next call here =>
      have typable := tame.sent call (List.mem_of_getElem? here)
      exact { tame with
        presentable := process_presentable tame.presentable typable
        stored := process_stored tame.stored typable
        sent := fun call member => tame.sent call (List.mem_of_mem_eraseIdx member)
        replies := forall_snoc tame.replies (process_reply tame.presentable tame.stored typable) }
    · exact tame
  | deliver i =>
    unfold UsersModel.step
    dsimp only
    split
    next call response here =>
      have brings := tame.replies (call, response) (List.mem_of_getElem? here)
      have left : Tame c client { s with replies := s.replies.eraseIdx i } :=
        { tame with replies := fun reply member => tame.replies reply (List.mem_of_mem_eraseIdx member) }
      exact left.receive brings
    · exact tame

theorem forall₂_getElem? {α β : Type} {r : α → β → Prop} {xs : List α} {ys : List β}
    (all : List.Forall₂ r xs ys) (i : Nat) : Option.Rel r xs[i]? ys[i]? := by
  induction all generalizing i with
  | nil => exact .none
  | cons head _ ih =>
    cases i with
    | zero => exact .some head
    | succ i => exact ih i

theorem forall₂_eraseIdx {α β : Type} {r : α → β → Prop} {xs : List α} {ys : List β}
    (all : List.Forall₂ r xs ys) (i : Nat) : List.Forall₂ r (xs.eraseIdx i) (ys.eraseIdx i) := by
  rw [List.eraseIdx_eq_take_drop_succ, List.eraseIdx_eq_take_drop_succ]
  exact List.rel_append (List.forall₂_take i all) (List.forall₂_drop (i + 1) all)

variable {e : Engine} {lua : Lua} {t : State}

theorem typable_stored {column text stored : String} (plain : LuaText.isPlain text = true)
    (kept : storeText 64 column text = .ok stored) : Typable stored := by
  refine ⟨?_, ?_⟩
  · obtain ⟨-,rfl⟩ := storeText_eq_ok.mp kept
    simp only [LuaText.isPlain, LuaText.isLine, Bool.and_eq_true, List.all_eq_true, String.toList_ofList] at plain ⊢
    exact ⟨fun c member => plain.1 c (List.mem_of_mem_take member),
      fun c member => plain.2 c (List.mem_of_mem_take member)⟩
  · obtain ⟨-,rfl⟩ := storeText_eq_ok.mp kept
    rw [String.toList_ofList]
    exact List.length_take_le _ _

/-- Requests that can be read leave logins that can be typed. -/
theorem meaning_typable {r : Request} (admissible : r.Admissible) (stored : ∀ u ∈ db.user, Typable u.login) :
    ∀ u ∈ (meaning e k r db).2.user, Typable u.login := by
  rcases meaning_cases e k db r with same | ⟨update,at_,asks,ran⟩
  · rwa [same]
  cases asks with
  | createUser known =>
    simp only [newUser, bind_eq_ok, pure_eq_ok] at known
    obtain ⟨login,kept,_,-,_,-,_,-,_,-,rfl⟩ := known
    obtain ⟨_,_,_,⟨⟩,_,_,-,-,rows⟩ := createUser_eq_ok ran
    rw [rows]
    exact forall_snoc stored (typable_stored (admissible.1 _ (by simp [Request.strings])) kept)
  | deleteUser known =>
    simp only [oldUser, bind_eq_ok, pure_eq_ok] at known
    obtain ⟨login,-,rfl⟩ := known
    rw [← Except.ok.inj ran]
    exact fun u member => stored u (List.mem_of_mem_filter member)
  | createCustomer known =>
    simp only [RemoteCalls.newCustomer, bind_eq_ok, pure_eq_ok] at known
    obtain ⟨_,-,_,-,_,-,rfl⟩ := known
    obtain ⟨_,-,-,rows⟩ := createCustomer_eq_ok ran
    rw [rows]
    exact stored

theorem serve_sent {i : Nat} {call : Call} (here : t.sent[i]? = some call) :
    serve e client k i t =
      { t with
        db := (reply e client k call t.db).2
        sent := t.sent.eraseIdx i
        replies := t.replies ++ [(call, (reply e client k call t.db).1)] } := by
  simp only [serve, here]

theorem step_sent {i : Nat} {call : Call} (here : s.sent[i]? = some call) :
    UsersModel.step e.collation client (k, .serve i) s =
      { s with
        db := (UsersModel.process e.collation client k call s.db).2
        sent := s.sent.eraseIdx i
        replies := s.replies ++ [(call, (UsersModel.process e.collation client k call s.db).1)] } := by
  simp only [UsersModel.step, here]

theorem serve_simulates (runs : RunsLua lua) (sound : Sound client) {i : Nat}
    (presentable : RemoteTables.Presentable e.collation s.db)
    (typable : ∀ call, s.sent[i]? = some call → TypableCall client call) (simulates : Simulates lua t s) :
    Simulates lua (serve e client k i t) (UsersModel.step e.collation client (k, .serve i) s) := by
  obtain ⟨users,db,sent,replies,failed⟩ := simulates
  cases here : s.sent[i]? with
  | none =>
    simp only [serve, UsersModel.step, sent, here]
    exact ⟨users, db, sent, replies, failed⟩
  | some call =>
    obtain ⟨after,means⟩ := served_exact (k := k) runs sound presentable call (typable call here)
    rw [← db] at after means
    rw [serve_sent (sent ▸ here), step_sent here, ← db]
    refine ⟨users, after, congrArg (List.eraseIdx · i) sent, List.rel_append replies ?_, failed⟩
    refine .cons ⟨rfl, ?_⟩ .nil
    dsimp only
    exact means

theorem receive_frame (call : Call) (response : Response) (s : UsersModel.State) :
    (UsersModel.receive call response s).db = s.db ∧ (UsersModel.receive call response s).sent = s.sent ∧
      (UsersModel.receive call response s).replies = s.replies ∧
      (UsersModel.receive call response s).failed = (s.failed || !response.succeeds) := by
  cases response with
  | failure => cases call <;> simp [UsersModel.receive, Response.succeeds]
  | success rows =>
    refine ⟨?_, ?_, ?_, ?_⟩ <;> cases call
    all_goals simp only [UsersModel.receive, Response.succeeds, Bool.not_true, Bool.or_false]
    all_goals split <;> rfl

theorem deliver_simulates (simulates : Simulates lua t s) (i : Nat) :
    Simulates lua (deliver lua i t) (UsersModel.step c client (k, .deliver i) s) := by
  obtain ⟨users,db,sent,replies,failed⟩ := simulates
  unfold deliver UsersModel.step
  dsimp only
  have both := forall₂_getElem? replies i
  have rest := forall₂_eraseIdx replies i
  generalize t.replies[i]? = reply, s.replies[i]? = response at both
  cases both with
  | none => exact ⟨users, db, sent, replies, failed⟩
  | @some reply response related =>
    obtain ⟨call,message⟩ := reply
    obtain ⟨_,response⟩ := response
    obtain ⟨rfl,means⟩ := related
    obtain ⟨sameDb,sameSent,sameReplies,sameFailed⟩ :=
      receive_frame call response { s with replies := s.replies.eraseIdx i }
    refine ⟨?_, db.trans sameDb.symm, sent.trans sameSent.symm, ?_, ?_⟩
    · rw [means.users, users]
    · rw [sameReplies]
      exact rest
    · rw [sameFailed, ← means.succeeds, ← failed]

theorem Simulates.step (runs : RunsLua lua) (sound : Sound client) {event : Conditions × UsersModel.Event}
    (presentable : RemoteTables.Presentable e.collation s.db)
    (typable : ∀ i call, event.2 = .serve i → s.sent[i]? = some call → TypableCall client call)
    (simulates : Simulates lua t s) :
    Simulates lua (step e lua client event t) (UsersModel.step e.collation client event s) := by
  obtain ⟨k,event⟩ := event
  obtain ⟨users,db,sent,replies,failed⟩ := simulates
  cases event with
  | receiveRemoteData => exact ⟨users, db, congrArg (· ++ _) sent, replies, failed⟩
  | insert item password => exact ⟨users, db, congrArg (· ++ _) sent, replies, failed⟩
  | remove row =>
    unfold RemoteUsers.step UsersModel.step
    rw [users]
    dsimp only
    cases s.users[row]? with
    | none => exact ⟨users, db, sent, replies, failed⟩
    | some user => exact ⟨rfl, db, congrArg (· ++ _) sent, replies, failed⟩
  | serve i =>
    exact serve_simulates runs sound presentable (fun call => typable i call rfl) ⟨users, db, sent, replies, failed⟩
  | deliver i => exact deliver_simulates ⟨users, db, sent, replies, failed⟩ i

end

section
variable (e : Engine) {lua : Lua} (runs : RunsLua lua) {client : Client} (sound : Sound client)
include runs sound

/-- A run with typable logins, beside the run without texts. -/
theorem run_simulates {events : List (Conditions × UsersModel.Event)} (admits : ∀ event ∈ events, Admits client event)
    {users : List UserItem} {db : Db} (presentable : RemoteTables.Presentable e.collation db)
    (stored : ∀ u ∈ db.user, Typable u.login) (listed : ∀ user ∈ users, Typable user.login) :
    Simulates lua (execute (step e lua client) events (idle users db))
      (execute (UsersModel.step e.collation client) events (UsersModel.received users db)) := by
  have admitted : Along (step e lua client) (fun _ event => Admits client event) events (idle users db) :=
    .of_forall _ _ fun event member _ => admits event member
  have first : Simulates lua (idle users db) (UsersModel.received users db) := ⟨rfl, rfl, rfl, .nil, rfl⟩
  have tame : Tame e.collation client (UsersModel.received users db) :=
    ⟨presentable, stored, listed, by simp [UsersModel.received], by simp [UsersModel.received]⟩
  have both (t : State) (s : UsersModel.State) (event : Conditions × UsersModel.Event)
      (admits : Admits client event) (related : Simulates lua t s ∧ Tame e.collation client s) :
      Simulates lua (step e lua client event t) (UsersModel.step e.collation client event s) ∧
        Tame e.collation client (UsersModel.step e.collation client event s) :=
    ⟨related.1.step runs sound related.2.presentable
      fun i call _ here => related.2.sent call (List.mem_of_getElem? here), related.2.step admits⟩
  have reached := execute_related (f := id) (fun t s => Simulates lua t s ∧ Tame e.collation client s) both events
    _ _ admitted ⟨first, tame⟩
  rw [List.map_id] at reached
  exact reached.1

end

/-- With logins and names that can be typed, of at most 64 characters and without quotes, backslashes
and line ends, an administrator's list of users and the table of the server are in every run those of
the model without texts: what is written, carried and read makes no difference to either. -/
theorem texts_refine (e : Engine) (lua : Lua) (runs : RunsLua lua) (client : Client) (sound : Sound client)
    (events : List (Conditions × UsersModel.Event)) (admits : ∀ event ∈ events, Admits client event)
    (users : List UserItem) (db : Db) (presentable : RemoteTables.Presentable e.collation db)
    (stored : ∀ u ∈ db.user, Typable u.login) (listed : ∀ user ∈ users, Typable user.login) :
    let t := execute (step e lua client) events (idle users db)
    let s := execute (UsersModel.step e.collation client) events (UsersModel.received users db)
    t.users = s.users ∧ t.db = s.db ∧ t.sent = s.sent ∧
      t.replies.map Prod.fst = s.replies.map Prod.fst ∧ t.failed = s.failed := by
  intro t s
  obtain ⟨users_,db_,sent,replies,failed⟩ := run_simulates e runs sound admits presentable stored listed
  refine ⟨users_, db_, sent, ?_, failed⟩
  rw [← List.forall₂_eq_eq_eq, List.forall₂_map_left_iff, List.forall₂_map_right_iff]
  exact replies.imp fun _ _ => And.left

def administrator : Client where
  usr := ⟨"amogus", RemoteLogin.adminPassword, "Admin"⟩
  hashPassword := RemoteLogin.knownHash
  ranks := [("Admin", 1), ("Employee", 2), ("Accountant", 3)]

theorem administrator_sound : Sound administrator :=
  ⟨⟨by decide, by decide⟩, RemoteLogin.adminPassword_hex, ⟨by decide, by decide⟩, RemoteLogin.knownHash_hex⟩

theorem seeded_presentable : RemoteTables.Presentable .binary seeded :=
  installed_seeded ▸ RemoteTables.installed_presentable .binary (19675 * 86400) 20041

theorem seeded_typable : ∀ u ∈ seeded.user, Typable u.login := by
  simp only [seeded, List.forall_mem_cons]
  exact ⟨⟨by decide, by decide⟩, ⟨by decide, by decide⟩, ⟨by decide, by decide⟩, List.forall_mem_nil _⟩

def neo : UserItem := ⟨"neo", "s", "n", "p", "Employee"⟩

theorem neo_typable : TypableItem administrator neo :=
  ⟨⟨by decide, by decide⟩, ⟨by decide, by decide⟩, ⟨by decide, by decide⟩, ⟨by decide, by decide⟩, by decide⟩

theorem admits_neo {events : List (Conditions × UsersModel.Event)}
    (inserted : events.all (fun event =>
      match event.2 with
      | .insert item _ => item = neo
      | _ => true) = true) : ∀ event ∈ events, Admits administrator event := by
  rintro ⟨k,event⟩ member item password rfl
  have same := List.all_eq_true.mp inserted _ member
  exact of_decide_eq_true same ▸ neo_typable

def visit : List (Conditions × UsersModel.Event) :=
  [.receiveRemoteData, .serve 0, .deliver 0, .insert neo "p", .serve 0, .deliver 0].map (.calm 0, ·)

theorem visit_as_texts : (execute (step .standard dataLua administrator) visit
    (idle [] seeded)).users.map UserItem.login = ["amogus", "abobus", "amongaust", "neo"] := by
  rw [(texts_refine .standard dataLua ErrorTexts.dataLua_runs administrator administrator_sound visit
    (admits_neo (by decide)) [] seeded seeded_presentable seeded_typable (List.forall_mem_nil _)).1]
  decide

end PcCourse.RemoteUsers
