import PcCourse.RemoteUsers

/-! The panel of an administrator over its list of users, beside the server. The question before a
deletion is a dialog of its own event loop: the user can do nothing else meanwhile, but replies still
come. -/
namespace PcCourse.AdminPanel

open ClientRequests UserRequest RemoteCalls RemoteRows RemoteUsers RoundTrip Outcome Transition
open UsersModel (Client Call Response UserItem)
open ErrorTexts (RunsLua)

/-- `dialog` is the row that the open question is about. -/
structure State where
  model : RemoteUsers.State
  dialog : Option Nat

/-- What the user does at the panel, how requests and replies go on, and requests of others. A
selected row is a row of the list. -/
inductive Event where
  | update
  | create (item : UserItem) (password : String)
  | delete (selected : Option Nat)
  | answer (ok : Bool)
  | serve (k : Conditions) (i : Nat)
  | deliver (i : Nat)
  | other (call : Conditions × Request)

def opened (db : Db) : State := ⟨{ idle [] db with sent := [.receiveRemoteData] }, none⟩

section
variable (e : Engine) (lua : Lua) (client : Client)

def updateModel (k : Conditions) (event : UsersModel.Event) (s : State) : State :=
  { s with model := RemoteUsers.step e lua client (k, event) s.model }

def ask (event : UsersModel.Event) (s : State) : State := updateModel e lua client (.calm 0) event s

def createUser (item : UserItem) (password : String) (s : State) : State :=
  if item.login = "" ∨ password = "" ∨ item.sname = "" ∨ item.name = "" ∨ item.pname = "" ∨ item.rank = "" then s
  else ask e lua client (.insert item password) s

/-- The own account is not asked about; its refusal is a message only. -/
def deleteUser (selected : Option Nat) (s : State) : State :=
  match selected with
  | none => s
  | some row =>
    match s.model.users[row]? with
    | none => s
    | some user => if client.usr.login = user.login then s else { s with dialog := some row }

/-- `Ok` removes the row of the question as it is by then. -/
def answer (ok : Bool) (s : State) : State :=
  match s.dialog with
  | none => s
  | some row =>
    let closed := { s with dialog := none }
    if ok then ask e lua client (.remove row) closed else closed

def step (event : Event) (s : State) : State :=
  match event with
  | .update => if s.dialog = none then ask e lua client .receiveRemoteData s else s
  | .create item password => if s.dialog = none then createUser e lua client item password s else s
  | .delete selected => if s.dialog = none then deleteUser client selected s else s
  | .answer ok => answer e lua client ok s
  | .serve k i => updateModel e lua client k (.serve i) s
  | .deliver i => updateModel e lua client (.calm 0) (.deliver i) s
  | .other call => { s with model.db := (ServedDatabase.answer e ⟨call.1, received call.2⟩ s.model.db).2 }

/-- No reply puts the own account at the row of an open question, and no request of others takes
it out of the table. -/
structure Leaves (own : User) (s : State) (event : Event) : Prop where
  dialog : ∀ i row, event = .deliver i → s.dialog = some row →
    (step e lua client event s).model.users[row]?.map UserItem.login ≠ some own.login
  others : ∀ call, event = .other call → own ∈ (step e lua client event s).model.db.user

end

/-- Users that are created can be typed, and requests of others can be read. -/
def Admits (client : Client) : Event → Prop
  | .create item _ => TypableItem client item
  | .other call => call.2.Admissible ∧ call.2.builder ≠ .createItem
  | _ => True

def Apart (c : Collation) (own : User) (login : String) : Prop :=
  login = own.login ∨ c.same own.login login = false

def ApartReply (c : Collation) (own : User) : Call × Response → Prop
  | (.receiveRemoteData, .success rows) => ∀ newUsers, UsersModel.readUsers rows = some newUsers →
    ∀ user ∈ newUsers, Apart c own user.login
  | (.insert item _, .success _) => Apart c own item.login
  | _ => True

/-- The own account is in the table, and nothing under way takes it out. -/
structure Kept (c : Collation) (own : User) (s : UsersModel.State) : Prop where
  stands : own ∈ s.db.user
  listed : ∀ user ∈ s.users, Apart c own user.login
  sent : ∀ ind login, .remove ind login ∈ s.sent → c.same own.login login = false
  replies : ∀ reply ∈ s.replies, ApartReply c own reply

/-- The panel goes with a list and a table without texts; the row of an open question is not that of
the own account. -/
structure Guarded (c : Collation) (lua : Lua) (client : Client) (own : User) (t : State) : Prop where
  model : ∃ s, Simulates lua t.model s ∧ Tame c client s ∧ Kept c own s
  dialog : ∀ row, t.dialog = some row → t.model.users[row]?.map UserItem.login ≠ some own.login

section
variable {c : Collation} {client : Client} {own : User} {s : UsersModel.State} {k : Conditions} {db : Db}

theorem apart_stored (symmetric : ∀ a b, c.same a b = c.same b a) (valid : Integrity c db)
    (stands : own ∈ db.user) {u : User} (member : u ∈ db.user) : Apart c own u.login := by
  by_cases same : u = own
  · exact .inl (congrArg User.login same)
  · have symm : Std.Symm fun a b : User => c.same a.login b.login = false :=
      ⟨fun a b apart => (symmetric _ _).trans apart⟩
    exact .inr (valid.users.forall stands member (Ne.symm same))

theorem process_stands (stands : own ∈ db.user) {call : Call}
    (sent : ∀ ind login, call = .remove ind login → c.same own.login login = false) :
    own ∈ (UsersModel.process c client k call db).2.user := by
  rcases process_cases c client k call db with same | ⟨item,password,rfl,done⟩ | ⟨ind,login,rfl,done⟩
  · rwa [same]
  · obtain ⟨_,_,_,-,-,-,-,-,rows⟩ := createUser_eq_ok done
    rw [rows]
    exact List.mem_append_left _ stands
  · rw [← Except.ok.inj done]
    refine List.mem_filter.mpr ⟨stands, ?_⟩
    simp [sent ind login rfl]

theorem process_apart (symmetric : ∀ a b, c.same a b = c.same b a) (valid : Integrity c db)
    (stands : own ∈ db.user) (call : Call) :
    ApartReply c own (call, (UsersModel.process c client k call db).1) := by
  cases response : (UsersModel.process c client k call db).1 with
  | failure => cases call <;> trivial
  | success rows =>
    cases call with
    | receiveRemoteData =>
      intro newUsers read user member
      rw [process_rows response] at read
      have inside := List.mem_map_of_mem (f := UserItem.login) member
      rw [UsersModel.readUsers_logins valid read] at inside
      obtain ⟨u,here,same⟩ := List.mem_map.mp inside
      exact same ▸ apart_stored symmetric valid stands here
    | insert item password =>
      obtain ⟨after,done⟩ := process_inserted response
      obtain ⟨_,_,_,⟨⟩,_,_,fresh,-,-⟩ := createUser_eq_ok done
      exact .inr (fresh own stands)
    | remove ind login => trivial

theorem listed_receive {call : Call} {response : Response} (brings : ApartReply c own (call, response))
    (listed : ∀ user ∈ s.users, Apart c own user.login) :
    ∀ user ∈ (UsersModel.receive call response s).users, Apart c own user.login := by
  cases response with
  | failure => cases call <;> exact listed
  | success rows =>
    cases call with
    | receiveRemoteData =>
      cases read : UsersModel.readUsers rows with
      | some newUsers =>
        simp only [UsersModel.receive, read, UsersModel.replaceUsers_eq]
        exact brings newUsers read
      | none =>
        simp only [UsersModel.receive, read]
        exact listed
    | insert item password => exact forall_snoc listed brings
    | remove ind login => exact fun user member => listed user (List.mem_of_mem_eraseIdx member)

theorem Kept.send {call : Call} (other : ∀ ind login, call = .remove ind login → c.same own.login login = false)
    (kept : Kept c own s) : Kept c own { s with sent := s.sent ++ [call] } := by
  refine { kept with sent := fun ind login member => ?_ }
  rcases List.mem_append.mp member with before | new
  · exact kept.sent ind login before
  · exact other ind login (List.mem_singleton.mp new).symm

theorem Kept.step (symmetric : ∀ a b, c.same a b = c.same b a) (valid : Integrity c s.db)
    {event : UsersModel.Event}
    (other : ∀ row, event = .remove row → s.users[row]?.map UserItem.login ≠ some own.login)
    (kept : Kept c own s) : Kept c own (UsersModel.step c client (k, event) s) := by
  unfold UsersModel.step
  cases event with
  | receiveRemoteData => exact kept.send fun _ _ no => Call.noConfusion no
  | insert item password => exact kept.send fun _ _ no => Call.noConfusion no
  | remove row =>
    dsimp only
    split
    next user here =>
      refine kept.send ?_
      rintro _ _ ⟨⟩
      have apart := other row rfl
      rw [here, Option.map_some] at apart
      exact (kept.listed user (List.mem_of_getElem? here)).resolve_left fun own => apart (congrArg some own)
    · exact kept
  | serve i =>
    dsimp only
    split
    next call here =>
      have removes (ind : Nat) (login : String) (removes : call = .remove ind login) :
          c.same own.login login = false := kept.sent ind login (removes ▸ List.mem_of_getElem? here)
      exact { kept with
        stands := process_stands kept.stands removes
        sent := fun ind login member => kept.sent ind login (List.mem_of_mem_eraseIdx member)
        replies := forall_snoc kept.replies (process_apart symmetric valid kept.stands call) }
    · exact kept
  | deliver i =>
    dsimp only
    split
    next call response here =>
      obtain ⟨db,sent,replies,-⟩ := receive_frame call response { s with replies := s.replies.eraseIdx i }
      have brings := kept.replies _ (List.mem_of_getElem? here)
      refine ⟨?_, listed_receive brings kept.listed, ?_, ?_⟩
      · rw [db]
        exact kept.stands
      · rw [sent]
        exact kept.sent
      · rw [replies]
        exact fun reply member => kept.replies reply (List.mem_of_mem_eraseIdx member)
    · exact kept

variable {e : Engine} {lua : Lua} {t : State} (runs : RunsLua lua) (sound : Sound client)
  (symmetric : ∀ a b, e.collation.same a b = e.collation.same b a)

section
include runs sound symmetric

theorem Guarded.updateModel {event : UsersModel.Event} (typed : RemoteUsers.Admits client (k, event))
    (other : ∀ row, event = .remove row → t.model.users[row]?.map UserItem.login ≠ some own.login)
    (dialog : ∀ row, t.dialog = some row →
      (updateModel e lua client k event t).model.users[row]?.map UserItem.login ≠ some own.login)
    (guarded : Guarded e.collation lua client own t) :
    Guarded e.collation lua client own (updateModel e lua client k event t) := by
  obtain ⟨⟨s,simulates,tame,kept⟩,-⟩ := guarded
  refine ⟨⟨_, simulates.step runs sound tame.presentable ?_, tame.step typed,
    kept.step symmetric tame.presentable.integrity (simulates.users ▸ other)⟩, dialog⟩
  exact fun i call _ here => tame.sent call (List.mem_of_getElem? here)

theorem Guarded.ask {event : UsersModel.Event} (typed : RemoteUsers.Admits client (.calm 0, event))
    (other : ∀ row, event = .remove row → t.model.users[row]?.map UserItem.login ≠ some own.login)
    (same : (RemoteUsers.step e lua client (.calm 0, event) t.model).users = t.model.users)
    (guarded : Guarded e.collation lua client own t) :
    Guarded e.collation lua client own (ask e lua client event t) := by
  refine guarded.updateModel runs sound symmetric typed other fun row open_ => ?_
  change (RemoteUsers.step e lua client (.calm 0, event) t.model).users[row]?.map UserItem.login ≠ _
  rw [same]
  exact guarded.dialog row open_

theorem Guarded.answer (ok : Bool) (guarded : Guarded e.collation lua client own t) :
    Guarded e.collation lua client own (answer e lua client ok t) := by
  unfold AdminPanel.answer
  split
  · exact guarded
  next row open_ =>
    have closed : Guarded e.collation lua client own { t with dialog := none } := ⟨guarded.model, by simp⟩
    dsimp only
    split
    · refine closed.ask runs sound symmetric (fun _ _ no => UsersModel.Event.noConfusion no) ?_ ?_
      · rintro _ ⟨⟩
        exact guarded.dialog row open_
      · unfold RemoteUsers.step
        dsimp only
        split <;> rfl
    · exact closed

end

theorem Guarded.delete (same : own.login = client.usr.login) (selected : Option Nat)
    (guarded : Guarded c lua client own t) : Guarded c lua client own (deleteUser client selected t) := by
  unfold AdminPanel.deleteUser
  split
  · exact guarded
  next row =>
    split
    · exact guarded
    next user here =>
      split
      · exact guarded
      next other =>
        refine { guarded with dialog := ?_ }
        rintro _ ⟨⟩
        rw [here, Option.map_some, same]
        exact fun equal => other (Option.some.inj equal).symm

theorem Guarded.other {call : Conditions × Request} (admits : call.2.Admissible ∧ call.2.builder ≠ .createItem)
    (stands : own ∈ (AdminPanel.step e lua client (.other call) t).model.db.user)
    (guarded : Guarded e.collation lua client own t) :
    Guarded e.collation lua client own (AdminPanel.step e lua client (.other call) t) := by
  obtain ⟨⟨s,simulates,tame,kept⟩,dialog⟩ := guarded
  unfold AdminPanel.step at stands ⊢
  dsimp only at stands ⊢
  rw [answer_meaning admits.1 admits.2, simulates.db] at stands ⊢
  let db := (meaning e call.1 call.2 s.db).2
  refine ⟨⟨{ s with db := db }, { simulates with db := rfl }, ?_, { kept with stands := stands }⟩, dialog⟩
  exact { tame with
    presentable := tame.presentable.meaning admits.1
    stored := meaning_typable admits.1 tame.stored }

include runs sound symmetric in
theorem Guarded.step (same : own.login = client.usr.login) {event : Event} (admits : Admits client event)
    (leaves : Leaves e lua client own t event) (guarded : Guarded e.collation lua client own t) :
    Guarded e.collation lua client own (AdminPanel.step e lua client event t) := by
  -- Behind an open question the panel takes no input.
  have idle {u : State} (inner : Guarded e.collation lua client own u) :
      Guarded e.collation lua client own (if t.dialog = none then u else t) := by
    split
    · exact inner
    · exact guarded
  cases event with
  | update =>
    exact idle (guarded.ask runs sound symmetric (fun _ _ no => UsersModel.Event.noConfusion no)
      (fun _ no => UsersModel.Event.noConfusion no) rfl)
  | create item password =>
    apply idle
    unfold AdminPanel.createUser
    split
    · exact guarded
    · refine guarded.ask runs sound symmetric ?_ (fun _ no => UsersModel.Event.noConfusion no) rfl
      rintro _ _ ⟨⟩
      exact admits
  | delete selected => exact idle (guarded.delete same selected)
  | answer ok => exact guarded.answer runs sound symmetric ok
  | serve k i =>
    refine guarded.updateModel runs sound symmetric (fun _ _ no => UsersModel.Event.noConfusion no)
      (fun _ no => UsersModel.Event.noConfusion no) fun row open_ => ?_
    change (RemoteUsers.serve e client k i t.model).users[row]?.map UserItem.login ≠ _
    have kept : (RemoteUsers.serve e client k i t.model).users = t.model.users := by
      unfold RemoteUsers.serve
      split <;> rfl
    rw [kept]
    exact guarded.dialog row open_
  | deliver i =>
    exact guarded.updateModel runs sound symmetric (fun _ _ no => UsersModel.Event.noConfusion no)
      (fun _ no => UsersModel.Event.noConfusion no) fun row => leaves.dialog i row rfl
  | other call => exact guarded.other admits (leaves.others call rfl)

end

/-- An administrator cannot delete the account it has logged in with, in any run of its panel beside
the server, with logins that can be typed and with requests of others in between, of plain strings
and all builders but `CreateItem`, unless a reply puts that account at the row of an open question or
others delete it: the table keeps it. -/
theorem own_account_stands (e : Engine) (symmetric : ∀ a b, e.collation.same a b = e.collation.same b a)
    (lua : Lua) (runs : RunsLua lua) (client : Client) (sound : Sound client) (own : User)
    (same : own.login = client.usr.login) (db : Db) (presentable : RemoteTables.Presentable e.collation db)
    (stored : ∀ u ∈ db.user, Typable u.login) (stands : own ∈ db.user) (events : List Event)
    (admits : ∀ event ∈ events, Admits client event)
    (leaves : Along (step e lua client) (Leaves e lua client own) events (opened db)) :
    own ∈ (execute (step e lua client) events (opened db)).model.db.user := by
  let asked : UsersModel.State := { UsersModel.received [] db with sent := [.receiveRemoteData] }
  have tame : Tame e.collation client asked :=
    ⟨presentable, stored, by simp [asked, UsersModel.received], by simp [asked, TypableCall],
      by simp [asked, UsersModel.received]⟩
  have kept : Kept e.collation own asked :=
    ⟨stands, by simp [asked, UsersModel.received], by simp [asked], by simp [asked, UsersModel.received]⟩
  have first : Guarded e.collation lua client own (opened db) :=
    ⟨⟨asked, ⟨rfl, rfl, rfl, .nil, rfl⟩, tame, kept⟩, by simp [opened]⟩
  obtain ⟨⟨s,simulates,-,last⟩,-⟩ := execute_invariant (Guarded e.collation lua client own)
    (fun _ _ admitted guarded => guarded.step runs sound symmetric same admitted.1 admitted.2) events _
    (leaves.and_forall _ _ admits) first
  rw [simulates.db]
  exact last.stands

/-- The administrator of `db.sql` tries to delete itself, and deletes another user. -/
def deletions : List Event :=
  [.serve (.calm 0) 0, .deliver 0, .delete (some 0), .answer true, .delete (some 1), .answer true,
    .serve (.calm 0) 0]

theorem administrator_stands :
    (⟨"amogus", RemoteLogin.adminPassword, some "amogus_sname", some "amogus_name", some "amogus_pname", 1⟩ : User) ∈
      (execute (step .standard dataLua administrator) deletions (opened seeded)).model.db.user := by
  have symmetric (a b : String) : Engine.standard.collation.same a b = Engine.standard.collation.same b a :=
    BEq.comm
  have leaves (s : State) (event : Event) (own : User) (closed : ∀ i, event = .deliver i → s.dialog = none)
      (alone : ∀ call, event ≠ .other call) : Leaves .standard dataLua administrator own s event := by
    refine ⟨fun i row delivers asked => ?_, fun call same => absurd same (alone call)⟩
    rw [closed i delivers] at asked
    cases asked
  refine own_account_stands .standard symmetric dataLua ErrorTexts.dataLua_runs administrator
    administrator_sound _ rfl seeded seeded_presentable seeded_typable List.mem_cons_self deletions ?_ ?_
  · simp [deletions, Admits]
  · refine ⟨leaves _ _ _ (by simp) (by simp), leaves _ _ _ ?_ (by simp), leaves _ _ _ (by simp) (by simp),
      leaves _ _ _ (by simp) (by simp), leaves _ _ _ (by simp) (by simp), leaves _ _ _ (by simp) (by simp),
      leaves _ _ _ (by simp) (by simp), trivial⟩
    exact fun _ _ => rfl

end PcCourse.AdminPanel
