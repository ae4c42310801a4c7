import PcCourse.RemoteUsers

/-! Whether the list of an admin client agrees with the table of the server once nothing is pending,
by the texts between them. -/
namespace PcCourse.RemoteUsers

open ClientRequests UserRequest RemoteRows RoundTrip Transition
open UsersModel (Client Call Response UserItem)
open ErrorTexts (RunsLua)

def outcome (lua : Lua) (reply : Call × Option String) : Call × Bool := (reply.1, succeeds lua reply.2)

/-- A served request names a login, and other texts, that can be typed; the requests are served and
their replies delivered in the order of `InOrder`. -/
structure Orderly (lua : Lua) (client : Client) (s : State) (event : Conditions × UsersModel.Event) : Prop where
  typable : ∀ i call, event.2 = .serve i → s.sent[i]? = some call → TypableCall client call
  inOrder : UsersModel.InOrder s.users s.db s.sent (s.replies.map (outcome lua)) event

/-- The list agrees whenever nothing is pending and every reply was success. -/
def AgreesWhenIdle (s : State) : Prop :=
  s.sent = [] → s.replies = [] → s.failed = false → UsersModel.Agrees s.users s.db

def refreshed (e : Engine) (lua : Lua) (client : Client) (k : Conditions) (users : List UserItem) (db : Db) :
    List UserItem :=
  arrive lua .receiveRemoteData (reply e client k .receiveRemoteData db).1 users

/-- The state goes with one without texts, whose list is that of the table but for the replies that
have not come. -/
def Tracked (c : Collation) (lua : Lua) (t : State) : Prop :=
  ∃ s, Simulates lua t s ∧ RemoteTables.Presentable c s.db ∧ UsersModel.Invariant c s

section
variable {e : Engine} {lua : Lua} {client : Client} {t : State} {s : UsersModel.State}

theorem Simulates.outcomes (simulates : Simulates lua t s) :
    t.replies.map (outcome lua) = s.replies.map UsersModel.outcome := by
  rw [← List.forall₂_eq_eq_eq, List.forall₂_map_left_iff, List.forall₂_map_right_iff]
  exact simulates.replies.imp fun _ _ related => Prod.ext related.1 related.2.succeeds

theorem Simulates.orderly {event : Conditions × UsersModel.Event} (simulates : Simulates lua t s)
    (orderly : Orderly lua client t event) : UsersModel.Orderly s event := by
  have inOrder := orderly.inOrder
  rw [simulates.users, simulates.db, simulates.sent, simulates.outcomes] at inOrder
  exact inOrder

variable (runs : RunsLua lua) (sound : Sound client)
include runs sound

theorem Tracked.step (symmetric : ∀ a b, e.collation.same a b = e.collation.same b a)
    {event : Conditions × UsersModel.Event} (orderly : Orderly lua client t event)
    (tracked : Tracked e.collation lua t) : Tracked e.collation lua (step e lua client event t) := by
  obtain ⟨s,simulates,presentable,valid⟩ := tracked
  have typable (i : Nat) (call : Call) (serves : event.2 = .serve i) (here : s.sent[i]? = some call) :
      TypableCall client call := orderly.typable i call serves (simulates.sent ▸ here)
  refine ⟨_, simulates.step runs sound presentable typable, ?_,
    UsersModel.step_invariant symmetric (simulates.orderly orderly) valid⟩
  obtain ⟨k,event⟩ := event
  unfold UsersModel.step
  cases event with
  | receiveRemoteData => exact presentable
  | insert item password => exact presentable
  | remove row =>
    dsimp only
    split <;> exact presentable
  | serve i =>
    dsimp only
    split
    next call here => exact process_presentable presentable (typable i call rfl here)
    · exact presentable
  | deliver i =>
    dsimp only
    split
    next call response here =>
      obtain ⟨same,-⟩ := receive_frame call response { s with replies := s.replies.eraseIdx i }
      rw [same]
      exact presentable
    · exact presentable

theorem refreshed_users {k : Conditions} {db : Db} (presentable : RemoteTables.Presentable e.collation db)
    (completed : succeeds lua (reply e client k .receiveRemoteData db).1 = true) (users : List UserItem) :
    UsersModel.readUsers (getUsers db).rows = some (refreshed e lua client k users db) := by
  obtain ⟨-,means⟩ := served_exact (k := k) runs sound presentable .receiveRemoteData trivial
  obtain ⟨_,items,-,-,-,-,read⟩ := RemoteTables.users_read (e := e) runs presentable.integrity
    presentable.listable presentable.lined k.iteration
  have listed := means.succeeds.symm.trans completed
  cases response : (UsersModel.process e.collation client k .receiveRemoteData db).1 with
  | failure =>
    rw [response] at listed
    cases listed
  | success rows =>
    have same := means.users (UsersModel.received users db)
    rw [response, process_rows response] at same
    simp only [UsersModel.receive, read, UsersModel.replaceUsers_eq] at same
    rw [read, same]
    rfl

end

/-- After a refresh that is a success, in every run whose steps are orderly, the list agrees with the
table of the server whenever nothing is pending. -/
theorem run_agrees (e : Engine) (symmetric : ∀ a b, e.collation.same a b = e.collation.same b a) (lua : Lua)
    (runs : RunsLua lua) (client : Client) (sound : Sound client) (db : Db)
    (presentable : RemoteTables.Presentable e.collation db) (k : Conditions) (users : List UserItem)
    (completed : succeeds lua (reply e client k .receiveRemoteData db).1 = true)
    (events : List (Conditions × UsersModel.Event))
    (orderly : Along (step e lua client) (Orderly lua client) events (idle (refreshed e lua client k users db) db)) :
    AgreesWhenIdle (execute (step e lua client) events (idle (refreshed e lua client k users db) db)) := by
  intro _ delivered _
  have read := refreshed_users runs sound presentable completed users
  generalize refreshed e lua client k users db = listed at *
  have first : Tracked e.collation lua (idle listed db) :=
    ⟨UsersModel.received listed db, ⟨rfl, rfl, rfl, .nil, rfl⟩, presentable,
      UsersModel.received_invariant presentable.integrity read⟩
  obtain ⟨s,simulates,-,valid⟩ := execute_invariant (Tracked e.collation lua)
    (fun _ _ orderly tracked => tracked.step runs sound symmetric orderly) events _ orderly first
  have empty : s.replies = [] := by
    have both := simulates.replies
    rw [delivered] at both
    exact List.forall₂_nil_left_iff.mp both
  rw [simulates.users, simulates.db]
  exact valid.agrees empty

theorem along_orderly {e : Engine} {lua : Lua} (runs : RunsLua lua) {client : Client} (sound : Sound client)
    {events : List (Conditions × UsersModel.Event)} (admits : ∀ event ∈ events, Admits client event) {t : State}
    {s : UsersModel.State} (simulates : Simulates lua t s) (tame : Tame e.collation client s)
    (orderly : Along (UsersModel.step e.collation client) UsersModel.Orderly events s) :
    Along (step e lua client) (Orderly lua client) events t := by
  induction events generalizing t s with
  | nil => trivial
  | cons event rest ih =>
    rw [List.forall_mem_cons] at admits
    have typable (i : Nat) (call : Call) (_ : event.2 = .serve i) (here : s.sent[i]? = some call) :
        TypableCall client call := tame.sent call (List.mem_of_getElem? here)
    refine ⟨⟨fun i call serves here => typable i call serves (simulates.sent ▸ here), ?_⟩,
      ih admits.2 (simulates.step runs sound tame.presentable typable) (tame.step admits.1) orderly.2⟩
    rw [simulates.users, simulates.db, simulates.sent, simulates.outcomes]
    exact orderly.1

def seededUsers : List UserItem :=
  [⟨"amogus", "amogus_sname", "amogus_name", "amogus_pname", "Admin"⟩,
    ⟨"abobus", "amogus_sname", "amogus_name", "amogus_pname", "Employee"⟩,
    ⟨"amongaust", "amogus_sname", "amogus_name", "amogus_pname", "Accountant"⟩]

def seededPanel : State := idle (refreshed .standard dataLua administrator (.calm 0) [] seeded) seeded

theorem refresh_completes :
    succeeds dataLua (reply .standard administrator (.calm 0) .receiveRemoteData seeded).1 = true := by
  obtain ⟨-,means⟩ := served_exact (e := .standard) (k := .calm 0) ErrorTexts.dataLua_runs administrator_sound
    seeded_presentable .receiveRemoteData trivial
  rw [means.succeeds]
  decide

theorem seededPanel_eq : seededPanel = idle seededUsers seeded := by
  have read := refreshed_users ErrorTexts.dataLua_runs administrator_sound (e := .standard) seeded_presentable
    refresh_completes []
  have rows : UsersModel.readUsers (getUsers seeded).rows = some seededUsers := by decide
  rw [seededPanel, Option.some.inj (read.symm.trans rows)]

theorem seededUsers_typable : ∀ user ∈ seededUsers, Typable user.login := by
  simp only [seededUsers, List.forall_mem_cons]
  exact ⟨⟨by decide, by decide⟩, ⟨by decide, by decide⟩, ⟨by decide, by decide⟩, List.forall_mem_nil _⟩

def oneRemoval : List (Conditions × UsersModel.Event) := [.remove 1, .serve 0, .deliver 0].map (.calm 0, ·)

theorem one_removal_agrees :
    AgreesWhenIdle (execute (step .standard dataLua administrator) oneRemoval seededPanel) := by
  have symmetric (a b : String) : Engine.standard.collation.same a b = Engine.standard.collation.same b a :=
    BEq.comm
  refine run_agrees .standard symmetric dataLua ErrorTexts.dataLua_runs administrator administrator_sound seeded
    seeded_presentable (.calm 0) [] refresh_completes oneRemoval ?_
  change Along _ _ _ seededPanel
  rw [seededPanel_eq]
  refine along_orderly ErrorTexts.dataLua_runs administrator_sound (admits_neo (by decide))
    (s := UsersModel.received seededUsers seeded) ⟨rfl, rfl, rfl, .nil, rfl⟩
    ⟨seeded_presentable, seeded_typable, seededUsers_typable, by simp [UsersModel.received],
      by simp [UsersModel.received]⟩ ?_
  have served : (execute (UsersModel.step .binary administrator) (oneRemoval.take 2)
      (UsersModel.received seededUsers seeded)).replies.map UsersModel.outcome =
        [(.remove 1 "abobus", true)] := by decide
  refine ⟨⟨?_, ?_, ?_⟩, ⟨?_, ?_, ?_⟩, ⟨?_, ?_, ?_⟩, trivial⟩
  · exact fun _ _ _ no => UsersModel.Event.noConfusion no
  · exact fun _ _ _ no => UsersModel.Event.noConfusion no
  · exact fun _ _ no => UsersModel.Event.noConfusion no
  · rintro i ind login same sent
    cases same
    cases sent
    decide
  · exact fun _ _ _ no => UsersModel.Event.noConfusion no
  · exact fun _ _ no => UsersModel.Event.noConfusion no
  · exact fun _ _ _ no => UsersModel.Event.noConfusion no
  · rintro i ind login same reply
    cases same
    change ((execute (UsersModel.step .binary administrator) (oneRemoval.take 2)
      (UsersModel.received seededUsers seeded)).replies.map UsersModel.outcome)[0]? = _ at reply
    rw [served] at reply
    cases reply
    decide
  · rintro i reply same _ earlier before
    cases same
    exact absurd before List.not_mem_nil

/-- The reply to an insertion overtakes a refresh that was processed before it. -/
def staleRefresh : List (Conditions × UsersModel.Event) :=
  [.receiveRemoteData, .serve 0, .insert neo "p", .serve 0, .deliver 1, .deliver 0].map (.calm 0, ·)

/-- A row is removed twice before the first reply. -/
def doubleRemove : List (Conditions × UsersModel.Event) :=
  [.remove 1, .remove 1, .serve 0, .serve 0, .deliver 0, .deliver 0].map (.calm 0, ·)

def lostRemove : List (Conditions × UsersModel.Event) :=
  [.remove 1, .serve 0, .deliver 0].map
    ({ Conditions.calm 0 with fault := fun i => if i = 1 then some .lostConnection else none }, ·)

/-- A refresh that is out of date undoes an insertion, a second removal takes the row below, and a
removal that has failed is told as done. -/
theorem replies_out_of_step :
    ¬AgreesWhenIdle (execute (step .standard dataLua administrator) staleRefresh seededPanel) ∧
    ¬AgreesWhenIdle (execute (step .standard dataLua administrator) doubleRemove seededPanel) ∧
    ¬AgreesWhenIdle (execute (step .standard dataLua administrator) lostRemove seededPanel) := by
  -- The run without texts ends idle, with a login of the table that is not listed.
  have disagrees {events : List (Conditions × UsersModel.Event)} (login : String)
      (admits : ∀ event ∈ events, Admits administrator event)
      (ends : let s := execute (UsersModel.step .binary administrator) events (UsersModel.received seededUsers seeded)
        s.sent = [] ∧ s.replies = [] ∧ s.failed = false ∧
          login ∈ s.db.user.map User.login ∧ login ∉ s.users.map UserItem.login) :
      ¬AgreesWhenIdle (execute (step .standard dataLua administrator) events seededPanel) := by
    obtain ⟨sent,replies,succeeded,stored,unlisted⟩ := ends
    intro agrees
    rw [seededPanel_eq] at agrees
    have same := run_simulates .standard ErrorTexts.dataLua_runs administrator_sound admits seeded_presentable
      seeded_typable seededUsers_typable
    have delivered := same.replies
    rw [show (execute (UsersModel.step Engine.standard.collation administrator) events _).replies = [] from replies]
      at delivered
    have idle := agrees (same.sent.trans sent) (List.forall₂_nil_right_iff.mp delivered)
      (same.failed.trans succeeded)
    rw [same.users, same.db] at idle
    exact unlisted ((idle.2 login).mpr stored)
  exact ⟨disagrees "neo" (admits_neo (by decide)) (by decide),
    disagrees "amongaust" (admits_neo (by decide)) (by decide),
    disagrees "abobus" (admits_neo (by decide)) (by decide)⟩

end PcCourse.RemoteUsers
