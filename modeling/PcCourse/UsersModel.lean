import PcCourse.LoginWindow
import PcCourse.Deferred
import PcCourse.Listings
import PcCourse.Session
import Mathlib.Data.List.Pairwise

/-! What `UsersModel` of an admin client and the server do to the list and to the table, told
without the texts between them. Every request has a connection of its own, so the server takes the
requests and the client the replies in any order. -/
namespace PcCourse.UsersModel

open Grouping Transition ClientRequests

structure UserItem where
  login : String
  sname : String
  name : String
  pname : String
  rank : String
  deriving DecidableEq, Repr

inductive Call where
  | receiveRemoteData
  | insert (usrItem : UserItem) (password : String)
  | remove (ind : Nat) (login : String)
  deriving DecidableEq, Repr

/-- A response other than success, which may have been lost, or success with the rows it lists. -/
inductive Response where
  | failure
  | success (rows : List (List SqlValue))
  deriving DecidableEq, Repr

def Response.succeeds : Response → Bool
  | .failure => false
  | .success _ => true

/-- `User` as the client holds it, its hash of passwords, and the ranks of the model. -/
structure Client where
  usr : UserLogin
  hashPassword : String → String
  ranks : List (String × Int)

/-- `replies` holds the replies not yet delivered in the order the server processed their
requests; `failed` tells that some reply delivered so far was no success. -/
structure State where
  users : List UserItem
  db : Db
  sent : List Call
  replies : List (Call × Response)
  failed : Bool
  deriving DecidableEq, Repr

inductive Event where
  | receiveRemoteData
  | insert (usrItem : UserItem) (password : String)
  | remove (row : Nat)
  | serve (i : Nat)
  | deliver (i : Nat)
  deriving DecidableEq, Repr

/-- `ranks[name]` of a `QMap`: 0 for a name it does not hold. -/
def Client.rankId (client : Client) (name : String) : Int := (client.ranks.lookup name).getD 0

def Client.isAdmin (c : Collation) (client : Client) (db : Db) : Bool :=
  client.usr.rank = "Admin" &&
    checkUserExists c client.usr.login client.usr.password client.usr.rank db

/-- `get_users`, `create_user` and `delete_user` on the server: the check, then one call. -/
def process (c : Collation) (client : Client) (k : Conditions) (call : Call) (db : Db) : Response × Db :=
  if k.fault 0 = none ∧ client.isAdmin c db = true then
    match call, k.fault 1 with
    | .receiveRemoteData, none => (.success (getUsers db).rows, db)
    | .insert usrItem password, none =>
      match createUser c usrItem.login (client.hashPassword password) usrItem.sname usrItem.name
        usrItem.pname (client.rankId usrItem.rank) db with
      | .ok after => (.success [], after)
      | .error _ => (.failure, db)
    | .remove _ login, none =>
      match deleteUser c login db with
      | .ok after => (.success [], after)
      | .error _ => (.success [], db)
    -- The handler answers success whatever the call gives.
    | .remove _ _, some _ => (.success [], db)
    | _, some _ => (.failure, db)
  else (.failure, db)

def readUser : List SqlValue → Option UserItem
  | [.text login, .text sname, .text name, .text pname, .text rank] =>
    some ⟨login, sname, name, pname, rank⟩
  | _ => none

/-- The loop over `users_ref`; a field that is no text raises. -/
def readUsers (rows : List (List SqlValue)) : Option (List UserItem) := rows.mapM readUser

def replaceUsers (users newUsers : List UserItem) : List UserItem :=
  if users.length = newUsers.length then newUsers
  else if users.length < newUsers.length then newUsers
  else (users.take newUsers.length).mapIdx fun i user => newUsers[i]?.getD user

def receive (call : Call) (response : Response) (s : State) : State :=
  match call, response with
  | _, .failure => { s with failed := true }
  | .receiveRemoteData, .success rows =>
    match readUsers rows with
    | some newUsers => { s with users := replaceUsers s.users newUsers }
    | none => s
  | .insert usrItem _, .success _ => { s with users := s.users ++ [usrItem] }
  | .remove ind _, .success _ => { s with users := s.users.eraseIdx ind }

def step (c : Collation) (client : Client) (event : Conditions × Event) (s : State) : State :=
  match event.2 with
  | .receiveRemoteData => { s with sent := s.sent ++ [.receiveRemoteData] }
  | .insert usrItem password => { s with sent := s.sent ++ [.insert usrItem password] }
  | .remove row =>
    match s.users[row]? with
    | some user => { s with sent := s.sent ++ [.remove row user.login] }
    | none => s
  | .serve i =>
    match s.sent[i]? with
    | some call =>
      let (response, db) := process c client event.1 call s.db
      { s with
        db := db
        sent := s.sent.eraseIdx i
        replies := s.replies ++ [(call, response)] }
    | none => s
  | .deliver i =>
    match s.replies[i]? with
    | some (call, response) =>
      receive call response { s with replies := s.replies.eraseIdx i }
    | none => s

def received (users : List UserItem) (db : Db) : State := ⟨users, db, [], [], false⟩

/-- Each login of the table stands in the list exactly once, and no other does. -/
def Agrees (users : List UserItem) (db : Db) : Prop :=
  (users.map UserItem.login).Nodup ∧ ∀ login, login ∈ users.map UserItem.login ↔ login ∈ db.user.map User.login

/-- The reply replaces the list; it comes with whether it is a success. -/
def Refreshes : Call × Bool → Prop
  | (.receiveRemoteData, true) => True
  | _ => False

def Changes : Call × Bool → Prop
  | (.insert _ _, true) | (.remove _ _, true) => True
  | _ => False

/-- A deletion is processed while its login is in the table, and its call runs; it is delivered while
its login is at its row; no refresh overtakes a change that was processed before it, nor a change a
refresh. Of the replies this takes their requests, and whether they are successes. -/
structure InOrder (users : List UserItem) (db : Db) (sent : List Call) (replies : List (Call × Bool))
    (event : Conditions × Event) : Prop where
  present : ∀ i ind login, event.2 = .serve i → sent[i]? = some (.remove ind login) →
    event.1.fault 1 = none ∧ login ∈ db.user.map User.login
  inPlace : ∀ i ind login, event.2 = .deliver i → replies[i]? = some (.remove ind login, true) →
    users[ind]?.map UserItem.login = some login
  apart : ∀ i reply, event.2 = .deliver i → replies[i]? = some reply →
    ∀ earlier ∈ replies.take i, ¬(Refreshes earlier ∧ Changes reply) ∧ ¬(Changes earlier ∧ Refreshes reply)

def outcome (reply : Call × Response) : Call × Bool := (reply.1, reply.2.succeeds)

def Orderly (s : State) (event : Conditions × Event) : Prop :=
  InOrder s.users s.db s.sent (s.replies.map outcome) event

theorem replaceUsers_eq (users newUsers : List UserItem) : replaceUsers users newUsers = newUsers := by
  unfold replaceUsers
  split
  · rfl
  split
  · rfl
  next larger smaller =>
    apply List.ext_getElem
    · simp only [List.length_mapIdx, List.length_take]
      omega
    · intro i _ bound
      simp [List.getElem_mapIdx, bound]

def tally (logins : List String) : String → ℤ := fun login => logins.count login

theorem tally_append (first second : List String) :
    tally (first ++ second) = tally first + tally second := by
  funext login
  simp [tally, List.count_append]

theorem tally_perm {first second : List String} (same : first.Perm second) :
    tally first = tally second := by
  funext login
  simp [tally, same.count_eq]

theorem perm_of_tally {first second : List String} (same : tally first = tally second) :
    first.Perm second := by
  apply List.perm_iff_count.mpr
  intro login
  exact Int.natCast_inj.mp (congrFun same login)

theorem tally_erase {logins : List String} {login : String} (member : login ∈ logins) :
    tally (logins.erase login) = tally logins - tally [login] := by
  rw [tally_perm (List.perm_cons_erase member), ← List.singleton_append, tally_append]
  abel

theorem tally_eraseIdx {users : List UserItem} {ind : Nat} {login : String}
    (place : users[ind]?.map UserItem.login = some login) :
    tally ((users.eraseIdx ind).map UserItem.login) =
      tally (users.map UserItem.login) - tally [login] := by
  obtain ⟨user,here,rfl⟩ := Option.map_eq_some_iff.mp place
  obtain ⟨bound,rfl⟩ := List.getElem?_eq_some_iff.mp here
  have parts := (List.getElem_cons_eraseIdx_perm bound).map UserItem.login
  rw [← tally_perm parts, List.map_cons, ← List.singleton_append, tally_append]
  abel

/-- What a reply will do to the tally of the list. -/
def effect : Call × Response → Deferred.Effect (String → ℤ)
  | (_, .failure) => .shift 0
  | (.receiveRemoteData, .success rows) =>
    match readUsers rows with
    | some newUsers => .reset (tally (newUsers.map UserItem.login))
    | none => .shift 0
  | (.insert usrItem _, .success _) => .shift (tally [usrItem.login])
  | (.remove _ login, .success _) => .shift (-tally [login])

theorem change_eq_zero {reply : Call × Response} (still : ¬Changes (outcome reply)) :
    (effect reply).change = 0 := by
  obtain ⟨call,response⟩ := reply
  cases response with
  | failure => rfl
  | success rows =>
    cases call with
    | receiveRemoteData =>
      simp only [effect]
      split <;> rfl
    | insert usrItem password => exact absurd trivial still
    | remove ind login => exact absurd trivial still

theorem refreshes_of_reset {reply : Call × Response} (reset : (effect reply).IsReset) :
    Refreshes (outcome reply) := by
  obtain ⟨call,response⟩ := reply
  cases response with
  | failure => cases call <;> exact reset
  | success rows =>
    cases call with
    | receiveRemoteData => trivial
    | insert usrItem password => exact reset
    | remove ind login => exact reset

structure Invariant (c : Collation) (s : State) : Prop where
  integrity : Integrity c s.db
  consistent : Deferred.Consistent (tally (s.users.map UserItem.login))
    (tally (s.db.user.map User.login)) (s.replies.map effect)

section
variable {c : Collation} {client : Client} {k : Conditions} {db : Db} {s : State}

theorem logins_nodup (valid : Integrity c db) : (db.user.map User.login).Nodup := by
  apply List.Pairwise.map _ _ valid.users
  intro a b apart same
  rw [same, c.refl] at apart
  cases apart

theorem readUsers_logins (valid : Integrity c db) {newUsers : List UserItem}
    (read : readUsers (getUsers db).rows = some newUsers) :
    newUsers.map UserItem.login = db.user.map User.login := by
  have rows := Outcome.mapM_eq_some.mp read
  rw [getUsers, List.forall₂_map_left_iff] at rows
  have logins : ∀ (row : User × UserRank) (user : UserItem),
      readUser [.text row.1.login, .ofText row.1.sname, .ofText row.1.name, .ofText row.1.pname,
        .ofText row.2.name] = some user → user.login = row.1.login := by
    intro row user readable
    unfold readUser at readable
    split at readable
    next parts =>
      obtain ⟨same,_⟩ := List.cons.inj parts
      cases readable
      exact (SqlValue.text.inj same).symm
    next => cases readable
  have same := List.forall₂_map_left_iff.mpr
    (List.forall₂_map_right_iff.mpr (rows.imp fun row user readable =>
      (logins row user readable).symm))
  rw [List.forall₂_eq_eq_eq] at same
  have stored := congrArg (List.map User.login) (usersWithRanks_fst valid)
  rw [← same, ← stored, List.map_map]
  rfl

theorem createUser_tally {item : UserItem} {pwd : String} {rank : Int} {after : Db}
    (done : createUser c item.login pwd item.sname item.name item.pname rank db = .ok after) :
    tally (after.user.map User.login) =
      tally (db.user.map User.login) + tally [item.login] := by
  obtain ⟨login,_,_,given,_,_,_,_,rfl⟩ := createUser_eq_ok done
  cases given
  rw [List.map_append, tally_append]
  rfl

theorem deleteUser_tally (valid : Integrity c db) (symmetric : ∀ a b, c.same a b = c.same b a)
    {login : String} (present : login ∈ db.user.map User.login) {after : Db}
    (done : deleteUser c login db = .ok after) :
    tally (after.user.map User.login) = tally (db.user.map User.login) - tally [login] := by
  cases done
  have alike : ∀ u ∈ db.user, (!c.same u.login login) = decide (u.login ≠ login) := by
    obtain ⟨own,inside,rfl⟩ := List.mem_map.mp present
    intro u member
    by_cases same : u.login = own.login
    · simp [same, c.refl]
    · have other : u ≠ own := fun equal => same (congrArg User.login equal)
      have mutual_ : Std.Symm fun a b : User => c.same a.login b.login = false :=
        ⟨fun a b apart => (symmetric _ _).trans apart⟩
      have apart := valid.users.forall member inside other
      simp [same, apart]
  have rows : (db.user.filter fun u => !c.same u.login login).map User.login =
      (db.user.map User.login).erase login := by
    rw [(logins_nodup valid).erase_eq_filter, List.filter_map, List.filter_congr alike]
    congr 1
    apply List.filter_congr
    intro u _
    by_cases same : u.login = login <;> simp [same]
  rw [← tally_erase present, ← rows]
  rfl

theorem process_integrity (valid : Integrity c db) (call : Call) :
    Integrity c (process c client k call db).2 := by
  unfold process
  split
  · split
    · exact valid
    · split
      next after done =>
        have ran : (Update.createUser ..).exec c ⟨0, .first⟩ db = .ok after := done
        exact Update.exec_integrity valid ran
      · exact valid
    · split
      next after done =>
        have ran : (Update.deleteUser (some _)).exec c ⟨0, .first⟩ db = .ok after := done
        exact Update.exec_integrity valid ran
      · exact valid
    · exact valid
    · exact valid
  · exact valid

/-- What a processed request does to the table is what its reply will do to the list. -/
theorem process_note {copy : String → ℤ} {pending : List (Deferred.Effect (String → ℤ))}
    (valid : Integrity c db) (symmetric : ∀ a b, c.same a b = c.same b a) {call : Call}
    (present : ∀ ind login, call = .remove ind login → k.fault 1 = none ∧ login ∈ db.user.map User.login)
    (consistent : Deferred.Consistent copy (tally (db.user.map User.login)) pending) :
    Deferred.Consistent copy (tally ((process c client k call db).2.user.map User.login))
      (pending ++ [effect (call, (process c client k call db).1)]) := by
  have unchanged : Deferred.Consistent copy (tally (db.user.map User.login)) (pending ++ [.shift 0]) := by
    have noted := consistent.note_shift 0
    rwa [add_zero] at noted
  unfold process
  split
  · split
    · simp only [effect]
      split
      next users read =>
        rw [readUsers_logins valid read]
        exact consistent.note_reset
      next => exact unchanged
    · split
      next after done =>
        rw [createUser_tally done]
        exact consistent.note_shift _
      next => exact unchanged
    · split
      next after done =>
        rw [deleteUser_tally valid symmetric (present _ _ rfl).2 done, sub_eq_add_neg]
        exact consistent.note_shift _
      next failed => cases failed
    next failed =>
      rw [(present _ _ rfl).1] at failed
      cases failed
    · exact unchanged
  · exact unchanged

theorem replies_split {i : Nat} {reply : Call × Response} (here : s.replies[i]? = some reply) :
    s.replies = s.replies.take i ++ reply :: s.replies.drop (i + 1) ∧
      s.replies.eraseIdx i = s.replies.take i ++ s.replies.drop (i + 1) := by
  obtain ⟨bound,rfl⟩ := List.getElem?_eq_some_iff.mp here
  refine ⟨?_, List.eraseIdx_eq_take_drop_succ ..⟩
  rw [List.getElem_cons_drop, List.take_append_drop]

theorem Invariant.deliver (valid : Invariant c s) {i : Nat} {call : Call} {response : Response}
    (here : s.replies[i]? = some (call, response)) (orderly : Orderly s (k, .deliver i)) :
    Invariant c (receive call response { s with replies := s.replies.eraseIdx i }) := by
  obtain ⟨integrity,consistent⟩ := valid
  obtain ⟨split,erased⟩ := replies_split here
  have seen : (s.replies.map outcome)[i]? = some (outcome (call, response)) := by
    rw [List.getElem?_map, here, Option.map_some]
  have apart : ∀ earlier ∈ s.replies.take i,
      ¬(Refreshes (outcome earlier) ∧ Changes (outcome (call, response))) ∧
        ¬(Changes (outcome earlier) ∧ Refreshes (outcome (call, response))) := fun earlier member =>
    orderly.apart i _ rfl seen _ (List.map_take ▸ List.mem_map_of_mem member)
  rw [split, List.map_append, List.map_cons] at consistent
  -- A reply that is no change leaves the list or replaces it.
  have unchanged (still : effect (call, response) = .shift 0) :
      Deferred.Consistent (tally (s.users.map UserItem.login)) (tally (s.db.user.map User.login))
        ((s.replies.eraseIdx i).map effect) := by
    rw [still] at consistent
    have applied := consistent.apply_shift (.inl rfl)
    rwa [add_zero, ← List.map_append, ← erased] at applied
  have free (changes : Changes (outcome (call, response))) :
      ∀ e ∈ (s.replies.take i).map effect, ¬e.IsReset := by
    intro e member reset
    obtain ⟨earlier,inside,rfl⟩ := List.mem_map.mp member
    exact (apart earlier inside).1 ⟨refreshes_of_reset reset, changes⟩
  cases response with
  | failure => exact ⟨integrity, unchanged (by cases call <;> rfl)⟩
  | success rows =>
    cases call with
    | receiveRemoteData =>
      simp only [receive]
      split
      next newUsers read =>
        refine ⟨integrity, ?_⟩
        have reset : effect (.receiveRemoteData, .success rows) =
            .reset (tally (newUsers.map UserItem.login)) := by simp only [effect, read]
        rw [reset] at consistent
        have applied := consistent.apply_reset fun e member => by
          obtain ⟨earlier,inside,rfl⟩ := List.mem_map.mp member
          exact change_eq_zero fun changes => (apart earlier inside).2 ⟨changes, trivial⟩
        rw [← List.map_append, ← erased] at applied
        dsimp only
        rwa [replaceUsers_eq]
      next unread => exact ⟨integrity, unchanged (by simp only [effect, unread])⟩
    | insert item password =>
      refine ⟨integrity, ?_⟩
      have applied := consistent.apply_shift (.inr (free trivial))
      rw [← List.map_append, ← erased] at applied
      change Deferred.Consistent (tally ((s.users ++ [item]).map UserItem.login)) _ _
      rwa [List.map_append, tally_append]
    | remove ind login =>
      refine ⟨integrity, ?_⟩
      have place := orderly.inPlace i ind login rfl seen
      have applied := consistent.apply_shift (.inr (free trivial))
      rw [← List.map_append, ← erased, ← sub_eq_add_neg, ← tally_eraseIdx place] at applied
      exact applied

theorem step_invariant (symmetric : ∀ a b, c.same a b = c.same b a) {event : Conditions × Event}
    (orderly : Orderly s event) (valid : Invariant c s) : Invariant c (step c client event s) := by
  obtain ⟨k,event⟩ := event
  cases event with
  | receiveRemoteData => exact ⟨valid.integrity, valid.consistent⟩
  | insert item password => exact ⟨valid.integrity, valid.consistent⟩
  | remove row =>
    unfold step
    dsimp only
    split
    · exact ⟨valid.integrity, valid.consistent⟩
    · exact valid
  | serve i =>
    unfold step
    dsimp only
    split
    next call here =>
      refine ⟨process_integrity valid.integrity call, ?_⟩
      have noted : Deferred.Consistent _ (tally ((process c client k call s.db).2.user.map User.login))
          (s.replies.map effect ++ [effect (call, (process c client k call s.db).1)]) :=
        process_note valid.integrity symmetric
          (fun ind login same => orderly.present i ind login rfl (same ▸ here)) valid.consistent
      rw [List.map_append]
      exact noted
    next => exact valid
  | deliver i =>
    unfold step
    dsimp only
    split
    next call response here => exact valid.deliver here orderly
    next => exact valid

theorem received_invariant (valid : Integrity c db) {users : List UserItem}
    (read : readUsers (getUsers db).rows = some users) : Invariant c (received users db) := by
  refine ⟨valid, ?_⟩
  rw [received, readUsers_logins valid read]
  exact .refl _

/-- With every reply delivered the list agrees with the table. -/
theorem Invariant.agrees (valid : Invariant c s) (delivered : s.replies = []) : Agrees s.users s.db := by
  have settled := valid.consistent
  rw [delivered] at settled
  have same := perm_of_tally settled.settled
  exact ⟨same.nodup_iff.mpr (logins_nodup valid.integrity), fun login => same.mem_iff⟩

end

end PcCourse.UsersModel
