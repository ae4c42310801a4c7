import PcCourse.AnsweredCustomers
import PcCourse.PairedReplies
import PcCourse.RemoteUsers

/-! The panel of an employee over its list of customers, with the server behind it. The request
that it deletes customers with is one for the deletion of a user, and names none. -/
namespace PcCourse.RemoteCustomers

open ClientRequests UserRequest RemoteCalls RemoteRows RoundTrip Outcome Transition
open ErrorTexts (RunsLua)
open RemoteLogin (Refused)
open RemoteTables (Presentable ShowsCustomer)
open RemoteUsers (Typable)

/-- `toULongLong` of what the validator of the field takes, `[1-9]\\d{,12}`; its digits of other
scripts give 0. -/
def toULongLong (text : String) : Nat := (Numeral.digits? text.toList).getD 0

abbrev State := PairedReplies.State (RemoteRows.State CustomerItem Nat) String Db

/-- What the user does at the panel, how requests and replies go on, and requests of others. A
deletion is of the row that was asked about, as the list is when the question is answered with `Ok`. -/
inductive Event where
  | update
  | create (telephone sname name pname : String)
  | delete (row : Nat)
  | serve (k : Conditions) (i : Nat)
  | arrive (i : Nat)
  | fail (i : Nat)
  | other (call : Conditions × Request)

def request (usr : UserLogin) : Pending CustomerItem Nat → Request
  | .receiveRemoteData => .getCustomers usr
  | .insert item => .createCustomer usr item.telNumber item.sname item.name item.pname
  | .remove _ telNumber => .deleteCustomer usr telNumber

def list (lua : Lua) : PairedReplies.Client (RemoteRows.State CustomerItem Nat) (Pending CustomerItem Nat) String where
  pending := RemoteRows.State.pending
  receive i message := RemoteRows.step customersModel lua (.reply i message)

section
variable (e : Engine) (lua : Lua) (usr : UserLogin)

def input (event : RemoteRows.Event CustomerItem) (s : State) : State :=
  PairedReplies.input (list lua) (RemoteRows.step customersModel lua event) s

def createCustomer (telephone sname name pname : String) (s : State) : State :=
  if telephone = "" ∨ sname = "" ∨ name = "" ∨ pname = "" then s
  else input lua (.insert ⟨toULongLong telephone, sname, name, pname⟩) s

/-- What the server makes of a request; an answer that is no text never comes. -/
def answer (k : Conditions) (call : Pending CustomerItem Nat) (db : Db) : Option String × Db :=
  let answered := ServedDatabase.answer e ⟨k, received (request usr call)⟩ db
  (answered.1.bind fun text => ErrorTexts.received (text ++ "\r\n"), answered.2)

def step (event : Event) (s : State) : State :=
  match event with
  | .update => input lua .receiveRemoteData s
  | .create telephone sname name pname => createCustomer lua telephone sname name pname s
  | .delete row => input lua (.remove row) s
  | .serve k i => PairedReplies.serve (list lua) (answer e usr k) i s
  | .arrive i => PairedReplies.arrive (list lua) i s
  | .fail i => PairedReplies.reach i (RemoteRows.step customersModel lua (.fail i)) s
  | .other call => { s with store := (ServedDatabase.answer e ⟨call.1, received call.2⟩ s.store).2 }

end

/-- Somebody in the table is who the row shows. -/
def Shown (db : Db) (item : CustomerItem) : Prop := ∃ row ∈ db.customer, ShowsCustomer row item

/-- No more digits than the validator takes, texts that can be typed, and requests of others that
can be read. -/
def Admits : Event → Prop
  | .create telephone sname name pname =>
    telephone.toList.length ≤ 13 ∧ Typable sname ∧ Typable name ∧ Typable pname
  | .other call => call.2.Admissible ∧ call.2.builder ≠ .createItem
  | _ => True

def TypableCall : Pending CustomerItem Nat → Prop
  | .insert item =>
    (item.telNumber : Int) ≤ int64Max ∧ Typable item.sname ∧ Typable item.name ∧ Typable item.pname
  | .remove _ telNumber => (telNumber : Int) ≤ int64Max
  | .receiveRemoteData => True

/-- What a message puts into the list is in the table. -/
def Harmless (lua : Lua) (db : Db) (call : Pending CustomerItem Nat) (message : String) : Prop :=
  ∀ rows, ∀ item ∈ (handle customersModel lua message call rows).1, item ∈ rows ∨ Shown db item

structure Accurate (lua : Lua) (c : Collation) (s : State) : Prop where
  presentable : Presentable c s.store
  listed : ∀ item ∈ s.client.rows, Shown s.store item
  answered : PairedReplies.Answered (list lua) TypableCall (Harmless lua s.store) s

section
variable {e : Engine} {k : Conditions} {lua : Lua} {usr : UserLogin} {db : Db}

theorem toULongLong_fits {text : String} (short : text.toList.length ≤ 13) :
    (toULongLong text : Int) ≤ int64Max := by
  have bound : toULongLong text < 10 ^ 13 := by
    unfold toULongLong Numeral.digits?
    split
    next digits =>
      have all : ∀ c ∈ text.toList, c.isDigit = true := by simpa using digits.2
      exact Nat.lt_of_lt_of_le (Numeral.ofDigitChars_lt all) (Nat.pow_le_pow_right (by decide) short)
    · decide
  have small : (10 : Int) ^ 13 ≤ int64Max := by decide
  omega

theorem Shown.mono {after : Db} (grown : db.customer <+: after.customer) {item : CustomerItem}
    (shown : Shown db item) : Shown after item := by
  obtain ⟨row,member,shows⟩ := shown
  exact ⟨row, grown.subset member, shows⟩

theorem Harmless.mono {after : Db} (grown : db.customer <+: after.customer) {call : Pending CustomerItem Nat}
    {message : String} (harmless : Harmless lua db call message) : Harmless lua after call message :=
  fun rows item member => (harmless rows item member).imp_right (Shown.mono grown)

/-- No request that clients build takes a customer out of the table. -/
theorem customers_grow (e : Engine) (k : Conditions) (r : Request) (db : Db) :
    db.customer <+: (meaning e k r db).2.customer := by
  rw [AnsweredCustomers.customers_extended (k, r)]
  exact List.prefix_append _ _

theorem harmless_refused (runs : RunsLua lua) {m : String} (refused : Refused m) (call : Pending CustomerItem Nat) :
    Harmless lua db call (makeResponseStr m) := by
  intro rows item member
  rw [RemoteUsers.handle_refused customersModel runs refused] at member
  exact .inl member

theorem newCustomer_typable {item : CustomerItem}
    (typable : Typable item.sname ∧ Typable item.name ∧ Typable item.pname) :
    RemoteCalls.newCustomer item.telNumber item.sname item.name item.pname =
      .ok (.createCustomer (some item.telNumber) (some item.sname) (some item.name) (some item.pname)) := by
  simp only [RemoteCalls.newCustomer, storeText_of_fits typable.1.fits, storeText_of_fits typable.2.1.fits,
    storeText_of_fits typable.2.2.fits, ok_bind]
  rfl

theorem newCustomer_refused {item : CustomerItem}
    (typable : Typable item.sname ∧ Typable item.name ∧ Typable item.pname) {fault : SqlError}
    (failed : change e k (RemoteCalls.newCustomer item.telNumber item.sname item.name item.pname) db =
      .error fault) : Refused fault.message := by
  unfold change at failed
  split at failed
  next lost _ =>
    obtain rfl := Except.error.inj failed
    cases lost with
    | lostConnection => exact RemoteLogin.refusals_refused _ (by simp [RemoteLogin.refusals])
    | lockWaitTimeout => exact RemoteLogin.refusals_refused _ (by simp [RemoteLogin.refusals])
  · rw [newCustomer_typable typable, ok_bind] at failed
    have known : fault = .signal .customerAlreadyExists := by
      simp only [Update.exec, PcCourse.createCustomer] at failed
      split at failed
      · exact (Except.error.inj failed).symm
      · cases failed
    subst known
    exact RemoteLogin.refused_of_plain (by decide) (by decide)

theorem exists_related {α β : Type} {r : α → β → Prop} {xs : List α} {ys : List β}
    (all : List.Forall₂ r xs ys) {y : β} (member : y ∈ ys) : ∃ x ∈ xs, r x y := by
  obtain ⟨i,here⟩ := List.mem_iff_getElem?.mp member
  have both := RemoteUsers.forall₂_getElem? all i
  rw [here] at both
  generalize found : xs[i]? = x at both
  cases both with
  | some related => exact ⟨_, List.mem_of_getElem? found, related⟩

theorem admissible_request (plain : ∀ s ∈ [usr.login, usr.password, usr.rank], LuaText.isPlain s = true)
    {call : Pending CustomerItem Nat} (typable : TypableCall call) : (request usr call).Admissible := by
  cases call with
  | receiveRemoteData => exact ⟨plain, trivial⟩
  | insert item =>
    refine ⟨?_, typable.1⟩
    simp only [request, Request.strings, List.forall_mem_cons] at plain ⊢
    exact ⟨plain.1, plain.2.1, plain.2.2.1, typable.2.1.plain, typable.2.2.1.plain, typable.2.2.2.plain,
      List.forall_mem_nil _⟩
  | remove ind telNumber => exact ⟨plain, typable⟩

theorem harmless_behind (runs : RunsLua lua) {ranks : List String} {body : Db → Option String × Db}
    {call : Pending CustomerItem Nat} {text message : String}
    (answered : (behind e k ranks usr body db).1 = some text)
    (arrives : ErrorTexts.received (text ++ "\r\n") = some message)
    (inner : (body db).1 = some text → Harmless lua (body db).2 call message) :
    Harmless lua (behind e k ranks usr body db).2 call message := by
  unfold behind at answered ⊢
  cases refused : refusal e k ranks usr db with
  | none =>
    simp only [refused] at answered
    exact inner answered
  | some m =>
    simp only [refused] at answered
    obtain rfl := Option.some.inj answered
    have shown := RemoteLogin.refusals_refused m (RemoteLogin.refusal_mem refused)
    rw [RemoteUsers.received_refused shown] at arrives
    obtain rfl := Option.some.inj arrives
    exact harmless_refused runs shown call

/-- What comes back for a request brings only customers of the table into the list. -/
theorem served_harmless (runs : RunsLua lua) (presentable : Presentable e.collation db)
    {call : Pending CustomerItem Nat} (typable : TypableCall call)
    {text message : String} (answered : (meaning e k (request usr call) db).1 = some text)
    (arrives : ErrorTexts.received (text ++ "\r\n") = some message) :
    Harmless lua (meaning e k (request usr call) db).2 call message := by
  -- A message that is known to be refused.
  have refused {m : String} (shown : Refused m) (said : makeResponseStr m = text) (db : Db) :
      Harmless lua db call message := by
    subst said
    rw [RemoteUsers.received_refused shown] at arrives
    obtain rfl := Option.some.inj arrives
    exact harmless_refused runs shown call
  cases call with
  | receiveRemoteData =>
    simp only [request, meaning, listed] at answered ⊢
    cases failed : k.fault 0 with
    | some fault =>
      rw [failed] at answered
      cases answered
    | none =>
      simp only [failed] at answered
      obtain ⟨sent,items,written,whole,lists,shown⟩ :=
        RemoteTables.customers_read (e := e) runs presentable.listable presentable.lined k.iteration
      obtain rfl := Option.some.inj (written.symm.trans answered)
      obtain rfl := Option.some.inj (whole.symm.trans arrives)
      intro rows item member
      have read := rowsReceived_of_lists (fun _ _ => readCustomer_iff) rows lists
      rw [handle, customersModel, read] at member
      exact .inr (exists_related shown member)
  | insert item =>
    refine harmless_behind runs answered arrives fun said => ?_
    unfold reported at said ⊢
    cases done : change e k (RemoteCalls.newCustomer item.telNumber item.sname item.name item.pname) db with
    | error fault =>
      simp only [done] at said ⊢
      exact refused (newCustomer_refused typable.2 done) (Option.some.inj said) db
    | ok after =>
      simp only [done] at said ⊢
      obtain rfl := Option.some.inj said
      rw [RemoteUsers.received_success] at arrives
      obtain rfl := Option.some.inj arrives
      obtain ⟨fenv,parsed⟩ := RemoteUsers.parse_success runs
      intro rows new member
      simp only [handle, changed, parsed, if_true, pushBack, List.mem_append, List.mem_singleton] at member
      refine member.imp_right ?_
      rintro rfl
      obtain ⟨u,at_,made,ran⟩ := change_cases done
      rw [newCustomer_typable typable.2] at made
      obtain rfl := Except.ok.inj made
      obtain ⟨t,same,-,rfl⟩ := createCustomer_eq_ok ran
      refine ⟨_, List.mem_append_right _ (List.mem_singleton_self _), Option.some.inj same, rfl, rfl, rfl⟩
  | remove ind telNumber =>
    refine harmless_behind runs answered arrives fun said => ?_
    exact refused (RemoteLogin.refused_of_plain (by decide) (by decide)) (Option.some.inj said) db

variable {s : State} {c : Collation}

theorem Accurate.grow {after : Db} (presentable : Presentable c after)
    (grown : s.store.customer <+: after.customer) (accurate : Accurate lua c s) :
    Accurate lua c { s with store := after } :=
  ⟨presentable, fun item member => (accurate.listed item member).mono grown,
    (accurate.answered.mono fun _ _ => Harmless.mono grown).store after⟩

theorem Accurate.input {event : RemoteRows.Event CustomerItem} {calls : List (Pending CustomerItem Nat)}
    (stepped : RemoteRows.step customersModel lua event s.client =
      { s.client with pending := s.client.pending ++ calls })
    (typable : ∀ call ∈ calls, TypableCall call) (accurate : Accurate lua c s) :
    Accurate lua c (input lua event s) := by
  refine ⟨accurate.presentable, ?_, accurate.answered.input calls (congrArg RemoteRows.State.pending stepped) typable⟩
  change ∀ item ∈ (RemoteRows.step customersModel lua event s.client).rows, Shown s.store item
  rw [stepped]
  exact accurate.listed

/-- A request is done with, and what its reply has brought is in the table. -/
theorem Accurate.reach {event : RemoteRows.Event CustomerItem} {i : Nat}
    (pending : (RemoteRows.step customersModel lua event s.client).pending = s.client.pending.eraseIdx i)
    (brings : ∀ item ∈ (RemoteRows.step customersModel lua event s.client).rows, Shown s.store item)
    (accurate : Accurate lua c s) :
    Accurate lua c (PairedReplies.reach i (RemoteRows.step customersModel lua event) s) :=
  ⟨accurate.presentable, brings, accurate.answered.reach pending⟩

theorem Accurate.arrive {i : Nat} (accurate : Accurate lua c s) :
    Accurate lua c (PairedReplies.arrive (list lua) i s) := by
  rcases PairedReplies.arrive_cases (list lua) s i with same | ⟨message,said,arrived⟩
  · rwa [same]
  rw [arrived]
  change Accurate lua c (PairedReplies.reach i (RemoteRows.step customersModel lua (.reply i message)) s)
  cases here : s.client.pending[i]? with
  | none =>
    have stepped : RemoteRows.step customersModel lua (.reply i message) s.client = s.client := by
      simp only [RemoteRows.step, here]
    refine accurate.reach ?_ ?_ <;> rw [stepped]
    · rw [List.eraseIdx_of_length_le (List.getElem?_eq_none_iff.mp here)]
    · exact accurate.listed
  | some call =>
    have stepped : (RemoteRows.step customersModel lua (.reply i message) s.client).pending =
          s.client.pending.eraseIdx i ∧ (RemoteRows.step customersModel lua (.reply i message) s.client).rows =
          (handle customersModel lua message call s.client.rows).1 := by
      simp only [RemoteRows.step, here, and_self]
    refine accurate.reach stepped.1 fun item member => ?_
    rw [stepped.2] at member
    have harmless := accurate.answered.answered i call message here said
    exact (harmless s.client.rows item member).elim (accurate.listed item) id

theorem Accurate.fail {i : Nat} (accurate : Accurate lua c s) :
    Accurate lua c (PairedReplies.reach i (RemoteRows.step customersModel lua (.fail i)) s) := by
  by_cases waiting : i < s.client.pending.length
  · have stepped : RemoteRows.step customersModel lua (.fail i) s.client =
        ⟨s.client.rows, s.client.pending.eraseIdx i, s.client.emitted ++ [.socketError]⟩ := if_pos waiting
    refine accurate.reach ?_ ?_ <;> rw [stepped]
    exact accurate.listed
  · have stepped : RemoteRows.step customersModel lua (.fail i) s.client = s.client := if_neg waiting
    refine accurate.reach ?_ ?_ <;> rw [stepped]
    · rw [List.eraseIdx_of_length_le (Nat.le_of_not_lt waiting)]
    · exact accurate.listed

theorem Accurate.serve (runs : RunsLua lua)
    (plain : ∀ s ∈ [usr.login, usr.password, usr.rank], LuaText.isPlain s = true) {i : Nat}
    (accurate : Accurate lua e.collation s) :
    Accurate lua e.collation (PairedReplies.serve (list lua) (answer e usr k) i s) ∧
      s.store.customer <+: (PairedReplies.serve (list lua) (answer e usr k) i s).store.customer := by
  rcases PairedReplies.serve_cases (list lua) s i (answer e usr k) with same | ⟨call,here,served⟩
  · rw [same]
    exact ⟨accurate, List.prefix_refl _⟩
  have typable := accurate.answered.asked call (List.mem_of_getElem? here)
  have readable := admissible_request plain typable
  have other : (request usr call).builder ≠ .createItem := by
    cases call <;> exact Builder.noConfusion
  have meant : answer e usr k call s.store =
      ((meaning e k (request usr call) s.store).1.bind fun text => ErrorTexts.received (text ++ "\r\n"),
        (meaning e k (request usr call) s.store).2) := by
    rw [answer, answer_meaning readable other]
  have store : (PairedReplies.serve (list lua) (answer e usr k) i s).store =
      (meaning e k (request usr call) s.store).2 := by rw [served, meant]
  have grown := customers_grow e k (request usr call) s.store
  refine ⟨⟨?_, ?_, ?_⟩, ?_⟩ <;> rw [store]
  · exact accurate.presentable.meaning readable
  · rw [PairedReplies.serve_client]
    exact fun item member => (accurate.listed item member).mono grown
  · refine (accurate.answered.mono fun _ _ => Harmless.mono grown).serve (answer e usr k) ?_
    intro asked message waiting _ said
    obtain rfl := Option.some.inj (here.symm.trans waiting)
    rw [meant] at said
    obtain ⟨text,answered,arrives⟩ := Option.bind_eq_some_iff.mp said
    exact served_harmless runs accurate.presentable typable answered arrives
  · exact grown

theorem Accurate.telNumber_fits {row : Nat} {item : CustomerItem} (here : s.client.rows[row]? = some item)
    (accurate : Accurate lua c s) : (item.telNumber : Int) ≤ int64Max := by
  obtain ⟨stored,member,same,-⟩ := accurate.listed item (List.mem_of_getElem? here)
  rw [same]
  exact (accurate.presentable.listable.customers stored member).1

theorem Accurate.step (runs : RunsLua lua)
    (plain : ∀ s ∈ [usr.login, usr.password, usr.rank], LuaText.isPlain s = true) {event : Event}
    (admits : Admits event) (accurate : Accurate lua e.collation s) :
    Accurate lua e.collation (step e lua usr event s) ∧
      s.store.customer <+: (step e lua usr event s).store.customer := by
  have stays {event : RemoteRows.Event CustomerItem} :
      s.store.customer <+: (RemoteCustomers.input lua event s).store.customer := List.prefix_refl _
  cases event with
  | update =>
    exact ⟨accurate.input rfl (List.forall_mem_singleton.mpr trivial), stays⟩
  | create telephone sname name pname =>
    unfold RemoteCustomers.step RemoteCustomers.createCustomer
    dsimp only
    split
    · exact ⟨accurate, List.prefix_refl _⟩
    · have fits := toULongLong_fits admits.1
      exact ⟨accurate.input rfl (List.forall_mem_singleton.mpr ⟨fits, admits.2⟩), stays⟩
  | delete row =>
    refine ⟨?_, stays⟩
    change Accurate lua e.collation (RemoteCustomers.input lua (.remove row) s)
    cases here : s.client.rows[row]? with
    | none =>
      have stepped : RemoteRows.step customersModel lua (.remove row) s.client =
          { s.client with pending := s.client.pending ++ [] } := by
        simp only [RemoteRows.step, here, List.append_nil]
      exact accurate.input stepped (List.forall_mem_nil _)
    | some item =>
      have stepped : RemoteRows.step customersModel lua (.remove row) s.client =
          { s.client with pending := s.client.pending ++ [.remove row item.telNumber] } := by
        simp only [RemoteRows.step, here, customersModel]
      exact accurate.input stepped (List.forall_mem_singleton.mpr (accurate.telNumber_fits here))
  | serve k i => exact accurate.serve runs plain
  | arrive i =>
    refine ⟨accurate.arrive, ?_⟩
    change _ <+: (PairedReplies.arrive (list lua) i s).store.customer
    rcases PairedReplies.arrive_cases (list lua) s i with same | ⟨message,-,arrived⟩
    · rw [same]
    · rw [arrived]
      exact List.prefix_refl _
  | fail i => exact ⟨accurate.fail, List.prefix_refl _⟩
  | other call =>
    unfold RemoteCustomers.step
    dsimp only
    rw [answer_meaning admits.1 admits.2]
    have grown := customers_grow e call.1 call.2 s.store
    exact ⟨accurate.grow (accurate.presentable.meaning admits.1) grown, grown⟩

end

def opened (lua : Lua) (db : Db) : State := input lua .receiveRemoteData ⟨holding [], [], db⟩

/-- An employee's panel beside the server, in any run in which the names it creates can be typed and
others send requests with plain strings, of all builders but `CreateItem`, with connections that fail
and replies in any order: whoever is in the list is in the table then, with the texts that the list
shows, and no customer has left the table. What `DeleteCustomer` sends deletes none. -/
theorem customers_never_stale (e : Engine) (lua : Lua) (runs : RunsLua lua) (usr : UserLogin)
    (plain : ∀ s ∈ [usr.login, usr.password, usr.rank], LuaText.isPlain s = true) (first : Db)
    (presentable : Presentable e.collation first) (events : List Event) (admits : ∀ event ∈ events, Admits event) :
    let s := execute (step e lua usr) events (opened lua first)
    (∀ item ∈ s.client.rows, Shown s.store item) ∧ first.customer <+: s.store.customer := by
  intro s
  have admitted : Along (step e lua usr) (fun _ event => Admits event) events (opened lua first) :=
    .of_forall _ _ fun event member _ => admits event member
  have empty : Accurate lua e.collation ⟨holding [], [], first⟩ :=
    ⟨presentable, by simp [holding], rfl, by simp [list, holding], by simp [holding]⟩
  have start : Accurate lua e.collation (opened lua first) :=
    empty.input rfl (List.forall_mem_singleton.mpr trivial)
  obtain ⟨accurate,grown⟩ := execute_invariant
    (fun s => Accurate lua e.collation s ∧ first.customer <+: s.store.customer)
    (fun s event admits before => (before.1.step runs plain admits).imp_right before.2.trans) _ _ admitted
    ⟨start, List.prefix_refl _⟩
  exact ⟨accurate.listed, grown⟩

def shift : List Event :=
  [.serve (.calm 0) 0, .arrive 0, .create "375291" "s" "n" "p", .serve (.calm 0) 0, .arrive 0, .delete 3,
    .serve (.calm 0) 0, .arrive 0]

theorem shift_accurate :
    let s := execute (step .standard dataLua ⟨"abobus", employeePassword, "Employee"⟩) shift (opened dataLua seeded)
    (∀ item ∈ s.client.rows, Shown s.store item) ∧ seeded.customer <+: s.store.customer := by
  have admits : ∀ event ∈ shift, Admits event := by
    simp only [shift, List.forall_mem_cons]
    refine ⟨trivial, trivial, ⟨by decide, ?_, ?_, ?_⟩, trivial, trivial, trivial, trivial, trivial,
      List.forall_mem_nil _⟩ <;> exact ⟨by decide, by decide⟩
  have plain : ∀ s ∈ ["abobus", employeePassword, "Employee"], LuaText.isPlain s = true := by decide
  have presentable : Presentable .binary seeded :=
    installed_seeded ▸ RemoteTables.installed_presentable .binary (19675 * 86400) 20041
  exact customers_never_stale .standard dataLua ErrorTexts.dataLua_runs
    ⟨"abobus", employeePassword, "Employee"⟩ plain seeded presentable shift admits

end PcCourse.RemoteCustomers
