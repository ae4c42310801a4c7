import PcCourse.RemoteLogin

/-! The table of customers as clients learn of it: of all that they send only the creation of a
customer writes to it, and its answer says whether it did. -/
namespace PcCourse.AnsweredCustomers

open ClientRequests UserRequest RemoteCalls Outcome Transition
open RemoteLogin (message_ne_success refusal_ne_success refusal_mem)
open ServedDatabase (answer)

def Fits (text : String) : Prop := (text.toList.drop 64).all (· == ' ') = true

instance : DecidablePred Fits := fun _ => inferInstanceAs (Decidable (_ = true))

def kept (text : String) : String := String.ofList (text.toList.take 64)

def registered (call : Conditions × Request) (said : Option String) : Option Customer :=
  match call.2 with
  | .createCustomer _ telNumber sname name pname =>
    if said = some (makeResponseStr "success") then
      some ⟨telNumber, some (kept sname), some (kept name), some (kept pname)⟩
    else none
  | _ => none

/-- What the answers to calls tell of new customers, in their order. -/
def registrations (e : Engine) (calls : List (Conditions × Request)) (db : Db) : List Customer :=
  (calls.zip (outputs (answer e) (incomings calls) db)).filterMap fun pair => registered pair.1 pair.2

section
variable {e : Engine} {k : Conditions} {db : Db} {telNumber : Nat} {sname name pname : String}

theorem newCustomer_eq_ok {u : Update} : RemoteCalls.newCustomer telNumber sname name pname = .ok u ↔
    (∀ text ∈ [sname, name, pname], Fits text) ∧
      u = .createCustomer (some telNumber) (some (kept sname)) (some (kept name)) (some (kept pname)) := by
  simp only [RemoteCalls.newCustomer, bind_eq_ok, pure_eq_ok, storeText_eq_ok, List.forall_mem_cons, Fits, kept]
  constructor
  · rintro ⟨_,⟨hs,rfl⟩,_,⟨hn,rfl⟩,_,⟨hp,rfl⟩,rfl⟩
    exact ⟨⟨hs, hn, hp, List.forall_mem_nil _⟩, rfl⟩
  · rintro ⟨⟨hs,hn,hp,-⟩,rfl⟩
    exact ⟨_, ⟨hs, rfl⟩, _, ⟨hn, rfl⟩, _, ⟨hp, rfl⟩, rfl⟩

theorem createCustomer_iff {sname name pname : Option String} {after : Db} :
    PcCourse.createCustomer (some telNumber) sname name pname db = .ok after ↔
      (∀ row ∈ db.customer, row.telephone ≠ telNumber) ∧
        after = { db with customer := db.customer ++ [⟨telNumber,sname,name,pname⟩] } := by
  constructor
  · intro done
    obtain ⟨t,same,fresh,rfl⟩ := createCustomer_eq_ok done
    obtain rfl := Option.some.inj same
    exact ⟨fun row member same => fresh (List.mem_map.mpr ⟨row, member, same⟩), rfl⟩
  · rintro ⟨fresh,rfl⟩
    have unknown : db.customer.any (fun row => some row.telephone = some telNumber) = false := by
      simpa using fresh
    simp only [PcCourse.createCustomer, unknown, Bool.false_eq_true, if_false]
    rfl

theorem change_newCustomer_iff {after : Db} :
    change e k (RemoteCalls.newCustomer telNumber sname name pname) db = .ok after ↔
      (k.fault 1 = none ∧ (∀ text ∈ [sname, name, pname], Fits text) ∧
        ∀ row ∈ db.customer, row.telephone ≠ telNumber) ∧
      after = { db with
        customer := db.customer ++ [⟨telNumber, some (kept sname), some (kept name), some (kept pname)⟩] } := by
  unfold change
  cases k.fault 1 with
  | some lost => simp
  | none =>
    simp only [true_and, bind_eq_ok, newCustomer_eq_ok]
    constructor
    · rintro ⟨_,⟨fits,rfl⟩,ran⟩
      obtain ⟨fresh,rfl⟩ := createCustomer_iff.mp ran
      exact ⟨⟨fits, fresh⟩, rfl⟩
    · rintro ⟨⟨fits,fresh⟩,rfl⟩
      exact ⟨_, ⟨fits, rfl⟩, createCustomer_iff.mpr ⟨fresh, rfl⟩⟩

variable (e k db) in
theorem meaning_createCustomer (usr : UserLogin) (telNumber : Nat) (sname name pname : String) :
    let done := meaning e k (.createCustomer usr telNumber sname name pname) db
    (done.1 = some (makeResponseStr "success") ↔ refusal e k ["Employee", "Admin"] usr db = none ∧
        k.fault 1 = none ∧ (∀ text ∈ [sname, name, pname], Fits text) ∧
        ∀ row ∈ db.customer, row.telephone ≠ telNumber) ∧
      done.2.customer =
        db.customer ++ (registered (k, .createCustomer usr telNumber sname name pname) done.1).toList := by
  intro done
  have means : done = behind e k ["Employee", "Admin"] usr
    (reported e k (RemoteCalls.newCustomer telNumber sname name pname)) db := rfl
  -- An answer that is no success leaves the table.
  have refused {m : String} (other : m ≠ "success") : some (makeResponseStr m) ≠ some (makeResponseStr "success") :=
    fun same => other (makeResponseStr_inj (Option.some.inj same))
  rw [means, behind]
  cases checked : refusal e k ["Employee", "Admin"] usr db with
  | some m =>
    have other := refused (refusal_ne_success (refusal_mem checked))
    simp only [registered, other, if_false, reduceCtorEq, false_and, Option.toList_none, List.append_nil, and_self]
  | none =>
    have known := @change_newCustomer_iff e k db telNumber sname name pname
    unfold reported
    cases made : change e k (RemoteCalls.newCustomer telNumber sname name pname) db with
    | error fault =>
      have other := refused (message_ne_success fault)
      simp only [registered, other, if_false, true_and, false_iff, Option.toList_none, List.append_nil, and_true]
      intro meets
      cases made.symm.trans (known.mpr ⟨meets, rfl⟩)
    | ok after =>
      obtain ⟨meets,rfl⟩ := known.mp made
      exact ⟨iff_of_true rfl ⟨rfl, meets⟩, rfl⟩

/-- Every call extends the table by what its answer tells. -/
theorem customers_extended (call : Conditions × Request) : (meaning e call.1 call.2 db).2.customer =
    db.customer ++ (registered call (meaning e call.1 call.2 db).1).toList := by
  obtain ⟨k,r⟩ := call
  have other (create : r.builder ≠ .createCustomer) : (meaning e k r db).2.customer = db.customer := by
    rcases meaning_cases e k db r with same | ⟨u,at_,asks,ran⟩
    · rw [same]
    · cases asks with
      | createCustomer => exact absurd rfl create
      | createUser made =>
        simp only [newUser, bind_eq_ok, pure_eq_ok] at made
        obtain ⟨_,-,_,-,_,-,_,-,_,-,rfl⟩ := made
        obtain ⟨_,_,_,-,-,-,-,-,rows⟩ := createUser_eq_ok ran
        rw [rows]
      | deleteUser made =>
        simp only [oldUser, bind_eq_ok, pure_eq_ok] at made
        obtain ⟨_,-,rfl⟩ := made
        rw [← Except.ok.inj ran]
  cases r with
  | createCustomer usr telNumber sname name pname => exact (meaning_createCustomer e k db usr telNumber sname name pname).2
  | _ => rw [other Builder.noConfusion, registered, Option.toList_none, List.append_nil]

theorem run_customers {calls : List (Conditions × Request)} (sent : Sent calls) (db : Db) :
    (run e (incomings calls) db).customer = db.customer ++ registrations e calls db := by
  rw [run_incomings sent, registrations, incomings, outputs_map calls fun call member db =>
    answer_meaning (sent call member).1 (sent call member).2 db]
  exact execute_extends (fun db : Db => db.customer) registered (fun call _ => customers_extended call) calls db

end

/-- After any requests with plain strings, of all builders but `CreateItem`, the customers are those
of the first table and behind them, in the order of the requests, one for each creation that was
answered with success. And a creation is answered so exactly when its caller is let in, nothing
fails, its texts fit, and its number is none of the first table and of no creation before it that was
answered so. -/
theorem customers_as_answered (e : Engine) (calls : List (Conditions × Request)) (sent : Sent calls) (db : Db) :
    (run e (incomings calls) db).customer = db.customer ++ registrations e calls db ∧
      ∀ before k usr telNumber sname name pname after,
        calls = before ++ (k, .createCustomer usr telNumber sname name pname) :: after →
        let there := run e (incomings before) db
        ((answer e ⟨k, received (.createCustomer usr telNumber sname name pname)⟩ there).1 =
            some (makeResponseStr "success") ↔
          refusal e k ["Employee", "Admin"] usr there = none ∧ k.fault 1 = none ∧
            (∀ text ∈ [sname, name, pname], Fits text) ∧
            ∀ row ∈ db.customer ++ registrations e before db, row.telephone ≠ telNumber) := by
  refine ⟨run_customers sent db, ?_⟩
  rintro before k usr telNumber sname name pname after rfl there
  have call := sent _ (List.mem_append_right before List.mem_cons_self)
  have earlier : Sent before := fun call member => sent call (List.mem_append_left _ member)
  rw [answer_meaning call.1 call.2, (meaning_createCustomer e k there usr telNumber sname name pname).1,
    run_customers earlier]

def firstCall : Conditions × Request :=
  (.calm 0, .createCustomer ⟨"abobus", employeePassword, "Employee"⟩ 375291 "s" "n" "p")

/-- The second creation with its number is refused. -/
theorem creation_twice : (run .standard (incomings [firstCall]) seeded).customer =
      seeded.customer ++ [⟨375291, some "s", some "n", some "p"⟩] ∧
    (answer .standard
      ⟨.calm 0, received (.createCustomer ⟨"abobus", employeePassword, "Employee"⟩ 375291 "t" "n" "p")⟩
      (run .standard (incomings [firstCall]) seeded)).1 ≠ some (makeResponseStr "success") := by
  have fits : ((375291 : Nat) : Int) ≤ int64Max := by decide
  have sent : Sent [firstCall, (.calm 0,
      .createCustomer ⟨"abobus", employeePassword, "Employee"⟩ 375291 "t" "n" "p")] := by
    simp only [Sent, List.forall_mem_cons]
    exact ⟨⟨⟨by decide, fits⟩, by decide⟩, ⟨⟨by decide, fits⟩, by decide⟩, List.forall_mem_nil _⟩
  obtain ⟨-,answered⟩ := customers_as_answered .standard _ sent seeded
  have first := (answered [] (.calm 0) ⟨"abobus", employeePassword, "Employee"⟩ 375291 "s" "n" "p" _ rfl).mpr
    ⟨by decide, rfl, by decide, by decide⟩
  have told : registrations .standard [firstCall] seeded = [⟨375291, some "s", some "n", some "p"⟩] := by
    have new : registered firstCall (some (makeResponseStr "success")) =
      some ⟨375291, some "s", some "n", some "p"⟩ := by decide
    have answers : outputs (answer .standard) (incomings [firstCall]) seeded = [some (makeResponseStr "success")] :=
      congrArg (fun said => [said]) first
    rw [registrations, answers, List.zip_cons_cons, List.filterMap_cons, new]
    rfl
  have alone : Sent [firstCall] := by
    simp only [Sent, List.forall_mem_cons]
    exact ⟨⟨⟨by decide, fits⟩, by decide⟩, List.forall_mem_nil _⟩
  have table := (customers_as_answered .standard [firstCall] alone seeded).1
  rw [told] at table
  refine ⟨table, fun said => ?_⟩
  have second := (answered [firstCall] (.calm 0) ⟨"abobus", employeePassword, "Employee"⟩ 375291 "t" "n" "p" [] rfl).mp
    said
  rw [told] at second
  exact second.2.2.2 _ (List.mem_append_right _ List.mem_cons_self) rfl

end PcCourse.AnsweredCustomers
