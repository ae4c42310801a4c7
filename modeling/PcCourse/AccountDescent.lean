import PcCourse.Provenance
import PcCourse.RemoteLogin

/-! Where accounts come from, and who changes the tables: the requests of clients have an account
behind them, and every account one of the first table at its beginning. -/
namespace PcCourse.AccountDescent

open ClientRequests UserRequest RemoteCalls Outcome Transition Provenance
open RemoteLogin (Creates refusal_ne_success refusal_mem)

def caller : Request → UserLogin
  | .auth usr | .getUsers usr | .createUser usr .. | .deleteUser usr _ | .getCustomers usr
  | .createCustomer usr .. | .deleteCustomer usr _ | .getItems usr | .createItem usr .. => usr

/-- The check finds this row for the credentials. -/
def Bears (c : Collation) (db : Db) (usr : UserLogin) (row : User) : Prop :=
  ∃ login password rank, account usr = .ok (login, password, rank) ∧ c.same row.login login = true ∧
    c.same row.sha256Pwd password = true ∧
    ∃ r ∈ db.userRank, row.rank = r.id ∧ r.name.any (fun name => c.same name rank) = true

def holds (db : Db) (row : User) : Prop := row ∈ db.user

/-- The call creates the row, and an administrator's row is found for its caller. -/
def brings (e : Engine) (db : Db) (call : Conditions × Request) (parent row : User) : Prop :=
  Creates e row db call ∧ (caller call.2).rank = "Admin" ∧ Bears e.collation db (caller call.2) parent

/-- The account was there at first, or has been created by an administrator with such an account. -/
def AccountDescends (e : Engine) (first : Db) (calls : List (Conditions × Request)) (row : User) : Prop :=
  Descends (fun call db => (meaning e call.1 call.2 db).2) holds (brings e) first calls row

section
variable {e : Engine} {k : Conditions} {db : Db} {ranks : List String} {usr : UserLogin}

theorem bears_of_granted (granted : refusal e k ranks usr db = none) :
    usr.rank ∈ ranks ∧ ∃ row ∈ db.user, Bears e.collation db usr row := by
  unfold refusal at granted
  split at granted
  · cases granted
  next known =>
    refine ⟨not_not.mp known, ?_⟩
    split at granted
    · cases granted
    split at granted
    · cases granted
    next login password rank fields =>
      split at granted
      next found =>
        obtain ⟨row,user,r,ranked,on,login_,rank_,password_⟩ := checkUserExists_iff.mp found
        exact ⟨row, user, login, password, rank, fields, login_, password_, r, ranked, on, rank_⟩
      · cases granted

theorem bears_of_changed {r : Request} (changed : (meaning e k r db).2 ≠ db) :
    (caller r).rank ∈ ["Employee", "Admin"] ∧ ∃ row ∈ db.user, Bears e.collation db (caller r) row := by
  have behind_ {ranks : List String} {body : Db → Option String × Db} (known : ranks ⊆ ["Employee", "Admin"])
      (means : meaning e k r db = behind e k ranks (caller r) body db) :
      (caller r).rank ∈ ["Employee", "Admin"] ∧ ∃ row ∈ db.user, Bears e.collation db (caller r) row := by
    rw [means, behind] at changed
    cases checked : refusal e k ranks (caller r) db with
    | none => exact (bears_of_granted checked).imp_left (@known _)
    | some m =>
      rw [checked] at changed
      exact absurd rfl changed
  cases r with
  | getUsers | createUser | deleteUser | createCustomer | deleteCustomer => exact behind_ (by decide) rfl
  | auth =>
    refine absurd ?_ changed
    rw [meaning, behind]
    split <;> rfl
  | getCustomers | getItems | createItem => exact absurd rfl changed

theorem brings_of_creates {call : Conditions × Request} {row : User} (creates : Creates e row db call) :
    ∃ parent ∈ db.user, brings e db call parent row := by
  obtain ⟨usr,login,password,sname,name,pname,rankId,asks,said,-⟩ := id creates
  have means : meaning e call.1 call.2 db =
      behind e call.1 ["Admin"] usr (reported e call.1 (newUser login password sname name pname rankId)) db := by
    rw [asks]
    rfl
  rw [means, behind] at said
  cases checked : refusal e call.1 ["Admin"] usr db with
  | some m =>
    rw [checked] at said
    exact absurd (makeResponseStr_inj (Option.some.inj said)) (refusal_ne_success (refusal_mem checked))
  | none =>
    have same : caller call.2 = usr := by rw [asks, caller]
    obtain ⟨admin,parent,member,bears⟩ := bears_of_granted checked
    exact ⟨parent, member, creates, same ▸ List.mem_singleton.mp admin, same ▸ bears⟩

theorem origin (call : Conditions × Request) (row : User) (there : holds (meaning e call.1 call.2 db).2 row) :
    holds db row ∨ ∃ parent, holds db parent ∧ brings e db call parent row := by
  rcases (RemoteLogin.mem_meaning e row db call).mp there with ⟨before,-⟩ | creates
  · exact .inl before
  · exact .inr (brings_of_creates creates)

theorem run_descends {calls : List (Conditions × Request)} (sent : Sent calls) {first : Db} {row : User}
    (there : row ∈ (run e (incomings calls) first).user) : AccountDescends e first calls row := by
  rw [run_incomings sent] at there
  exact execute_descends (fun db call _ row => origin call row) there

end

/-- Through any requests with plain strings, of all builders but `CreateItem`: every account that
there is descends from one of the first table, by creations that each had an administrator's account
behind them which was there by then and descends itself; and whenever a request changes a table, it
carries the credentials of an account that is there and descends so, of an administrator or an
employee. -/
theorem changes_have_accounts (e : Engine) (calls : List (Conditions × Request)) (sent : Sent calls) (first : Db) :
    (∀ row ∈ (run e (incomings calls) first).user, AccountDescends e first calls row) ∧
      ∀ before call after, calls = before ++ call :: after →
        let there := run e (incomings before) first
        run e (incomings (before ++ [call])) first ≠ there →
          (caller call.2).rank ∈ ["Employee", "Admin"] ∧
          ∃ row ∈ there.user, Bears e.collation there (caller call.2) row ∧ AccountDescends e first before row := by
  refine ⟨fun row => run_descends sent, ?_⟩
  rintro before call after rfl there changed
  have earlier : Sent before := fun call member => sent call (List.mem_append_left _ member)
  have next : Sent (before ++ [call]) := List.forall_mem_append.mpr
    ⟨earlier, List.forall_mem_singleton.mpr (sent call (List.mem_append_right _ List.mem_cons_self))⟩
  have stepped : run e (incomings (before ++ [call])) first = (meaning e call.1 call.2 there).2 := by
    rw [run_incomings next, execute_append, ← run_incomings earlier]
    rfl
  rw [stepped] at changed
  obtain ⟨known,row,member,bears⟩ := bears_of_changed changed
  exact ⟨known, row, member, bears, run_descends earlier member⟩

def neo : User := ⟨"neo", RemoteLogin.adminPassword, some "s", some "n", some "p", 1⟩

theorem neo_descends : AccountDescends .standard seeded RemoteLogin.successionCalls neo := by
  have fits : intMin ≤ (1 : Int) ∧ (1 : Int) ≤ intMax := by decide
  have sent : Sent RemoteLogin.successionCalls := by
    simp only [Sent, RemoteLogin.successionCalls, List.forall_mem_cons]
    exact ⟨⟨⟨by decide, fits⟩, by decide⟩, ⟨⟨by decide, trivial⟩, by decide⟩, List.forall_mem_nil _⟩
  have there : neo ∈ (run .standard (incomings RemoteLogin.successionCalls) seeded).user := by
    rw [run_incomings sent]
    decide +kernel
  exact (changes_have_accounts .standard RemoteLogin.successionCalls sent seeded).1 neo there

end PcCourse.AccountDescent
