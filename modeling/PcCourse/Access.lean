import PcCourse.Integrity
import PcCourse.UserRequest

/-! What a call can change, by the procedure its text names, and when the check at the
head of a handler lets a request pass. -/
namespace PcCourse

open SqlCall Outcome

/-- What a procedure may change: nothing, the accounts, or the rest of the store. -/
inductive Scope where
  | nothing
  | accounts
  | store
  deriving DecidableEq, Repr

def Procedure.scope : Procedure → Scope
  | .deleteUser | .createUser | .updateUser => .accounts
  | .createCustomer | .deleteCustomer | .addItem | .addItemCount | .addOrderedItem | .addOrder
  | .completeOrder => .store
  | _ => .nothing

/-- The part of the state a procedure of this scope leaves alone. -/
def Scope.Keeps (scope : Scope) (before after : Db) : Prop :=
  match scope with
  | .nothing => after = before
  | .accounts => True
  | .store => after.user = before.user ∧ after.userRank = before.userRank

theorem Scope.keeps_refl (scope : Scope) (db : Db) : scope.Keeps db db := by
  cases scope <;> simp [Keeps]

theorem Update.exec_keeps {c : Collation} {at_ : Occasion} {u : Update} {db after : Db}
    (done : u.exec c at_ db = .ok after) : (Statement.update u).procedure.scope.Keeps db after := by
  cases u with
  | deleteUser | createUser | updateUser => trivial
  | createCustomer tel sname name pname =>
    obtain ⟨t,-,-,rfl⟩ := createCustomer_eq_ok done
    exact ⟨rfl, rfl⟩
  | deleteCustomer tel =>
    cases done
    exact ⟨rfl, rfl⟩
  | addItem name cost count distributor type description =>
    obtain ⟨new,-,-,-,-,rfl⟩ := addItem_eq_ok done
    exact ⟨rfl, rfl⟩
  | addItemCount id appended =>
    obtain ⟨item,rfl,-⟩ := addItemCount_eq_ok done
    exact ⟨rfl, rfl⟩
  | addOrderedItem order item count =>
    obtain ⟨line,-,-,-,-,-,-,rfl⟩ := addOrderedItem_eq_ok done
    exact ⟨rfl, rfl⟩
  | addOrder tel expire =>
    obtain ⟨o,-,-,-,-,-,-,rfl⟩ := addOrder_eq_ok done
    exact ⟨rfl, rfl⟩
  | completeOrder id =>
    rcases completeOrder_eq_ok done with ⟨-,rfl⟩ | ⟨-,item,rfl,-⟩
    · exact ⟨rfl, rfl⟩
    · exact ⟨rfl, rfl⟩

section
variable {e : Engine} {k : Conditions} {s : Session}

theorem Engine.exec_keeps {db : Db} {at_ : Occasion} {p : Procedure} {args : List String}
    {effect : Engine.Effect} (done : e.exec db at_ (callText p.name args) = .ok effect) :
    p.scope.Keeps db effect.db := by
  unfold Engine.exec at done
  cases compiled : e.compile db (callText p.name args) with
  | error fault => simp [compiled] at done
  | ok st =>
    rw [← compile_procedure compiled]
    cases st with
    | query q =>
      simp only [compiled, Except.ok.injEq] at done
      rw [← done]
      exact Scope.keeps_refl _ _
    | update u =>
      simp only [compiled] at done
      cases ran : u.exec e.collation at_ db with
      | error fault => simp [ran] at done
      | ok after =>
        simp only [ran, Except.ok.injEq] at done
        rw [← done]
        exact Update.exec_keeps ran

/-- A call on a connection keeps what its procedure keeps, whether it fails or not. -/
theorem Session.record_keeps (p : Procedure) (args : List String) :
    p.scope.Keeps s.db (s.record (callText p.name args) (s.issue e k (callText p.name args))).db := by
  cases outcome : s.issue e k (callText p.name args) with
  | error fault => exact Scope.keeps_refl _ _
  | ok effect =>
    unfold Session.issue at outcome
    split at outcome
    · cases outcome
    · exact Engine.exec_keeps outcome

end

namespace UserRequest

section
variable {e : Engine} {k : Conditions} {config : LuaValue} {ranks : List String} {s : Session}

theorem makeResponseStr_ne_empty (message : String) : makeResponseStr message ≠ "" := by
  intro empty
  have := congrArg String.toList empty
  simp [makeResponseStr] at this

def checkText (login password rank : String) : String :=
  callText "CheckUserExists" [quoted login, quoted password, quoted rank]

theorem checkText_eq (login password rank : String) : checkText login password rank =
    callText Procedure.checkUserExists.name [quoted login, quoted password, quoted rank] := rfl

variable (e k config ranks s) in
theorem check_session : (checkUserExistance e k config ranks s).2 = s ∨
    ∃ login password rank, (checkUserExistance e k config ranks s).2 =
      s.record (checkText login password rank) (s.issue e k (checkText login password rank)) := by
  unfold checkUserExistance
  split
  · exact .inl rfl
  next login password rank strings =>
    split
    · exact .inl rfl
    · refine .inr ⟨login, password, rank, ?_⟩
      simp only [invokeStoredProcedure, checkText]
      split
      · rfl
      · split <;> rfl

theorem check_db : (checkUserExistance e k config ranks s).2.db = s.db := by
  rcases check_session e k config ranks s with same | ⟨login,password,rank,issued⟩
  · rw [same]
  · rw [issued]
    exact Session.record_keeps .checkUserExists _

theorem check_snapshot : (checkUserExistance e k config ranks s).2.snapshot = s.snapshot := by
  rcases check_session e k config ranks s with same | ⟨login,password,rank,issued⟩
  · rw [same]
  · rw [issued, Session.record_snapshot]

def Granted (e : Engine) (k : Conditions) (config : LuaValue) (ranks : List String) (s : Session) :
    Prop := (checkUserExistance e k config ranks s).1 = ""

theorem check_statement {db : Db} {login password rank : String} {st : Statement}
    (compiled : e.compile db (checkText login password rank) = .ok st) :
    ∃ l p r, st = .query (.checkUserExists l p r) := by
  have named := Engine.compile_procedure (p := .checkUserExists) compiled
  cases st with
  | update u => cases u <;> cases named
  | query q =>
    cases q with
    | checkUserExists l p r => exact ⟨l, p, r, rfl⟩
    | _ => cases named

theorem storeText_map {limit : Nat} {column text : String} {result : Option String} :
    (storeText limit column text).map some = .ok result ↔
      ∃ stored, storeText limit column text = .ok stored ∧ result = some stored := by
  cases storeText limit column text <;> simp [Except.map, eq_comm]

/-- Verbatim strings reach the procedure as they are, but for the width of its parameters. -/
theorem compile_checkText {db : Db} {login password rank : String} {st : Statement}
    (verbatim : ∀ text ∈ [login, password, rank], SqlText.isVerbatim text.toList = true) :
    e.compile db (checkText login password rank) = .ok st ↔
      ∃ l p r, storeText 64 "_login" login = .ok l ∧ storeText 64 "_sha256_pwd" password = .ok p ∧
        storeText 64 "rank_name" rank = .ok r ∧
        st = .query (.checkUserExists (some l) (some (trimBlanks p)) (some r)) := by
  have read : e.compile db (checkText login password rank) =
      e.bind db .checkUserExists [[.str login], [.str password], [.str rank]] :=
    e.compile_quoted db .checkUserExists [login, password, rank] verbatim (by simp)
  rw [read]
  simp only [Engine.bind, Engine.value, literal?, Engine.toChar,
    Engine.toVarchar, Engine.text, bind_eq_ok, pure_eq_ok, Except.ok.injEq, exists_eq_left',
    storeText_map]
  constructor
  · rintro ⟨_,⟨l,stored,rfl⟩,_,kept,_,⟨r,named,rfl⟩,rfl⟩
    cases pwd : storeText 64 "_sha256_pwd" password with
    | error fault => simp [pwd, Except.map] at kept
    | ok p =>
      simp only [pwd, Except.map, Except.ok.injEq] at kept
      exact ⟨l, p, r, stored, rfl, named, by rw [← kept]; rfl⟩
  · rintro ⟨l,p,r,stored,pwd,named,rfl⟩
    exact ⟨some l, ⟨l, stored, rfl⟩, some (trimBlanks p), by simp [pwd, Except.map], some r,
      ⟨r, named, rfl⟩, rfl⟩

/-- Access is granted exactly when the rank is allowed and the statement, as the database
reads it, finds a row for the values it was given. -/
theorem granted_iff : Granted e k config ranks s ↔
    ∃ login password rank, credentials config = some (login, password, rank) ∧ rank ∈ ranks ∧
      k.fault s.calls.length = none ∧ ∃ l p r,
        e.compile s.db (checkText login password rank) = .ok (.query (.checkUserExists l p r)) ∧
        checkUserExists e.collation l p r s.db = true := by
  unfold Granted checkUserExistance
  cases strings : credentials config with
  | none => simp [makeResponseStr_ne_empty]
  | some values =>
    obtain ⟨login,password,rank⟩ := values
    by_cases allowed : rank ∈ ranks
    · simp only [allowed, not_true_eq_false, if_false, invokeStoredProcedure, Session.issue]
      cases failed : k.fault s.calls.length with
      | some fault => simp [makeResponseStr_ne_empty]
      | none =>
        unfold Engine.exec
        rw [← checkText]
        cases compiled : e.compile s.db (checkText login password rank) with
        | error fault => simp [makeResponseStr_ne_empty, compiled]
        | ok st =>
          obtain ⟨l,p,r,rfl⟩ := check_statement compiled
          have zero : toString (0 : Int) = "0" := by decide
          have one : toString (1 : Int) ≠ "0" := by decide
          cases found : checkUserExists e.collation l p r s.db <;>
            simp [Query.run, found, Engine.text, makeResponseStr_ne_empty, allowed, compiled, zero,
              one, -Int.toString_eq_repr]
    · simp [allowed, makeResponseStr_ne_empty]

variable (e k config ranks s) in
theorem guarded_cases (body : Session → Reply) :
    (∃ str, str ≠ "" ∧ str = (checkUserExistance e k config ranks s).1 ∧
      guarded e k ranks config s body = ⟨some str, (checkUserExistance e k config ranks s).2⟩) ∨
    (Granted e k config ranks s ∧
      guarded e k ranks config s body = body (checkUserExistance e k config ranks s).2) := by
  unfold guarded Granted
  by_cases empty : (checkUserExistance e k config ranks s).1 = ""
  · exact .inr ⟨empty, by simp [empty]⟩
  · exact .inl ⟨_, empty, rfl, by simp [empty]⟩

/-- A check that finds its row leaves nothing but its call behind. -/
theorem check_passes {login password rank : String} {l p r : Option String}
    (strings : credentials config = some (login, password, rank)) (allowed : rank ∈ ranks)
    (healthy : k.fault s.calls.length = none)
    (compiled : e.compile s.db (checkText login password rank) = .ok (.query (.checkUserExists l p r)))
    (found : PcCourse.checkUserExists e.collation l p r s.db = true) :
    checkUserExistance e k config ranks s =
      ("", { s with lastError := "", calls := s.calls ++ [(checkText login password rank, none)] }) := by
  have one : toString (1 : Int) ≠ "0" := by decide
  have issued : s.issue e k (checkText login password rank) =
      .ok ⟨s.db, some ⟨["EXISTS"], [[.int 1]]⟩, 0⟩ := by
    simp [Session.issue, healthy, Engine.exec, compiled, Query.run, found]
  unfold checkUserExistance
  rw [strings]
  simp [invokeStoredProcedure, ← checkText.eq_1, issued, allowed, Session.record, Engine.text, one,
    -Int.toString_eq_repr]

end

section
variable {config : LuaValue} {ranks : List String} {db : Db} {now : Int}

def employeePassword : String := "32c9a2ec9e0c4e3a4cc93012b2e72c04b2c395578dcc80b535e951b452eaf9a3"

def employeeCheck : String := checkText "abobus" employeePassword "Employee"

theorem compile_employeeCheck (db : Db) : Engine.standard.compile db employeeCheck =
    .ok (.query (.checkUserExists (some "abobus") (some employeePassword) (some "Employee"))) := by
  have verbatim : ∀ text ∈ ["abobus", employeePassword, "Employee"],
      SqlText.isVerbatim text.toList = true := by
    simp only [List.forall_mem_cons]
    exact ⟨by decide, by decide, by decide, List.forall_mem_nil _⟩
  have stored : storeText 64 "_login" "abobus" = .ok "abobus" ∧
      storeText 64 "_sha256_pwd" employeePassword = .ok employeePassword ∧
      storeText 64 "rank_name" "Employee" = .ok "Employee" ∧
      trimBlanks employeePassword = employeePassword := by
    decide
  refine (compile_checkText verbatim).mpr
    ⟨"abobus", employeePassword, "Employee", stored.1, stored.2.1, stored.2.2.1, ?_⟩
  rw [stored.2.2.2]

theorem check_employee (user : config.getRawRef "user" = some employee) (allowed : "Employee" ∈ ranks)
    (users : db.user = seeded.user) (named : db.userRank = seeded.userRank) :
    checkUserExistance .standard (.calm now) config ranks (.opening db) =
      ("", { Session.opening db with calls := [(employeeCheck, none)] }) := by
  have strings : credentials config = some ("abobus", employeePassword, "Employee") := by
    simp only [credentials, user]
    rfl
  have found : PcCourse.checkUserExists .binary (some "abobus") (some employeePassword)
      (some "Employee") db = true := by
    have same : PcCourse.checkUserExists .binary (some "abobus") (some employeePassword)
        (some "Employee") db = PcCourse.checkUserExists .binary (some "abobus") (some employeePassword)
          (some "Employee") seeded := by
      simp only [PcCourse.checkUserExists, users, named]
    rw [same]
    decide
  exact check_passes strings allowed rfl (compile_employeeCheck db) found

theorem granted_employee (user : config.getRawRef "user" = some employee) (allowed : "Employee" ∈ ranks)
    (users : db.user = seeded.user) (named : db.userRank = seeded.userRank) :
    Granted .standard (.calm now) config ranks (.opening db) := by
  rw [Granted, check_employee user allowed users named]

theorem guarded_employee (config : LuaValue) (db : Db)
    (user : config.getRawRef "user" = some employee) (allowed : "Employee" ∈ ranks)
    (users : db.user = seeded.user) (named : db.userRank = seeded.userRank)
    (body : Session → Reply) :
    guarded .standard (.calm now) ranks config (.opening db) body =
      body { Session.opening db with calls := [(employeeCheck, none)] } := by
  unfold guarded
  rw [check_employee user allowed users named]
  rfl

end

theorem processRequest_of_name {e : Engine} {k : Conditions} {config : LuaValue} {name : String}
    {func : LuaValue → Session → Reply} (named : config.getRawString "request" = some name)
    (some_ : name ≠ "") (found : (requests e k).lookup name = some func) (s : Session) :
    processRequest e k (some config) s = func config s := by
  simp only [processRequest, named, Option.getD_some, some_, if_false, found]

theorem lookup_addOrder (e : Engine) (k : Conditions) :
    (requests e k).lookup "add_order" = some (addOrder e k) := rfl

theorem lookup_completeOrder (e : Engine) (k : Conditions) :
    (requests e k).lookup "complete_order" = some (completeOrder e k) := rfl

/-- A request of the seeded employee is the body of its handler. -/
theorem processRequest_employee {now : Int} {name : String} {ranks : List String}
    {body : LuaValue → Session → Reply} (config : LuaValue) (db : Db)
    (named : config.getRawString "request" = some name) (some_ : name ≠ "")
    (found : (requests .standard (.calm now)).lookup name =
      some fun config s => guarded .standard (.calm now) ranks config s (body config))
    (user : config.getRawRef "user" = some employee) (allowed : "Employee" ∈ ranks)
    (users : db.user = seeded.user) (ranked : db.userRank = seeded.userRank) :
    processRequest .standard (.calm now) (some config) (.opening db) =
      body config { Session.opening db with calls := [(employeeCheck, none)] } := by
  rw [processRequest_of_name named some_ found, guarded_employee config db user allowed users ranked]

end UserRequest
end PcCourse
