import PcCourse.Atomicity
import PcCourse.Transition

/-! Which requests can change which tables, over whole runs: the check guards every
handler that changes rows, and what it looks at changes only by requests it lets pass. -/
namespace PcCourse.UserRequest

open SqlCall Transition

/-- The strings name a row, as `CheckUserExists` receives and compares them. -/
def findsRow (c : Collation) (db : Db) (login password rank : String) : Bool :=
  match storeText 64 "_login" login, storeText 64 "_sha256_pwd" password,
    storeText 64 "rank_name" rank with
  | .ok l, .ok p, .ok r => checkUserExists c (some l) (some (trimBlanks p)) (some r) db
  | _, _, _ => false

/-- The request carries credentials of a row with one of these ranks. -/
def carries (c : Collation) (db : Db) (ranks : List String) (config : LuaValue) : Bool :=
  (credentials config).any fun (login, password, rank) =>
    decide (rank ∈ ranks) && findsRow c db login password rank

def isPlain (text : String) : Bool := text.toList.all fun c => !SqlText.isSpecial c

def hasPlainCredentials (config : LuaValue) : Bool :=
  (credentials config).all fun (login, password, rank) =>
    isPlain login && isPlain password && isPlain rank

theorem isVerbatim_of_isPlain {text : String} (plain : isPlain text = true) :
    SqlText.isVerbatim text.toList = true := by
  refine SqlText.isVerbatim_of_plain fun c inside => ?_
  simpa using List.all_eq_true.mp plain c inside

theorem verbatim_of_plain {login password rank : String}
    (plain : (isPlain login = true ∧ isPlain password = true) ∧ isPlain rank = true) :
    ∀ text ∈ [login, password, rank], SqlText.isVerbatim text.toList = true := by
  simp only [List.forall_mem_cons]
  exact ⟨isVerbatim_of_isPlain plain.1.1, isVerbatim_of_isPlain plain.1.2,
    isVerbatim_of_isPlain plain.2, List.forall_mem_nil _⟩

section
variable {e : Engine} {k : Conditions} {config : LuaValue} {ranks : List String} {s : Session}

theorem carries_of_granted (plain : hasPlainCredentials config = true)
    (granted : Granted e k config ranks s) : carries e.collation s.db ranks config = true := by
  obtain ⟨login,password,rank,strings,allowed,-,l,p,r,compiled,found⟩ := granted_iff.mp granted
  simp only [hasPlainCredentials, strings, Option.all_some, Bool.and_eq_true] at plain
  obtain ⟨l',p',r',login',pwd',rank',same⟩ := (compile_checkText (verbatim_of_plain plain)).mp compiled
  cases same
  simp [carries, strings, allowed, findsRow, login', pwd', rank', found]

/-- What a handler may do to the rows: nothing, or what its rank check admits. -/
def Contained (e : Engine) (k : Conditions) (config : LuaValue) (s : Session) (after : Db) : Prop :=
  after = s.db ∨
  (Granted e k config ["Employee", "Admin"] s ∧ Scope.store.Keeps s.db after) ∨
  Granted e k config ["Admin"] s

theorem guarded_contained {body : Session → Reply}
    (behind : ∀ s' : Session, s'.db = s.db → s'.snapshot = s.snapshot → Granted e k config ranks s →
      Contained e k config s (body s').session.db) :
    Contained e k config s (guarded e k ranks config s body).session.db := by
  rcases guarded_cases e k config ranks s body with ⟨str,-,-,same⟩ | ⟨granted,same⟩
  · rw [same]
    exact .inl check_db
  · rw [same]
    exact behind _ check_db check_snapshot granted

theorem listing_db (p : Procedure) (reads : p.scope = .nothing) (args : List String)
    (tableName : String) (fields : List FieldAndType) :
    (listing e k (callText p.name args) tableName fields s).session.db = s.db := by
  have kept := Session.record_keeps (e := e) (k := k) (s := s) p args
  rw [reads] at kept
  exact kept

theorem reporting_keeps (p : Procedure) (args : List String) :
    p.scope.Keeps s.db (reporting e k (callText p.name args) s).session.db := by
  have kept := Session.record_keeps (e := e) (k := k) (s := s) p args
  unfold reporting invokeStoredProcedure
  cases outcome : s.issue e k (callText p.name args) <;> rw [outcome] at kept <;> exact kept

theorem unchecked_keeps (p : Procedure) (args : List String) :
    p.scope.Keeps s.db (unchecked e k (callText p.name args) s).session.db :=
  Session.record_keeps p args

theorem store_contained {after : Db} {body : Db} (granted : Granted e k config ["Employee", "Admin"] s)
    (same : body = s.db) (kept : Scope.store.Keeps body after) : Contained e k config s after :=
  .inr (.inl ⟨granted, same ▸ kept⟩)

theorem reading_contained {α : Type} {fields : Option α} {s' : Session} {body : α → Reply}
    (same : s'.db = s.db) (behind : ∀ values, Contained e k config s (body values).session.db) :
    Contained e k config s (reading fields s' body).session.db := by
  cases fields with
  | none => exact .inl same
  | some values => exact behind values

theorem ended_contained {reply : Reply} {ranks : List String} {body : Session → Reply}
    (shape : reply = guarded e k ranks config s body) (staff : ranks = ["Employee", "Admin"])
    (ended : Ended s.db.toTables s.db reply) : Contained e k config s reply.session.db := by
  subst staff
  rcases guarded_cases e k config ["Employee", "Admin"] s body with ⟨str,-,-,same⟩ | ⟨granted,-⟩
  · rw [shape, same]
    exact .inl check_db
  · refine .inr (.inl ⟨granted, ?_⟩)
    rcases ended.outcome with restored | ⟨-,kept⟩
    · exact ⟨congrArg Tables.user restored, congrArg Tables.userRank restored⟩
    · exact kept

/-- Every registered handler is contained. -/
theorem handler_contained {name : String} {func : LuaValue → Session → Reply}
    (idle : s.snapshot = none) (registered : (name, func) ∈ requests e k) :
    Contained e k config s (func config s).session.db := by
  have open_ : ∀ (p : Procedure) args table fields, p.scope = .nothing →
      Contained e k config s (listing e k (callText p.name args) table fields s).session.db :=
    fun p args table fields reads => .inl (listing_db p reads args table fields)
  have closed : ∀ (p : Procedure) ranks args table fields, p.scope = .nothing →
      Contained e k config s (guarded e k ranks config s fun s' =>
        listing e k (callText p.name args) table fields s').session.db :=
    fun p ranks args table fields reads => guarded_contained fun s' same _ _ =>
      .inl ((listing_db p reads args table fields).trans same)
  simp only [requests, List.mem_cons, Prod.mk.injEq, List.not_mem_nil, or_false] at registered
  rcases registered with ⟨-,rfl⟩ | ⟨-,rfl⟩ | ⟨-,rfl⟩ | ⟨-,rfl⟩ | ⟨-,rfl⟩ | ⟨-,rfl⟩ | ⟨-,rfl⟩ |
    ⟨-,rfl⟩ | ⟨-,rfl⟩ | ⟨-,rfl⟩ | ⟨-,rfl⟩ | ⟨-,rfl⟩ | ⟨-,rfl⟩ | ⟨-,rfl⟩ | ⟨-,rfl⟩ | ⟨-,rfl⟩ |
    ⟨-,rfl⟩ | ⟨-,rfl⟩ | ⟨-,rfl⟩ | ⟨-,rfl⟩ | ⟨-,rfl⟩ | ⟨-,rfl⟩
  · exact guarded_contained fun s' same _ _ => .inl same
  · exact closed .getUsers _ _ _ _ rfl
  · exact open_ .getRanks _ _ _ rfl
  · exact open_ .getCustomers _ _ _ rfl
  · exact open_ .getOrders _ _ _ rfl
  · exact reading_contained rfl fun _ => open_ .getOrderItems _ _ _ rfl
  · exact open_ .getItems _ _ _ rfl
  · exact open_ .getDistributors _ _ _ rfl
  · exact open_ .getItemTypes _ _ _ rfl
  · exact guarded_contained fun s' same _ granted => .inr (.inr granted)
  · exact guarded_contained fun s' same _ granted => .inr (.inr granted)
  · exact guarded_contained fun s' same _ granted => .inr (.inr granted)
  · exact guarded_contained fun s' same _ granted => reading_contained same fun _ =>
      store_contained granted same (reporting_keeps .createCustomer _)
  · exact guarded_contained fun s' same _ granted => reading_contained same fun _ =>
      store_contained granted same (unchecked_keeps .deleteCustomer _)
  · exact guarded_contained fun s' same _ granted => reading_contained same fun _ =>
      store_contained granted same (reporting_keeps .addItem _)
  · exact guarded_contained fun s' same _ granted => reading_contained same fun _ =>
      store_contained granted same (unchecked_keeps .addItemCount _)
  · exact ended_contained rfl rfl (completeOrder_ended idle)
  · exact ended_contained rfl rfl (addOrder_ended idle)
  · exact closed .getExpiredOrders _ _ _ _ rfl
  · exact reading_contained rfl fun _ => open_ .getCompletedOrders _ _ _ rfl
  · exact reading_contained rfl fun _ => .inl (Session.record_keeps .getIncome _)
  · exact reading_contained rfl fun _ => open_ .getSellsStatiscticsByDistributors _ _ _ rfl

theorem processRequest_contained (idle : s.snapshot = none) :
    Contained e k config s (processRequest e k (some config) s).session.db := by
  simp only [processRequest]
  split
  · exact .inl rfl
  · split
    next func found =>
      obtain ⟨before,after,table,-⟩ := List.lookup_eq_some_iff.mp found
      exact handler_contained idle (by rw [table]; exact List.mem_append_right _ List.mem_cons_self)
    next => exact .inl rfl

end

structure Incoming where
  conditions : Conditions
  config : Option LuaValue

/-- The rows after a request, handled on an idle connection. -/
def serve (e : Engine) (incoming : Incoming) (db : Db) : Db :=
  (processRequest e incoming.conditions incoming.config (.opening db)).session.db

theorem serve_contained (e : Engine) (incoming : Incoming) (db : Db) :
    serve e incoming db = db ∨ ∃ config, incoming.config = some config ∧
      Contained e incoming.conditions config (.opening db) (serve e incoming db) := by
  unfold serve
  cases incoming.config with
  | none => exact .inl rfl
  | some config => exact .inr ⟨config, rfl, processRequest_contained rfl⟩

theorem carries_mono {c : Collation} {db : Db} {ranks more : List String} {config : LuaValue}
    (subset : ranks ⊆ more) (carried : carries c db ranks config = true) :
    carries c db more config = true := by
  simp only [carries, Option.any_eq_true, Bool.and_eq_true, decide_eq_true_eq] at carried ⊢
  obtain ⟨strings,read,allowed,found⟩ := carried
  exact ⟨strings, read, subset allowed, found⟩

theorem carries_of_accounts {c : Collation} {db first : Db} (user : db.user = first.user)
    (userRank : db.userRank = first.userRank) : carries c db = carries c first := by
  funext ranks config
  have rows : ∀ l p r, checkUserExists c l p r db = checkUserExists c l p r first := by
    intro l p r
    rw [checkUserExists, checkUserExists, user, userRank]
  simp only [carries, findsRow, rows]

def run (e : Engine) (requests : List Incoming) (db : Db) : Db := execute (serve e) requests db

theorem run_one (e : Engine) (incoming : Incoming) (db : Db) :
    run e [incoming] db = serve e incoming db := rfl

/-- No request carries credentials of a row with one of these ranks in the first state. -/
def NoneCarries (e : Engine) (db : Db) (ranks : List String) (requests : List Incoming) : Prop :=
  ∀ incoming ∈ requests, incoming.config.any (carries e.collation db ranks) = false

/-- Without an administrator among the requests the accounts stay; without anyone who
may write, all rows stay. The invariant of the first part says that nobody can have
become an administrator: the check looks at the accounts, and they are the first ones. -/
theorem run_contained (e : Engine) (db : Db) (requests : List Incoming)
    (plain : ∀ incoming ∈ requests, incoming.config.all hasPlainCredentials = true) :
    (NoneCarries e db ["Admin"] requests → (run e requests db).user = db.user) ∧
    (NoneCarries e db ["Employee", "Admin"] requests → run e requests db = db) := by
  have along : Along (serve e) (fun _ incoming => incoming ∈ requests) requests db :=
    .of_forall requests db fun incoming member _ => member
  -- a request that passes the check carried its credentials in the first state
  have granted : ∀ (incoming : Incoming) config (now : Db) ranks, incoming ∈ requests →
      incoming.config = some config → now.user = db.user → now.userRank = db.userRank →
      Granted e incoming.conditions config ranks (.opening now) →
      carries e.collation db ranks config = true := by
    intro incoming config now ranks member parsed user userRank passed
    have free := plain incoming member
    rw [parsed, Option.all_some] at free
    rw [← carries_of_accounts user userRank]
    exact carries_of_granted free passed
  constructor
  · intro noAdmin
    refine (execute_invariant (fun now => now.user = db.user ∧ now.userRank = db.userRank) ?_
      requests db along ⟨rfl, rfl⟩).1
    rintro now incoming member ⟨user,userRank⟩
    rcases serve_contained e incoming now with same | ⟨config,parsed,contained⟩
    · exact ⟨by rw [same]; exact user, by rw [same]; exact userRank⟩
    · have refused := noAdmin incoming member
      rw [parsed, Option.any_some] at refused
      rcases contained with same | ⟨-,kept⟩ | passed
      · exact ⟨by rw [same]; exact user, by rw [same]; exact userRank⟩
      · exact ⟨kept.1.trans user, kept.2.trans userRank⟩
      · simp [granted incoming config now _ member parsed user userRank passed] at refused
  · intro noStaff
    refine execute_invariant (fun now => now = db) ?_ requests db along rfl
    rintro now incoming member rfl
    rcases serve_contained e incoming now with same | ⟨config,parsed,contained⟩
    · exact same
    · have refused := noStaff incoming member
      rw [parsed, Option.any_some] at refused
      rcases contained with same | ⟨passed,-⟩ | passed
      · exact same
      · simp [granted incoming config now _ member parsed rfl rfl passed] at refused
      · have carried := granted incoming config now _ member parsed rfl rfl passed
        rw [carries_mono (by simp) carried] at refused
        cases refused

def refusedRequests : List Incoming :=
  [⟨.calm 1700000000, some (.table [("request", .str "delete_user"),
      ("user", userTable "abobus"
        "32c9a2ec9e0c4e3a4cc93012b2e72c04b2c395578dcc80b535e951b452eaf9a3" "Admin"),
      ("delete_user_login", .str "amogus")] [])⟩,
   ⟨.calm 1700000000, some (.table [("request", .str "delete_customer"),
      ("user", userTable "nobody" "" "Employee"),
      ("delete_customer_telephone", .int 123)] [])⟩]

theorem refused_requests_change_nothing :
    (run .standard refusedRequests seeded).user = seeded.user ∧
    run .standard refusedRequests seeded = seeded :=
  ⟨(run_contained .standard seeded refusedRequests (by decide)).1
      (by unfold NoneCarries; decide),
    (run_contained .standard seeded refusedRequests (by decide)).2
      (by unfold NoneCarries; decide)⟩

end PcCourse.UserRequest
