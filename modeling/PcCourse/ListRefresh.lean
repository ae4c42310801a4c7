import PcCourse.RemoteRows

/-! What `ReceiveRemoteData` makes of a reply: the rows of the response or nothing, and what a
view sees of it. -/
namespace PcCourse.RemoteRows

open RowSignals

def HasUser (row : LuaValue) (user : UsersModel.UserItem) : Prop :=
  ∃ named array, row = .table named array ∧ named.lookup "login" = some (.str user.login) ∧
    named.lookup "sname" = some (.str user.sname) ∧ named.lookup "name" = some (.str user.name) ∧
    named.lookup "pname" = some (.str user.pname) ∧ named.lookup "rank" = some (.str user.rank)

/-- A row with the fields of a customer; a number is kept modulo 2^64. -/
def HasCustomer (row : LuaValue) (customer : CustomerItem) : Prop :=
  ∃ named array telephone, row = .table named array ∧
    named.lookup "telephone" = some (.int telephone) ∧
    (customer.telNumber : Int) = telephone % 2 ^ 64 ∧
    named.lookup "sname" = some (.str customer.sname) ∧
    named.lookup "name" = some (.str customer.name) ∧
    named.lookup "pname" = some (.str customer.pname)

section
variable {α : Type}

/-- The reply is a success whose table has these rows. -/
def Lists (lua : Lua) (tableName : String) (has : LuaValue → α → Prop) (message : String)
    (newRows : List α) : Prop :=
  (lua (cStr message)).lookup "response" = some (.str "success") ∧
    ∃ named array, (lua (cStr message)).lookup tableName = some (.table named array) ∧
      List.Forall₂ has array newRows

/-- The list becomes the listed rows, announced by their number; a reply that lists none has
no effect but an error. -/
def ExactOrNothing (lists : List α → Prop) (rows : List α) (received : List α × List Signal) : Prop :=
  (∃ newRows, lists newRows ∧
    received = (newRows, (resized rows.length newRows.length).map .row)) ∨
  (∀ newRows, ¬lists newRows) ∧ ∃ text, received = (rows, [.error text])

end

section
variable {value : LuaValue} {key s : String} {n : Int}

theorem getRawString_eq_some : value.getRawString key = some s ↔
    ∃ named array, value = .table named array ∧ named.lookup key = some (.str s) := by
  cases value with
  | table named array =>
    simp only [LuaValue.getRawString, LuaValue.getRawRef]
    cases found : named.lookup key with
    | none => simp [found]
    | some field => cases field <;> simp [found]
  | _ => simp [LuaValue.getRawString, LuaValue.getRawRef]

theorem getRawInt_eq_some : value.getRawInt key = some n ↔
    ∃ named array, value = .table named array ∧ named.lookup key = some (.int n) := by
  cases value with
  | table named array =>
    simp only [LuaValue.getRawInt, LuaValue.getRawRef]
    cases found : named.lookup key with
    | none => simp [found]
    | some field => cases field <;> simp [found]
  | _ => simp [LuaValue.getRawInt, LuaValue.getRawRef]

theorem readUser_iff {row : LuaValue} {user : UsersModel.UserItem} :
    readUser row = some user ↔ HasUser row user := by
  simp only [readUser, Option.bind_eq_bind, Option.bind_eq_some_iff, getRawString_eq_some,
    Option.pure_def, Option.some.injEq]
  constructor
  · rintro ⟨login,⟨named,array,rfl,hl⟩,sname,⟨_,_,same,hs⟩,name,⟨_,_,same₁,hn⟩,pname,⟨_,_,same₂,hp⟩,
      rank,⟨_,_,same₃,hr⟩,rfl⟩
    cases same
    cases same₁
    cases same₂
    cases same₃
    exact ⟨named, array, rfl, hl, hs, hn, hp, hr⟩
  · rintro ⟨named,array,rfl,hl,hs,hn,hp,hr⟩
    exact ⟨_, ⟨_, _, rfl, hl⟩, _, ⟨_, _, rfl, hs⟩, _, ⟨_, _, rfl, hn⟩, _, ⟨_, _, rfl, hp⟩, _,
      ⟨_, _, rfl, hr⟩, rfl⟩

theorem readCustomer_iff {row : LuaValue} {customer : CustomerItem} :
    readCustomer row = some customer ↔ HasCustomer row customer := by
  have positive (n : Int) : 0 ≤ n % 18446744073709551616 := Int.emod_nonneg n (by decide)
  simp only [readCustomer, Option.bind_eq_bind, Option.bind_eq_some_iff, getRawString_eq_some,
    getRawInt_eq_some, Option.pure_def, Option.some.injEq]
  constructor
  · rintro ⟨telephone,⟨named,array,rfl,ht⟩,sname,⟨_,_,same,hs⟩,name,⟨_,_,same₁,hn⟩,pname,
      ⟨_,_,same₂,hp⟩,rfl⟩
    cases same
    cases same₁
    cases same₂
    exact ⟨named, array, telephone, rfl, ht, Int.toNat_of_nonneg (positive telephone), hs, hn, hp⟩
  · rintro ⟨named,array,telephone,rfl,ht,number,hs,hn,hp⟩
    refine ⟨_, ⟨_, _, rfl, ht⟩, _, ⟨_, _, rfl, hs⟩, _, ⟨_, _, rfl, hn⟩, _, ⟨_, _, rfl, hp⟩, ?_⟩
    have same : (telephone % 18446744073709551616).toNat = customer.telNumber := by
      apply Int.natCast_inj.mp
      rw [Int.toNat_of_nonneg (positive telephone), number]
      rfl
    rw [same]

end

section
variable {α : Type} {lua : Lua} {tableName message : String} {readRow : LuaValue → Option α}
  {has : LuaValue → α → Prop} {rows newRows : List α}

theorem readRows_table (named : LuaFields) (array : List LuaValue) :
    readRows readRow (.table named array) = array.mapM readRow := by
  have elements : array = (List.range' 1 array.length).map fun i => array[i - 1]?.getD .nil := by
    apply List.ext_getElem
    · simp
    · intro i inside _
      simp [List.getElem_range', inside]
  have loop : readRows readRow (.table named array) =
      (List.range' 1 array.length).mapM fun i => readRow (array[i - 1]?.getD .nil) := rfl
  conv_rhs => rw [elements]
  rw [loop, List.mapM_map]
  rfl

theorem readRows_eq_some (reads : ∀ row item, readRow row = some item ↔ has row item)
    {ref : LuaValue} : readRows readRow ref = some newRows ↔
      ∃ named array, ref = .table named array ∧ List.Forall₂ has array newRows := by
  cases ref with
  | table named array =>
    rw [readRows_table, Outcome.mapM_eq_some]
    simp [reads]
  | _ => simp [readRows, LuaValue.getLength]

theorem parse_eq_some {fenv : LuaValue} {response : String} :
    parseAndGetResponse lua message = some (fenv, response) ↔
      (lua (cStr message)).lookup "response" = some (.str response) ∧
        fenv = .table (lua (cStr message)) [] := by
  simp only [parseAndGetResponse, Option.map_eq_some_iff, getRawString_eq_some, Prod.mk.injEq]
  constructor
  · rintro ⟨_,⟨named,array,same,found⟩,rfl,rfl⟩
    cases same
    exact ⟨found, rfl⟩
  · rintro ⟨found,rfl⟩
    exact ⟨_, ⟨_, _, rfl, found⟩, rfl, rfl⟩

theorem lists_iff (reads : ∀ row item, readRow row = some item ↔ has row item) :
    Lists lua tableName has message newRows ↔ ∃ fenv,
      parseAndGetResponse lua message = some (fenv, "success") ∧
        (fenv.getRawRef tableName).bind (readRows readRow) = some newRows := by
  simp only [parse_eq_some, Option.bind_eq_some_iff, readRows_eq_some reads]
  constructor
  · rintro ⟨response,named,array,found,each⟩
    refine ⟨_, ⟨response, rfl⟩, _, ?_, named, array, rfl, each⟩
    rw [LuaValue.getRawRef, found, Option.getD_some]
  · rintro ⟨_,⟨response,rfl⟩,_,found,named,array,rfl,each⟩
    refine ⟨response, named, array, ?_, each⟩
    rw [LuaValue.getRawRef, Option.some.injEq] at found
    cases isField : (lua (cStr message)).lookup tableName with
    | none =>
      rw [isField, Option.getD_none] at found
      cases found
    | some field =>
      rw [isField, Option.getD_some] at found
      rw [found]

theorem rowsReceived_exact (reads : ∀ row item, readRow row = some item ↔ has row item) :
    ExactOrNothing (Lists lua tableName has message) rows
      (rowsReceived lua tableName readRow message rows) := by
  unfold rowsReceived
  split
  next unreadable =>
    refine .inr ⟨fun newRows lists => ?_, _, rfl⟩
    obtain ⟨_,parsed,-⟩ := (lists_iff reads).mp lists
    rw [unreadable] at parsed
    cases parsed
  next fenv response parsed =>
    split
    next success =>
      subst success
      split
      next unread =>
        refine .inr ⟨fun newRows lists => ?_, _, rfl⟩
        obtain ⟨_,same,read⟩ := (lists_iff reads).mp lists
        rw [parsed] at same
        cases same
        rw [unread] at read
        cases read
      next newRows read =>
        refine .inl ⟨newRows, (lists_iff reads).mpr ⟨fenv, parsed, read⟩, ?_⟩
        rw [updateModel_rows, updateModel_signals]
    next other =>
      refine .inr ⟨fun newRows lists => ?_, _, rfl⟩
      obtain ⟨_,same,-⟩ := (lists_iff reads).mp lists
      rw [parsed] at same
      cases same
      exact other rfl

theorem rowsReceived_of_lists (reads : ∀ row item, readRow row = some item ↔ has row item)
    (rows : List α) (lists : Lists lua tableName has message newRows) :
    rowsReceived lua tableName readRow message rows =
      (newRows, (resized rows.length newRows.length).map .row) := by
  obtain ⟨fenv,parsed,read⟩ := (lists_iff reads).mp lists
  simp only [rowsReceived, parsed, if_true, read, updateModel_rows, updateModel_signals]

end

/-- A reply refreshes either list exactly, or leaves it and emits an error. -/
theorem refresh_exact :
    (∀ (lua : Lua) (message : String) (users : List UsersModel.UserItem),
      ExactOrNothing (Lists lua "users" HasUser message) users
        (handle usersModel lua message .receiveRemoteData users)) ∧
    ∀ (lua : Lua) (message : String) (customers : List CustomerItem),
      ExactOrNothing (Lists lua "customers" HasCustomer message) customers
        (handle customersModel lua message .receiveRemoteData customers) :=
  ⟨fun _ _ _ => rowsReceived_exact fun _ _ => readUser_iff,
    fun _ _ _ => rowsReceived_exact fun _ _ => readCustomer_iff⟩

/-- The copy of a view that had the old rows, behind what a handler did and emitted. -/
def viewed {α : Type} (old : List α) (received : List α × List Signal) : List α :=
  followAll received.1 old (received.2.filterMap Signal.row?)

theorem viewed_resized {α : Type} (old new : List α) :
    viewed old (new, (resized old.length new.length).map .row) =
      followAll new old (resized old.length new.length) := by
  have signals : ((resized old.length new.length).map Signal.row).filterMap Signal.row? =
      resized old.length new.length := by
    rw [List.filterMap_map]
    exact List.filterMap_some
  rw [viewed, signals]

theorem viewed_received_iff {α : Type} {lua : Lua} {tableName message : String}
    {readRow : LuaValue → Option α} {has : LuaValue → α → Prop} {newRows : List α}
    (reads : ∀ row item, readRow row = some item ↔ has row item)
    (lists : Lists lua tableName has message newRows) (rows : List α) :
    viewed rows (rowsReceived lua tableName readRow message rows) = newRows ↔
      rows <+: newRows ∨ newRows <+: rows := by
  rw [rowsReceived_of_lists reads rows lists, viewed_resized]
  exact follow_resized_iff

/-- A view of either list ends with the listed rows exactly when they begin with the old rows
or the old rows with them. -/
theorem view_follows_iff (lua : Lua) (message : String) :
    (∀ users newUsers : List UsersModel.UserItem,
      Lists lua "users" HasUser message newUsers →
        (viewed users (handle usersModel lua message .receiveRemoteData users) = newUsers ↔
          users <+: newUsers ∨ newUsers <+: users)) ∧
    ∀ customers newCustomers : List CustomerItem,
      Lists lua "customers" HasCustomer message newCustomers →
        (viewed customers (handle customersModel lua message .receiveRemoteData customers) =
          newCustomers ↔ customers <+: newCustomers ∨ newCustomers <+: customers) := by
  constructor
  · intro users newUsers lists
    exact viewed_received_iff (fun _ _ => readUser_iff) lists users
  · intro customers newCustomers lists
    exact viewed_received_iff (fun _ _ => readCustomer_iff) lists customers

def dataLua : Lua := fun text => (LuaChunk.execute text).getD []

def oneUser : String :=
  "response = 'success'\nusers =\n\x7b\n\t\x7b\n\t\tlogin = \"bob\",\n\t\tsname = \"s\",\n" ++
    "\t\tname = \"n\",\n\t\tpname = \"p\",\n\t\trank = \"Employee\"\n\t\x7d\n\x7d"

def bob : UsersModel.UserItem := ⟨"bob", "s", "n", "p", "Employee"⟩

def alice : UsersModel.UserItem := ⟨"alice", "s", "n", "p", "Admin"⟩

theorem lists_of_read {text : String} {users : List UsersModel.UserItem}
    (read : ∃ fenv ∈ parseAndGetResponse dataLua text, fenv.2 = "success" ∧
      (fenv.1.getRawRef "users").bind (readRows readUser) = some users) :
    Lists dataLua "users" HasUser text users := by
  rw [lists_iff fun _ _ => readUser_iff]
  obtain ⟨fenv,parsed,success,rows⟩ := read
  exact ⟨fenv.1, by rw [← success]; exact parsed, rows⟩

theorem oneUser_lists : Lists dataLua "users" HasUser oneUser [bob] := lists_of_read (by decide +kernel)

def twoUsers : String :=
  "response = 'success'\nusers =\n\x7b\n\t\x7b\n\t\tlogin = \"bob\",\n\t\tsname = \"s\",\n" ++
    "\t\tname = \"n\",\n\t\tpname = \"p\",\n\t\trank = \"Employee\"\n\t\x7d,\n" ++
    "\t\x7b\n\t\tlogin = \"alice\",\n\t\tsname = \"s\",\n" ++
    "\t\tname = \"n\",\n\t\tpname = \"p\",\n\t\trank = \"Admin\"\n\t\x7d\n\x7d"

theorem twoUsers_lists : Lists dataLua "users" HasUser twoUsers [bob, alice] :=
  lists_of_read (by decide +kernel)

/-- Rows appended to the old ones are announced. -/
theorem appended_row_seen :
    viewed [bob] (handle usersModel dataLua twoUsers .receiveRemoteData [bob]) = [bob, alice] :=
  ((view_follows_iff dataLua twoUsers).1 [bob] [bob, alice] twoUsers_lists).mpr (.inl ⟨[alice], rfl⟩)

/-- A list of the same size is replaced unannounced, and so is the first row of a longer one. -/
theorem replaced_rows_unseen :
    Lists dataLua "users" HasUser oneUser [bob] ∧
    viewed [alice] (handle usersModel dataLua oneUser .receiveRemoteData [alice]) ≠ [bob] ∧
    viewed [alice, bob] (handle usersModel dataLua oneUser .receiveRemoteData [alice, bob]) ≠ [bob] := by
  refine ⟨oneUser_lists, fun same => ?_, fun same => ?_⟩
  · have related := (viewed_received_iff (fun _ _ => readUser_iff) oneUser_lists [alice]).mp same
    exact absurd related (by decide)
  · have related := (viewed_received_iff (fun _ _ => readUser_iff) oneUser_lists [alice, bob]).mp same
    exact absurd related (by decide)

end PcCourse.RemoteRows
