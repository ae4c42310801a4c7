import PcCourse.RowSignals
import PcCourse.UsersModel

/-! What `UsersModel` and `CustomersModel` do with the replies to their requests: both keep a
list of rows, read it anew from a response, and announce what they change. -/
namespace PcCourse.RemoteRows

open RowSignals

abbrev Lua := String → LuaFields

/-- What `c_str()` passes on of a text. -/
def cStr (text : String) : String := String.ofList (text.toList.takeWhile (· ≠ '\x00'))

/-- `ParseAndGetResponse`: the environment and the response in it. -/
def parseAndGetResponse (lua : Lua) (script : String) : Option (LuaValue × String) :=
  let fenv := LuaValue.table (lua (cStr script)) []
  (fenv.getRawString "response").map fun response => (fenv, response)

inductive Signal where
  | row (signal : RowSignal)
  | error (text : String)
  | socketError
  deriving DecidableEq, Repr

def Signal.row? : Signal → Option RowSignal
  | .row signal => some signal
  | _ => none

section
variable {α : Type}

/-- The three branches of a refresh, with the rows they announce. -/
def updateModel (rows newRows : List α) : List α × List RowSignal :=
  if rows.length = newRows.length then (newRows, [])
  else if rows.length < newRows.length then
    (newRows, [.inserted rows.length (rows.length + newRows.length - rows.length - 1)])
  else
    ((rows.take newRows.length).mapIdx fun i row => newRows[i]?.getD row,
      [.removed newRows.length (rows.length - 1)])

/-- The loop over a table of rows; a field that is missing or wrongly typed raises. -/
def readRows (readRow : LuaValue → Option α) (ref : LuaValue) : Option (List α) := do
  let length ← ref.getLength
  (List.range' 1 length).mapM fun i => (ref.getRawRefAt i).bind readRow

def rowsReceived (lua : Lua) (tableName : String) (readRow : LuaValue → Option α) (message : String)
    (rows : List α) : List α × List Signal :=
  match parseAndGetResponse lua message with
  | none => (rows, [.error "Bad response!"])
  | some (fenv, response) =>
    if response = "success" then
      match (fenv.getRawRef tableName).bind (readRows readRow) with
      | none => (rows, [.error "Ошибка чтения данных!"])
      | some newRows => ((updateModel rows newRows).1, (updateModel rows newRows).2.map .row)
    else (rows, [.error "Введены неверные данные"])

def changed (lua : Lua) (message : String) (change : List α → List α × List RowSignal)
    (rows : List α) : List α × List Signal :=
  match parseAndGetResponse lua message with
  | none => (rows, [.error "Bad response!"])
  | some (_, response) =>
    if response = "success" then ((change rows).1, (change rows).2.map .row)
    else (rows, [.error "Введены неверные данные"])

def pushBack (item : α) (rows : List α) : List α × List RowSignal :=
  (rows ++ [item], [.inserted rows.length rows.length])

def removeAt (ind : Nat) (rows : List α) : List α × List RowSignal :=
  (rows.eraseIdx ind, [.removed ind ind])

theorem updateModel_rows (rows newRows : List α) : (updateModel rows newRows).1 = newRows := by
  unfold updateModel
  split
  · rfl
  split
  · rfl
  next larger smaller =>
    apply List.ext_getElem
    · simp only [List.length_mapIdx, List.length_take]
      omega
    · intro i _ bound
      simp [List.getElem_mapIdx, bound]

theorem updateModel_signals (rows newRows : List α) :
    (updateModel rows newRows).2 = resized rows.length newRows.length := by
  unfold updateModel resized
  split
  next same => rw [if_neg (by omega), if_neg (by omega)]
  split
  · have last : rows.length + newRows.length - rows.length - 1 = newRows.length - 1 := by omega
    rw [last]
  · rw [if_pos (by omega)]

end

/-- `users[i]` from its row. -/
def readUser (usr : LuaValue) : Option UsersModel.UserItem := do
  let login ← usr.getRawString "login"
  let sname ← usr.getRawString "sname"
  let name ← usr.getRawString "name"
  let pname ← usr.getRawString "pname"
  let rank ← usr.getRawString "rank"
  return ⟨login, sname, name, pname, rank⟩

structure CustomerItem where
  telNumber : Nat
  sname : String
  name : String
  pname : String
  deriving DecidableEq, Repr

/-- The number is converted to `std::uint64_t`. -/
def readCustomer (usr : LuaValue) : Option CustomerItem := do
  let telNumber ← usr.getRawInt "telephone"
  let sname ← usr.getRawString "sname"
  let name ← usr.getRawString "name"
  let pname ← usr.getRawString "pname"
  return ⟨(telNumber % 18446744073709551616).toNat, sname, name, pname⟩

/-- What the two models differ in; the key of a row is what its removal sends. -/
structure Model (α κ : Type) where
  tableName : String
  readRow : LuaValue → Option α
  key : α → κ

def usersModel : Model UsersModel.UserItem String := ⟨"users", readUser, UsersModel.UserItem.login⟩

def customersModel : Model CustomerItem Nat := ⟨"customers", readCustomer, CustomerItem.telNumber⟩

section
variable {α κ : Type}

inductive Pending (α κ : Type) where
  | receiveRemoteData
  | insert (item : α)
  | remove (ind : Nat) (key : κ)
  deriving DecidableEq, Repr

structure State (α κ : Type) where
  rows : List α
  pending : List (Pending α κ)
  emitted : List Signal
  deriving DecidableEq, Repr

inductive Event (α : Type) where
  | receiveRemoteData
  | insert (item : α)
  | remove (row : Nat)
  | reply (i : Nat) (message : String)
  | fail (i : Nat)
  deriving DecidableEq, Repr

def handle (m : Model α κ) (lua : Lua) (message : String) : Pending α κ → List α → List α × List Signal
  | .receiveRemoteData => rowsReceived lua m.tableName m.readRow message
  | .insert item => changed lua message (pushBack item)
  | .remove ind _ => changed lua message (removeAt ind)

def step (m : Model α κ) (lua : Lua) (event : Event α) (s : State α κ) : State α κ :=
  match event with
  | .receiveRemoteData => { s with pending := s.pending ++ [.receiveRemoteData] }
  | .insert item => { s with pending := s.pending ++ [.insert item] }
  | .remove row =>
    match s.rows[row]? with
    | some item => { s with pending := s.pending ++ [.remove row (m.key item)] }
    | none => s
  | .reply i message =>
    match s.pending[i]? with
    | some call =>
      let (rows, signals) := handle m lua message call s.rows
      ⟨rows, s.pending.eraseIdx i, s.emitted ++ signals⟩
    | none => s
  | .fail i =>
    if i < s.pending.length then
      { s with pending := s.pending.eraseIdx i, emitted := s.emitted ++ [.socketError] }
    else s

def holding (rows : List α) : State α κ := ⟨rows, [], []⟩

end

end PcCourse.RemoteRows
