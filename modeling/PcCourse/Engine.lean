import PcCourse.Queries
import PcCourse.SqlCall
import PcCourse.Numeral
import PcCourse.Outcome
import Mathlib.Data.List.DropRight

/-! From the text of a statement to its effect: the values of the arguments, their
conversion to the types of the parameters in strict mode, and the procedure that runs. -/
namespace PcCourse

open SqlText SqlCall Outcome

/-- What the database server brings along: the collation of its text columns, the values
of argument expressions that are no literals, the texts of doubles and times, and whether
the id of a row inserted by a procedure is reported to the caller. -/
structure Engine where
  collation : Collation
  eval : Db → List Token → Option SqlValue
  doubleText : Decimal → String
  timeText : Int → String
  reportsInsertId : Bool

/-- A server that compares texts byte by byte and evaluates literals only. -/
def Engine.standard : Engine := ⟨.binary, fun _ _ => none, Decimal.format, toString, true⟩

def number? (negative : Bool) (w : String) : Option SqlValue :=
  match Numeral.digits? w.toList with
  | some n => some (.int (if negative then -n else n))
  | none => (Numeral.decimal? w.toList).map fun d =>
    .double (if negative then ⟨-d.mantissa, d.exponent⟩ else d)

def fromUnixtime : SqlValue → Option SqlValue
  | .int n => some (if 0 ≤ n ∧ n ≤ lastTimestamp then .time n else .null)
  | _ => none

/-- Arguments whose value is in the text. -/
def literal? : List Token → Option SqlValue
  | [.str text] => some (.text text)
  | [.word w] => if w = "NULL" then some .null else number? false w
  | [.sym '-', .word w] => number? true w
  | [.word f, .sym '(', .word w, .sym ')'] =>
    if f = "FROM_UNIXTIME" then (number? false w).bind fromUnixtime else none
  | [.word f, .sym '(', .sym '-', .word w, .sym ')'] =>
    if f = "FROM_UNIXTIME" then (number? true w).bind fromUnixtime else none
  | _ => none

/-- A text for a column of `limit` characters: only blanks may be cut off. -/
def storeText (limit : Nat) (column text : String) : Except SqlError String :=
  if (text.toList.drop limit).all (· == ' ') then .ok (String.ofList (text.toList.take limit))
  else .error (.dataTooLong column)

/-- A CHAR value is kept without its trailing blanks. -/
def trimBlanks (text : String) : String := String.ofList (text.toList.rdropWhile (· == ' '))

def daysFromCivil (year month day : Int) : Int :=
  let y := if month ≤ 2 then year - 1 else year
  let ofYear := (153 * ((month + 9) % 12) + 2) / 5 + day - 1
  let ofEra := y % 400 * 365 + y % 400 / 4 - y % 400 / 100 + ofYear
  y / 400 * 146097 + ofEra - 719468

def daysInMonth (year month : Nat) : Nat :=
  if month = 2 then if year % 4 = 0 ∧ (year % 100 ≠ 0 ∨ year % 400 = 0) then 29 else 28
  else if month = 4 ∨ month = 6 ∨ month = 9 ∨ month = 11 then 30
  else 31

def civilDay? (year month day : Nat) : Option Int :=
  if 1 ≤ year ∧ year ≤ 9999 ∧ 1 ≤ month ∧ month ≤ 12 ∧ 1 ≤ day ∧ day ≤ daysInMonth year month then
    some (daysFromCivil year month day)
  else none

/-- A date literal: year, month and day with dashes between them. -/
def dateLiteral? (text : List Char) : Option Int :=
  let year := text.takeWhile (· != '-')
  let behind := (text.drop year.length).drop 1
  let month := behind.takeWhile (· != '-')
  match Numeral.digits? year, Numeral.digits? month,
    Numeral.digits? ((behind.drop month.length).drop 1) with
  | some y, some m, some d => civilDay? y m d
  | _, _, _ => none

namespace Engine

variable (e : Engine)

def value (db : Db) (expr : List Token) : Except SqlError SqlValue :=
  match literal? expr with
  | some v => .ok v
  | none =>
    match if expr = [] then none else e.eval db expr with
    | some v => .ok v
    | none => .error .malformed

def text : SqlValue → Option String
  | .null => none
  | .text s => some s
  | .int n => some (toString n)
  | .double d => some (e.doubleText d)
  | .time t => some (e.timeText t)

def number (column : String) : SqlValue → Except SqlError (Option Int)
  | .null => .ok none
  | .int n => .ok (some n)
  | .double d => .ok (some d.round)
  | .time t => .ok ((Numeral.digits? ((e.timeText t).toList.filter Char.isDigit)).map Int.ofNat)
  | .text s =>
    match Numeral.signed? s.toList with
    | some n => .ok (some n)
    | none => .error (.incorrectValue "integer" s column)

def toVarchar (limit : Nat) (column : String) (v : SqlValue) : Except SqlError (Option String) :=
  match e.text v with
  | none => .ok none
  | some s => (storeText limit column s).map some

def toChar (limit : Nat) (column : String) (v : SqlValue) : Except SqlError (Option String) :=
  (e.toVarchar limit column v).map fun s => s.map trimBlanks

def toText (column : String) (v : SqlValue) : Except SqlError (Option String) :=
  match e.text v with
  | none => .ok none
  | some s => if s.utf8ByteSize ≤ 65535 then .ok (some s) else .error (.dataTooLong column)

def toInt (column : String) (v : SqlValue) : Except SqlError (Option Int) := do
  match ← e.number column v with
  | none => return none
  | some n => if intMin ≤ n ∧ n ≤ intMax then return some n else throw (.outOfRange column)

def toUnsigned (limit : Nat) (column : String) (v : SqlValue) : Except SqlError (Option Nat) := do
  match ← e.number column v with
  | none => return none
  | some n => if 0 ≤ n ∧ n ≤ limit then return some n.toNat else throw (.outOfRange column)

def toDouble (column : String) : SqlValue → Except SqlError (Option Decimal)
  | .null => .ok none
  | .int n => .ok (some (.ofInt n))
  | .double d => .ok (some d)
  | .time t => .ok (Numeral.decimal? ((e.timeText t).toList.filter Char.isDigit))
  | .text s =>
    match Numeral.signedDecimal? s.toList with
    | some d => .ok (some d)
    | none => .error (.incorrectValue "double" s column)

def toDate (column : String) : SqlValue → Except SqlError (Option Int)
  | .null => .ok none
  | .time t => .ok (some (day t))
  | .int n =>
    match civilDay? (n.toNat / 10000) (n.toNat / 100 % 100) (n.toNat % 100) with
    | some d => .ok (some d)
    | none => .error (.incorrectValue "date" (toString n) column)
  | .double d => .error (.incorrectValue "date" (e.doubleText d) column)
  | .text s =>
    match dateLiteral? s.toList with
    | some d => .ok (some d)
    | none => .error (.incorrectValue "date" s column)

end Engine

/-- The stored procedures of `db.sql`. -/
inductive Procedure where
  | checkUserExists | getRanks | getUsers | getCustomers | getOrders | getOrderItems | getItems
  | getDistributors | getItemTypes | deleteUser | createUser | updateUser | createCustomer
  | deleteCustomer | addItem | addItemCount | addOrderedItem | addOrder | completeOrder
  | getExpiredOrders | getCompletedOrders | getIncome | getSellsStatiscticsByDistributors
  deriving DecidableEq, Repr

namespace Procedure

def name : Procedure → String
  | checkUserExists => "CheckUserExists"
  | getRanks => "GetRanks"
  | getUsers => "GetUsers"
  | getCustomers => "GetCustomers"
  | getOrders => "GetOrders"
  | getOrderItems => "GetOrderItems"
  | getItems => "GetItems"
  | getDistributors => "GetDistributors"
  | getItemTypes => "GetItemTypes"
  | deleteUser => "DeleteUser"
  | createUser => "CreateUser"
  | updateUser => "UpdateUser"
  | createCustomer => "CreateCustomer"
  | deleteCustomer => "DeleteCustomer"
  | addItem => "AddItem"
  | addItemCount => "AddItemCount"
  | addOrderedItem => "AddOrderedItem"
  | addOrder => "AddOrder"
  | completeOrder => "CompleteOrder"
  | getExpiredOrders => "GetExpiredOrders"
  | getCompletedOrders => "GetCompletedOrders"
  | getIncome => "GetIncome"
  | getSellsStatiscticsByDistributors => "GetSellsStatiscticsByDistributors"

def all : List Procedure :=
  [checkUserExists, getRanks, getUsers, getCustomers, getOrders, getOrderItems, getItems,
    getDistributors, getItemTypes, deleteUser, createUser, updateUser, createCustomer,
    deleteCustomer, addItem, addItemCount, addOrderedItem, addOrder, completeOrder,
    getExpiredOrders, getCompletedOrders, getIncome, getSellsStatiscticsByDistributors]

def ofName? (s : String) : Option Procedure := all.find? fun p => p.name == s

/-- The number of parameters. -/
def arity : Procedure → Nat
  | deleteUser | deleteCustomer | completeOrder | getOrderItems => 1
  | addItemCount | addOrder | getCompletedOrders | getIncome
  | getSellsStatiscticsByDistributors => 2
  | checkUserExists | addOrderedItem => 3
  | createCustomer => 4
  | updateUser => 5
  | createUser | addItem => 6
  | _ => 0

@[simp] theorem ofName?_name (p : Procedure) : ofName? p.name = some p := by
  cases p <;> decide

theorem isName_name (p : Procedure) : isName p.name = true := by
  cases p <;> decide

end Procedure

inductive Statement where
  | update (u : Update)
  | query (q : Query)
  deriving DecidableEq, Repr

/-- The procedure a statement calls. -/
def Statement.procedure : Statement → Procedure
  | .update (.deleteUser ..) => .deleteUser
  | .update (.createUser ..) => .createUser
  | .update (.updateUser ..) => .updateUser
  | .update (.createCustomer ..) => .createCustomer
  | .update (.deleteCustomer ..) => .deleteCustomer
  | .update (.addItem ..) => .addItem
  | .update (.addItemCount ..) => .addItemCount
  | .update (.addOrderedItem ..) => .addOrderedItem
  | .update (.addOrder ..) => .addOrder
  | .update (.completeOrder ..) => .completeOrder
  | .query (.checkUserExists ..) => .checkUserExists
  | .query .getRanks => .getRanks
  | .query .getUsers => .getUsers
  | .query .getCustomers => .getCustomers
  | .query .getOrders => .getOrders
  | .query (.getOrderItems ..) => .getOrderItems
  | .query .getItems => .getItems
  | .query .getDistributors => .getDistributors
  | .query .getItemTypes => .getItemTypes
  | .query .getExpiredOrders => .getExpiredOrders
  | .query (.getCompletedOrders ..) => .getCompletedOrders
  | .query (.getIncome ..) => .getIncome
  | .query (.getSellsStatiscticsByDistributors ..) => .getSellsStatiscticsByDistributors

namespace Engine

variable (e : Engine) (db : Db)

/-- The call with its arguments converted to the types of the parameters, in order. -/
def bind (p : Procedure) (args : List (List Token)) : Except SqlError Statement :=
  match p, args with
  | .checkUserExists, [login, pwd, rank] => do
    let login ← e.toVarchar 64 "_login" (← e.value db login)
    let pwd ← e.toChar 64 "_sha256_pwd" (← e.value db pwd)
    let rank ← e.toVarchar 64 "rank_name" (← e.value db rank)
    return .query (.checkUserExists login pwd rank)
  | .getRanks, [] => return .query .getRanks
  | .getUsers, [] => return .query .getUsers
  | .getCustomers, [] => return .query .getCustomers
  | .getOrders, [] => return .query .getOrders
  | .getOrderItems, [id] => do
    return .query (.getOrderItems (← e.toInt "new_order_id" (← e.value db id)))
  | .getItems, [] => return .query .getItems
  | .getDistributors, [] => return .query .getDistributors
  | .getItemTypes, [] => return .query .getItemTypes
  | .deleteUser, [login] => do
    return .update (.deleteUser (← e.toVarchar 64 "_login" (← e.value db login)))
  | .createUser, [login, pwd, sname, name, pname, rank] => do
    let login ← e.toVarchar 64 "_login" (← e.value db login)
    let pwd ← e.toChar 64 "_sha256_pwd" (← e.value db pwd)
    let sname ← e.toVarchar 64 "_sname" (← e.value db sname)
    let name ← e.toVarchar 64 "_name" (← e.value db name)
    let pname ← e.toVarchar 64 "_pname" (← e.value db pname)
    let rank ← e.toInt "rank_id" (← e.value db rank)
    return .update (.createUser login pwd sname name pname rank)
  | .updateUser, [login, sname, name, pname, rank] => do
    let login ← e.toVarchar 64 "_login" (← e.value db login)
    let sname ← e.toVarchar 64 "_sname" (← e.value db sname)
    let name ← e.toVarchar 64 "_name" (← e.value db name)
    let pname ← e.toVarchar 64 "_pname" (← e.value db pname)
    let rank ← e.toInt "rank_id" (← e.value db rank)
    return .update (.updateUser login sname name pname rank)
  | .createCustomer, [telephone, sname, name, pname] => do
    let telephone ← e.toUnsigned bigintUnsignedMax "_telephone" (← e.value db telephone)
    let sname ← e.toVarchar 64 "_sname" (← e.value db sname)
    let name ← e.toVarchar 64 "_name" (← e.value db name)
    let pname ← e.toVarchar 64 "_pname" (← e.value db pname)
    return .update (.createCustomer telephone sname name pname)
  | .deleteCustomer, [telephone] => do
    return .update (.deleteCustomer
      (← e.toUnsigned bigintUnsignedMax "_telephone" (← e.value db telephone)))
  | .addItem, [name, cost, count, distributor, type, description] => do
    let name ← e.toVarchar 256 "_name" (← e.value db name)
    let cost ← e.toDouble "_cost" (← e.value db cost)
    let count ← e.toUnsigned unsignedMax "_count" (← e.value db count)
    let distributor ← e.toInt "_distributor_id" (← e.value db distributor)
    let type ← e.toInt "_type_id" (← e.value db type)
    let description ← e.toText "_description" (← e.value db description)
    return .update (.addItem name cost count distributor type description)
  | .addItemCount, [id, appended] => do
    let id ← e.toInt "_id" (← e.value db id)
    return .update (.addItemCount id (← e.toInt "appended" (← e.value db appended)))
  | .addOrderedItem, [order, item, count] => do
    let order ← e.toInt "_order_id" (← e.value db order)
    let item ← e.toInt "_item_id" (← e.value db item)
    let count ← e.toUnsigned unsignedMax "_count_in_order" (← e.value db count)
    return .update (.addOrderedItem order item count)
  | .addOrder, [telephone, expire] => do
    let telephone ← e.toUnsigned bigintUnsignedMax "_customer_telephone" (← e.value db telephone)
    return .update (.addOrder telephone (← e.toDate "_date_of_expire" (← e.value db expire)))
  | .completeOrder, [id] => do
    return .update (.completeOrder (← e.toInt "_id" (← e.value db id)))
  | .getExpiredOrders, [] => return .query .getExpiredOrders
  | .getCompletedOrders, [start, end_] => do
    let start ← e.toDate "_start" (← e.value db start)
    return .query (.getCompletedOrders start (← e.toDate "_end" (← e.value db end_)))
  | .getIncome, [start, end_] => do
    let start ← e.toDate "_start" (← e.value db start)
    return .query (.getIncome start (← e.toDate "_end" (← e.value db end_)))
  | .getSellsStatiscticsByDistributors, [start, end_] => do
    let start ← e.toDate "_start" (← e.value db start)
    return .query (.getSellsStatiscticsByDistributors start (← e.toDate "_end" (← e.value db end_)))
  | p, args => throw (.argumentCount p.name p.arity args.length)

/-- The statement a text stands for. -/
def compile (sql : String) : Except SqlError Statement :=
  match parse sql with
  | none => .error .malformed
  | some call =>
    match Procedure.ofName? call.procedure with
    | none => .error (.noProcedure call.procedure)
    | some p => e.bind db p call.args

/-- The rows after a statement, its result set, and the id it reports as inserted. -/
structure Effect where
  db : Db
  result : Option ResultSet
  insertId : Int
  deriving DecidableEq, Repr

def exec (at_ : Occasion) (sql : String) : Except SqlError Effect :=
  match e.compile db sql with
  | .error fault => .error fault
  | .ok (.query q) => .ok ⟨db, some (q.run e.collation at_.now db), 0⟩
  | .ok (.update u) =>
    match u.exec e.collation at_ db with
    | .error fault => .error fault
    | .ok after =>
      let inserted := match u with
        | .addItem .. => db.next.item
        | .addOrder .. => db.next.newOrder
        | .addOrderedItem .. => db.next.orderedItem
        | _ => 0
      .ok ⟨after, none, if e.reportsInsertId then inserted else 0⟩

section
variable {e : Engine} {db : Db}

theorem bind_procedure {p : Procedure} {args : List (List Token)} {st : Statement}
    (bound : e.bind db p args = .ok st) : st.procedure = p := by
  unfold bind at bound
  split at bound
  all_goals simp only [bind_eq_ok, pure_eq_ok, throw, throwThe, MonadExceptOf.throw, reduceCtorEq] at bound
  all_goals grind [Statement.procedure]

theorem compile_procedure {p : Procedure} {args : List String} {st : Statement}
    (compiled : e.compile db (callText p.name args) = .ok st) : st.procedure = p := by
  unfold compile at compiled
  split at compiled
  · cases compiled
  next call parsed =>
    rw [parse_procedure p.isName_name parsed, Procedure.ofName?_name] at compiled
    exact bind_procedure compiled

variable (e db) in
/-- Quoted texts without special characters reach the procedure as they are. -/
theorem compile_quoted (p : Procedure) (texts : List String)
    (verbatim : ∀ text ∈ texts, isVerbatim text.toList = true) (some_ : texts ≠ []) :
    e.compile db (callText p.name (texts.map quoted)) =
      e.bind db p (texts.map fun text => [.str text]) := by
  unfold compile
  rw [parse_quoted p.isName_name verbatim some_]
  simp only [Procedure.ofName?_name]

theorem compile_nil (p : Procedure) : e.compile db (callText p.name []) = e.bind db p [] := by
  unfold compile
  rw [parse_callText_nil p.isName_name]
  simp only [Procedure.ofName?_name]

end

end Engine
end PcCourse
