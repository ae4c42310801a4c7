import PcCourse.Database
import PcCourse.Grouping

/-! The stored procedures of `db.sql` that change rows. A parameter is an option,
with `none` for NULL; a procedure that fails changes nothing. -/
namespace PcCourse

open Grouping

/-- Equality of text columns under the collation of the database. -/
structure Collation where
  same : String → String → Bool
  refl : ∀ text, same text text = true

def Collation.binary : Collation := ⟨fun a b => a == b, fun text => by simp⟩

abbrev Line := OrderedItem × Item

/-- What one call reads besides its arguments and the tables: `CURRENT_TIMESTAMP` and
the row whose value a non-aggregated column of a group takes. -/
structure Occasion where
  now : Int
  pick : Pick Line

def day (time : Int) : Int := time / 86400

def notNull {α : Type} (column : String) : Option α → Except SqlError α
  | some value => .ok value
  | none => .error (.cannotBeNull column)

def freshId (next : Int) : Except SqlError Int :=
  if next ≤ intMax then .ok next else .error .autoIncrement

/-- The value an INT UNSIGNED column takes, in strict mode. -/
def storeUnsigned (column : String) (value : Int) : Except SqlError Nat :=
  if 0 ≤ value ∧ value ≤ unsignedMax then .ok value.toNat else .error (.outOfRange column)

def deleteUser (c : Collation) (login : Option String) (db : Db) : Except SqlError Db :=
  .ok { db with user := db.user.filter fun u => !login.any (c.same u.login) }

def createUser (c : Collation) (login sha256Pwd sname name pname : Option String)
    (rankId : Option Int) (db : Db) : Except SqlError Db :=
  if db.user.any (fun u => login.any (c.same u.login)) then .error (.signal .userAlreadyExists)
  else if !db.userRank.any (fun r => some r.id = rankId) then .error (.signal .rankNotExists)
  else do
    let login ← notNull "login" login
    let sha256Pwd ← notNull "sha256_pwd" sha256Pwd
    let rank ← notNull "rank" rankId
    return { db with user := db.user ++ [⟨login, sha256Pwd, sname, name, pname, rank⟩] }

def updateUser (c : Collation) (login sname name pname : Option String) (rankId : Option Int)
    (db : Db) : Except SqlError Db :=
  if !db.userRank.any (fun r => some r.id = rankId) then .error (.signal .rankNotExists)
  else do
    let rank ← notNull "rank" rankId
    return { db with
      user := db.user.map fun u =>
        if login.any (c.same u.login) then { u with sname, name, pname, rank } else u }

def createCustomer (telephone : Option Nat) (sname name pname : Option String) (db : Db) :
    Except SqlError Db :=
  if db.customer.any (fun row => some row.telephone = telephone) then
    .error (.signal .customerAlreadyExists)
  else do
    let telephone ← notNull "telephone" telephone
    return { db with customer := db.customer ++ [⟨telephone, sname, name, pname⟩] }

/-- The orders of the customer and their lines go with the row: ON DELETE CASCADE. -/
def deleteCustomer (telephone : Option Nat) (db : Db) : Except SqlError Db :=
  .ok { db with
    customer := db.customer.filter fun row => some row.telephone ≠ telephone
    newOrder := db.newOrder.filter fun o => some o.customerTel ≠ telephone
    orderedItem := db.orderedItem.filter fun line =>
      !db.newOrder.any fun o => o.id = line.orderId ∧ some o.customerTel = telephone }

def addItem (name : Option String) (cost : Option Decimal) (count : Option Nat)
    (distributorId typeId : Option Int) (description : Option String) (db : Db) :
    Except SqlError Db :=
  if !db.distributor.any (fun row => some row.id = distributorId) then
    .error (.signal .distributorNotExists)
  else if !db.itemType.any (fun row => some row.id = typeId) then
    .error (.signal .itemTypeNotExists)
  else do
    let id ← freshId db.next.item
    let name ← notNull "name" name
    let cost ← notNull "cost" cost
    let count ← notNull "count_on_warehouse" count
    let count ← storeUnsigned "count_on_warehouse" count
    let distributor ← notNull "distributor_id" distributorId
    let type ← notNull "type_id" typeId
    let description ← notNull "description" description
    return { db with
      item := db.item ++ [⟨id, name, cost, count, distributor, type, description⟩]
      next := { db.next with item := id + 1 } }

/-- The trigger `complete_order_check`, run before a row of `Item` is updated. -/
def completeOrderCheck (new : Item) : Except SqlError Item :=
  if (new.countOnWarehouse : Int) < 0 then .error (.signal .notEnoughItems) else .ok new

def updateCount (row : Item) (count : Int) : Except SqlError Item := do
  let count ← storeUnsigned "count_on_warehouse" count
  completeOrderCheck { row with countOnWarehouse := count }

def addItemCount (id appended : Option Int) (db : Db) : Except SqlError Db := do
  let item ← db.item.mapM fun row =>
    if some row.id = id then do
      let appended ← notNull "count_on_warehouse" appended
      updateCount row (row.countOnWarehouse + appended)
    else .ok row
  return { db with item }

def addOrderedItem (orderId itemId : Option Int) (countInOrder : Option Nat) (db : Db) :
    Except SqlError Db :=
  if !db.item.any (fun row => some row.id = itemId) then .error (.signal .itemNotExists)
  else do
    let id ← freshId db.next.orderedItem
    let item ← notNull "item_id" itemId
    let order ← notNull "order_id" orderId
    let count ← notNull "count_in_order" countInOrder
    let count ← storeUnsigned "count_in_order" count
    if !db.newOrder.any (fun o => o.id = order) then .error (.foreignKey "OrderedItem" "order_id")
    else return { db with
      orderedItem := db.orderedItem ++ [⟨id, item, order, count⟩]
      next := { db.next with orderedItem := id + 1 } }

def addOrder (now : Int) (customerTelephone : Option Nat) (dateOfExpire : Option Int) (db : Db) :
    Except SqlError Db :=
  if !db.customer.any (fun row => some row.telephone = customerTelephone) then
    .error (.signal .customerNotExists)
  else do
    let id ← freshId db.next.newOrder
    let customer ← notNull "customer_tel" customerTelephone
    let expire ← notNull "date_of_expire" dateOfExpire
    return { db with
      newOrder := db.newOrder ++ [⟨id, customer, day now, expire, none⟩]
      next := { db.next with newOrder := id + 1 } }

def isCompleted (id : Option Int) (db : Db) : Bool :=
  db.newOrder.any fun o => some o.id = id ∧ o.dateOfCompletion.isSome

def orderLines (id : Option Int) (db : Db) : List Line :=
  join (fun line row => line.itemId = row.id)
    (db.orderedItem.filter fun line => some line.orderId = id) db.item

def Line.distributor (line : Line) : Int := line.2.distributorId

def Line.count (line : Line) : Nat := line.1.countInOrder

/-- The subquery `tbl`: one row for each distributor, with the item id of some line of
the group and the sum of the counts of all its lines. -/
def completionTable (pick : Pick Line) (id : Option Int) (db : Db) : List (Int × Nat) :=
  (groups Line.distributor (orderLines id db)).map fun (first, rest) =>
    ((pick.choose first rest).2.id, ((first :: rest).map Line.count).sum)

/-- The multi-table UPDATE: an item is updated by the row of `tbl` with its id. -/
def subtractOrder (pick : Pick Line) (id : Option Int) (db : Db) : Except SqlError Db := do
  let item ← db.item.mapM fun row =>
    match (completionTable pick id db).find? (fun entry => entry.1 = row.id) with
    | none => .ok row
    | some entry => updateCount row (row.countOnWarehouse - entry.2)
  return { db with item }

def stampOrder (now : Int) (id : Option Int) (db : Db) : Db :=
  { db with
    newOrder := db.newOrder.map fun o =>
      if some o.id = id then { o with dateOfCompletion := some (day now) } else o }

def completeOrder (at_ : Occasion) (id : Option Int) (db : Db) : Except SqlError Db :=
  if isCompleted id db then .ok db
  else do
    let db ← subtractOrder at_.pick id db
    return stampOrder at_.now id db

inductive Update where
  | deleteUser (login : Option String)
  | createUser (login sha256Pwd sname name pname : Option String) (rankId : Option Int)
  | updateUser (login sname name pname : Option String) (rankId : Option Int)
  | createCustomer (telephone : Option Nat) (sname name pname : Option String)
  | deleteCustomer (telephone : Option Nat)
  | addItem (name : Option String) (cost : Option Decimal) (count : Option Nat)
      (distributorId typeId : Option Int) (description : Option String)
  | addItemCount (id appended : Option Int)
  | addOrderedItem (orderId itemId : Option Int) (countInOrder : Option Nat)
  | addOrder (customerTelephone : Option Nat) (dateOfExpire : Option Int)
  | completeOrder (id : Option Int)
  deriving DecidableEq, Repr

def Update.exec (c : Collation) (at_ : Occasion) : Update → Db → Except SqlError Db
  | .deleteUser login => PcCourse.deleteUser c login
  | .createUser login pwd sname name pname rank =>
    PcCourse.createUser c login pwd sname name pname rank
  | .updateUser login sname name pname rank => PcCourse.updateUser c login sname name pname rank
  | .createCustomer tel sname name pname => PcCourse.createCustomer tel sname name pname
  | .deleteCustomer tel => PcCourse.deleteCustomer tel
  | .addItem name cost count distributor type description =>
    PcCourse.addItem name cost count distributor type description
  | .addItemCount id appended => PcCourse.addItemCount id appended
  | .addOrderedItem order item count => PcCourse.addOrderedItem order item count
  | .addOrder tel expire => PcCourse.addOrder at_.now tel expire
  | .completeOrder id => PcCourse.completeOrder at_ id

/-- A call that fails leaves the state as it was. -/
def Update.apply (c : Collation) (at_ : Occasion) (u : Update) (db : Db) : Db :=
  match u.exec c at_ db with
  | .ok after => after
  | .error _ => db

end PcCourse
