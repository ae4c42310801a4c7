import PcCourse.Procedures

/-! The stored procedures of `db.sql` that only read, with the columns and rows of
their result sets. -/
namespace PcCourse

open Grouping

/-- A value of a statement: an argument of a call or a cell of a result. A time is a
DATETIME in seconds. -/
inductive SqlValue where
  | null
  | text (s : String)
  | int (n : Int)
  | double (d : Decimal)
  | time (seconds : Int)
  deriving DecidableEq, Repr

structure ResultSet where
  fields : List String
  rows : List (List SqlValue)
  deriving DecidableEq, Repr

def SqlValue.ofText : Option String → SqlValue
  | none => .null
  | some s => .text s

def SqlValue.ofInt : Option Int → SqlValue
  | none => .null
  | some n => .int n

/-- The last second FROM_UNIXTIME and UNIX_TIMESTAMP know. -/
def lastTimestamp : Int := 32536771199

def unixTimestamp (day : Int) : Int :=
  if 0 ≤ day * 86400 ∧ day * 86400 ≤ lastTimestamp then day * 86400 else 0

def checkUserExists (c : Collation) (login sha256Pwd rankName : Option String) (db : Db) : Bool :=
  (join (fun u r => u.rank = r.id) db.user db.userRank).any fun (u, r) =>
    login.any (c.same u.login) && r.name.any (fun name => rankName.any (c.same name)) &&
      sha256Pwd.any (c.same u.sha256Pwd)

def getRanks (db : Db) : ResultSet where
  fields := ["id", "name"]
  rows := db.userRank.map fun r => [.int r.id, .ofText r.name]

def getUsers (db : Db) : ResultSet where
  fields := ["login", "sname", "name", "pname", "rank"]
  rows := (join (fun u r => u.rank = r.id) db.user db.userRank).map fun (u, r) =>
    [.text u.login, .ofText u.sname, .ofText u.name, .ofText u.pname, .ofText r.name]

def getCustomers (db : Db) : ResultSet where
  fields := ["telephone", "sname", "name", "pname"]
  rows := db.customer.map fun row =>
    [.int row.telephone, .ofText row.sname, .ofText row.name, .ofText row.pname]

def orderFields : List String :=
  ["id", "date_of_start", "date_of_expire", "date_of_completion", "c_telephone", "c_sname",
    "c_name", "c_pname"]

def orderRow (row : NewOrder × Customer) : List SqlValue :=
  let (o, customer) := row
  [.int o.id, .int (unixTimestamp o.dateOfStart), .int (unixTimestamp o.dateOfExpire),
    .ofInt (o.dateOfCompletion.map unixTimestamp), .int customer.telephone,
    .ofText customer.sname, .ofText customer.name, .ofText customer.pname]

def ordersOfCustomers (db : Db) : List (NewOrder × Customer) :=
  join (fun o customer => o.customerTel = customer.telephone) db.newOrder db.customer

def getOrders (db : Db) : ResultSet :=
  ⟨orderFields, (ordersOfCustomers db).map orderRow⟩

/-- A line with its item, the item's distributor and its type. -/
abbrev CatalogLine := Line × Distributor × ItemType

def catalogLines (id : Option Int) (db : Db) : List CatalogLine :=
  (join (fun line d => line.1.2.distributorId = d.id)
    (join (fun line t => line.2.typeId = t.id) (orderLines id db) db.itemType)
    db.distributor).map fun ((line, t), d) => (line, d, t)

/-- The cost of a line: its count times the cost of its item. -/
def Line.cost (line : Line) : Decimal := .ofInt line.1.countInOrder * line.2.cost

def getOrderItems (id : Option Int) (db : Db) : ResultSet where
  fields := ["id", "count_in_order", "name", "cost", "distributor", "description", "type",
    "common_cost"]
  rows := (catalogLines id db).map fun (line, d, t) =>
    [.int line.1.id, .int line.1.countInOrder, .text line.2.name, .double line.2.cost,
      .text d.name, .text line.2.description, .text t.name, .double line.cost]

def getItems (db : Db) : ResultSet where
  fields := ["id", "name", "cost", "count_on_warehouse", "distributor", "type", "description"]
  rows := (join (fun row t => row.1.typeId = t.id)
    (join (fun row d => row.distributorId = d.id) db.item db.distributor) db.itemType).map
    fun ((row, d), t) =>
      [.int row.id, .text row.name, .double row.cost, .int row.countOnWarehouse, .text d.name,
        .text t.name, .text row.description]

def getDistributors (db : Db) : ResultSet where
  fields := ["id", "name"]
  rows := db.distributor.map fun row => [.int row.id, .text row.name]

def getItemTypes (db : Db) : ResultSet where
  fields := ["id", "name"]
  rows := db.itemType.map fun row => [.int row.id, .text row.name]

/-- A DATE compared with CURRENT_TIMESTAMP counts as its midnight. -/
def isExpired (now : Int) (o : NewOrder) : Bool :=
  match o.dateOfCompletion with
  | some completed => completed > o.dateOfExpire
  | none => now > o.dateOfExpire * 86400

def getExpiredOrders (now : Int) (db : Db) : ResultSet :=
  ⟨orderFields, ((ordersOfCustomers db).filter fun row => isExpired now row.1).map orderRow⟩

/-- The order was completed between two days; no day lies between NULLs. -/
def completedIn (start end_ : Option Int) (o : NewOrder) : Bool :=
  o.dateOfCompletion.any fun completed =>
    start.any (fun first => first ≤ completed) && end_.any (fun last => completed ≤ last)

def getCompletedOrders (start end_ : Option Int) (db : Db) : ResultSet :=
  ⟨orderFields, ((ordersOfCustomers db).filter fun row => completedIn start end_ row.1).map orderRow⟩

/-- The lines of all orders, with their items and orders. -/
def soldLines (start end_ : Option Int) (db : Db) : List (Line × NewOrder) :=
  (join (fun line o => line.1.orderId = o.id)
    (join (fun line row => line.itemId = row.id) db.orderedItem db.item) db.newOrder).filter
    fun row => completedIn start end_ row.2

def getIncome (start end_ : Option Int) (db : Db) : ResultSet where
  fields := ["income"]
  rows := [[.double ((soldLines start end_ db).foldl (fun total row => total + row.1.cost) .zero)]]

/-- Names the collation equates are one group; this is its key. -/
def distributorGroup (c : Collation) (db : Db) (d : Distributor) : Option Int :=
  (db.distributor.find? fun other => c.same other.name d.name).map Distributor.id

def getSellsStatiscticsByDistributors (c : Collation) (start end_ : Option Int) (db : Db) :
    ResultSet where
  fields := ["common_cost", "common_count", "distributor"]
  rows := (groups (fun row => distributorGroup c db row.2)
    (join (fun row d => row.1.2.distributorId = d.id) (soldLines start end_ db)
      db.distributor)).map fun (first, rest) =>
    [.double ((first :: rest).foldl (fun total row => total + row.1.1.cost) .zero),
      .int ((first :: rest).map fun row => row.1.1.count).sum, .text first.2.name]

/-- A call of one of these procedures, with its arguments. -/
inductive Query where
  | checkUserExists (login sha256Pwd rankName : Option String)
  | getRanks
  | getUsers
  | getCustomers
  | getOrders
  | getOrderItems (id : Option Int)
  | getItems
  | getDistributors
  | getItemTypes
  | getExpiredOrders
  | getCompletedOrders (start end_ : Option Int)
  | getIncome (start end_ : Option Int)
  | getSellsStatiscticsByDistributors (start end_ : Option Int)
  deriving DecidableEq, Repr

def Query.run (c : Collation) (now : Int) : Query → Db → ResultSet
  | .checkUserExists login pwd rank, db =>
    ⟨["EXISTS"], [[.int (if PcCourse.checkUserExists c login pwd rank db then 1 else 0)]]⟩
  | .getRanks, db => PcCourse.getRanks db
  | .getUsers, db => PcCourse.getUsers db
  | .getCustomers, db => PcCourse.getCustomers db
  | .getOrders, db => PcCourse.getOrders db
  | .getOrderItems id, db => PcCourse.getOrderItems id db
  | .getItems, db => PcCourse.getItems db
  | .getDistributors, db => PcCourse.getDistributors db
  | .getItemTypes, db => PcCourse.getItemTypes db
  | .getExpiredOrders, db => PcCourse.getExpiredOrders now db
  | .getCompletedOrders start end_, db => PcCourse.getCompletedOrders start end_ db
  | .getIncome start end_, db => PcCourse.getIncome start end_ db
  | .getSellsStatiscticsByDistributors start end_, db =>
    PcCourse.getSellsStatiscticsByDistributors c start end_ db

/-- Access is granted by a row for the login, the hash and the rank. -/
theorem checkUserExists_iff {c : Collation} {login pwd rank : Option String} {db : Db} :
    checkUserExists c login pwd rank db = true ↔
      ∃ u ∈ db.user, ∃ r ∈ db.userRank, u.rank = r.id ∧ login.any (c.same u.login) = true ∧
        r.name.any (fun name => rank.any (c.same name)) = true ∧
        pwd.any (c.same u.sha256Pwd) = true := by
  simp only [checkUserExists, List.any_eq_true, Bool.and_eq_true, Prod.exists]
  constructor
  · rintro ⟨u,r,inside,⟨hlogin,hname⟩,hpwd⟩
    have parts := mem_join.mp inside
    exact ⟨u, parts.1, r, parts.2.1, by simpa using parts.2.2, hlogin, hname, hpwd⟩
  · rintro ⟨u,user,r,ranked,on,hlogin,hname,hpwd⟩
    exact ⟨u, r, mem_join.mpr ⟨user, ranked, by simpa using on⟩, ⟨hlogin, hname⟩, hpwd⟩

end PcCourse
