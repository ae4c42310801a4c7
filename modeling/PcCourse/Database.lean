import PcCourse.Decimal

/-! The tables of `db.sql` and the errors a statement on them can raise. A column
that may be NULL is an option; an unsigned column is a natural number, whose upper
bound is checked where the column is written. Dates are counted in days from the
epoch, times in seconds. -/
namespace PcCourse

structure UserRank where
  id : Int
  name : Option String
  deriving DecidableEq, Repr

structure User where
  login : String
  sha256Pwd : String
  sname : Option String
  name : Option String
  pname : Option String
  rank : Int
  deriving DecidableEq, Repr

structure Customer where
  telephone : Nat
  sname : Option String
  name : Option String
  pname : Option String
  deriving DecidableEq, Repr

structure NewOrder where
  id : Int
  customerTel : Nat
  dateOfStart : Int
  dateOfExpire : Int
  dateOfCompletion : Option Int
  deriving DecidableEq, Repr

structure Distributor where
  id : Int
  name : String
  deriving DecidableEq, Repr

structure ItemType where
  id : Int
  name : String
  deriving DecidableEq, Repr

structure Item where
  id : Int
  name : String
  cost : Decimal
  countOnWarehouse : Nat
  distributorId : Int
  typeId : Int
  description : String
  deriving DecidableEq, Repr

structure OrderedItem where
  id : Int
  itemId : Int
  orderId : Int
  countInOrder : Nat
  deriving DecidableEq, Repr

/-- The rows a transaction can change, in the order of their creation. -/
structure Tables where
  userRank : List UserRank
  user : List User
  customer : List Customer
  newOrder : List NewOrder
  distributor : List Distributor
  itemType : List ItemType
  item : List Item
  orderedItem : List OrderedItem
  deriving DecidableEq, Repr

/-- The next AUTO_INCREMENT values. They are no part of a transaction: a rollback
leaves them where they are. -/
structure AutoIncrement where
  newOrder : Int
  item : Int
  orderedItem : Int
  deriving DecidableEq, Repr

structure Db extends Tables where
  next : AutoIncrement
  deriving DecidableEq, Repr

/-- The state after the table definitions and their seed rows. -/
def schema : Db where
  userRank := [⟨1, some "Admin"⟩, ⟨2, some "Employee"⟩, ⟨3, some "Accountant"⟩]
  user := []
  customer := []
  newOrder := []
  distributor := [⟨1, "AMD"⟩, ⟨2, "NVIDIA"⟩, ⟨3, "HP"⟩, ⟨4, "VIA"⟩, ⟨5, "ASUS"⟩, ⟨6, "Acer"⟩,
    ⟨7, "Lenovo"⟩, ⟨8, "DELL"⟩]
  itemType := [⟨1, "CPU"⟩, ⟨2, "GPU"⟩, ⟨3, "RAM"⟩, ⟨4, "Laptop"⟩, ⟨5, "Monitor"⟩,
    ⟨6, "Motherboard"⟩, ⟨7, "Keyboard"⟩, ⟨8, "Mice"⟩]
  item := []
  orderedItem := []
  next := ⟨1, 1, 1⟩

/-- The state after the calls at the end of `db.sql`, run on day 19675. -/
def seeded : Db :=
  { schema with
    user := [
      ⟨"amogus", "80c5e536eec8387cccad28b8b17b933832244998d85918abf18cc9bada5d4fe9",
        some "amogus_sname", some "amogus_name", some "amogus_pname", 1⟩,
      ⟨"abobus", "32c9a2ec9e0c4e3a4cc93012b2e72c04b2c395578dcc80b535e951b452eaf9a3",
        some "amogus_sname", some "amogus_name", some "amogus_pname", 2⟩,
      ⟨"amongaust", "a2c1492a15db8248ab62f9575d18753b5fda78b7ab3e89111af2ece23849a51c",
        some "amogus_sname", some "amogus_name", some "amogus_pname", 3⟩]
    customer := [
      ⟨123, some "c1_name", some "c1_sname", some "c1_pname"⟩,
      ⟨456, some "c2_name", some "c2_sname", some "c2_pname"⟩,
      ⟨789, some "c3_name", some "c3_sname", some "c3_pname"⟩]
    newOrder := [⟨1, 123, 19675, 20041, none⟩]
    item := [
      ⟨1, "Ryzen 5 1600", ⟨25009, -2⟩, 189, 1, 1, "Ryzen 5 1600, 6 cores, 12 threads"⟩,
      ⟨2, "NVIDIA GTX 1080Ti", ⟨10584, -1⟩, 53, 2, 2, "GPU NVIDIA GTX1080Ti"⟩,
      ⟨3, "Intel Core i3 9100F", ⟨1353, -1⟩, 456, 3, 1, "Intel Core i3 9100F 4 cores, 8 threads"⟩]
    orderedItem := [⟨1, 1, 1, 18⟩, ⟨2, 2, 1, 7⟩, ⟨3, 3, 1, 75⟩, ⟨4, 1, 1, 9⟩]
    next := ⟨2, 4, 5⟩ }

/-- The conditions the procedures and the trigger signal. -/
inductive Signal where
  | userAlreadyExists
  | rankNotExists
  | customerAlreadyExists
  | distributorNotExists
  | itemTypeNotExists
  | itemNotExists
  | customerNotExists
  | notEnoughItems
  deriving DecidableEq, Repr

def Signal.text : Signal → String
  | .userAlreadyExists => "UserAlreadyExists"
  | .rankNotExists => "RankNotExists"
  | .customerAlreadyExists => "CustomerAlreadyExists"
  | .distributorNotExists => "DistributorNotExists"
  | .itemTypeNotExists => "ItemTypeNotExists"
  | .itemNotExists => "ItemNotExists"
  | .customerNotExists => "CustomerNotExists"
  | .notEnoughItems => "NotEnoughItems"

inductive SqlError where
  | signal (condition : Signal)
  | cannotBeNull (column : String)
  | outOfRange (column : String)
  | dataTooLong (column : String)
  | incorrectValue (type value column : String)
  | duplicateEntry (value key : String)
  | foreignKey (table key : String)
  | autoIncrement
  | argumentCount (procedure : String) (expected got : Nat)
  | noProcedure (name : String)
  | malformed
  | lostConnection
  | lockWaitTimeout
  deriving DecidableEq, Repr

/-- The text `query.error()` reports. -/
def SqlError.message : SqlError → String
  | .signal condition => condition.text
  | .cannotBeNull column => "Column '" ++ (column ++ "' cannot be null")
  | .outOfRange column => "Out of range value for column '" ++ (column ++ "' at row 1")
  | .dataTooLong column => "Data too long for column '" ++ (column ++ "' at row 1")
  | .incorrectValue type value column =>
    "Incorrect " ++ (type ++ " value: '" ++ value ++ "' for column '" ++ column ++ "' at row 1")
  | .duplicateEntry value key => "Duplicate entry '" ++ (value ++ "' for key '" ++ key ++ "'")
  | .foreignKey table key =>
    "Cannot add or update a child row: a foreign key constraint fails (" ++
      (table ++ ", " ++ key ++ ")")
  | .autoIncrement => "Failed to read auto-increment value from storage engine"
  | .argumentCount procedure expected got =>
    "Incorrect number of arguments for PROCEDURE " ++
      (procedure ++ "; expected " ++ toString expected ++ ", got " ++ toString got)
  | .noProcedure name => "PROCEDURE " ++ (name ++ " does not exist")
  | .malformed => "You have an error in your SQL syntax"
  | .lostConnection => "Lost connection to MySQL server during query"
  | .lockWaitTimeout => "Lock wait timeout exceeded; try restarting transaction"

/-- Ranges of the integer columns and parameters. -/
def intMax : Int := 2147483647
def intMin : Int := -2147483648
def unsignedMax : Nat := 4294967295
def bigintUnsignedMax : Nat := 18446744073709551615

end PcCourse
