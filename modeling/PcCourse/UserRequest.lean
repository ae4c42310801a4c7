import PcCourse.Session

/-! The request handlers of `Request.hpp`, the table `main.cpp` registers them in, and
`Connection::ProcessRequest`, which finds the handler of a request. A missing or wrongly
typed field raises; the handlers answer `bad_config` to it. -/
namespace PcCourse.UserRequest

open SqlCall

variable (e : Engine) (k : Conditions)

def respond (message : String) (s : Session) : Reply := ⟨some (makeResponseStr message), s⟩

/-- The strings of the user table. -/
def credentials (config : LuaValue) : Option (String × String × String) := do
  let user ← config.getRawRef "user"
  let login ← user.getRawString "login"
  let password ← user.getRawString "password"
  let rank ← user.getRawString "rank"
  return (login, password, rank)

def userTable (login password rank : String) : LuaValue :=
  .table [("login", .str login), ("password", .str password), ("rank", .str rank)] []

/-- The credentials of a seeded account. -/
def employee : LuaValue :=
  userTable "abobus" "32c9a2ec9e0c4e3a4cc93012b2e72c04b2c395578dcc80b535e951b452eaf9a3" "Employee"

/-- `check_user_existance`: the empty text grants access. -/
def checkUserExistance (config : LuaValue) (ranks : List String) (s : Session) : String × Session :=
  match credentials config with
  | none => (makeResponseStr "bad_config", s)
  | some (login, password, rank) =>
    if rank ∉ ranks then (makeResponseStr "access_denied", s)
    else
      invokeStoredProcedure e k
        (callText "CheckUserExists" [quoted login, quoted password, quoted rank])
        (fun outcome s =>
          match outcome with
          | .error _ => (makeResponseStr s.lastError, s)
          | .ok effect =>
            match effect.result.bind fun res => res.rows.head?.bind List.head? with
            | none => (makeResponseStr "bad_config", s)
            | some cell => (if e.text cell = some "0" then makeResponseStr "bad_config" else "", s)) s

/-- The head of a handler that only some ranks may use. -/
def guarded (ranks : List String) (config : LuaValue) (s : Session) (body : Session → Reply) : Reply :=
  let (str, s) := checkUserExistance e k config ranks s
  if str ≠ "" then ⟨some str, s⟩ else body s

/-- A handler that answers success with the rows of a procedure. -/
def listing (sql tableName : String) (fields : List FieldAndType) (s : Session) : Reply :=
  invokeStoredProcedure e k sql
    (fun outcome s =>
      let res := outcome.toOption.bind Engine.Effect.result
      ⟨(serializeQueryResult e k.iteration res tableName fields).map (makeResponseStr "success" ++ ·), s⟩) s

/-- A call whose failure is answered with its error text. -/
def reporting (sql : String) (s : Session) : Reply :=
  invokeStoredProcedure e k sql
    (fun outcome s =>
      match outcome with
      | .error _ => respond s.lastError s
      | .ok _ => respond "success" s) s

/-- A call whose result is not looked at. -/
def unchecked (sql : String) (s : Session) : Reply :=
  invokeStoredProcedure e k sql (fun _ s => respond "success" s) s

/-- A handler whose fields cannot be read answers `bad_config`. -/
def reading {α : Type} (fields : Option α) (s : Session) (body : α → Reply) : Reply :=
  match fields with
  | none => respond "bad_config" s
  | some values => body values

def auth (config : LuaValue) (s : Session) : Reply :=
  guarded e k ["Admin", "Employee", "Accountant"] config s fun s => respond "success" s

def getUsers (config : LuaValue) (s : Session) : Reply :=
  guarded e k ["Admin"] config s fun s =>
    listing e k (callText "GetUsers" []) "users"
      [⟨"login", .string, true⟩, ⟨"sname", .string, true⟩, ⟨"name", .string, true⟩,
        ⟨"pname", .string, true⟩, ⟨"rank", .string, true⟩] s

def getRanks (_config : LuaValue) (s : Session) : Reply :=
  listing e k (callText "GetRanks" []) "ranks" [⟨"id", .int, true⟩, ⟨"name", .string, true⟩] s

def getCustomers (_config : LuaValue) (s : Session) : Reply :=
  listing e k (callText "GetCustomers" []) "customers"
    [⟨"telephone", .int, true⟩, ⟨"sname", .string, true⟩, ⟨"name", .string, true⟩,
      ⟨"pname", .string, true⟩] s

/-- The fields of an order; only the completion date may be NULL. -/
def orderFieldTypes : List FieldAndType :=
  [⟨"id", .int, true⟩, ⟨"date_of_start", .int, true⟩, ⟨"date_of_expire", .int, true⟩,
    ⟨"date_of_completion", .int, false⟩, ⟨"c_telephone", .int, true⟩, ⟨"c_sname", .string, true⟩,
    ⟨"c_name", .string, true⟩, ⟨"c_pname", .string, true⟩]

def getOrders (_config : LuaValue) (s : Session) : Reply :=
  listing e k (callText "GetOrders" []) "orders" orderFieldTypes s

def getOrderItems (config : LuaValue) (s : Session) : Reply :=
  reading (config.getRawInt "order_id") s fun orderId =>
    listing e k (callText "GetOrderItems" [toString orderId]) "order_items"
      [⟨"id", .int, true⟩, ⟨"count_in_order", .int, true⟩, ⟨"name", .string, true⟩,
        ⟨"cost", .number, true⟩, ⟨"distributor", .string, true⟩, ⟨"description", .string, true⟩,
        ⟨"common_cost", .number, true⟩] s

def getItems (_config : LuaValue) (s : Session) : Reply :=
  listing e k (callText "GetItems" []) "items"
    [⟨"id", .int, true⟩, ⟨"name", .string, true⟩, ⟨"cost", .number, true⟩,
      ⟨"count_on_warehouse", .int, true⟩, ⟨"distributor", .string, true⟩, ⟨"type", .string, true⟩,
      ⟨"description", .string, true⟩] s

def getDistributors (_config : LuaValue) (s : Session) : Reply :=
  listing e k (callText "GetDistributors" []) "distributors"
    [⟨"id", .int, true⟩, ⟨"name", .string, true⟩] s

def getItemTypes (_config : LuaValue) (s : Session) : Reply :=
  listing e k (callText "GetItemTypes" []) "item_types"
    [⟨"id", .int, true⟩, ⟨"name", .string, true⟩] s

def deleteUser (config : LuaValue) (s : Session) : Reply :=
  guarded e k ["Admin"] config s fun s =>
    reading (config.getRawString "delete_user_login") s fun login =>
      unchecked e k (callText "DeleteUser" [quoted login]) s

def readUpdateUser (config : LuaValue) : Option (List String) := do
  let user ← config.getRawRef "update_user"
  let login ← user.getRawString "login"
  let sname ← user.getRawString "sname"
  let name ← user.getRawString "name"
  let pname ← user.getRawString "pname"
  let rank ← user.getRawInt "rank"
  return [login, sname, name, pname, toString rank]

def updateUser (config : LuaValue) (s : Session) : Reply :=
  guarded e k ["Admin"] config s fun s =>
    reading (readUpdateUser config) s fun args =>
      reporting e k (callText "UpdateUser" (args.map quoted)) s

def readNewUser (config : LuaValue) : Option (List String) := do
  let user ← config.getRawRef "new_user"
  let login ← user.getRawString "login"
  let pwd ← user.getRawString "password"
  let sname ← user.getRawString "sname"
  let name ← user.getRawString "name"
  let pname ← user.getRawString "pname"
  let rank ← user.getRawInt "rank"
  return [login, pwd, sname, name, pname, toString rank]

def createUser (config : LuaValue) (s : Session) : Reply :=
  guarded e k ["Admin"] config s fun s =>
    reading (readNewUser config) s fun args =>
      reporting e k (callText "CreateUser" (args.map quoted)) s

def readNewCustomer (config : LuaValue) : Option (List String) := do
  let customer ← config.getRawRef "new_customer"
  let tel ← customer.getRawInt "telephone"
  let sname ← customer.getRawString "sname"
  let name ← customer.getRawString "name"
  let pname ← customer.getRawString "pname"
  return [toString tel, sname, name, pname]

def createCustomer (config : LuaValue) (s : Session) : Reply :=
  guarded e k ["Employee", "Admin"] config s fun s =>
    reading (readNewCustomer config) s fun args =>
      reporting e k (callText "CreateCustomer" (args.map quoted)) s

def deleteCustomer (config : LuaValue) (s : Session) : Reply :=
  guarded e k ["Employee", "Admin"] config s fun s =>
    reading (config.getRawInt "delete_customer_telephone") s fun tel =>
      unchecked e k (callText "DeleteCustomer" [quoted (toString tel)]) s

/-- The numbers of an item are written without quotes. -/
def readNewItem (config : LuaValue) : Option (List String) := do
  let item ← config.getRawRef "new_item"
  let name ← item.getRawString "name"
  let cost ← item.getRawNumber "cost"
  let count ← item.getRawInt "count"
  let distributorId ← item.getRawInt "distributor_id"
  let typeId ← item.getRawInt "type_id"
  let description ← item.getRawString "description"
  return [quoted name, cost.format, toString count, toString distributorId, toString typeId,
    quoted description]

def addItem (config : LuaValue) (s : Session) : Reply :=
  guarded e k ["Employee", "Admin"] config s fun s =>
    reading (readNewItem config) s fun args => reporting e k (callText "AddItem" args) s

def readItemCount (config : LuaValue) : Option (List String) := do
  let item ← config.getRawRef "item"
  let id ← item.getRawInt "id"
  let appendedCount ← item.getRawInt "appended_count"
  return [toString id, toString appendedCount]

def addItemCount (config : LuaValue) (s : Session) : Reply :=
  guarded e k ["Employee", "Admin"] config s fun s =>
    reading (readItemCount config) s fun args =>
      unchecked e k (callText "AddItemCount" (args.map quoted)) s

/-- A failed call inside a transaction: rolled back, then the error text is read. -/
def rollbackAndReport (s : Session) : Reply :=
  let s := s.rollback k
  respond s.lastError s

def completeOrder (config : LuaValue) (s : Session) : Reply :=
  guarded e k ["Employee", "Admin"] config s fun s =>
    reading (config.getRawInt "order_id") s fun id =>
      transaction k s fun s =>
        invokeStoredProcedure e k (callText "CompleteOrder" [quoted (toString id)])
          (fun outcome s =>
            match outcome with
            | .error _ => rollbackAndReport k s
            | .ok _ => respond "success" s.commit) s

/-- Conversion to `int` and to `uint32_t`. -/
def toInt32 (n : Int) : Int := (n + 2147483648) % 4294967296 - 2147483648
def toUInt32 (n : Int) : Nat := (n % 4294967296).toNat

structure RequestedItem where
  itemId : Int
  countInOrder : Nat
  deriving DecidableEq, Repr

structure NewOrderRequest where
  customerTel : Int
  dateOfExpire : Int
  items : List RequestedItem
  deriving DecidableEq, Repr

def readOrderedItem (newOrder : LuaValue) (i : Nat) : Option RequestedItem := do
  let item ← newOrder.getRawRefAt i
  let itemId ← item.getRawInt "item_id"
  let count ← item.getRawInt "count_in_order"
  return ⟨toInt32 itemId, toUInt32 count⟩

/-- The fields of `add_order`: an expired date or an empty list counts as unreadable. -/
def readNewOrder (config : LuaValue) : Option NewOrderRequest := do
  let newOrder ← config.getRawRef "new_order"
  let customerTel ← newOrder.getRawInt "customer_telephone"
  let dateOfExpire ← newOrder.getRawInt "date_of_expire"
  if k.systemClock > dateOfExpire then none
  let length ← newOrder.getLength
  if length = 0 then none
  let items ← (List.range' 1 length).mapM (readOrderedItem newOrder)
  return ⟨customerTel, dateOfExpire, items⟩

/-- The loop over the items, with the commit behind it. -/
def addOrderedItems (newOrderId : Int) : List RequestedItem → Session → Reply
  | [], s => respond "success" s.commit
  | item :: rest, s =>
    invokeStoredProcedure e k
      (callText "AddOrderedItem" [quoted (toString newOrderId), quoted (toString item.itemId),
        quoted (toString item.countInOrder)])
      (fun outcome s =>
        match outcome with
        | .error _ => rollbackAndReport k s
        | .ok _ => addOrderedItems newOrderId rest s) s

def addOrder (config : LuaValue) (s : Session) : Reply :=
  guarded e k ["Employee", "Admin"] config s fun s =>
    reading (readNewOrder k config) s fun order =>
      transaction k s fun s =>
        invokeStoredProcedure e k
          (callText "AddOrder" [quoted (toString order.customerTel),
            quoted ("FROM_UNIXTIME" ++ toString order.dateOfExpire)])
          (fun outcome s =>
            match outcome with
            | .error _ => rollbackAndReport k s
            | .ok effect => addOrderedItems e k (toInt32 effect.insertId) order.items s) s

def getExpiredOrders (config : LuaValue) (s : Session) : Reply :=
  guarded e k ["Admin", "Employee", "Accountant"] config s fun s =>
    listing e k (callText "GetExpiredOrders" []) "expired_orders" orderFieldTypes s

/-- The two dates of a report. -/
def readDates (config : LuaValue) : Option (List String) := do
  let dates ← config.getRawRef "dates"
  let start ← dates.getRawInt "start_date"
  let end_ ← dates.getRawInt "end_date"
  return ["FROM_UNIXTIME(" ++ toString start ++ ")", "FROM_UNIXTIME(" ++ toString end_ ++ ")"]

def getCompletedOrders (config : LuaValue) (s : Session) : Reply :=
  reading (readDates config) s fun dates =>
    listing e k (callText "GetCompletedOrders" dates) "completed_orders" orderFieldTypes s

def getIncome (config : LuaValue) (s : Session) : Reply :=
  reading (readDates config) s fun dates =>
    invokeStoredProcedure e k (callText "GetIncome" dates)
      (fun outcome s =>
        let res := outcome.toOption.bind Engine.Effect.result
        ⟨(serializeOneQueryResult e res ⟨"income", .number, true⟩).map
          (makeResponseStr "success" ++ ·), s⟩) s

def getStatistics (config : LuaValue) (s : Session) : Reply :=
  reading (readDates config) s fun dates =>
    listing e k (callText "GetSellsStatiscticsByDistributors" dates) "statistics"
      [⟨"common_cost", .number, true⟩, ⟨"common_count", .int, true⟩,
        ⟨"distributor", .string, true⟩] s

/-- The table of `main.cpp`. -/
def requests : List (String × (LuaValue → Session → Reply)) :=
  [("auth", auth e k), ("get_users", getUsers e k), ("get_ranks", getRanks e k),
    ("get_customers", getCustomers e k), ("get_orders", getOrders e k),
    ("get_order_items", getOrderItems e k), ("get_items", getItems e k),
    ("get_distributors", getDistributors e k), ("get_item_types", getItemTypes e k),
    ("delete_user", deleteUser e k), ("update_user", updateUser e k),
    ("create_user", createUser e k), ("create_customer", createCustomer e k),
    ("delete_customer", deleteCustomer e k), ("add_item", addItem e k),
    ("add_item_count", addItemCount e k), ("complete_order", completeOrder e k),
    ("add_order", addOrder e k), ("get_expired_orders", getExpiredOrders e k),
    ("get_completed_orders", getCompletedOrders e k), ("get_income", getIncome e k),
    ("get_statistics", getStatistics e k)]

/-- `Connection::ProcessRequest` behind the parser, which yields no table for a text it
cannot run. -/
def processRequest (config : Option LuaValue) (s : Session) : Reply :=
  match config with
  | none => respond "bad_config" s
  | some config =>
    let request := (config.getRawString "request").getD ""
    if request = "" then respond "bad_config" s
    else
      match (requests e k).lookup request with
      | some func => func config s
      | none => respond "bad_config" s

end PcCourse.UserRequest
