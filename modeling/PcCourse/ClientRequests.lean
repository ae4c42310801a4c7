import PcCourse.RoundTrip
import PcCourse.UserRequest

/-! The request builders of `Requests.hpp`, and what the server's handlers find in the
texts they build. -/
namespace PcCourse.ClientRequests

open LuaText LuaChunk SqlCall

structure UserLogin where
  login : String
  password : String
  rank : String
  deriving DecidableEq, Repr

inductive Builder where
  | auth
  | getUsers
  | createUser
  | deleteUser
  | getCustomers
  | createCustomer
  | deleteCustomer
  | getItems
  | createItem
  deriving DecidableEq, Repr

inductive Request where
  | auth (usr : UserLogin)
  | getUsers (usr : UserLogin)
  | createUser (usr : UserLogin) (login password sname name pname : String) (rankId : Int)
  | deleteUser (usr : UserLogin) (login : String)
  | getCustomers (usr : UserLogin)
  | createCustomer (usr : UserLogin) (telNumber : Nat) (sname name pname : String)
  | deleteCustomer (usr : UserLogin) (telNumber : Nat)
  | getItems (usr : UserLogin)
  | createItem (usr : UserLogin) (name : String) (cost : Decimal) (count : Nat)
      (distributorId typeId : Int) (description : String)
  deriving DecidableEq, Repr

def Request.builder : Request → Builder
  | .auth _ => .auth
  | .getUsers _ => .getUsers
  | .createUser .. => .createUser
  | .deleteUser .. => .deleteUser
  | .getCustomers _ => .getCustomers
  | .createCustomer .. => .createCustomer
  | .deleteCustomer .. => .deleteCustomer
  | .getItems _ => .getItems
  | .createItem .. => .createItem

/-- The table that every request begins with. -/
def userText (usr : UserLogin) : String :=
  "user = \x7b\tlogin = " ++ quoted usr.login ++ ",\tpassword = " ++ quoted usr.password ++
    ",\trank = " ++ quoted usr.rank ++ "\x7d"

def Request.body : Request → String
  | .auth usr => "request = 'auth' " ++ userText usr
  | .getUsers usr => "request = 'get_users' " ++ userText usr
  | .createUser usr login password sname name pname rankId =>
    "request = 'create_user' " ++ userText usr ++ "new_user = \x7b\tlogin = " ++ quoted login ++
      ",\tpassword = " ++ quoted password ++ ",\tsname = " ++ quoted sname ++ ",\tname = " ++
      quoted name ++ ",\tpname = " ++ quoted pname ++ ",\trank = " ++ toString rankId ++ "\x7d"
  | .deleteUser usr login =>
    "request = 'delete_user' " ++ userText usr ++ "delete_user_login = " ++ quoted login
  | .getCustomers usr => "request = 'get_customers' " ++ userText usr
  | .createCustomer usr telNumber sname name pname =>
    "request = 'create_customer' " ++ userText usr ++ "new_customer = \x7b\ttelephone = " ++
      toString telNumber ++ ",\tsname = " ++ quoted sname ++ ",\tname = " ++ quoted name ++
      ",\tpname = " ++ quoted pname ++ "\x7d"
  | .deleteCustomer usr telNumber =>
    "request = 'delete_user' " ++ userText usr ++ "delete_customer_telephone = " ++
      toString telNumber
  | .getItems usr => "request = 'get_items' " ++ userText usr
  | .createItem usr name cost count distributorId typeId description =>
    "request = 'get_items' " ++ userText usr ++ "new_item = \x7b\tname = " ++ quoted name ++
      ",\tcost = " ++ cost.ostream ++ ",\tcount = " ++ toString count ++ ",\tdistributor_id = " ++
      toString distributorId ++ ",\ttype_id = " ++ toString typeId ++ ",\tdescription = " ++
      description ++ "\x7d"

def Request.text (r : Request) : String := r.body ++ "\r\n"

/-- The name `main.cpp` registers the handler of the operation under. -/
def Builder.operation : Builder → String
  | .auth => "auth"
  | .getUsers => "get_users"
  | .createUser => "create_user"
  | .deleteUser => "delete_user"
  | .getCustomers => "get_customers"
  | .createCustomer => "create_customer"
  | .deleteCustomer => "delete_customer"
  | .getItems => "get_items"
  | .createItem => "add_item"

def Builder.handler (b : Builder) (e : Engine) (k : Conditions) : LuaValue → Session → Reply :=
  match b with
  | .auth => UserRequest.auth e k
  | .getUsers => UserRequest.getUsers e k
  | .createUser => UserRequest.createUser e k
  | .deleteUser => UserRequest.deleteUser e k
  | .getCustomers => UserRequest.getCustomers e k
  | .createCustomer => UserRequest.createCustomer e k
  | .deleteCustomer => UserRequest.deleteCustomer e k
  | .getItems => UserRequest.getItems e k
  | .createItem => UserRequest.addItem e k

theorem operation_registered (b : Builder) (e : Engine) (k : Conditions) :
    (UserRequest.requests e k).lookup b.operation = some (b.handler e k) := by
  cases b <;> rfl

/-- The part of a received text that `getline` takes. -/
def cutRequest (text : String) : String := String.ofList (text.toList.takeWhile (· ≠ '\r'))

def HasLogin (config : LuaValue) (usr : UserLogin) : Prop :=
  UserRequest.credentials config = some (usr.login, usr.password, usr.rank)

/-- Every field that the handler of the operation reads has the value of its argument. -/
def Request.HasFields (config : LuaValue) : Request → Prop
  | .auth usr | .getUsers usr => HasLogin config usr
  | .createUser usr login password sname name pname rankId => HasLogin config usr ∧
    ∃ user, config.getRawRef "new_user" = some user ∧ user.getRawString "login" = some login ∧
      user.getRawString "password" = some password ∧ user.getRawString "sname" = some sname ∧
      user.getRawString "name" = some name ∧ user.getRawString "pname" = some pname ∧
      user.getRawInt "rank" = some rankId
  | .deleteUser usr login => HasLogin config usr ∧
    config.getRawString "delete_user_login" = some login
  | .createCustomer usr telNumber sname name pname => HasLogin config usr ∧
    ∃ customer, config.getRawRef "new_customer" = some customer ∧
      customer.getRawInt "telephone" = some telNumber ∧
      customer.getRawString "sname" = some sname ∧ customer.getRawString "name" = some name ∧
      customer.getRawString "pname" = some pname
  | .deleteCustomer usr telNumber => HasLogin config usr ∧
    config.getRawInt "delete_customer_telephone" = some telNumber
  | .createItem usr name cost count distributorId typeId description => HasLogin config usr ∧
    ∃ item, config.getRawRef "new_item" = some item ∧ item.getRawString "name" = some name ∧
      item.getRawNumber "cost" = some cost ∧ item.getRawInt "count" = some count ∧
      item.getRawInt "distributor_id" = some distributorId ∧
      item.getRawInt "type_id" = some typeId ∧ item.getRawString "description" = some description
  | .getCustomers _ | .getItems _ => True

/-- The server runs the text, finds the operation and reads the arguments. -/
def Request.Agrees (r : Request) : Prop :=
  ∃ globals, execute (cutRequest r.text) = some globals ∧
    globals.lookup "request" = some (.str r.builder.operation) ∧ r.HasFields (.table globals [])

def Request.strings : Request → List String
  | .auth usr | .getUsers usr | .getCustomers usr | .getItems usr | .deleteCustomer usr _ =>
    [usr.login, usr.password, usr.rank]
  | .createUser usr login password sname name pname _ =>
    [usr.login, usr.password, usr.rank, login, password, sname, name, pname]
  | .deleteUser usr login => [usr.login, usr.password, usr.rank, login]
  | .createCustomer usr _ sname name pname =>
    [usr.login, usr.password, usr.rank, sname, name, pname]
  | .createItem usr name _ _ _ _ description =>
    [usr.login, usr.password, usr.rank, name, description]

/-- The numbers fit the types of the arguments, and the integers of Lua. -/
def Request.NumbersFit : Request → Prop
  | .createUser _ _ _ _ _ _ rankId => intMin ≤ rankId ∧ rankId ≤ intMax
  | .createCustomer _ telNumber _ _ _ | .deleteCustomer _ telNumber => (telNumber : Int) ≤ int64Max
  | .createItem _ _ _ count distributorId typeId _ => count ≤ unsignedMax ∧
    (intMin ≤ distributorId ∧ distributorId ≤ intMax) ∧ intMin ≤ typeId ∧ typeId ≤ intMax
  | _ => True

def Request.Admissible (r : Request) : Prop :=
  (∀ s ∈ r.strings, isPlain s = true) ∧ r.NumbersFit

section
variable {text arg : List Char} {first : String} {tokens firstTokens argTokens : List Token}

/-- A part of a request: what it is read as, and that it does not end the line. -/
structure Part (text : List Char) (tokens : List Token) : Prop where
  reads : Reads text tokens
  whole : '\r' ∉ text

/-- A part that may stand behind an argument. -/
structure Follows (text : List Char) (tokens : List Token) : Prop extends Part text tokens where
  starts : ∀ rest, Apart rest → Apart (text ++ rest)

abbrev Fixed (text : String) (tokens : List Token) : Prop :=
  scanner.feed .code text.toList = some (tokens, .code) ∧ '\r' ∉ text.toList

/-- The fixed texts behind an argument begin with a comma or a bracket. -/
def opens (text : String) : Bool := text.toList.head?.any fun c => !isNameChar c && c != '.'

theorem starts_of_opens (open_ : opens first = true) (rest : List Char) :
    Apart (first.toList ++ rest) := by
  unfold opens at open_
  cases chars : first.toList with
  | nil => simp [chars] at open_
  | cons c cs => exact apart_cons (by simpa [chars] using open_) _

theorem Follows.nil : Follows [] [] :=
  ⟨⟨reads_of_feed rfl, List.not_mem_nil⟩, fun _ apart => apart⟩

theorem Part.after (rest : Part text tokens) (fixed : Fixed first firstTokens) :
    Part (first.toList ++ text) (firstTokens ++ tokens) := by
  refine ⟨rest.reads.after fixed.1, ?_⟩
  rw [List.mem_append, not_or]
  exact ⟨fixed.2, rest.whole⟩

theorem Part.append (arg_ : Part arg argTokens) (rest : Follows text tokens) :
    Part (arg ++ text) (argTokens ++ tokens) := by
  refine ⟨arg_.reads.append rest.reads rest.starts, ?_⟩
  rw [List.mem_append, not_or]
  exact ⟨arg_.whole, rest.whole⟩

theorem Follows.fill (rest : Follows text tokens) (arg_ : Part arg argTokens)
    (fixed : Fixed first firstTokens) :
    Part (first.toList ++ (arg ++ text)) (firstTokens ++ (argTokens ++ tokens)) :=
  (arg_.append rest).after fixed

theorem Part.follows (rest : Part text tokens) (fixed : Fixed first firstTokens)
    (open_ : opens first = true) :
    Follows (first.toList ++ text) (firstTokens ++ tokens) :=
  ⟨rest.after fixed, fun rest _ => by rw [List.append_assoc]; exact starts_of_opens open_ _⟩

theorem Follows.slot (rest : Follows text tokens) (arg_ : Part arg argTokens)
    (fixed : Fixed first firstTokens) (open_ : opens first = true) :
    Follows (first.toList ++ (arg ++ text)) (firstTokens ++ (argTokens ++ tokens)) :=
  (arg_.append rest).follows fixed open_

end

theorem part_quoted {s : String} (plain : isPlain s = true) : Part (quoted s).toList [.str s] := by
  constructor
  · simpa [quoted] using reads_single plain
  · simp only [isPlain, isLine, Bool.and_eq_true, List.all_eq_true, bne_iff_ne] at plain
    intro member
    have inside : '\r' ∈ s.toList := by simpa [quoted] using member
    exact (plain.1 _ inside).1.2 rfl

theorem digits_whole (n : Nat) : '\r' ∉ Nat.toDigits 10 n := fun member =>
  absurd (Numeral.isDigit_of_mem member) (by decide)

theorem part_nat (n : Nat) : Part (toString n).toList [.numeral (Nat.toDigits 10 n)] := by
  have shape : (toString n).toList = Nat.toDigits 10 n := by simp [Nat.repr]
  rw [shape]
  exact ⟨reads_digits n, digits_whole n⟩

theorem part_integer (n : Int) : Part (toString n).toList (intTokens n) := by
  rw [Numeral.toList_toString]
  refine ⟨reads_int n, ?_⟩
  rw [Numeral.ofInt, Decimal.sign]
  split <;> simp [digits_whole]

theorem evaluates_nat {n : Nat} (range : (n : Int) ≤ int64Max) :
    Evaluates [.numeral (Nat.toDigits 10 n)] (.int n) := by
  have integer := evaluates_int (n := n) ⟨by simp only [int64Max] at *; omega, range⟩
  have positive : ¬((n : Int) < 0) := by omega
  simpa only [intTokens, if_neg positive, Int.natAbs_natCast] using integer

def tableTokens (fields : List (String × List Token)) : List Token :=
  .sym '\x7b' :: ([.sym ','].intercalate (fields.map fun field => .name field.1 :: .sym '=' :: field.2) ++
    [.sym '\x7d'])

structure Gives (field : String × List Token) (value : String × LuaValue) : Prop where
  key : field.1 = value.1
  word : field.1 ∉ keywords
  present : value.2 ≠ .nil
  evaluates : Evaluates field.2 value.2

theorem evaluates_fields {fields : List (String × List Token)} {named : LuaFields}
    (each : List.Forall₂ Gives fields named) (distinct : (named.map Prod.fst).Nodup) :
    Evaluates (tableTokens fields) (.table named []) := by
  have present : ∀ field ∈ named, field.2 ≠ .nil := by
    clear distinct
    induction each with
    | nil => simp
    | cons gives _ ih => exact List.forall_mem_cons.mpr ⟨gives.present, ih⟩
  have filled := RoundTrip.fill_sources distinct present (fun _ none => absurd none List.not_mem_nil)
  apply evaluates_table _ filled
  rw [RoundTrip.sources, List.map_nil, List.append_nil, List.forall₂_map_left_iff,
    List.forall₂_map_right_iff]
  refine each.flip.imp fun value field gives => ?_
  have fills := gives.evaluates.fills_named gives.word
  rw [← gives.key]
  exact fills

section
variable {usr : UserLogin}

def loginFields (usr : UserLogin) : LuaFields :=
  [("login", .str usr.login), ("password", .str usr.password), ("rank", .str usr.rank)]

def loginTokens (usr : UserLogin) : List Token :=
  tableTokens [("login", [.str usr.login]), ("password", [.str usr.password]),
    ("rank", [.str usr.rank])]

theorem gives_str (key text : String) (word : key ∉ keywords) : Gives (key, [.str text]) (key, .str text) :=
  ⟨rfl, word, LuaValue.noConfusion, evaluates_str text⟩

theorem gives_int {key : String} {tokens : List Token} {n : Int} (evaluates : Evaluates tokens (.int n))
    (word : key ∉ keywords) : Gives (key, tokens) (key, .int n) :=
  ⟨rfl, word, LuaValue.noConfusion, evaluates⟩

theorem evaluates_login : Evaluates (loginTokens usr) (.table (loginFields usr) []) := by
  apply evaluates_fields _ (by simp [loginFields])
  exact .cons (gives_str _ _ (by decide)) (.cons (gives_str _ _ (by decide))
    (.cons (gives_str _ _ (by decide)) .nil))

theorem toList_pieces (pieces : List String) (first : String) (text : List Char) :
    (pieces.foldl (· ++ ·) first).toList ++ text =
      first.toList ++ pieces.foldr (fun piece rest => piece.toList ++ rest) text := by
  induction pieces generalizing first with
  | nil => rfl
  | cons piece pieces ih =>
    rw [List.foldl_cons, ih, String.toList_append, List.append_assoc]
    rfl

theorem body_pieces {s : String} (pieces : List String) (first : String)
    (body : s = pieces.foldl (· ++ ·) first) :
    s.toList = first.toList ++ pieces.foldr (fun piece rest => piece.toList ++ rest) [] := by
  rw [body, ← toList_pieces pieces first [], List.append_nil]

theorem Part.cast {a b : List Char} {ta tb : List Token} (part : Part a ta) (text : b = a)
    (tokens : tb = ta) : Part b tb := by
  subst text tokens
  exact part

theorem part_user {text : List Char} {tokens : List Token} (rest : Part text tokens)
    (plain : ∀ s ∈ [usr.login, usr.password, usr.rank], isPlain s = true) :
    Part ((userText usr).toList ++ text)
      (.name "user" :: .sym '=' :: (loginTokens usr ++ tokens)) := by
  have opening : Fixed "user = \x7b\tlogin = "
      [.name "user", .sym '=', .sym '\x7b', .name "login", .sym '='] := by decide
  have second : Fixed ",\tpassword = " [.sym ',', .name "password", .sym '='] := by decide
  have third : Fixed ",\trank = " [.sym ',', .name "rank", .sym '='] := by decide
  have closing : Fixed "\x7d" [.sym '\x7d'] := by decide
  have last := rest.follows closing (by decide)
  have rank := last.slot (part_quoted (plain usr.rank (by simp))) third (by decide)
  have password := rank.slot (part_quoted (plain usr.password (by simp))) second (by decide)
  have login := password.fill (part_quoted (plain usr.login (by simp))) opening
  refine login.cast ?_ ?_
  · exact toList_pieces [quoted usr.login, ",\tpassword = ", quoted usr.password, ",\trank = ",
      quoted usr.rank, "\x7d"] _ _
  · simp [loginTokens, tableTokens]

def headFields (operation : String) (usr : UserLogin) : LuaFields :=
  [("request", .str operation), ("user", .table (loginFields usr) [])]

def headTokens (operation : String) (usr : UserLogin) : List Token :=
  [.name "request", .sym '=', .str operation] ++ .name "user" :: .sym '=' :: loginTokens usr

theorem run_head (operation : String) (usr : UserLogin) (tokens : List Token) :
    State.run (headTokens operation usr ++ tokens) ⟨[], "", [], .statement⟩ =
      State.run tokens ⟨headFields operation usr, "user", [], .statement⟩ := by
  have request := run_assignment (evaluates_str operation)
    (show "request" ∉ keywords by decide) [] ""
  have user := run_assignment (show Evaluates (loginTokens usr) _ from evaluates_login)
    (show "user" ∉ keywords by decide) (LuaFields.set [] "request" (.str operation)) "request"
  have set : (LuaFields.set [] "request" (.str operation)).set "user"
      (.table (loginFields usr) []) = headFields operation usr := by
    simp [LuaFields.set, headFields]
  rw [set] at user
  rw [headTokens, List.append_assoc, State.run_append]
  refine (congrArg (Option.bind · _) request).trans ?_
  rw [Option.bind_some, State.run_append, user, Option.bind_some]

theorem cutRequest_whole {s : String} (whole : '\r' ∉ s.toList) : cutRequest (s ++ "\r\n") = s := by
  have free : ∀ c ∈ s.toList, decide (c ≠ '\r') = true := by
    intro c member
    apply decide_eq_true
    rintro rfl
    exact whole member
  rw [cutRequest, String.toList_append, List.takeWhile_append_of_pos free]
  simp

/-- A request that is read as its head and some more assignments. -/
theorem executes_of_part {r : Request} {operation : String} {tokens : List Token}
    {globals : LuaFields} {target : String}
    (part : Part r.body.toList (headTokens operation usr ++ tokens))
    (runs : State.run tokens ⟨headFields operation usr, "user", [], .statement⟩ =
      some ⟨headFields operation usr ++ globals, target, [], .statement⟩) :
    execute (cutRequest r.text) = some (headFields operation usr ++ globals) := by
  rw [Request.text, cutRequest_whole part.whole]
  exact RoundTrip.execute_of_run part.reads ((run_head _ usr tokens).trans runs) rfl

theorem agrees_of_part {r : Request} {tokens : List Token} {globals : LuaFields} {target : String}
    (part : Part r.body.toList (headTokens r.builder.operation usr ++ tokens))
    (runs : State.run tokens ⟨headFields r.builder.operation usr, "user", [], .statement⟩ =
      some ⟨headFields r.builder.operation usr ++ globals, target, [], .statement⟩)
    (fields : r.HasFields (.table (headFields r.builder.operation usr ++ globals) [])) :
    r.Agrees :=
  ⟨_, executes_of_part part runs, rfl, fields⟩

theorem part_head {r : Request} {word operation : String} (body : r.body = word ++ userText usr)
    (plain : ∀ s ∈ [usr.login, usr.password, usr.rank], isPlain s = true)
    (fixed : Fixed word [.name "request", .sym '=', .str operation]) :
    Part r.body.toList (headTokens operation usr ++ []) := by
  have head := (part_user Follows.nil.toPart plain).after fixed
  refine head.cast ?_ ?_
  · rw [body]
    exact body_pieces [userText usr] word rfl
  · simp [headTokens]

theorem agrees_of_head {r : Request} {word operation : String} (body : r.body = word ++ userText usr)
    (plain : ∀ s ∈ [usr.login, usr.password, usr.rank], isPlain s = true)
    (fixed : Fixed word [.name "request", .sym '=', .str operation])
    (named : r.builder.operation = operation)
    (fields : r.HasFields (.table (headFields r.builder.operation usr ++ []) [])) : r.Agrees := by
  subst named
  exact agrees_of_part (part_head body plain fixed) (show State.run [] _ = _ from rfl) fields

theorem run_table {name : String} {fields : List (String × List Token)} {named : LuaFields}
    (word : name ∉ keywords) (fresh : name ≠ "request" ∧ name ≠ "user")
    (each : List.Forall₂ Gives fields named) (distinct : (named.map Prod.fst).Nodup)
    (operation : String) :
    State.run (.name name :: .sym '=' :: tableTokens fields)
        ⟨headFields operation usr, "user", [], .statement⟩ =
      some ⟨headFields operation usr ++ [(name, .table named [])], name, [], .statement⟩ := by
  have run := run_assignment (evaluates_fields each distinct) word (headFields operation usr) "user"
  have set : (headFields operation usr).set name (.table named []) =
      headFields operation usr ++ [(name, .table named [])] := by
    simp [LuaFields.set, headFields, fresh.1.symm, fresh.2.symm]
  rw [set] at run
  exact run

theorem caller_plain {r : Request} {more : List String}
    (strings : r.strings = usr.login :: usr.password :: usr.rank :: more)
    (plain : ∀ s ∈ r.strings, isPlain s = true) :
    ∀ s ∈ [usr.login, usr.password, usr.rank], isPlain s = true := by
  intro s member
  apply plain
  rw [strings]
  exact List.mem_append_left more member

theorem part_deleteUser {login : String}
    (plain : ∀ s ∈ (Request.deleteUser usr login).strings, isPlain s = true) :
    Part (Request.deleteUser usr login).body.toList (headTokens "delete_user" usr ++
      [.name "delete_user_login", .sym '=', .str login]) := by
  have caller := caller_plain rfl plain
  have target := part_quoted (plain login (by simp [Request.strings]))
  have field : Fixed "delete_user_login = " [.name "delete_user_login", .sym '='] := by decide
  have head : Fixed "request = 'delete_user' "
      [.name "request", .sym '=', .str "delete_user"] := by decide
  have part := (part_user (Follows.nil.fill target field) caller).after head
  refine part.cast ?_ ?_
  · exact body_pieces [userText usr, "delete_user_login = ", quoted login] _ rfl
  · simp [headTokens]

theorem agrees_deleteUser {login : String}
    (admissible : (Request.deleteUser usr login).Admissible) : (Request.deleteUser usr login).Agrees := by
  have word : "delete_user_login" ∉ keywords := by decide
  exact agrees_of_part (part_deleteUser admissible.1) (run_assignment (evaluates_str login) word _ _)
    ⟨rfl, rfl⟩

def customerTokens (telNumber : Nat) (sname name pname : String) : List (String × List Token) :=
  [("telephone", [.numeral (Nat.toDigits 10 telNumber)]), ("sname", [.str sname]),
    ("name", [.str name]), ("pname", [.str pname])]

theorem part_createCustomer {telNumber : Nat} {sname name pname : String}
    (plain : ∀ s ∈ (Request.createCustomer usr telNumber sname name pname).strings, isPlain s = true) :
    Part (Request.createCustomer usr telNumber sname name pname).body.toList
      (headTokens "create_customer" usr ++ .name "new_customer" :: .sym '=' ::
        tableTokens (customerTokens telNumber sname name pname)) := by
  have caller := caller_plain rfl plain
  have head : Fixed "request = 'create_customer' "
      [.name "request", .sym '=', .str "create_customer"] := by decide
  have first : Fixed "new_customer = \x7b\ttelephone = "
      [.name "new_customer", .sym '=', .sym '\x7b', .name "telephone", .sym '='] := by decide
  have second : Fixed ",\tsname = " [.sym ',', .name "sname", .sym '='] := by decide
  have third : Fixed ",\tname = " [.sym ',', .name "name", .sym '='] := by decide
  have fourth : Fixed ",\tpname = " [.sym ',', .name "pname", .sym '='] := by decide
  have closing : Fixed "\x7d" [.sym '\x7d'] := by decide
  have last := Follows.nil.follows closing (by decide)
  have fieldP := last.slot (part_quoted (plain pname (by simp [Request.strings]))) fourth
    (by decide)
  have fieldN := fieldP.slot (part_quoted (plain name (by simp [Request.strings]))) third
    (by decide)
  have fieldS := fieldN.slot (part_quoted (plain sname (by simp [Request.strings]))) second
    (by decide)
  have part := (part_user (fieldS.fill (part_nat telNumber) first) caller).after head
  refine part.cast ?_ ?_
  · exact body_pieces [userText usr, "new_customer = \x7b\ttelephone = ", toString telNumber,
      ",\tsname = ", quoted sname, ",\tname = ", quoted name, ",\tpname = ", quoted pname, "\x7d"] _
      rfl
  · simp [headTokens, tableTokens, customerTokens]

theorem gives_customer {telNumber : Nat} {telephone : LuaValue} (sname name pname : String)
    (evaluates : Evaluates [.numeral (Nat.toDigits 10 telNumber)] telephone)
    (present : telephone ≠ .nil) :
    List.Forall₂ Gives (customerTokens telNumber sname name pname)
      [("telephone", telephone), ("sname", .str sname), ("name", .str name), ("pname", .str pname)] :=
  .cons ⟨rfl, show "telephone" ∉ keywords by decide, present, evaluates⟩
    (.cons (gives_str _ _ (by decide)) (.cons (gives_str _ _ (by decide))
      (.cons (gives_str _ _ (by decide)) .nil)))

theorem agrees_createCustomer {telNumber : Nat} {sname name pname : String}
    (admissible : (Request.createCustomer usr telNumber sname name pname).Admissible) :
    (Request.createCustomer usr telNumber sname name pname).Agrees := by
  have fits : (telNumber : Int) ≤ int64Max := admissible.2
  have word : "new_customer" ∉ keywords := by decide
  have each := gives_customer sname name pname (evaluates_nat fits) LuaValue.noConfusion
  exact agrees_of_part (part_createCustomer admissible.1) (run_table word (by decide) each (by simp) _)
    ⟨rfl, _, rfl, rfl, rfl, rfl, rfl⟩

def userTokens (login password sname name pname : String) (rankId : Int) :
    List (String × List Token) :=
  [("login", [.str login]), ("password", [.str password]), ("sname", [.str sname]),
    ("name", [.str name]), ("pname", [.str pname]), ("rank", intTokens rankId)]

theorem part_createUser {login password sname name pname : String} {rankId : Int}
    (plain : ∀ s ∈ (Request.createUser usr login password sname name pname rankId).strings,
      isPlain s = true) :
    Part (Request.createUser usr login password sname name pname rankId).body.toList
      (headTokens "create_user" usr ++ .name "new_user" :: .sym '=' ::
        tableTokens (userTokens login password sname name pname rankId)) := by
  have caller := caller_plain rfl plain
  have head : Fixed "request = 'create_user' "
      [.name "request", .sym '=', .str "create_user"] := by decide
  have first : Fixed "new_user = \x7b\tlogin = "
      [.name "new_user", .sym '=', .sym '\x7b', .name "login", .sym '='] := by decide
  have second : Fixed ",\tpassword = " [.sym ',', .name "password", .sym '='] := by decide
  have third : Fixed ",\tsname = " [.sym ',', .name "sname", .sym '='] := by decide
  have fourth : Fixed ",\tname = " [.sym ',', .name "name", .sym '='] := by decide
  have fifth : Fixed ",\tpname = " [.sym ',', .name "pname", .sym '='] := by decide
  have sixth : Fixed ",\trank = " [.sym ',', .name "rank", .sym '='] := by decide
  have closing : Fixed "\x7d" [.sym '\x7d'] := by decide
  have last := Follows.nil.follows closing (by decide)
  have rank := last.slot (part_integer rankId) sixth (by decide)
  have fieldP := rank.slot (part_quoted (plain pname (by simp [Request.strings]))) fifth
    (by decide)
  have fieldN := fieldP.slot (part_quoted (plain name (by simp [Request.strings]))) fourth
    (by decide)
  have fieldS := fieldN.slot (part_quoted (plain sname (by simp [Request.strings]))) third
    (by decide)
  have fieldW := fieldS.slot (part_quoted (plain password (by simp [Request.strings]))) second
    (by decide)
  have fieldL := fieldW.fill (part_quoted (plain login (by simp [Request.strings]))) first
  have part := (part_user fieldL caller).after head
  refine part.cast ?_ ?_
  · exact body_pieces [userText usr, "new_user = \x7b\tlogin = ", quoted login, ",\tpassword = ",
      quoted password, ",\tsname = ", quoted sname, ",\tname = ", quoted name, ",\tpname = ",
      quoted pname, ",\trank = ", toString rankId, "\x7d"] _
      rfl
  · simp [headTokens, tableTokens, userTokens]

theorem gives_user {rankId : Int} {rank : LuaValue} (login password sname name pname : String)
    (evaluates : Evaluates (intTokens rankId) rank) (present : rank ≠ .nil) :
    List.Forall₂ Gives (userTokens login password sname name pname rankId)
      [("login", .str login), ("password", .str password), ("sname", .str sname),
        ("name", .str name), ("pname", .str pname), ("rank", rank)] :=
  .cons (gives_str _ _ (by decide)) (.cons (gives_str _ _ (by decide))
    (.cons (gives_str _ _ (by decide)) (.cons (gives_str _ _ (by decide))
      (.cons (gives_str _ _ (by decide))
        (.cons ⟨rfl, show "rank" ∉ keywords by decide, present, evaluates⟩ .nil)))))

theorem agrees_createUser {login password sname name pname : String} {rankId : Int}
    (admissible : (Request.createUser usr login password sname name pname rankId).Admissible) :
    (Request.createUser usr login password sname name pname rankId).Agrees := by
  have word : "new_user" ∉ keywords := by decide
  have range : -int64Max ≤ rankId ∧ rankId ≤ int64Max := by
    have fits : intMin ≤ rankId ∧ rankId ≤ intMax := admissible.2
    simp only [intMin, intMax, int64Max] at fits ⊢
    omega
  have each := gives_user login password sname name pname (evaluates_int range) LuaValue.noConfusion
  exact agrees_of_part (part_createUser admissible.1) (run_table word (by decide) each (by simp) _)
    ⟨rfl, _, rfl, rfl, rfl, rfl, rfl, rfl, rfl⟩

/-- The request to delete a customer is dispatched as one to delete a user. -/
theorem deleteCustomer_disagrees {telNumber : Nat}
    (admissible : (Request.deleteCustomer usr telNumber).Admissible) :
    ¬(Request.deleteCustomer usr telNumber).Agrees := by
  have strings : (Request.deleteCustomer usr telNumber).strings =
      usr.login :: usr.password :: usr.rank :: [] := rfl
  have caller := caller_plain strings admissible.1
  have fits : (telNumber : Int) ≤ int64Max := admissible.2
  have field : Fixed "delete_customer_telephone = "
      [.name "delete_customer_telephone", .sym '='] := by decide
  have head : Fixed "request = 'delete_user' "
      [.name "request", .sym '=', .str "delete_user"] := by decide
  have part := (part_user (Follows.nil.fill (part_nat telNumber) field) caller).after head
  have word : "delete_customer_telephone" ∉ keywords := by decide
  have executes : execute (cutRequest (Request.deleteCustomer usr telNumber).text) =
      some (headFields "delete_user" usr ++ [("delete_customer_telephone", .int telNumber)]) := by
    apply executes_of_part (part.cast ?_ ?_) (run_assignment (evaluates_nat fits) word _ _)
    · exact body_pieces [userText usr, "delete_customer_telephone = ", toString telNumber] _ rfl
    · simp [headTokens]
  rintro ⟨globals,ran,operation,-⟩
  rw [executes] at ran
  cases ran
  exact absurd operation (by simp [headFields, Request.builder, Builder.operation])

/-- The request to add an item is dispatched as one for the items, even where its
description happens to be a Lua expression. -/
theorem createItem_disagrees {name : String} {cost : Decimal} {price count number : Nat}
    {distributorId typeId : Int}
    (admissible : (Request.createItem usr name cost count distributorId typeId
      (toString number)).Admissible)
    (costs : cost.ostream = toString price) (fits : price ≤ unsignedMax ∧ number ≤ unsignedMax) :
    ¬(Request.createItem usr name cost count distributorId typeId (toString number)).Agrees := by
  have caller := caller_plain rfl admissible.1
  obtain ⟨plain,countFits,distributorFits,typeFits⟩ := admissible
  have head : Fixed "request = 'get_items' "
      [.name "request", .sym '=', .str "get_items"] := by decide
  have first : Fixed "new_item = \x7b\tname = "
      [.name "new_item", .sym '=', .sym '\x7b', .name "name", .sym '='] := by decide
  have second : Fixed ",\tcost = " [.sym ',', .name "cost", .sym '='] := by decide
  have third : Fixed ",\tcount = " [.sym ',', .name "count", .sym '='] := by decide
  have fourth : Fixed ",\tdistributor_id = "
      [.sym ',', .name "distributor_id", .sym '='] := by decide
  have fifth : Fixed ",\ttype_id = " [.sym ',', .name "type_id", .sym '='] := by decide
  have sixth : Fixed ",\tdescription = "
      [.sym ',', .name "description", .sym '='] := by decide
  have closing : Fixed "\x7d" [.sym '\x7d'] := by decide
  have last := Follows.nil.follows closing (by decide)
  have description := last.slot (part_nat number) sixth (by decide)
  have fieldT := description.slot (part_integer typeId) fifth (by decide)
  have fieldD := fieldT.slot (part_integer distributorId) fourth (by decide)
  have fieldC := fieldD.slot (part_nat count) third (by decide)
  have fieldP := fieldC.slot (part_nat price) second (by decide)
  have fieldN := fieldP.fill (part_quoted (plain name (by simp [Request.strings]))) first
  have part := (part_user fieldN caller).after head
  have word : "new_item" ∉ keywords := by decide
  simp only [unsignedMax, intMin, intMax] at fits countFits distributorFits typeFits
  have small : ∀ {n : Nat}, n ≤ unsignedMax → (n : Int) ≤ int64Max := by
    intro n bound
    simp only [unsignedMax, int64Max] at bound ⊢
    omega
  have each : List.Forall₂ Gives
      [("name", [.str name]), ("cost", [.numeral (Nat.toDigits 10 price)]),
        ("count", [.numeral (Nat.toDigits 10 count)]), ("distributor_id", intTokens distributorId),
        ("type_id", intTokens typeId), ("description", [.numeral (Nat.toDigits 10 number)])]
      [("name", .str name), ("cost", .int price), ("count", .int count),
        ("distributor_id", .int distributorId), ("type_id", .int typeId),
        ("description", .int number)] :=
    .cons (gives_str _ _ (by decide)) (.cons (gives_int (evaluates_nat (small fits.1)) (by decide))
      (.cons (gives_int (evaluates_nat (small countFits)) (by decide))
        (.cons (gives_int (evaluates_int (by simp only [int64Max]; omega)) (by decide))
          (.cons (gives_int (evaluates_int (by simp only [int64Max]; omega)) (by decide))
            (.cons (gives_int (evaluates_nat (small fits.2)) (by decide)) .nil)))))
  have written : Part
      (Request.createItem usr name cost count distributorId typeId (toString number)).body.toList
      (headTokens "get_items" usr ++ .name "new_item" :: .sym '=' :: tableTokens
        [("name", [.str name]), ("cost", [.numeral (Nat.toDigits 10 price)]),
          ("count", [.numeral (Nat.toDigits 10 count)]),
          ("distributor_id", intTokens distributorId), ("type_id", intTokens typeId),
          ("description", [.numeral (Nat.toDigits 10 number)])]) := by
    refine part.cast ?_ ?_
    · refine body_pieces [userText usr, "new_item = \x7b\tname = ", quoted name, ",\tcost = ",
        toString price, ",\tcount = ", toString count, ",\tdistributor_id = ",
        toString distributorId, ",\ttype_id = ", toString typeId, ",\tdescription = ",
        toString number, "\x7d"] _ ?_
      rw [← costs]
      rfl
    · simp [headTokens, tableTokens]
  have executes := executes_of_part written (run_table word (by decide) each (by simp) _)
  rintro ⟨globals,ran,operation,-⟩
  rw [executes] at ran
  cases ran
  exact absurd operation (by simp [headFields, Request.builder, Builder.operation])

end

def sampleCustomer : Request := .deleteCustomer ⟨"admin", "8c69", "Admin"⟩ 375291

/-- An item whose description is written as a number. -/
def sampleItem : Request :=
  .createItem ⟨"admin", "8c69", "Admin"⟩ "GPU" (.ofInt 20) 3 1 1 "24"

theorem sampleCustomer_admissible : sampleCustomer.Admissible := by
  have fits : ((375291 : Nat) : Int) ≤ int64Max := by decide
  exact ⟨by decide, fits⟩

theorem sampleItem_admissible : sampleItem.Admissible := by
  have fits : 3 ≤ unsignedMax ∧ (intMin ≤ 1 ∧ 1 ≤ intMax) ∧ intMin ≤ 1 ∧ 1 ≤ intMax := by decide
  exact ⟨by decide, fits⟩

theorem sampleItem_disagrees : ¬sampleItem.Agrees := by
  have written : sampleItem = .createItem ⟨"admin", "8c69", "Admin"⟩ "GPU" (.ofInt 20) 3 1 1
      (toString 24) := by decide
  have costs : (Decimal.ofInt 20).ostream = toString 20 := by decide
  have admissible := sampleItem_admissible
  rw [written] at admissible ⊢
  exact createItem_disagrees admissible costs (by decide)

theorem agrees_of_builder {r : Request} (admissible : r.Admissible)
    (other : r.builder ≠ .deleteCustomer ∧ r.builder ≠ .createItem) : r.Agrees := by
  have auth : Fixed "request = 'auth' " [.name "request", .sym '=', .str "auth"] := by
    decide
  have getUsers : Fixed "request = 'get_users' "
      [.name "request", .sym '=', .str "get_users"] := by decide
  have getCustomers : Fixed "request = 'get_customers' "
      [.name "request", .sym '=', .str "get_customers"] := by decide
  have getItems : Fixed "request = 'get_items' "
      [.name "request", .sym '=', .str "get_items"] := by decide
  cases r with
  | auth usr => exact agrees_of_head rfl admissible.1 auth rfl rfl
  | getUsers usr => exact agrees_of_head rfl admissible.1 getUsers rfl rfl
  | createUser => exact agrees_createUser admissible
  | deleteUser => exact agrees_deleteUser admissible
  | getCustomers usr => exact agrees_of_head rfl admissible.1 getCustomers rfl trivial
  | createCustomer => exact agrees_createCustomer admissible
  | deleteCustomer => exact absurd rfl other.1
  | getItems usr => exact agrees_of_head rfl admissible.1 getItems rfl trivial
  | createItem => exact absurd rfl other.2

/-- The requests of a builder all agree with the server, unless it is one of the two that
name another operation. -/
theorem builder_agrees_iff (b : Builder) :
    (∀ r : Request, r.builder = b → r.Admissible → r.Agrees) ↔
      b ≠ .deleteCustomer ∧ b ≠ .createItem := by
  constructor
  · intro all
    constructor
    · rintro rfl
      exact deleteCustomer_disagrees sampleCustomer_admissible
        (all sampleCustomer rfl sampleCustomer_admissible)
    · rintro rfl
      exact sampleItem_disagrees (all sampleItem rfl sampleItem_admissible)
  · rintro other r rfl admissible
    exact agrees_of_builder admissible other

theorem sample_requests_disagree : (sampleCustomer.Admissible ∧ ¬sampleCustomer.Agrees) ∧
    sampleItem.Admissible ∧ ¬sampleItem.Agrees :=
  ⟨⟨sampleCustomer_admissible, deleteCustomer_disagrees sampleCustomer_admissible⟩,
    sampleItem_admissible, sampleItem_disagrees⟩

end PcCourse.ClientRequests
