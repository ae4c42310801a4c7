import PcCourse.FalseSuccess

/-! What an `add_order` request asks to be stored, and what the statement it leads to
does with the quoted expiry date. -/
namespace PcCourse.UserRequest

open SqlCall Outcome

structure Asked where
  customerTelephone : Int
  dateOfExpire : Int
  lines : List (Int × Int)
  deriving DecidableEq, Repr

def askedLine (newOrder : LuaValue) (i : Nat) : Option (Int × Int) := do
  let item ← newOrder.getRawRefAt i
  let itemId ← item.getRawInt "item_id"
  let count ← item.getRawInt "count_in_order"
  return (itemId, count)

def asked (config : LuaValue) : Option Asked := do
  let newOrder ← config.getRawRef "new_order"
  let customerTelephone ← newOrder.getRawInt "customer_telephone"
  let dateOfExpire ← newOrder.getRawInt "date_of_expire"
  let length ← newOrder.getLength
  let lines ← (List.range' 1 length).mapM (askedLine newOrder)
  return ⟨customerTelephone, dateOfExpire, lines⟩

/-- The order can be stored: an authorised request for a date to come, by a customer and
for items that exist, with counts that fit their column. -/
structure Placeable (e : Engine) (k : Conditions) (config : LuaValue) (db : Db) (a : Asked) : Prop where
  reads : asked config = some a
  authorised : Granted e k config ["Employee", "Admin"] (.opening db)
  future : k.systemClock ≤ a.dateOfExpire
  isDate : 0 ≤ a.dateOfExpire ∧ a.dateOfExpire ≤ lastTimestamp
  customer : ∃ row ∈ db.customer, (row.telephone : Int) = a.customerTelephone
  some_ : a.lines ≠ []
  items : ∀ line ∈ a.lines, ∃ row ∈ db.item, row.id = line.1
  counts : ∀ line ∈ a.lines, 0 ≤ line.2 ∧ line.2 ≤ unsignedMax

/-- The request is answered with success and its order is stored: one row for it, and
one row for each of its lines. -/
def Fulfilled (e : Engine) (k : Conditions) (config : LuaValue) (db : Db) (a : Asked) : Prop :=
  let reply := addOrder e k config (.opening db)
  reply.response = some (makeResponseStr "success") ∧
    ∃ order : NewOrder, reply.session.db.newOrder = db.newOrder ++ [order] ∧
      (order.customerTel : Int) = a.customerTelephone ∧ order.dateOfExpire = day a.dateOfExpire ∧
      order.dateOfCompletion = none ∧
      ∃ rows : List OrderedItem, reply.session.db.orderedItem = db.orderedItem ++ rows ∧
        rows.map (fun row => (row.itemId, (row.countInOrder : Int))) = a.lines ∧
        ∀ row ∈ rows, row.orderId = order.id

theorem dateLiteral?_of_letter {c : Char} (letter : c.isDigit = false) (dash : c ≠ '-') (cs : List Char) :
    dateLiteral? (c :: cs) = none := by
  have year : (c :: cs).takeWhile (· != '-') = c :: cs.takeWhile (· != '-') := by
    simp [dash]
  simp only [dateLiteral?, year, Numeral.digits?_of_other letter]

theorem isVerbatim_numeral (first : String) (plain : ∀ c ∈ first.toList, SqlText.isSpecial c = false)
    (n : Int) : SqlText.isVerbatim (first ++ toString n).toList = true := by
  refine SqlText.isVerbatim_of_plain fun c member => ?_
  rw [String.toList_append, Numeral.toList_toString] at member
  rcases List.mem_append.mp member with old | numeral
  · exact plain c old
  · rcases Numeral.mem_ofInt numeral with rfl | digit
    · rfl
    · cases special : SqlText.isSpecial c with
      | false => rfl
      | true =>
        simp only [SqlText.isSpecial, Bool.or_eq_true, beq_iff_eq] at special
        rcases special with rfl | rfl <;> simp [Char.isDigit] at digit

/-- The call as `add_order` writes it: the function name stands inside the quotes. -/
def addOrderText (customerTel dateOfExpire : Int) : String :=
  callText "AddOrder" [quoted (toString customerTel),
    quoted ("FROM_UNIXTIME" ++ toString dateOfExpire)]

theorem addOrderText_refused (e : Engine) (db : Db) (tel expire : Int) (st : Statement) :
    e.compile db (addOrderText tel expire) ≠ .ok st := by
  have verbatim : ∀ text ∈ [toString tel, "FROM_UNIXTIME" ++ toString expire],
      SqlText.isVerbatim text.toList = true := by
    simp only [List.forall_mem_cons]
    exact ⟨by simpa using isVerbatim_numeral "" (by simp) tel,
      isVerbatim_numeral "FROM_UNIXTIME" (by simp [SqlText.isSpecial]) expire, List.forall_mem_nil _⟩
  have read := e.compile_quoted db .addOrder _ verbatim (by simp)
  simp only [List.map_cons, List.map_nil] at read
  have noDate : ∀ expire', e.toDate "_date_of_expire" (.text ("FROM_UNIXTIME" ++ toString expire)) ≠
      .ok expire' := by
    have unread : dateLiteral? ("FROM_UNIXTIME" ++ toString expire).toList = none := by
      rw [String.toList_append]
      exact dateLiteral?_of_letter (by decide) (by decide) _
    simp only [Engine.toDate, unread]
    exact fun _ same => by cases same
  rw [addOrderText, show "AddOrder" = Procedure.addOrder.name from rfl, read]
  simp only [Engine.bind, Engine.value, literal?, ne_eq, bind_eq_ok, pure_eq_ok, Except.ok.injEq,
    exists_eq_left']
  rintro ⟨tel',-,expire',read,-⟩
  exact noDate expire' read

theorem addOrderText_fails (e : Engine) (k : Conditions) (s : Session) (tel expire : Int) :
    ∃ fault, s.issue e k (addOrderText tel expire) = .error fault := by
  unfold Session.issue Engine.exec
  split
  next fault _ => exact ⟨_, rfl⟩
  next =>
    cases compiled : e.compile s.db (addOrderText tel expire) with
    | error fault => exact ⟨fault, rfl⟩
    | ok st => exact absurd compiled (addOrderText_refused e s.db tel expire st)

/-- No request is answered with success, so none is fulfilled. -/
theorem addOrder_never_fulfilled (e : Engine) (k : Conditions) (config : LuaValue) (db : Db)
    (a : Asked) : ¬Fulfilled e k config db a := by
  rintro ⟨answered,-⟩
  have silent : saysSuccess (addOrder e k config (.opening db)).response = false := by
    unfold addOrder
    rcases guarded_cases e k config ["Employee", "Admin"] (.opening db) _ with
      ⟨str,refused,rfl,same⟩ | ⟨-,same⟩
    · rw [same]
      exact check_silent refused
    · rw [same]
      cases readNewOrder k config with
      | none => exact silent_bad_config
      | some order =>
        obtain ⟨fault,failed⟩ := addOrderText_fails e k
          (checkUserExistance e k config ["Employee", "Admin"] (.opening db)).2.begin
          order.customerTel order.dateOfExpire
        simp only [reading, transaction, invokeStoredProcedure]
        rw [← addOrderText, failed]
        exact rollbackAndReport_silent _ fault
  rw [answered] at silent
  exact absurd silent (by decide)

def placeableOrder : LuaValue :=
  .table [("request", .str "add_order"), ("user", employee),
    ("new_order", .table [("customer_telephone", .int 123), ("date_of_expire", .int 1800000000)]
      [.table [("item_id", .int 1), ("count_in_order", .int 4)] []])] []

theorem placeable_order_unfulfilled :
    Placeable .standard (.calm 1700000000) placeableOrder seeded ⟨123, 1800000000, [(1, 4)]⟩ ∧
    ¬Fulfilled .standard (.calm 1700000000) placeableOrder seeded ⟨123, 1800000000, [(1, 4)]⟩ := by
  refine ⟨⟨?_,granted_employee rfl (by decide) rfl rfl,?_,?_,?_,?_,?_,?_⟩,fun fulfilled =>
    absurd fulfilled.1 ?_⟩
  case refine_8 =>
    rw [addOrder, guarded_employee placeableOrder seeded rfl (by decide) rfl rfl]
    decide
  all_goals decide

end PcCourse.UserRequest
