import PcCourse.Access

/-! Which handlers answer success after a call that failed: the three that do not look
at the result of their call, and no others. -/
namespace PcCourse.UserRequest

open SqlCall

def saysSuccess (response : Option String) : Bool :=
  response.any fun text => "response = 'success'".toList.isPrefixOf text.toList

/-- Success is said only when every call succeeded. -/
def Truthful (reply : Reply) : Prop := saysSuccess reply.response = true → reply.session.AllSucceeded

theorem head_of_saysSuccess {message : String}
    (said : saysSuccess (some (makeResponseStr message)) = true) : message.toList.head? = some 's' := by
  cases chars : message.toList with
  | nil => simp [saysSuccess, makeResponseStr, chars] at said
  | cons c cs =>
    simp only [saysSuccess, makeResponseStr, Option.any_some, String.toList_append, chars] at said
    simp at said
    simp [← said.1]

theorem message_capital (fault : SqlError) : fault.message.toList.head?.any Char.isUpper = true := by
  have begins : ∀ {first rest : String}, first.toList.head?.any Char.isUpper = true →
      (first ++ rest).toList.head?.any Char.isUpper = true := by
    intro first rest capital
    cases chars : first.toList with
    | nil => simp [chars] at capital
    | cons d ds => simpa [chars] using capital
  cases fault with
  | signal condition => cases condition <;> decide
  | autoIncrement | malformed | lostConnection | lockWaitTimeout => decide
  | _ => exact begins (by decide)

/-- No error text begins like a word of the responses. -/
theorem message_head (fault : SqlError) {c : Char} (small : c.isUpper = false) :
    fault.message.toList.head? ≠ some c := by
  intro head
  have capital := message_capital fault
  rw [head, Option.any_some, small] at capital
  cases capital

section
variable {e : Engine} {k : Conditions} {config : LuaValue} {ranks : List String} {s : Session}

theorem truthful_of_silent {reply : Reply} (silent : saysSuccess reply.response = false) :
    Truthful reply := by
  intro said
  rw [silent] at said
  cases said

theorem truthful_of_succeeded {reply : Reply} (succeeded : reply.session.AllSucceeded) :
    Truthful reply := fun _ => succeeded

theorem silent_of_head {message : String} (head : message.toList.head? ≠ some 's') :
    saysSuccess (some (makeResponseStr message)) = false := by
  cases said : saysSuccess (some (makeResponseStr message)) with
  | false => rfl
  | true => exact absurd (head_of_saysSuccess said) head

theorem silent_bad_config : saysSuccess (some (makeResponseStr "bad_config")) = false :=
  silent_of_head (by decide)

theorem record_succeeded (before : s.AllSucceeded) (sql : String) (effect : Engine.Effect) :
    (s.record sql (.ok effect)).AllSucceeded := by
  intro call member
  rcases List.mem_append.mp member with old | last
  · exact before call old
  · rw [List.mem_singleton.mp last]

theorem record_failed (sql : String) (fault : SqlError) :
    ¬(s.record sql (.error fault)).AllSucceeded := by
  intro all
  have := all (sql, some fault) (List.mem_append_right _ List.mem_cons_self)
  cases this

theorem check_silent (refused : (checkUserExistance e k config ranks s).1 ≠ "") :
    saysSuccess (some (checkUserExistance e k config ranks s).1) = false := by
  unfold checkUserExistance at refused ⊢
  split
  · exact silent_bad_config
  next login password rank strings =>
    split
    · exact silent_of_head (by decide)
    next allowed =>
      simp only [strings, allowed, if_false, invokeStoredProcedure] at refused ⊢
      cases outcome : s.issue e k (callText "CheckUserExists" [quoted login, quoted password, quoted rank]) with
      | error fault => exact silent_of_head (message_head fault (by decide))
      | ok effect =>
        simp only [outcome] at refused ⊢
        split
        · exact silent_bad_config
        next cell found =>
          by_cases zero : e.text cell = some "0"
          · simpa [zero] using silent_bad_config
          · simp [found, zero] at refused

theorem check_succeeded (granted : Granted e k config ranks s) (before : s.AllSucceeded) :
    (checkUserExistance e k config ranks s).2.AllSucceeded := by
  unfold Granted checkUserExistance at granted
  unfold checkUserExistance
  split
  · exact before
  next login password rank strings =>
    split
    · exact before
    next allowed =>
      simp only [strings, allowed, if_false, invokeStoredProcedure] at granted ⊢
      cases outcome : s.issue e k (callText "CheckUserExists" [quoted login, quoted password, quoted rank]) with
      | error fault =>
        simp only [outcome] at granted
        exact absurd granted (makeResponseStr_ne_empty _)
      | ok effect =>
        simp only
        split <;> exact record_succeeded before _ effect

theorem guarded_truthful {body : Session → Reply} (before : s.AllSucceeded)
    (behind : ∀ s' : Session, s'.AllSucceeded → Truthful (body s')) :
    Truthful (guarded e k ranks config s body) := by
  rcases guarded_cases e k config ranks s body with ⟨str,refused,rfl,same⟩ | ⟨granted,same⟩
  · rw [same]
    exact truthful_of_silent (check_silent refused)
  · rw [same]
    exact behind _ (check_succeeded granted before)

theorem reading_truthful {α : Type} {fields : Option α} {body : α → Reply}
    (behind : ∀ values, fields = some values → Truthful (body values)) :
    Truthful (reading fields s body) := by
  cases fields with
  | none => exact truthful_of_silent silent_bad_config
  | some values => exact behind values rfl

theorem reporting_truthful (before : s.AllSucceeded) (sql : String) :
    Truthful (reporting e k sql s) := by
  unfold reporting invokeStoredProcedure
  cases outcome : s.issue e k sql with
  | error fault => exact truthful_of_silent (silent_of_head (message_head fault (by decide)))
  | ok effect => exact truthful_of_succeeded (record_succeeded before sql effect)

/-- A failed listing has no fields and stops at an assertion. -/
theorem listing_truthful (before : s.AllSucceeded) (sql tableName : String)
    {fields : List FieldAndType} (some_ : fields ≠ []) :
    Truthful (listing e k sql tableName fields s) := by
  unfold listing invokeStoredProcedure
  cases outcome : s.issue e k sql with
  | ok effect => exact truthful_of_succeeded (record_succeeded before sql effect)
  | error fault =>
    refine truthful_of_silent ?_
    cases fields with
    | nil => exact absurd rfl some_
    | cons field rest => simp [Except.toOption, serializeQueryResult, fieldNum, saysSuccess]

theorem unchecked_truthful_iff (before : s.AllSucceeded) (sql : String) :
    Truthful (unchecked e k sql s) ↔ ∀ fault, s.issue e k sql ≠ .error fault := by
  unfold unchecked invokeStoredProcedure
  have said : saysSuccess (some (makeResponseStr "success")) = true := by decide
  cases outcome : s.issue e k sql with
  | ok effect => simpa using truthful_of_succeeded (record_succeeded before sql effect)
  | error fault =>
    simp only [ne_eq, Except.error.injEq, forall_eq', iff_false]
    exact fun truthful => record_failed sql fault (truthful said)

theorem rollbackAndReport_silent (sql : String) (fault : SqlError) :
    saysSuccess (rollbackAndReport k (s.record sql (.error fault))).response = false := by
  refine silent_of_head ?_
  unfold Session.rollback
  split
  · exact message_head fault (by decide)
  · simp only
    split
    · exact message_head fault (by decide)
    · simp

theorem addOrderedItems_truthful (before : s.AllSucceeded) (id : Int) (items : List RequestedItem) :
    Truthful (addOrderedItems e k id items s) := by
  induction items generalizing s with
  | nil => exact truthful_of_succeeded before
  | cons item rest ih =>
    unfold addOrderedItems invokeStoredProcedure
    cases outcome : s.issue e k (callText "AddOrderedItem"
      [quoted (toString id), quoted (toString item.itemId), quoted (toString item.countInOrder)]) with
    | error fault => exact truthful_of_silent (rollbackAndReport_silent _ fault)
    | ok effect => exact ih (record_succeeded before _ effect)

theorem transaction_truthful {body : Session → Reply} (truthful : Truthful (body s.begin)) :
    Truthful (transaction k s body) := by
  intro said
  have all := truthful said
  intro call member
  rw [transaction, Session.rollback_calls] at member
  exact all call member

theorem completeOrder_truthful (before : s.AllSucceeded) : Truthful (completeOrder e k config s) := by
  refine guarded_truthful before fun s' succeeded => reading_truthful fun id _ =>
    transaction_truthful ?_
  unfold invokeStoredProcedure
  cases outcome : s'.begin.issue e k (callText "CompleteOrder" [quoted (toString id)]) with
  | error fault => exact truthful_of_silent (rollbackAndReport_silent _ fault)
  | ok effect =>
    have begun : s'.begin.AllSucceeded := succeeded
    exact truthful_of_succeeded (record_succeeded begun _ effect)

theorem addOrder_truthful (before : s.AllSucceeded) : Truthful (addOrder e k config s) := by
  refine guarded_truthful before fun s' succeeded => reading_truthful fun order _ =>
    transaction_truthful ?_
  unfold invokeStoredProcedure
  cases outcome : s'.begin.issue e k (callText "AddOrder"
    [quoted (toString order.customerTel), quoted ("FROM_UNIXTIME" ++ toString order.dateOfExpire)]) with
  | error fault => exact truthful_of_silent (rollbackAndReport_silent _ fault)
  | ok effect =>
    have begun : s'.begin.AllSucceeded := succeeded
    exact addOrderedItems_truthful (record_succeeded begun _ effect) _ _

theorem getIncome_truthful (before : s.AllSucceeded) : Truthful (getIncome e k config s) := by
  refine reading_truthful fun dates _ => ?_
  unfold invokeStoredProcedure
  cases outcome : s.issue e k (callText "GetIncome" dates) with
  | ok effect => exact truthful_of_succeeded (record_succeeded before _ effect)
  | error fault =>
    refine truthful_of_silent ?_
    simp [Except.toOption, serializeOneQueryResult, fieldNum, saysSuccess]

end

/-- The ranks and the call of the handlers that do not look at the result of it, when
the fields of the request can be read. -/
def uncheckedCall (name : String) (config : LuaValue) : Option (List String × String) :=
  if name = "delete_user" then
    (config.getRawString "delete_user_login").map fun login =>
      (["Admin"], callText "DeleteUser" [quoted login])
  else if name = "delete_customer" then
    (config.getRawInt "delete_customer_telephone").map fun tel =>
      (["Employee", "Admin"], callText "DeleteCustomer" [quoted (toString tel)])
  else if name = "add_item_count" then
    (readItemCount config).map fun args =>
      (["Employee", "Admin"], callText "AddItemCount" (args.map quoted))
  else none

/-- The request gets as far as such a call, and the call fails. -/
def FailsUnseen (e : Engine) (k : Conditions) (name : String) (config : LuaValue) (s : Session) : Prop :=
  ∃ ranks sql fault, uncheckedCall name config = some (ranks, sql) ∧ Granted e k config ranks s ∧
    (checkUserExistance e k config ranks s).2.issue e k sql = .error fault

section
variable {e : Engine} {k : Conditions} {config : LuaValue} {ranks : List String} {s : Session}

/-- The shape the three handlers share. -/
theorem guarded_unchecked_iff {α : Type} (before : s.AllSucceeded) (fields : Option α)
    (sql : α → String) :
    Truthful (guarded e k ranks config s fun s =>
      reading fields s fun values => unchecked e k (sql values) s) ↔
    ¬∃ values fault, fields = some values ∧ Granted e k config ranks s ∧
      (checkUserExistance e k config ranks s).2.issue e k (sql values) = .error fault := by
  constructor
  · rintro truthful ⟨values,fault,read,granted,failed⟩
    have reached : guarded e k ranks config s
        (fun s => reading fields s fun values => unchecked e k (sql values) s) =
        unchecked e k (sql values) (checkUserExistance e k config ranks s).2 := by
      rcases guarded_cases e k config ranks s
        (fun s => reading fields s fun values => unchecked e k (sql values) s) with
        ⟨str,refused,rfl,-⟩ | ⟨-,same⟩
      · exact absurd granted refused
      · rw [same, read]
        rfl
    rw [reached, unchecked_truthful_iff (check_succeeded granted before)] at truthful
    exact truthful fault failed
  · intro seen
    rcases guarded_cases e k config ranks s
      (fun s => reading fields s fun values => unchecked e k (sql values) s) with
      ⟨str,refused,rfl,same⟩ | ⟨granted,same⟩
    · rw [same]
      exact truthful_of_silent (check_silent refused)
    · rw [same]
      refine reading_truthful fun values read => ?_
      rw [unchecked_truthful_iff (check_succeeded granted before)]
      exact fun fault failed => seen ⟨values, fault, read, granted, failed⟩

/-- Handlers that are not among the three have no such call. -/
theorem truthful_iff_of_checked {name : String} {reply : Reply} (truthful : Truthful reply)
    (checked : uncheckedCall name config = none) :
    Truthful reply ↔ ¬FailsUnseen e k name config s := by
  refine iff_of_true truthful ?_
  rintro ⟨ranks,sql,fault,call,-⟩
  rw [checked] at call
  cases call

end

/-- A registered handler says success after a failed call exactly when it is one of the
three, the request reaches the call, and the call fails. -/
theorem handler_truthful_iff (e : Engine) (k : Conditions) (name : String)
    (func : LuaValue → Session → Reply) (registered : (name, func) ∈ requests e k)
    (config : LuaValue) (db : Db) :
    Truthful (func config (.opening db)) ↔ ¬FailsUnseen e k name config (.opening db) := by
  have before : (Session.opening db).AllSucceeded := by
    intro call member
    cases member
  have listed : ∀ ranks sql table (fields : List FieldAndType), fields ≠ [] →
      Truthful (guarded e k ranks config (.opening db) fun s => listing e k sql table fields s) :=
    fun ranks sql table fields some_ => guarded_truthful before fun s' succeeded =>
      listing_truthful succeeded sql table some_
  have reported : ∀ ranks (fields : Option (List String)) (sql : List String → String),
      Truthful (guarded e k ranks config (.opening db) fun s =>
        reading fields s fun args => reporting e k (sql args) s) :=
    fun ranks fields sql => guarded_truthful before fun s' succeeded =>
      reading_truthful fun args _ => reporting_truthful succeeded (sql args)
  simp only [requests, List.mem_cons, Prod.mk.injEq, List.not_mem_nil, or_false] at registered
  rcases registered with ⟨rfl,rfl⟩ | ⟨rfl,rfl⟩ | ⟨rfl,rfl⟩ | ⟨rfl,rfl⟩ | ⟨rfl,rfl⟩ | ⟨rfl,rfl⟩ |
    ⟨rfl,rfl⟩ | ⟨rfl,rfl⟩ | ⟨rfl,rfl⟩ | ⟨rfl,rfl⟩ | ⟨rfl,rfl⟩ | ⟨rfl,rfl⟩ | ⟨rfl,rfl⟩ | ⟨rfl,rfl⟩ |
    ⟨rfl,rfl⟩ | ⟨rfl,rfl⟩ | ⟨rfl,rfl⟩ | ⟨rfl,rfl⟩ | ⟨rfl,rfl⟩ | ⟨rfl,rfl⟩ | ⟨rfl,rfl⟩ | ⟨rfl,rfl⟩
  · exact truthful_iff_of_checked (guarded_truthful before fun s' succeeded =>
      truthful_of_succeeded succeeded) (by simp [uncheckedCall])
  · exact truthful_iff_of_checked (listed _ _ _ _ (by simp)) (by simp [uncheckedCall])
  · exact truthful_iff_of_checked (listing_truthful before _ _ (by simp)) (by simp [uncheckedCall])
  · exact truthful_iff_of_checked (listing_truthful before _ _ (by simp)) (by simp [uncheckedCall])
  · exact truthful_iff_of_checked (listing_truthful before _ _ (by simp [orderFieldTypes]))
      (by simp [uncheckedCall])
  · exact truthful_iff_of_checked (reading_truthful fun _ _ => listing_truthful before _ _ (by simp))
      (by simp [uncheckedCall])
  · exact truthful_iff_of_checked (listing_truthful before _ _ (by simp)) (by simp [uncheckedCall])
  · exact truthful_iff_of_checked (listing_truthful before _ _ (by simp)) (by simp [uncheckedCall])
  · exact truthful_iff_of_checked (listing_truthful before _ _ (by simp)) (by simp [uncheckedCall])
  · refine (guarded_unchecked_iff before _ _).trans (not_congr ?_)
    simp only [FailsUnseen, uncheckedCall]
    cases config.getRawString "delete_user_login" <;> simp
  · exact truthful_iff_of_checked (reported _ _ _) (by simp [uncheckedCall])
  · exact truthful_iff_of_checked (reported _ _ _) (by simp [uncheckedCall])
  · exact truthful_iff_of_checked (reported _ _ _) (by simp [uncheckedCall])
  · refine (guarded_unchecked_iff before _ _).trans (not_congr ?_)
    simp only [FailsUnseen, uncheckedCall]
    cases config.getRawInt "delete_customer_telephone" <;> simp
  · exact truthful_iff_of_checked (reported _ _ _) (by simp [uncheckedCall])
  · refine (guarded_unchecked_iff before _ _).trans (not_congr ?_)
    simp only [FailsUnseen, uncheckedCall]
    cases readItemCount config <;> simp
  · exact truthful_iff_of_checked (completeOrder_truthful before) (by simp [uncheckedCall])
  · exact truthful_iff_of_checked (addOrder_truthful before) (by simp [uncheckedCall])
  · exact truthful_iff_of_checked (listed _ _ _ _ (by simp [orderFieldTypes])) (by simp [uncheckedCall])
  · exact truthful_iff_of_checked
      (reading_truthful fun _ _ => listing_truthful before _ _ (by simp [orderFieldTypes]))
      (by simp [uncheckedCall])
  · exact truthful_iff_of_checked (getIncome_truthful before) (by simp [uncheckedCall])
  · exact truthful_iff_of_checked (reading_truthful fun _ _ => listing_truthful before _ _ (by simp))
      (by simp [uncheckedCall])

def overdrawn : LuaValue :=
  .table [("user", employee),
    ("item", .table [("id", .int 1), ("appended_count", .int (-500))] [])] []

theorem overdrawn_untruthful :
    ¬Truthful (addItemCount .standard (.calm 1700000000) overdrawn (.opening seeded)) := by
  rw [addItemCount, guarded_employee overdrawn seeded rfl (by decide) rfl rfl]
  unfold Truthful Session.AllSucceeded
  decide

def restocked : LuaValue :=
  .table [("user", employee),
    ("item", .table [("id", .int 1), ("appended_count", .int 5)] [])] []

theorem restocked_seen :
    ¬FailsUnseen .standard (.calm 1700000000) "add_item_count" restocked (.opening seeded) := by
  have exact_ := handler_truthful_iff .standard (.calm 1700000000) "add_item_count"
    (addItemCount .standard (.calm 1700000000)) (by simp [requests]) restocked seeded
  rw [← exact_, addItemCount, guarded_employee restocked seeded rfl (by decide) rfl rfl]
  unfold Truthful Session.AllSucceeded
  decide

end PcCourse.UserRequest
