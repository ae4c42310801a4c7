import PcCourse.Access

/-! The two handlers that use a transaction leave either everything they did or nothing,
and never an open transaction. -/
namespace PcCourse.UserRequest

open SqlCall

/-- How the work of such a handler ends: with the transaction over, and either back at
the tables it began with or answered with success. -/
structure Ended (tables : Tables) (before : Db) (reply : Reply) : Prop where
  closed : reply.session.snapshot = none
  outcome : reply.session.db.toTables = tables ∨
    reply.response = some (makeResponseStr "success") ∧ Scope.store.Keeps before reply.session.db

section
variable {e : Engine} {k : Conditions} {config : LuaValue} {s : Session} {tables : Tables}
  {before : Db}

theorem store_keeps_trans {a b c : Db} (first : Scope.store.Keeps a b)
    (second : Scope.store.Keeps b c) : Scope.store.Keeps a c :=
  ⟨second.1.trans first.1, second.2.trans first.2⟩

theorem rollbackAndReport_ended (began : s.snapshot = some tables) :
    Ended tables before (rollbackAndReport k s) where
  closed := Session.rollback_snapshot
  outcome := .inl (Session.rollback_tables began)

theorem commit_ended (kept : Scope.store.Keeps before s.db) :
    Ended tables before (respond "success" s.commit) :=
  ⟨rfl, .inr ⟨rfl, kept⟩⟩

/-- The induction is on the items still to be inserted: wherever a call fails, the
snapshot is still the one the transaction began with. -/
theorem addOrderedItems_ended (id : Int) (items : List RequestedItem)
    (began : s.snapshot = some tables) (kept : Scope.store.Keeps before s.db) :
    Ended tables before (addOrderedItems e k id items s) := by
  induction items generalizing s with
  | nil => exact commit_ended kept
  | cons item rest ih =>
    unfold addOrderedItems invokeStoredProcedure
    have keeps := Session.record_keeps (e := e) (k := k) (s := s) .addOrderedItem
      [quoted (toString id), quoted (toString item.itemId), quoted (toString item.countInOrder)]
    cases outcome : s.issue e k (callText "AddOrderedItem"
      [quoted (toString id), quoted (toString item.itemId), quoted (toString item.countInOrder)]) with
    | error fault => exact rollbackAndReport_ended (by rw [Session.record_snapshot, began])
    | ok effect =>
      rw [Procedure.name, outcome] at keeps
      exact ih (by rw [Session.record_snapshot, began]) (store_keeps_trans kept keeps)

/-- The destructor finds the transaction already ended. -/
theorem transaction_ended {body : Session → Reply} (ended : Ended tables before (body s.begin)) :
    Ended tables before (transaction k s body) := by
  have still : (body s.begin).session.rollback k = (body s.begin).session :=
    Session.rollback_of_none ended.closed
  unfold transaction
  simp only [still]
  exact ended

theorem unchanged_ended (idle : s.snapshot = none) {response : Option String} :
    Ended s.db.toTables s.db ⟨response, s⟩ :=
  ⟨idle, .inl rfl⟩

theorem guarded_ended {ranks : List String} {body : Session → Reply} (idle : s.snapshot = none)
    (ended : ∀ s' : Session, s'.db = s.db → s'.snapshot = none → Ended s.db.toTables s.db (body s')) :
    Ended s.db.toTables s.db (guarded e k ranks config s body) := by
  have db : (checkUserExistance e k config ranks s).2.db = s.db := check_db
  have snapshot : (checkUserExistance e k config ranks s).2.snapshot = none := by
    rw [check_snapshot, idle]
  rcases guarded_cases e k config ranks s body with ⟨str,-,-,same⟩ | ⟨-,same⟩
  · rw [same, ← db]
    exact unchanged_ended snapshot
  · rw [same]
    exact ended _ db snapshot

theorem completeOrder_ended (idle : s.snapshot = none) :
    Ended s.db.toTables s.db (completeOrder e k config s) := by
  refine guarded_ended idle fun s' db snapshot => ?_
  rw [← db]
  cases config.getRawInt "order_id" with
  | none => exact unchanged_ended snapshot
  | some id =>
    refine transaction_ended ?_
    unfold invokeStoredProcedure
    have keeps := Session.record_keeps (e := e) (k := k) (s := s'.begin) .completeOrder
      [quoted (toString id)]
    cases outcome : s'.begin.issue e k (callText "CompleteOrder" [quoted (toString id)]) with
    | error fault => exact rollbackAndReport_ended (by rw [Session.record_snapshot, Session.begin_snapshot])
    | ok effect =>
      rw [Procedure.name, outcome] at keeps
      exact commit_ended keeps

theorem addOrder_ended (idle : s.snapshot = none) :
    Ended s.db.toTables s.db (addOrder e k config s) := by
  refine guarded_ended idle fun s' db snapshot => ?_
  rw [← db]
  cases readNewOrder k config with
  | none => exact unchanged_ended snapshot
  | some order =>
    refine transaction_ended ?_
    unfold invokeStoredProcedure
    have keeps := Session.record_keeps (e := e) (k := k) (s := s'.begin) .addOrder
      [quoted (toString order.customerTel), quoted ("FROM_UNIXTIME" ++ toString order.dateOfExpire)]
    cases outcome : s'.begin.issue e k (callText "AddOrder"
      [quoted (toString order.customerTel), quoted ("FROM_UNIXTIME" ++ toString order.dateOfExpire)]) with
    | error fault => exact rollbackAndReport_ended (by rw [Session.record_snapshot, Session.begin_snapshot])
    | ok effect =>
      rw [Procedure.name, outcome] at keeps
      exact addOrderedItems_ended _ _ (by rw [Session.record_snapshot, Session.begin_snapshot]) keeps

end

/-- Whatever fails and wherever it fails, an order request that is not answered with
success leaves all tables as they were, and no request leaves a transaction open. -/
theorem order_request_atomic (e : Engine) (k : Conditions) (config : LuaValue) (s : Session)
    (idle : s.snapshot = none) (request : String)
    (named : config.getRawString "request" = some request)
    (orders : request = "add_order" ∨ request = "complete_order") :
    (processRequest e k (some config) s).session.snapshot = none ∧
    ((processRequest e k (some config) s).response ≠ some (makeResponseStr "success") →
      (processRequest e k (some config) s).session.db.toTables = s.db.toTables) := by
  have ended : Ended s.db.toTables s.db (processRequest e k (some config) s) := by
    rcases orders with rfl | rfl
    · rw [processRequest_of_name named (by decide) (lookup_addOrder e k)]
      exact addOrder_ended idle
    · rw [processRequest_of_name named (by decide) (lookup_completeOrder e k)]
      exact completeOrder_ended idle
  refine ⟨ended.closed, fun failed => ?_⟩
  rcases ended.outcome with same | ⟨success,-⟩
  · exact same
  · exact absurd success failed

def shortOfStock : Db :=
  { seeded with
    item := seeded.item.map fun row =>
      if row.id = 2 then { row with countOnWarehouse := 5 } else row }

def completionRequest : LuaValue :=
  .table [("request", .str "complete_order"), ("user", employee), ("order_id", .int 1)] []

theorem short_order_refused : (processRequest .standard (.calm 1700000000) (some completionRequest)
    (.opening shortOfStock)).response ≠ some (makeResponseStr "success") := by
  rw [processRequest_employee completionRequest shortOfStock rfl (by decide) rfl rfl (by decide) rfl rfl]
  decide

/-- The UPDATE fails at its second row and the first one gets its count back. -/
theorem short_order_restored :
    (processRequest .standard (.calm 1700000000) (some completionRequest)
      (.opening shortOfStock)).session.db.toTables = shortOfStock.toTables :=
  (order_request_atomic .standard (.calm 1700000000) completionRequest (.opening shortOfStock) rfl
    "complete_order" rfl (.inr rfl)).2 short_order_refused

end PcCourse.UserRequest
