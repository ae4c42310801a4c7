import PcCourse.Atomicity
import PcCourse.Privilege
import PcCourse.Listings

/-! What one request can do to the rows: nothing, one call with texts of the request, or an
order with its lines, which is kept or rolled back. -/
namespace PcCourse.UserRequest

open SqlCall

def Ran (e : Engine) (p : Procedure) (args : List String) (db : Db) (effect : Engine.Effect) : Prop :=
  ∃ at_, e.exec db at_ (callText p.name args) = .ok effect

/-- The calls the handlers issue outside of a new order, with their texts. -/
inductive Written (config : LuaValue) : Procedure → List String → Prop
  | deleteUser {login : String} : config.getRawString "delete_user_login" = some login →
    Written config .deleteUser [quoted login]
  | updateUser {args : List String} : readUpdateUser config = some args →
    Written config .updateUser (args.map quoted)
  | createUser {args : List String} : readNewUser config = some args →
    Written config .createUser (args.map quoted)
  | createCustomer {args : List String} : readNewCustomer config = some args →
    Written config .createCustomer (args.map quoted)
  | deleteCustomer {tel : Int} : config.getRawInt "delete_customer_telephone" = some tel →
    Written config .deleteCustomer [quoted (toString tel)]
  | addItem {args : List String} : readNewItem config = some args → Written config .addItem args
  | addItemCount {args : List String} : readItemCount config = some args →
    Written config .addItemCount (args.map quoted)
  | completeOrder {id : Int} : config.getRawInt "order_id" = some id →
    Written config .completeOrder [quoted (toString id)]

inductive Lines (e : Engine) (orderId : Int) : Db → Db → Prop
  | none (db : Db) : Lines e orderId db db
  | line {db after : Db} {effect : Engine.Effect} {itemId : Int} {countInOrder : Nat} :
    Ran e .addOrderedItem [quoted (toString orderId), quoted (toString itemId),
      quoted (toString countInOrder)] db effect →
    Lines e orderId effect.db after → Lines e orderId db after

/-- An order and lines for the id that its insertion reports. -/
def Placed (e : Engine) (db after : Db) : Prop :=
  ∃ effect customerTel dateOfExpire, Ran e .addOrder [quoted (toString (customerTel : Int)),
    quoted ("FROM_UNIXTIME" ++ toString (dateOfExpire : Int))] db effect ∧
    Lines e (toInt32 effect.insertId) effect.db after

inductive Handled (e : Engine) (config : LuaValue) : Db → Db → Prop
  | unchanged (db : Db) : Handled e config db db
  | called {db : Db} {p : Procedure} {args : List String} {effect : Engine.Effect} :
    Written config p args → Ran e p args db effect → Handled e config db effect.db
  | ordered {db after : Db} : Placed e db after → Handled e config db after
  | rolledBack {db after : Db} : Placed e db after →
    Handled e config db { toTables := db.toTables, next := after.next }

section
variable {e : Engine} {k : Conditions} {config : LuaValue} {s : Session} {p : Procedure}
  {args : List String}

theorem ran_of_issue {effect : Engine.Effect}
    (issued : s.issue e k (callText p.name args) = .ok effect) : Ran e p args s.db effect := by
  unfold Session.issue at issued
  split at issued
  · cases issued
  · exact ⟨_, issued⟩

theorem recorded_handled (written : Written config p args) :
    Handled e config s.db
      (s.record (callText p.name args) (s.issue e k (callText p.name args))).db := by
  cases outcome : s.issue e k (callText p.name args) with
  | error fault => exact .unchanged s.db
  | ok effect => exact .called written (ran_of_issue outcome)

theorem guarded_handled {ranks : List String} {body : Session → Reply}
    (behind : ∀ s' : Session, Handled e config s'.db (body s').session.db) :
    Handled e config s.db (guarded e k ranks config s body).session.db := by
  have db : (checkUserExistance e k config ranks s).2.db = s.db := check_db
  rw [← db]
  rcases guarded_cases e k config ranks s body with ⟨str,-,-,same⟩ | ⟨-,same⟩
  · rw [same]
    exact .unchanged _
  · rw [same]
    exact behind _

theorem reading_handled {α : Type} {fields : Option α} {body : α → Reply}
    (behind : ∀ values, fields = some values → Handled e config s.db (body values).session.db) :
    Handled e config s.db (reading fields s body).session.db := by
  cases fields with
  | none => exact .unchanged s.db
  | some values => exact behind values rfl

theorem unchecked_handled (written : Written config p args) :
    Handled e config s.db (unchecked e k (callText p.name args) s).session.db :=
  recorded_handled written

theorem reporting_handled (written : Written config p args) :
    Handled e config s.db (reporting e k (callText p.name args) s).session.db := by
  have recorded : Handled e config s.db _ := recorded_handled (k := k) written
  unfold reporting invokeStoredProcedure
  cases outcome : s.issue e k (callText p.name args) <;> rw [outcome] at recorded <;> exact recorded

theorem rollback_db {tables : Tables} (began : s.snapshot = some tables) :
    (s.rollback k).db = { toTables := tables, next := s.db.next } := by
  simp only [Session.rollback, began]

/-- A transaction that its body has ended keeps what the body did. -/
theorem transaction_db {body : Session → Reply} (ended : (body s.begin).session.snapshot = none) :
    (transaction k s body).session.db = (body s.begin).session.db := by
  change ((body s.begin).session.rollback k).db = _
  rw [Session.rollback_of_none ended]

/-- The induction is on the lines still to be inserted; the tables to go back to are the
same all along. -/
theorem addOrderedItems_lines (orderId : Int) (items : List RequestedItem) {tables : Tables}
    (began : s.snapshot = some tables) :
    ∃ after, Lines e orderId s.db after ∧
      (addOrderedItems e k orderId items s).session.snapshot = none ∧
      ((addOrderedItems e k orderId items s).session.db = after ∨
        (addOrderedItems e k orderId items s).session.db =
          { toTables := tables, next := after.next }) := by
  induction items generalizing s with
  | nil => exact ⟨s.db, .none s.db, rfl, .inl rfl⟩
  | cons item rest ih =>
    unfold addOrderedItems invokeStoredProcedure
    generalize text : callText "AddOrderedItem" [quoted (toString orderId),
      quoted (toString item.itemId), quoted (toString item.countInOrder)] = sql
    have recorded : ∀ outcome, (s.record sql outcome).snapshot = some tables := fun outcome => by
      rw [Session.record_snapshot, began]
    cases outcome : s.issue e k sql with
    | error fault =>
      exact ⟨s.db, .none s.db, Session.rollback_snapshot, .inr (rollback_db (recorded _))⟩
    | ok effect =>
      rw [← text] at outcome
      have ran : Ran e .addOrderedItem _ s.db effect := ran_of_issue outcome
      obtain ⟨after,lines,ended,kept⟩ := ih (recorded (.ok effect))
      exact ⟨after, .line ran lines, ended, kept⟩

theorem addOrder_handled : Handled e config s.db (addOrder e k config s).session.db := by
  refine guarded_handled fun s' => reading_handled fun order _ => ?_
  generalize text : callText "AddOrder" [quoted (toString order.customerTel),
    quoted ("FROM_UNIXTIME" ++ toString order.dateOfExpire)] = sql
  have recorded : ∀ outcome, (s'.begin.record sql outcome).snapshot = some s'.db.toTables :=
    fun outcome => by rw [Session.record_snapshot, Session.begin_snapshot]
  cases outcome : s'.begin.issue e k sql with
  | error fault =>
    rw [transaction_db] <;> simp only [invokeStoredProcedure, outcome]
    · change Handled e config s'.db (Session.rollback k _).db
      rw [rollback_db (recorded _)]
      exact .unchanged s'.db
    · exact Session.rollback_snapshot
  | ok effect =>
    obtain ⟨after,lines,ended,kept⟩ :=
      addOrderedItems_lines (e := e) (k := k) (toInt32 effect.insertId) order.items
        (recorded (.ok effect))
    rw [transaction_db] <;> simp only [invokeStoredProcedure, outcome]
    · rw [← text] at outcome
      have ran : Ran e .addOrder _ s'.db effect := ran_of_issue outcome
      have placed : Placed e s'.db after := ⟨effect, _, _, ran, lines⟩
      rcases kept with committed | restored
      · rw [committed]
        exact .ordered placed
      · rw [restored]
        exact .rolledBack placed
    · exact ended

theorem completeOrder_db : (completeOrder e k config s).session.db = s.db ∨
    ∃ id effect, config.getRawInt "order_id" = some id ∧
      Ran e .completeOrder [quoted (toString id)] s.db effect ∧
      (completeOrder e k config s).session.db = effect.db := by
  have db : (checkUserExistance e k config ["Employee", "Admin"] s).2.db = s.db := check_db
  rw [← db]
  unfold completeOrder
  rcases guarded_cases e k config ["Employee", "Admin"] s _ with ⟨str,-,-,same⟩ | ⟨-,same⟩
  · rw [same]
    exact .inl rfl
  rw [same]
  generalize (checkUserExistance e k config ["Employee", "Admin"] s).2 = s'
  cases order : config.getRawInt "order_id" with
  | none => exact .inl rfl
  | some id =>
    unfold reading
    dsimp only
    cases outcome : s'.begin.issue e k (callText "CompleteOrder" [quoted (toString id)]) with
    | error fault =>
      refine .inl ?_
      rw [transaction_db] <;> simp only [invokeStoredProcedure, outcome]
      · change (Session.rollback k _).db = s'.db
        rw [rollback_db (by rw [Session.record_snapshot, Session.begin_snapshot])]
        rfl
      · exact Session.rollback_snapshot
    | ok effect =>
      have ran : Ran e .completeOrder _ s'.db effect := ran_of_issue outcome
      refine .inr ⟨id, effect, rfl, ran, ?_⟩
      rw [transaction_db] <;> simp only [invokeStoredProcedure, outcome] <;> rfl

theorem completeOrder_handled :
    Handled e config s.db (completeOrder e k config s).session.db := by
  rcases completeOrder_db with same | ⟨id,effect,order,ran,same⟩
  · rw [same]
    exact .unchanged s.db
  · rw [same]
    exact .called (.completeOrder order) ran

theorem listing_handled {p : Procedure} (reads : p.scope = .nothing) (args : List String)
    (tableName : String) (fields : List FieldAndType) :
    Handled e config s.db (listing e k (callText p.name args) tableName fields s).session.db := by
  rw [listing_db p reads]
  exact .unchanged s.db

theorem handler_handled {name : String} {func : LuaValue → Session → Reply}
    (registered : (name, func) ∈ requests e k) :
    Handled e config s.db (func config s).session.db := by
  simp only [requests, List.mem_cons, Prod.mk.injEq, List.not_mem_nil, or_false] at registered
  rcases registered with ⟨-,rfl⟩ | ⟨-,rfl⟩ | ⟨-,rfl⟩ | ⟨-,rfl⟩ | ⟨-,rfl⟩ | ⟨-,rfl⟩ | ⟨-,rfl⟩ |
    ⟨-,rfl⟩ | ⟨-,rfl⟩ | ⟨-,rfl⟩ | ⟨-,rfl⟩ | ⟨-,rfl⟩ | ⟨-,rfl⟩ | ⟨-,rfl⟩ | ⟨-,rfl⟩ | ⟨-,rfl⟩ |
    ⟨-,rfl⟩ | ⟨-,rfl⟩ | ⟨-,rfl⟩ | ⟨-,rfl⟩ | ⟨-,rfl⟩ | ⟨-,rfl⟩
  · exact guarded_handled fun s' => .unchanged s'.db
  · exact guarded_handled fun s' => listing_handled (p := .getUsers) rfl _ _ _
  · exact listing_handled (p := .getRanks) rfl _ _ _
  · exact listing_handled (p := .getCustomers) rfl _ _ _
  · exact listing_handled (p := .getOrders) rfl _ _ _
  · exact reading_handled fun _ _ => listing_handled (p := .getOrderItems) rfl _ _ _
  · exact listing_handled (p := .getItems) rfl _ _ _
  · exact listing_handled (p := .getDistributors) rfl _ _ _
  · exact listing_handled (p := .getItemTypes) rfl _ _ _
  · exact guarded_handled fun s' => reading_handled fun _ read => unchecked_handled (p := .deleteUser) (.deleteUser read)
  · exact guarded_handled fun s' => reading_handled fun _ read => reporting_handled (p := .updateUser) (.updateUser read)
  · exact guarded_handled fun s' => reading_handled fun _ read => reporting_handled (p := .createUser) (.createUser read)
  · exact guarded_handled fun s' => reading_handled fun _ read =>
      reporting_handled (p := .createCustomer) (.createCustomer read)
  · exact guarded_handled fun s' => reading_handled fun _ read =>
      unchecked_handled (p := .deleteCustomer) (.deleteCustomer read)
  · exact guarded_handled fun s' => reading_handled fun _ read => reporting_handled (p := .addItem) (.addItem read)
  · exact guarded_handled fun s' => reading_handled fun _ read =>
      unchecked_handled (p := .addItemCount) (.addItemCount read)
  · exact completeOrder_handled
  · exact addOrder_handled
  · exact guarded_handled fun s' => listing_handled (p := .getExpiredOrders) rfl _ _ _
  · exact reading_handled fun _ _ => listing_handled (p := .getCompletedOrders) rfl _ _ _
  · refine reading_handled fun dates _ => ?_
    have kept : (s.record (callText "GetIncome" dates) (s.issue e k (callText "GetIncome" dates))).db =
        s.db := Session.record_keeps .getIncome dates
    change Handled e config s.db (s.record (callText "GetIncome" dates) _).db
    rw [kept]
    exact .unchanged s.db
  · exact reading_handled fun _ _ =>
      listing_handled (p := .getSellsStatiscticsByDistributors) rfl _ _ _

end

/-- Every request changes nothing or is handled with its own texts. -/
theorem serve_handled (e : Engine) (incoming : Incoming) (db : Db) :
    serve e incoming db = db ∨ ∃ config, incoming.config = some config ∧
      Handled e config db (serve e incoming db) := by
  unfold serve processRequest
  split
  · exact .inl rfl
  next config parsed =>
    dsimp only
    split
    · exact .inl rfl
    · split
      next func found =>
        obtain ⟨before,after,table,-⟩ := List.lookup_eq_some_iff.mp found
        refine .inr ⟨config, parsed, ?_⟩
        exact handler_handled (s := .opening db)
          (by rw [table]; exact List.mem_append_right _ List.mem_cons_self)
      next => exact .inl rfl

structure NoLater (before after : AutoIncrement) : Prop where
  newOrder : before.newOrder ≤ after.newOrder
  item : before.item ≤ after.item
  orderedItem : before.orderedItem ≤ after.orderedItem

theorem NoLater.refl (next : AutoIncrement) : NoLater next next :=
  ⟨Int.le_refl _, Int.le_refl _, Int.le_refl _⟩

theorem NoLater.trans {a b c : AutoIncrement} (first : NoLater a b) (second : NoLater b c) :
    NoLater a c :=
  ⟨Int.le_trans first.newOrder second.newOrder, Int.le_trans first.item second.item,
    Int.le_trans first.orderedItem second.orderedItem⟩

theorem exec_noLater {c : Collation} {at_ : Occasion} {u : Update} {db after : Db}
    (done : u.exec c at_ db = .ok after) : NoLater db.next after.next := by
  cases u with
  | deleteUser login =>
    cases done
    exact .refl _
  | createUser login pwd sname name pname rank =>
    obtain ⟨l,p,r,-,-,-,-,-,rfl⟩ := createUser_eq_ok done
    exact .refl _
  | updateUser login sname name pname rank =>
    obtain ⟨r,-,-,rfl⟩ := updateUser_eq_ok done
    exact .refl _
  | createCustomer tel sname name pname =>
    obtain ⟨t,-,-,rfl⟩ := createCustomer_eq_ok done
    exact .refl _
  | deleteCustomer tel =>
    cases done
    exact .refl _
  | addItem name cost count distributor type description =>
    obtain ⟨row,fresh,-,-,-,rfl⟩ := addItem_eq_ok done
    exact ⟨Int.le_refl _, fresh ▸ Int.le_of_lt (Int.lt_succ _), Int.le_refl _⟩
  | addItemCount id appended =>
    obtain ⟨item,rfl,-⟩ := addItemCount_eq_ok done
    exact .refl _
  | addOrderedItem order item count =>
    obtain ⟨line,fresh,-,-,-,-,-,rfl⟩ := addOrderedItem_eq_ok done
    exact ⟨Int.le_refl _, Int.le_refl _, fresh ▸ Int.le_of_lt (Int.lt_succ _)⟩
  | addOrder tel expire =>
    obtain ⟨o,fresh,-,-,-,-,-,rfl⟩ := addOrder_eq_ok done
    exact ⟨fresh ▸ Int.le_of_lt (Int.lt_succ _), Int.le_refl _, Int.le_refl _⟩
  | completeOrder id =>
    rcases completeOrder_eq_ok done with ⟨-,rfl⟩ | ⟨-,item,rfl,-⟩
    · exact .refl _
    · exact .refl _

/-- Tables that are rolled back to keep their keys below the counters. -/
theorem Integrity.rolledBack {c : Collation} {db : Db} (valid : Integrity c db)
    {next : AutoIncrement} (later : NoLater db.next next) :
    Integrity c { toTables := db.toTables, next := next } :=
  { valid with
    freshOrder := fun o member => Int.lt_of_lt_of_le (valid.freshOrder o member) later.newOrder
    freshItem := fun row member => Int.lt_of_lt_of_le (valid.freshItem row member) later.item
    freshLine := fun line member => Int.lt_of_lt_of_le (valid.freshLine line member) later.orderedItem }

section
variable {e : Engine} {p : Procedure} {args : List String} {db after : Db} {effect : Engine.Effect}

/-- What a call that succeeds does: nothing, or one statement of its procedure. -/
theorem Ran.cases (ran : Ran e p args db effect) : effect.db = db ∨
    ∃ at_ u, e.compile db (callText p.name args) = .ok (.update u) ∧
      (Statement.update u).procedure = p ∧ u.exec e.collation at_ db = .ok effect.db := by
  obtain ⟨at_,done⟩ := ran
  unfold Engine.exec at done
  split at done
  · cases done
  · cases done
    exact .inl rfl
  next u compiled =>
    split at done
    · cases done
    next done' executed =>
      cases done
      exact .inr ⟨at_, u, compiled, Engine.compile_procedure compiled, executed⟩

theorem Ran.integrity (ran : Ran e p args db effect) (valid : Integrity e.collation db) :
    Integrity e.collation effect.db := by
  rcases ran.cases with same | ⟨at_,u,-,-,done⟩
  · rwa [same]
  · exact Update.exec_integrity valid done

theorem Ran.noLater (ran : Ran e p args db effect) : NoLater db.next effect.db.next := by
  rcases ran.cases with same | ⟨at_,u,-,-,done⟩
  · rw [same]
    exact .refl _
  · exact exec_noLater done

theorem Lines.noLater {orderId : Int} (lines : Lines e orderId db after) :
    NoLater db.next after.next := by
  induction lines with
  | none db => exact .refl db.next
  | line ran _ ih => exact ran.noLater.trans ih

theorem Placed.noLater (placed : Placed e db after) : NoLater db.next after.next := by
  obtain ⟨effect,_,_,ran,lines⟩ := placed
  exact ran.noLater.trans lines.noLater

/-- What each call keeps, and going back to earlier tables keeps, a request keeps. -/
theorem Handled.preserves {invariant : Db → Prop} {config : LuaValue}
    (call : ∀ {p args before effect}, Written config p args ∨ p = .addOrder ∨ p = .addOrderedItem →
      Ran e p args before effect → invariant before → invariant effect.db)
    (rollback : ∀ {before next}, NoLater before.next next → invariant before →
      invariant { toTables := before.toTables, next := next })
    (handled : Handled e config db after) (valid : invariant db) : invariant after := by
  cases handled with
  | unchanged => exact valid
  | called written ran => exact call (.inl written) ran valid
  | ordered placed =>
    obtain ⟨effect,_,_,ran,lines⟩ := placed
    have inserted := call (.inr (.inl rfl)) ran valid
    generalize effect.db = middle at lines inserted
    induction lines with
    | none => exact inserted
    | line ran _ ih => exact ih (call (.inr (.inr rfl)) ran inserted)
  | rolledBack placed => exact rollback placed.noLater valid

theorem Handled.integrity {config : LuaValue} (handled : Handled e config db after)
    (valid : Integrity e.collation db) : Integrity e.collation after :=
  handled.preserves (fun _ ran valid => ran.integrity valid)
    (fun later valid => Integrity.rolledBack valid later) valid

/-- What a request keeps when it is handled, it keeps. -/
theorem serve_preserves {invariant : Db → Prop} {incoming : Incoming}
    (preserved : ∀ config, incoming.config = some config → ∀ before now,
      Handled e config before now → invariant before → invariant now)
    (valid : invariant db) : invariant (serve e incoming db) := by
  rcases serve_handled e incoming db with same | ⟨config,parsed,handled⟩
  · rwa [same]
  · exact preserved config parsed db _ handled valid

end

theorem run_integrity (e : Engine) (requests : List Incoming) {db : Db}
    (valid : Integrity e.collation db) : Integrity e.collation (run e requests db) :=
  Transition.execute_preserves (Integrity e.collation)
    (fun _ _ valid => serve_preserves (fun _ _ _ _ handled => handled.integrity) valid)
    requests db valid

end PcCourse.UserRequest
