import PcCourse.StatementRule
import PcCourse.RowIdentity

/-! The reports on a period that is over: what they are computed from stays as it is, whatever
requests follow, as long as nobody who bought in it is deleted. -/
namespace PcCourse

open Grouping

def Line.entry (line : Line) : Line := (line.1, line.2.entry)

section
variable (start end_ : Option Int) (db : Db)

def completedOrders : List NewOrder := db.newOrder.filter (completedIn start end_)

def soldEntries : List (Line × NewOrder) :=
  (soldLines start end_ db).map (Prod.map Line.entry id)

def statisticsOf (c : Collation) (distributors : List Distributor) (sold : List (Line × NewOrder)) :
    List (List SqlValue) :=
  (groups (fun row => (distributors.find? fun other => c.same other.name row.2.name).map Distributor.id)
    (join (fun row d => row.1.2.distributorId = d.id) sold distributors)).map fun (first, rest) =>
    [.double ((first :: rest).foldl (fun total row => total + row.1.1.cost) .zero),
      .int ((first :: rest).map fun row => row.1.1.count).sum, .text first.2.name]

end

structure SameSales (start end_ : Option Int) (db after : Db) : Prop where
  orders : join (fun o customer => o.customerTel = customer.telephone) (completedOrders start end_ after)
      after.customer =
    join (fun o customer => o.customerTel = customer.telephone) (completedOrders start end_ db) db.customer
  sold : soldEntries start end_ after = soldEntries start end_ db
  distributors : after.distributor = db.distributor

section
variable {start end_ : Option Int} {db after : Db} {c : Collation}

theorem SameSales.refl (db : Db) : SameSales start end_ db db := ⟨rfl, rfl, rfl⟩

theorem SameSales.trans {later : Db} (first : SameSales start end_ db after)
    (second : SameSales start end_ after later) : SameSales start end_ db later :=
  ⟨second.orders.trans first.orders, second.sold.trans first.sold,
    second.distributors.trans first.distributors⟩

theorem soldEntries_eq : soldEntries start end_ db = join (fun line o => line.1.orderId = o.id)
    (join (fun line row => line.itemId = row.id) db.orderedItem (db.item.map Item.entry))
    (completedOrders start end_ db) := by
  have lines : join (fun line row => decide (line.itemId = row.id)) db.orderedItem
      (db.item.map Item.entry) =
      (join (fun line row => decide (line.itemId = row.id)) db.orderedItem db.item).map Line.entry :=
    join_map_right _ Item.entry db.orderedItem db.item
  rw [soldEntries, soldLines, ← join_filter_right _ (completedIn start end_), lines]
  exact (join_map_left (fun (line : Line) (o : NewOrder) => decide (line.1.orderId = o.id)) Line.entry _ _).symm

theorem getIncome_eq : getIncome start end_ db = ⟨["income"], [[.double ((soldEntries start end_ db).foldl
    (fun total row => total + row.1.cost) .zero)]]⟩ := by
  rw [soldEntries, List.foldl_map]
  rfl

theorem getSells_eq : getSellsStatiscticsByDistributors c start end_ db =
    ⟨["common_cost", "common_count", "distributor"],
      statisticsOf c db.distributor (soldEntries start end_ db)⟩ := by
  have rows : join (fun (row : Line × NewOrder) (d : Distributor) => decide (row.1.2.distributorId = d.id))
      (soldEntries start end_ db) db.distributor = (join (fun row d => decide (row.1.2.distributorId = d.id))
        (soldLines start end_ db) db.distributor).map (Prod.map (Prod.map Line.entry id) id) :=
    join_map_left _ (Prod.map Line.entry id) (soldLines start end_ db) db.distributor
  rw [statisticsOf, rows, groups_map, List.map_map, getSellsStatiscticsByDistributors]
  congr 1
  refine List.map_congr_left fun group _ => ?_
  obtain ⟨first,rest⟩ := group
  simp only [Function.comp_apply, Prod.map_apply, List.foldl_cons, List.foldl_map, List.map_cons,
    List.map_map]
  rfl

theorem SameSales.reports (same : SameSales start end_ db after) (c : Collation) :
    getCompletedOrders start end_ after = getCompletedOrders start end_ db ∧
    getIncome start end_ after = getIncome start end_ db ∧
    getSellsStatiscticsByDistributors c start end_ after =
      getSellsStatiscticsByDistributors c start end_ db := by
  refine ⟨?_, ?_, ?_⟩
  · have orders := same.orders
    simp only [completedOrders, join_filter] at orders
    exact congrArg (fun rows => ResultSet.mk orderFields (rows.map orderRow)) orders
  · rw [getIncome_eq, getIncome_eq, same.sold]
  · rw [getSells_eq, getSells_eq, same.sold, same.distributors]

/-- Tables that differ in counts and in open orders have the same sales. -/
theorem SameSales.of_tables (orders : completedOrders start end_ after = completedOrders start end_ db)
    (customers : after.customer = db.customer) (lines : after.orderedItem = db.orderedItem)
    (items : after.item.map Item.entry = db.item.map Item.entry)
    (distributors : after.distributor = db.distributor) : SameSales start end_ db after := by
  refine ⟨by rw [orders, customers], ?_, distributors⟩
  rw [soldEntries_eq, soldEntries_eq, lines, items, orders]

theorem SameSales.createCustomer (valid : Integrity c db) {tel : Option Nat} {sname name pname : Option String}
    (done : PcCourse.createCustomer tel sname name pname db = .ok after) : SameSales start end_ db after := by
  obtain ⟨t,rfl,fresh,rfl⟩ := createCustomer_eq_ok done
  refine ⟨join_congr_right fun o member => ?_, rfl, rfl⟩
  have known := valid.orderCustomer o (List.mem_of_mem_filter member)
  have other : o.customerTel ≠ t := by
    rintro rfl
    exact fresh known
  simp [List.filter_append, other]

theorem SameSales.deleteCustomer (valid : Integrity c db) {tel : Option Nat}
    (done : PcCourse.deleteCustomer tel db = .ok after)
    (stays : ∀ o ∈ completedOrders start end_ db, o.customerTel ∈ after.customer.map Customer.telephone) :
    SameSales start end_ db after := by
  cases done
  have others : ∀ o ∈ completedOrders start end_ db, some o.customerTel ≠ tel := by
    intro o member
    obtain ⟨row,inside,same⟩ := List.mem_map.mp (stays o member)
    simpa [same] using (List.mem_filter.mp inside).2
  have orders : completedOrders start end_ { db with
      customer := db.customer.filter fun row => some row.telephone ≠ tel
      newOrder := db.newOrder.filter fun o => some o.customerTel ≠ tel
      orderedItem := db.orderedItem.filter fun line =>
        !db.newOrder.any fun o => o.id = line.orderId ∧ some o.customerTel = tel } =
      completedOrders start end_ db := by
    simp only [completedOrders]
    rw [List.filter_comm, List.filter_eq_self]
    intro o member
    simpa using others o member
  refine ⟨?_, ?_, rfl⟩
  · rw [orders]
    refine join_congr_right fun o member => ?_
    rw [List.filter_comm, List.filter_eq_self]
    intro row ofOrder
    have same := (List.mem_filter.mp ofOrder).2
    have other := others o member
    simp only [decide_eq_true_eq] at same ⊢
    rwa [← same]
  · rw [soldEntries_eq, soldEntries_eq, orders]
    simp only
    rw [join_filter, join_filter, List.filter_eq_self]
    intro row member
    obtain ⟨-,order,same⟩ := mem_join.mp member
    have ofOrder : row.1.1.orderId = row.2.id := by simpa using same
    simp only [Bool.not_eq_true', List.any_eq_false, decide_eq_true_eq, not_and]
    intro o inside key
    rw [eq_of_id valid.orders inside (List.mem_of_mem_filter order) (key.trans ofOrder)]
    exact others row.2 order

theorem SameSales.addItem (valid : Integrity c db) {name : Option String} {cost : Option Decimal}
    {count : Option Nat} {distributor type : Option Int} {description : Option String}
    (done : PcCourse.addItem name cost count distributor type description db = .ok after) :
    SameSales start end_ db after := by
  obtain ⟨new,fresh,-,-,-,rfl⟩ := addItem_eq_ok done
  refine ⟨rfl, ?_, rfl⟩
  rw [soldEntries_eq, soldEntries_eq]
  refine congrArg (join _ · _) (join_congr_right fun line member => ?_)
  have known := valid.lineItem line member
  have other : line.itemId ≠ new.entry.id := by
    intro same
    obtain ⟨row,inside,key⟩ := List.mem_map.mp known
    have before := valid.freshItem row inside
    have id : new.entry.id = new.id := rfl
    omega
  simp [List.filter_append, other]

theorem SameSales.addOrderedItem {order item : Option Int} {count : Option Nat}
    (done : PcCourse.addOrderedItem order item count db = .ok after)
    (elsewhere : ∀ o ∈ completedOrders start end_ db, order ≠ some o.id) : SameSales start end_ db after := by
  obtain ⟨line,-,rfl,-,-,-,-,rfl⟩ := addOrderedItem_eq_ok done
  refine ⟨rfl, ?_, rfl⟩
  rw [soldEntries_eq, soldEntries_eq]
  simp only
  rw [join_append, join_append]
  refine List.append_right_eq_self.mpr (join_eq_nil fun row member o completed => ?_)
  have same : row.1 = line := List.mem_singleton.mp (mem_join.mp member).1
  have other := elsewhere o completed
  simp only [decide_eq_false_iff_not, same]
  simpa using other

theorem completedOrders_stamp (valid : Integrity c db) {now : Int} {id : Option Int}
    (uncompleted : isCompleted id db = false)
    (late : ∀ o ∈ (stampOrder now id db).newOrder, completedIn start end_ o = true →
      ∃ before ∈ db.newOrder, before.id = o.id ∧ before.dateOfCompletion = o.dateOfCompletion) :
    completedOrders start end_ (stampOrder now id db) = completedOrders start end_ db := by
  have each : ∀ o ∈ db.newOrder, some o.id = id → completedIn start end_ o = false ∧
      completedIn start end_ { o with dateOfCompletion := some (day now) } = false := by
    intro o inside same
    have open_ : o.dateOfCompletion = none := by
      simpa [same] using List.any_eq_false.mp uncompleted o inside
    refine ⟨by simp [completedIn, open_], ?_⟩
    by_contra listed
    have stamped : { o with dateOfCompletion := some (day now) } ∈ (stampOrder now id db).newOrder := by
      refine List.mem_map.mpr ⟨o, inside, ?_⟩
      rw [if_pos same]
    obtain ⟨before,there,key,completed⟩ := late _ stamped (by simpa using listed)
    rw [eq_of_id valid.orders there inside key, open_] at completed
    cases completed
  simp only [completedOrders, stampOrder]
  generalize db.newOrder = rows at each
  clear late uncompleted valid
  induction rows with
  | nil => rfl
  | cons o rest ih =>
    have others := ih fun row member => each row (List.mem_cons_of_mem _ member)
    rw [List.map_cons, List.filter_cons, List.filter_cons, others]
    split_ifs <;> simp_all

/-- What a statement leaves of the sales in a period: everything, unless it completes an order
in it, inserts a line for an order of it or deletes a customer who bought in it. -/
theorem SameSales.exec (valid : Integrity c db) {at_ : Occasion} {u : Update}
    (done : u.exec c at_ db = .ok after)
    (late : ∀ o ∈ after.newOrder, completedIn start end_ o = true →
      ∃ before ∈ db.newOrder, before.id = o.id ∧ before.dateOfCompletion = o.dateOfCompletion)
    (elsewhere : ∀ id item count, u = .addOrderedItem (some id) item count →
      ∀ o ∈ completedOrders start end_ db, id ≠ o.id)
    (stays : ∀ o ∈ completedOrders start end_ db, o.customerTel ∈ after.customer.map Customer.telephone) :
    SameSales start end_ db after := by
  cases u with
  | deleteUser login =>
    cases done
    exact .of_tables rfl rfl rfl rfl rfl
  | createUser login pwd sname name pname rank =>
    obtain ⟨l,p,r,-,-,-,-,-,rfl⟩ := createUser_eq_ok done
    exact .of_tables rfl rfl rfl rfl rfl
  | updateUser login sname name pname rank =>
    obtain ⟨r,-,-,rfl⟩ := updateUser_eq_ok done
    exact .of_tables rfl rfl rfl rfl rfl
  | createCustomer tel sname name pname => exact .createCustomer valid done
  | deleteCustomer tel => exact .deleteCustomer valid done stays
  | addItem name cost count distributor type description => exact .addItem valid done
  | addItemCount id appended =>
    obtain ⟨item,rfl,counts⟩ := addItemCount_eq_ok done
    exact .of_tables rfl rfl rfl counts.entries rfl
  | addOrderedItem order item count =>
    refine .addOrderedItem done fun o member same => ?_
    exact elsewhere o.id item count (by rw [same]) o member rfl
  | addOrder tel expire =>
    obtain ⟨new,-,-,-,-,open_,-,rfl⟩ := addOrder_eq_ok done
    refine .of_tables ?_ rfl rfl rfl rfl
    simp [completedOrders, List.filter_append, completedIn, open_]
  | completeOrder id =>
    rcases completeOrder_eq_ok done with ⟨-,rfl⟩ | ⟨uncompleted,item,rfl,counts⟩
    · exact .refl _
    · refine .of_tables ?_ rfl rfl counts.entries rfl
      exact completedOrders_stamp (valid.recount counts) uncompleted late

/-- A completion date of the new state is one of the old state, or that of the statement. -/
theorem exec_completion {at_ : Occasion} {u : Update} (done : u.exec c at_ db = .ok after) {o : NewOrder}
    (member : o ∈ after.newOrder) {completed : Int} (date : o.dateOfCompletion = some completed) :
    (∃ before ∈ db.newOrder, before.id = o.id ∧ before.dateOfCompletion = some completed) ∨
      completed = day at_.now := by
  have same (inside : o ∈ db.newOrder) : (∃ before ∈ db.newOrder, before.id = o.id ∧
      before.dateOfCompletion = some completed) ∨ completed = day at_.now :=
    .inl ⟨o, inside, rfl, date⟩
  cases u with
  | deleteUser login =>
    cases done
    exact same member
  | createUser login pwd sname name pname rank =>
    obtain ⟨l,p,r,-,-,-,-,-,rfl⟩ := createUser_eq_ok done
    exact same member
  | updateUser login sname name pname rank =>
    obtain ⟨r,-,-,rfl⟩ := updateUser_eq_ok done
    exact same member
  | createCustomer tel sname name pname =>
    obtain ⟨t,-,-,rfl⟩ := createCustomer_eq_ok done
    exact same member
  | deleteCustomer tel =>
    cases done
    exact same (List.mem_of_mem_filter member)
  | addItem name cost count distributor type description =>
    obtain ⟨row,-,-,-,-,rfl⟩ := addItem_eq_ok done
    exact same member
  | addItemCount id appended =>
    obtain ⟨item,rfl,-⟩ := addItemCount_eq_ok done
    exact same member
  | addOrderedItem order item count =>
    obtain ⟨line,-,-,-,-,-,-,rfl⟩ := addOrderedItem_eq_ok done
    exact same member
  | addOrder tel expire =>
    obtain ⟨new,-,-,-,-,open_,-,rfl⟩ := addOrder_eq_ok done
    rcases List.mem_append.mp member with old | added
    · exact same old
    · rw [List.mem_singleton.mp added, open_] at date
      cases date
  | completeOrder id =>
    rcases completeOrder_eq_ok done with ⟨-,rfl⟩ | ⟨-,item,rfl,-⟩
    · exact same member
    · obtain ⟨before,inside,rfl⟩ := List.mem_map.mp member
      split at date
      · exact .inr (Option.some.inj date).symm
      next other =>
        rw [if_neg other]
        exact .inl ⟨before, inside, rfl, date⟩

end

namespace UserRequest

open Transition

section
variable {e : Engine} {start end_ : Option Int} {db after : Db}

theorem Lines.keeps {orderId : Int} (lines : Lines e orderId db after) :
    after.newOrder = db.newOrder ∧ after.customer = db.customer := by
  induction lines with
  | none => exact ⟨rfl, rfl⟩
  | line ran _ ih =>
    rcases ran.cases with same | ⟨at_,u,compiled,-,done⟩
    · rwa [same] at ih
    · obtain ⟨item,count,rfl⟩ := addOrderedItem_id compiled
      obtain ⟨line,-,-,-,-,-,-,shape⟩ := addOrderedItem_eq_ok done
      rwa [shape] at ih

theorem Lines.sameSales {orderId : Int} (lines : Lines e orderId db after)
    (elsewhere : ∀ o ∈ completedOrders start end_ db, orderId ≠ o.id) : SameSales start end_ db after := by
  induction lines with
  | none => exact .refl _
  | line ran _ ih =>
    rcases ran.cases with same | ⟨at_,u,compiled,-,done⟩
    · rw [same] at ih
      exact ih elsewhere
    · obtain ⟨item,count,rfl⟩ := addOrderedItem_id compiled
      have first : SameSales start end_ _ _ :=
        .addOrderedItem done fun o member same => elsewhere o member (Option.some.inj same)
      obtain ⟨line,-,-,-,-,-,-,shape⟩ := addOrderedItem_eq_ok done
      refine first.trans (ih ?_)
      rw [shape]
      exact elsewhere

theorem handled_sameSales {config : LuaValue} (valid : Integrity e.collation db) (counted : Counted db)
    (handled : Handled e config db after)
    (late : ∀ o ∈ after.newOrder, completedIn start end_ o = true →
      ∃ before ∈ db.newOrder, before.id = o.id ∧ before.dateOfCompletion = o.dateOfCompletion)
    (stays : ∀ o ∈ completedOrders start end_ db, o.customerTel ∈ after.customer.map Customer.telephone) :
    SameSales start end_ db after := by
  have ran {p : Procedure} {args : List String} {effect : Engine.Effect} (ran : Ran e p args db effect)
      (other : p ≠ .addOrderedItem)
      (late : ∀ o ∈ effect.db.newOrder, completedIn start end_ o = true →
        ∃ before ∈ db.newOrder, before.id = o.id ∧ before.dateOfCompletion = o.dateOfCompletion)
      (stays : ∀ o ∈ completedOrders start end_ db,
        o.customerTel ∈ effect.db.customer.map Customer.telephone) : SameSales start end_ db effect.db := by
    rcases ran.cases with same | ⟨at_,u,-,named,done⟩
    · rw [same]
      exact .refl db
    · refine .exec valid done late ?_ stays
      rintro id item count rfl
      exact absurd named.symm other
  cases handled with
  | unchanged => exact .refl db
  | called written ran' => exact ran ran' (by cases written <;> decide) late stays
  | ordered placed =>
    obtain ⟨effect,_,_,placing,lines⟩ := placed
    obtain ⟨orders,customers⟩ := lines.keeps
    rw [orders] at late
    rw [customers] at stays
    refine (ran placing (by decide) late stays).trans (lines.sameSales fun o member => ?_)
    obtain ⟨inside,completed⟩ := List.mem_filter.mp member
    obtain ⟨before,old,key,-⟩ := late o inside completed
    have fresh := valid.freshOrder before old
    have positive := counted.positive before old
    rcases addOrder_insertId placing with none_ | ⟨new,fits⟩
    · omega
    · rw [new, toInt32_of_range (by omega) fits]
      omega
  | rolledBack placed => exact .of_tables rfl rfl rfl rfl rfl

/-- No statement of the request runs before the period is over. -/
def After (end_ : Option Int) (incoming : Incoming) : Prop :=
  ∀ last ∈ end_, ∀ n, last < day (incoming.conditions.occasion n).now

/-- The request deletes no customer with an order completed in the period. -/
def KeepsBuyers (e : Engine) (start end_ : Option Int) (db : Db) (incoming : Incoming) : Prop :=
  ∀ o ∈ completedOrders start end_ db, KeepsCustomer e o.customerTel db incoming

theorem serve_completion (incoming : Incoming) (db : Db) {o : NewOrder}
    (member : o ∈ (serve e incoming db).newOrder) {completed : Int} (date : o.dateOfCompletion = some completed) :
    (∃ before ∈ db.newOrder, before.id = o.id ∧ before.dateOfCompletion = some completed) ∨
      ∃ n, completed = day (incoming.conditions.occasion n).now := by
  have upheld : Upheld e incoming.conditions fun now => ∀ o ∈ now.newOrder, ∀ completed,
      o.dateOfCompletion = some completed →
      (∃ before ∈ db.newOrder, before.id = o.id ∧ before.dateOfCompletion = some completed) ∨
        ∃ n, completed = day (incoming.conditions.occasion n).now := by
    refine ⟨fun {n u before after} done valid o member completed date => ?_, fun _ _ _ valid => valid⟩
    rcases exec_completion done member date with ⟨old,inside,key,same⟩ | today
    · rw [← key]
      exact valid old inside completed same
    · exact .inr ⟨n, today⟩
  exact upheld.serve (fun o member _ date => .inl ⟨o, member, rfl, date⟩) o member completed date

theorem serve_sameSales {incoming : Incoming} (valid : Integrity e.collation db) (counted : Counted db)
    (after : After end_ incoming) (keeps : KeepsBuyers e start end_ db incoming) :
    SameSales start end_ db (serve e incoming db) := by
  rcases serve_handled e incoming db with same | ⟨config,-,handled⟩
  · rw [same]
    exact .refl db
  · refine handled_sameSales valid counted handled (fun o member listed => ?_) fun o member => ?_
    · obtain ⟨completed,date,within⟩ := (Option.any_eq_true ..).mp listed
      rcases serve_completion incoming db member date with ⟨before,inside,key,same⟩ | ⟨n,today⟩
      · exact ⟨before, inside, key, same.trans date.symm⟩
      · simp only [Bool.and_eq_true, Option.any_eq_true, decide_eq_true_eq] at within
        obtain ⟨-,last,bound,upto⟩ := within
        have later := after last bound n
        omega
    · exact keeps o member (valid.orderCustomer o (List.mem_of_mem_filter member))

/-- Once a period is over, the reports on it stay what they are through all further requests
that delete nobody who bought in it. -/
theorem closed_reports_final (e : Engine) (now dateOfExpire : Int) (requests further : List Incoming)
    (start end_ : Option Int) (ended : ∀ incoming ∈ further, After end_ incoming)
    (keeps : Along (serve e) (KeepsBuyers e start end_) further
      (run e requests (installed e.collation now dateOfExpire))) :
    let before := run e requests (installed e.collation now dateOfExpire)
    let after := run e further before
    PcCourse.getCompletedOrders start end_ after = PcCourse.getCompletedOrders start end_ before ∧
    PcCourse.getIncome start end_ after = PcCourse.getIncome start end_ before ∧
    getSellsStatiscticsByDistributors e.collation start end_ after =
      getSellsStatiscticsByDistributors e.collation start end_ before := by
  intro before after
  have origin : Integrity e.collation before ∧ Counted before :=
    ⟨run_integrity e requests (installed_integrity ..), run_counted e requests (installed_counted ..)⟩
  have reached := execute_invariant
    (fun db => (Integrity e.collation db ∧ Counted db) ∧ SameSales start end_ before db)
    (fun db incoming ⟨ended,keeps⟩ ⟨⟨valid,counted⟩,same⟩ => by
      have next := serve_sameSales valid counted ended keeps
      exact ⟨⟨serve_preserves (fun _ _ _ _ handled => handled.integrity) valid,
        serve_preserves (fun _ _ _ _ handled counted => counted.handled handled) counted⟩, same.trans next⟩)
    further before (keeps.and_forall further before ended) ⟨origin, .refl before⟩
  exact reached.2.reports e.collation

/-- The reports up to the day on which the first order is completed, while another customer is
deleted the day after. -/
theorem first_income_final :
    let before := run .standard [completion] (installed Engine.standard.collation 1690000000 20041)
    let after := run .standard [deletionOfAnother] before
    PcCourse.getCompletedOrders (some 19600) (some 19675) after =
      PcCourse.getCompletedOrders (some 19600) (some 19675) before ∧
    PcCourse.getIncome (some 19600) (some 19675) after =
      PcCourse.getIncome (some 19600) (some 19675) before ∧
    getSellsStatiscticsByDistributors Engine.standard.collation (some 19600) (some 19675) after =
      getSellsStatiscticsByDistributors Engine.standard.collation (some 19600) (some 19675) before := by
  have accounts : (installed Engine.standard.collation 1690000000 20041).user = seeded.user ∧
      (installed Engine.standard.collation 1690000000 20041).userRank = seeded.userRank := by
    decide
  have same := serve_completes_keeps .standard (installed Engine.standard.collation 1690000000 20041)
    completion_asks
  have buyers : ∀ o ∈ completedOrders (some 19600) (some 19675) (serve .standard completion
      (installed Engine.standard.collation 1690000000 20041)), o.customerTel = 123 := by
    rw [serve, completion, processRequest_employee completionRequest _ rfl (by decide) rfl rfl
      (by decide) accounts.1 accounts.2]
    decide
  have stays : 123 ∈ (serve .standard deletionOfAnother (serve .standard completion
      (installed Engine.standard.collation 1690000000 20041))).customer.map Customer.telephone := by
    rw [serve, deletionOfAnother, processRequest_employee deletionRequest _ rfl (by decide) rfl rfl
      (by decide) (same.1.trans accounts.1) (same.2.1.trans accounts.2), serve, completion,
      processRequest_employee completionRequest _ rfl (by decide) rfl rfl (by decide) accounts.1
        accounts.2]
    decide
  apply closed_reports_final .standard 1690000000 20041 [completion] [deletionOfAnother]
  · rw [List.forall_mem_singleton]
    rintro last ⟨rfl⟩ n
    change (19675 : Int) < day 1700086400
    decide
  · rw [run_one]
    refine ⟨fun o member _ => ?_, trivial⟩
    rw [buyers o member]
    exact stays

end

end UserRequest
end PcCourse
