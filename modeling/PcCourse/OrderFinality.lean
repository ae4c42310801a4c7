import PcCourse.Handling
import PcCourse.OrderPlacement

/-! What stays of an order once it is completed: its row and its lines, whatever requests
follow. Lines are inserted for the id that a new order gets, or for 0, and a completed
order has neither. -/
namespace PcCourse.UserRequest

open SqlCall Outcome Grouping Transition

/-- The ids that orders have and will get count from 1. -/
structure Counted (db : Db) : Prop where
  positive : ∀ o ∈ db.newOrder, 1 ≤ o.id
  next : 1 ≤ db.next.newOrder

/-- The order is the one row of its id, and these are its lines. -/
structure Final (o : NewOrder) (lines : List OrderedItem) (db : Db) : Prop where
  positive : 1 ≤ o.id
  past : o.id < db.next.newOrder
  row : db.newOrder.filter (fun row => row.id = o.id) = [o]
  lines : db.orderedItem.filter (fun line => line.orderId = o.id) = lines

section
variable {c : Collation} {at_ : Occasion} {u : Update} {db after : Db} {o : NewOrder}
  {lines : List OrderedItem}

theorem addOrder_fits {now : Int} {tel : Option Nat} {expire : Option Int}
    (done : PcCourse.addOrder now tel expire db = .ok after) : db.next.newOrder ≤ intMax := by
  unfold PcCourse.addOrder at done
  split at done
  · cases done
  · simp only [bind_eq_ok, freshId_eq_ok] at done
    obtain ⟨_,⟨-,fits⟩,-⟩ := done
    exact fits

theorem Counted.exec (counted : Counted db) (done : u.exec c at_ db = .ok after) : Counted after := by
  obtain ⟨positive,next⟩ := counted
  cases u with
  | deleteUser login =>
    cases done
    exact ⟨positive, next⟩
  | createUser login pwd sname name pname rank =>
    obtain ⟨l,p,r,-,-,-,-,-,rfl⟩ := createUser_eq_ok done
    exact ⟨positive, next⟩
  | updateUser login sname name pname rank =>
    obtain ⟨r,-,-,rfl⟩ := updateUser_eq_ok done
    exact ⟨positive, next⟩
  | createCustomer tel sname name pname =>
    obtain ⟨t,-,-,rfl⟩ := createCustomer_eq_ok done
    exact ⟨positive, next⟩
  | deleteCustomer tel =>
    cases done
    exact ⟨fun row member => positive row (List.mem_of_mem_filter member), next⟩
  | addItem name cost count distributor type description =>
    obtain ⟨row,-,-,-,-,rfl⟩ := addItem_eq_ok done
    exact ⟨positive, next⟩
  | addItemCount id appended =>
    obtain ⟨item,rfl,-⟩ := addItemCount_eq_ok done
    exact ⟨positive, next⟩
  | addOrderedItem order item count =>
    obtain ⟨line,-,-,-,-,-,-,rfl⟩ := addOrderedItem_eq_ok done
    exact ⟨positive, next⟩
  | addOrder tel expire =>
    obtain ⟨new,fresh,-,-,-,-,-,rfl⟩ := addOrder_eq_ok done
    have first : 1 ≤ new.id := fresh ▸ next
    exact ⟨forall_snoc positive first, Int.le_trans first (Int.le_of_lt (Int.lt_succ _))⟩
  | completeOrder id =>
    rcases completeOrder_eq_ok done with ⟨-,rfl⟩ | ⟨-,item,rfl,-⟩
    · exact ⟨positive, next⟩
    · refine ⟨fun row member => ?_, next⟩
      obtain ⟨before,inside,same,-⟩ := mem_stampOrder member
      exact same ▸ positive before inside

theorem Final.isCompleted (final : Final o lines db) (completed : o.dateOfCompletion.isSome = true) :
    isCompleted (some o.id) db = true := by
  have member : o ∈ db.newOrder.filter (fun row => row.id = o.id) := by
    rw [final.row]
    exact List.mem_singleton_self o
  apply List.any_eq_true.mpr
  exact ⟨o, List.mem_of_mem_filter member, by simp [completed]⟩

theorem Final.eq_of_id (final : Final o lines db) {row : NewOrder} (member : row ∈ db.newOrder)
    (same : row.id = o.id) : row = o := by
  have inside : row ∈ db.newOrder.filter (fun row => row.id = o.id) :=
    List.mem_filter.mpr ⟨member, by simpa using same⟩
  rw [final.row] at inside
  exact List.mem_singleton.mp inside

theorem filter_snoc_other {α : Type} {key : α → Int} {rows : List α} {new : α} {id : Int}
    (other : key new ≠ id) :
    (rows ++ [new]).filter (fun row => key row = id) = rows.filter (fun row => key row = id) := by
  simp [List.filter_append, other]

theorem Final.deleteCustomer (final : Final o lines db) {tel : Option Nat}
    (kept : some o.customerTel ≠ tel) (done : PcCourse.deleteCustomer tel db = .ok after) :
    Final o lines after := by
  cases done
  refine ⟨final.positive, final.past, ?_, ?_⟩
  · dsimp only
    rw [List.filter_comm, final.row]
    simp [kept]
  · dsimp only
    rw [List.filter_comm, final.lines, List.filter_eq_self]
    intro line member
    rw [← final.lines] at member
    obtain ⟨-,ofOrder⟩ := List.mem_filter.mp member
    simp only [Bool.not_eq_true', List.any_eq_false, decide_eq_true_eq, not_and]
    intro row inside same
    rw [final.eq_of_id inside (by simpa [same] using ofOrder)]
    exact kept

theorem Final.stamp (final : Final o lines db) (now : Int) {id : Option Int} (other : some o.id ≠ id) :
    Final o lines (stampOrder now id db) := by
  refine ⟨final.positive, final.past, ?_, final.lines⟩
  have ids : ∀ row : NewOrder,
      (if some row.id = id then { row with dateOfCompletion := some (day now) } else row).id =
        row.id := fun row => by split <;> rfl
  simp only [stampOrder, List.filter_map, Function.comp_def, ids]
  rw [final.row]
  simp [other]

/-- No statement touches a completed order but an insertion of lines for it and the
deletion of its customer. -/
theorem Final.exec (final : Final o lines db) (completed : o.dateOfCompletion.isSome = true)
    (done : u.exec c at_ db = .ok after)
    (elsewhere : ∀ item count, u ≠ .addOrderedItem (some o.id) item count)
    (kept : ∀ tel, u = .deleteCustomer tel → some o.customerTel ≠ tel) : Final o lines after := by
  cases u with
  | deleteUser login =>
    cases done
    exact ⟨final.positive, final.past, final.row, final.lines⟩
  | createUser login pwd sname name pname rank =>
    obtain ⟨l,p,r,-,-,-,-,-,rfl⟩ := createUser_eq_ok done
    exact ⟨final.positive, final.past, final.row, final.lines⟩
  | updateUser login sname name pname rank =>
    obtain ⟨r,-,-,rfl⟩ := updateUser_eq_ok done
    exact ⟨final.positive, final.past, final.row, final.lines⟩
  | createCustomer tel sname name pname =>
    obtain ⟨t,-,-,rfl⟩ := createCustomer_eq_ok done
    exact ⟨final.positive, final.past, final.row, final.lines⟩
  | deleteCustomer tel => exact final.deleteCustomer (kept tel rfl) done
  | addItem name cost count distributor type description =>
    obtain ⟨row,-,-,-,-,rfl⟩ := addItem_eq_ok done
    exact ⟨final.positive, final.past, final.row, final.lines⟩
  | addItemCount id appended =>
    obtain ⟨item,rfl,-⟩ := addItemCount_eq_ok done
    exact ⟨final.positive, final.past, final.row, final.lines⟩
  | addOrderedItem order item count =>
    obtain ⟨line,-,ofOrder,-,-,-,-,rfl⟩ := addOrderedItem_eq_ok done
    have other : line.orderId ≠ o.id := fun same => elsewhere item count (by rw [ofOrder, same])
    exact ⟨final.positive, final.past, final.row, (filter_snoc_other other).trans final.lines⟩
  | addOrder tel expire =>
    obtain ⟨new,fresh,-,-,-,-,-,rfl⟩ := addOrder_eq_ok done
    have past := final.past
    have other : new.id ≠ o.id := by omega
    refine ⟨final.positive, ?_, (filter_snoc_other other).trans final.row, final.lines⟩
    change o.id < new.id + 1
    omega
  | completeOrder id =>
    rcases completeOrder_eq_ok done with ⟨-,rfl⟩ | ⟨uncompleted,item,rfl,-⟩
    · exact final
    · have other : some o.id ≠ id := by
        rintro rfl
        rw [final.isCompleted completed] at uncompleted
        cases uncompleted
      have recounted : Final o lines { db with item } :=
        ⟨final.positive, final.past, final.row, final.lines⟩
      exact recounted.stamp at_.now other

end

section
variable {e : Engine} {p : Procedure} {args : List String} {db after : Db} {effect : Engine.Effect}
  {o : NewOrder} {lines : List OrderedItem}

theorem verbatim_numeral (n : Int) : SqlText.isVerbatim (toString n).toList = true := by
  simpa using isVerbatim_numeral "" (by simp) n

theorem toInt_numeral {column : String} {n : Int} {result : Option Int}
    (read : e.toInt column (.text (toString n)) = .ok result) : result = some n := by
  unfold Engine.toInt Engine.number at read
  simp only [Numeral.toList_toString, Numeral.signed?_ofInt, bind_eq_ok, Except.ok.injEq,
    exists_eq_left'] at read
  split at read
  · exact (pure_eq_ok.mp read).symm
  · cases read

/-- The id in the text of an insertion is the id the procedure gets. -/
theorem addOrderedItem_id {orderId itemId : Int} {countInOrder : Nat} {u : Update}
    (compiled : e.compile db (callText Procedure.addOrderedItem.name [quoted (toString orderId),
      quoted (toString itemId), quoted (toString countInOrder)]) = .ok (.update u)) :
    ∃ item count, u = .addOrderedItem (some orderId) item count := by
  have verbatim : ∀ text ∈ [toString orderId, toString itemId, toString countInOrder],
      SqlText.isVerbatim text.toList = true := by
    simp only [List.forall_mem_cons]
    exact ⟨verbatim_numeral orderId, verbatim_numeral itemId, verbatim_numeral countInOrder,
      List.forall_mem_nil _⟩
  have texts := e.compile_quoted db .addOrderedItem _ verbatim (by simp)
  simp only [List.map_cons, List.map_nil] at texts
  rw [texts] at compiled
  simp only [Engine.bind, bind_eq_ok, pure_eq_ok] at compiled
  obtain ⟨_,value,id,read,_,_,item,_,_,_,count,_,same⟩ := compiled
  cases value
  cases toInt_numeral read
  exact ⟨item, count, (Statement.update.inj same).symm⟩

theorem completeOrder_id {id : Int} {u : Update}
    (compiled : e.compile db (callText Procedure.completeOrder.name [quoted (toString id)]) =
      .ok (.update u)) : u = .completeOrder (some id) := by
  have texts := e.compile_quoted db .completeOrder [toString id]
    (fun text member => List.mem_singleton.mp member ▸ verbatim_numeral id) (by simp)
  simp only [List.map_cons, List.map_nil] at texts
  rw [texts] at compiled
  simp only [Engine.bind, bind_eq_ok, pure_eq_ok] at compiled
  obtain ⟨_,value,_,read,same⟩ := compiled
  cases value
  cases toInt_numeral read
  exact (Statement.update.inj same).symm

/-- An insertion reports the id of the new order or 0, and both survive the conversion. -/
theorem addOrder_insertId (ran : Ran e .addOrder args db effect) :
    toInt32 effect.insertId = 0 ∨
      (effect.insertId = db.next.newOrder ∧ db.next.newOrder ≤ intMax) := by
  obtain ⟨at_,done⟩ := ran
  unfold Engine.exec at done
  split at done
  · cases done
  · cases done
    exact .inl rfl
  next u compiled =>
    have named := Engine.compile_procedure compiled
    split at done
    · cases done
    next after executed =>
      cases done
      cases u with
      | addOrder tel expire =>
        cases e.reportsInsertId with
        | true => exact .inr ⟨rfl, addOrder_fits executed⟩
        | false => exact .inl rfl
      | _ => cases named

theorem toInt32_of_range {n : Int} (low : 0 ≤ n) (high : n ≤ intMax) : toInt32 n = n := by
  unfold toInt32
  unfold intMax at high
  omega

theorem Final.ran (final : Final o lines db) (completed : o.dateOfCompletion.isSome = true)
    (ran : Ran e p args db effect) (elsewhere : p ≠ .addOrderedItem)
    (stays : o.customerTel ∈ effect.db.customer.map Customer.telephone) : Final o lines effect.db := by
  rcases ran.cases with same | ⟨at_,u,-,named,done⟩
  · rwa [same]
  · refine final.exec completed done ?_ ?_
    · rintro item count rfl
      exact elsewhere named.symm
    · rintro tel rfl same
      rw [← Except.ok.inj done] at stays
      obtain ⟨row,member,ofOrder⟩ := List.mem_map.mp stays
      have other := (List.mem_filter.mp member).2
      simp [ofOrder, same] at other

theorem Final.addedLines (final : Final o lines db) (completed : o.dateOfCompletion.isSome = true)
    {orderId : Int} (other : orderId ≠ o.id) (added : Lines e orderId db after) :
    Final o lines after := by
  induction added with
  | none => exact final
  | line ran _ ih =>
    apply ih
    rcases ran.cases with same | ⟨at_,u,compiled,-,done⟩
    · rwa [same]
    · obtain ⟨item,count,rfl⟩ := addOrderedItem_id compiled
      refine final.exec completed done ?_ ?_
      · intro item' count' same
        cases same
        exact other rfl
      · intro tel same
        cases same

/-- A new order has another id, and so have its lines. -/
theorem Final.placed (final : Final o lines db) (completed : o.dateOfCompletion.isSome = true)
    (placed : Placed e db after) : Final o lines after := by
  obtain ⟨effect,_,_,ran,added⟩ := placed
  have positive := final.positive
  have past := final.past
  have other : toInt32 effect.insertId ≠ o.id := by
    rcases addOrder_insertId ran with none_ | ⟨new,fits⟩
    · rw [none_]
      omega
    · rw [new, toInt32_of_range (by omega) fits]
      omega
  have inserted : Final o lines effect.db := by
    rcases ran.cases with same | ⟨at_,u,-,named,done⟩
    · rwa [same]
    · refine final.exec completed done ?_ ?_
      · rintro item count rfl
        cases named
      · rintro tel rfl
        cases named
  exact inserted.addedLines completed other added

theorem Final.handled (final : Final o lines db) (completed : o.dateOfCompletion.isSome = true)
    {config : LuaValue} (handled : Handled e config db after)
    (stays : o.customerTel ∈ after.customer.map Customer.telephone) : Final o lines after := by
  cases handled with
  | unchanged => exact final
  | called written ran => exact final.ran completed ran (by cases written <;> simp) stays
  | ordered placed => exact final.placed completed placed
  | rolledBack placed =>
    exact ⟨final.positive, Int.lt_of_lt_of_le final.past placed.noLater.newOrder, final.row, final.lines⟩

theorem Counted.ran (counted : Counted db) (ran : Ran e p args db effect) : Counted effect.db := by
  rcases ran.cases with same | ⟨at_,u,-,-,done⟩
  · rwa [same]
  · exact counted.exec done

theorem Counted.handled (counted : Counted db) {config : LuaValue}
    (handled : Handled e config db after) : Counted after :=
  handled.preserves (fun _ ran counted => counted.ran ran)
    (fun later counted => ⟨counted.positive, Int.le_trans counted.next later.newOrder⟩) counted

end

def KeepsCustomer (e : Engine) (tel : Nat) (db : Db) (incoming : Incoming) : Prop :=
  tel ∈ db.customer.map Customer.telephone →
    tel ∈ (serve e incoming db).customer.map Customer.telephone

def Completes (id : Int) (incoming : Incoming) : Prop :=
  ∃ config, incoming.config = some config ∧
    config.getRawString "request" = some "complete_order" ∧ config.getRawInt "order_id" = some id

theorem installed_counted (c : Collation) (now dateOfExpire : Int) :
    Counted (installed c now dateOfExpire) :=
  execute_preserves Counted
    (fun db u counted => by
      unfold Update.apply
      cases done : u.exec c ⟨now, .first⟩ db with
      | ok after => exact counted.exec done
      | error fault => exact counted)
    _ _ ⟨fun o member => absurd member List.not_mem_nil, Int.le_refl 1⟩

theorem run_counted (e : Engine) (requests : List Incoming) {db : Db} (counted : Counted db) :
    Counted (run e requests db) :=
  execute_preserves Counted
    (fun _ _ counted => serve_preserves (fun _ _ _ _ handled counted => counted.handled handled) counted)
    requests db counted

/-- A completion is the update of its order, or changes nothing. -/
theorem serve_completes {e : Engine} {db : Db} {id : Int} {incoming : Incoming}
    (asks : Completes id incoming) : serve e incoming db = db ∨
      ∃ at_, (Update.completeOrder (some id)).exec e.collation at_ db = .ok (serve e incoming db) := by
  obtain ⟨config,parsed,named,order⟩ := asks
  have handler : serve e incoming db =
      (completeOrder e incoming.conditions config (.opening db)).session.db := by
    rw [serve, parsed, processRequest_of_name named (by decide) (lookup_completeOrder e _)]
  rw [handler]
  rcases completeOrder_db with same | ⟨id',effect,read,ran,same⟩
  · exact .inl same
  · rw [same]
    cases order.symm.trans read
    rcases ran.cases with kept | ⟨at_,u,compiled,-,done⟩
    · exact .inl kept
    · rw [completeOrder_id compiled] at done
      exact .inr ⟨at_, done⟩

/-- A completion leaves the accounts and the customers alone. -/
theorem serve_completes_keeps (e : Engine) (db : Db) {id : Int} {incoming : Incoming}
    (asks : Completes id incoming) : (serve e incoming db).user = db.user ∧
      (serve e incoming db).userRank = db.userRank ∧ (serve e incoming db).customer = db.customer := by
  rcases serve_completes asks with same | ⟨at_,done⟩
  · rw [same]
    exact ⟨rfl, rfl, rfl⟩
  · rcases completeOrder_eq_ok done with ⟨-,same⟩ | ⟨-,item,written,-⟩
    · rw [same]
      exact ⟨rfl, rfl, rfl⟩
    · rw [written]
      exact ⟨rfl, rfl, rfl⟩

theorem Final.completes {e : Engine} {o : NewOrder} {lines : List OrderedItem} {db : Db}
    (final : Final o lines db) (completed : o.dateOfCompletion.isSome = true) {incoming : Incoming}
    (again : Completes o.id incoming) : serve e incoming db = db := by
  rcases serve_completes again with same | ⟨at_,done⟩
  · exact same
  · rcases completeOrder_eq_ok done with ⟨-,kept⟩ | ⟨uncompleted,-⟩
    · exact kept
    · have both : true = false := (final.isCompleted completed).symm.trans uncompleted
      cases both

/-- From `db.sql` on, after any requests, a completed order keeps its row and its lines
through all further requests that do not delete its customer, and completing it again
changes nothing. -/
theorem completed_orders_final (e : Engine) (now dateOfExpire : Int) (requests further : List Incoming)
    (o : NewOrder) (stored : o ∈ (run e requests (installed e.collation now dateOfExpire)).newOrder)
    (completed : o.dateOfCompletion.isSome = true)
    (kept : Along (serve e) (KeepsCustomer e o.customerTel) further
      (run e requests (installed e.collation now dateOfExpire))) :
    let before := run e requests (installed e.collation now dateOfExpire)
    let after := run e further before
    after.newOrder.filter (fun row => row.id = o.id) = [o] ∧
    after.orderedItem.filter (fun line => line.orderId = o.id) =
      before.orderedItem.filter (fun line => line.orderId = o.id) ∧
    ∀ incoming, Completes o.id incoming → serve e incoming after = after := by
  intro before after
  have valid : Integrity e.collation before := run_integrity e requests (installed_integrity ..)
  have counted : Counted before := run_counted e requests (installed_counted ..)
  have start : Final o (before.orderedItem.filter fun line => line.orderId = o.id) before :=
    ⟨counted.positive o stored, valid.freshOrder o stored, filter_key valid.orders stored, rfl⟩
  -- Along the run the order stays final and its customer stays.
  have reached := execute_invariant
    (fun db => Final o (before.orderedItem.filter fun line => line.orderId = o.id) db ∧
      o.customerTel ∈ db.customer.map Customer.telephone)
    (fun db incoming keeps ⟨final,customer⟩ => by
      have stays := keeps customer
      refine ⟨?_, stays⟩
      rcases serve_handled e incoming db with same | ⟨config,-,handled⟩
      · rwa [same]
      · exact final.handled completed handled stays)
    further before kept ⟨start, valid.orderCustomer o stored⟩
  exact ⟨reached.1.row, reached.1.lines, fun incoming again => reached.1.completes completed again⟩

def completion : Incoming := ⟨.calm 1700000000, some completionRequest⟩

theorem completion_asks : Completes 1 completion := ⟨completionRequest, rfl, rfl, rfl⟩

def deletionRequest : LuaValue :=
  .table [("request", .str "delete_customer"), ("user", employee),
    ("delete_customer_telephone", .int 456)] []

def deletionOfAnother : Incoming := ⟨.calm 1700086400, some deletionRequest⟩

def completedOrder : NewOrder := ⟨1, 123, 19560, 20041, some 19675⟩

theorem first_order_final :
    let before := run .standard [completion] (installed Engine.standard.collation 1690000000 20041)
    let after := run .standard [deletionOfAnother, completion] before
    after.newOrder.filter (fun row => row.id = completedOrder.id) = [completedOrder] ∧
    after.orderedItem.filter (fun line => line.orderId = completedOrder.id) =
      before.orderedItem.filter (fun line => line.orderId = completedOrder.id) ∧
    ∀ incoming, Completes completedOrder.id incoming → serve .standard incoming after = after := by
  have accounts : (installed Engine.standard.collation 1690000000 20041).user = seeded.user ∧
      (installed Engine.standard.collation 1690000000 20041).userRank = seeded.userRank := by
    decide
  have same := serve_completes_keeps .standard (installed Engine.standard.collation 1690000000 20041)
    completion_asks
  have stored : completedOrder ∈ (run .standard [completion]
      (installed Engine.standard.collation 1690000000 20041)).newOrder := by
    rw [run_one, serve, completion, processRequest_employee completionRequest _ rfl (by decide) rfl rfl
      (by decide) accounts.1 accounts.2]
    decide
  have stays : 123 ∈ (serve .standard deletionOfAnother (serve .standard completion
      (installed Engine.standard.collation 1690000000 20041))).customer.map Customer.telephone := by
    rw [serve, deletionOfAnother, processRequest_employee deletionRequest _ rfl (by decide) rfl rfl
      (by decide) (same.1.trans accounts.1) (same.2.1.trans accounts.2), serve, completion,
      processRequest_employee completionRequest _ rfl (by decide) rfl rfl (by decide) accounts.1
        accounts.2]
    decide
  have kept : Along (serve .standard) (KeepsCustomer .standard completedOrder.customerTel)
      [deletionOfAnother, completion] (run .standard [completion]
        (installed Engine.standard.collation 1690000000 20041)) := by
    rw [run_one]
    refine ⟨fun _ => stays, fun customer => ?_, trivial⟩
    rwa [(serve_completes_keeps _ _ completion_asks).2.2]
  exact completed_orders_final .standard 1690000000 20041 [completion] [deletionOfAnother, completion]
    completedOrder stored rfl kept

end PcCourse.UserRequest
