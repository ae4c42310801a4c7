import PcCourse.Procedures
import PcCourse.Outcome

/-! Primary keys, foreign keys and AUTO_INCREMENT counters as one invariant of the
state, and what each changing procedure does when it succeeds. -/
namespace PcCourse

open Grouping Outcome

structure Integrity (c : Collation) (db : Db) : Prop where
  ranks : (db.userRank.map UserRank.id).Nodup
  users : db.user.Pairwise fun a b => c.same a.login b.login = false
  customers : (db.customer.map Customer.telephone).Nodup
  orders : (db.newOrder.map NewOrder.id).Nodup
  distributors : (db.distributor.map Distributor.id).Nodup
  types : (db.itemType.map ItemType.id).Nodup
  items : (db.item.map Item.id).Nodup
  lines : (db.orderedItem.map OrderedItem.id).Nodup
  freshOrder : ∀ o ∈ db.newOrder, o.id < db.next.newOrder
  freshItem : ∀ row ∈ db.item, row.id < db.next.item
  freshLine : ∀ line ∈ db.orderedItem, line.id < db.next.orderedItem
  userRank : ∀ u ∈ db.user, u.rank ∈ db.userRank.map UserRank.id
  orderCustomer : ∀ o ∈ db.newOrder, o.customerTel ∈ db.customer.map Customer.telephone
  itemDistributor : ∀ row ∈ db.item, row.distributorId ∈ db.distributor.map Distributor.id
  itemType : ∀ row ∈ db.item, row.typeId ∈ db.itemType.map ItemType.id
  lineItem : ∀ line ∈ db.orderedItem, line.itemId ∈ db.item.map Item.id
  lineOrder : ∀ line ∈ db.orderedItem, line.orderId ∈ db.newOrder.map NewOrder.id

theorem schema_integrity (c : Collation) : Integrity c schema := by
  constructor <;> simp [schema]

/-- Two rows with one id are one row. -/
theorem eq_of_id {α κ : Type} {key : α → κ} {rows : List α} (unique : (rows.map key).Nodup)
    {a b : α} (ha : a ∈ rows) (hb : b ∈ rows) (same : key a = key b) : a = b :=
  List.inj_on_of_nodup_map unique ha hb same

section
variable {α : Type} {rows : List α} {new : α}

/-- A row inserted after the others keeps what holds of each. -/
theorem forall_snoc {p : α → Prop} (old : ∀ row ∈ rows, p row) (last : p new) :
    ∀ row ∈ rows ++ [new], p row := by
  intro row member
  rcases List.mem_append.mp member with before | added
  · exact old row before
  · exact List.mem_singleton.mp added ▸ last

theorem nodup_snoc {κ : Type} {key : α → κ} (unique : (rows.map key).Nodup)
    (fresh : key new ∉ rows.map key) : ((rows ++ [new]).map key).Nodup := by
  rw [List.map_append, List.nodup_append]
  refine ⟨unique, List.nodup_singleton _, ?_⟩
  intro a member b added same
  exact fresh (by simpa [same, List.mem_singleton.mp added] using member)

/-- A key above all others is new. -/
theorem fresh_of_lt {key : α → Int} (later : ∀ row ∈ rows, key row < key new) :
    key new ∉ rows.map key := by
  intro member
  obtain ⟨row,inside,same⟩ := List.mem_map.mp member
  exact Int.lt_irrefl _ (same ▸ later row inside)

theorem mem_map_snoc {κ : Type} {key : α → κ} {k : κ} (member : k ∈ rows.map key) :
    k ∈ (rows ++ [new]).map key := by
  rw [List.map_append]
  exact List.mem_append_left _ member

end

@[simp] theorem notNull_eq_ok {α : Type} {column : String} {value : Option α} {result : α} :
    notNull column value = .ok result ↔ value = some result := by
  cases value <;> simp [notNull, eq_comm]

@[simp] theorem freshId_eq_ok {next id : Int} :
    freshId next = .ok id ↔ id = next ∧ next ≤ intMax := by
  unfold freshId
  split
  · next fits => simp [fits, eq_comm]
  · next full => simp [full]

@[simp] theorem storeUnsigned_eq_ok {column : String} {value : Int} {result : Nat} :
    storeUnsigned column value = .ok result ↔ (result : Int) = value ∧ result ≤ unsignedMax := by
  unfold storeUnsigned
  split
  · simp; omega
  · simp; omega

/-- The trigger never rejects a row: the column is unsigned. -/
@[simp] theorem completeOrderCheck_eq (new : Item) : completeOrderCheck new = .ok new := by
  simp [completeOrderCheck]

theorem updateCount_eq_ok {row after : Item} {count : Int} :
    updateCount row count = .ok after ↔
      (after.countOnWarehouse : Int) = count ∧ after.countOnWarehouse ≤ unsignedMax ∧
      after = { row with countOnWarehouse := after.countOnWarehouse } := by
  unfold updateCount
  cases stored : storeUnsigned "count_on_warehouse" count with
  | error e =>
    have refused : ∀ n : Nat, ¬((n : Int) = count ∧ n ≤ unsignedMax) := by
      intro n fits
      have accepted : storeUnsigned "count_on_warehouse" count = .ok n := storeUnsigned_eq_ok.mpr fits
      rw [stored] at accepted
      cases accepted
    simp only [bind, Except.bind, reduceCtorEq, false_iff]
    exact fun h => refused _ ⟨h.1, h.2.1⟩
  | ok n =>
    obtain ⟨value,bound⟩ := storeUnsigned_eq_ok.mp stored
    simp only [bind, Except.bind, completeOrderCheck_eq, Except.ok.injEq]
    constructor
    · rintro rfl
      exact ⟨value, bound, rfl⟩
    · rintro ⟨same,-,shape⟩
      have : after.countOnWarehouse = n := by omega
      rw [shape, this]

section
variable {c : Collation} {db after : Db}

theorem createUser_eq_ok {login pwd sname name pname : Option String} {rank : Option Int}
    (done : createUser c login pwd sname name pname rank db = .ok after) :
    ∃ l p r, login = some l ∧ pwd = some p ∧ rank = some r ∧
      (∀ u ∈ db.user, c.same u.login l = false) ∧ r ∈ db.userRank.map UserRank.id ∧
      after = { db with user := db.user ++ [⟨l,p,sname,name,pname,r⟩] } := by
  unfold createUser at done
  split at done
  · cases done
  split at done
  · cases done
  next fresh known =>
    simp only [bind_eq_ok, notNull_eq_ok, pure_eq_ok] at done
    obtain ⟨l,rfl,p,rfl,r,rfl,rfl⟩ := done
    refine ⟨l,p,r,rfl,rfl,rfl,?_,?_,rfl⟩
    · simpa using fresh
    · simpa using known

theorem updateUser_eq_ok {login sname name pname : Option String} {rank : Option Int}
    (done : updateUser c login sname name pname rank db = .ok after) :
    ∃ r, rank = some r ∧ r ∈ db.userRank.map UserRank.id ∧
      after = { db with
        user := db.user.map fun u =>
          if login.any (c.same u.login) then { u with sname, name, pname, rank := r } else u } := by
  unfold updateUser at done
  split at done
  · cases done
  next known =>
    simp only [bind_eq_ok, notNull_eq_ok, pure_eq_ok] at done
    obtain ⟨r,rfl,rfl⟩ := done
    exact ⟨r, rfl, by simpa using known, rfl⟩

theorem createCustomer_eq_ok {tel : Option Nat} {sname name pname : Option String}
    (done : createCustomer tel sname name pname db = .ok after) :
    ∃ t, tel = some t ∧ t ∉ db.customer.map Customer.telephone ∧
      after = { db with customer := db.customer ++ [⟨t,sname,name,pname⟩] } := by
  unfold createCustomer at done
  split at done
  · cases done
  next fresh =>
    simp only [bind_eq_ok, notNull_eq_ok, pure_eq_ok] at done
    obtain ⟨t,rfl,rfl⟩ := done
    exact ⟨t, rfl, by simpa using fresh, rfl⟩

theorem addItem_eq_ok {name : Option String} {cost : Option Decimal} {count : Option Nat}
    {distributor type : Option Int} {description : Option String}
    (done : addItem name cost count distributor type description db = .ok after) :
    ∃ row : Item, row.id = db.next.item ∧ count = some row.countOnWarehouse ∧
      row.distributorId ∈ db.distributor.map Distributor.id ∧
      row.typeId ∈ db.itemType.map ItemType.id ∧
      after = { db with item := db.item ++ [row], next := { db.next with item := row.id + 1 } } := by
  unfold addItem at done
  split at done
  · cases done
  split at done
  · cases done
  next knownDistributor knownType =>
    simp only [bind_eq_ok, notNull_eq_ok, pure_eq_ok, freshId_eq_ok, storeUnsigned_eq_ok] at done
    obtain ⟨id,⟨rfl,-⟩,n,rfl,cost,rfl,count,rfl,stored,⟨same,-⟩,d,rfl,t,rfl,text,rfl,rfl⟩ := done
    have same : stored = count := by omega
    subst same
    refine ⟨_,rfl,rfl,?_,?_,rfl⟩
    · simpa using knownDistributor
    · simpa using knownType

theorem addOrderedItem_eq_ok {order item : Option Int} {count : Option Nat}
    (done : addOrderedItem order item count db = .ok after) :
    ∃ line : OrderedItem, line.id = db.next.orderedItem ∧ order = some line.orderId ∧
      item = some line.itemId ∧ count = some line.countInOrder ∧
      line.itemId ∈ db.item.map Item.id ∧ line.orderId ∈ db.newOrder.map NewOrder.id ∧
      after = { db with
        orderedItem := db.orderedItem ++ [line]
        next := { db.next with orderedItem := line.id + 1 } } := by
  unfold addOrderedItem at done
  split at done
  · cases done
  next knownItem =>
    simp only [bind_eq_ok, notNull_eq_ok, freshId_eq_ok, storeUnsigned_eq_ok] at done
    obtain ⟨id,⟨rfl,-⟩,i,rfl,o,rfl,n,rfl,stored,⟨same,-⟩,inserted⟩ := done
    have same : stored = n := by omega
    subst same
    split at inserted
    · cases inserted
    next knownOrder =>
      rw [pure_eq_ok] at inserted
      refine ⟨⟨_,i,o,stored⟩,rfl,rfl,rfl,rfl,?_,?_,inserted.symm⟩
      · simpa using knownItem
      · simpa using knownOrder

theorem addOrder_eq_ok {now : Int} {tel : Option Nat} {expire : Option Int}
    (done : addOrder now tel expire db = .ok after) :
    ∃ o : NewOrder, o.id = db.next.newOrder ∧ tel = some o.customerTel ∧
      expire = some o.dateOfExpire ∧ o.dateOfStart = day now ∧ o.dateOfCompletion = none ∧
      o.customerTel ∈ db.customer.map Customer.telephone ∧
      after = { db with
        newOrder := db.newOrder ++ [o]
        next := { db.next with newOrder := o.id + 1 } } := by
  unfold addOrder at done
  split at done
  · cases done
  next known =>
    simp only [bind_eq_ok, notNull_eq_ok, pure_eq_ok, freshId_eq_ok] at done
    obtain ⟨id,⟨rfl,-⟩,t,rfl,e,rfl,rfl⟩ := done
    exact ⟨⟨_,t,_,e,none⟩, rfl, rfl, rfl, rfl, rfl, by simpa using known, rfl⟩

/-- The rows after an update of counts, each with the change of its count. -/
def Recounted (change : Int → Int) (rows updated : List Item) : Prop :=
  List.Forall₂ (fun row new => new = { row with countOnWarehouse := new.countOnWarehouse } ∧
    (new.countOnWarehouse : Int) = row.countOnWarehouse + change row.id) rows updated

/-- An update of counts keeps every other column. -/
theorem Recounted.column {change : Int → Int} {rows updated : List Item} {κ : Type}
    {column : Item → κ} (kept : ∀ row n, column { row with countOnWarehouse := n } = column row)
    (h : Recounted change rows updated) : updated.map column = rows.map column := by
  induction h with
  | nil => rfl
  | cons head _ ih =>
    rw [List.map_cons, List.map_cons, ih, head.1, kept]

theorem Recounted.origin {change : Int → Int} {rows updated : List Item}
    (h : Recounted change rows updated) {new : Item} (member : new ∈ updated) :
    ∃ row ∈ rows, new = { row with countOnWarehouse := new.countOnWarehouse } ∧
      (new.countOnWarehouse : Int) = row.countOnWarehouse + change row.id := by
  induction h with
  | nil => simp at member
  | cons head _ ih =>
    rcases List.mem_cons.mp member with rfl | later
    · exact ⟨_, List.mem_cons_self, head⟩
    · obtain ⟨row,inside,facts⟩ := ih later
      exact ⟨row, List.mem_cons_of_mem _ inside, facts⟩

theorem Recounted.image {change : Int → Int} {rows updated : List Item}
    (h : Recounted change rows updated) {row : Item} (member : row ∈ rows) :
    ∃ new ∈ updated, new = { row with countOnWarehouse := new.countOnWarehouse } ∧
      (new.countOnWarehouse : Int) = row.countOnWarehouse + change row.id := by
  induction h with
  | nil => simp at member
  | cons head _ ih =>
    rcases List.mem_cons.mp member with rfl | later
    · exact ⟨_, List.mem_cons_self, head⟩
    · obtain ⟨new,inside,facts⟩ := ih later
      exact ⟨new, List.mem_cons_of_mem _ inside, facts⟩

theorem addItemCount_row {id appended : Option Int} {row new : Item}
    (done : (if some row.id = id then do
        let appended ← notNull "count_on_warehouse" appended
        updateCount row (row.countOnWarehouse + appended)
      else .ok row) = .ok new) :
    new = { row with countOnWarehouse := new.countOnWarehouse } ∧
    (new.countOnWarehouse : Int) =
      row.countOnWarehouse + (if some row.id = id then appended.getD 0 else 0) := by
  split at done
  next hit =>
    simp only [bind_eq_ok, notNull_eq_ok, updateCount_eq_ok] at done
    obtain ⟨n,rfl,value,-,shape⟩ := done
    exact ⟨shape, by simpa [hit] using value⟩
  next miss =>
    cases done
    exact ⟨rfl, by simp [miss]⟩

theorem addItemCount_eq_ok {id appended : Option Int}
    (done : addItemCount id appended db = .ok after) :
    ∃ item, after = { db with item } ∧
      Recounted (fun i => if some i = id then appended.getD 0 else 0) db.item item := by
  unfold addItemCount at done
  simp only [bind_eq_ok, pure_eq_ok] at done
  obtain ⟨item,updated,rfl⟩ := done
  exact ⟨item, rfl, (mapM_eq_ok.mp updated).imp fun _ _ h => addItemCount_row h⟩

/-- What the row of `tbl` with its id takes from an item. -/
def taken (pick : Pick Line) (id : Option Int) (db : Db) (item : Int) : Nat :=
  match (completionTable pick id db).find? (fun entry => entry.1 = item) with
  | none => 0
  | some entry => entry.2

theorem subtractOrder_eq_ok {pick : Pick Line} {id : Option Int}
    (done : subtractOrder pick id db = .ok after) :
    ∃ item, after = { db with item } ∧
      Recounted (fun i => -(taken pick id db i : Int)) db.item item := by
  unfold subtractOrder at done
  simp only [bind_eq_ok, pure_eq_ok] at done
  obtain ⟨item,updated,rfl⟩ := done
  refine ⟨item, rfl, (mapM_eq_ok.mp updated).imp fun row new h => ?_⟩
  cases found : (completionTable pick id db).find? (fun entry => entry.1 = row.id) with
  | none =>
    simp only [found, Except.ok.injEq] at h
    subst h
    exact ⟨rfl, by simp [taken, found]⟩
  | some entry =>
    simp only [found] at h
    obtain ⟨value,-,shape⟩ := updateCount_eq_ok.mp h
    exact ⟨shape, by simpa [taken, found, Int.sub_eq_add_neg] using value⟩

theorem completeOrder_eq_ok {at_ : Occasion} {id : Option Int}
    (done : completeOrder at_ id db = .ok after) :
    (isCompleted id db = true ∧ after = db) ∨
    (isCompleted id db = false ∧ ∃ item, after = stampOrder at_.now id { db with item } ∧
      Recounted (fun i => -(taken at_.pick id db i : Int)) db.item item) := by
  unfold completeOrder at done
  split at done
  next completed =>
    cases done
    exact .inl ⟨completed, rfl⟩
  next uncompleted =>
    simp only [bind_eq_ok, pure_eq_ok] at done
    obtain ⟨middle,subtracted,rfl⟩ := done
    obtain ⟨item,rfl,counts⟩ := subtractOrder_eq_ok subtracted
    exact .inr ⟨by simpa using uncompleted, item, rfl, counts⟩

end

section
variable {c : Collation} {db : Db}

theorem Integrity.recount (valid : Integrity c db) {change : Int → Int} {item : List Item}
    (counts : Recounted change db.item item) : Integrity c { db with item } := by
  have ids : item.map Item.id = db.item.map Item.id := counts.column fun _ _ => rfl
  refine { valid with items := ?_, freshItem := ?_, itemDistributor := ?_, itemType := ?_, lineItem := ?_ }
  · simpa [ids] using valid.items
  · intro new member
    obtain ⟨row,inside,shape,-⟩ := counts.origin member
    rw [shape]
    exact valid.freshItem row inside
  · intro new member
    obtain ⟨row,inside,shape,-⟩ := counts.origin member
    rw [shape]
    exact valid.itemDistributor row inside
  · intro new member
    obtain ⟨row,inside,shape,-⟩ := counts.origin member
    rw [shape]
    exact valid.itemType row inside
  · intro line member
    simpa [ids] using valid.lineItem line member

theorem stampOrder_ids (now : Int) (id : Option Int) (db : Db) :
    (stampOrder now id db).newOrder.map NewOrder.id = db.newOrder.map NewOrder.id := by
  simp only [stampOrder, List.map_map]
  apply List.map_congr_left
  intro o _
  simp only [Function.comp_apply]
  split <;> rfl

theorem mem_stampOrder {now : Int} {id : Option Int} {o : NewOrder}
    (member : o ∈ (stampOrder now id db).newOrder) :
    ∃ before ∈ db.newOrder, o.id = before.id ∧ o.customerTel = before.customerTel := by
  simp only [stampOrder, List.mem_map] at member
  obtain ⟨before,inside,rfl⟩ := member
  refine ⟨before, inside, ?_⟩
  split <;> exact ⟨rfl, rfl⟩

theorem Integrity.stamp (valid : Integrity c db) (now : Int) (id : Option Int) :
    Integrity c (stampOrder now id db) := by
  refine { valid with orders := ?_, freshOrder := ?_, orderCustomer := ?_, lineOrder := ?_ }
  · rw [stampOrder_ids]
    exact valid.orders
  · intro o member
    obtain ⟨before,inside,same,-⟩ := mem_stampOrder member
    exact same ▸ valid.freshOrder before inside
  · intro o member
    obtain ⟨before,inside,-,same⟩ := mem_stampOrder member
    exact same ▸ valid.orderCustomer before inside
  · intro line member
    rw [stampOrder_ids]
    exact valid.lineOrder line member

theorem Integrity.deleteCustomer (valid : Integrity c db) (tel : Option Nat) {after : Db}
    (done : deleteCustomer tel db = .ok after) : Integrity c after := by
  cases done
  refine { valid with
    customers := valid.customers.sublist (List.filter_sublist.map _)
    orders := valid.orders.sublist (List.filter_sublist.map _)
    lines := valid.lines.sublist (List.filter_sublist.map _)
    freshOrder := fun o member => valid.freshOrder o (List.mem_of_mem_filter member)
    freshLine := fun line member => valid.freshLine line (List.mem_of_mem_filter member)
    lineItem := fun line member => valid.lineItem line (List.mem_of_mem_filter member)
    orderCustomer := ?_, lineOrder := ?_ }
  · intro o member
    simp only [List.mem_filter, decide_eq_true_eq] at member
    obtain ⟨row,inside,same⟩ := List.mem_map.mp (valid.orderCustomer o member.1)
    apply List.mem_map.mpr
    exact ⟨row, by simpa [inside, same] using member.2, same⟩
  · intro line member
    simp only [List.mem_filter, Bool.not_eq_true', List.any_eq_false] at member
    obtain ⟨o,inside,same⟩ := List.mem_map.mp (valid.lineOrder line member.1)
    have kept := member.2 o inside
    apply List.mem_map.mpr
    exact ⟨o, by simpa [inside, same] using kept, same⟩

/-- Every call keeps the keys: those it does not check itself the engine checks, and
the cascade of a deletion removes what refers to the deleted rows. -/
theorem Update.exec_integrity (valid : Integrity c db) {at_ : Occasion} {u : Update} {after : Db}
    (done : u.exec c at_ db = .ok after) : Integrity c after := by
  cases u with
  | deleteUser login =>
    cases done
    refine { valid with users := valid.users.sublist List.filter_sublist, userRank := ?_ }
    exact fun u member => valid.userRank u (List.mem_of_mem_filter member)
  | createUser login pwd sname name pname rank =>
    obtain ⟨l,p,r,-,-,-,fresh,known,rfl⟩ := createUser_eq_ok done
    refine { valid with users := ?_, userRank := ?_ }
    · rw [List.pairwise_append]
      exact ⟨valid.users, List.pairwise_singleton .., by simpa using fresh⟩
    · exact forall_snoc valid.userRank known
  | updateUser login sname name pname rank =>
    obtain ⟨r,-,known,rfl⟩ := updateUser_eq_ok done
    refine { valid with users := ?_, userRank := ?_ }
    · rw [List.pairwise_map]
      refine valid.users.imp fun {a b} apart => ?_
      split <;> split <;> exact apart
    · intro u member
      obtain ⟨before,inside,rfl⟩ := List.mem_map.mp member
      split
      · exact known
      · exact valid.userRank before inside
  | createCustomer tel sname name pname =>
    obtain ⟨t,-,fresh,rfl⟩ := createCustomer_eq_ok done
    exact { valid with
      customers := nodup_snoc valid.customers fresh
      orderCustomer := fun o member => mem_map_snoc (valid.orderCustomer o member) }
  | deleteCustomer tel => exact valid.deleteCustomer tel done
  | addItem name cost count distributor type description =>
    obtain ⟨row,fresh,-,knownDistributor,knownType,rfl⟩ := addItem_eq_ok done
    have later : ∀ old ∈ db.item, old.id < row.id := fun old member => fresh ▸ valid.freshItem old member
    exact { valid with
      items := nodup_snoc valid.items (fresh_of_lt later)
      freshItem := forall_snoc (fun old member => Int.lt_trans (later old member) (Int.lt_succ _)) (Int.lt_succ _)
      itemDistributor := forall_snoc valid.itemDistributor knownDistributor
      itemType := forall_snoc valid.itemType knownType
      lineItem := fun line member => mem_map_snoc (valid.lineItem line member) }
  | addItemCount id appended =>
    obtain ⟨item,rfl,counts⟩ := addItemCount_eq_ok done
    exact valid.recount counts
  | addOrderedItem order item count =>
    obtain ⟨line,fresh,-,-,-,knownItem,knownOrder,rfl⟩ := addOrderedItem_eq_ok done
    have later : ∀ old ∈ db.orderedItem, old.id < line.id :=
      fun old member => fresh ▸ valid.freshLine old member
    exact { valid with
      lines := nodup_snoc valid.lines (fresh_of_lt later)
      freshLine := forall_snoc (fun old member => Int.lt_trans (later old member) (Int.lt_succ _)) (Int.lt_succ _)
      lineItem := forall_snoc valid.lineItem knownItem
      lineOrder := forall_snoc valid.lineOrder knownOrder }
  | addOrder tel expire =>
    obtain ⟨o,fresh,-,-,-,-,known,rfl⟩ := addOrder_eq_ok done
    have later : ∀ old ∈ db.newOrder, old.id < o.id := fun old member => fresh ▸ valid.freshOrder old member
    exact { valid with
      orders := nodup_snoc valid.orders (fresh_of_lt later)
      freshOrder := forall_snoc (fun old member => Int.lt_trans (later old member) (Int.lt_succ _)) (Int.lt_succ _)
      orderCustomer := forall_snoc valid.orderCustomer known
      lineOrder := fun line member => mem_map_snoc (valid.lineOrder line member) }
  | completeOrder id =>
    rcases completeOrder_eq_ok done with ⟨-,rfl⟩ | ⟨-,item,rfl,counts⟩
    · exact valid
    · exact (valid.recount counts).stamp at_.now id

theorem Update.apply_integrity (valid : Integrity c db) (at_ : Occasion) (u : Update) :
    Integrity c (u.apply c at_ db) := by
  unfold Update.apply
  cases outcome : u.exec c at_ db with
  | ok after => exact Update.exec_integrity valid outcome
  | error e => exact valid

end

end PcCourse
