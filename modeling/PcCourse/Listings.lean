import PcCourse.Queries
import PcCourse.Integrity
import PcCourse.Transition

/-! The listings of a state with its keys in order: the inner joins neither lose nor repeat a
row. -/
namespace PcCourse

open Grouping

section
variable {c : Collation} {db : Db}

theorem usersWithRanks_fst (valid : Integrity c db) :
    (join (fun u r => u.rank = r.id) db.user db.userRank).map Prod.fst = db.user :=
  join_key_fst valid.ranks valid.userRank

theorem ordersOfCustomers_fst (valid : Integrity c db) :
    (ordersOfCustomers db).map Prod.fst = db.newOrder :=
  join_key_fst valid.customers valid.orderCustomer

theorem itemsOfDistributors_fst (valid : Integrity c db) :
    (join (fun row d => row.distributorId = d.id) db.item db.distributor).map Prod.fst = db.item :=
  join_key_fst valid.distributors valid.itemDistributor

theorem itemsOfTypes_fst (valid : Integrity c db) :
    (join (fun row t => row.1.typeId = t.id)
      (join (fun row d => row.distributorId = d.id) db.item db.distributor) db.itemType).map
        (fun row => row.1.1) = db.item := by
  have types : (join (fun row t => row.1.typeId = t.id)
      (join (fun row d => row.distributorId = d.id) db.item db.distributor) db.itemType).map
        Prod.fst = join (fun row d => row.distributorId = d.id) db.item db.distributor :=
    join_key_fst valid.types fun row member => valid.itemType row.1 (mem_join.mp member).1
  have both := congrArg (List.map Prod.fst) types
  rw [List.map_map, itemsOfDistributors_fst valid] at both
  exact both

theorem orderLines_fst (valid : Integrity c db) (id : Option Int) :
    (orderLines id db).map Prod.fst = db.orderedItem.filter fun line => some line.orderId = id :=
  join_key_fst valid.items fun line member => valid.lineItem line (List.mem_of_mem_filter member)

theorem mem_orderLines {id : Option Int} {line : Line} (member : line ∈ orderLines id db) :
    line.1 ∈ db.orderedItem ∧ some line.1.orderId = id ∧ line.2 ∈ db.item ∧
      line.1.itemId = line.2.id := by
  obtain ⟨ordered,item,same⟩ := mem_join.mp member
  obtain ⟨inside,order⟩ := List.mem_filter.mp ordered
  exact ⟨inside, by simpa using order, item, by simpa using same⟩

/-- Distributors and types add nothing to the lines of an order. -/
theorem catalogLines_fst (valid : Integrity c db) (id : Option Int) :
    (catalogLines id db).map Prod.fst = orderLines id db := by
  have types : (join (fun line t => line.2.typeId = t.id) (orderLines id db) db.itemType).map Prod.fst =
      orderLines id db :=
    join_key_fst valid.types fun line member => valid.itemType line.2 (mem_orderLines member).2.2.1
  have distributors : (join (fun line d => line.1.2.distributorId = d.id)
      (join (fun line t => line.2.typeId = t.id) (orderLines id db) db.itemType)
        db.distributor).map Prod.fst =
      join (fun line t => line.2.typeId = t.id) (orderLines id db) db.itemType :=
    join_key_fst valid.distributors fun line member =>
      valid.itemDistributor line.1.2 (mem_orderLines (mem_join.mp member).1).2.2.1
  have both := congrArg (List.map Prod.fst) distributors
  rw [List.map_map, types] at both
  rw [catalogLines, List.map_map]
  exact both

/-- The lines of all orders, order by order, are all lines. -/
theorem allOrderLines_perm (valid : Integrity c db) :
    (db.newOrder.flatMap fun o => (orderLines (some o.id) db).map Prod.fst).Perm db.orderedItem := by
  have each : (fun o : NewOrder => (orderLines (some o.id) db).map Prod.fst) =
      fun o => db.orderedItem.filter fun line => line.orderId = o.id := by
    funext o
    rw [orderLines_fst valid]
    simp only [Option.some.injEq]
  rw [each]
  exact flatMap_filter_key valid.orders valid.lineOrder

theorem forall₂_listed {α β γ : Type} {p : α → γ → Prop} {rows : List β} {source : β → α}
    {row : β → γ} {stored : List α} (all : rows.map source = stored)
    (each : ∀ b ∈ rows, p (source b) (row b)) : List.Forall₂ p stored (rows.map row) := by
  subst all
  rw [List.forall₂_map_left_iff, List.forall₂_map_right_iff, List.forall₂_same]
  exact each

end

/-- A deletion removes the customer with this telephone, its orders and their lines, and
nothing else. -/
structure DeletesCustomer (tel : Option Nat) (db after : Db) : Prop where
  customers : ∀ row, row ∈ after.customer ↔ row ∈ db.customer ∧ some row.telephone ≠ tel
  orders : ∀ o, o ∈ after.newOrder ↔ o ∈ db.newOrder ∧ some o.customerTel ≠ tel
  lines : ∀ line, line ∈ after.orderedItem ↔ line ∈ db.orderedItem ∧
    ∀ o ∈ db.newOrder, o.id = line.orderId → some o.customerTel ≠ tel
  others : after = { db with
    customer := after.customer
    newOrder := after.newOrder
    orderedItem := after.orderedItem }

/-- The keys of a state are in order, its listings are complete, and the deletion of a
customer is exact. -/
structure Complete (c : Collation) (db : Db) : Prop where
  integrity : Integrity c db
  users : List.Forall₂ (fun u row => ∃ r ∈ db.userRank, r.id = u.rank ∧ row =
    [.text u.login, .ofText u.sname, .ofText u.name, .ofText u.pname, .ofText r.name])
    db.user (getUsers db).rows
  customers : List.Forall₂ (fun customer row => row = [.int customer.telephone,
    .ofText customer.sname, .ofText customer.name, .ofText customer.pname])
    db.customer (getCustomers db).rows
  orders : List.Forall₂ (fun o row => ∃ customer ∈ db.customer, customer.telephone = o.customerTel ∧
    row = orderRow (o, customer)) db.newOrder (getOrders db).rows
  items : List.Forall₂ (fun item row => ∃ d ∈ db.distributor, ∃ t ∈ db.itemType,
    d.id = item.distributorId ∧ t.id = item.typeId ∧ row = [.int item.id, .text item.name,
      .double item.cost, .int item.countOnWarehouse, .text d.name, .text t.name,
      .text item.description]) db.item (getItems db).rows
  lines : (db.newOrder.flatMap fun o => (getOrderItems (some o.id) db).rows.map List.head?).Perm
    (db.orderedItem.map fun line => some (.int line.id))
  deletion : ∀ tel after, deleteCustomer tel db = .ok after → DeletesCustomer tel db after

section
variable {c : Collation} {db : Db}

theorem deletesCustomer {tel : Option Nat} {after : Db} (done : deleteCustomer tel db = .ok after) :
    DeletesCustomer tel db after := by
  cases done
  constructor
  · intro row
    simp
  · intro o
    simp
  · intro line
    simp only [List.mem_filter, Bool.not_eq_true', List.any_eq_false, decide_eq_true_eq, not_and]
  · rfl

theorem Integrity.complete (valid : Integrity c db) : Complete c db := by
  refine ⟨valid, ?_, ?_, ?_, ?_, ?_, fun tel after => deletesCustomer⟩
  · apply forall₂_listed (usersWithRanks_fst valid)
    intro row member
    obtain ⟨-,rank,same⟩ := mem_join.mp member
    exact ⟨row.2, rank, by simpa [eq_comm] using same, rfl⟩
  · apply forall₂_listed (List.map_id _)
    exact fun row _ => rfl
  · apply forall₂_listed (ordersOfCustomers_fst valid)
    intro row member
    obtain ⟨-,customer,same⟩ := mem_join.mp member
    exact ⟨row.2, customer, by simpa [eq_comm] using same, rfl⟩
  · apply forall₂_listed (itemsOfTypes_fst valid)
    intro row member
    obtain ⟨inner,type,typed⟩ := mem_join.mp member
    obtain ⟨-,distributor,distributed⟩ := mem_join.mp inner
    exact ⟨row.1.2, distributor, row.2, type, by simpa [eq_comm] using distributed,
      by simpa [eq_comm] using typed, rfl⟩
  · have each : (fun o : NewOrder => (getOrderItems (some o.id) db).rows.map List.head?) = fun o =>
        ((orderLines (some o.id) db).map Prod.fst).map fun line => some (.int line.id) := by
      funext o
      rw [← catalogLines_fst valid, getOrderItems, List.map_map, List.map_map, List.map_map]
      rfl
    rw [each, ← List.map_flatMap]
    exact (allOrderLines_perm valid).map _

end

theorem reachable_integrity (c : Collation) (calls : List (Occasion × Update)) :
    Integrity c (Transition.execute (fun call => call.2.apply c call.1) calls schema) :=
  Transition.execute_preserves (Integrity c)
    (fun _ call valid => Update.apply_integrity valid call.1 call.2) calls schema (schema_integrity c)

/-- In every state that calls of the changing procedures reach from the tables of `db.sql`,
the keys hold and the listings are complete. -/
theorem reachable_complete (c : Collation) (calls : List (Occasion × Update)) :
    Complete c (Transition.execute (fun call => call.2.apply c call.1) calls schema) :=
  (reachable_integrity c calls).complete

def closingCalls (dateOfExpire : Int) : List Update :=
  [.createUser "amogus" "80c5e536eec8387cccad28b8b17b933832244998d85918abf18cc9bada5d4fe9"
      "amogus_sname" "amogus_name" "amogus_pname" (some 1),
    .createUser "abobus" "32c9a2ec9e0c4e3a4cc93012b2e72c04b2c395578dcc80b535e951b452eaf9a3"
      "amogus_sname" "amogus_name" "amogus_pname" (some 2),
    .createUser "amongaust" "a2c1492a15db8248ab62f9575d18753b5fda78b7ab3e89111af2ece23849a51c"
      "amogus_sname" "amogus_name" "amogus_pname" (some 3),
    .createCustomer (some 123) "c1_name" "c1_sname" "c1_pname",
    .createCustomer (some 456) "c2_name" "c2_sname" "c2_pname",
    .createCustomer (some 789) "c3_name" "c3_sname" "c3_pname",
    .addItem "Ryzen 5 1600" (some ⟨25009, -2⟩) (some 189) (some 1) (some 1)
      "Ryzen 5 1600, 6 cores, 12 threads",
    .addItem "NVIDIA GTX 1080Ti" (some ⟨10584, -1⟩) (some 53) (some 2) (some 2)
      "GPU NVIDIA GTX1080Ti",
    .addItem "Intel Core i3 9100F" (some ⟨1353, -1⟩) (some 456) (some 3) (some 1)
      "Intel Core i3 9100F 4 cores, 8 threads",
    .addOrder (some 123) (some dateOfExpire),
    .addOrderedItem (some 1) (some 1) (some 18), .addOrderedItem (some 1) (some 2) (some 7),
    .addOrderedItem (some 1) (some 3) (some 75), .addOrderedItem (some 1) (some 1) (some 9)]

/-- The state `db.sql` leaves, run at a time. -/
def installed (c : Collation) (now dateOfExpire : Int) : Db :=
  Transition.execute (fun u => u.apply c ⟨now, .first⟩) (closingCalls dateOfExpire) schema

theorem installed_integrity (c : Collation) (now dateOfExpire : Int) :
    Integrity c (installed c now dateOfExpire) :=
  Transition.execute_preserves (Integrity c) (fun _ u valid => Update.apply_integrity valid _ u)
    _ _ (schema_integrity c)

theorem installed_seeded : installed .binary (19675 * 86400) 20041 = seeded := by decide

theorem seeded_integrity : Integrity .binary seeded :=
  installed_seeded ▸ installed_integrity .binary _ _

end PcCourse
