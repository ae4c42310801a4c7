import PcCourse.Listings
import PcCourse.DecimalText
import Mathlib.Algebra.BigOperators.Ring.Finset

/-! The reports on sales: four queries with different joins and groups count the same lines
once. -/
namespace PcCourse

open Grouping

namespace SalesReports

section
variable {a b : Decimal}

theorem value_shifted {exponent : Int} (lower : exponent ≤ a.exponent) :
    (a.shifted exponent : ℚ) * 10 ^ exponent = a.value := by
  have shape : a.exponent = ((a.exponent - exponent).toNat : Int) + exponent := by omega
  rw [Decimal.value, Decimal.shifted]
  conv_rhs => rw [shape, zpow_add₀ (by norm_num), zpow_natCast]
  push_cast
  ring

theorem value_add : (a + b).value = a.value + b.value := by
  have sum : (a + b).value = ((a.shifted (min a.exponent b.exponent) +
      b.shifted (min a.exponent b.exponent) : Int) : ℚ) * 10 ^ min a.exponent b.exponent := rfl
  rw [sum, Int.cast_add, add_mul, value_shifted (min_le_left _ _), value_shifted (min_le_right _ _)]

theorem value_foldl {α : Type} (weight : α → Decimal) (rows : List α) (start : Decimal) :
    (rows.foldl (fun total row => total + weight row) start).value =
      start.value + (rows.map fun row => (weight row).value).sum := by
  induction rows generalizing start with
  | nil => simp
  | cons row rest ih =>
    rw [List.foldl_cons, ih, value_add, List.map_cons, List.sum_cons, add_assoc]

theorem value_total {α : Type} (weight : α → Decimal) (rows : List α) :
    (rows.foldl (fun total row => total + weight row) Decimal.zero).value =
      (rows.map fun row => (weight row).value).sum := by
  rw [value_foldl]
  simp [Decimal.value, Decimal.zero]

end

/-- A number in a cell. -/
def amount : SqlValue → ℚ
  | .double d => d.value
  | .int n => n
  | _ => 0

/-- The cells of a field. -/
def column (set : ResultSet) (field : String) : List SqlValue :=
  set.rows.filterMap fun row => row[set.fields.idxOf field]?

def total (set : ResultSet) (field : String) : ℚ := ((column set field).map amount).sum

/-- The orders that a result lists. -/
def orderIds (set : ResultSet) : List (Option Int) :=
  (column set "id").map fun
    | .int id => some id
    | _ => none

theorem column_rows {α : Type} {xs : List α} {row : α → List SqlValue} {fields : List String}
    {field : String} {cell : α → SqlValue} (each : ∀ x, (row x)[fields.idxOf field]? = some (cell x)) :
    column ⟨fields, xs.map row⟩ field = xs.map cell := by
  induction xs with
  | nil => rfl
  | cons x rest ih =>
    rw [column] at ih ⊢
    rw [List.map_cons, List.filterMap_cons, each, ih]
    rfl

theorem total_rows {α : Type} {xs : List α} {row : α → List SqlValue} {fields : List String}
    {field : String} {cell : α → SqlValue} (each : ∀ x, (row x)[fields.idxOf field]? = some (cell x)) :
    total ⟨fields, xs.map row⟩ field = (xs.map fun x => amount (cell x)).sum := by
  rw [total, column_rows each, List.map_map]
  rfl

section
variable {c : Collation} {db : Db} {start end_ : Option Int}

theorem orderLines_eq (id : Int) : orderLines (some id) db =
    (join (fun line row => line.itemId = row.id) db.orderedItem db.item).filter
      fun line => line.1.orderId = id := by
  rw [orderLines, join_filter]
  simp only [Option.some.injEq]

/-- The lines sold are the lines of the orders completed. -/
theorem soldLines_perm : ((soldLines start end_ db).map Prod.fst).Perm
    ((db.newOrder.filter (completedIn start end_)).flatMap fun o => orderLines (some o.id) db) := by
  have swapped := filter_join_swap (fun (line : Line) (o : NewOrder) => decide (line.1.orderId = o.id))
    (completedIn start end_)
    (join (fun (line : OrderedItem) (row : Item) => decide (line.itemId = row.id)) db.orderedItem
      db.item) db.newOrder
  have lines : ((soldLines start end_ db).map Prod.fst).Perm _ := swapped.map Prod.fst
  rw [List.map_flatMap] at lines
  simp only [orderLines_eq]
  simpa [List.map_map, Function.comp_def] using lines

theorem mem_soldLines {row : Line × NewOrder} (member : row ∈ soldLines start end_ db) :
    row.1.2 ∈ db.item :=
  (mem_join.mp (mem_join.mp (List.mem_of_mem_filter member)).1).2.1

/-- What the lines sold weigh, order by order. -/
theorem sum_soldLines (weight : Line → ℚ) :
    ((soldLines start end_ db).map fun row => weight row.1).sum =
      ((db.newOrder.filter (completedIn start end_)).map fun o =>
        ((orderLines (some o.id) db).map weight).sum).sum := by
  have lines : ((soldLines start end_ db).map Prod.fst).Perm _ := soldLines_perm
  have all := (lines.map weight).sum_eq
  rw [List.map_map, List.map_flatMap, sum_flatMap] at all
  exact all

/-- What the lines sold weigh, distributor by distributor. -/
theorem sum_statistics (valid : Integrity c db) (weight : Line → ℚ) :
    ((groups (fun row => distributorGroup c db row.2)
      (join (fun row d => row.1.2.distributorId = d.id) (soldLines start end_ db)
        db.distributor)).map fun group => ((group.1 :: group.2).map fun row => weight row.1.1).sum).sum =
      ((soldLines start end_ db).map fun row => weight row.1).sum := by
  have lines : (join (fun row d => row.1.2.distributorId = d.id) (soldLines start end_ db)
      db.distributor).map Prod.fst = soldLines start end_ db :=
    join_key_fst valid.distributors fun row member => valid.itemDistributor _ (mem_soldLines member)
  rw [sum_groups, ← lines, List.map_map]
  rw [lines]
  rfl

theorem sum_orderItems (valid : Integrity c db) (weight : Line → ℚ) (id : Option Int) :
    ((catalogLines id db).map fun line => weight line.1).sum = ((orderLines id db).map weight).sum := by
  rw [← catalogLines_fst valid, List.map_map]
  rfl

theorem orderIds_completed (valid : Integrity c db) :
    orderIds (getCompletedOrders start end_ db) =
      (db.newOrder.filter (completedIn start end_)).map fun o => some o.id := by
  have listed : ((ordersOfCustomers db).filter fun row => completedIn start end_ row.1).map Prod.fst =
      db.newOrder.filter (completedIn start end_) := by
    rw [← ordersOfCustomers_fst valid, List.filter_map]
    rfl
  have ids : column (getCompletedOrders start end_ db) "id" =
      ((ordersOfCustomers db).filter fun row => completedIn start end_ row.1).map
        fun row => .int row.1.id := column_rows fun row => rfl
  rw [orderIds, ids, ← listed, List.map_map, List.map_map]
  rfl

theorem total_income : total (getIncome start end_ db) "income" =
    ((soldLines start end_ db).map fun row => row.1.cost.value).sum := by
  have sum := value_total (fun row : Line × NewOrder => row.1.cost) (soldLines start end_ db)
  rw [← sum]
  simp [total, column, getIncome, amount]

theorem total_orderItems (valid : Integrity c db) (id : Option Int) :
    total (getOrderItems id db) "common_cost" =
      ((orderLines id db).map fun line => line.cost.value).sum := by
  rw [← sum_orderItems valid]
  have cells : total (getOrderItems id db) "common_cost" =
      ((catalogLines id db).map fun line => amount (.double line.1.cost)).sum :=
    total_rows fun line => rfl
  exact cells

theorem total_orderCounts (valid : Integrity c db) (id : Option Int) :
    total (getOrderItems id db) "count_in_order" =
      ((orderLines id db).map fun line => (line.count : ℚ)).sum := by
  rw [← sum_orderItems valid]
  have cells : total (getOrderItems id db) "count_in_order" =
      ((catalogLines id db).map fun line => amount (.int line.1.1.countInOrder)).sum :=
    total_rows fun line => rfl
  simpa [amount, Line.count] using cells

theorem total_statistics (valid : Integrity c db) :
    total (getSellsStatiscticsByDistributors c start end_ db) "common_cost" =
      ((soldLines start end_ db).map fun row => row.1.cost.value).sum := by
  have lines : _ = ((soldLines start end_ db).map fun row => row.1.cost.value).sum :=
    sum_statistics valid fun line => line.cost.value
  rw [← lines]
  refine (total_rows fun group => rfl).trans ?_
  refine congrArg List.sum (List.map_congr_left fun group _ => ?_)
  exact value_total (fun row : (Line × NewOrder) × Distributor => row.1.1.cost) _

theorem total_statisticsCounts (valid : Integrity c db) :
    total (getSellsStatiscticsByDistributors c start end_ db) "common_count" =
      ((soldLines start end_ db).map fun row => (row.1.count : ℚ)).sum := by
  have lines : _ = ((soldLines start end_ db).map fun row => (row.1.count : ℚ)).sum :=
    sum_statistics valid fun line => (line.count : ℚ)
  rw [← lines]
  refine (total_rows fun group => rfl).trans ?_
  refine congrArg List.sum (List.map_congr_left fun group _ => ?_)
  simp [amount, Function.comp_def]

end

/-- In every state the procedures reach and for every two dates, the reports on income, on
distributors and on completed orders agree. -/
theorem reports_agree (c : Collation) (calls : List (Occasion × Update)) (start end_ : Option Int) :
    let db := Transition.execute (fun call => call.2.apply c call.1) calls schema
    let orders := orderIds (getCompletedOrders start end_ db)
    let statistics := getSellsStatiscticsByDistributors c start end_ db
    total (getIncome start end_ db) "income" = total statistics "common_cost" ∧
    total (getIncome start end_ db) "income" =
      (orders.map fun id => total (getOrderItems id db) "common_cost").sum ∧
    total statistics "common_count" =
      (orders.map fun id => total (getOrderItems id db) "count_in_order").sum := by
  intro db orders statistics
  have valid : Integrity c db := (reachable_integrity c calls)
  refine ⟨?_, ?_, ?_⟩
  · exact total_income.trans (total_statistics valid).symm
  · simp only [orders, total_income, orderIds_completed valid, List.map_map, Function.comp_def,
      total_orderItems valid]
    exact sum_soldLines fun line => line.cost.value
  · simp only [statistics, orders, total_statisticsCounts valid, orderIds_completed valid,
      List.map_map, Function.comp_def, total_orderCounts valid]
    exact sum_soldLines fun line => (line.count : ℚ)

end SalesReports
end PcCourse
