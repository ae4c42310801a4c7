import PcCourse.DecimalText
import PcCourse.StoredValues
import PcCourse.FalseSuccess
import PcCourse.SalesReports
import Mathlib.Data.Int.Interval
import Mathlib.Algebra.Order.BigOperators.Group.List

/-! The conversion of result sets in the states that the handlers reach from `db.sql`: no
assertion of `serialize_query_result` fails. -/
namespace PcCourse.UserRequest

open SqlCall Grouping Outcome

/-- The cell is what its field asks for: no NULL where it is denied, and a text of the type. -/
def Converts (e : Engine) (field : FieldAndType) (cell : SqlValue) : Prop :=
  match e.text cell with
  | none => field.denyNull = false
  | some text => (field.type.read text).isSome = true

/-- Doubles come from the database as numerals. -/
def WritesNumerals (e : Engine) : Prop :=
  ∀ d, (Numeral.signedDecimal? (e.doubleText d).toList).isSome = true

/-- The fields are columns of the result, and all their cells are what they ask for. -/
structure Listed (e : Engine) (set : ResultSet) (fields : List FieldAndType) : Prop where
  columns : ∀ field ∈ fields, field.fieldName ∈ set.fields
  cells : ∀ row ∈ set.rows, ∀ field ∈ fields, ∃ cell,
    row[set.fields.idxOf field.fieldName]? = some cell ∧ Converts e field cell

section
variable {e : Engine} {set : ResultSet} {fields : List FieldAndType}

theorem mapM_isSome {α β : Type} {f : α → Option β} {xs : List α}
    (each : ∀ x ∈ xs, (f x).isSome = true) : (xs.mapM f).isSome = true := by
  simp only [Option.isSome_iff_exists, mapM_eq_some]
  induction xs with
  | nil => exact ⟨[], .nil⟩
  | cons x rest ih =>
    rw [List.forall_mem_cons] at each
    obtain ⟨y,head⟩ := Option.isSome_iff_exists.mp each.1
    obtain ⟨ys,tail⟩ := ih each.2
    exact ⟨y :: ys, .cons head tail⟩

theorem fieldNum_eq {name : String} (column : name ∈ set.fields) :
    fieldNum (some set) name = some (set.fields.idxOf name) := by
  change set.fields.findIdx? (· == name) = some (set.fields.idxOf name)
  rw [List.findIdx?_eq_some_iff_findIdx_eq]
  exact ⟨List.idxOf_lt_length_of_mem column, rfl⟩

theorem indices_eq (columns : ∀ field ∈ fields, field.fieldName ∈ set.fields) :
    fields.mapM (fun field => fieldNum (some set) field.fieldName) =
      some (fields.map fun field => set.fields.idxOf field.fieldName) := by
  rw [mapM_eq_some, List.forall₂_map_right_iff, List.forall₂_same]
  exact fun field member => fieldNum_eq (columns field member)

/-- The induction is on the fields still to be read; the table they go to is arbitrary. -/
theorem rowFields_isSome {row : List SqlValue} {item : LuaFields} {index : FieldAndType → Nat}
    (cells : ∀ field ∈ fields, ∃ cell, row[index field]? = some cell ∧ Converts e field cell) :
    (rowFields e row item (fields.zip (fields.map index))).isSome = true := by
  induction fields generalizing item with
  | nil => rfl
  | cons field rest ih =>
    obtain ⟨⟨cell,found,converts⟩,others⟩ := List.forall_mem_cons.mp cells
    rw [List.map_cons, List.zip_cons_cons, rowFields, found]
    unfold Converts at converts
    cases text : e.text cell with
    | none =>
      rw [text] at converts
      simp only [text, converts, Bool.false_eq_true, if_false]
      exact ih others
    | some s =>
      rw [text] at converts
      obtain ⟨value,read⟩ := Option.isSome_iff_exists.mp converts
      simp only [text, read]
      exact ih others

theorem Listed.serialize (listed : Listed e set fields) (it : Iteration) (tableName : String) :
    (serializeQueryResult e it (some set) tableName fields).isSome = true := by
  have rows : (set.rows.mapM fun row => rowFields e row []
      (fields.zip (fields.map fun field => set.fields.idxOf field.fieldName))).isSome = true :=
    mapM_isSome fun row member => rowFields_isSome (listed.cells row member)
  obtain ⟨items,converted⟩ := Option.isSome_iff_exists.mp rows
  simp [serializeQueryResult, indices_eq listed.columns, converted]

theorem Listed.of_map {α : Type} {xs : List α} {row : α → List SqlValue} {names : List String}
    (columns : ∀ field ∈ fields, field.fieldName ∈ names)
    (cells : ∀ x ∈ xs, ∀ field ∈ fields, ∃ cell,
      (row x)[names.idxOf field.fieldName]? = some cell ∧ Converts e field cell) :
    Listed e ⟨names, xs.map row⟩ fields := by
  refine ⟨columns, fun cellsOf member => ?_⟩
  obtain ⟨x,inside,rfl⟩ := List.mem_map.mp member
  exact cells x inside

end

section
variable {e : Engine} {name : String} {deny : Bool}

theorem converts_text (s : String) : Converts e ⟨name, .string, deny⟩ (.text s) := rfl

theorem converts_ofText {s : Option String} (filled : s.isSome = true) :
    Converts e ⟨name, .string, deny⟩ (.ofText s) := by
  obtain ⟨text,rfl⟩ := Option.isSome_iff_exists.mp filled
  exact converts_text text

theorem fromCharsInt_toString {n : Int} (low : int64Min ≤ n) (high : n ≤ int64Max) :
    fromCharsInt (toString n) = some n := by
  unfold fromCharsInt
  rw [Numeral.toList_toString, Numeral.signed?_ofInt]
  simp [low, high]

theorem converts_int {n : Int} (low : int64Min ≤ n) (high : n ≤ int64Max) :
    Converts e ⟨name, .int, deny⟩ (.int n) := by
  have read : (VMType.int.read (toString n)) = some (.int n) := by
    rw [VMType.read, fromCharsInt_toString low high]
    rfl
  unfold Converts
  change (VMType.int.read (toString n)).isSome = true
  rw [read]
  rfl

theorem converts_nat {n : Nat} (high : (n : Int) ≤ int64Max) :
    Converts e ⟨name, .int, deny⟩ (.int n) :=
  converts_int (Int.le_trans (by decide) (Int.natCast_nonneg n)) high

theorem converts_numbered {id : Int} (numbered : Numbered id) :
    Converts e ⟨name, .int, deny⟩ (.int id) :=
  converts_int (Int.le_trans (by decide) numbered.1) (Int.le_trans numbered.2 (by decide))

theorem unixTimestamp_range (day : Int) :
    0 ≤ unixTimestamp day ∧ unixTimestamp day ≤ lastTimestamp := by
  unfold unixTimestamp
  split
  next known => exact known
  next => exact ⟨Int.le_refl 0, by decide⟩

theorem converts_date (day : Int) : Converts e ⟨name, .int, deny⟩ (.int (unixTimestamp day)) :=
  converts_int (Int.le_trans (by decide) (unixTimestamp_range day).1)
    (Int.le_trans (unixTimestamp_range day).2 (by decide))

theorem converts_completion (day : Option Int) :
    Converts e ⟨name, .int, false⟩ (.ofInt (day.map unixTimestamp)) := by
  cases day with
  | none => rfl
  | some completed => exact converts_date completed

theorem converts_double (d : Decimal) (numeric : WritesNumerals e) :
    Converts e ⟨name, .number, deny⟩ (.double d) := by
  unfold Converts
  change ((Numeral.signedDecimal? (e.doubleText d).toList).map LuaValue.number).isSome = true
  rw [Option.isSome_map]
  exact numeric d

end

structure Listing where
  request : String
  procedure : Procedure
  tableName : String
  fields : List FieldAndType

def orderListing (request : String) (procedure : Procedure) (tableName : String) : Listing :=
  ⟨request, procedure, tableName, orderFieldTypes⟩

/-- The listing handlers, with the fields they ask for. -/
def listings : List Listing :=
  [⟨"get_users", .getUsers, "users", [⟨"login", .string, true⟩, ⟨"sname", .string, true⟩,
      ⟨"name", .string, true⟩, ⟨"pname", .string, true⟩, ⟨"rank", .string, true⟩]⟩,
    ⟨"get_ranks", .getRanks, "ranks", [⟨"id", .int, true⟩, ⟨"name", .string, true⟩]⟩,
    ⟨"get_customers", .getCustomers, "customers", [⟨"telephone", .int, true⟩,
      ⟨"sname", .string, true⟩, ⟨"name", .string, true⟩, ⟨"pname", .string, true⟩]⟩,
    orderListing "get_orders" .getOrders "orders",
    ⟨"get_order_items", .getOrderItems, "order_items", [⟨"id", .int, true⟩,
      ⟨"count_in_order", .int, true⟩, ⟨"name", .string, true⟩, ⟨"cost", .number, true⟩,
      ⟨"distributor", .string, true⟩, ⟨"description", .string, true⟩,
      ⟨"common_cost", .number, true⟩]⟩,
    ⟨"get_items", .getItems, "items", [⟨"id", .int, true⟩, ⟨"name", .string, true⟩,
      ⟨"cost", .number, true⟩, ⟨"count_on_warehouse", .int, true⟩, ⟨"distributor", .string, true⟩,
      ⟨"type", .string, true⟩, ⟨"description", .string, true⟩]⟩,
    ⟨"get_distributors", .getDistributors, "distributors",
      [⟨"id", .int, true⟩, ⟨"name", .string, true⟩]⟩,
    ⟨"get_item_types", .getItemTypes, "item_types",
      [⟨"id", .int, true⟩, ⟨"name", .string, true⟩]⟩,
    orderListing "get_expired_orders" .getExpiredOrders "expired_orders",
    orderListing "get_completed_orders" .getCompletedOrders "completed_orders",
    ⟨"get_statistics", .getSellsStatiscticsByDistributors, "statistics",
      [⟨"common_cost", .number, true⟩, ⟨"common_count", .int, true⟩,
        ⟨"distributor", .string, true⟩]⟩]

section
variable {e : Engine} {db : Db}

theorem getUsers_listed (listable : Listable db) :
    Listed e (PcCourse.getUsers db) [⟨"login", .string, true⟩, ⟨"sname", .string, true⟩,
      ⟨"name", .string, true⟩, ⟨"pname", .string, true⟩, ⟨"rank", .string, true⟩] := by
  apply Listed.of_map
  · decide
  · intro row member
    obtain ⟨user,ranked,-⟩ := mem_join.mp member
    obtain ⟨sname,name,pname⟩ := listable.users row.1 user
    have rank : row.2.name.isSome = true := by
      rw [listable.userRank] at ranked
      exact (by decide : ∀ r ∈ schema.userRank, r.name.isSome = true) row.2 ranked
    simp only [List.forall_mem_cons]
    exact ⟨⟨_, rfl, converts_text _⟩, ⟨_, rfl, converts_ofText sname⟩,
      ⟨_, rfl, converts_ofText name⟩, ⟨_, rfl, converts_ofText pname⟩,
      ⟨_, rfl, converts_ofText rank⟩, List.forall_mem_nil _⟩

theorem named_listed {α : Type} {xs : List α} {id : α → Int} {name : α → SqlValue}
    (each : ∀ x ∈ xs, Numbered (id x) ∧ Converts e ⟨"name", .string, true⟩ (name x)) :
    Listed e ⟨["id", "name"], xs.map fun x => [.int (id x), name x]⟩
      [⟨"id", .int, true⟩, ⟨"name", .string, true⟩] := by
  apply Listed.of_map
  · decide
  · intro x member
    obtain ⟨numbered,text⟩ := each x member
    simp only [List.forall_mem_cons]
    exact ⟨⟨_, rfl, converts_numbered numbered⟩, ⟨_, rfl, text⟩, List.forall_mem_nil _⟩

theorem getRanks_listed (listable : Listable db) :
    Listed e (PcCourse.getRanks db) [⟨"id", .int, true⟩, ⟨"name", .string, true⟩] := by
  apply named_listed
  rw [listable.userRank]
  intro r member
  have known : (1 ≤ r.id ∧ r.id ≤ intMax) ∧ r.name.isSome = true :=
    (by decide : ∀ r ∈ schema.userRank, (1 ≤ r.id ∧ r.id ≤ intMax) ∧ r.name.isSome = true) r member
  exact ⟨known.1, converts_ofText known.2⟩

theorem getDistributors_listed (listable : Listable db) :
    Listed e (PcCourse.getDistributors db) [⟨"id", .int, true⟩, ⟨"name", .string, true⟩] := by
  apply named_listed
  rw [listable.distributor]
  intro d member
  exact ⟨(by decide : ∀ d ∈ schema.distributor, 1 ≤ d.id ∧ d.id ≤ intMax) d member, converts_text _⟩

theorem getItemTypes_listed (listable : Listable db) :
    Listed e (PcCourse.getItemTypes db) [⟨"id", .int, true⟩, ⟨"name", .string, true⟩] := by
  apply named_listed
  rw [listable.itemType]
  intro t member
  exact ⟨(by decide : ∀ t ∈ schema.itemType, 1 ≤ t.id ∧ t.id ≤ intMax) t member, converts_text _⟩

theorem getCustomers_listed (listable : Listable db) :
    Listed e (PcCourse.getCustomers db) [⟨"telephone", .int, true⟩, ⟨"sname", .string, true⟩,
      ⟨"name", .string, true⟩, ⟨"pname", .string, true⟩] := by
  apply Listed.of_map
  · decide
  · intro row member
    obtain ⟨telephone,sname,name,pname⟩ := listable.customers row member
    simp only [List.forall_mem_cons]
    exact ⟨⟨_, rfl, converts_nat telephone⟩, ⟨_, rfl, converts_ofText sname⟩,
      ⟨_, rfl, converts_ofText name⟩, ⟨_, rfl, converts_ofText pname⟩, List.forall_mem_nil _⟩

/-- The listings of orders differ in the orders they choose only. -/
theorem orders_listed (listable : Listable db) {rows : List (NewOrder × Customer)}
    (chosen : rows ⊆ ordersOfCustomers db) : Listed e ⟨orderFields, rows.map orderRow⟩ orderFieldTypes := by
  apply Listed.of_map
  · decide
  · intro row member
    obtain ⟨stored,customer,-⟩ := mem_join.mp (chosen member)
    have numbered := listable.orders row.1 stored
    obtain ⟨telephone,sname,name,pname⟩ := listable.customers row.2 customer
    simp only [orderFieldTypes, List.forall_mem_cons]
    exact ⟨⟨_, rfl, converts_numbered numbered⟩, ⟨_, rfl, converts_date _⟩,
      ⟨_, rfl, converts_date _⟩, ⟨_, rfl, converts_completion _⟩,
      ⟨_, rfl, converts_nat telephone⟩, ⟨_, rfl, converts_ofText sname⟩,
      ⟨_, rfl, converts_ofText name⟩, ⟨_, rfl, converts_ofText pname⟩, List.forall_mem_nil _⟩

theorem converts_count {name : String} {deny : Bool} {count : Nat} (fits : count ≤ unsignedMax) :
    Converts e ⟨name, .int, deny⟩ (.int count) := by
  apply converts_nat
  have small : unsignedMax = 4294967295 := rfl
  have wide : int64Max = 9223372036854775807 := rfl
  omega

theorem getOrderItems_listed (listable : Listable db) (numeric : WritesNumerals e)
    (id : Option Int) :
    Listed e (PcCourse.getOrderItems id db) [⟨"id", .int, true⟩, ⟨"count_in_order", .int, true⟩,
      ⟨"name", .string, true⟩, ⟨"cost", .number, true⟩, ⟨"distributor", .string, true⟩,
      ⟨"description", .string, true⟩, ⟨"common_cost", .number, true⟩] := by
  apply Listed.of_map
  · decide
  · intro row member
    obtain ⟨joined,inner,rfl⟩ := List.mem_map.mp member
    have line := mem_orderLines (mem_join.mp (mem_join.mp inner).1).1
    obtain ⟨numbered,count⟩ := listable.lines joined.1.1.1 line.1
    simp only [List.forall_mem_cons]
    exact ⟨⟨_, rfl, converts_numbered numbered⟩, ⟨_, rfl, converts_count count⟩,
      ⟨_, rfl, converts_text _⟩, ⟨_, rfl, converts_double _ numeric⟩, ⟨_, rfl, converts_text _⟩,
      ⟨_, rfl, converts_text _⟩, ⟨_, rfl, converts_double _ numeric⟩, List.forall_mem_nil _⟩

theorem getItems_listed (listable : Listable db) (numeric : WritesNumerals e) :
    Listed e (PcCourse.getItems db) [⟨"id", .int, true⟩, ⟨"name", .string, true⟩,
      ⟨"cost", .number, true⟩, ⟨"count_on_warehouse", .int, true⟩, ⟨"distributor", .string, true⟩,
      ⟨"type", .string, true⟩, ⟨"description", .string, true⟩] := by
  apply Listed.of_map
  · decide
  · intro row member
    obtain ⟨numbered,count⟩ := listable.items row.1.1 (mem_join.mp (mem_join.mp member).1).1
    simp only [List.forall_mem_cons]
    exact ⟨⟨_, rfl, converts_numbered numbered⟩, ⟨_, rfl, converts_text _⟩,
      ⟨_, rfl, converts_double _ numeric⟩, ⟨_, rfl, converts_count count⟩,
      ⟨_, rfl, converts_text _⟩, ⟨_, rfl, converts_text _⟩, ⟨_, rfl, converts_text _⟩,
      List.forall_mem_nil _⟩

/-- Ids that differ and fit their column are no more than the column has. -/
theorem length_of_numbered {rows : List OrderedItem} (unique : (rows.map OrderedItem.id).Nodup)
    (numbered : ∀ line ∈ rows, Numbered line.id) : (rows.length : Int) ≤ intMax := by
  have inside : (rows.map OrderedItem.id).toFinset ⊆ Finset.Icc 1 intMax := by
    intro id member
    rw [List.mem_toFinset] at member
    obtain ⟨line,stored,rfl⟩ := List.mem_map.mp member
    exact Finset.mem_Icc.mpr (numbered line stored)
  have bound := Finset.card_le_card inside
  rw [List.toFinset_card_of_nodup unique, List.length_map, Int.card_Icc] at bound
  have positive : intMax = 2147483647 := rfl
  omega

/-- No line is sold twice. -/
theorem soldLines_length (valid : Integrity e.collation db) (start end_ : Option Int) :
    (soldLines start end_ db).length ≤ db.orderedItem.length := by
  have items : (join (fun line row => line.itemId = row.id) db.orderedItem db.item).map Prod.fst =
      db.orderedItem := join_key_fst valid.items valid.lineItem
  have orders : (join (fun line o => line.1.orderId = o.id)
      (join (fun line row => line.itemId = row.id) db.orderedItem db.item) db.newOrder).map Prod.fst =
      join (fun line row => line.itemId = row.id) db.orderedItem db.item :=
    join_key_fst valid.orders fun line member => valid.lineOrder line.1 (mem_join.mp member).1
  have lengths := congrArg List.length (congrArg (List.map Prod.fst) orders)
  rw [items, List.length_map, List.length_map] at lengths
  rw [← lengths]
  exact List.length_filter_le _ _

/-- What one distributor sold is counted in 64 bits: the lines are fewer than 2^31, and their
counts are below 2^32. -/
theorem soldCount_fits (valid : Integrity e.collation db) (listable : Listable db)
    {start end_ : Option Int} {group : ((Line × NewOrder) × Distributor) × List ((Line × NewOrder) × Distributor)}
    (isGroup : group ∈ groups (fun row => distributorGroup e.collation db row.2)
      (join (fun row d => row.1.2.distributorId = d.id) (soldLines start end_ db) db.distributor)) :
    ((group.1 :: group.2).map fun row => (row.1.1.count : Int)).sum ≤ int64Max := by
  have lines : (join (fun row d => row.1.2.distributorId = d.id) (soldLines start end_ db)
      db.distributor).map Prod.fst = soldLines start end_ db :=
    join_key_fst valid.distributors fun row member => valid.itemDistributor _ (SalesReports.mem_soldLines member)
  have count : ∀ n ∈ (group.1 :: group.2).map (fun row => (row.1.1.count : Int)), n ≤ unsignedMax := by
    intro n member
    obtain ⟨row,inside,rfl⟩ := List.mem_map.mp member
    have sold := (mem_join.mp (mem_of_mem_group isGroup inside).1).1
    have line := (mem_join.mp (mem_join.mp (List.mem_of_mem_filter sold)).1).1
    exact Int.ofNat_le.mpr (listable.lines row.1.1.1 line).2
  have sum := List.sum_le_card_nsmul _ _ count
  have few : (group.1 :: group.2).length ≤ db.orderedItem.length := by
    rw [group_eq isGroup]
    refine Nat.le_trans (List.length_filter_le _ _) ?_
    rw [← List.length_map Prod.fst, lines]
    exact soldLines_length valid start end_
  have all := length_of_numbered valid.lines fun line member => (listable.lines line member).1
  rw [List.length_map, nsmul_eq_mul] at sum
  calc
    _ ≤ ((group.1 :: group.2).length : Int) * unsignedMax := sum
    _ ≤ intMax * unsignedMax := Int.mul_le_mul_of_nonneg_right
      (Int.le_trans (Int.ofNat_le.mpr few) all) (Int.natCast_nonneg _)
    _ ≤ int64Max := by decide

theorem getStatistics_listed (valid : Integrity e.collation db) (listable : Listable db)
    (start end_ : Option Int) (numeric : WritesNumerals e) :
    Listed e (getSellsStatiscticsByDistributors e.collation start end_ db)
      [⟨"common_cost", .number, true⟩, ⟨"common_count", .int, true⟩,
        ⟨"distributor", .string, true⟩] := by
  apply Listed.of_map
  · decide
  · intro group isGroup
    have counted : 0 ≤ ((group.1 :: group.2).map fun row => (row.1.1.count : Int)).sum := by
      refine List.sum_nonneg fun n member => ?_
      obtain ⟨row,-,rfl⟩ := List.mem_map.mp member
      exact Int.natCast_nonneg _
    have fits := soldCount_fits valid listable isGroup
    simp only [List.forall_mem_cons]
    exact ⟨⟨_, rfl, converts_double _ numeric⟩,
      ⟨_, rfl, converts_int (Int.le_trans (by decide) counted) fits⟩, ⟨_, rfl, converts_text _⟩,
      List.forall_mem_nil _⟩

theorem query_listed (valid : Integrity e.collation db) (listable : Listable db)
    (numeric : WritesNumerals e)
    {l : Listing} (registered : l ∈ listings) {q : Query} (now : Int)
    (named : (Statement.query q).procedure = l.procedure) :
    Listed e (q.run e.collation now db) l.fields := by
  simp only [listings, List.mem_cons, List.not_mem_nil, or_false] at registered
  rcases registered with rfl | rfl | rfl | rfl | rfl | rfl | rfl | rfl | rfl | rfl | rfl
  · cases q with
    | getUsers => exact getUsers_listed listable
    | _ => cases named
  · cases q with
    | getRanks => exact getRanks_listed listable
    | _ => cases named
  · cases q with
    | getCustomers => exact getCustomers_listed listable
    | _ => cases named
  · cases q with
    | getOrders => exact orders_listed listable (List.Subset.refl _)
    | _ => cases named
  · cases q with
    | getOrderItems id => exact getOrderItems_listed listable numeric id
    | _ => cases named
  · cases q with
    | getItems => exact getItems_listed listable numeric
    | _ => cases named
  · cases q with
    | getDistributors => exact getDistributors_listed listable
    | _ => cases named
  · cases q with
    | getItemTypes => exact getItemTypes_listed listable
    | _ => cases named
  · cases q with
    | getExpiredOrders => exact orders_listed listable (List.filter_subset_self _)
    | _ => cases named
  · cases q with
    | getCompletedOrders start end_ => exact orders_listed listable (List.filter_subset_self _)
    | _ => cases named
  · cases q with
    | getSellsStatiscticsByDistributors start end_ =>
      exact getStatistics_listed valid listable start end_ numeric
    | _ => cases named

theorem ran_listed (valid : Integrity e.collation db) (listable : Listable db)
    (numeric : WritesNumerals e)
    {l : Listing} (registered : l ∈ listings) {args : List String} {effect : Engine.Effect}
    (ran : Ran e l.procedure args db effect) :
    ∃ set, effect.result = some set ∧ Listed e set l.fields := by
  obtain ⟨at_,done⟩ := ran
  unfold Engine.exec at done
  split at done
  · cases done
  next q compiled =>
    cases done
    exact ⟨_, rfl, query_listed valid listable numeric registered at_.now
      (Engine.compile_procedure compiled)⟩
  next u compiled =>
    have reads : ∀ l ∈ listings, l.procedure.scope = .nothing := by decide
    have named := Engine.compile_procedure compiled
    have changes : (Statement.update u).procedure.scope ≠ .nothing := by
      cases u <;> simp [Statement.procedure, Procedure.scope]
    exact absurd (named ▸ reads l registered) changes

end

def Answers (reply : Reply) : Prop := reply.session.AllSucceeded → reply.response.isSome = true

section
variable {e : Engine} {k : Conditions} {config : LuaValue} {s : Session}

theorem guarded_answers {ranks : List String} {body : Session → Reply}
    (behind : ∀ s' : Session, s'.db = s.db → Answers (body s')) :
    Answers (guarded e k ranks config s body) := by
  rcases guarded_cases e k config ranks s body with ⟨str,-,-,same⟩ | ⟨-,same⟩
  · rw [same]
    exact fun _ => rfl
  · rw [same]
    exact behind _ check_db

theorem reading_answers {α : Type} {fields : Option α} {body : α → Reply}
    (behind : ∀ values, Answers (body values)) : Answers (reading fields s body) := by
  cases fields with
  | none => exact fun _ => rfl
  | some values => exact behind values

theorem listing_answers {l : Listing} {args : List String}
    (converts : ∀ effect, Ran e l.procedure args s.db effect →
      ∃ set, effect.result = some set ∧ Listed e set l.fields) :
    Answers (listing e k (callText l.procedure.name args) l.tableName l.fields s) := by
  unfold listing invokeStoredProcedure Answers
  cases outcome : s.issue e k (callText l.procedure.name args) with
  | error fault => exact fun succeeded => absurd succeeded (record_failed _ fault)
  | ok effect =>
    obtain ⟨set,result,listed⟩ := converts effect (ran_of_issue outcome)
    intro _
    simp only [Except.toOption, Option.bind_some, result, Option.isSome_map]
    exact listed.serialize k.iteration l.tableName

theorem handler_answers {func : LuaValue → Session → Reply} (valid : Integrity e.collation s.db)
    (listable : Listable s.db)
    (numeric : WritesNumerals e)
    {l : Listing} (registered : l ∈ listings) (found : (requests e k).lookup l.request = some func) :
    Answers (func config s) := by
  have lists : ∀ s' : Session, s'.db = s.db → ∀ args,
      Answers (listing e k (callText l.procedure.name args) l.tableName l.fields s') := by
    intro s' same args
    refine listing_answers fun effect ran => ?_
    rw [same] at ran
    exact ran_listed valid listable numeric registered ran
  simp only [listings, List.mem_cons, List.not_mem_nil, or_false] at registered
  rcases registered with rfl | rfl | rfl | rfl | rfl | rfl | rfl | rfl | rfl | rfl | rfl
  all_goals cases found
  · exact guarded_answers fun s' same => lists s' same []
  · exact lists s rfl []
  · exact lists s rfl []
  · exact lists s rfl []
  · exact reading_answers fun id => lists s rfl [toString id]
  · exact lists s rfl []
  · exact lists s rfl []
  · exact lists s rfl []
  · exact guarded_answers fun s' same => lists s' same []
  · exact reading_answers fun dates => lists s rfl dates
  · exact reading_answers fun dates => lists s rfl dates

end

/-- From `db.sql` on, after requests with plain texts, every result that a listing handler
converts has the fields it asks for, no NULL where that is denied, and only integers of 64
bits, so that every listing whose calls succeed is answered. -/
theorem listings_convert (e : Engine) (numeric : WritesNumerals e) (now dateOfExpire : Int)
    (incoming : List Incoming) (plain : ∀ one ∈ incoming, ∀ config ∈ one.config, Plain config) :
    let db := run e incoming (installed e.collation now dateOfExpire)
    ∀ l ∈ listings,
      (∀ args effect, Ran e l.procedure args db effect →
        ∃ set, effect.result = some set ∧ Listed e set l.fields) ∧
      ∀ k func config, (requests e k).lookup l.request = some func →
        Answers (func config (.opening db)) := by
  intro db l registered
  have valid : Integrity e.collation db := run_integrity e incoming (installed_integrity ..)
  have listable : Listable db := run_listable e incoming plain (installed_listable ..)
  exact ⟨fun args effect ran => ran_listed valid listable numeric registered ran,
    fun k func config found => handler_answers valid listable numeric registered found⟩

theorem standard_numerals : WritesNumerals .standard := by
  intro d
  obtain ⟨read,numeral,-⟩ := DecimalText.format_denotes d
  exact Option.isSome_iff_exists.mpr ⟨read, numeral⟩

def largestTelephone : Incoming :=
  ⟨.calm 1700000000, some (.table [("request", .str "create_customer"), ("user", employee),
    ("new_customer", .table [("telephone", .int int64Max), ("sname", .str "Ivanov"),
      ("name", .str "Ivan"), ("pname", .str "")] [])] [])⟩

theorem largest_telephone_listed :
    let db := run .standard [largestTelephone] (installed Engine.standard.collation 1690000000 20041)
    ∀ l ∈ listings,
      (∀ args effect, Ran .standard l.procedure args db effect →
        ∃ set, effect.result = some set ∧ Listed .standard set l.fields) ∧
      ∀ k func config, (requests .standard k).lookup l.request = some func →
        Answers (func config (.opening db)) := by
  have plain : ∀ one ∈ [largestTelephone], ∀ config ∈ one.config, Plain config := by
    intro one member config parsed
    cases List.mem_singleton.mp member
    cases parsed
    refine .table ?_ (List.forall_mem_nil _)
    simp only [List.forall_mem_cons]
    refine ⟨.str (by decide), .table ?_ (List.forall_mem_nil _), .table ?_ (List.forall_mem_nil _),
      List.forall_mem_nil _⟩
    · simp only [List.forall_mem_cons]
      exact ⟨.str (by decide), .str (by decide), .str (by decide), List.forall_mem_nil _⟩
    · simp only [List.forall_mem_cons]
      exact ⟨.int (by decide) (by decide), .str (by decide), .str (by decide), .str (by decide),
        List.forall_mem_nil _⟩
  exact listings_convert .standard standard_numerals 1690000000 20041 [largestTelephone] plain

end PcCourse.UserRequest
