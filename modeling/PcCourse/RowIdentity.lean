import PcCourse.OrderFinality

/-! What the ids of orders, lines and items stand for. An id that has been given out stays with
its row, also when the row is deleted or its insertion rolled back: orders can only be
completed, lines only disappear, and of the catalogue only the counts change. -/
namespace PcCourse

def Item.entry (row : Item) : Item := { row with countOnWarehouse := 0 }

theorem Recounted.entries {change : Int → Int} {rows updated : List Item}
    (counts : Recounted change rows updated) : updated.map Item.entry = rows.map Item.entry :=
  counts.column fun _ _ => rfl

/-- What can become of an order that stays: it is completed once. -/
def NewOrder.MayBecome (o after : NewOrder) : Prop :=
  after = o ∨ o.dateOfCompletion = none ∧ ∃ completed, after = { o with dateOfCompletion := some completed }

namespace UserRequest

open Transition

def linesOf (id : Int) (db : Db) : List OrderedItem :=
  db.orderedItem.filter fun line => line.orderId = id

/-- The ids given out before still stand for the same rows. -/
structure Preserved (first db : Db) : Prop where
  next : NoLater first.next db.next
  ranks : db.userRank = first.userRank
  distributors : db.distributor = first.distributor
  types : db.itemType = first.itemType
  items : ∃ new, db.item.map Item.entry = first.item.map Item.entry ++ new ∧
    ∀ row ∈ new, first.next.item ≤ row.id
  orders : ∀ o ∈ db.newOrder, o.id < first.next.newOrder → ∃ old ∈ first.newOrder, old.MayBecome o
  lines : ∀ line ∈ db.orderedItem, line.id < first.next.orderedItem → line ∈ first.orderedItem
  content : ∀ o ∈ db.newOrder, o.id < first.next.newOrder → linesOf o.id db = linesOf o.id first

theorem Preserved.refl (db : Db) : Preserved db db where
  next := .refl _
  ranks := rfl
  distributors := rfl
  types := rfl
  items := ⟨[], (List.append_nil _).symm, fun _ member => absurd member List.not_mem_nil⟩
  orders := fun o member _ => ⟨o, member, .inl rfl⟩
  lines := fun _ member _ => member
  content := fun _ _ _ => rfl

section
variable {c : Collation} {at_ : Occasion} {u : Update} {first db after : Db}

theorem Preserved.deleteCustomer (kept : Preserved first db) (valid : Integrity c db) {tel : Option Nat}
    (done : PcCourse.deleteCustomer tel db = .ok after) : Preserved first after := by
  cases done
  refine { kept with
    orders := fun o member => kept.orders o (List.mem_of_mem_filter member)
    lines := fun line member => kept.lines line (List.mem_of_mem_filter member)
    content := fun o member old => ?_ }
  obtain ⟨inside,other⟩ := List.mem_filter.mp member
  rw [← kept.content o inside old]
  simp only [linesOf]
  rw [List.filter_comm, List.filter_eq_self]
  intro line ofOrder
  have same := (List.mem_filter.mp ofOrder).2
  simp only [Bool.not_eq_true', List.any_eq_false, decide_eq_true_eq, not_and] at same ⊢
  intro row among key
  rw [eq_of_id valid.orders among inside (key.trans same)]
  simpa using other

theorem Preserved.stamp (kept : Preserved first db) (now : Int) {id : Option Int}
    (uncompleted : isCompleted id db = false) : Preserved first (stampOrder now id db) := by
  have origin : ∀ o ∈ (stampOrder now id db).newOrder, ∃ before ∈ db.newOrder, before.id = o.id ∧
      (o = before ∨ before.dateOfCompletion = none ∧
        o = { before with dateOfCompletion := some (day now) }) := by
    intro o member
    obtain ⟨before,inside,rfl⟩ := List.mem_map.mp member
    refine ⟨before, inside, ?_⟩
    split
    next same =>
      have open_ := List.any_eq_false.mp uncompleted before inside
      exact ⟨rfl, .inr ⟨by simpa [same] using open_, rfl⟩⟩
    next => exact ⟨rfl, .inl rfl⟩
  refine { kept with
    orders := fun o member old => ?_
    content := fun o member old => ?_ }
  · obtain ⟨before,inside,same,shape⟩ := origin o member
    obtain ⟨oldest,there,became⟩ := kept.orders before inside (same ▸ old)
    refine ⟨oldest, there, ?_⟩
    rcases shape with rfl | ⟨open_,rfl⟩
    · exact became
    · rcases became with rfl | ⟨-,completed,rfl⟩
      · exact .inr ⟨open_, _, rfl⟩
      · cases open_
  · obtain ⟨before,inside,same,-⟩ := origin o member
    have lines := kept.content before inside (same ▸ old)
    rw [← same]
    exact lines

/-- What a statement keeps that inserts no line for an order of the first state. -/
theorem Preserved.exec (kept : Preserved first db) (valid : Integrity c db)
    (done : u.exec c at_ db = .ok after)
    (elsewhere : ∀ id item count, u = .addOrderedItem (some id) item count →
      ∀ o ∈ db.newOrder, o.id < first.next.newOrder → id ≠ o.id) : Preserved first after := by
  have next := kept.next.trans (exec_noLater done)
  cases u with
  | deleteUser login =>
    cases done
    exact { kept with }
  | createUser login pwd sname name pname rank =>
    obtain ⟨l,p,r,-,-,-,-,-,rfl⟩ := createUser_eq_ok done
    exact { kept with }
  | updateUser login sname name pname rank =>
    obtain ⟨r,-,-,rfl⟩ := updateUser_eq_ok done
    exact { kept with }
  | createCustomer tel sname name pname =>
    obtain ⟨t,-,-,rfl⟩ := createCustomer_eq_ok done
    exact { kept with }
  | deleteCustomer tel => exact kept.deleteCustomer valid done
  | addItem name cost count distributor type description =>
    obtain ⟨row,fresh,-,-,-,rfl⟩ := addItem_eq_ok done
    refine { kept with
      next
      items := ?_ }
    obtain ⟨new,shape,later⟩ := kept.items
    refine ⟨new ++ [row.entry], ?_, forall_snoc later ?_⟩
    · rw [List.map_append, shape, List.append_assoc]
      rfl
    · exact fresh ▸ kept.next.item
  | addItemCount id appended =>
    obtain ⟨item,rfl,counts⟩ := addItemCount_eq_ok done
    refine { kept with items := ?_ }
    rw [counts.entries]
    exact kept.items
  | addOrderedItem order item count =>
    obtain ⟨line,fresh,rfl,-,-,-,-,rfl⟩ := addOrderedItem_eq_ok done
    refine { kept with
      next
      lines := ?_
      content := fun o member old => ?_ }
    · have later := kept.next.orderedItem
      exact forall_snoc kept.lines fun old => by omega
    · rw [← kept.content o member old]
      exact filter_snoc_other (elsewhere line.orderId item count rfl o member old)
  | addOrder tel expire =>
    obtain ⟨new,fresh,-,-,-,-,-,rfl⟩ := addOrder_eq_ok done
    have later := kept.next.newOrder
    refine { kept with
      next
      orders := forall_snoc kept.orders fun old => by omega
      content := forall_snoc kept.content fun old => by omega }
  | completeOrder id =>
    rcases completeOrder_eq_ok done with ⟨-,rfl⟩ | ⟨uncompleted,item,rfl,counts⟩
    · exact kept
    · have recounted : Preserved first { db with item } := { kept with
        items := by rw [counts.entries]; exact kept.items }
      exact recounted.stamp at_.now uncompleted

end

section
variable {e : Engine} {p : Procedure} {args : List String} {first db after : Db} {effect : Engine.Effect}

theorem Preserved.ran (kept : Preserved first db) (valid : Integrity e.collation db)
    (ran : Ran e p args db effect) (elsewhere : p ≠ .addOrderedItem) : Preserved first effect.db := by
  rcases ran.cases with same | ⟨at_,u,-,named,done⟩
  · rwa [same]
  · refine kept.exec valid done ?_
    rintro id item count rfl
    exact absurd named.symm elsewhere

/-- The lines of an order that the first state does not have. The induction is on the lines. -/
theorem Preserved.addedLines {orderId : Int} (kept : Preserved first db) (valid : Integrity e.collation db)
    (counted : Counted db) (new : orderId < 1 ∨ first.next.newOrder ≤ orderId)
    (added : Lines e orderId db after) : Preserved first after := by
  induction added with
  | none => exact kept
  | line ran _ ih =>
    refine ih ?_ (ran.integrity valid) (counted.ran ran)
    rcases ran.cases with same | ⟨at_,u,compiled,-,done⟩
    · rwa [same]
    · obtain ⟨item,count,rfl⟩ := addOrderedItem_id compiled
      refine kept.exec valid done fun id item' count' same o member old => ?_
      cases same
      have positive := counted.positive o member
      omega

theorem Preserved.placed (kept : Preserved first db) (valid : Integrity e.collation db)
    (counted : Counted db) (placed : Placed e db after) : Preserved first after := by
  obtain ⟨effect,_,_,ran,added⟩ := placed
  have later := kept.next.newOrder
  have positive := counted.next
  refine (kept.ran valid ran (by decide)).addedLines (ran.integrity valid) (counted.ran ran) ?_ added
  rcases addOrder_insertId ran with none_ | ⟨new,fits⟩
  · exact .inl (by omega)
  · rw [new, toInt32_of_range (by omega) fits]
    exact .inr later

theorem Preserved.handled (kept : Preserved first db) (valid : Integrity e.collation db)
    (counted : Counted db) {config : LuaValue} (handled : Handled e config db after) :
    Preserved first after := by
  cases handled with
  | unchanged => exact kept
  | called written ran => exact kept.ran valid ran (by cases written <;> decide)
  | ordered placed => exact kept.placed valid counted placed
  | rolledBack placed => exact { kept with next := kept.next.trans placed.noLater }

/-- From `db.sql` on, between any two moments of any run of requests: an order, a line or an
item that has an id of the earlier moment is the row that had it then. Such an order has the
same lines, was placed by the same customer with the same dates, and stays completed; such
a line is unchanged; the catalogue only grows, and only the counts of its items change. -/
theorem rows_keep_identity (e : Engine) (now dateOfExpire : Int) (requests further : List Incoming) :
    let before := run e requests (installed e.collation now dateOfExpire)
    let after := run e further before
    (∀ o ∈ after.newOrder, o.id < before.next.newOrder → linesOf o.id after = linesOf o.id before ∧
      ∃ old ∈ before.newOrder, old.MayBecome o) ∧
    (∀ line ∈ after.orderedItem, line.id < before.next.orderedItem → line ∈ before.orderedItem) ∧
    (∃ new, after.item.map Item.entry = before.item.map Item.entry ++ new ∧
      ∀ row ∈ new, before.next.item ≤ row.id) ∧
    after.distributor = before.distributor ∧ after.itemType = before.itemType ∧
    after.userRank = before.userRank := by
  intro before after
  have start : Integrity e.collation before ∧ Counted before :=
    ⟨run_integrity e requests (installed_integrity ..), run_counted e requests (installed_counted ..)⟩
  have reached : (Integrity e.collation after ∧ Counted after) ∧ Preserved before after := by
    refine execute_preserves (fun db => (Integrity e.collation db ∧ Counted db) ∧ Preserved before db)
      (fun db incoming ⟨⟨valid,counted⟩,kept⟩ => ?_) further before ⟨start, .refl before⟩
    rcases serve_handled e incoming db with same | ⟨config,-,handled⟩
    · rw [same]
      exact ⟨⟨valid, counted⟩, kept⟩
    · exact ⟨⟨handled.integrity valid, counted.handled handled⟩, kept.handled valid counted handled⟩
  have kept := reached.2
  exact ⟨fun o member old => ⟨kept.content o member old, kept.orders o member old⟩, kept.lines, kept.items,
    kept.distributors, kept.types, kept.ranks⟩

end

end UserRequest
end PcCourse
