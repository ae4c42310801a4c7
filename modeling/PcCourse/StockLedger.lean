import PcCourse.Integrity
import PcCourse.Transition

/-! The stock of every item against a ledger of what was booked on it. The ledger
follows the calls alone: it adds what was added and subtracts, for an order that is
completed, the counts its lines ask for. -/
namespace PcCourse.StockLedger

open Grouping Transition

def ordered (id : Option Int) (db : Db) (item : Int) : Nat :=
  ((db.orderedItem.filter fun line => some line.orderId = id ∧ line.itemId = item).map
    OrderedItem.countInOrder).sum

def isOpen (id : Option Int) (db : Db) : Bool :=
  db.newOrder.any fun o => some o.id = id ∧ o.dateOfCompletion = none

structure Audit where
  db : Db
  book : Int → Int

/-- The entry a successful call makes, read off the state before the call. -/
def post (before : Db) (book : Int → Int) : Update → Int → Int
  | .addItem _ _ count _ _ _, i => if i = before.next.item then count.getD 0 else book i
  | .addItemCount id appended, i => if some i = id then book i + appended.getD 0 else book i
  | .completeOrder id, i => if isOpen id before then book i - ordered id before i else book i
  | _, i => book i

def audit (c : Collation) (step : Occasion × Update) (s : Audit) : Audit :=
  match step.2.exec c step.1 s.db with
  | .ok after => ⟨after, post s.db s.book step.2⟩
  | .error _ => s

/-- Items of the first state are booked with the count they have. -/
def openingBook (db : Db) (i : Int) : Int :=
  match db.item.find? (fun row => row.id = i) with
  | none => 0
  | some row => row.countOnWarehouse

def Balanced (s : Audit) : Prop :=
  ∀ row ∈ s.db.item, (row.countOnWarehouse : Int) = s.book row.id

def run (c : Collation) (db : Db) (steps : List (Occasion × Update)) : Audit :=
  execute (audit c) steps ⟨db, openingBook db⟩

/-- Lines of one distributor are lines of one item, unless they ask for nothing. -/
def OneItemPerDistributor (id : Option Int) (db : Db) : Prop :=
  ∀ a ∈ orderLines id db, ∀ b ∈ orderLines id db,
    a.distributor = b.distributor → a.2.id ≠ b.2.id → a.count = 0

/-- The state a call is made in lets the grouped subquery separate the items. -/
def Separable (s : Audit) (step : Occasion × Update) : Prop :=
  match step.2 with
  | .completeOrder id => isCompleted id s.db = false → OneItemPerDistributor id s.db
  | _ => True

section
variable {c : Collation} {db : Db}

theorem sum_lines_of_item (valid : Integrity c db) (id : Option Int) {row : Item}
    (member : row ∈ db.item) :
    (((orderLines id db).filter fun line => line.2.id = row.id).map Line.count).sum =
      ordered id db row.id := by
  have joined := sum_join_key valid.items member OrderedItem.itemId OrderedItem.countInOrder
    (db.orderedItem.filter fun line => some line.orderId = id)
  rw [List.filter_filter] at joined
  rw [ordered]
  refine Eq.trans joined ?_
  simp only [Bool.decide_and, Bool.and_comm]

/-- With one item per distributor the representative of a group is the item all its
lines are about, whichever line the engine picks. -/
theorem taken_eq_ordered (valid : Integrity c db) (pick : Pick Line) {id : Option Int}
    (separate : OneItemPerDistributor id db) {row : Item} (member : row ∈ db.item) :
    taken pick id db row.id = ordered id db row.id := by
  rw [← sum_lines_of_item valid id member]
  have sameItem : ∀ line ∈ orderLines id db, line.2.id = row.id → line.2 = row := by
    intro line inside same
    exact eq_of_id valid.items (mem_join.mp inside).2.1 member same
  unfold taken
  cases found : (completionTable pick id db).find? (fun entry => entry.1 = row.id) with
  | some entry =>
    have hit : entry.1 = row.id := by simpa using List.find?_some found
    obtain ⟨⟨first,rest⟩,isGroup,rfl⟩ := List.mem_map.mp (List.mem_of_find?_eq_some found)
    have chosen := pick.mem first rest
    simp only at hit
    have inGroup := mem_of_mem_group isGroup chosen
    have isRow := sameItem _ inGroup.1 hit
    -- the group is all lines of the distributor of `row`; outside `row` they count nothing
    have inDistributor : ∀ line ∈ first :: rest, line.distributor = row.distributorId := by
      intro line inside
      rw [(mem_of_mem_group isGroup inside).2, ← inGroup.2, Line.distributor, isRow]
    have zero : ∀ line ∈ first :: rest,
        decide (line.2.id = row.id) = false → line.count = 0 := by
      intro line inside other
      refine separate line (mem_of_mem_group isGroup inside).1 _ inGroup.1 ?_ ?_
      · rw [inDistributor line inside, inDistributor _ chosen]
      · rw [hit]
        simpa using other
    have covers : (first :: rest).filter (fun line => decide (line.2.id = row.id)) =
        (orderLines id db).filter (fun line => decide (line.2.id = row.id)) := by
      rw [group_eq isGroup, List.filter_filter]
      apply List.filter_congr
      intro line inside
      by_cases same : line.2.id = row.id
      · have : line.distributor = first.distributor := by
          rw [inDistributor _ List.mem_cons_self, Line.distributor, sameItem line inside same]
        simp [same, this]
      · simp [same]
    rw [← covers]
    exact (sum_filter_of_zero zero).symm
  | none =>
    -- no group is represented by `row`, so its lines share their group with another item
    have zero : ∀ line ∈ (orderLines id db).filter (fun line => decide (line.2.id = row.id)),
        line.count = 0 := by
      intro line inside
      have inLines := List.mem_of_mem_filter inside
      have same : line.2.id = row.id := by simpa using (List.mem_filter.mp inside).2
      obtain ⟨group,isGroup,key,inGroup⟩ :=
        @group_of_row _ _ _ Line.distributor _ line inLines
      have chosen := mem_of_mem_group isGroup (pick.mem group.1 group.2)
      refine separate line inLines _ chosen.1 (key.symm.trans chosen.2.symm) ?_
      intro equal
      rw [List.find?_eq_none] at found
      refine found _ (List.mem_map_of_mem isGroup) ?_
      simp only [decide_eq_true_eq]
      exact equal ▸ same
    symm
    rw [List.sum_eq_zero_iff_forall_eq_nat]
    intro n summand
    obtain ⟨line,inside,rfl⟩ := List.mem_map.mp summand
    exact zero line inside

def preferring (line : Line) : Pick Line where
  choose first rest := if line ∈ first :: rest then line else first
  mem first rest := by
    split
    next inside => exact inside
    next => exact List.mem_cons_self

/-- A line that asks for something is not booked on its item when the engine takes
the representative of its distributor from a line about another item. -/
theorem taken_preferring (valid : Integrity c db) {id : Option Int} {a b : Line}
    (ha : a ∈ orderLines id db) (hb : b ∈ orderLines id db) (together : a.distributor = b.distributor)
    (apart : a.2.id ≠ b.2.id) : taken (preferring b) id db a.2.id = 0 := by
  have none : (completionTable (preferring b) id db).find? (fun entry => entry.1 = a.2.id) = none := by
    rw [List.find?_eq_none]
    intro entry member hit
    obtain ⟨⟨first,rest⟩,isGroup,rfl⟩ := List.mem_map.mp member
    have chosen := mem_of_mem_group isGroup ((preferring b).mem first rest)
    simp only [decide_eq_true_eq] at hit
    -- the representative is about the item of `a`, so this is the group that contains `b`
    have item := eq_of_id valid.items (mem_join.mp chosen.1).2.1 (mem_join.mp ha).2.1 hit
    have distributor : first.distributor = b.distributor := by
      rw [← together, ← chosen.2, Line.distributor, Line.distributor, item]
    have inside : b ∈ first :: rest := by
      rw [group_eq isGroup]
      simp [hb, distributor]
    simp only [preferring, inside, if_true] at hit
    exact apart hit.symm
  simp [taken, none]

/-- The condition is exact: only then does every choice the engine may make take from
each item what the order asks of it. -/
theorem taken_eq_ordered_iff (valid : Integrity c db) (id : Option Int) :
    (∀ pick, ∀ row ∈ db.item, taken pick id db row.id = ordered id db row.id) ↔
      OneItemPerDistributor id db := by
  constructor
  · intro exact_ a ha b hb together apart
    have row := (mem_join.mp ha).2.1
    have zero := exact_ (preferring b) a.2 row
    rw [taken_preferring valid ha hb together apart, ← sum_lines_of_item valid id row] at zero
    have all := List.sum_eq_zero_iff_forall_eq_nat.mp zero.symm
    exact all _ (List.mem_map_of_mem (by simpa using ha))
  · exact fun separate pick row member => taken_eq_ordered valid pick separate member

theorem ordered_of_missing (valid : Integrity c db) {id : Option Int}
    (uncompleted : isCompleted id db = false) (missing : isOpen id db = false) (item : Int) :
    ordered id db item = 0 := by
  have noRow : ∀ o ∈ db.newOrder, some o.id ≠ id := by
    intro o inside same
    simp only [isCompleted, isOpen, List.any_eq_false, decide_eq_true_eq, not_and] at uncompleted missing
    cases completion : o.dateOfCompletion with
    | none => exact missing o inside same completion
    | some d => exact uncompleted o inside same (by simp [completion])
  have none : (db.orderedItem.filter fun line => some line.orderId = id ∧ line.itemId = item) = [] := by
    rw [List.filter_eq_nil_iff]
    intro line inside both
    obtain ⟨o,row,same⟩ := List.mem_map.mp (valid.lineOrder line inside)
    simp only [decide_eq_true_eq] at both
    exact noRow o row (same ▸ both.1)
  rw [ordered, none]
  rfl

theorem not_open_of_completed (valid : Integrity c db) {id : Option Int}
    (completed : isCompleted id db = true) : isOpen id db = false := by
  simp only [isCompleted, List.any_eq_true, decide_eq_true_eq] at completed
  obtain ⟨o,inside,isId,stamped⟩ := completed
  simp only [isOpen, List.any_eq_false, decide_eq_true_eq, not_and]
  intro other member sameId unstamped
  have equal := eq_of_id valid.orders member inside (Option.some.inj (sameId.trans isId.symm))
  rw [equal] at unstamped
  simp [unstamped] at stamped

end

structure Invariant (c : Collation) (s : Audit) : Prop where
  keys : Integrity c s.db
  balanced : Balanced s

theorem opening_balanced {c : Collation} {db : Db} (valid : Integrity c db) :
    Balanced ⟨db, openingBook db⟩ := by
  intro row member
  have found : db.item.find? (fun other => other.id = row.id) = some row := by
    have one := filter_key valid.items member
    rw [← List.head?_filter, one]
    rfl
  simp [openingBook, found]

theorem audit_invariant {c : Collation} (s : Audit) (step : Occasion × Update)
    (separable : Separable s step) (valid : Invariant c s) : Invariant c (audit c step s) := by
  obtain ⟨db,book⟩ := s
  obtain ⟨at_,u⟩ := step
  unfold audit
  cases outcome : u.exec c at_ db with
  | error e => exact valid
  | ok after =>
    refine ⟨Update.exec_integrity valid.keys outcome, ?_⟩
    have balanced := valid.balanced
    intro row member
    simp only at member ⊢
    cases u with
    | deleteUser login =>
      cases outcome
      exact balanced row member
    | createUser login pwd sname name pname rank =>
      obtain ⟨l,p,r,-,-,-,-,-,rfl⟩ := createUser_eq_ok outcome
      exact balanced row member
    | updateUser login sname name pname rank =>
      obtain ⟨r,-,-,rfl⟩ := updateUser_eq_ok outcome
      exact balanced row member
    | createCustomer tel sname name pname =>
      obtain ⟨t,-,-,rfl⟩ := createCustomer_eq_ok outcome
      exact balanced row member
    | deleteCustomer tel =>
      cases outcome
      exact balanced row member
    | addItem name cost count distributor type description =>
      obtain ⟨new,fresh,counted,-,-,rfl⟩ := addItem_eq_ok outcome
      rcases List.mem_append.mp member with old | last
      · have below := valid.keys.freshItem row old
        simp [post, Int.ne_of_lt below, balanced row old]
      · rw [List.mem_singleton.mp last]
        simp [post, fresh, counted]
    | addItemCount id appended =>
      obtain ⟨item,rfl,counts⟩ := addItemCount_eq_ok outcome
      obtain ⟨before,inside,shape,value⟩ := counts.origin member
      have same : row.id = before.id := by rw [shape]
      rw [value, balanced before inside, same]
      by_cases hit : some before.id = id <;> simp [post, hit]
    | addOrderedItem order item count =>
      obtain ⟨line,-,-,-,-,-,-,rfl⟩ := addOrderedItem_eq_ok outcome
      exact balanced row member
    | addOrder tel expire =>
      obtain ⟨o,-,-,-,-,-,-,rfl⟩ := addOrder_eq_ok outcome
      exact balanced row member
    | completeOrder id =>
      rcases completeOrder_eq_ok outcome with ⟨completed,rfl⟩ | ⟨uncompleted,item,rfl,counts⟩
      · simpa [post, not_open_of_completed valid.keys completed] using balanced row member
      · obtain ⟨before,inside,shape,value⟩ := counts.origin member
        have same : row.id = before.id := by rw [shape]
        rw [value, balanced before inside, same,
          taken_eq_ordered valid.keys at_.pick (separable uncompleted) inside]
        cases opened : isOpen id db with
        | true => simp [post, opened, Int.sub_eq_add_neg]
        | false => simp [post, opened, ordered_of_missing valid.keys uncompleted opened]

/-- In every run that completes an order only when no distributor has lines for two of
its items, every item holds what was booked on it. -/
theorem run_balanced (c : Collation) (db : Db) (valid : Integrity c db)
    (steps : List (Occasion × Update))
    (separable : Along (audit c) Separable steps ⟨db, openingBook db⟩) :
    Balanced (run c db steps) :=
  (execute_invariant (Invariant c) audit_invariant steps _ separable
    ⟨valid, opening_balanced valid⟩).balanced

def firstLine : Occasion := ⟨1700000000, Pick.first⟩

def sharedDistributor : List (Occasion × Update) :=
  [.addItem (some "Ryzen 5 1600") (some ⟨25009, -2⟩) (some 189) (some 1) (some 1) (some "CPU"),
   .addItem (some "Ryzen 7 1700") (some ⟨30009, -2⟩) (some 200) (some 1) (some 1) (some "CPU"),
   .createCustomer (some 123) (some "c1_name") (some "c1_sname") (some "c1_pname"),
   .addOrder (some 123) (some 20000),
   .addOrderedItem (some 1) (some 1) (some 18),
   .addOrderedItem (some 1) (some 2) (some 7),
   .completeOrder (some 1)].map (firstLine, ·)

/-- The first item pays for both lines, the second for none. -/
theorem shared_distributor_unbalanced :
    ¬Balanced (run Collation.binary schema sharedDistributor) := by
  intro balanced
  have first := balanced ⟨1, "Ryzen 5 1600", ⟨25009, -2⟩, 164, 1, 1, "CPU"⟩ (by decide)
  revert first
  decide

def separateDistributors : List (Occasion × Update) :=
  [.addItem (some "Ryzen 5 1600") (some ⟨25009, -2⟩) (some 189) (some 1) (some 1) (some "CPU"),
   .addItem (some "NVIDIA GTX 1080Ti") (some ⟨10584, -1⟩) (some 53) (some 2) (some 2) (some "GPU"),
   .createCustomer (some 123) (some "c1_name") (some "c1_sname") (some "c1_pname"),
   .addOrder (some 123) (some 20000),
   .addOrderedItem (some 1) (some 1) (some 18),
   .addOrderedItem (some 1) (some 2) (some 7),
   .addOrderedItem (some 1) (some 1) (some 9),
   .completeOrder (some 1)].map (firstLine, ·)

theorem separate_distributors_balanced :
    Balanced (run Collation.binary schema separateDistributors) :=
  run_balanced _ _ (schema_integrity _) _ (by
    refine ⟨trivial,trivial,trivial,trivial,trivial,trivial,trivial,?_,trivial⟩
    intro _
    unfold OneItemPerDistributor
    decide)

end PcCourse.StockLedger
